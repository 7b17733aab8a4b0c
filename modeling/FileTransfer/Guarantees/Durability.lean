import FileTransfer.Guarantees.Persistence
import FileTransfer.Server.Disk
import FileTransfer.Server.UserCalls

/-! # Durability

Whether the files that a user operation leaves behind load the table that it leaves in
memory. Saving reports nothing, so an operation that returns is acknowledged whatever became
of the files; one that closes the database file twice does not return.
-/

namespace FileTransfer

open Foundation Posix

/-! ## What a start loads -/

def Loads (sha : Sha256) (tree : FileTree) (homeDir : VerifiedPath)
    (users : HashTable CString UserAccount) : Prop :=
  ∀ env : Env, env.Smooth → ∃ db after,
    dbInit env sha tree homeDir = .ok (some db, after) ∧
      ∀ name, db.usersHtable.get name = users.get name

theorem reloads_iff {text : Bytes} {users : HashTable CString UserAccount} :
    Reloads text users ↔ ∃ reloaded, StoredUsers text reloaded ∧
      ∀ name, reloaded.get name = users.get name := by
  constructor
  · intro reloads
    rcases reloads ⟨[], text, []⟩ rfl with ⟨data, reloaded, stored, populated, same⟩
    rcases getStoredData_some_iff.mp stored with ⟨magic, rfl⟩
    refine ⟨reloaded, ⟨magic, fun content stream => ?_⟩, same⟩
    rw [← populated]
    exact populateHtable_congr stream ∅
  · rintro ⟨reloaded, holds, same⟩ content rfl
    exact ⟨_, reloaded, getStoredData_some_iff.mpr ⟨holds.magic, rfl⟩, holds.parsed _ rfl, same⟩

theorem Reloads.unique {text : Bytes} {users other : HashTable CString UserAccount}
    (reloads : Reloads text users) (reloads' : Reloads text other) (name : CString) :
    users.get name = other.get name := by
  rcases reloads ⟨[], text, []⟩ rfl with ⟨data, reloaded, stored, populated, same⟩
  rcases reloads' ⟨[], text, []⟩ rfl with ⟨data', reloaded', stored', populated', same'⟩
  rw [stored] at stored'
  cases stored'
  rw [populated] at populated'
  cases populated'
  rw [← same, same']

theorem loads_iff {sha : Sha256} {tree : FileTree} {home : Location} {text stored : Bytes}
    {users : HashTable CString UserAccount} (disk : OnDisk tree home text stored) :
    Loads sha tree ⟨render home⟩ users ↔
      stored = magicBytes ++ sha.digest text ∧ Reloads text users := by
  rw [reloads_iff]
  constructor
  · intro loads
    rcases loads {} Env.smooth_default with ⟨db, after, started, same⟩
    rw [disk.dbInit_eq] at started
    rcases Fallible.ok_of_bind_ok started with ⟨loaded, load, final⟩
    cases final
    rcases (disk.dbLoad_some_iff sha Env.smooth_default.read).mp load with
      ⟨right, reloaded, holds, rfl⟩
    exact ⟨right, reloaded, holds, same⟩
  · rintro ⟨right, reloaded, holds, same⟩ env smooth
    refine ⟨⟨reloaded, ∅, ⟨render home⟩, false⟩, tree, ?_, same⟩
    rw [disk.dbInit_eq, (disk.dbLoad_some_iff sha smooth.read).mpr ⟨right, reloaded, holds, rfl⟩]
    rfl

/-! ## What a call leaves behind -/

def leftByUpdate (env : Env) (server : Server) : FileTree :=
  if server.db.debug then server.tree
  else
    match dbImage (env.users.arrange server.db.usersHtable.values) with
    | .error _ => server.tree
    | .ok buffer =>
        match fVerValidResolve server.tree server.db.homeDir
            (some (CString.ofBuffer dbName)) with
        | .ok (some dbPath) => (fWriteFile env.dbWrite server.tree dbPath (some buffer)).2
        | _ => server.tree

/-- The files that a call leaves, also one that does not return: that happens while the new
table is printed or after the database is written, and before the hash is. -/
def UserCall.leaves (call : UserCall) (env : Env) (sha : Sha256) (server : Server) : FileTree :=
  match call.run env sha server with
  | .ok (_, after) => after.tree
  | .error _ =>
      match call.verdict sha server.db.usersHtable with
      | .ok table => leftByUpdate env ⟨server.db.setUsers table, server.tree⟩
      | .error _ => server.tree

/-- An acknowledged call is on disk, and the files always load the table before the call
or the one after it. -/
structure Durable (env : Env) (sha : Sha256) (server : Server) (call : UserCall) : Prop where
  acknowledged : ∀ after, call.run env sha server = .ok (.opSuccess, after) →
    Loads sha after.tree after.db.homeDir after.db.usersHtable
  loadable :
    Loads sha (call.leaves env sha server) server.db.homeDir server.db.usersHtable ∨
      ∃ table, call.verdict sha server.db.usersHtable = .ok table ∧
        Loads sha (call.leaves env sha server) server.db.homeDir table

structure Synced (sha : Sha256) (server : Server) (home : Location) (text : Bytes) : Prop
    where
  serves : server.db.homeDir = ⟨render home⟩
  saving : server.db.debug = false
  disk : OnDisk server.tree home text (magicBytes ++ sha.digest text)
  current : Reloads text server.db.usersHtable

structure Complete (env : Env) (sha : Sha256) (image : Bytes)
    (table : HashTable CString UserAccount) : Prop where
  hashed : Rehashes env image
  whole : env.hashWrite.kept (magicBytes ++ sha.digest (env.dbWrite.kept image)) =
    magicBytes ++ sha.digest (env.dbWrite.kept image)
  enough : Reloads (env.dbWrite.kept image) table

structure Collides (env : Env) (sha : Sha256) (text image : Bytes)
    (table : HashTable CString UserAccount) : Prop where
  unhashed : ¬ Rehashes env image
  opens : env.dbWrite.opens = true
  collision : sha.digest (env.dbWrite.kept image) = sha.digest text
  enough : Reloads (env.dbWrite.kept image) table

/-- The call does not return, and the files that it leaves load the table before it. -/
structure Reverts (env : Env) (sha : Sha256) (text image : Bytes)
    (users : HashTable CString UserAccount) : Prop where
  crashes : SaveCrashes env image
  right : sha.digest (env.dbWrite.kept image) = sha.digest text
  enough : Reloads (env.dbWrite.kept image) users

theorem Kept.complete {env : Env} {sha : Sha256} {table : HashTable CString UserAccount}
    {image : Bytes} (kept : Kept table)
    (written : dbImage (env.users.arrange table.values) = .ok image)
    (hashed : Rehashes env image) (wholeImage : env.dbWrite.kept image = image)
    (wholeHash : env.hashWrite.kept (magicBytes ++ sha.digest image) =
      magicBytes ++ sha.digest image) : Complete env sha image table where
  hashed := hashed
  whole := by rw [wholeImage, wholeHash]
  enough := by
    rcases kept.survives env.users with ⟨image', written', reloads⟩
    rw [written] at written'
    cases written'
    rwa [wholeImage]

theorem saved_loads_iff {env : Env} {sha : Sha256} {text image : Bytes}
    {users table : HashTable CString UserAccount} (current : Reloads text users)
    (changes : ∃ name, table.get name ≠ users.get name) :
    (hashAfter env sha (magicBytes ++ sha.digest text) image =
          magicBytes ++ sha.digest (textAfter env text image) ∧
        Reloads (textAfter env text image) table) ↔
      Complete env sha image table ∨ Collides env sha text image table := by
  by_cases hashed : Rehashes env image
  · rw [hashAfter, if_pos hashed, textAfter, if_pos hashed.1]
    constructor
    · intro loaded
      exact .inl ⟨hashed, loaded.1, loaded.2⟩
    · rintro (complete | collides)
      · exact ⟨complete.whole, complete.enough⟩
      · exact absurd hashed collides.unhashed
  · rw [hashAfter, if_neg hashed, textAfter]
    by_cases opens : env.dbWrite.opens = true
    · rw [if_pos opens, List.append_cancel_left_eq]
      constructor
      · intro loaded
        exact .inr ⟨hashed, opens, loaded.1.symm, loaded.2⟩
      · rintro (complete | collides)
        · exact absurd complete.hashed hashed
        · exact ⟨collides.collision.symm, collides.enough⟩
    · rw [if_neg opens]
      constructor
      · rintro ⟨_, unchanged⟩
        rcases changes with ⟨name, differs⟩
        exact absurd (unchanged.unique current name) differs
      · rintro (complete | collides)
        · exact absurd complete.hashed hashed
        · exact absurd collides.opens opens

theorem leftByUpdate_disk {env : Env} {server : Server} {home : Location}
    {text stored image : Bytes} (disk : OnDisk server.tree home text stored)
    (serves : server.db.homeDir = ⟨render home⟩) (saving : server.db.debug = false)
    (written : dbImage (env.users.arrange server.db.usersHtable.values) = .ok image) :
    OnDisk (leftByUpdate env server) home (textAfter env text image) stored := by
  rcases fWriteFile_disk env image disk with ⟨status, tree, wrote, disk', _⟩
  simp only [leftByUpdate, saving, Bool.false_eq_true, if_false, written, serves,
    disk.file_resolves.2.1, wrote]
  exact disk'

section Calls

variable {env : Env} {sha : Sha256} {server : Server} {call : UserCall} {home : Location}
  {text image : Bytes} {table : HashTable CString UserAccount}

theorem Synced.durable_refused (synced : Synced sha server home text) {refusal : RetCode}
    (refused : call.verdict sha server.db.usersHtable = .error refusal) :
    Durable env sha server call := by
  have done : call.run env sha server = .ok (refusal, server) := by
    rw [UserCall.run_eq, refused]
  constructor
  · intro after acknowledged
    rw [done] at acknowledged
    cases acknowledged
    exact absurd rfl (UserCall.verdict_refused refused)
  · left
    rw [UserCall.leaves, done, synced.serves]
    exact (loads_iff synced.disk).mpr ⟨rfl, synced.current⟩

theorem Synced.durable_unprinted (synced : Synced sha server home text) {fault : Fault}
    (accepted : call.verdict sha server.db.usersHtable = .ok table)
    (unprinted : dbImage (env.users.arrange table.values) = .error fault) :
    Durable env sha server call := by
  have done : call.run env sha server = .error fault := by
    simp only [UserCall.run_eq, accepted, saveUsers, dbUpdateDb, Db.setUsers_debug, synced.saving,
      Bool.false_eq_true, if_false, Db.setUsers_usersHtable, unprinted, Fallible.error_bind]
  constructor
  · intro after acknowledged
    rw [done] at acknowledged
    cases acknowledged
  · left
    simp only [UserCall.leaves, done, accepted, leftByUpdate, Db.setUsers_debug, synced.saving,
      Bool.false_eq_true, if_false, Db.setUsers_usersHtable, unprinted, synced.serves]
    exact (loads_iff synced.disk).mpr ⟨rfl, synced.current⟩

theorem Synced.durable_saved_iff (synced : Synced sha server home text)
    (accepted : call.verdict sha server.db.usersHtable = .ok table)
    (written : dbImage (env.users.arrange table.values) = .ok image)
    (survives : ¬ SaveCrashes env image) :
    Durable env sha server call ↔
      Complete env sha image table ∨ Collides env sha text image table := by
  rcases saveUsers_written sha synced.disk synced.serves synced.saving written survives with
    ⟨tree, saved, disk⟩
  have done : call.run env sha server =
      .ok (.opSuccess, ⟨server.db.setUsers table, tree⟩) := by
    rw [UserCall.run_eq, accepted]
    exact saved
  have loads : Loads sha tree ⟨render home⟩ table ↔
      Complete env sha image table ∨ Collides env sha text image table := by
    rw [loads_iff disk]
    exact saved_loads_iff synced.current (UserCall.verdict_changes accepted)
  rw [← loads]
  constructor
  · intro durable
    have loaded := durable.acknowledged _ done
    rwa [Db.setUsers_homeDir, synced.serves] at loaded
  · intro loaded
    constructor
    · intro after acknowledged
      rw [done] at acknowledged
      cases acknowledged
      rwa [Db.setUsers_homeDir, synced.serves]
    · refine .inr ⟨table, accepted, ?_⟩
      rwa [UserCall.leaves, done, synced.serves]

theorem Synced.durable_crashed_iff (synced : Synced sha server home text)
    (accepted : call.verdict sha server.db.usersHtable = .ok table)
    (written : dbImage (env.users.arrange table.values) = .ok image)
    (crashes : SaveCrashes env image) :
    Durable env sha server call ↔
      Collides env sha text image table ∨ Reverts env sha text image server.db.usersHtable := by
  have done : call.run env sha server = .error .doubleClose := by
    rw [UserCall.run_eq, accepted]
    exact saveUsers_crashes sha synced.disk synced.serves synced.saving written crashes
  have left' : call.leaves env sha server =
      leftByUpdate env ⟨server.db.setUsers table, server.tree⟩ := by
    simp only [UserCall.leaves, done, accepted]
  have disk : OnDisk (leftByUpdate env ⟨server.db.setUsers table, server.tree⟩) home
      (textAfter env text image) (magicBytes ++ sha.digest text) :=
    leftByUpdate_disk synced.disk synced.serves synced.saving written
  have loads : ∀ users, Loads sha (call.leaves env sha server) server.db.homeDir users ↔
      sha.digest (env.dbWrite.kept image) = sha.digest text ∧
        Reloads (env.dbWrite.kept image) users := by
    intro users
    rw [left', synced.serves, loads_iff disk, textAfter, if_pos crashes.1,
      List.append_cancel_left_eq, eq_comm]
  constructor
  · intro durable
    rcases durable.loadable with loaded | ⟨table', accepted', loaded⟩
    · rcases (loads _).mp loaded with ⟨right, enough⟩
      exact .inr ⟨crashes, right, enough⟩
    · rw [accepted] at accepted'
      cases accepted'
      rcases (loads _).mp loaded with ⟨right, enough⟩
      exact .inl ⟨fun rehashes => rehashes.survives crashes, crashes.1, right, enough⟩
  · intro right
    constructor
    · intro after acknowledged
      rw [done] at acknowledged
      cases acknowledged
    · rcases right with collides | reverts
      · exact .inr ⟨table, accepted, (loads _).mpr ⟨collides.collision, collides.enough⟩⟩
      · exact .inl ((loads _).mpr ⟨reverts.right, reverts.enough⟩)

end Calls

/-- A call is durable exactly if it is refused, or its save is complete, or completed by a
collision of digests, or does not return and leaves what loads the old table. -/
theorem durable_iff {env : Env} {sha : Sha256} {server : Server} {call : UserCall}
    {home : Location} {text : Bytes} (synced : Synced sha server home text) :
    Durable env sha server call ↔ ∀ table image,
      call.verdict sha server.db.usersHtable = .ok table →
      dbImage (env.users.arrange table.values) = .ok image →
      Complete env sha image table ∨ Collides env sha text image table ∨
        Reverts env sha text image server.db.usersHtable := by
  cases accepted : call.verdict sha server.db.usersHtable with
  | error refusal =>
      exact iff_of_true (synced.durable_refused accepted) (fun _ _ verdict => nomatch verdict)
  | ok table =>
      cases written : dbImage (env.users.arrange table.values) with
      | error fault =>
          refine iff_of_true (synced.durable_unprinted accepted written) ?_
          intro table' image verdict printed
          cases verdict
          cases written.symm.trans printed
      | ok image =>
          by_cases crashes : SaveCrashes env image
          · have crashed := synced.durable_crashed_iff accepted written crashes
            constructor
            · intro durable table' image' same printed
              cases same
              cases written.symm.trans printed
              exact .inr (crashed.mp durable)
            · intro all
              refine crashed.mpr ((all table image rfl written).resolve_left ?_)
              exact fun complete => complete.hashed.survives crashes
          · have saved := synced.durable_saved_iff accepted written crashes
            constructor
            · intro durable table' image' same printed
              cases same
              cases written.symm.trans printed
              exact (saved.mp durable).imp_right .inl
            · intro all
              refine saved.mpr ((all table image rfl written).imp_right fun right => ?_)
              exact right.resolve_right fun reverts => crashes reverts.crashes

/-! A server that holds the default account, on disk and in memory, and is asked for
another. -/

def storedTree : FileTree :=
  ((emptyHome.put (dbDirName :: serverHome) .dir).put (dbFileName :: dbDirName :: serverHome)
    (.file defaultImage)).put (hashFileName :: dbDirName :: serverHome)
      (.file (magicBytes ++ firstSha.digest defaultImage))

def storedServer : Server where
  db :=
    { usersHtable := HashTable.set ∅ defaultAccount.username defaultAccount
      seshHtable := ∅
      homeDir := ⟨render serverHome⟩
      debug := false }
  tree := storedTree

theorem storedServer_synced : Synced firstSha storedServer serverHome defaultImage where
  serves := rfl
  saving := rfl
  disk := ⟨by decide +kernel, by decide +kernel, by decide⟩
  current := by
    intro content stream
    rw [defaultImage_eq] at stream
    exact ⟨_, _, getStoredData_image stream,
      populateHtable_records (singleton_recordable defaultAccount_recordable) rfl, fun _ => rfl⟩

def createCarol : UserCall :=
  .create (some (CString.ofBuffer (ascii "carol"))) (some (CString.ofBuffer (ascii "password")))
    Perms.read

def closedEnv : Env := { dbWrite := { opens := false } }

theorem createCarol_verdict : createCarol.verdict firstSha storedServer.db.usersHtable =
    .ok (storedServer.db.usersHtable.set (CString.ofBuffer (ascii "carol"))
      (accountNamed "carol" Perms.read)) := by
  rfl

theorem unopened_database_is_acknowledged :
    ∃ after, createCarol.run closedEnv firstSha storedServer = .ok (.opSuccess, after) ∧
      ¬ Durable closedEnv firstSha storedServer createCarol := by
  have seen : ∃ done, createCarol.run closedEnv firstSha storedServer = .ok done ∧
      done.1 = .opSuccess := by
    apply Fallible.exists_ok_of_seen
    decide +kernel
  rcases seen with ⟨⟨code, after⟩, done, rfl⟩
  refine ⟨after, done, fun durable => ?_⟩
  have saved := done
  rw [UserCall.run_eq, createCarol_verdict] at saved
  rcases saveUsers_disk storedServer_synced.disk rfl rfl saved with ⟨image, _, _, disk⟩
  have loads := durable.acknowledged after done
  have sameDb := (saveUsers_ok saved).2.1
  rw [sameDb] at loads
  have reloads := ((loads_iff disk).mp loads).2
  have same := reloads.unique storedServer_synced.current (CString.ofBuffer (ascii "carol"))
  rw [Db.setUsers_usersHtable, HashTable.get_set_self] at same
  revert same
  decide

theorem durable_iff_carol : Durable {} firstSha storedServer createCarol := by
  refine (durable_iff storedServer_synced).mpr ?_
  intro table image accepted written
  rw [createCarol_verdict] at accepted
  cases accepted
  have recordable : Recordable (accountNamed "carol" Perms.read) :=
    ⟨by decide, by decide, by decide, by decide, by decide, by decide⟩
  have kept := kept_default.set recordable (by decide) (by decide +kernel)
  have hashed : Rehashes {} image :=
    ⟨rfl, WriteOutcome.accepted_smooth image, Env.smooth_default.dbRead.reads _, rfl⟩
  exact .inl (kept.complete written hashed (WriteOutcome.kept_smooth image)
    (WriteOutcome.kept_smooth _))

end FileTransfer
