import FileTransfer.Guarantees.Mediation
import FileTransfer.Server.FirstStart

/-! # Restarts

What is written for a user table is read back as that table, in whatever order the
table was iterated, in every run whose new names leave the format's delimiters alone.
-/

namespace FileTransfer

open Foundation Posix

/-! ## Tables that survive -/

def Reloads (image : Bytes) (users : HashTable CString UserAccount) : Prop :=
  ∀ content : FileContent, content.stream = image →
    ∃ data reloaded, getStoredData content = some data ∧
      populateHtable ∅ data = .ok (some reloaded) ∧
      ∀ name, reloaded.get name = users.get name

/-- Whatever the order of iteration, the image of the table can be written and is
read back as the table. -/
def Survives (users : HashTable CString UserAccount) : Prop :=
  ∀ order : Arrangement UserAccount, ∃ image,
    dbImage (order.arrange users.values) = .ok image ∧ Reloads image users

/-- The invariant of a table: accounts are stored under their names, their records
can be scanned, no permission is above the administrator's, and the `int` offset
counts all records. -/
structure Kept (users : HashTable CString UserAccount) : Prop where
  named : ∀ name account, users.get name = some account → account.username = name
  recordable : ∀ name account, users.get name = some account → Recordable account
  capped : ∀ name account, users.get name = some account →
    account.permission ≤ Perms.admin
  counted : magicBytes.length + (records users.values).length ≤ maxInt

theorem Kept.survives {users : HashTable CString UserAccount} (kept : Kept users) :
    Survives users := by
  intro order
  have perm := order.perm users.values
  have recordable : ∀ account ∈ order.arrange users.values, Recordable account := by
    intro account member
    rcases (users.mem_values_iff account).mp (perm.mem_iff.mp member) with ⟨name, found⟩
    exact kept.recordable name account found
  have counted : magicBytes.length + (records (order.arrange users.values)).length ≤
      maxInt := by
    rw [records_length_perm perm]
    exact kept.counted
  have sized : ∀ account ∈ order.arrange users.values, Sized account :=
    fun account member => (recordable account member).sized
  refine ⟨_, dbImage_eq sized counted, fun content stream => ?_⟩
  exact ⟨_, _, getStoredData_image stream, populateHtable_records recordable rfl,
    users.get_collect_of_perm UserAccount.username kept.named perm⟩

/-! ## Runs -/

def PlainNames (request : WirePayload) : Prop :=
  ∀ payload name, request.payload = .user payload →
    UsrAct.ofByte payload.userFlag = some .createUser →
    payload.username = some name →
    colon ∉ (CString.ofBuffer name).bytes ∧ newline ∉ (CString.ofBuffer name).bytes

def PlainStep (sha : Sha256) (server : Server) (call : Call) (handled : Handled)
    (next : Server) : Prop :=
  CtrlStep sha server call handled next ∧ PlainNames call.request

theorem Kept.del {users : HashTable CString UserAccount} (kept : Kept users)
    (name : CString) : Kept (users.del name) := by
  have stays : ∀ other account, (users.del name).get other = some account →
      users.get other = some account := by
    intro other account found
    rw [HashTable.get_del] at found
    split at found
    · cases found
    · exact found
  refine ⟨fun other account found => kept.named _ _ (stays _ _ found),
    fun other account found => kept.recordable _ _ (stays _ _ found),
    fun other account found => kept.capped _ _ (stays _ _ found), ?_⟩
  exact le_trans (Nat.add_le_add_left
    (records_length_sublist (users.values_del_sublist name)) _) kept.counted

theorem Kept.set {users : HashTable CString UserAccount} (kept : Kept users)
    {account : UserAccount} (recordable : Recordable account)
    (capped : account.permission ≤ Perms.admin)
    (counted : magicBytes.length +
      (records (users.set account.username account).values).length ≤ maxInt) :
    Kept (users.set account.username account) := by
  have either : ∀ other stored,
      (users.set account.username account).get other = some stored →
      (other = account.username ∧ stored = account) ∨ users.get other = some stored := by
    intro other stored found
    rw [HashTable.get_set] at found
    split at found
    · rename_i same
      exact .inl ⟨same, (Option.some.inj found).symm⟩
    · exact .inr found
  refine ⟨fun other stored found => ?_, fun other stored found => ?_,
    fun other stored found => ?_, counted⟩
  · rcases either other stored found with ⟨rfl, rfl⟩ | was
    · rfl
    · exact kept.named _ _ was
  · rcases either other stored found with ⟨_, rfl⟩ | was
    · exact recordable
    · exact kept.recordable _ _ was
  · rcases either other stored found with ⟨_, rfl⟩ | was
    · exact capped
    · exact kept.capped _ _ was

theorem recordable_of_allowed {name passwd : CString} {permission : Perms} {sha : Sha256}
    (allowed : credentialsAllowed name passwd = true) (capped : permission ≤ Perms.admin)
    (plain : colon ∉ name.bytes ∧ newline ∉ name.bytes) :
    Recordable ⟨name, permission, sha.digest passwd.bytes⟩ := by
  simp only [credentialsAllowed, Bool.not_eq_true', Bool.or_eq_false_iff,
    decide_eq_false_iff_not, not_lt] at allowed
  have positive : 0 < name.length := lt_of_lt_of_le (by decide) allowed.2
  have small : permission.toNat ≤ 3 := UInt8.le_iff_toNat_le.mp capped
  exact ⟨List.length_pos_iff.mp positive, allowed.1.2, plain.1, plain.2, by
    show permission.toNat < 10
    omega, sha.size _⟩

def KeptServer (server : Server) : Prop :=
  server.db.debug = false ∧ Kept server.db.usersHtable

theorem PlainStep.kept {sha : Sha256} {server next : Server} {call : Call}
    {handled : Handled} (holds : KeptServer server)
    (step : PlainStep sha server call handled next) : KeptServer next := by
  rcases step with ⟨step, plain⟩
  rcases holds with ⟨saving, kept⟩
  refine ⟨step.debug.trans saving, ?_⟩
  rcases step.users with same | ⟨user, payload, authentic, carried, change, saved⟩
  · rw [same]
    exact kept
  · rcases saved saving with ⟨image, written⟩
    have counted := dbImage_ok written
    rw [records_length_perm (call.env.users.perm _)] at counted
    rcases authentic with ⟨_, _, _, _, known, _⟩
    have below := kept.capped _ _ known
    cases change with
    | added name passwd named secret allowed capped fresh stored flag =>
        have low := UInt8.le_trans capped below
        rw [stored] at counted ⊢
        exact kept.set
          (recordable_of_allowed allowed low (plain payload name carried flag named)) low
          counted
    | removed name account named admin present deleted flag =>
        rw [deleted]
        exact kept.del _

theorem kept_default : Kept (HashTable.set ∅ defaultAccount.username defaultAccount) := by
  have only : ∀ name account,
      (HashTable.set ∅ defaultAccount.username defaultAccount).get name = some account →
        name = defaultAccount.username ∧ account = defaultAccount := by
    intro name account found
    rw [HashTable.get_set] at found
    split at found
    · rename_i same
      exact ⟨same, (Option.some.inj found).symm⟩
    · simp at found
  refine ⟨?_, ?_, ?_, ?_⟩
  · intro name account found
    rcases only name account found with ⟨rfl, rfl⟩
    rfl
  · intro name account found
    rcases only name account found with ⟨_, rfl⟩
    exact defaultAccount_recordable
  · intro name account found
    rcases only name account found with ⟨_, rfl⟩
    decide
  · decide +kernel

theorem FirstStart.kept {sha : Sha256} {server : Server} (first : FirstStart sha server) :
    KeptServer server := by
  refine ⟨first.opened, ?_⟩
  rw [first.users]
  exact kept_default

/-- A restart preserves the user table at every point of a run from a first start
whose new names are plain. -/
theorem restart_preserves_users {sha : Sha256} {start final : Server} {calls : List Call}
    {answers : List Handled} (first : FirstStart sha start)
    (run : Trace (PlainStep sha) start calls answers final) :
    Survives final.db.usersHtable :=
  (run.invariant KeptServer (fun holds step => step.kept holds) first.kept).2.survives

/-! First starts in an empty home directory, and one request of the administrator. -/

def imageWith (name : String) : Bytes :=
  magicBytes ++ records [accountNamed name Perms.read, defaultAccount]

def firstSha : Sha256 := .ofTable
  [(ascii "password", passwordDigest),
  (defaultImage,
    ⟨[0x18, 0xd1, 0x9a, 0xb3, 0x35, 0x4d, 0x3b, 0xf0, 0x92, 0x41, 0x41, 0xdd, 0x98, 0xe3,
    0x6c, 0x60, 0x4e, 0xb2, 0x91, 0xc1, 0x00, 0x4f, 0x61, 0x28, 0x8f, 0xb0, 0x8e, 0xa2,
    0xcd, 0x81, 0xd1, 0x7d], by decide⟩),
  (imageWith "a:b",
    ⟨[0xce, 0x73, 0xe6, 0xc2, 0x7c, 0xad, 0xdd, 0xe0, 0xd2, 0x25, 0x3e, 0x44, 0x50, 0xbe,
    0x15, 0xcb, 0xd7, 0x96, 0x89, 0xa1, 0xe9, 0x2d, 0x27, 0xed, 0x04, 0xc7, 0xac, 0x80,
    0x6e, 0x9b, 0xa5, 0xad], by decide⟩),
  (imageWith "carol",
    ⟨[0xa2, 0xb9, 0x4d, 0xf5, 0x56, 0xeb, 0x9c, 0xbe, 0x5a, 0x53, 0x21, 0x39, 0x2f, 0x78,
    0x7f, 0x66, 0xb8, 0x9a, 0x61, 0x40, 0x19, 0x1f, 0x5a, 0x8d, 0x8c, 0xcf, 0xba, 0xad,
    0xf0, 0xcf, 0x01, 0xc5], by decide⟩)]

theorem serverHome_valid : NameValid (ascii "srv") := by decide

def serverHome : Location := [⟨ascii "srv", serverHome_valid⟩]

def emptyHome : FileTree := FileTree.bare.put serverHome .dir

theorem firstStart_emptyHome {db : Db} {tree : FileTree}
    (started : dbInit {} firstSha emptyHome ⟨render serverHome⟩ = .ok (some db, tree)) :
    FirstStart firstSha ⟨db, tree⟩ := by
  have absent : emptyHome.get (dbDirName :: serverHome) = none := by decide
  have home : NoDatabase emptyHome serverHome :=
    ⟨by decide, by simp [absent], by decide, by decide⟩
  have smooth := Env.smooth_default
  exact ⟨{}, emptyHome, serverHome, home, smooth, started⟩

def firstRun (request : WirePayload) : Option (Server × Handled) := do
  match (dbInit {} firstSha emptyHome ⟨render serverHome⟩).toOption with
  | some (some db, tree) =>
      let handled ← (ctrlParseAction quietEnv firstSha 60 ⟨db, tree⟩ request).toOption
      return (⟨db, tree⟩, handled)
  | _ => none

theorem firstRun_steps {request : WirePayload} {start : Server} {handled : Handled}
    (ran : firstRun request = some (start, handled)) :
    FirstStart firstSha start ∧
      CtrlStep firstSha start ⟨quietEnv, 60, request⟩ handled handled.server := by
  unfold firstRun at ran
  split at ran
  · rename_i db tree started
    rcases Option.bind_eq_some_iff.mp ran with ⟨handled', parsed, final⟩
    cases final
    exact ⟨firstStart_emptyHome (Fallible.ok_of_toOption started),
      Fallible.ok_of_toOption parsed, rfl⟩
  · cases ran

theorem firstRun_create (name : String) (values : List UserAccount)
    (evaluated : (firstRun (createRequest "admin" name Perms.read)).map
      (fun ran => ran.2.server.db.usersHtable.values) = some values) :
    ∃ start handled, FirstStart firstSha start ∧
      CtrlStep firstSha start ⟨quietEnv, 60, createRequest "admin" name Perms.read⟩
        handled handled.server ∧
      handled.server.db.usersHtable.values = values := by
  rcases Option.map_eq_some_iff.mp evaluated with ⟨⟨start, handled⟩, ran, rfl⟩
  rcases firstRun_steps ran with ⟨first, step⟩
  exact ⟨start, handled, first, step, rfl⟩

/-- A user called `a:b` makes the database unreadable. -/
theorem colon_in_name_is_lost :
    ¬ ∀ (sha : Sha256) (start final : Server) (calls : List Call) (answers : List Handled),
      FirstStart sha start → Trace (CtrlStep sha) start calls answers final →
      Survives final.db.usersHtable := by
  intro survive
  rcases firstRun_create "a:b" [accountNamed "a:b" Perms.read, defaultAccount]
    (by decide +kernel) with ⟨start, handled, first, step, values⟩
  have survives := survive firstSha start _ _ _ first (.cons step (.nil _))
  rcases survives (.stored UserAccount) with ⟨image, written, reloads⟩
  have stored : dbImage [accountNamed "a:b" Perms.read, defaultAccount] =
      .ok (imageWith "a:b") := by decide +kernel
  simp only [id_eq, values, stored, Except.ok.injEq] at written
  rcases reloads ⟨[], image, []⟩ rfl with ⟨data, reloaded, accepted, populated, _⟩
  have data' : getStoredData ⟨[], imageWith "a:b", []⟩ =
      some ⟨[], records [accountNamed "a:b" Perms.read, defaultAccount], []⟩ :=
    getStoredData_image rfl
  rw [← written, data'] at accepted
  cases accepted
  have refused : (populateHtable ∅ ⟨[], records
      [accountNamed "a:b" Perms.read, defaultAccount], []⟩).toOption.map
        Option.isSome = some false := by decide +kernel
  rw [populated] at refused
  cases refused

theorem restart_preserves_users_carol :
    ∃ start handled, FirstStart firstSha start ∧
      CtrlStep firstSha start
        ⟨quietEnv, 60, createRequest "admin" "carol" Perms.read⟩ handled
        handled.server ∧
      Survives handled.server.db.usersHtable := by
  rcases firstRun_create "carol" [accountNamed "carol" Perms.read, defaultAccount]
    (by decide +kernel) with ⟨start, handled, first, step, _⟩
  have plain : PlainNames (createRequest "admin" "carol" Perms.read) := by
    intro payload name carried _ named
    cases carried
    cases named
    decide
  have plainStep : PlainStep firstSha start
      ⟨quietEnv, 60, createRequest "admin" "carol" Perms.read⟩ handled handled.server :=
    ⟨step, plain⟩
  exact ⟨start, handled, first, step,
    restart_preserves_users first (.cons plainStep (.nil _))⟩

end FileTransfer
