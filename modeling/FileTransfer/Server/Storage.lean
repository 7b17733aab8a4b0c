import FileTransfer.Server.Db
import FileTransfer.Server.Paths

/-! # What saving the users does to the files -/

namespace FileTransfer

open Foundation Posix

def DatabaseFile (tree : FileTree) (homeDir : VerifiedPath) (location : Location) :
    Prop :=
  ∃ file, (file = dbName ∨ file = dbHash) ∧ ∃ path,
    fVerValidResolve tree homeDir (some (CString.ofBuffer file)) = .ok (some path) ∧
      tree.Denotes path.path location

theorem fWriteFile_refilled (outcome : WriteOutcome) (tree : FileTree)
    (path : VerifiedPath) (stream : Option Bytes) :
    FileTree.Refilled tree (fWriteFile outcome tree path stream).2 ∧
      FileTree.AgreeOff (tree.Denotes path.path) tree
        (fWriteFile outcome tree path stream).2 := by
  cases stream with
  | none => exact ⟨.refl tree, .refl _ tree⟩
  | some stream =>
      simp only [fWriteFile]
      cases wrote : tree.writeFile outcome path.path stream with
      | error code => exact ⟨.refl tree, .refl _ tree⟩
      | ok written =>
          rcases written with ⟨count, after⟩
          simp only
          split <;> exact FileTree.writeFile_refilled wrote

theorem writeHash_ok {env : Env} {sha : Sha256} {tree after : FileTree}
    {homeDir hashFile : VerifiedPath} {byteArray : Bytes}
    (wrote : writeHash env sha tree homeDir byteArray = .ok (hashFile, after)) :
    fVerValidResolve tree homeDir (some (CString.ofBuffer dbHash)) = .ok (some hashFile) ∧
      ∃ count, tree.writeFile env.hashWrite hashFile.path (magicBytes ++ sha.digest byteArray) =
        .ok (count, after) := by
  rcases Fallible.ok_of_bind_ok wrote with ⟨resolved, found, wrote⟩
  cases resolved with
  | none => cases wrote
  | some path =>
      simp only at wrote
      split at wrote
      · cases wrote
      · rename_i count tree written
        cases wrote
        exact ⟨found, count, written⟩

theorem updateDbHash_cases {env : Env} {sha : Sha256} {tree after : FileTree}
    {homeDir dbFile : VerifiedPath} {hashFile : Option VerifiedPath}
    (updated : updateDbHash env sha tree homeDir dbFile = .ok (hashFile, after)) :
    (hashFile = none ∧ after = tree) ∨
      ∃ byteArray path, readBack env tree dbFile = .ok (some byteArray) ∧
        writeHash env sha tree homeDir byteArray = .ok (path, after) ∧ hashFile = some path := by
  rcases Fallible.ok_of_bind_ok updated with ⟨byteArray, read, rest⟩
  cases byteArray with
  | none =>
      cases rest
      exact .inl ⟨rfl, rfl⟩
  | some byteArray =>
      rcases Fallible.ok_of_bind_ok rest with ⟨⟨path, tree'⟩, wrote, rest⟩
      cases rest
      exact .inr ⟨byteArray, path, read, wrote, rfl⟩

theorem updateDbHash_refilled {env : Env} {sha : Sha256} {tree after : FileTree}
    {homeDir dbFile : VerifiedPath} {hashFile : Option VerifiedPath}
    (updated : updateDbHash env sha tree homeDir dbFile = .ok (hashFile, after)) :
    FileTree.Refilled tree after ∧
      FileTree.AgreeOff (DatabaseFile tree homeDir) tree after := by
  rcases updateDbHash_cases updated with ⟨_, rfl⟩ | ⟨byteArray, path, _, wrote, _⟩
  · exact ⟨.refl _, .refl _ _⟩
  · rcases writeHash_ok wrote with ⟨found, count, written⟩
    rcases FileTree.writeFile_refilled written with ⟨refilled, agree⟩
    exact ⟨refilled, agree.mono fun place leads => ⟨dbHash, .inr rfl, path, found, leads⟩⟩

theorem dbUpdateDb_refilled {env : Env} {sha : Sha256} {server : Server}
    {after : FileTree} (updated : dbUpdateDb env sha server = .ok after) :
    FileTree.Refilled server.tree after ∧
      FileTree.AgreeOff (DatabaseFile server.tree server.db.homeDir) server.tree after := by
  rw [dbUpdateDb] at updated
  split at updated
  · cases updated
    exact ⟨.refl _, .refl _ _⟩
  · rcases Fallible.ok_of_bind_ok updated with ⟨buffer, _, updated⟩
    rcases Fallible.ok_of_bind_ok updated with ⟨resolved, found, updated⟩
    cases resolved with
    | none =>
        cases updated
        exact ⟨.refl _, .refl _ _⟩
    | some dbPath =>
        rcases fWriteFile_refilled env.dbWrite server.tree dbPath (some buffer) with
          ⟨refilled, agree⟩
        have agree' : FileTree.AgreeOff (DatabaseFile server.tree server.db.homeDir)
            server.tree (fWriteFile env.dbWrite server.tree dbPath (some buffer)).2 :=
          agree.mono fun place leads => ⟨dbName, .inl rfl, dbPath, found, leads⟩
        simp only at updated
        split at updated
        · cases updated
          exact ⟨refilled, agree'⟩
        · rcases Fallible.ok_of_bind_ok updated with ⟨⟨hashFile, tree⟩, hashed, final⟩
          cases final
          rcases updateDbHash_refilled hashed with ⟨refilled', agree''⟩
          refine ⟨refilled.trans refilled', agree'.trans (agree''.mono ?_)⟩
          rintro place ⟨file, either, path, resolved, leads⟩
          refine ⟨file, either, path, ?_, refilled.denotes_iff.mp leads⟩
          -- Both files stand in one directory, so what resolved for the first
          -- before the write resolves for either after it.
          have sameDir : dirname (CString.ofBuffer file).bytes =
              dirname (CString.ofBuffer dbName).bytes := by
            rcases either with rfl | rfl
            · rfl
            · decide
          rcases fValidResolve_some_iff.mp found with ⟨_, directory, parent, _⟩
          have sameParent : server.tree.realpath (joined server.db.homeDir.path
              (dirname (CString.ofBuffer file).bytes)) = some directory := by
            rw [sameDir]
            exact parent
          rw [← resolved]
          exact (fValidResolve_refilled refilled sameParent).symm

/-- A change of the user table that is saved: nothing else changes in memory, and
nothing but the server's own files on disk. -/
theorem saveUsers_ok {env : Env} {sha : Sha256} {server after : Server}
    {users : HashTable CString UserAccount} {code : RetCode}
    (saved : saveUsers env sha server users = .ok (code, after)) :
    code = .opSuccess ∧ after.db = server.db.setUsers users ∧
      FileTree.Refilled server.tree after.tree ∧
      FileTree.AgreeOff (DatabaseFile server.tree server.db.homeDir)
        server.tree after.tree := by
  rcases Fallible.ok_of_bind_ok saved with ⟨tree, updated, final⟩
  have refilled := dbUpdateDb_refilled updated
  cases final
  exact ⟨rfl, rfl, refilled⟩

theorem saveUsers_image {env : Env} {sha : Sha256} {server after : Server}
    {users : HashTable CString UserAccount} {code : RetCode}
    (saved : saveUsers env sha server users = .ok (code, after))
    (saving : server.db.debug = false) :
    ∃ image, dbImage (env.users.arrange users.values) = .ok image := by
  rcases Fallible.ok_of_bind_ok saved with ⟨tree, updated, _⟩
  rw [dbUpdateDb, if_neg (by simp [saving])] at updated
  rcases Fallible.ok_of_bind_ok updated with ⟨image, written, _⟩
  exact ⟨image, written⟩

/-! ## Start-up -/

def Opened (homeDir : VerifiedPath) (db : Db) : Prop :=
  db.seshHtable = ∅ ∧ db.homeDir = homeDir ∧ db.debug = false

theorem dbLoad_ok {env : Env} {sha : Sha256} {tree : FileTree}
    {homeDir hashFile dbFile : VerifiedPath} {db : Db}
    (loaded : dbLoad env sha tree homeDir hashFile dbFile = .ok (some db)) :
    ∃ code code' dbContents hashContents stored data users,
      fReadFile env sha tree dbFile = .ok (code, some dbContents) ∧
      fReadFile env sha tree hashFile = .ok (code', some hashContents) ∧
      getStoredHash hashContents = some stored ∧
      hashBytesMatch dbContents.hash stored.stream = .ok true ∧
      getStoredData dbContents = some data ∧ populateHtable ∅ data = .ok (some users) ∧
      db = ⟨users, ∅, homeDir, false⟩ := by
  rcases Fallible.ok_of_bind_ok loaded with ⟨⟨code, _ | dbContents⟩, dbRead, loaded⟩
  · cases loaded
  rcases Fallible.ok_of_bind_ok loaded with ⟨⟨code', _ | hashContents⟩, hashRead, loaded⟩
  · cases loaded
  simp only at loaded
  split at loaded
  · cases loaded
  rename_i stored accepted
  rcases Fallible.ok_of_bind_ok loaded with ⟨same, compared, loaded⟩
  split at loaded
  · rename_i right
    split at loaded
    · cases loaded
    rename_i data read
    rcases Fallible.ok_of_bind_ok loaded with ⟨_ | users, populated, loaded⟩
    · cases loaded
    cases loaded
    rw [right] at compared
    exact ⟨code, code', dbContents, hashContents, stored, data, users, dbRead, hashRead, accepted,
      compared, read, populated, rfl⟩
  · cases loaded

theorem dbLoad_opened {env : Env} {sha : Sha256} {tree : FileTree}
    {homeDir hashFile dbFile : VerifiedPath} {db : Db}
    (loaded : dbLoad env sha tree homeDir hashFile dbFile = .ok (some db)) :
    Opened homeDir db := by
  rcases dbLoad_ok loaded with ⟨_, _, _, _, _, _, _, _, _, _, _, _, _, rfl⟩
  exact ⟨rfl, rfl, rfl⟩

theorem dbInit_opened {env : Env} {sha : Sha256} {tree after : FileTree}
    {homeDir : VerifiedPath} {db : Db}
    (started : dbInit env sha tree homeDir = .ok (some db, after)) :
    Opened homeDir db := by
  rcases Fallible.ok_of_bind_ok started with ⟨⟨_ | _, tree'⟩, _, started⟩
  · cases started
  · rcases Fallible.ok_of_bind_ok started with ⟨⟨_ | ⟨hashFile, dbFile⟩, tree''⟩, _, started⟩
    · cases started
    · rcases Fallible.ok_of_bind_ok started with ⟨loadedDb, loaded, final⟩
      cases final
      exact dbLoad_opened loaded

end FileTransfer
