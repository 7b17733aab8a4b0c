import FileTransfer.Server.FileRequests
import FileTransfer.Server.FirstStart

/-! # The database on disk

The two files that the server keeps its users in, what saving the users leaves in
them, and what a start makes of them.
-/

namespace FileTransfer

open Foundation Posix

structure OnDisk (tree : FileTree) (home : Location) (text stored : Bytes) : Prop where
  file : tree.get (dbFileName :: dbDirName :: home) = some (.file text)
  hash : tree.get (hashFileName :: dbDirName :: home) = some (.file stored)
  fits : (render home).length + dbHash.length + slashPlusNull ≤ pathMax

namespace OnDisk

variable {tree : FileTree} {home : Location} {text stored : Bytes}

theorem folder (disk : OnDisk tree home text stored) :
    tree.get (dbDirName :: home) = some .dir :=
  FileTree.parent_of_get disk.file

theorem isDir (disk : OnDisk tree home text stored) : tree.get home = some .dir :=
  FileTree.parent_of_get disk.folder

theorem ready (disk : OnDisk tree home text stored) :
    DbDirReady tree home (dbDirName :: home) :=
  dbDirReady_plain disk.isDir disk.folder disk.fits

theorem entry_resolves (disk : OnDisk tree home text stored) {child : CString} {name : Name}
    {content : Bytes} (found : tree.get (name :: dbDirName :: home) = some (.file content))
    (parts : child.bytes = dbDirName.bytes ++ slash :: name.bytes ∧
      dirname child.bytes = dbDir ∧ basename child.bytes = name.bytes)
    (accepted : fValidResolve tree (render home) child =
      .ok (some ⟨render (dbDirName :: home) ++ slash :: name.bytes⟩))
    (short : child.length ≤ dbHash.length) :
    fVerPathResolve tree ⟨render home⟩ (some child) =
        .ok (some ⟨render (name :: dbDirName :: home)⟩) ∧
      fVerValidResolve tree ⟨render home⟩ (some child) =
        .ok (some ⟨render (name :: dbDirName :: home)⟩) ∧
      (render (name :: dbDirName :: home)).length < pathMax := by
  have fits : (render home).length + child.length + slashPlusNull ≤ pathMax :=
    le_trans (by omega) disk.fits
  have spelled := render_cons (List.cons_ne_nil dbDirName home) name
  rcases (fValidResolve_entry_iff disk.isDir parts.2.1 parts.2.2).mp accepted with
    ⟨_, directory, leads, short', _⟩
  cases leads.unique disk.ready.leads
  refine ⟨(disk.ready.found parts accepted fits found).1, ?_, ?_⟩
  · rw [spelled]
    exact accepted
  · rw [spelled]
    exact short'

theorem file_resolves (disk : OnDisk tree home text stored) :
    fVerPathResolve tree ⟨render home⟩ (some (CString.ofBuffer dbName)) =
        .ok (some ⟨render (dbFileName :: dbDirName :: home)⟩) ∧
      fVerValidResolve tree ⟨render home⟩ (some (CString.ofBuffer dbName)) =
        .ok (some ⟨render (dbFileName :: dbDirName :: home)⟩) ∧
      (render (dbFileName :: dbDirName :: home)).length < pathMax :=
  disk.entry_resolves disk.file dbName_parts disk.ready.file (by decide)

theorem hash_resolves (disk : OnDisk tree home text stored) :
    fVerPathResolve tree ⟨render home⟩ (some (CString.ofBuffer dbHash)) =
        .ok (some ⟨render (hashFileName :: dbDirName :: home)⟩) ∧
      fVerValidResolve tree ⟨render home⟩ (some (CString.ofBuffer dbHash)) =
        .ok (some ⟨render (hashFileName :: dbDirName :: home)⟩) ∧
      (render (hashFileName :: dbDirName :: home)).length < pathMax :=
  disk.entry_resolves disk.hash dbHash_parts disk.ready.hash (by decide)

theorem put_file (disk : OnDisk tree home text stored) (bytes : Bytes) :
    OnDisk (tree.put (dbFileName :: dbDirName :: home) (.file bytes)) home bytes stored where
  file := FileTree.get_put_self _ ⟨disk.folder, by simp [disk.file]⟩
  hash := by
    have different : hashFileName :: dbDirName :: home ≠ dbFileName :: dbDirName :: home := by
      intro same
      exact absurd (List.cons.inj same).1 (by decide)
    rw [FileTree.get_put_ne _ _ different]
    exact disk.hash
  fits := disk.fits

theorem put_hash (disk : OnDisk tree home text stored) (bytes : Bytes) :
    OnDisk (tree.put (hashFileName :: dbDirName :: home) (.file bytes)) home text bytes where
  file := by
    have different : dbFileName :: dbDirName :: home ≠ hashFileName :: dbDirName :: home := by
      intro same
      exact absurd (List.cons.inj same).1 (by decide)
    rw [FileTree.get_put_ne _ _ different]
    exact disk.file
  hash := FileTree.get_put_self _ ⟨disk.folder, by simp [disk.hash]⟩
  fits := disk.fits

theorem file_denotes (disk : OnDisk tree home text stored) :
    tree.Denotes (render (dbFileName :: dbDirName :: home)) (dbFileName :: dbDirName :: home) :=
  ⟨_, FileTree.locate_render true ⟨_, disk.file, by simp⟩ disk.file_resolves.2.2, rfl⟩

theorem hash_located (disk : OnDisk tree home text stored) :
    tree.locate true (render (hashFileName :: dbDirName :: home)) =
      .ok (.node (hashFileName :: dbDirName :: home)) :=
  FileTree.locate_render true ⟨_, disk.hash, by simp⟩ disk.hash_resolves.2.2

/-! ## Starting -/

theorem dbInit_eq (disk : OnDisk tree home text stored) (env : Env) (sha : Sha256) :
    dbInit env sha tree ⟨render home⟩ = (do
      return (← dbLoad env sha tree ⟨render home⟩
        ⟨render (hashFileName :: dbDirName :: home)⟩
        ⟨render (dbFileName :: dbDirName :: home)⟩, tree)) := by
  have present : tree.get (dbDirName :: home) ≠ none := by simp [disk.folder]
  rcases (fValidResolve_entry_iff disk.isDir dbName_parts.2.1 dbName_parts.2.2).mp
    disk.ready.file with ⟨short, _⟩
  rcases findDbDir_eq env disk.isDir short (.inr present) with ⟨path, foundDir⟩
  rw [withDbDir_of_present present] at foundDir
  simp only [dbInit, foundDir, findDbFiles, disk.file_resolves.1, disk.hash_resolves.1,
    Fallible.ok_bind, Fallible.pure_eq_ok]

theorem dbLoad_some_iff (disk : OnDisk tree home text stored) {env : Env} (sha : Sha256)
    (smooth : env.read.Smooth) {db : Db} :
    dbLoad env sha tree ⟨render home⟩ ⟨render (hashFileName :: dbDirName :: home)⟩
        ⟨render (dbFileName :: dbDirName :: home)⟩ = .ok (some db) ↔
      stored = magicBytes ++ sha.digest text ∧ ∃ users, StoredUsers text users ∧
        db = ⟨users, ∅, ⟨render home⟩, false⟩ :=
  FileTransfer.dbLoad_some_iff disk.file_denotes disk.file ⟨_, disk.hash_located, rfl⟩ disk.hash
    (smooth.reads text) (smooth.reads stored)

end OnDisk

/-! ## Saving -/

section Saving

variable {env : Env} {sha : Sha256}

/-- `update_db_hash` closes the database file a second time: it has read less than there is,
or the hash file does not open. -/
def ClosesTwice (env : Env) (text : Bytes) : Prop :=
  env.dbRead.opens = true ∧ env.dbRead.allocates = true ∧
    (env.dbRead.delivered text ≠ text ∨ env.hashWrite.opens = false)

instance (env : Env) (text : Bytes) : Decidable (ClosesTwice env text) := by
  unfold ClosesTwice
  infer_instance

def SaveCrashes (env : Env) (image : Bytes) : Prop :=
  env.dbWrite.opens = true ∧ env.dbWrite.accepted image = image ∧
    ClosesTwice env (env.dbWrite.kept image)

instance (env : Env) (image : Bytes) : Decidable (SaveCrashes env image) := by
  unfold SaveCrashes
  infer_instance

def Rehashes (env : Env) (image : Bytes) : Prop :=
  env.dbWrite.opens = true ∧ env.dbWrite.accepted image = image ∧
    env.dbRead.Reads (env.dbWrite.kept image) ∧ env.hashWrite.opens = true

instance (env : Env) (image : Bytes) : Decidable (Rehashes env image) := by
  unfold Rehashes
  infer_instance

/-- Where one save does not return, reading back what any other has written fails as well. -/
theorem SaveCrashes.dooms {env : Env} {image : Bytes} (crashes : SaveCrashes env image)
    (buffer : Bytes) (nonempty : buffer ≠ []) : ClosesTwice env (env.dbWrite.kept buffer) := by
  rcases crashes with ⟨_, _, opens, allocates, short | closed⟩
  · refine ⟨opens, allocates, .inl ?_⟩
    rw [ne_eq, ReadOutcome.delivered_eq_iff, not_or] at short ⊢
    exact ⟨short.1, WriteOutcome.kept_ne_nil short.2 nonempty⟩
  · exact ⟨opens, allocates, .inr closed⟩

theorem Env.Smooth.survives {env : Env} (smooth : env.Smooth) (image : Bytes) :
    ¬ SaveCrashes env image := by
  rintro ⟨_, _, _, _, short | closed⟩
  · exact short (smooth.dbRead.reads _).delivers
  · rw [smooth.hashWrite] at closed
    cases closed

theorem Rehashes.survives {env : Env} {image : Bytes} (rehashes : Rehashes env image) :
    ¬ SaveCrashes env image := by
  rintro ⟨_, _, _, _, short | closed⟩
  · exact short rehashes.2.2.1.delivers
  · simp [rehashes.2.2.2] at closed

def textAfter (env : Env) (text image : Bytes) : Bytes :=
  if env.dbWrite.opens = true then env.dbWrite.kept image else text

def hashAfter (env : Env) (sha : Sha256) (stored image : Bytes) : Bytes :=
  if Rehashes env image then
    env.hashWrite.kept (magicBytes ++ sha.digest (env.dbWrite.kept image))
  else stored

variable {tree : FileTree} {home : Location} {text stored : Bytes}

namespace OnDisk

theorem readBack_eq (disk : OnDisk tree home text stored) (env : Env) :
    readBack env tree ⟨render (dbFileName :: dbDirName :: home)⟩ =
      if env.dbRead.opens = false then .ok none
      else if env.dbRead.allocates = false then .ok none
      else if env.dbRead.delivered text = text then .ok (some text)
      else .error .doubleClose :=
  readBack_file env disk.file_denotes disk.file

theorem writeHash_eq (disk : OnDisk tree home text stored) (env : Env) (sha : Sha256)
    (byteArray : Bytes) :
    writeHash env sha tree ⟨render home⟩ byteArray =
      if env.hashWrite.opens = true then
        .ok (⟨render (hashFileName :: dbDirName :: home)⟩,
          tree.put (hashFileName :: dbDirName :: home)
            (.file (env.hashWrite.kept (magicBytes ++ sha.digest byteArray))))
      else .error .doubleClose := by
  simp only [writeHash, disk.hash_resolves.2.1, Fallible.ok_bind]
  by_cases opens : env.hashWrite.opens = true
  · have notDir : tree.get (Target.node (hashFileName :: dbDirName :: home)).location ≠
        some .dir := by simp [disk.hash]
    simp only [FileTree.writeFile_eq disk.hash_located opens notDir, opens, if_true,
      Target.location_node, disk.hash, Option.some.injEq, reduceCtorEq, if_false,
      Fallible.pure_eq_ok]
  · rw [Bool.not_eq_true] at opens
    simp only [FileTree.writeFile_refused _ disk.hash_located opens, opens, Bool.false_eq_true,
      if_false, Fallible.throw_eq_error]

end OnDisk

theorem updateDbHash_crashes (sha : Sha256) (disk : OnDisk tree home text stored)
    (crashes : ClosesTwice env text) :
    updateDbHash env sha tree ⟨render home⟩ ⟨render (dbFileName :: dbDirName :: home)⟩ =
      .error .doubleClose := by
  rcases crashes with ⟨opens, allocates, why⟩
  rw [updateDbHash, disk.readBack_eq, if_neg (by simp [opens]), if_neg (by simp [allocates])]
  by_cases whole : env.dbRead.delivered text = text
  · have closed : ¬ env.hashWrite.opens = true := by simpa [whole] using why
    simp only [if_pos whole, Fallible.ok_bind, disk.writeHash_eq, if_neg closed,
      Fallible.error_bind]
  · simp only [if_neg whole, Fallible.error_bind]

theorem updateDbHash_disk (sha : Sha256) (disk : OnDisk tree home text stored)
    (survives : ¬ ClosesTwice env text) :
    ∃ hashFile after,
      updateDbHash env sha tree ⟨render home⟩
          ⟨render (dbFileName :: dbDirName :: home)⟩ = .ok (hashFile, after) ∧
        OnDisk after home text
          (if env.dbRead.Reads text ∧ env.hashWrite.opens = true then
            env.hashWrite.kept (magicBytes ++ sha.digest text)
          else stored) := by
  rw [updateDbHash, disk.readBack_eq]
  by_cases unopened : env.dbRead.opens = false
  · have unread : ¬ env.dbRead.Reads text := fun reads => by simp [reads.opens] at unopened
    simp only [if_pos unopened, Fallible.ok_bind, unread, false_and, if_false]
    exact ⟨_, _, rfl, disk⟩
  by_cases unbuffered : env.dbRead.allocates = false
  · have unread : ¬ env.dbRead.Reads text := fun reads => by simp [reads.allocates] at unbuffered
    simp only [if_neg unopened, if_pos unbuffered, Fallible.ok_bind, unread, false_and, if_false]
    exact ⟨_, _, rfl, disk⟩
  have opens : env.dbRead.opens = true := by simpa using unopened
  have allocates : env.dbRead.allocates = true := by simpa using unbuffered
  have whole : env.dbRead.delivered text = text := by
    by_contra short
    exact survives ⟨opens, allocates, .inl short⟩
  have hashOpens : env.hashWrite.opens = true := by
    by_contra closed
    exact survives ⟨opens, allocates, .inr (by simpa using closed)⟩
  have reads : env.dbRead.Reads text := ⟨opens, allocates, whole⟩
  simp only [if_neg unopened, if_neg unbuffered, if_pos whole, Fallible.ok_bind,
    disk.writeHash_eq, if_pos hashOpens, Fallible.pure_eq_ok, if_pos (And.intro reads hashOpens)]
  exact ⟨_, _, rfl, disk.put_hash _⟩

theorem fWriteFile_disk (env : Env) (image : Bytes) (disk : OnDisk tree home text stored) :
    ∃ status after,
      fWriteFile env.dbWrite tree ⟨render (dbFileName :: dbDirName :: home)⟩ (some image) =
          (status, after) ∧
        OnDisk after home (textAfter env text image) stored ∧
        (status = .opFailure ↔
          ¬ (env.dbWrite.opens = true ∧ env.dbWrite.accepted image = image)) := by
  have located := FileTree.locate_render true ⟨_, disk.file, by simp⟩ disk.file_resolves.2.2
  rcases fWriteFile_cases env.dbWrite tree
      ⟨render (dbFileName :: dbDirName :: home)⟩ image with
    ⟨target, located', opens, _, result⟩ | ⟨unready, _⟩
  · rw [located] at located'
    cases located'
    simp only [Target.location_node, disk.file, Option.some.injEq, reduceCtorEq, if_false]
      at result
    refine ⟨_, _, result, ?_, ?_⟩
    · rw [textAfter, if_pos opens]
      exact disk.put_file _
    · by_cases whole : env.dbWrite.accepted image = image
      · simp [whole, opens]
      · simp [whole]
  · have closed : env.dbWrite.opens = false := by
      by_contra opens
      exact unready ⟨_, located, by simpa using opens, by simp [disk.file]⟩
    have refused : fWriteFile env.dbWrite tree
        ⟨render (dbFileName :: dbDirName :: home)⟩ (some image) = (.opFailure, tree) := by
      simp only [fWriteFile, FileTree.writeFile_refused image located closed, fOpenError]
    refine ⟨_, _, refused, ?_, by simp [closed]⟩
    rw [textAfter, if_neg (by simp [closed])]
    exact disk

theorem saveUsers_image_eq (env : Env) (sha : Sha256) {server : Server}
    {users : HashTable CString UserAccount} {image : Bytes}
    (disk : OnDisk server.tree home text stored)
    (serves : server.db.homeDir = ⟨render home⟩) (saving : server.db.debug = false)
    (written : dbImage (env.users.arrange users.values) = .ok image) :
    ∃ tree, OnDisk tree home (textAfter env text image) stored ∧
      saveUsers env sha server users =
        if env.dbWrite.opens = true ∧ env.dbWrite.accepted image = image then do
          let (_, tree) ← updateDbHash env sha tree ⟨render home⟩
            ⟨render (dbFileName :: dbDirName :: home)⟩
          return (.opSuccess, ⟨server.db.setUsers users, tree⟩)
        else .ok (.opSuccess, ⟨server.db.setUsers users, tree⟩) := by
  have resolved : fVerValidResolve server.tree (server.db.setUsers users).homeDir
      (some (CString.ofBuffer dbName)) =
        .ok (some ⟨render (dbFileName :: dbDirName :: home)⟩) := by
    rw [Db.setUsers_homeDir, serves]
    exact disk.file_resolves.2.1
  have unsaved : ¬ (server.db.setUsers users).debug = true := by simp [saving]
  rcases fWriteFile_disk env image disk with ⟨status, tree, wrote, afterWrite, failed⟩
  refine ⟨tree, afterWrite, ?_⟩
  simp only [saveUsers, dbUpdateDb, if_neg unsaved, Db.setUsers_usersHtable, written, resolved,
    wrote, Fallible.ok_bind, Fallible.pure_eq_ok]
  by_cases whole : env.dbWrite.opens = true ∧ env.dbWrite.accepted image = image
  · have reported : ¬ status = .opFailure := fun reports => failed.mp reports whole
    rw [if_neg reported, if_pos whole, Db.setUsers_homeDir, serves]
    cases updateDbHash env sha tree ⟨render home⟩ ⟨render (dbFileName :: dbDirName :: home)⟩ <;>
      rfl
  · rw [if_pos (failed.mpr whole), if_neg whole]
    rfl

/-- A table that has an image is saved, unless the save does not return. It leaves two files
whatever fails, and this is what they hold. -/
theorem saveUsers_written (sha : Sha256) {server : Server}
    {users : HashTable CString UserAccount} {image : Bytes}
    (disk : OnDisk server.tree home text stored)
    (serves : server.db.homeDir = ⟨render home⟩) (saving : server.db.debug = false)
    (written : dbImage (env.users.arrange users.values) = .ok image)
    (survives : ¬ SaveCrashes env image) :
    ∃ tree, saveUsers env sha server users = .ok (.opSuccess, ⟨server.db.setUsers users, tree⟩) ∧
      OnDisk tree home (textAfter env text image) (hashAfter env sha stored image) := by
  rcases saveUsers_image_eq env sha disk serves saving written with ⟨tree, afterWrite, saves⟩
  rw [saves]
  by_cases whole : env.dbWrite.opens = true ∧ env.dbWrite.accepted image = image
  · have textIs : textAfter env text image = env.dbWrite.kept image := if_pos whole.1
    have once : ¬ ClosesTwice env (textAfter env text image) := by
      rw [textIs]
      exact fun twice => survives ⟨whole.1, whole.2, twice⟩
    rcases updateDbHash_disk sha afterWrite once with ⟨hashFile, after, rehashed, disk'⟩
    rw [if_pos whole, rehashed]
    refine ⟨after, rfl, ?_⟩
    simpa only [hashAfter, textIs, Rehashes, whole.1, whole.2, true_and] using disk'
  · rw [if_neg whole]
    refine ⟨tree, rfl, ?_⟩
    have unhashed : ¬ Rehashes env image := fun rehashes => whole ⟨rehashes.1, rehashes.2.1⟩
    rw [hashAfter, if_neg unhashed]
    exact afterWrite

theorem saveUsers_crashes (sha : Sha256) {server : Server}
    {users : HashTable CString UserAccount} {image : Bytes}
    (disk : OnDisk server.tree home text stored)
    (serves : server.db.homeDir = ⟨render home⟩) (saving : server.db.debug = false)
    (written : dbImage (env.users.arrange users.values) = .ok image)
    (crashes : SaveCrashes env image) :
    saveUsers env sha server users = .error .doubleClose := by
  rcases saveUsers_image_eq env sha disk serves saving written with ⟨tree, afterWrite, saves⟩
  rcases crashes with ⟨opens, accepted, twice⟩
  rw [textAfter, if_pos opens] at afterWrite
  rw [saves, if_pos ⟨opens, accepted⟩, updateDbHash_crashes sha afterWrite twice]
  rfl

theorem saveUsers_disk {server after : Server} {users : HashTable CString UserAccount}
    {code : RetCode} (disk : OnDisk server.tree home text stored)
    (serves : server.db.homeDir = ⟨render home⟩) (saving : server.db.debug = false)
    (saved : saveUsers env sha server users = .ok (code, after)) :
    ∃ image, dbImage (env.users.arrange users.values) = .ok image ∧
      ¬ SaveCrashes env image ∧
      OnDisk after.tree home (textAfter env text image) (hashAfter env sha stored image) := by
  rcases saveUsers_image saved saving with ⟨image, written⟩
  have survives : ¬ SaveCrashes env image := by
    intro crashes
    rw [saveUsers_crashes sha disk serves saving written crashes] at saved
    cases saved
  rcases saveUsers_written sha disk serves saving written survives with ⟨tree, saved', disk'⟩
  rw [saved] at saved'
  cases saved'
  exact ⟨image, written, survives, disk'⟩

end Saving

end FileTransfer
