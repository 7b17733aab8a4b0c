import FileTransfer.Guarantees.Persistence

/-! # Starting on what is there

A start is to open an intact database, to leave an existing one alone, and to make one
where there is none. It takes files for missing that its lookup does not find: those that
links lead out of the home directory to, and those whose path is too long for it.
-/

namespace FileTransfer

open Foundation Posix

/-! ## What is promised -/

def HasDatabase (tree : FileTree) (home : Location) : Prop :=
  HasEntry tree home dbFileName ∨ HasEntry tree home hashFileName

def FileAt (tree : FileTree) (home : Location) (name : Name) (content : Bytes) : Prop :=
  ∃ place, EntryAt tree home name place ∧ tree.get place = some (.file content)

def Intact (sha : Sha256) (tree : FileTree) (home : Location)
    (users : HashTable CString UserAccount) : Prop :=
  ∃ text, FileAt tree home dbFileName text ∧
    FileAt tree home hashFileName (magicBytes ++ sha.digest text) ∧ StoredUsers text users

def Unaltered (tree after : FileTree) (home : Location) : Prop :=
  ∀ name, name = dbFileName ∨ name = hashFileName → ∀ place, EntryAt tree home name place →
    after.get place = tree.get place

structure ReadsSucceed (env : Env) : Prop where
  read : env.read.Smooth
  dbRead : env.dbRead.Smooth

/-- The files that a start leaves, also one that does not return. A crash that comes after
`init_db_file` finds the database written, and no other crash finds anything written. -/
def leftByStart (env : Env) (sha : Sha256) (tree : FileTree) (homeDir : VerifiedPath) :
    FileTree :=
  match findDbDir env tree homeDir with
  | .error _ => tree
  | .ok (none, tree) => tree
  | .ok (some _, tree) =>
      match findDbFiles env sha tree homeDir with
      | .ok (_, tree) => tree
      | .error _ =>
          match initDbFile env tree homeDir with
          | .ok (_, tree) => tree
          | .error _ => tree

/-- A start opens an existing database only if it is intact, and never alters it. Where
there is none, and nothing but a directory in the place of `.cape`, it makes one that is
opened from then on, with the default account. -/
structure OpensIntact (sha : Sha256) (tree : FileTree) (home : Location) : Prop where
  opened : HasDatabase tree home → ∀ env, ReadsSucceed env →
    Unaltered tree (leftByStart env sha tree ⟨render home⟩) home ∧
      ∀ db after, dbInit env sha tree ⟨render home⟩ = .ok (some db, after) →
        Intact sha tree home db.usersHtable
  created : ¬ HasDatabase tree home →
    (∀ directory, DbDirAt tree home directory → tree.get directory = some .dir) →
    ∀ env : Env, env.Smooth → ∃ after,
      dbInit env sha tree ⟨render home⟩ = .ok (some (defaultDb home), after) ∧
        Intact sha after home (defaultDb home).usersHtable ∧
        ∀ later, ReadsSucceed later →
          dbInit later sha after ⟨render home⟩ = .ok (some (defaultDb home), after)

/-! ## When it is kept -/

def Found (tree : FileTree) (home : Location) (file : Bytes) : Prop :=
  ∃ path, fVerPathResolve tree ⟨render home⟩ (some (CString.ofBuffer file)) = .ok (some path)

def Verified (tree : FileTree) (home : Location) (file : Bytes) : Prop :=
  ∃ path, fVerValidResolve tree ⟨render home⟩ (some (CString.ofBuffer file)) =
    .ok (some path)

def Writable (tree : FileTree) (home : Location) (file : Bytes) : Prop :=
  ∃ path place, fVerValidResolve tree ⟨render home⟩ (some (CString.ofBuffer file)) =
      .ok (some path) ∧
    tree.Denotes path.path place ∧ tree.get place ≠ some .dir ∧ tree.get place ≠ some .other

def LeadsToDevice (tree : FileTree) (home : Location) (file : Bytes) : Prop :=
  ∃ path place, fVerValidResolve tree ⟨render home⟩ (some (CString.ofBuffer file)) =
      .ok (some path) ∧
    tree.Denotes path.path place ∧ tree.get place = some .other

/-- A start that takes both files for missing writes to the place of one of them: to that of
the hash also where the database has gone to a device. -/
def Rewrites (tree : FileTree) (home : Location) : Prop :=
  Writable tree home dbName ∨ LeadsToDevice tree home dbName ∧ Writable tree home dbHash

section

variable {env : Env} {sha : Sha256} {tree after : FileTree} {home : Location}

theorem HasDatabase.present (isDir : tree.get home = some .dir)
    (exists' : HasDatabase tree home) : tree.get (dbDirName :: home) ≠ none := by
  rcases exists' with ⟨_, leads, _⟩ | ⟨_, leads, _⟩ <;> exact leads.present isDir

theorem Unaltered.refl (tree : FileTree) (home : Location) : Unaltered tree tree home :=
  fun _ _ _ _ => rfl

theorem leftByStart_eq {loaded : Option Db} {homeDir : VerifiedPath}
    (started : dbInit env sha tree homeDir = .ok (loaded, after)) :
    leftByStart env sha tree homeDir = after := by
  rcases Fallible.ok_of_bind_ok started with ⟨⟨_ | path, tree'⟩, foundDir, files⟩
  · cases files
    simp only [leftByStart, foundDir]
  · rcases Fallible.ok_of_bind_ok files with ⟨⟨_ | found, tree''⟩, foundFiles, final⟩
    · cases final
      simp only [leftByStart, foundDir, foundFiles]
    · rcases Fallible.ok_of_bind_ok final with ⟨_, _, same⟩
      cases same
      simp only [leftByStart, foundDir, foundFiles]

theorem dbLoad_reads {homeDir hashFile dbFile : VerifiedPath} {db : Db}
    (loaded : dbLoad env sha tree homeDir hashFile dbFile = .ok (some db)) :
    ∃ filePlace hashPlace text stored, tree.Denotes dbFile.path filePlace ∧
      tree.get filePlace = some (.file text) ∧ tree.Denotes hashFile.path hashPlace ∧
      tree.get hashPlace = some (.file stored) := by
  rcases dbLoad_ok loaded with ⟨_, _, _, _, _, _, _, dbRead, hashRead, _⟩
  rcases fReadFile_ok dbRead with ⟨filePlace, fileLeads, isFile, _⟩
  rcases fReadFile_ok hashRead with ⟨hashPlace, hashLeads, isHash, _⟩
  exact ⟨filePlace, hashPlace, _, _, fileLeads, isFile, hashLeads, isHash⟩

theorem found_entryAt {child : CString} {name : Name} {path : VerifiedPath} {place : Location}
    (isDir : tree.get home = some .dir)
    (spelled : child.bytes = dbDirName.bytes ++ slash :: name.bytes)
    (found : fPathResolve tree (render home) child = .ok (some path))
    (leads : tree.Denotes path.path place) : EntryAt tree home name place := by
  rcases (fPathResolve_entry_iff isDir spelled).mp found with
    ⟨_, place', reached, short, _, rfl⟩
  have solid : tree.Solid place' := by
    rcases FileTree.walk_delivered (FileTree.solid_of_dir isDir) reached with
      solid | ⟨impossible, _⟩
    · exact solid
    · cases impossible
  rw [FileTree.denotes_unique leads ⟨_, FileTree.locate_render true solid short, rfl⟩]
  exact (entryAt_of_walk reached).1

theorem intact_of_loaded {hashFile dbFile : VerifiedPath} {db : Db}
    (isDir : tree.get home = some .dir) (reads : ReadsSucceed env)
    (hashFound : fPathResolve tree (render home) (CString.ofBuffer dbHash) =
      .ok (some hashFile))
    (dbFound : fPathResolve tree (render home) (CString.ofBuffer dbName) = .ok (some dbFile))
    (loaded : dbLoad env sha tree ⟨render home⟩ hashFile dbFile = .ok (some db)) :
    Intact sha tree home db.usersHtable := by
  rcases dbLoad_reads loaded with
    ⟨filePlace, hashPlace, text, stored, fileLeads, isFile, hashLeads, isHash⟩
  rcases (dbLoad_some_iff fileLeads isFile hashLeads isHash (reads.read.reads _)
    (reads.read.reads _)).mp loaded with
    ⟨rfl, users, holds, rfl⟩
  exact ⟨text, ⟨filePlace, found_entryAt isDir dbName_parts.1 dbFound fileLeads, isFile⟩,
    ⟨hashPlace, found_entryAt isDir dbHash_parts.1 hashFound hashLeads, isHash⟩, holds⟩

/-- Where the path leads to no file and to no free place, nothing is written for the database,
and the path is gone on with only if it does not lead to a directory. -/
theorem initDbFile_harmless {written : Option VerifiedPath}
    (harmless : ¬ Rewrites tree home)
    (initialised : initDbFile env tree ⟨render home⟩ = .ok (written, after)) :
    after = tree ∧ ∀ path, written = some path →
      fVerValidResolve tree ⟨render home⟩ (some (CString.ofBuffer dbName)) = .ok (some path) ∧
        ∀ place, tree.Denotes path.path place → tree.get place = some .other := by
  rcases Fallible.ok_of_bind_ok initialised with ⟨accepted, verified, initialised⟩
  cases accepted with
  | none =>
      cases initialised
      exact ⟨rfl, by simp⟩
  | some path =>
      rcases fWriteFile_cases env.dbWrite tree path defaultImage with
        ⟨target, located, _, notDir, result⟩ | ⟨unready, code, _, result⟩
      · have isOther : tree.get target.location = some .other := by
          by_contra notOther
          exact harmless (.inl ⟨path, _, verified, ⟨target, located, rfl⟩, notDir, notOther⟩)
        simp only [result, if_pos isOther] at initialised
        split at initialised <;> cases initialised
        · refine ⟨rfl, ?_⟩
          rintro _ ⟨⟩
          refine ⟨verified, fun place leads => ?_⟩
          rw [FileTree.denotes_unique leads ⟨target, located, rfl⟩]
          exact isOther
        · exact ⟨rfl, by simp⟩
      · simp only [result] at initialised
        split at initialised <;> cases initialised
        · exact ⟨rfl, by simp⟩
        · rename_i passed
          refine ⟨rfl, ?_⟩
          rintro _ ⟨⟩
          refine ⟨verified, ?_⟩
          rintro place ⟨target, located, rfl⟩
          -- A path that leads anywhere fails to open with the code that is looked for.
          have failed : (fWriteFile env.dbWrite tree path (some defaultImage)).1 = .opFailure := by
            cases opens : env.dbWrite.opens with
            | false =>
                simp only [fWriteFile, FileTree.writeFile_refused _ located opens, fOpenError]
            | true =>
                have isDir : tree.get target.location = some .dir := by
                  by_contra notDir
                  exact unready ⟨target, located, opens, notDir⟩
                simp only [fWriteFile, FileTree.writeFile_dir _ located opens isDir, fOpenError]
          rw [result] at failed
          exact absurd failed passed

theorem updateDbHash_harmless {dbFile : VerifiedPath} {hashFile : Option VerifiedPath}
    (harmless : ¬ Rewrites tree home)
    (accepted : fVerValidResolve tree ⟨render home⟩ (some (CString.ofBuffer dbName)) =
      .ok (some dbFile))
    (device : ∀ place, tree.Denotes dbFile.path place → tree.get place = some .other)
    (updated : updateDbHash env sha tree ⟨render home⟩ dbFile = .ok (hashFile, after)) :
    after = tree := by
  rcases updateDbHash_cases updated with ⟨_, same⟩ | ⟨byteArray, path, read, wrote, _⟩
  · exact same
  · rcases readBack_ok read with ⟨place, leads⟩
    rcases writeHash_ok wrote with ⟨verified, count, written⟩
    rcases FileTree.writeFile_ok written with
      ⟨target, located, _, _, notDir, ⟨_, same⟩ | ⟨notOther, _⟩⟩
    · exact same
    · exact absurd (.inr ⟨⟨dbFile, place, accepted, leads, device place leads⟩, path, _, verified,
        ⟨target, located, rfl⟩, notDir, notOther⟩) harmless

theorem unfound_eq {file : Bytes} (unfound : ¬ Found tree home file) :
    fVerPathResolve tree ⟨render home⟩ (some (CString.ofBuffer file)) = .ok none := by
  rw [fVerPathResolve, fPathResolve_eq]
  rw [Found, fVerPathResolve, fPathResolve_eq] at unfound
  split at unfound <;> rename_i fits
  · rw [if_pos fits]
    by_contra found
    rcases Option.ne_none_iff_exists'.mp (fun none' => found (congrArg Except.ok none')) with
      ⟨path, isPath⟩
    exact unfound ⟨path, congrArg Except.ok isPath⟩
  · rw [if_neg fits]

theorem findDbFiles_unfound (env : Env) (sha : Sha256) (noFile : ¬ Found tree home dbName)
    (noHash : ¬ Found tree home dbHash) :
    findDbFiles env sha tree ⟨render home⟩ = (do
      match ← initDbFile env tree ⟨render home⟩ with
      | (none, tree) => return (none, tree)
      | (some dbFile, tree) =>
          match ← updateDbHash env sha tree ⟨render home⟩ dbFile with
          | (none, tree) => return (none, tree)
          | (some hashFile, tree) => return (some (hashFile, dbFile), tree)) := by
  simp only [findDbFiles, unfound_eq noFile, unfound_eq noHash, Fallible.ok_bind] <;> rfl

theorem findDbFiles_found (env : Env) (sha : Sha256)
    (found : Found tree home dbName ∨ Found tree home dbHash) :
    ∃ files, findDbFiles env sha tree ⟨render home⟩ = .ok (files, tree) := by
  have looked : ∀ file, ∃ path, fVerPathResolve tree ⟨render home⟩
      (some (CString.ofBuffer file)) = .ok path := fun file => ⟨_, fPathResolve_eq _ _ _⟩
  rcases looked dbHash with ⟨hashFile, hashFound⟩
  rcases looked dbName with ⟨dbFile, dbFound⟩
  simp only [Found, dbFound, hashFound, Except.ok.injEq] at found
  simp only [findDbFiles, hashFound, dbFound, Fallible.ok_bind]
  cases hashFile with
  | none =>
      cases dbFile with
      | none => rcases found with ⟨path, impossible⟩ | ⟨path, impossible⟩ <;> cases impossible
      | some dbFile => exact ⟨_, rfl⟩
  | some hashFile => cases dbFile <;> exact ⟨_, rfl⟩

theorem findDbFiles_harmless {files : Option (VerifiedPath × VerifiedPath)}
    (harmless : ¬ Rewrites tree home) (noFile : ¬ Found tree home dbName)
    (noHash : ¬ Found tree home dbHash)
    (made : findDbFiles env sha tree ⟨render home⟩ = .ok (files, after)) :
    after = tree ∧ ∀ hashFile dbFile, files = some (hashFile, dbFile) →
      ∀ place, tree.Denotes dbFile.path place → tree.get place = some .other := by
  rw [findDbFiles_unfound env sha noFile noHash] at made
  rcases Fallible.ok_of_bind_ok made with ⟨⟨_ | dbFile, filled⟩, initialised, made⟩
  · cases made
    exact ⟨(initDbFile_harmless harmless initialised).1, by simp⟩
  rcases initDbFile_harmless harmless initialised with ⟨same, written⟩
  rcases written dbFile rfl with ⟨accepted, device⟩
  simp only [same] at made
  rcases Fallible.ok_of_bind_ok made with ⟨⟨hashed, after'⟩, updated, made⟩
  have unchanged := updateDbHash_harmless harmless accepted device updated
  cases hashed with
  | none =>
      cases made
      exact ⟨unchanged, by simp⟩
  | some hashFile =>
      cases made
      refine ⟨unchanged, ?_⟩
      rintro _ _ ⟨⟩
      exact device

theorem leftByStart_kept (env : Env) (sha : Sha256) (isDir : tree.get home = some .dir)
    (exists' : HasDatabase tree home)
    (kept : Found tree home dbName ∨ Found tree home dbHash ∨ ¬ Rewrites tree home) :
    leftByStart env sha tree ⟨render home⟩ = tree := by
  rw [leftByStart]
  cases foundDir : findDbDir env tree ⟨render home⟩ with
  | error fault => rfl
  | ok result =>
      rcases result with ⟨path, tree'⟩
      cases findDbDir_present isDir (exists'.present isDir) foundDir
      cases path with
      | none => rfl
      | some path =>
          by_cases found : Found tree home dbName ∨ Found tree home dbHash
          · rcases findDbFiles_found env sha found with ⟨files, found⟩
            simp only [found]
          · rcases not_or.mp found with ⟨noFile, noHash⟩
            have harmless : ¬ Rewrites tree home :=
              (kept.resolve_left noFile).resolve_left noHash
            simp only
            cases made : findDbFiles env sha tree ⟨render home⟩ with
            | ok result => exact (findDbFiles_harmless harmless noFile noHash made).1
            | error fault =>
                simp only
                cases initialised : initDbFile env tree ⟨render home⟩ with
                | ok result => exact (initDbFile_harmless harmless initialised).1
                | error fault => rfl

theorem opened_of_kept (isDir : tree.get home = some .dir) (exists' : HasDatabase tree home)
    (kept : Found tree home dbName ∨ Found tree home dbHash ∨ ¬ Rewrites tree home)
    (reads : ReadsSucceed env) {db : Db}
    (started : dbInit env sha tree ⟨render home⟩ = .ok (some db, after)) :
    Intact sha tree home db.usersHtable := by
  rcases Fallible.ok_of_bind_ok started with ⟨⟨_ | path, tree'⟩, foundDir, files⟩
  · cases files
  cases findDbDir_present isDir (exists'.present isDir) foundDir
  rcases Fallible.ok_of_bind_ok files with ⟨⟨_ | ⟨hashFile, dbFile⟩, tree'⟩, foundFiles, final⟩
  · cases final
  rcases Fallible.ok_of_bind_ok final with ⟨loaded, load, same⟩
  cases same
  by_cases found : Found tree home dbName ∨ Found tree home dbHash
  · rcases Fallible.ok_of_bind_ok foundFiles with ⟨hashFile', hashFound, others⟩
    rcases Fallible.ok_of_bind_ok others with ⟨dbFile', dbFound, chosen⟩
    cases hashFile' with
    | none =>
        cases dbFile' with
        | none =>
            rcases found with ⟨path, found⟩ | ⟨path, found⟩
            · cases dbFound.symm.trans found
            · cases hashFound.symm.trans found
        | some dbFile' => cases chosen
    | some hashFile' =>
        cases dbFile' with
        | none => cases chosen
        | some dbFile' =>
            cases chosen
            exact intact_of_loaded isDir reads hashFound dbFound load
  · rcases not_or.mp found with ⟨noFile, noHash⟩
    have harmless : ¬ Rewrites tree home := (kept.resolve_left noFile).resolve_left noHash
    rcases findDbFiles_harmless harmless noFile noHash foundFiles with ⟨rfl, device⟩
    rcases dbLoad_reads load with ⟨place, _, _, _, leads, isFile, _⟩
    rw [device hashFile dbFile rfl place leads] at isFile
    cases isFile

def shortWrite (tree : FileTree) (place : Location) : WriteOutcome :=
  ⟨true, some (if tree.get place = some (.file []) then 1 else 0), none⟩

theorem shortWrite_differs (tree : FileTree) (place : Location) (stream : Bytes)
    (long : 1 < stream.length) :
    (shortWrite tree place).accepted stream ≠ stream ∧
      some (Node.file ((shortWrite tree place).kept stream)) ≠ tree.get place := by
  have shorter : ((shortWrite tree place).accepted stream).length ≤ 1 := by
    rw [WriteOutcome.accepted, List.length_take, shortWrite]
    apply (Nat.min_le_left _ _).trans
    simp only [Option.getD_some]
    split <;> omega
  refine ⟨fun same => by rw [same] at shorter; omega, ?_⟩
  rcases stream with _ | ⟨first, rest⟩
  · simp at long
  by_cases empty : tree.get place = some (.file [])
  · rw [empty, WriteOutcome.kept, WriteOutcome.accepted, shortWrite, if_pos empty]
    simp
  · rw [WriteOutcome.kept, WriteOutcome.accepted, shortWrite, if_neg empty]
    exact fun same => empty same.symm

theorem leftByStart_made (isDir : tree.get home = some .dir) (exists' : HasDatabase tree home)
    {file : Bytes} {path : VerifiedPath}
    {files : Option (VerifiedPath × VerifiedPath)} (spelled : file = dbName ∨ file = dbHash)
    (accepted : fVerValidResolve tree ⟨render home⟩ (some (CString.ofBuffer file)) =
      .ok (some path))
    (made : findDbFiles env sha tree ⟨render home⟩ = .ok (files, after)) :
    leftByStart env sha tree ⟨render home⟩ = after := by
  have short : (render home ++ slash :: dbDirName.bytes).length < pathMax := by
    rcases spelled with rfl | rfl
    · exact ((fValidResolve_entry_iff isDir dbName_parts.2.1 dbName_parts.2.2).mp accepted).1
    · exact ((fValidResolve_entry_iff isDir dbHash_parts.2.1 dbHash_parts.2.2).mp accepted).1
  rcases findDbDir_eq env isDir short (.inr (exists'.present isDir)) with ⟨path, foundDir⟩
  rw [withDbDir_of_present (exists'.present isDir)] at foundDir
  simp only [leftByStart, foundDir, made]

section Unfound

variable (isDir : tree.get home = some .dir) (exists' : HasDatabase tree home)
  (noFile : ¬ Found tree home dbName) (noHash : ¬ Found tree home dbHash)

include isDir exists' noFile noHash

theorem not_opened_of_writable (writable : Writable tree home dbName) :
    ¬ OpensIntact sha tree home := by
  intro promised
  rcases writable with ⟨path, place, accepted, leads, notDir, notOther⟩
  rcases (fValidResolve_entry_iff isDir dbName_parts.2.1 dbName_parts.2.2).mp accepted with
    ⟨_, directory, isDb, short, _, rfl⟩
  have entry := (denotes_entry_iff isDir isDb short).mp leads
  have differs := shortWrite_differs tree place defaultImage (by decide)
  rcases leads with ⟨target, located, rfl⟩
  let env : Env := { dbWrite := shortWrite tree target.location }
  have wrote : fWriteFile env.dbWrite tree ⟨render directory ++ slash :: dbFileName.bytes⟩
      (some defaultImage) =
        (.opFailure, tree.put target.location (.file (env.dbWrite.kept defaultImage))) := by
    rcases fWriteFile_cases env.dbWrite tree
        ⟨render directory ++ slash :: dbFileName.bytes⟩ defaultImage with
      ⟨target', located', _, _, result⟩ | ⟨unready, _⟩
    · rw [located] at located'
      cases located'
      rw [result, if_neg differs.1, if_neg notOther]
    · exact absurd ⟨target, located, rfl, notDir⟩ unready
  have made : findDbFiles env sha tree ⟨render home⟩ =
      .ok (none, tree.put target.location (.file (env.dbWrite.kept defaultImage))) := by
    rw [findDbFiles_unfound env sha noFile noHash]
    simp only [initDbFile, accepted, wrote, Fallible.ok_bind, Fallible.pure_eq_ok, if_true]
  have unaltered := (promised.opened exists' env ⟨⟨rfl, rfl, rfl⟩, ⟨rfl, rfl, rfl⟩⟩).1
    dbFileName (.inl rfl) _ entry
  rw [leftByStart_made isDir exists' (.inl rfl) accepted made,
    FileTree.get_put_self _ (FileTree.canHold_of_located located notDir)] at unaltered
  exact differs.2 unaltered

/-- A device takes the whole database and reads as empty, and the hash of that is written. -/
theorem not_opened_of_device (device : LeadsToDevice tree home dbName)
    (writable : Writable tree home dbHash) : ¬ OpensIntact sha tree home := by
  intro promised
  rcases device with ⟨dbFile, dbPlace, dbAccepted, ⟨dbTarget, dbLocated, rfl⟩, isOther⟩
  rcases writable with ⟨path, place, accepted, leads, notDir, notOther⟩
  rcases (fValidResolve_entry_iff isDir dbHash_parts.2.1 dbHash_parts.2.2).mp accepted with
    ⟨_, directory, isDb, short, _, rfl⟩
  have entry := (denotes_entry_iff isDir isDb short).mp leads
  rcases leads with ⟨target, located, rfl⟩
  let env : Env := { hashWrite := shortWrite tree target.location }
  have long : 1 < (magicBytes ++ sha.digest []).length := by
    rw [List.length_append, sha.size]
    decide
  have differs := shortWrite_differs tree target.location _ long
  have wrote : fWriteFile env.dbWrite tree dbFile (some defaultImage) = (.opSuccess, tree) := by
    rcases fWriteFile_cases env.dbWrite tree dbFile defaultImage with
      ⟨target', located', _, _, result⟩ | ⟨unready, _⟩
    · rw [dbLocated] at located'
      cases located'
      rw [result, if_pos (WriteOutcome.accepted_smooth _), if_pos isOther]
    · exact absurd ⟨dbTarget, dbLocated, rfl, by simp [isOther]⟩ unready
  have read : readBack env tree dbFile = .ok (some []) := by
    rw [readBack, FileTree.openRead_eq env.dbRead dbLocated isOther]
    rfl
  have stored : tree.writeFile env.hashWrite (render directory ++ slash :: hashFileName.bytes)
      (magicBytes ++ sha.digest []) = .ok (_, _) := FileTree.writeFile_eq located rfl notDir
  rw [if_neg notOther] at stored
  have hashed : updateDbHash env sha tree ⟨render home⟩ dbFile =
      .ok (some ⟨render directory ++ slash :: hashFileName.bytes⟩, tree.put target.location
        (.file (env.hashWrite.kept (magicBytes ++ sha.digest [])))) := by
    simp only [updateDbHash, read, writeHash, accepted, stored, Fallible.ok_bind,
      Fallible.pure_eq_ok]
  have made : ∃ files, findDbFiles env sha tree ⟨render home⟩ = .ok (files, tree.put
      target.location (.file (env.hashWrite.kept (magicBytes ++ sha.digest [])))) := by
    rw [findDbFiles_unfound env sha noFile noHash]
    simp only [initDbFile, dbAccepted, wrote, hashed, Fallible.ok_bind, Fallible.pure_eq_ok,
      reduceCtorEq, if_false]
    exact ⟨_, rfl⟩
  rcases made with ⟨files, made⟩
  have unaltered := (promised.opened exists' env ⟨⟨rfl, rfl, rfl⟩, ⟨rfl, rfl, rfl⟩⟩).1
    hashFileName (.inr rfl) _ entry
  rw [leftByStart_made isDir exists' (.inr rfl) accepted made,
    FileTree.get_put_self _ (FileTree.canHold_of_located located notDir)] at unaltered
  exact differs.2 unaltered

end Unfound

/-! ## Making a database -/

theorem ready_of_usable (isDir : tree.get home = some .dir)
    (plain : ∀ directory, DbDirAt tree home directory → tree.get directory = some .dir)
    (fits : (render home).length + dbHash.length + slashPlusNull ≤ pathMax)
    (usable : tree.get (dbDirName :: home) = none ∨
      Verified tree home dbName ∧ Verified tree home dbHash) :
    ∃ directory, DbDirReady (withDbDir tree home) home directory := by
  rcases usable with absent | ⟨⟨path, accepted⟩, ⟨path', accepted'⟩⟩
  · refine ⟨dbDirName :: home, dbDirReady_plain (withDbDir_isDir isDir) ?_ fits⟩
    rw [withDbDir_of_absent absent]
    exact FileTree.get_put_self _ ⟨isDir, by simp [absent]⟩
  · rcases (fValidResolve_entry_iff isDir dbName_parts.2.1 dbName_parts.2.2).mp accepted with
      ⟨_, directory, leads, _, _, rfl⟩
    rcases (fValidResolve_entry_iff isDir dbHash_parts.2.1 dbHash_parts.2.2).mp accepted' with
      ⟨_, directory', leads', _, _, rfl⟩
    cases leads.unique leads'
    rw [withDbDir_of_present (leads.present isDir)]
    exact ⟨directory, isDir, leads, plain directory leads, accepted, accepted'⟩

theorem dbInit_reopens {directory : Location} {text : Bytes}
    {users : HashTable CString UserAccount} (ready : DbDirReady tree home directory)
    (fits : (render home).length + dbHash.length + slashPlusNull ≤ pathMax)
    (isFile : tree.get (dbFileName :: directory) = some (.file text))
    (isHash : tree.get (hashFileName :: directory) =
      some (.file (magicBytes ++ sha.digest text)))
    (holds : StoredUsers text users) (reads : ReadsSucceed env) :
    dbInit env sha tree ⟨render home⟩ = .ok (some ⟨users, ∅, ⟨render home⟩, false⟩, tree) := by
  have sizes : (CString.ofBuffer dbName).length = 14 ∧ (CString.ofBuffer dbHash).length = 16 ∧
      dbHash.length = 16 := ⟨rfl, rfl, rfl⟩
  rcases (fValidResolve_entry_iff ready.isDir dbName_parts.2.1 dbName_parts.2.2).mp ready.file
    with ⟨short, _⟩
  have present := ready.leads.present ready.isDir
  rcases findDbDir_eq env ready.isDir short (.inr present) with ⟨path, foundDir⟩
  rw [withDbDir_of_present present] at foundDir
  rcases ready.found dbName_parts ready.file (by omega) isFile with ⟨dbFound, dbLeads⟩
  rcases ready.found dbHash_parts ready.hash (by omega) isHash with ⟨hashFound, hashLeads⟩
  have loaded : dbLoad env sha tree ⟨render home⟩ ⟨render (hashFileName :: directory)⟩
      ⟨render (dbFileName :: directory)⟩ = .ok (some ⟨users, ∅, ⟨render home⟩, false⟩) :=
    (dbLoad_some_iff dbLeads isFile hashLeads isHash (reads.read.reads _)
    (reads.read.reads _)).mpr ⟨rfl, users, holds, rfl⟩
  simp only [dbInit, foundDir, findDbFiles, fVerPathResolve, hashFound, dbFound, loaded,
    Fallible.ok_bind, Fallible.pure_eq_ok]

theorem created_of_usable (isDir : tree.get home = some .dir)
    (none' : ¬ HasDatabase tree home)
    (plain : ∀ directory, DbDirAt tree home directory → tree.get directory = some .dir)
    (fits : (render home).length + dbHash.length + slashPlusNull ≤ pathMax)
    (usable : tree.get (dbDirName :: home) = none ∨
      Verified tree home dbName ∧ Verified tree home dbHash) (smooth : env.Smooth) :
    ∃ after, dbInit env sha tree ⟨render home⟩ = .ok (some (defaultDb home), after) ∧
      Intact sha after home (defaultDb home).usersHtable ∧
      ∀ later, ReadsSucceed later →
        dbInit later sha after ⟨render home⟩ = .ok (some (defaultDb home), after) := by
  rcases not_or.mp none' with ⟨noFile, noHash⟩
  rcases ready_of_usable isDir plain fits usable with ⟨directory, ready⟩
  rcases (fValidResolve_entry_iff ready.isDir dbName_parts.2.1 dbName_parts.2.2).mp ready.file
    with ⟨short, _⟩
  have vacant := ready.vacant (withDbDir_noEntry isDir noFile) (withDbDir_noEntry isDir noHash)
  have ready' := ready.refilled (vacant.withDefaults_refilled sha)
  have isFile := vacant.withDefaults_file sha
  have isHash := vacant.withDefaults_hash sha
  refine ⟨_, dbInit_creates isDir short ready noFile noHash smooth, ?_, ?_⟩
  · exact ⟨defaultImage, ⟨_, entryAt_file ready'.leads isFile, isFile⟩,
      ⟨_, entryAt_file ready'.leads isHash, isHash⟩, storedUsers_default⟩
  · intro later reads
    exact dbInit_reopens ready' fits isFile isHash storedUsers_default reads

theorem fits_of_reopened {directory : Location} {text : Bytes} {db : Db}
    (ready : DbDirReady tree home directory)
    (isFile : tree.get (dbFileName :: directory) = some (.file text))
    (closed : env.dbWrite.opens = false)
    (started : dbInit env sha tree ⟨render home⟩ = .ok (some db, after)) :
    (render home).length + dbHash.length + slashPlusNull ≤ pathMax := by
  by_contra long
  have noHash : fPathResolve tree (render home) (CString.ofBuffer dbHash) = .ok none := by
    rw [fPathResolve_eq]
    exact congrArg Except.ok (if_neg long)
  have leads : tree.Denotes (render directory ++ slash :: dbFileName.bytes)
      (dbFileName :: directory) :=
    (ready.denotes_iff dbName_parts.2.1 dbName_parts.2.2 ready.file).mpr
      (entryAt_file ready.leads isFile)
  rcases leads with ⟨target, located, _⟩
  have refused : fWriteFile env.dbWrite tree
      ⟨render directory ++ slash :: dbFileName.bytes⟩ (some defaultImage) =
        (.opFailure, tree) := by
    simp only [fWriteFile, FileTree.writeFile_refused _ located closed, fOpenError]
  rcases Fallible.ok_of_bind_ok started with ⟨⟨path, tree'⟩, foundDir, files⟩
  cases findDbDir_present ready.isDir (ready.leads.present ready.isDir) foundDir
  cases path with
  | none => cases files
  | some path =>
      rcases Fallible.ok_of_bind_ok files with ⟨⟨found, tree'⟩, foundFiles, final⟩
      simp only [findDbFiles, fVerPathResolve, noHash, Fallible.ok_bind] at foundFiles
      rcases Fallible.ok_of_bind_ok foundFiles with ⟨dbFile, _, chosen⟩
      cases dbFile with
      | none =>
          simp only [initDbFile, fVerValidResolve, ready.file, refused, Fallible.ok_bind,
            if_true] at chosen
          cases chosen
          cases final
      | some dbFile =>
          cases chosen
          cases final

end

/-- The promise is kept for an existing database that a lookup finds, or that could not be
made anew, and where there is none if the paths are short enough and the server accepts
the directory. -/
theorem opensIntact_iff {sha : Sha256} {tree : FileTree} {home : Location}
    (isDir : tree.get home = some .dir) :
    OpensIntact sha tree home ↔
      (HasDatabase tree home →
        Found tree home dbName ∨ Found tree home dbHash ∨ ¬ Rewrites tree home) ∧
      (¬ HasDatabase tree home →
        (∀ directory, DbDirAt tree home directory → tree.get directory = some .dir) →
        (render home).length + dbHash.length + slashPlusNull ≤ pathMax ∧
          (tree.get (dbDirName :: home) = none ∨
            Verified tree home dbName ∧ Verified tree home dbHash)) := by
  constructor
  · intro promised
    constructor
    · intro exists'
      by_contra lost
      rcases not_or.mp lost with ⟨noFile, lost⟩
      rcases not_or.mp lost with ⟨noHash, overwrites⟩
      rcases not_not.mp overwrites with writable | ⟨device, writable⟩
      · exact not_opened_of_writable isDir exists' noFile noHash writable promised
      · exact not_opened_of_device isDir exists' noFile noHash device writable promised
    · intro none' plain
      have smooth := Env.smooth_default
      rcases promised.created none' plain {} smooth with ⟨after, started, _, reopened⟩
      rcases not_or.mp none' with ⟨noFile, noHash⟩
      rcases dbInit_created isDir noFile noHash smooth started with ⟨directory, ready, _, rfl⟩
      have vacant := ready.vacant (withDbDir_noEntry isDir noFile)
        (withDbDir_noEntry isDir noHash)
      constructor
      · exact fits_of_reopened (ready.refilled (vacant.withDefaults_refilled sha))
          (vacant.withDefaults_file sha) rfl
          (reopened { dbWrite := { opens := false } } ⟨⟨rfl, rfl, rfl⟩, ⟨rfl, rfl, rfl⟩⟩)
      · by_cases absent : tree.get (dbDirName :: home) = none
        · exact .inl absent
        · rw [withDbDir_of_present absent] at ready
          exact .inr ⟨⟨_, ready.file⟩, ⟨_, ready.hash⟩⟩
  · rintro ⟨existing, missing⟩
    constructor
    · intro exists' env reads
      have kept := existing exists'
      rw [leftByStart_kept env sha isDir exists' kept]
      exact ⟨.refl _ _, fun db after started => opened_of_kept isDir exists' kept reads started⟩
    · intro none' plain env smooth
      rcases missing none' plain with ⟨fits, usable⟩
      exact created_of_usable isDir none' plain fits usable smooth

theorem opensIntact_iff_emptyHome : OpensIntact firstSha emptyHome serverHome := by
  have isDir : emptyHome.get serverHome = some .dir := by decide
  have absent : emptyHome.get (dbDirName :: serverHome) = none := by decide
  refine (opensIntact_iff isDir).mpr ⟨fun exists' => ?_, fun _ _ => ⟨by decide, .inl absent⟩⟩
  exact absurd absent (exists'.present isDir)

theorem backupName_valid : NameValid (ascii "backup") := by decide

def backupPlace : Location := [⟨ascii "backup", backupName_valid⟩]

def linkedDatabase : FileTree :=
  (((emptyHome.put backupPlace (.file (ascii "kept elsewhere"))).put
    (dbDirName :: serverHome) .dir).put
      (dbFileName :: dbDirName :: serverHome) (.link (ascii "/backup")))

theorem linked_database_is_overwritten :
    ¬ OpensIntact firstSha linkedDatabase serverHome ∧
      linkedDatabase.get backupPlace = some (.file (ascii "kept elsewhere")) ∧
      (dbInit {} firstSha linkedDatabase ⟨render serverHome⟩).toOption.map
        (fun started => (started.1.isSome, started.2.get backupPlace)) =
          some (true, some (.file defaultImage)) := by
  have leads : DbDirAt linkedDatabase serverHome (dbDirName :: serverHome) := by
    unfold DbDirAt
    decide +kernel
  have unfound : ∀ file, file = dbName ∨ file = dbHash →
      ¬ Found linkedDatabase serverHome file := by
    rintro file either ⟨path, found⟩
    have missed : fVerPathResolve linkedDatabase ⟨render serverHome⟩
        (some (CString.ofBuffer file)) = .ok none := by
      rcases either with rfl | rfl <;> decide +kernel
    rw [missed] at found
    cases found
  have writable : Writable linkedDatabase serverHome dbName := by
    refine ⟨⟨ascii "/srv/.cape/.cape.db"⟩, backupPlace, by decide +kernel,
      ⟨.node backupPlace, by decide +kernel, rfl⟩, by decide +kernel, by decide +kernel⟩
  refine ⟨?_, by decide +kernel, by decide +kernel⟩
  exact not_opened_of_writable (by decide +kernel)
    (.inl ⟨dbDirName :: serverHome, leads, by decide +kernel⟩)
    (unfound dbName (.inl rfl)) (unfound dbHash (.inr rfl)) writable

end FileTransfer
