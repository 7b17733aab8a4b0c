import FileTransfer.Server.Entries
import FileTransfer.Server.FileRequests
import FileTransfer.Server.Records

/-! # The first start

Where `db_init` finds no database it makes one, and loads what it made: one
account, the administrator's.
-/

namespace FileTransfer

open Foundation Posix

variable {env : Env} {sha : Sha256} {tree after : FileTree} {home directory place : Location}
  {name : Name}

/-! ## Making the directory -/

def withDbDir (tree : FileTree) (home : Location) : FileTree :=
  if tree.get (dbDirName :: home) = none then tree.put (dbDirName :: home) .dir else tree

theorem withDbDir_of_present (present : tree.get (dbDirName :: home) ≠ none) :
    withDbDir tree home = tree := if_neg present

theorem withDbDir_of_absent (absent : tree.get (dbDirName :: home) = none) :
    withDbDir tree home = tree.put (dbDirName :: home) .dir := if_pos absent

theorem locate_dbDir_self (isDir : tree.get home = some .dir)
    (short : (render home ++ slash :: dbDirName.bytes).length < pathMax) :
    tree.locate false (render home ++ slash :: dbDirName.bytes) =
      if tree.get (dbDirName :: home) = none then .ok (.slot (dbDirName :: home))
      else .ok (.node (dbDirName :: home)) := by
  rw [FileTree.locate_below _ (FileTree.solid_of_dir isDir) _ short,
    components_of_not_mem dbDirName.noSlash, Component.ofBytes_name,
    FileTree.walk_entry_self _ isDir]

theorem fCreateDir_dbDir (env : Env) (isDir : tree.get home = some .dir)
    (short : (render home ++ slash :: dbDirName.bytes).length < pathMax) :
    fCreateDir env tree ⟨render home ++ slash :: dbDirName.bytes⟩ =
      if tree.get (dbDirName :: home) = none then
        if env.mkdir then (.opSuccess, withDbDir tree home) else (.opFailure, tree)
      else (.opDirExists, tree) := by
  have located := locate_dbDir_self isDir short
  by_cases absent : tree.get (dbDirName :: home) = none
  · rw [if_pos absent] at located ⊢
    rw [withDbDir_of_absent absent]
    by_cases permitted : env.mkdir = true
    · simp only [fCreateDir, FileTree.mkdir_slot _ located, permitted, if_true]
    · simp only [fCreateDir, FileTree.mkdir_slot _ located, permitted, if_false,
        Bool.false_eq_true]
  · rw [if_neg absent] at located ⊢
    simp only [fCreateDir, FileTree.mkdir_node _ located]

theorem findDbDir_ok {path : Option VerifiedPath} (isDir : tree.get home = some .dir)
    (found : findDbDir env tree ⟨render home⟩ = .ok (path, after)) :
    path = none ∧ after = tree ∨ path.isSome ∧ after = withDbDir tree home := by
  rcases Fallible.ok_of_bind_ok found with ⟨existing, looked, found⟩
  cases existing with
  | some existing =>
      cases found
      rcases dbDirAt_of_resolved isDir looked with ⟨directory, leads⟩
      exact .inr ⟨rfl, (withDbDir_of_present (leads.present isDir)).symm⟩
  | none =>
      rcases Fallible.ok_of_bind_ok found with ⟨resolved, verified, found⟩
      cases resolved with
      | none =>
          cases found
          exact .inl ⟨rfl, rfl⟩
      | some dbDirPath =>
          rcases (fValidResolve_dbDir_iff isDir).mp verified with ⟨short, rfl⟩
          simp only [fCreateDir_dbDir env isDir short] at found
          by_cases absent : tree.get (dbDirName :: home) = none
          · by_cases permitted : env.mkdir = true
            · simp only [if_pos absent, permitted, if_true] at found
              cases found
              exact .inr ⟨rfl, rfl⟩
            · simp only [if_pos absent, permitted, if_false, Bool.false_eq_true] at found
              cases found
              exact .inl ⟨rfl, rfl⟩
          · simp only [if_neg absent] at found
            cases found
            exact .inr ⟨rfl, (withDbDir_of_present absent).symm⟩

theorem findDbDir_present {path : Option VerifiedPath} (isDir : tree.get home = some .dir)
    (present : tree.get (dbDirName :: home) ≠ none)
    (found : findDbDir env tree ⟨render home⟩ = .ok (path, after)) : after = tree := by
  rcases findDbDir_ok isDir found with ⟨_, same⟩ | ⟨_, same⟩
  · exact same
  · rw [same, withDbDir_of_present present]

theorem findDbDir_eq (env : Env) (isDir : tree.get home = some .dir)
    (short : (render home ++ slash :: dbDirName.bytes).length < pathMax)
    (able : env.mkdir = true ∨ tree.get (dbDirName :: home) ≠ none) :
    ∃ path, findDbDir env tree ⟨render home⟩ = .ok (some path, withDbDir tree home) := by
  have looked := fPathResolve_eq tree (render home) (CString.ofBuffer dbDir)
  have verified := (fValidResolve_dbDir_iff isDir).mpr ⟨short, rfl⟩
  cases existing : fPathResolve tree (render home) (CString.ofBuffer dbDir) with
  | error fault =>
      rw [existing] at looked
      cases looked
  | ok existing' =>
      cases existing' with
      | some path =>
          rcases dbDirAt_of_resolved isDir existing with ⟨directory, leads⟩
          rw [withDbDir_of_present (leads.present isDir)]
          refine ⟨path, ?_⟩
          simp only [findDbDir, fVerPathResolve, existing, Fallible.ok_bind,
            Fallible.pure_eq_ok]
      | none =>
          refine ⟨⟨render home ++ slash :: dbDirName.bytes⟩, ?_⟩
          simp only [findDbDir, fVerPathResolve, existing, Fallible.ok_bind, initDbDir,
            fVerValidResolve, verified, fCreateDir_dbDir env isDir short]
          by_cases absent : tree.get (dbDirName :: home) = none
          · simp only [if_pos absent, able.resolve_right (not_not.mpr absent), if_true]
            rfl
          · simp only [if_neg absent, withDbDir_of_present absent]
            rfl

theorem withDbDir_isDir (isDir : tree.get home = some .dir) :
    (withDbDir tree home).get home = some .dir := by
  rw [withDbDir]
  split
  · rw [FileTree.get_put_ne _ _ (by simp)]
    exact isDir
  · exact isDir

theorem withDbDir_noEntry (isDir : tree.get home = some .dir)
    (noEntry : ¬ HasEntry tree home name) : ¬ HasEntry (withDbDir tree home) home name := by
  rw [withDbDir]
  split
  · rename_i absent
    have holds : tree.CanHold (dbDirName :: home) := ⟨isDir, by simp [absent]⟩
    have isDir' : (tree.put (dbDirName :: home) .dir).get home = some .dir := by
      rw [FileTree.get_put_ne _ _ (by simp)]
      exact isDir
    rintro ⟨directory, leads, present⟩
    have unlinked : ∀ text,
        (tree.put (dbDirName :: home) .dir).get (dbDirName :: home) ≠ some (.link text) := by
      intro text
      rw [FileTree.get_put_self _ holds]
      simp
    cases leads.plain isDir' unlinked
    have deeper : name :: dbDirName :: home ≠ dbDirName :: home := by
      intro equal
      have sameLength := congrArg List.length equal
      simp at sameLength
    rw [FileTree.get_put_ne _ _ deeper] at present
    rcases Option.ne_none_iff_exists'.mp present with ⟨node, found⟩
    rw [FileTree.parent_of_get found] at absent
    cases absent
  · exact noEntry

/-! ## Making the files -/

/-- The server accepts both files for writing, in a directory that `.cape` leads to. -/
structure DbDirReady (tree : FileTree) (home directory : Location) : Prop where
  isDir : tree.get home = some .dir
  leads : DbDirAt tree home directory
  isDbDir : tree.get directory = some .dir
  file : fValidResolve tree (render home) (CString.ofBuffer dbName) =
    .ok (some ⟨render directory ++ slash :: dbFileName.bytes⟩)
  hash : fValidResolve tree (render home) (CString.ofBuffer dbHash) =
    .ok (some ⟨render directory ++ slash :: hashFileName.bytes⟩)

theorem dbName_parts : (CString.ofBuffer dbName).bytes =
      dbDirName.bytes ++ slash :: dbFileName.bytes ∧
    dirname (CString.ofBuffer dbName).bytes = dbDir ∧
    basename (CString.ofBuffer dbName).bytes = dbFileName.bytes := by
  decide

theorem dbHash_parts : (CString.ofBuffer dbHash).bytes =
      dbDirName.bytes ++ slash :: hashFileName.bytes ∧
    dirname (CString.ofBuffer dbHash).bytes = dbDir ∧
    basename (CString.ofBuffer dbHash).bytes = hashFileName.bytes := by
  decide

theorem fValidResolve_stays (refilled : FileTree.Refilled tree after) {homeDir : Bytes}
    {child other : CString} {path : VerifiedPath}
    (resolved : fValidResolve tree homeDir child = .ok (some path))
    (sameDir : dirname other.bytes = dirname child.bytes) :
    fValidResolve after homeDir other = fValidResolve tree homeDir other := by
  rcases fValidResolve_some_iff.mp resolved with ⟨_, parent, found, _⟩
  rw [← sameDir] at found
  exact fValidResolve_refilled refilled found

theorem DbDirReady.refilled (ready : DbDirReady tree home directory)
    (refilled : FileTree.Refilled tree after) : DbDirReady after home directory where
  isDir := (refilled.dir_iff home).mpr ready.isDir
  leads := ready.leads.refilled ready.isDir refilled
  isDbDir := (refilled.dir_iff directory).mpr ready.isDbDir
  file := (fValidResolve_stays refilled ready.file rfl).trans ready.file
  hash := (fValidResolve_stays refilled ready.hash rfl).trans ready.hash

section Entry

variable {child : CString}

theorem DbDirReady.denotes_iff (ready : DbDirReady tree home directory)
    (spelled : dirname child.bytes = dbDir) (last : basename child.bytes = name.bytes)
    (accepted : fValidResolve tree (render home) child =
      .ok (some ⟨render directory ++ slash :: name.bytes⟩)) :
    tree.Denotes (render directory ++ slash :: name.bytes) place ↔
      EntryAt tree home name place := by
  rcases (fValidResolve_entry_iff ready.isDir spelled last).mp accepted with
    ⟨_, directory', leads, short, _⟩
  cases ready.leads.unique leads
  exact denotes_entry_iff ready.isDir leads short

theorem DbDirReady.found (ready : DbDirReady tree home directory)
    (parts : child.bytes = dbDirName.bytes ++ slash :: name.bytes ∧
      dirname child.bytes = dbDir ∧ basename child.bytes = name.bytes)
    (accepted : fValidResolve tree (render home) child =
      .ok (some ⟨render directory ++ slash :: name.bytes⟩))
    (fits : (render home).length + child.length + slashPlusNull ≤ pathMax) {content : Bytes}
    (isFile : tree.get (name :: directory) = some (.file content)) :
    fPathResolve tree (render home) child = .ok (some ⟨render (name :: directory)⟩) ∧
      tree.Denotes (render (name :: directory)) (name :: directory) := by
  rcases (fValidResolve_entry_iff ready.isDir parts.2.1 parts.2.2).mp accepted with
    ⟨_, directory', leads, short, within, _⟩
  cases ready.leads.unique leads
  have reached : tree.walk true FileTree.maxLinks home [.name dbDirName, .name name] =
      .ok (.node (name :: directory)) := by
    rcases FileTree.walk_append leads with ⟨left, _, onwards⟩
    rw [show [Component.name dbDirName, .name name] = [.name dbDirName] ++ [.name name]
      from rfl, onwards]
    cases left <;> simp [FileTree.walk, FileTree.walkFrom, ready.isDbDir, isFile]
  have canonical : (render (name :: directory)).length < pathMax ∧
      render home <+: render (name :: directory) := by
    cases directory with
    | cons last above =>
        rw [render_cons (List.cons_ne_nil _ _)]
        exact ⟨short, within⟩
    | nil =>
        cases home with
        | nil =>
            have spelled : render [name] = slash :: name.bytes := by simp [render, spell]
            refine ⟨?_, AtOrBelow.render_prefix List.nil_suffix⟩
            rw [spelled]
            rw [List.length_append] at short
            omega
        | cons last above => exact absurd within (not_render_prefix_root _ _ _)
  have solid : tree.Solid (name :: directory) := ⟨_, isFile, by simp⟩
  exact ⟨(fPathResolve_entry_iff ready.isDir parts.1).mpr
      ⟨fits, _, reached, canonical.1, canonical.2, rfl⟩,
    _, FileTree.locate_render true solid canonical.1, rfl⟩

end Entry

theorem render_cons_length_le (location : Location) (name : Name) :
    (render (name :: location)).length ≤ (render location).length + 1 + name.bytes.length := by
  by_cases isRoot : location = []
  · subst isRoot
    simp [render, spell]
  · rw [render_cons isRoot, List.length_append, List.length_cons]
    omega

theorem dbDirReady_plain (isDir : tree.get home = some .dir)
    (isDbDir : tree.get (dbDirName :: home) = some .dir)
    (fits : (render home).length + dbHash.length + slashPlusNull ≤ pathMax) :
    DbDirReady tree home (dbDirName :: home) := by
  have sizes : dbHash.length = 16 ∧ slashPlusNull = 2 ∧ dbDirName.bytes.length = 5 ∧
      dbFileName.bytes.length = 8 ∧ hashFileName.bytes.length = 10 :=
    ⟨rfl, rfl, rfl, rfl, rfl⟩
  have bound := render_cons_length_le home dbDirName
  have leads : DbDirAt tree home (dbDirName :: home) := by
    rw [DbDirAt, FileTree.walk_entry _ isDir, isDbDir]
  have within : ∀ name : Name,
      render home <+: render (dbDirName :: home) ++ slash :: name.bytes := by
    intro name
    rw [← render_cons (List.cons_ne_nil _ _)]
    exact AtOrBelow.render_prefix ⟨[name, dbDirName], rfl⟩
  have accepted : ∀ {child : CString} {name : Name}, name.bytes.length ≤ 10 →
      dirname child.bytes = dbDir → basename child.bytes = name.bytes →
      fValidResolve tree (render home) child =
        .ok (some ⟨render (dbDirName :: home) ++ slash :: name.bytes⟩) := by
    intro child name sized spelled last
    refine (fValidResolve_entry_iff isDir spelled last).mpr
      ⟨?_, dbDirName :: home, leads, ?_, within name, rfl⟩
    · rw [List.length_append, List.length_cons]
      omega
    · rw [List.length_append, List.length_cons]
      omega
  exact ⟨isDir, leads, isDbDir,
    accepted (by omega) dbName_parts.2.1 dbName_parts.2.2,
    accepted (by omega) dbHash_parts.2.1 dbHash_parts.2.2⟩

theorem fWriteFile_stored {path : VerifiedPath} {stream : Bytes}
    (leads : tree.Denotes path.path place) (absent : tree.get place = none) :
    fWriteFile .smooth tree path (some stream) =
      (.opSuccess, tree.put place (.file stream)) := by
  rcases fWriteFile_cases .smooth tree path stream with
    ⟨target, located, _, _, result⟩ | ⟨unready, _⟩
  · cases FileTree.denotes_unique leads ⟨target, located, rfl⟩
    rw [result]
    simp [absent]
  · rcases leads with ⟨target, located, rfl⟩
    exact absurd ⟨target, located, rfl, by simp [absent]⟩ unready

theorem readBack_file {dbFile : VerifiedPath} {text : Bytes} {location : Location}
    (env : Env) (leads : tree.Denotes dbFile.path location)
    (isFile : tree.get location = some (.file text)) :
    readBack env tree dbFile =
      if env.dbRead.opens = false then .ok none
      else if env.dbRead.allocates = false then .ok none
      else if env.dbRead.delivered text = text then .ok (some text)
      else .error .doubleClose := by
  rcases leads with ⟨target, located, rfl⟩
  rw [readBack, FileTree.openRead_eq env.dbRead located isFile]
  cases opens : env.dbRead.opens with
  | false => rfl
  | true =>
      cases allocates : env.dbRead.allocates with
      | false => simp [ReadOutcome.handle, allocates]
      | true =>
          simp only [if_true, ReadOutcome.handle, Bool.true_eq_false, if_false, allocates,
            readWhole, env.dbRead.delivered_length_eq_iff]
          split
          · rename_i whole
            rw [whole]
            rfl
          · rfl

theorem readBack_reads {dbFile : VerifiedPath} {text : Bytes} {location : Location}
    (reads : env.dbRead.Reads text) (leads : tree.Denotes dbFile.path location)
    (isFile : tree.get location = some (.file text)) :
    readBack env tree dbFile = .ok (some text) := by
  rw [readBack_file env leads isFile, if_neg (by simp [reads.opens]),
    if_neg (by simp [reads.allocates]), if_pos reads.delivers]

theorem updateDbHash_stored {homeDir dbFile hashFile : VerifiedPath} {text : Bytes}
    {filePlace : Location} (smooth : env.Smooth)
    (leads : tree.Denotes dbFile.path filePlace)
    (isFile : tree.get filePlace = some (.file text))
    (accepted : fVerValidResolve tree homeDir (some (CString.ofBuffer dbHash)) =
      .ok (some hashFile))
    (leads' : tree.Denotes hashFile.path place) (absent : tree.get place = none) :
    updateDbHash env sha tree homeDir dbFile =
      .ok (some hashFile, tree.put place (.file (magicBytes ++ sha.digest text))) := by
  rcases leads' with ⟨target', located', rfl⟩
  have read := readBack_reads (smooth.dbRead.reads text) leads isFile
  have wrote : tree.writeFile env.hashWrite hashFile.path (magicBytes ++ sha.digest text) =
      .ok ((magicBytes ++ sha.digest text).length,
        tree.put target'.location (.file (magicBytes ++ sha.digest text))) := by
    rw [smooth.hashWrite, FileTree.writeFile_eq located' rfl (by simp [absent])]
    simp [absent]
  simp only [updateDbHash, writeHash, read, accepted, wrote, Fallible.ok_bind,
    Fallible.pure_eq_ok]

def withDefaults (sha : Sha256) (tree : FileTree) (directory : Location) : FileTree :=
  (tree.put (dbFileName :: directory) (.file defaultImage)).put (hashFileName :: directory)
    (.file (magicBytes ++ sha.digest defaultImage))

structure Vacant (tree : FileTree) (directory : Location) : Prop where
  isDbDir : tree.get directory = some .dir
  noFile : tree.get (dbFileName :: directory) = none
  noHash : tree.get (hashFileName :: directory) = none

namespace Vacant

theorem different : hashFileName :: directory ≠ dbFileName :: directory := by
  intro same
  exact absurd (List.cons.inj same).1 (by decide)

theorem put_file_get (vacant : Vacant tree directory) (content : Bytes) :
    (tree.put (dbFileName :: directory) (.file content)).get (dbFileName :: directory) =
      some (.file content) :=
  FileTree.get_put_self _ ⟨vacant.isDbDir, by simp [vacant.noFile]⟩

theorem put_file_refilled (vacant : Vacant tree directory) (content : Bytes) :
    FileTree.Refilled tree (tree.put (dbFileName :: directory) (.file content)) :=
  FileTree.refilled_put content vacant.noFile ⟨vacant.isDbDir, by simp [vacant.noFile]⟩

theorem put_file_noHash (vacant : Vacant tree directory) (content : Bytes) :
    (tree.put (dbFileName :: directory) (.file content)).get (hashFileName :: directory) =
      none := by
  rw [FileTree.get_put_ne _ _ different]
  exact vacant.noHash

theorem canHold_hash (vacant : Vacant tree directory) (content : Bytes) :
    (tree.put (dbFileName :: directory) (.file content)).CanHold
      (hashFileName :: directory) :=
  ⟨((vacant.put_file_refilled content).dir_iff _).mpr vacant.isDbDir,
    by simp [vacant.put_file_noHash]⟩

theorem withDefaults_refilled (vacant : Vacant tree directory) (sha : Sha256) :
    FileTree.Refilled tree (withDefaults sha tree directory) :=
  (vacant.put_file_refilled _).trans
    (FileTree.refilled_put _ (vacant.put_file_noHash _) (vacant.canHold_hash _))

theorem withDefaults_file (vacant : Vacant tree directory) (sha : Sha256) :
    (withDefaults sha tree directory).get (dbFileName :: directory) =
      some (.file defaultImage) := by
  rw [withDefaults, FileTree.get_put_ne _ _ (Ne.symm different)]
  exact vacant.put_file_get _

theorem withDefaults_hash (vacant : Vacant tree directory) (sha : Sha256) :
    (withDefaults sha tree directory).get (hashFileName :: directory) =
      some (.file (magicBytes ++ sha.digest defaultImage)) :=
  FileTree.get_put_self _ (vacant.canHold_hash _)

end Vacant

theorem DbDirReady.vacant (ready : DbDirReady tree home directory)
    (noFile : ¬ HasEntry tree home dbFileName) (noHash : ¬ HasEntry tree home hashFileName) :
    Vacant tree directory where
  isDbDir := ready.isDbDir
  noFile := by
    by_contra present
    exact noFile ⟨directory, ready.leads, present⟩
  noHash := by
    by_contra present
    exact noHash ⟨directory, ready.leads, present⟩

theorem DbDirReady.findDbFiles_eq (sha : Sha256) (ready : DbDirReady tree home directory)
    (noFile : ¬ HasEntry tree home dbFileName) (noHash : ¬ HasEntry tree home hashFileName)
    (smooth : env.Smooth) :
    findDbFiles env sha tree ⟨render home⟩ =
      .ok (some (⟨render directory ++ slash :: hashFileName.bytes⟩,
        ⟨render directory ++ slash :: dbFileName.bytes⟩),
        withDefaults sha tree directory) := by
  have vacant := ready.vacant noFile noHash
  have fileMissing := fPathResolve_noEntry ready.isDir dbName_parts.1 noFile
  have hashMissing := fPathResolve_noEntry ready.isDir dbHash_parts.1 noHash
  have refilled := vacant.put_file_refilled defaultImage
  have ready' := ready.refilled refilled
  have fileLeads : tree.Denotes (render directory ++ slash :: dbFileName.bytes)
      (dbFileName :: directory) :=
    (ready.denotes_iff dbName_parts.2.1 dbName_parts.2.2 ready.file).mpr
      (entryAt_missing ready.leads ready.isDbDir vacant.noFile)
  have hashLeads : (tree.put (dbFileName :: directory) (.file defaultImage)).Denotes
      (render directory ++ slash :: hashFileName.bytes) (hashFileName :: directory) :=
    (ready'.denotes_iff dbHash_parts.2.1 dbHash_parts.2.2 ready'.hash).mpr
      (entryAt_missing ready'.leads ready'.isDbDir (vacant.put_file_noHash _))
  have wrote : fWriteFile .smooth tree ⟨render directory ++ slash :: dbFileName.bytes⟩
      (some defaultImage) =
        (.opSuccess, tree.put (dbFileName :: directory) (.file defaultImage)) :=
    fWriteFile_stored fileLeads vacant.noFile
  have hashed : updateDbHash env sha (tree.put (dbFileName :: directory) (.file defaultImage))
      ⟨render home⟩ ⟨render directory ++ slash :: dbFileName.bytes⟩ =
        .ok (some ⟨render directory ++ slash :: hashFileName.bytes⟩,
          withDefaults sha tree directory) :=
    updateDbHash_stored smooth (refilled.denotes_iff.mpr fileLeads) (vacant.put_file_get _)
      ready'.hash hashLeads (vacant.put_file_noHash _)
  simp only [findDbFiles, fVerPathResolve, hashMissing, fileMissing, initDbFile,
    fVerValidResolve, ready.file, smooth.dbWrite, wrote, hashed, Fallible.ok_bind,
    Fallible.pure_eq_ok, reduceCtorEq, if_false]

theorem initDbFile_ok {homeDir path : VerifiedPath}
    (done : initDbFile env tree homeDir = .ok (some path, after)) :
    fValidResolve tree homeDir.path (CString.ofBuffer dbName) = .ok (some path) ∧
      after = (fWriteFile env.dbWrite tree path (some defaultImage)).2 := by
  rcases Fallible.ok_of_bind_ok done with ⟨resolved, verified, done⟩
  cases resolved with
  | none => cases done
  | some resolved =>
      simp only at done
      split at done <;> cases done
      exact ⟨verified, rfl⟩

theorem readBack_ok {dbFile : VerifiedPath} {byteArray : Bytes}
    (read : readBack env tree dbFile = .ok (some byteArray)) :
    ∃ location, tree.Denotes dbFile.path location := by
  rw [readBack] at read
  split at read
  · cases read
  · rename_i handle opened
    rcases FileTree.openRead_ok opened with ⟨target, _, located, _⟩
    exact ⟨target.location, target, located, rfl⟩

theorem updateDbHash_ok {homeDir dbFile hashFile : VerifiedPath}
    (done : updateDbHash env sha tree homeDir dbFile = .ok (some hashFile, after)) :
    fValidResolve tree homeDir.path (CString.ofBuffer dbHash) = .ok (some hashFile) ∧
      ∃ location, tree.Denotes dbFile.path location := by
  rcases updateDbHash_cases done with ⟨impossible, _⟩ | ⟨byteArray, path, read, wrote, same⟩
  · cases impossible
  · cases same
    exact ⟨(writeHash_ok wrote).1, readBack_ok read⟩

theorem findDbFiles_ready {files : VerifiedPath × VerifiedPath}
    (isDir : tree.get home = some .dir)
    (noFile : ¬ HasEntry tree home dbFileName) (noHash : ¬ HasEntry tree home hashFileName)
    (found : findDbFiles env sha tree ⟨render home⟩ = .ok (some files, after)) :
    ∃ directory, DbDirReady tree home directory := by
  rw [findDbFiles, fVerPathResolve, fVerPathResolve,
    fPathResolve_noEntry isDir dbHash_parts.1 noHash,
    fPathResolve_noEntry isDir dbName_parts.1 noFile] at found
  simp only [Fallible.ok_bind] at found
  rcases Fallible.ok_of_bind_ok found with ⟨⟨written, filled⟩, initialised, found⟩
  cases written with
  | none => cases found
  | some dbFile =>
      rcases Fallible.ok_of_bind_ok found with ⟨⟨hashed, final⟩, updated, found⟩
      cases hashed with
      | none => cases found
      | some hashFile =>
          rcases initDbFile_ok initialised with ⟨dbValid, rfl⟩
          rcases updateDbHash_ok updated with ⟨hashValid, read⟩
          have refilled := (fWriteFile_refilled env.dbWrite tree dbFile (some defaultImage)).1
          rw [fValidResolve_stays refilled dbValid (by decide)] at hashValid
          rcases (fValidResolve_entry_iff isDir dbName_parts.2.1 dbName_parts.2.2).mp dbValid
            with ⟨_, directory, leads, short, _, rfl⟩
          rcases (fValidResolve_entry_iff isDir dbHash_parts.2.1 dbHash_parts.2.2).mp hashValid
            with ⟨_, directory', leads', _, _, rfl⟩
          cases leads.unique leads'
          rcases read with ⟨location, opened⟩
          have entry := (denotes_entry_iff isDir leads short).mp
            (refilled.denotes_iff.mp opened)
          exact ⟨directory, isDir, leads, entry.above leads, dbValid, hashValid⟩

/-! ## Loading the database -/

def defaultDigest : Bytes :=
  ((hexCharToByteArray (CString.ofBuffer defaultHash) sha256DigestLen).toOption.join).getD []

def defaultAccount : UserAccount :=
  ⟨CString.ofBuffer defaultUser, Perms.admin, defaultDigest⟩

theorem defaultAccount_recordable : Recordable defaultAccount where
  named := by decide
  short := by decide
  noColon := by decide
  noNewline := by decide
  oneDigit := by decide
  digest := by decide +kernel

theorem singleton_recordable {account : UserAccount} (recordable : Recordable account) :
    ∀ other ∈ [account], Recordable other := by
  simpa using recordable

theorem defaultImage_eq : defaultImage = magicBytes ++ records [defaultAccount] := by
  decide +kernel

structure StoredUsers (text : Bytes) (users : HashTable CString UserAccount) : Prop where
  magic : magicBytes <+: text
  parsed : ∀ content : FileContent, content.stream = text.drop magicBytes.length →
    populateHtable ∅ content = .ok (some users)

/-- From two files that can be read a database is loaded if the one holds the digest of
the other, and that one holds accounts. -/
theorem dbLoad_some_iff {homeDir hashFile dbFile : VerifiedPath} {text stored : Bytes}
    {filePlace hashPlace : Location} {db : Db} (fileLeads : tree.Denotes dbFile.path filePlace)
    (isFile : tree.get filePlace = some (.file text))
    (hashLeads : tree.Denotes hashFile.path hashPlace)
    (isHash : tree.get hashPlace = some (.file stored)) (reads : env.read.Reads text)
    (readsHash : env.read.Reads stored) :
    dbLoad env sha tree homeDir hashFile dbFile = .ok (some db) ↔
      stored = magicBytes ++ sha.digest text ∧ ∃ users, StoredUsers text users ∧
        db = ⟨users, ∅, homeDir, false⟩ := by
  have dbRead := fReadFile_leads sha fileLeads isFile reads
  have hashRead := fReadFile_leads sha hashLeads isHash readsHash
  constructor
  · intro loaded
    rcases dbLoad_ok loaded with ⟨_, _, dbContents, hashContents, hash, data, users, dbRead',
      hashRead', accepted, compared, read, populated, rfl⟩
    cases dbRead.symm.trans dbRead'
    cases hashRead.symm.trans hashRead'
    rcases getStoredHash_some_iff.mp accepted with ⟨digest, spelled, _, rfl⟩
    rw [hashBytesMatch_eq, Except.ok.injEq, decide_eq_true_eq] at compared
    rcases getStoredData_some_iff.mp read with ⟨magic, rfl⟩
    refine ⟨spelled.trans (congrArg _ compared.symm), users, ⟨magic, ?_⟩, rfl⟩
    intro content stream
    rw [← populated]
    exact populateHtable_congr stream ∅
  · rintro ⟨rfl, users, holds, rfl⟩
    have accepted : getStoredHash ⟨sha.digest (magicBytes ++ sha.digest text),
        magicBytes ++ sha.digest text, hashFile.path⟩ = some _ :=
      getStoredHash_some_iff.mpr ⟨sha.digest text, rfl, sha.size text, rfl⟩
    have read : getStoredData ⟨sha.digest text, text, dbFile.path⟩ = some _ :=
      getStoredData_some_iff.mpr ⟨holds.magic, rfl⟩
    have populated := holds.parsed
      ⟨sha.digest text, text.drop magicBytes.length, dbFile.path⟩ rfl
    simp only [dbLoad, dbRead, hashRead, accepted, hashBytesMatch_eq, decide_true, read, populated,
      if_true, Fallible.ok_bind, Fallible.pure_eq_ok]

theorem storedUsers_default :
    StoredUsers defaultImage (HashTable.set ∅ defaultAccount.username defaultAccount) := by
  rw [defaultImage_eq]
  refine ⟨List.prefix_append _ _, fun content stream => ?_⟩
  rw [List.drop_left] at stream
  exact populateHtable_records (singleton_recordable defaultAccount_recordable) stream

/-! ## Starting without a database -/

def defaultDb (home : Location) : Db :=
  ⟨HashTable.set ∅ defaultAccount.username defaultAccount, ∅, ⟨render home⟩, false⟩

theorem DbDirReady.dbLoad_eq (sha : Sha256) (ready : DbDirReady tree home directory)
    (vacant : Vacant tree directory) (smooth : env.Smooth) :
    dbLoad env sha (withDefaults sha tree directory) ⟨render home⟩
        ⟨render directory ++ slash :: hashFileName.bytes⟩
        ⟨render directory ++ slash :: dbFileName.bytes⟩ = .ok (some (defaultDb home)) := by
  have refilled := vacant.withDefaults_refilled sha
  have fileLeads := (ready.denotes_iff dbName_parts.2.1 dbName_parts.2.2 ready.file).mpr
    (entryAt_missing ready.leads ready.isDbDir vacant.noFile)
  have hashLeads := (ready.denotes_iff dbHash_parts.2.1 dbHash_parts.2.2 ready.hash).mpr
    (entryAt_missing ready.leads ready.isDbDir vacant.noHash)
  apply (dbLoad_some_iff (refilled.denotes_iff.mpr fileLeads) (vacant.withDefaults_file sha)
    (refilled.denotes_iff.mpr hashLeads) (vacant.withDefaults_hash sha)
    (smooth.read.reads _) (smooth.read.reads _)).mpr
  exact ⟨rfl, _, storedUsers_default, rfl⟩

/-- A start that finds neither file and meets no trouble makes both, where the server
accepts them, and loads the default account. -/
theorem dbInit_creates (isDir : tree.get home = some .dir)
    (short : (render home ++ slash :: dbDirName.bytes).length < pathMax)
    (ready : DbDirReady (withDbDir tree home) home directory)
    (noFile : ¬ HasEntry tree home dbFileName) (noHash : ¬ HasEntry tree home hashFileName)
    (smooth : env.Smooth) :
    dbInit env sha tree ⟨render home⟩ =
      .ok (some (defaultDb home), withDefaults sha (withDbDir tree home) directory) := by
  have noFile' := withDbDir_noEntry isDir noFile
  have noHash' := withDbDir_noEntry isDir noHash
  rcases findDbDir_eq env isDir short (.inl smooth.mkdir) with ⟨path, foundDir⟩
  have foundFiles := ready.findDbFiles_eq sha noFile' noHash' smooth
  have loaded := ready.dbLoad_eq sha (ready.vacant noFile' noHash') smooth
  simp only [dbInit, foundDir, foundFiles, loaded, Fallible.ok_bind, Fallible.pure_eq_ok]

theorem dbInit_created {db : Db} (isDir : tree.get home = some .dir)
    (noFile : ¬ HasEntry tree home dbFileName) (noHash : ¬ HasEntry tree home hashFileName)
    (smooth : env.Smooth)
    (started : dbInit env sha tree ⟨render home⟩ = .ok (some db, after)) :
    ∃ directory, DbDirReady (withDbDir tree home) home directory ∧ db = defaultDb home ∧
      after = withDefaults sha (withDbDir tree home) directory := by
  have noFile' := withDbDir_noEntry isDir noFile
  have noHash' := withDbDir_noEntry isDir noHash
  rcases Fallible.ok_of_bind_ok started with ⟨⟨_ | path, tree'⟩, foundDir, started⟩
  · cases started
  · rcases findDbDir_ok isDir foundDir with ⟨impossible, _⟩ | ⟨_, rfl⟩
    · cases impossible
    · rcases Fallible.ok_of_bind_ok started with ⟨⟨_ | files, tree''⟩, foundFiles, started⟩
      · cases started
      · rcases findDbFiles_ready (withDbDir_isDir isDir) noFile' noHash' foundFiles with
          ⟨directory, ready⟩
        have loaded := ready.dbLoad_eq sha (ready.vacant noFile' noHash') smooth
        rw [ready.findDbFiles_eq sha noFile' noHash' smooth] at foundFiles
        cases foundFiles
        simp only [loaded, Fallible.ok_bind, Fallible.pure_eq_ok] at started
        cases started
        exact ⟨directory, ready, rfl, rfl⟩

structure NoDatabase (tree : FileTree) (home : Location) : Prop where
  isDir : tree.get home = some .dir
  unlinked : ∀ text, tree.get (dbDirName :: home) ≠ some (.link text)
  noFile : tree.get (dbFileName :: dbDirName :: home) = none
  noHash : tree.get (hashFileName :: dbDirName :: home) = none

theorem NoDatabase.noEntry (none' : NoDatabase tree home)
    (missing : tree.get (name :: dbDirName :: home) = none) : ¬ HasEntry tree home name := by
  rintro ⟨directory, leads, present⟩
  cases leads.plain none'.isDir none'.unlinked
  exact present missing

/-- A server just started for the first time: no database was there, and every file
operation succeeded. -/
def FirstStart (sha : Sha256) (server : Server) : Prop :=
  ∃ env tree home, NoDatabase tree home ∧ env.Smooth ∧
    dbInit env sha tree ⟨render home⟩ = .ok (some server.db, server.tree)

theorem FirstStart.users {sha : Sha256} {server : Server} (first : FirstStart sha server) :
    server.db.usersHtable = HashTable.set ∅ defaultAccount.username defaultAccount := by
  rcases first with ⟨env, tree, home, none', smooth, started⟩
  rcases dbInit_created none'.isDir (none'.noEntry none'.noFile) (none'.noEntry none'.noHash)
    smooth started with ⟨directory, _, loaded, _⟩
  rw [loaded]
  rfl

theorem FirstStart.opened {sha : Sha256} {server : Server} (first : FirstStart sha server) :
    server.db.debug = false := by
  rcases first with ⟨env, tree, home, _, _, started⟩
  exact (dbInit_opened started).2.2

end FileTransfer
