import FileTransfer.Server.Dispatch

/-! # What file requests read and write

Every file request acts on one place, the place that its verified path leads to.
These lemmas name the place for each operation, and then for whole requests.
-/

namespace FileTransfer

open Foundation Posix

/-! ## Verified paths -/

theorem fPathResolve_place {tree : FileTree} {homeDir : Bytes} {child : CString}
    {path : VerifiedPath} (resolved : fPathResolve tree homeDir child = .ok (some path)) :
    ∃ location, path = ⟨render location⟩ ∧ (render location).length < pathMax ∧
      tree.Solid location ∧ homeDir <+: render location := by
  rcases path with ⟨bytes⟩
  rcases fPathResolve_some_iff.mp resolved with ⟨_, found, within⟩
  rcases FileTree.realpath_eq_some found with ⟨location, _, rfl, short, solid⟩
  exact ⟨location, rfl, short, solid, within⟩

/-! ## One operation -/

section Operations

variable {env : Env} {sha : Sha256} {tree : FileTree} {location : Location}

theorem readOpened_file {path : VerifiedPath} {content : Bytes} (outcome : ReadOutcome)
    (leads : tree.Denotes path.path location)
    (found : tree.get location = some (.file content)) :
    readOpened outcome tree path =
      if outcome.opens = false then .ok (.error .opIoError)
      else if outcome.allocates = false then .ok (.error .opFailure)
      else if outcome.delivered content = content then .ok (.ok content)
      else .error .doubleClose := by
  rcases leads with ⟨target, located, rfl⟩
  rw [readOpened, FileTree.openRead_eq outcome located found]
  cases opens : outcome.opens with
  | false => rfl
  | true =>
      cases allocates : outcome.allocates with
      | false => simp [ReadOutcome.handle, allocates]
      | true =>
          simp only [if_true, ReadOutcome.handle, Bool.true_eq_false, if_false, allocates,
            readWhole, outcome.delivered_length_eq_iff]
          split
          · rename_i whole
            rw [whole]
            rfl
          · rfl

theorem readOpened_reads {path : VerifiedPath} {content : Bytes} {outcome : ReadOutcome}
    (reads : outcome.Reads content) (leads : tree.Denotes path.path location)
    (found : tree.get location = some (.file content)) :
    readOpened outcome tree path = .ok (.ok content) := by
  rw [readOpened_file outcome leads found, if_neg (by simp [reads.opens]),
    if_neg (by simp [reads.allocates]), if_pos reads.delivers]

theorem readOpened_ok {path : VerifiedPath} {outcome : ReadOutcome} {bytes : Bytes}
    (read : readOpened outcome tree path = .ok (.ok bytes)) :
    ∃ location node, tree.Denotes path.path location ∧ tree.get location = some node ∧
      ((node = .file bytes ∧ outcome.Reads bytes) ∨ (∀ content, node ≠ .file content) ∧
        bytes = []) := by
  have isRead := read
  rw [readOpened] at read
  split at read
  · cases read
  rename_i handle opened
  rcases FileTree.openRead_ok opened with ⟨target, node, located, _, found, rfl⟩
  refine ⟨target.location, node, ⟨target, located, rfl⟩, found, ?_⟩
  split at read
  · cases read
  split at read
  · cases read
  rename_i fileSize told
  split at read
  · cases read
  · cases read
  rcases Fallible.ok_of_bind_ok read with ⟨whole, delivered, read⟩
  cases read
  cases node with
  | file content =>
      left
      rw [readOpened_file outcome ⟨target, located, rfl⟩ found] at isRead
      split at isRead
      · cases isRead
      rename_i opens
      split at isRead
      · cases isRead
      rename_i allocates
      split at isRead <;> cases isRead
      rename_i whole
      rw [Bool.not_eq_false] at opens allocates
      exact ⟨rfl, opens, allocates, whole⟩
  | _ =>
      right
      refine ⟨by simp, ?_⟩
      rw [readWhole] at delivered
      split at delivered <;> cases delivered
      rfl

def readFault (special : SpecialFile) : Fault :=
  if special.allocation = .aborts then .allocationAbort else .doubleClose

/-- A directory that has taken the place of a file reads as empty, if it reads at all; one that
overstates its size is closed twice, or there is no buffer of that size. -/
theorem readOpened_dir {path : VerifiedPath} {outcome : ReadOutcome}
    (opens : outcome.opens = true) (leads : tree.Denotes path.path location)
    (isDir : tree.get location = some .dir) :
    ((outcome.special location).Overstates ∧
      readOpened outcome tree path = .error (readFault (outcome.special location))) ∨
      (¬ (outcome.special location).Overstates ∧
        ∃ result, readOpened outcome tree path = .ok result ∧ ∀ bytes, result = .ok bytes →
          bytes = []) := by
  rcases leads with ⟨target, located, rfl⟩
  simp only [readOpened, FileTree.openRead_eq outcome located isDir, if_pos opens,
    ReadOutcome.handle, SpecialFile.Overstates, readFault, readWhole, List.length_nil]
  rcases outcome.special target.location with ⟨seeks, tells, allocation⟩
  cases seeks with
  | false => exact .inr ⟨by simp, _, rfl, by simp⟩
  | true =>
      cases tells with
      | none => exact .inr ⟨by simp, _, rfl, by simp⟩
      | some size =>
          cases allocation with
          | refused => exact .inr ⟨by simp, _, rfl, by simp⟩
          | aborts => exact .inl ⟨by simp, rfl⟩
          | granted =>
              cases size with
              | zero => exact .inr ⟨by simp, _, rfl, by simp⟩
              | succ size => exact .inl ⟨by simp, rfl⟩

theorem readOpened_error {outcome : ReadOutcome} {tree : FileTree} {path : VerifiedPath}
    {fault : Fault} (failed : readOpened outcome tree path = .error fault) :
    fault = .allocationAbort ∨ fault = .doubleClose := by
  simp only [readOpened, readWhole] at failed
  split at failed
  · cases failed
  · split at failed
    · cases failed
    · split at failed
      · cases failed
      · split at failed
        · cases failed
        · cases failed
          exact .inl rfl
        · split at failed <;> cases failed
          exact .inr rfl

theorem fReadFile_error {env : Env} {sha : Sha256} {tree : FileTree} {path : VerifiedPath}
    {fault : Fault} (failed : fReadFile env sha tree path = .error fault) :
    fault = .allocationAbort ∨ fault = .doubleClose := by
  simp only [fReadFile] at failed
  split at failed
  · cases failed
  · split at failed
    · cases failed
    · rcases Fallible.bind_eq_error_iff.mp failed with opened | ⟨_ | stream, _, rest⟩
      · exact readOpened_error opened
      · cases rest
      · cases rest

theorem fReadFile_ok {path : VerifiedPath} {code : RetCode} {content : FileContent}
    (read : fReadFile env sha tree path = .ok (code, some content)) :
    ∃ location, tree.Denotes path.path location ∧
      tree.get location = some (.file content.stream) ∧ env.read.Reads content.stream ∧
      content = ⟨sha.digest content.stream, content.stream, path.path⟩ := by
  rw [fReadFile] at read
  split at read
  · cases read
  rename_i stat known
  split at read
  · cases read
  rename_i regular
  rcases Fallible.ok_of_bind_ok read with ⟨outcome, opened, read⟩
  cases outcome with
  | error code => cases read
  | ok stream =>
      cases read
      rcases readOpened_ok opened with ⟨location, node, leads, found, ⟨rfl, reads⟩ | ⟨other, _⟩⟩
      · exact ⟨location, leads, found, reads, rfl⟩
      · rcases FileTree.stat_regular known (not_not.mp regular) with
          ⟨target, content, located, isFile⟩
        rw [FileTree.denotes_unique leads ⟨target, located, rfl⟩, isFile] at found
        exact absurd (Option.some.inj found).symm (other content)

variable (sha) in
theorem fReadFile_leads {path : VerifiedPath} {content : Bytes}
    (leads : tree.Denotes path.path location)
    (found : tree.get location = some (.file content)) (reads : env.read.Reads content) :
    fReadFile env sha tree path =
      .ok (.opSuccess, some ⟨sha.digest content, content, path.path⟩) := by
  have opened := readOpened_reads reads leads found
  rcases leads with ⟨target, located, rfl⟩
  have known := FileTree.stat_file env.dirSize located found
  simp only [fReadFile, known, opened, ne_eq, not_true, if_false, Fallible.ok_bind,
    Fallible.pure_eq_ok]

theorem fReadFile_content {code : RetCode} {content : FileContent}
    (solid : tree.Solid location) (short : (render location).length < pathMax)
    (read : fReadFile env sha tree ⟨render location⟩ = .ok (code, some content)) :
    tree.get location = some (.file content.stream) ∧ content.path = render location := by
  have here : tree.Denotes (render location) location :=
    ⟨_, FileTree.locate_render true solid short, rfl⟩
  rcases fReadFile_ok read with ⟨place, leads, isFile, _, content'⟩
  rw [FileTree.denotes_unique leads here] at isFile
  rw [content']
  exact ⟨isFile, rfl⟩

theorem fReadFile_file {content : Bytes} (short : (render location).length < pathMax)
    (found : tree.get location = some (.file content)) (reads : env.read.Reads content) :
    fReadFile env sha tree ⟨render location⟩ =
      .ok (.opSuccess, some ⟨sha.digest content, content, render location⟩) := by
  have solid : tree.Solid location := ⟨_, found, fun text isLink => nomatch isLink⟩
  exact fReadFile_leads sha ⟨_, FileTree.locate_render true solid short, rfl⟩ found reads

theorem fListDir_ok {path : VerifiedPath} {code : RetCode} {content : FileContent}
    (read : fListDir env sha tree path = .ok (code, some content)) :
    ∃ location, tree.Denotes path.path location ∧ tree.get location = some .dir ∧
      env.opendir = true ∧
      listEntries env tree path (env.entries.arrange (tree.dirents location)) [] 1024 =
        .ok content.stream ∧
      content = ⟨sha.digest content.stream, content.stream, path.path⟩ := by
  rw [fListDir] at read
  split at read
  · cases read
  · split at read
    · cases read
    · split at read
      · cases read
      · rename_i entries opened
        rcases Fallible.ok_of_bind_ok read with ⟨text, written, final⟩
        cases final
        rcases FileTree.readDirectory_ok opened with ⟨target, located, permitted, isDir, rfl⟩
        exact ⟨target.location, ⟨target, located, rfl⟩, isDir, permitted, written, rfl⟩

theorem fListDir_content {code : RetCode} {content : FileContent}
    (solid : tree.Solid location) (short : (render location).length < pathMax)
    (read : fListDir env sha tree ⟨render location⟩ = .ok (code, some content)) :
    tree.get location = some .dir ∧ content.path = render location ∧
      listEntries env tree ⟨render location⟩
        (env.entries.arrange (tree.dirents location)) [] 1024 = .ok content.stream := by
  have here : tree.Denotes (render location) location :=
    ⟨_, FileTree.locate_render true solid short, rfl⟩
  rcases fListDir_ok read with ⟨place, leads, isDir, _, text, content'⟩
  cases FileTree.denotes_unique leads here
  rw [content']
  exact ⟨isDir, rfl, text⟩

theorem countFiles_toNat (entries : List Dirent) (fileCount : UInt8)
    (small : fileCount.toNat ≤ 4) :
    (countFiles entries fileCount).toNat = min (fileCount.toNat + entries.length) 4 := by
  induction entries generalizing fileCount with
  | nil => simp [countFiles, small]
  | cons entry entries induction =>
      rw [countFiles, List.length_cons]
      by_cases less : fileCount < 4
      · have below : fileCount.toNat < 4 := UInt8.lt_iff_toNat_lt.mp less
        have next : (fileCount + 1).toNat = fileCount.toNat + 1 := by
          rw [UInt8.toNat_add, UInt8.toNat_one]
          omega
        rw [if_pos less, induction _ (by omega), next]
        omega
      · have reached : 4 ≤ fileCount.toNat := by
          by_contra below
          exact less (UInt8.lt_iff_toNat_lt.mpr (Nat.lt_of_not_le below))
        rw [if_neg less]
        omega

/-- However many entries there are and in whichever order they come, the count tells
whether a directory is empty. -/
theorem countFiles_iff (order : Arrangement Dirent) (tree : FileTree) (location : Location) :
    countFiles (order.arrange (tree.dirents location)) 0 > 2 ↔ tree.children location ≠ [] := by
  have counted := countFiles_toNat (order.arrange (tree.dirents location)) 0 (by decide)
  have length : (order.arrange (tree.dirents location)).length =
      (tree.children location).length + 2 := by
    rw [(order.perm _).length_eq]
    simp [FileTree.dirents]
  rw [length] at counted
  rw [gt_iff_lt, UInt8.lt_iff_toNat_lt, counted, ← List.length_pos_iff]
  change 2 < min (0 + ((tree.children location).length + 2)) 4 ↔ _
  omega

theorem fDelFile_file {content : Bytes} (short : (render location).length < pathMax)
    (found : tree.get location = some (.file content)) :
    fDelFile env tree ⟨render location⟩ =
      if env.unlink = true then .ok (.opSuccess, tree.remove location)
      else .ok (.opFailure, tree) := by
  have solid : tree.Solid location := ⟨_, found, by simp⟩
  have onto := FileTree.locate_render false solid short
  have through := FileTree.locate_render true solid short
  have known := FileTree.stat_file env.dirSize through found
  have unlinked := FileTree.unlink_file env.unlink onto found
  simp only [fDelFile, known, unlinked]
  by_cases permitted : env.unlink = true
  · simp only [permitted, if_true, Target.location_node]
  · simp only [permitted, Bool.false_eq_true, if_false]

/-- The root is in use, so that `rmdir` refuses it. -/
theorem fDelFile_dir (short : (render location).length < pathMax)
    (isDir : tree.get location = some .dir) :
    fDelFile env tree ⟨render location⟩ =
      if env.opendir = false then .error .badPointer
      else if tree.children location ≠ [] then .ok (.opDirNotEmpty, tree)
      else if location ≠ [] ∧ env.rmdir = true then .ok (.opSuccess, tree.remove location)
      else .ok (.opFailure, tree) := by
  have solid := FileTree.solid_of_dir isDir
  have onto := FileTree.locate_render false solid short
  have through := FileTree.locate_render true solid short
  have known := FileTree.stat_dir env.dirSize through isDir
  have read := FileTree.readDirectory_dir env.opendir env.entries through isDir
  have removed := FileTree.rmdir_dir env.rmdir onto isDir
  simp only [Target.location_node] at read removed
  simp only [fDelFile, known, read]
  by_cases opened : env.opendir = true
  · simp only [opened, if_true, Bool.true_eq_false, if_false, countFiles_iff]
    by_cases empty : tree.children location = []
    · simp only [empty, ne_eq, not_true, if_false, removed]
      by_cases isRoot : location = []
      · simp only [isRoot, if_true, not_true, false_and, if_false]
      · by_cases permitted : env.rmdir = true
        · simp only [isRoot, permitted, if_false, if_true, not_false_iff, and_self]
        · simp only [isRoot, permitted, if_false, and_false, Bool.false_eq_true]
    · simp only [ne_eq, empty, not_false_iff, if_true]
  · simp only [opened, if_false, if_true, Bool.false_eq_true]

theorem fDelFile_other (env : Env) (short : (render location).length < pathMax)
    (found : tree.get location = some .other) :
    fDelFile env tree ⟨render location⟩ = .ok (.opFailure, tree) := by
  have solid : tree.Solid location := ⟨_, found, by simp⟩
  have through := FileTree.locate_render true solid short
  have known := FileTree.stat_other env.dirSize through found
  simp only [fDelFile, known]

def Deletable (env : Env) (tree : FileTree) (location : Location) : Prop :=
  (∃ content, tree.get location = some (.file content)) ∧ env.unlink = true ∨
    tree.get location = some .dir ∧ tree.Removable location ∧ env.rmdir = true

theorem fDelFile_exactly {code : RetCode} {after : FileTree}
    (solid : tree.Solid location) (short : (render location).length < pathMax)
    (deleted : fDelFile env tree ⟨render location⟩ = .ok (code, after)) :
    (Deletable env tree location ∧ after = tree.remove location) ∨
      (¬ Deletable env tree location ∧ after = tree) := by
  rcases solid with ⟨node, found, notLink⟩
  cases node with
  | link text => exact absurd rfl (notLink text)
  | other =>
      rw [fDelFile_other env short found] at deleted
      cases deleted
      exact .inr ⟨by simp [Deletable, found], rfl⟩
  | file content =>
      rw [fDelFile_file short found] at deleted
      split at deleted
      · rename_i permitted
        cases deleted
        exact .inl ⟨.inl ⟨⟨content, found⟩, permitted⟩, rfl⟩
      · rename_i refused
        cases deleted
        exact .inr ⟨by simp [Deletable, found, refused], rfl⟩
  | dir =>
      rw [fDelFile_dir short found] at deleted
      split at deleted
      · cases deleted
      · split at deleted
        · rename_i children
          cases deleted
          exact .inr ⟨by simp [Deletable, found, FileTree.Removable, children], rfl⟩
        · rename_i childless
          rw [not_not] at childless
          split at deleted
          · rename_i permitted
            cases deleted
            exact .inl ⟨.inr ⟨found, ⟨permitted.1, childless⟩, permitted.2⟩, rfl⟩
          · rename_i refused
            cases deleted
            refine .inr ⟨?_, rfl⟩
            intro deletable
            rcases deletable with ⟨⟨content, isFile⟩, _⟩ | ⟨_, removable, permitted⟩
            · rw [found] at isFile
              cases isFile
            · exact refused ⟨removable.1, permitted⟩

theorem fOpenError_failed (code : Errno) : fOpenError code ≠ .opSuccess := by
  cases code <;> decide

theorem fWriteFile_cases (outcome : WriteOutcome) (tree : FileTree) (path : VerifiedPath)
    (stream : Bytes) :
    (∃ target, tree.locate true path.path = .ok target ∧ outcome.opens = true ∧
        tree.get target.location ≠ some .dir ∧
        fWriteFile outcome tree path (some stream) =
          (if outcome.accepted stream = stream then .opSuccess else .opFailure,
            if tree.get target.location = some .other then tree
            else tree.put target.location (.file (outcome.kept stream)))) ∨
      (¬ ∃ target, tree.locate true path.path = .ok target ∧ outcome.opens = true ∧
        tree.get target.location ≠ some .dir) ∧
      ∃ code, code ≠ .opSuccess ∧
        fWriteFile outcome tree path (some stream) = (code, tree) := by
  by_cases ready : ∃ target, tree.locate true path.path = .ok target ∧
      outcome.opens = true ∧ tree.get target.location ≠ some .dir
  · rcases ready with ⟨target, located, opens, notDir⟩
    refine .inl ⟨target, located, opens, notDir, ?_⟩
    simp only [fWriteFile, FileTree.writeFile_eq located opens notDir,
      ← outcome.accepted_length_eq_iff]
    by_cases whole : (outcome.accepted stream).length = stream.length
    · simp [whole]
    · simp [whole]
  · refine .inr ⟨ready, ?_⟩
    cases wrote : tree.writeFile outcome path.path stream with
    | ok written =>
        rcases FileTree.writeFile_ok wrote with ⟨target, located, opens, _, notDir, _⟩
        exact absurd ⟨target, located, opens, notDir⟩ ready
    | error code =>
        refine ⟨fOpenError code, fOpenError_failed code, ?_⟩
        simp only [fWriteFile, wrote]

theorem fWriteFile_touched (outcome : WriteOutcome) (path : VerifiedPath)
    (stream : Option Bytes) :
    FileTree.AgreeOff (tree.Touched path.path) tree
      (fWriteFile outcome tree path stream).2 := by
  cases stream with
  | none => exact .refl _ _
  | some stream =>
      simp only [fWriteFile]
      cases wrote : tree.writeFile outcome path.path stream with
      | error code => exact .refl _ _
      | ok written =>
          rcases written with ⟨count, after⟩
          simp only
          split <;> exact FileTree.writeFile_touched wrote

theorem fCreateDir_touched (path : VerifiedPath) :
    FileTree.AgreeOff (tree.Touched path.path) tree (fCreateDir env tree path).2 := by
  rw [fCreateDir]
  split
  · rename_i made
    exact FileTree.mkdir_touched made
  · exact .refl _ _
  · exact .refl _ _

end Operations

/-! ## Whole requests -/

structure Asks (request : WirePayload) (act : Act) (child : CString) : Prop where
  opcode : request.optCode = act.toByte
  path : ∃ payload, request.payload = .std payload ∧ payload.cPath = some child

theorem Asks.unique {request : WirePayload} {act act' : Act} {child child' : CString}
    (asks : Asks request act child) (asks' : Asks request act' child') :
    act = act' ∧ child = child' := by
  rcases asks with ⟨opcode, payload, carried, path⟩
  rcases asks' with ⟨opcode', payload', carried', path'⟩
  rw [carried] at carried'
  cases carried'
  rw [path] at path'
  have same := congrArg Act.ofByte (opcode.symm.trans opcode')
  rw [Act.ofByte_toByte, Act.ofByte_toByte] at same
  exact ⟨Option.some.inj same, Option.some.inj path'⟩

inductive ReadFrom (env : Env) (tree : FileTree) (location : Location)
    (content : FileContent) : (act : Act) → Prop
  | file (found : tree.get location = some (.file content.stream)) :
      ReadFrom env tree location content .getRemoteFile
  | listing (found : tree.get location = some .dir)
      (text : listEntries env tree ⟨render location⟩
        (env.entries.arrange (tree.dirents location)) [] 1024 = .ok content.stream) :
      ReadFrom env tree location content .listRemoteDirectory

inductive Changeable (server : Server) (request : WirePayload) : Location → Prop
  | deleted (child : CString) (location : Location)
      (asks : Asks request .deleteRemoteFile child)
      (resolved : fPathResolve server.tree server.db.homeDir.path child =
        .ok (some ⟨render location⟩)) : Changeable server request location
  | made (child : CString) (path : VerifiedPath) (location : Location)
      (asks : Asks request .makeRemoteDirectory child)
      (resolved : fValidResolve server.tree server.db.homeDir.path child =
        .ok (some path))
      (touched : server.tree.Touched path.path location) :
      Changeable server request location
  | stored (child : CString) (path : VerifiedPath) (location : Location)
      (asks : Asks request .putRemoteFile child)
      (absent : fPathResolve server.tree server.db.homeDir.path child = .ok none)
      (resolved : fValidResolve server.tree server.db.homeDir.path child =
        .ok (some path))
      (touched : server.tree.Touched path.path location) :
      Changeable server request location

theorem fVerPathResolve_some {tree : FileTree} {homeDir path : VerifiedPath}
    {child : Option CString} (resolved : fVerPathResolve tree homeDir child = .ok (some path)) :
    ∃ child', child = some child' ∧
      fPathResolve tree homeDir.path child' = .ok (some path) := by
  cases child with
  | none => cases resolved
  | some child => exact ⟨child, rfl, resolved⟩

theorem fVerValidResolve_some {tree : FileTree} {homeDir path : VerifiedPath}
    {child : Option CString}
    (resolved : fVerValidResolve tree homeDir child = .ok (some path)) :
    ∃ child', child = some child' ∧
      fValidResolve tree homeDir.path child' = .ok (some path) := by
  cases child with
  | none => cases resolved
  | some child => exact ⟨child, rfl, resolved⟩

/-- A PUT gets as far as writing `bytes` through `path`: nothing was found under the
path it names, and an entry can be made there. -/
structure Puts (server : Server) (payload : StdPayload) (path : VerifiedPath)
    (bytes : Bytes) : Prop where
  absent : fVerPathResolve server.tree server.db.homeDir payload.cPath = .ok none
  verified : fVerValidResolve server.tree server.db.homeDir payload.cPath =
    .ok (some path)
  carried : payload.byteStream = some bytes

theorem doPutFile_cases {env : Env} {server : Server} {payload : StdPayload}
    {code : RetCode} {tree : FileTree}
    (done : doPutFile env server payload = .ok (code, tree)) :
    (∃ path bytes, Puts server payload path bytes ∧
        fWriteFile env.write server.tree path (some bytes) = (code, tree)) ∨
      (¬ ∃ path bytes, Puts server payload path bytes) ∧ code ≠ .opSuccess ∧
        tree = server.tree := by
  rcases Fallible.ok_of_bind_ok done with ⟨existing, found, done⟩
  cases existing with
  | some path =>
      cases done
      refine .inr ⟨?_, by decide, rfl⟩
      rintro ⟨_, _, puts⟩
      have absent := puts.absent
      rw [found] at absent
      cases absent
  | none =>
      rcases Fallible.ok_of_bind_ok done with ⟨resolved, verified, done⟩
      cases resolved with
      | none =>
          cases done
          refine .inr ⟨?_, by decide, rfl⟩
          rintro ⟨_, _, puts⟩
          have resolves := puts.verified
          rw [verified] at resolves
          cases resolves
      | some path =>
          have result : fWriteFile env.write server.tree path payload.byteStream =
              (code, tree) := Except.ok.inj done
          cases given : payload.byteStream with
          | some bytes =>
              rw [given] at result
              exact .inl ⟨path, bytes, ⟨found, verified, given⟩, result⟩
          | none =>
              rw [given] at result
              cases result
              refine .inr ⟨?_, by decide, rfl⟩
              rintro ⟨_, _, puts⟩
              have carried := puts.carried
              rw [given] at carried
              cases carried

theorem doGetFile_cases {env : Env} {sha : Sha256} {server : Server} {payload : StdPayload}
    {response : ActResp} (done : doGetFile env sha server payload = .ok response) :
    (∃ code, response = ctrlPopulateResp code) ∨
      ∃ path code content,
        fVerPathResolve server.tree server.db.homeDir payload.cPath = .ok (some path) ∧
        fReadFile env sha server.tree path = .ok (code, some content) ∧
        content.stream ≠ [] ∧ response = contentResp content := by
  rcases Fallible.ok_of_bind_ok done with ⟨resolved, found, done⟩
  cases resolved with
  | none =>
      exact .inl ⟨_, (Except.ok.inj done).symm⟩
  | some path =>
      rcases Fallible.ok_of_bind_ok done with ⟨⟨code, content⟩, read, done⟩
      cases content with
      | none => exact .inl ⟨_, (Except.ok.inj done).symm⟩
      | some content =>
          simp only at done
          split at done
          · exact .inl ⟨_, (Except.ok.inj done).symm⟩
          · rename_i nonempty
            have answered := (Except.ok.inj done).symm
            exact .inr ⟨path, code, content, found, read, nonempty, answered⟩

theorem doListDir_cases {env : Env} {sha : Sha256} {server : Server} {payload : StdPayload}
    {response : ActResp} (done : doListDir env sha server payload = .ok response) :
    (∃ code, response = ctrlPopulateResp code) ∨
      ∃ path code content,
        fVerPathResolve server.tree server.db.homeDir payload.cPath = .ok (some path) ∧
        fListDir env sha server.tree path = .ok (code, some content) ∧
        content.stream ≠ [] ∧ response = contentResp content := by
  rcases Fallible.ok_of_bind_ok done with ⟨resolved, found, done⟩
  cases resolved with
  | none =>
      exact .inl ⟨_, (Except.ok.inj done).symm⟩
  | some path =>
      rcases Fallible.ok_of_bind_ok done with ⟨⟨code, listing⟩, read, done⟩
      cases listing with
      | none =>
          exact .inl ⟨_, (Except.ok.inj done).symm⟩
      | some content =>
          simp only at done
          split at done
          · exact .inl ⟨_, (Except.ok.inj done).symm⟩
          · rename_i nonempty
            have answered := (Except.ok.inj done).symm
            exact .inr ⟨path, code, content, found, read, nonempty, answered⟩

theorem doGetFile_content {env : Env} {sha : Sha256} {server : Server}
    {payload : StdPayload} {response : ActResp} {content : FileContent}
    (done : doGetFile env sha server payload = .ok response)
    (carries : response.content = some content) :
    ∃ child location, payload.cPath = some child ∧
      fPathResolve server.tree server.db.homeDir.path child =
        .ok (some ⟨render location⟩) ∧
      content.path = render location ∧
      ReadFrom env server.tree location content .getRemoteFile := by
  rcases doGetFile_cases done with
    ⟨code, rfl⟩ | ⟨path, code, sent, verified, read, _, rfl⟩
  · cases carries
  · cases carries
    rcases fVerPathResolve_some verified with ⟨child, given, found⟩
    rcases fPathResolve_place found with ⟨location, rfl, short, solid, _⟩
    rcases fReadFile_content solid short read with ⟨isFile, samePlace⟩
    exact ⟨child, location, given, found, samePlace, .file isFile⟩

theorem doListDir_content {env : Env} {sha : Sha256} {server : Server}
    {payload : StdPayload} {response : ActResp} {content : FileContent}
    (done : doListDir env sha server payload = .ok response)
    (carries : response.content = some content) :
    ∃ child location, payload.cPath = some child ∧
      fPathResolve server.tree server.db.homeDir.path child =
        .ok (some ⟨render location⟩) ∧
      content.path = render location ∧
      ReadFrom env server.tree location content .listRemoteDirectory := by
  rcases doListDir_cases done with
    ⟨code, rfl⟩ | ⟨path, code, sent, verified, read, _, rfl⟩
  · cases carries
  · cases carries
    rcases fVerPathResolve_some verified with ⟨child, given, found⟩
    rcases fPathResolve_place found with ⟨location, rfl, short, solid, _⟩
    rcases fListDir_content solid short read with ⟨isDir, samePlace, text⟩
    exact ⟨child, location, given, found, samePlace, .listing isDir text⟩

theorem performAction_answered {env : Env} {sha : Sha256} {user : UserAccount}
    {server after : Server} {request : WirePayload} {response : ActResp}
    (done : performAction env sha user server request = .ok (response, after)) :
    (∃ code, response = ctrlPopulateResp code) ∨
      ∃ act payload, Act.ofByte request.optCode = some act ∧
        request.payload = .std payload ∧
        (act = .listRemoteDirectory ∧ doListDir env sha server payload = .ok response ∨
          act = .getRemoteFile ∧ doGetFile env sha server payload = .ok response) := by
  have isWrite : ∀ {action : Server → StdPayload → Except Fault (RetCode × FileTree)},
      writeAction user server request action = .ok (response, after) →
      ∃ code, response = ctrlPopulateResp code := by
    intro action written
    rcases writeAction_cases written with ⟨_, rfl, _⟩ | ⟨_, code, _, _, _, _, rfl, _⟩
    · exact ⟨_, rfl⟩
    · exact ⟨code, rfl⟩
  rw [performAction] at done
  split at done
  · cases done
    exact .inl ⟨_, rfl⟩
  · rcases Fallible.ok_of_bind_ok done with ⟨payload, _, done⟩
    split at done
    · split at done
      · cases done
        exact .inl ⟨_, rfl⟩
      · rcases Fallible.ok_of_bind_ok done with ⟨⟨code, server'⟩, _, final⟩
        cases final
        exact .inl ⟨code, rfl⟩
    · split at done
      · cases done
        exact .inl ⟨_, rfl⟩
      · rcases Fallible.ok_of_bind_ok done with ⟨⟨code, server'⟩, _, final⟩
        cases final
        exact .inl ⟨code, rfl⟩
    · cases done
      exact .inl ⟨_, rfl⟩
  · exact .inl (isWrite done)
  · exact .inl (isWrite done)
  · exact .inl (isWrite done)
  · rename_i opcode
    rcases Fallible.ok_of_bind_ok done with ⟨payload, carried, done⟩
    rcases Fallible.ok_of_bind_ok done with ⟨listing, listed, final⟩
    cases final
    exact .inr ⟨_, payload, opcode, stdPayload_ok carried, .inl ⟨rfl, listed⟩⟩
  · rename_i opcode
    rcases Fallible.ok_of_bind_ok done with ⟨payload, carried, done⟩
    rcases Fallible.ok_of_bind_ok done with ⟨file, read, final⟩
    cases final
    exact .inr ⟨_, payload, opcode, stdPayload_ok carried, .inr ⟨rfl, read⟩⟩
  · cases done
    exact .inl ⟨_, rfl⟩

theorem performAction_content {env : Env} {sha : Sha256} {user : UserAccount}
    {server after : Server} {request : WirePayload} {response : ActResp}
    {content : FileContent}
    (done : performAction env sha user server request = .ok (response, after))
    (carries : response.content = some content) :
    ∃ act child location, Asks request act child ∧
      fPathResolve server.tree server.db.homeDir.path child =
        .ok (some ⟨render location⟩) ∧
      content.path = render location ∧ ReadFrom env server.tree location content act := by
  rcases performAction_answered done with
    ⟨code, rfl⟩ | ⟨act, payload, opcode, carried, ⟨rfl, listed⟩ | ⟨rfl, got⟩⟩
  · cases carries
  · rcases doListDir_content listed carries with ⟨child, location, given, rest⟩
    exact ⟨_, child, location, ⟨Act.toByte_of_ofByte opcode, payload, carried, given⟩, rest⟩
  · rcases doGetFile_content got carries with ⟨child, location, given, rest⟩
    exact ⟨_, child, location, ⟨Act.toByte_of_ofByte opcode, payload, carried, given⟩, rest⟩

/-- Content is sent only of the node that a GET or LIST request resolves to. -/
theorem ctrlParseAction_content {env : Env} {sha : Sha256} {timeout : Int}
    {server : Server} {request : WirePayload} {handled : Handled} {content : FileContent}
    (done : ctrlParseAction env sha timeout server request = .ok handled)
    (carries : handled.response.content = some content) :
    ∃ act child location, Asks request act child ∧
      fPathResolve server.tree server.db.homeDir.path child =
        .ok (some ⟨render location⟩) ∧
      content.path = render location ∧ ReadFrom env server.tree location content act := by
  cases ctrlParseAction_effect done with
  | refused code failed stranger result =>
      subst result
      cases carries
  | expired user check authentic checked failed result =>
      subst result
      cases carries
  | performed user check response after authentic checked passed action result =>
      subst result
      have sent := performAction_content action carries
      simpa only [Server.setSessions_tree, Server.setSessions_homeDir] using sent

theorem doDelFile_changes {env : Env} {server : Server} {request : WirePayload}
    {payload : StdPayload} {code : RetCode} {tree : FileTree}
    (opcode : request.optCode = Act.deleteRemoteFile.toByte)
    (carried : request.payload = .std payload)
    (done : doDelFile env server payload = .ok (code, tree)) :
    FileTree.AgreeOff (Changeable server request) server.tree tree := by
  rcases Fallible.ok_of_bind_ok done with ⟨resolved, found, done⟩
  cases resolved with
  | none =>
      cases done
      exact .refl _ _
  | some path =>
      rcases fVerPathResolve_some found with ⟨child, given, found⟩
      rcases fPathResolve_place found with ⟨location, rfl, short, solid, _⟩
      rcases fDelFile_exactly solid short done with ⟨_, rfl⟩ | ⟨_, rfl⟩
      · refine (server.tree.agreeOff_remove location).mono fun place same => ?_
        subst same
        exact .deleted child _ ⟨opcode, payload, carried, given⟩ found
      · exact .refl _ _

theorem doMakeDir_changes {env : Env} {server : Server} {request : WirePayload}
    {payload : StdPayload} {code : RetCode} {tree : FileTree}
    (opcode : request.optCode = Act.makeRemoteDirectory.toByte)
    (carried : request.payload = .std payload)
    (done : doMakeDir env server payload = .ok (code, tree)) :
    FileTree.AgreeOff (Changeable server request) server.tree tree := by
  rcases Fallible.ok_of_bind_ok done with ⟨resolved, found, done⟩
  cases resolved with
  | none =>
      cases done
      exact .refl _ _
  | some path =>
      rcases fVerValidResolve_some found with ⟨child, given, found⟩
      have created : (fCreateDir env server.tree path).2 = tree :=
        congrArg Prod.snd (Except.ok.inj done)
      rw [← created]
      exact (fCreateDir_touched path).mono fun place touched =>
        .made child path place ⟨opcode, payload, carried, given⟩ found touched

theorem doPutFile_changes {env : Env} {server : Server} {request : WirePayload}
    {payload : StdPayload} {code : RetCode} {tree : FileTree}
    (opcode : request.optCode = Act.putRemoteFile.toByte)
    (carried : request.payload = .std payload)
    (done : doPutFile env server payload = .ok (code, tree)) :
    FileTree.AgreeOff (Changeable server request) server.tree tree := by
  rcases doPutFile_cases done with ⟨path, bytes, puts, written⟩ | ⟨_, _, rfl⟩
  · rcases fVerValidResolve_some puts.verified with ⟨child, given, found⟩
    have absent := puts.absent
    rw [given] at absent
    have wrote : (fWriteFile env.write server.tree path (some bytes)).2 = tree :=
      congrArg Prod.snd written
    rw [← wrote]
    exact (fWriteFile_touched env.write path (some bytes)).mono fun place touched =>
      .stored child path place ⟨opcode, payload, carried, given⟩ absent found touched
  · exact .refl _ _

/-- A request for anything but the users changes files in the places only that it
may change. -/
theorem ctrlParseAction_changes {env : Env} {sha : Sha256} {timeout : Int}
    {server : Server} {request : WirePayload} {handled : Handled}
    (done : ctrlParseAction env sha timeout server request = .ok handled)
    (notUser : request.optCode ≠ Act.userOperation.toByte) :
    FileTree.AgreeOff (Changeable server request) server.tree handled.server.tree := by
  cases ctrlParseAction_effect done with
  | refused code failed stranger result =>
      subst result
      exact .refl _ _
  | expired user check authentic checked failed result =>
      subst result
      exact .refl _ _
  | performed user check response after authentic checked passed action result =>
      subst result
      cases performAction_effect action with
      | nothing kept =>
          subst kept
          exact .refl _ _
      | users payload table opcode carried change saved =>
          exact absurd (Act.toByte_of_ofByte opcode) notUser
      | files act payload code tree opcode permitted carried performed answered stored =>
          subst stored
          have opcode' := Act.toByte_of_ofByte opcode
          -- The session check leaves the tree and the home directory alone, so
          -- what the checked server may change is what the server may change.
          have same : ∀ place, Changeable (server.setSessions check.table) request place →
              Changeable server request place := by
            intro place changeable
            cases changeable with
            | deleted child location asks resolved => exact .deleted child _ asks resolved
            | made child path location asks resolved touched =>
                exact .made child path _ asks resolved touched
            | stored child path location asks absent resolved touched =>
                exact .stored child path _ asks absent resolved touched
          rcases performed with ⟨rfl, deleted⟩ | ⟨rfl, made⟩ | ⟨rfl, written⟩
          · exact (doDelFile_changes opcode' carried deleted).mono same
          · exact (doMakeDir_changes opcode' carried made).mono same
          · exact (doPutFile_changes opcode' carried written).mono same

end FileTransfer
