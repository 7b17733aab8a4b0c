import FileTransfer.Server.FileRequests

/-! # Deletions

A deletion takes one node out of the tree, or none.
-/

namespace FileTransfer

open Foundation Posix

/-- No call of a deletion is refused. The root is in use, so that `rmdir` would refuse it
if it were empty. -/
structure CallsSucceed (env : Env) (tree : FileTree) (path : VerifiedPath) : Prop where
  opendir : env.opendir = true
  unlink : env.unlink = true
  rmdir : env.rmdir = true
  notBusy : path.path = render [] → tree.children [] ≠ []

def Lone (tree : FileTree) (location : Location) : Prop :=
  (∃ content, tree.get location = some (.file content)) ∨
    tree.get location = some .dir ∧ tree.children location = []

structure DeletesOne (tree : FileTree) (location : Location) (code : RetCode)
    (after : FileTree) : Prop where
  success : code = .opSuccess ↔ Lone tree location
  removed : code = .opSuccess → after.get location = none ∧
    ∀ place, place ≠ location → after.get place = tree.get place
  notEmpty : tree.get location = some .dir → tree.children location ≠ [] →
    code = .opDirNotEmpty ∧ after = tree
  otherKind : (∀ content, tree.get location ≠ some (.file content)) →
    tree.get location ≠ some .dir → code = .opFailure ∧ after = tree

section Kinds

variable {env : Env} {tree : FileTree} {location : Location}

theorem removed_one (removable : tree.Removable location) :
    (tree.remove location).get location = none ∧
      ∀ place, place ≠ location → (tree.remove location).get place = tree.get place := by
  constructor
  · apply FileTree.get_remove_self removable
  · intro place different
    apply tree.get_remove_ne different

theorem deletesOne_file {content : Bytes} (found : tree.get location = some (.file content)) :
    DeletesOne tree location .opSuccess (tree.remove location) where
  success := iff_of_true rfl (.inl ⟨content, found⟩)
  removed _ := by
    apply removed_one
    apply FileTree.removable_of_not_dir
    simp [found]
  notEmpty isDir := by
    rw [found] at isDir
    cases isDir
  otherKind notFile := absurd found (notFile content)

theorem deletesOne_empty (isDir : tree.get location = some .dir)
    (childless : tree.children location = []) (notRoot : location ≠ []) :
    DeletesOne tree location .opSuccess (tree.remove location) where
  success := iff_of_true rfl (.inr ⟨isDir, childless⟩)
  removed _ := removed_one ⟨notRoot, childless⟩
  notEmpty _ children := absurd childless children
  otherKind _ notDir := absurd isDir notDir

theorem deletesOne_nonempty (isDir : tree.get location = some .dir)
    (children : tree.children location ≠ []) :
    DeletesOne tree location .opDirNotEmpty tree where
  success := by
    apply iff_of_false (by decide)
    intro lone
    rcases lone with ⟨content, isFile⟩ | ⟨_, childless⟩
    · rw [isDir] at isFile
      cases isFile
    · exact children childless
  removed success := by cases success
  notEmpty _ _ := ⟨rfl, rfl⟩
  otherKind _ notDir := absurd isDir notDir

theorem deletesOne_other (found : tree.get location = some .other) :
    DeletesOne tree location .opFailure tree where
  success := by
    apply iff_of_false (by decide)
    simp [Lone, found]
  removed success := by cases success
  notEmpty isDir := by
    rw [found] at isDir
    cases isDir
  otherKind _ _ := ⟨rfl, rfl⟩

end Kinds

/-- Whatever the order in which a directory is read, a deletion under a path that
`f_path_resolve` accepts removes the node that the path leads to, and only that one,
where it is a file or an empty directory, and otherwise says why it removes nothing. -/
theorem fDelFile_removes_one {env : Env} {tree : FileTree} {homeDir : Bytes} {child : CString}
    {path : VerifiedPath} (resolved : fPathResolve tree homeDir child = .ok (some path))
    (succeed : CallsSucceed env tree path) :
    ∃ location code after, tree.Denotes path.path location ∧
      fDelFile env tree path = .ok (code, after) ∧ DeletesOne tree location code after := by
  rcases fPathResolve_place resolved with ⟨location, rfl, short, solid, _⟩
  have denotes : tree.Denotes (render location) location :=
    ⟨_, FileTree.locate_render true solid short, rfl⟩
  rcases solid with ⟨node, found, notLink⟩
  cases node with
  | link text => exact absurd rfl (notLink text)
  | file content =>
      refine ⟨location, .opSuccess, tree.remove location, denotes, ?_, deletesOne_file found⟩
      rw [fDelFile_file short found, if_pos succeed.unlink]
  | other => exact ⟨location, .opFailure, tree, denotes, fDelFile_other env short found,
      deletesOne_other found⟩
  | dir =>
      have deleted : fDelFile env tree ⟨render location⟩ = _ := fDelFile_dir short found
      simp only [succeed.opendir, Bool.true_eq_false, if_false] at deleted
      by_cases childless : tree.children location = []
      · have notRoot : location ≠ [] := by
          intro isRoot
          rw [isRoot] at childless
          exact succeed.notBusy (congrArg render isRoot) childless
        rw [if_neg (not_not.mpr childless), if_pos ⟨notRoot, succeed.rmdir⟩] at deleted
        exact ⟨location, _, _, denotes, deleted, deletesOne_empty found childless notRoot⟩
      · rw [if_pos childless] at deleted
        exact ⟨location, _, _, denotes, deleted, deletesOne_nonempty found childless⟩

theorem draftName_valid : NameValid (ascii "draft") := by decide
theorem emptyName_valid : NameValid (ascii "empty") := by decide
theorem fullName_valid : NameValid (ascii "full") := by decide

def draftName : Name := ⟨ascii "draft", draftName_valid⟩
def emptyName : Name := ⟨ascii "empty", emptyName_valid⟩
def fullName : Name := ⟨ascii "full", fullName_valid⟩

def draftTree : FileTree :=
  (((FileTree.bare.put [draftName] (.file (ascii "x"))).put [emptyName] .dir).put
    [fullName] .dir).put [draftName, fullName] (.file (ascii "y"))

def Deleted (text : Bytes) (code : RetCode) : Prop :=
  ∃ location after, draftTree.Denotes text location ∧
    fDelFile {} draftTree ⟨text⟩ = .ok (code, after) ∧ DeletesOne draftTree location code after

theorem fDelFile_removes_one_draft :
    Deleted (ascii "/draft") .opSuccess ∧ Deleted (ascii "/empty") .opSuccess ∧
      Deleted (ascii "/full") .opDirNotEmpty := by
  have coded : ∀ {text : Bytes} {expected : RetCode},
      (fDelFile {} draftTree ⟨text⟩).map Prod.fst = .ok expected →
      (∃ location code after, draftTree.Denotes text location ∧
        fDelFile {} draftTree ⟨text⟩ = .ok (code, after) ∧
          DeletesOne draftTree location code after) → Deleted text expected := by
    rintro text expected answer ⟨location, code, after, denotes, deleted, one⟩
    rw [deleted] at answer
    cases answer
    exact ⟨location, after, denotes, deleted, one⟩
  have file : fPathResolve draftTree (ascii "/") (.ofBuffer (ascii "draft")) =
      .ok (some ⟨ascii "/draft"⟩) := by
    decide +kernel
  have emptyDir : fPathResolve draftTree (ascii "/") (.ofBuffer (ascii "empty")) =
      .ok (some ⟨ascii "/empty"⟩) := by
    decide +kernel
  have fullDir : fPathResolve draftTree (ascii "/") (.ofBuffer (ascii "full")) =
      .ok (some ⟨ascii "/full"⟩) := by
    decide +kernel
  exact ⟨coded rfl (fDelFile_removes_one file ⟨rfl, rfl, rfl, by decide⟩),
    coded rfl (fDelFile_removes_one emptyDir ⟨rfl, rfl, rfl, by decide⟩),
    coded rfl (fDelFile_removes_one fullDir ⟨rfl, rfl, rfl, by decide⟩)⟩

end FileTransfer
