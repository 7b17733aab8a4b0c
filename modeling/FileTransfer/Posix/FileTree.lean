import FileTransfer.Foundation.HashTable
import FileTransfer.Posix.Path

/-! # File trees

A tree of files, directories and symbolic links, kept as a map from locations
to nodes. The structure carries what makes such a map a tree, and the two
operations that change it keep it so.
-/

namespace Posix

open Foundation

inductive Node
  | file (content : Bytes)
  | dir
  | link (target : Bytes)
  /-- A socket, a pipe or a device. -/
  | other
deriving DecidableEq

/-- A tree: the root is a directory, and whatever exists is an entry of an
existing directory. -/
structure FileTree where
  nodes : HashTable Location Node
  root : nodes.get [] = some .dir
  parents : ∀ name location, (nodes.get (name :: location)).isSome →
    nodes.get location = some .dir

namespace FileTree

def get (tree : FileTree) (location : Location) : Option Node :=
  tree.nodes.get location

@[simp] theorem get_root (tree : FileTree) : tree.get [] = some .dir := tree.root

theorem parent_of_get {tree : FileTree} {name : Name} {location : Location}
    {node : Node} (found : tree.get (name :: location) = some node) :
    tree.get location = some .dir :=
  tree.parents name location (by simp only [get] at found; simp [found])

theorem dir_above {tree : FileTree} {directory location : Location}
    (below : StrictlyBelow directory location) {node : Node}
    (found : tree.get location = some node) : tree.get directory = some .dir := by
  rcases below with ⟨⟨between, rfl⟩, proper⟩
  induction between generalizing node with
  | nil => exact absurd rfl proper
  | cons name between induction =>
      have parent := parent_of_get found
      cases between with
      | nil => exact parent
      | cons next rest =>
          refine induction parent fun equal => ?_
          have sameLength := congrArg List.length equal
          simp only [List.length_cons, List.length_append] at sameLength
          omega

def bare : FileTree where
  nodes := HashTable.set ∅ [] .dir
  root := HashTable.get_set_self ∅ [] Node.dir
  parents name location found := by
    rw [HashTable.get_set_ne _ _ (List.cons_ne_nil name location),
      HashTable.get_empty] at found
    simp at found

/-! ## Changing one node -/

def CanHold (tree : FileTree) : Location → Prop
  | [] => False
  | name :: parent =>
      tree.get parent = some .dir ∧ tree.get (name :: parent) ≠ some .dir

instance (tree : FileTree) (location : Location) :
    Decidable (tree.CanHold location) := by
  cases location <;> unfold CanHold <;> infer_instance

private theorem parents_set {tree : FileTree} {location : Location} (node : Node)
    (holds : tree.CanHold location) (name : Name) (parent : Location)
    (found : ((tree.nodes.set location node).get (name :: parent)).isSome) :
    (tree.nodes.set location node).get parent = some .dir := by
  cases location with
  | nil => exact absurd holds (by simp [CanHold])
  | cons last above =>
      rcases holds with ⟨aboveDir, notDir⟩
      simp only [FileTree.get] at aboveDir notDir
      have parentDir : tree.nodes.get parent = some .dir := by
        by_cases same : name :: parent = last :: above
        · injection same with _ sameParent
          rw [sameParent]
          exact aboveDir
        · rw [HashTable.get_set_ne _ _ same] at found
          exact tree.parents name parent found
      have different : parent ≠ last :: above := by
        intro equal
        rw [equal] at parentDir
        exact notDir parentDir
      rw [HashTable.get_set_ne _ _ different]
      exact parentDir

/-- Put `node` at `location`, replacing a node that is not a directory. Where
no node can stand the tree is left as it is. -/
def put (tree : FileTree) (location : Location) (node : Node) : FileTree :=
  if holds : tree.CanHold location then
    { nodes := tree.nodes.set location node
      root := by
        have different : ([] : Location) ≠ location := by
          rintro rfl
          exact holds
        rw [HashTable.get_set_ne _ _ different]
        exact tree.root
      parents := parents_set node holds }
  else tree

theorem get_put_self {tree : FileTree} {location : Location} (node : Node)
    (holds : tree.CanHold location) :
    (tree.put location node).get location = some node := by
  simp [put, holds, get]

theorem get_put_ne (tree : FileTree) {location other : Location} (node : Node)
    (different : other ≠ location) :
    (tree.put location node).get other = tree.get other := by
  by_cases holds : tree.CanHold location
  · simp [put, holds, get, HashTable.get_set_ne _ _ different]
  · simp [put, holds]

def children (tree : FileTree) (directory : Location) : List Name :=
  tree.nodes.keys.filterMap fun
    | [] => none
    | name :: parent => if parent = directory then some name else none

theorem mem_children_iff (tree : FileTree) (directory : Location) (name : Name) :
    name ∈ tree.children directory ↔ ∃ node, tree.get (name :: directory) = some node := by
  have known : name :: directory ∈ tree.nodes.keys ↔
      ∃ node, tree.get (name :: directory) = some node := by
    rw [← AList.mem_keys, ← AList.lookup_isSome, Option.isSome_iff_exists]
    rfl
  rw [← known, children, List.mem_filterMap]
  constructor
  · rintro ⟨location, member, found⟩
    cases location with
    | nil => simp at found
    | cons other parent =>
        simp only [Option.ite_none_right_eq_some, Option.some.injEq] at found
        rcases found with ⟨rfl, rfl⟩
        exact member
  · intro member
    exact ⟨name :: directory, member, by simp⟩

def Removable (tree : FileTree) (location : Location) : Prop :=
  location ≠ [] ∧ tree.children location = []

instance (tree : FileTree) (location : Location) :
    Decidable (tree.Removable location) := by
  unfold Removable
  infer_instance

theorem removable_of_not_dir {tree : FileTree} {location : Location}
    (notDir : tree.get location ≠ some .dir) : tree.Removable location := by
  refine ⟨fun isRoot => notDir (isRoot ▸ tree.get_root), ?_⟩
  apply List.eq_nil_iff_forall_not_mem.mpr
  intro name member
  rcases (tree.mem_children_iff location name).mp member with ⟨node, found⟩
  exact notDir (parent_of_get found)

def remove (tree : FileTree) (location : Location) : FileTree :=
  if removable : tree.Removable location then
    { nodes := tree.nodes.del location
      root := by
        rw [HashTable.get_del_ne _ removable.1.symm]
        exact tree.root
      parents := by
        intro name parent found
        by_cases same : name :: parent = location
        · rw [same, HashTable.get_del_self] at found
          simp at found
        · rw [HashTable.get_del_ne _ same, Option.isSome_iff_exists] at found
          have different : parent ≠ location := by
            rintro rfl
            have member := (tree.mem_children_iff parent name).mpr found
            rw [removable.2] at member
            cases member
          rw [HashTable.get_del_ne _ different]
          exact tree.parents name parent (Option.isSome_iff_exists.mpr found) }
  else tree

theorem get_remove_self {tree : FileTree} {location : Location}
    (removable : tree.Removable location) :
    (tree.remove location).get location = none := by
  simp [remove, removable, get]

theorem get_remove_ne (tree : FileTree) {location other : Location}
    (different : other ≠ location) :
    (tree.remove location).get other = tree.get other := by
  by_cases removable : tree.Removable location
  · simp [remove, removable, get, HashTable.get_del_ne _ different]
  · simp [remove, removable]

/-! ## Comparing two trees -/

def AgreeOff (touched : Location → Prop) (before after : FileTree) : Prop :=
  ∀ location, ¬ touched location → after.get location = before.get location

namespace AgreeOff

variable {touched wider : Location → Prop} {first second third : FileTree}

theorem refl (touched : Location → Prop) (tree : FileTree) :
    AgreeOff touched tree tree :=
  fun _ _ => rfl

theorem trans (early : AgreeOff touched first second)
    (late : AgreeOff touched second third) : AgreeOff touched first third :=
  fun location untouched =>
    (late location untouched).trans (early location untouched)

theorem mono (weaken : ∀ location, touched location → wider location)
    (agree : AgreeOff touched first second) : AgreeOff wider first second :=
  fun location untouched =>
    agree location fun was => untouched (weaken location was)

end AgreeOff

theorem agreeOff_put (tree : FileTree) (location : Location) (node : Node) :
    AgreeOff (· = location) tree (tree.put location node) :=
  fun _ different => tree.get_put_ne node different

theorem agreeOff_remove (tree : FileTree) (location : Location) :
    AgreeOff (· = location) tree (tree.remove location) :=
  fun _ different => tree.get_remove_ne different

end FileTree

end Posix
