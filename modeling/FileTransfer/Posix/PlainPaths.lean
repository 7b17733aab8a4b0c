import FileTransfer.Posix.Calls
import FileTransfer.Posix.Parts

/-! # Plain paths
Where there are no links, a path that only goes down leads to the place that its names
spell, or to nothing.
-/

namespace Posix

open Foundation

def steps (path : List Component) : List Component := path.filter (· ≠ .here)

@[simp] theorem steps_here (rest : List Component) : steps (.here :: rest) = steps rest := rfl

theorem steps_append (front back : List Component) :
    steps (front ++ back) = steps front ++ steps back :=
  List.filter_append _ _

namespace FileTree

variable {tree : FileTree}

def NoLinks (tree : FileTree) (directory : Location) : Prop :=
  ∀ below text, tree.get (below ++ directory) ≠ some (.link text)

theorem NoLinks.below {directory : Location} (noLinks : tree.NoLinks directory) (name : Name) :
    tree.NoLinks (name :: directory) := by
  intro below text
  have same : below ++ name :: directory = (below ++ [name]) ++ directory := by simp
  rw [same]
  exact noLinks _ text

theorem steps_cons {component : Component} {rest : List Component} {names : List Name}
    (spelled : steps (component :: rest) = names.map .name) :
    component = .here ∧ steps rest = names.map .name ∨
      ∃ name later, component = .name name ∧ names = name :: later ∧
        steps rest = later.map .name := by
  by_cases isHere : component = .here
  · subst isHere
    exact .inl ⟨rfl, spelled⟩
  · rw [steps, List.filter_cons_of_pos (by simpa using isHere)] at spelled
    cases names with
    | nil => cases spelled
    | cons name later =>
        rw [List.map_cons, List.cons.injEq] at spelled
        exact .inr ⟨name, later, spelled.1, rfl, spelled.2⟩

def Clear (tree : FileTree) : Location → List Name → Prop
  | _, [] => True
  | current, name :: names =>
      (∀ text, tree.get (name :: current) ≠ some (.link text)) ∧ tree.Clear (name :: current) names

theorem NoLinks.clear {current : Location} (noLinks : tree.NoLinks current) (names : List Name) :
    tree.Clear current names := by
  induction names generalizing current with
  | nil => trivial
  | cons name names induction => exact ⟨noLinks [name], induction (noLinks.below name)⟩

theorem clear_of_above {current : Location} {names : List Name}
    (above : ∀ place, place <:+ names.reverse ++ current → ∀ text,
      tree.get place ≠ some (.link text)) : tree.Clear current names := by
  induction names generalizing current with
  | nil => trivial
  | cons name names induction =>
      rw [List.reverse_cons, List.append_assoc, List.singleton_append] at above
      exact ⟨above _ (List.suffix_append _ _), induction above⟩

theorem walkFrom_clear {followLast : Bool} {jump : Location → List Component → Except Errno Target}
    {front rest : List Component} {current : Location} {names : List Name}
    (clear : tree.Clear current names) (spelled : steps front = names.map .name)
    {target : Target}
    (reached : tree.walkFrom followLast jump current (front ++ rest) = .ok target) :
    tree.walkFrom followLast jump (names.reverse ++ current) rest = .ok target ∨
      rest = [] ∧ target.location = names.reverse ++ current := by
  induction front generalizing current names with
  | nil =>
      cases names with
      | nil => exact .inl reached
      | cons name later => cases spelled
  | cons component front induction =>
      simp only [List.cons_append, walkFrom_cons, lookup] at reached
      by_cases isDir : tree.get current = some .dir
      swap
      · rw [if_pos isDir] at reached
        cases reached
      rw [if_neg (not_not.mpr isDir)] at reached
      rcases steps_cons spelled with ⟨rfl, spelled'⟩ | ⟨name, later, rfl, rfl, spelled'⟩
      · exact induction clear spelled' reached
      · rw [List.reverse_cons, List.append_assoc, List.singleton_append]
        cases found : tree.get (name :: current) with
        | none =>
            simp only [found] at reached
            split at reached
            · rename_i last
              cases reached
              rcases List.append_eq_nil_iff.mp last with ⟨rfl, rfl⟩
              cases later with
              | nil => exact .inr ⟨rfl, rfl⟩
              | cons next later => cases spelled'
            · cases reached
        | some node =>
            cases node with
            | link text => exact absurd found (clear.1 text)
            | _ =>
                simp only [found] at reached
                exact induction clear.2 spelled' reached

theorem walk_clear {followLast : Bool} {links : Nat} {front rest : List Component}
    {current : Location} {names : List Name} (clear : tree.Clear current names)
    (spelled : steps front = names.map .name) {target : Target}
    (reached : tree.walk followLast links current (front ++ rest) = .ok target) :
    tree.walk followLast links (names.reverse ++ current) rest = .ok target ∨
      rest = [] ∧ target.location = names.reverse ++ current := by
  cases links <;> exact walkFrom_clear clear spelled reached

theorem walk_nil {followLast : Bool} {links : Nat} {current : Location} {target : Target}
    (reached : tree.walk followLast links current [] = .ok target) :
    target = .node current := by
  cases links <;> exact (Except.ok.inj reached).symm

/-- Whatever a plain path leads to, it is the place that its names spell. -/
theorem walk_plain {followLast : Bool} {links : Nat} {path : List Component}
    {current : Location} {names : List Name} (clear : tree.Clear current names)
    (spelled : steps path = names.map .name) {target : Target}
    (reached : tree.walk followLast links current path = .ok target) :
    target.location = names.reverse ++ current := by
  rw [← List.append_nil path] at reached
  rcases walk_clear clear spelled reached with arrived | ⟨_, there⟩
  · rw [walk_nil arrived]
    rfl
  · exact there

theorem walk_not_dir {followLast : Bool} {links : Nat} {current : Location}
    (notDir : tree.get current ≠ some .dir) (component : Component) (rest : List Component) :
    tree.walk followLast links current (component :: rest) = .error .notDir := by
  cases links <;> exact if_pos notDir

theorem dir_of_below {below current : Location}
    (isDir : tree.get (below ++ current) = some .dir) : tree.get current = some .dir := by
  by_cases empty : below = []
  · rw [empty] at isDir
    exact isDir
  · apply dir_above ⟨List.suffix_append _ _, ?_⟩ isDir
    intro same
    exact empty (by simpa using congrArg List.length same)

theorem walk_plain_dir {links : Nat} {path : List Component} {current : Location}
    {names : List Name} (spelled : steps path = names.map .name)
    (isDir : tree.get (names.reverse ++ current) = some .dir) :
    tree.walk true links current path = .ok (.node (names.reverse ++ current)) := by
  induction path generalizing current names with
  | nil =>
      cases names with
      | nil => cases links <;> rfl
      | cons name later => cases spelled
  | cons component rest induction =>
      rcases steps_cons spelled with ⟨rfl, spelled'⟩ | ⟨name, later, rfl, rfl, spelled'⟩
      · rw [walk_here links rest (dir_of_below isDir)]
        exact induction spelled' isDir
      · rw [List.reverse_cons, List.append_assoc, List.singleton_append] at isDir ⊢
        have solid : tree.Solid ([name].reverse ++ current) :=
          solid_of_dir (dir_of_below isDir)
        exact (walk_names true links [name] current rest solid).trans
          (induction spelled' isDir)

/-! ## Paths that lead to nothing -/

def Missing (tree : FileTree) (path : Bytes) : Prop :=
  ∀ followLast target, tree.locate followLast path = .ok target →
    tree.get target.location = none

namespace Missing

variable {path : Bytes}

theorem bind_error {α : Type} {located : Except Errno Target} {next : Target → Except Errno α}
    (fails : ∀ target, located = .ok target → ∃ code, next target = .error code) :
    ∃ code, (located >>= next) = .error code := by
  cases located with
  | error code => exact ⟨code, rfl⟩
  | ok target => exact fails target rfl

theorem stat (missing : tree.Missing path) (dirSize : Location → Nat) :
    ∃ code, tree.stat dirSize path = .error code := by
  apply bind_error
  intro target located
  rw [missing true target located]
  exact ⟨_, rfl⟩

theorem openRead (missing : tree.Missing path) (outcome : ReadOutcome) :
    ∃ code, tree.openRead outcome path = .error code := by
  apply bind_error
  intro target located
  rw [missing true target located]
  exact ⟨_, rfl⟩

theorem unlink (missing : tree.Missing path) (permitted : Bool) :
    ∃ code, tree.unlink permitted path = .error code := by
  apply bind_error
  intro target located
  rw [missing false target located]
  exact ⟨_, rfl⟩

theorem rmdir (missing : tree.Missing path) (permitted : Bool) :
    ∃ code, tree.rmdir permitted path = .error code := by
  apply bind_error
  intro target located
  rw [missing false target located]
  exact ⟨_, rfl⟩

end Missing

end FileTree

end Posix
