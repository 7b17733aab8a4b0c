import FileTransfer.Posix.Calls

/-! # Writing files does not move paths

When nothing happens to a tree but that regular files are created or written,
every path goes on denoting the place it denoted before.
-/

namespace Posix

open Foundation

namespace FileTree

/-- `after` differs from `before` in the contents of regular files and in
regular files that are new. -/
def Refilled (before after : FileTree) : Prop :=
  ∀ location, after.get location = before.get location ∨
    (∃ content, after.get location = some (.file content)) ∧
      (before.get location = none ∨
        ∃ content, before.get location = some (.file content))

namespace Refilled

variable {before middle after : FileTree}

theorem refl (tree : FileTree) : Refilled tree tree := fun _ => .inl rfl

theorem trans (early : Refilled before middle) (late : Refilled middle after) :
    Refilled before after := by
  intro location
  rcases early location with kept | ⟨⟨content, filled⟩, was⟩
  · rw [← kept]
    exact late location
  · rcases late location with kept | ⟨isFile, _⟩
    · exact .inr ⟨⟨content, kept.trans filled⟩, was⟩
    · exact .inr ⟨isFile, was⟩

theorem dir_iff (refilled : Refilled before after) (location : Location) :
    after.get location = some .dir ↔ before.get location = some .dir := by
  rcases refilled location with kept | ⟨⟨content, filled⟩, absent | ⟨old, wasFile⟩⟩
  · rw [kept]
  · simp [filled, absent]
  · simp [filled, wasFile]

def SamePlace (first second : Except Errno Target) : Prop :=
  first.toOption.map Target.location = second.toOption.map Target.location

theorem walkFrom_samePlace (refilled : Refilled before after) {followLast : Bool}
    {jump jump' : Location → List Component → Except Errno Target}
    (jumps : ∀ start path, SamePlace (jump start path) (jump' start path))
    (path : List Component) (current : Location) :
    SamePlace (before.walkFrom followLast jump current path)
      (after.walkFrom followLast jump' current path) := by
  induction path generalizing current with
  | nil => rfl
  | cons component rest induction =>
      simp only [walkFrom]
      by_cases isDir : before.get current = some .dir
      · have staysDir := (refilled.dir_iff current).mpr isDir
        simp only [isDir, staysDir, ne_eq, not_true, if_false]
        cases component with
        | here => exact induction current
        | up => exact induction current.tail
        | unusable => rfl
        | name name =>
            simp only
            rcases refilled (name :: current) with
              kept | ⟨⟨content, filled⟩, absent | ⟨old, wasFile⟩⟩
            · rw [kept]
              cases before.get (name :: current) with
              | none =>
                  simp only
                  split <;> rfl
              | some node =>
                  cases node with
                  | link text =>
                      simp only
                      split
                      · rfl
                      · split
                        · rfl
                        · exact jumps _ _
                  | file content => exact induction _
                  | dir => exact induction _
                  | other => exact induction _
            · simp only [absent, filled]
              -- A missing entry that is a file now: the same place in last
              -- position, no way through it in any other.
              cases rest with
              | nil => rfl
              | cons next rest => simp [walkFrom, filled, SamePlace, Except.toOption]
            · simp only [wasFile, filled]
              exact induction _
      · have staysOther := mt (refilled.dir_iff current).mp isDir
        simp only [ne_eq, isDir, staysOther, not_false_eq_true, if_true]
        rfl

theorem walk_samePlace (refilled : Refilled before after) {followLast : Bool}
    (links : Nat) (current : Location) (path : List Component) :
    SamePlace (before.walk followLast links current path)
      (after.walk followLast links current path) := by
  induction links generalizing current path with
  | zero => exact walkFrom_samePlace refilled (fun _ _ => rfl) path current
  | succ links induction =>
      exact walkFrom_samePlace refilled (fun start path => induction start path) path
        current

theorem locate_samePlace (refilled : Refilled before after) (followLast : Bool)
    (path : Bytes) :
    SamePlace (before.locate followLast path) (after.locate followLast path) := by
  simp only [locate]
  split
  · rfl
  · split
    · rfl
    · exact walk_samePlace refilled maxLinks [] _

theorem denotes_iff (refilled : Refilled before after) {path : Bytes}
    {location : Location} : after.Denotes path location ↔ before.Denotes path location := by
  have known : ∀ tree : FileTree, tree.Denotes path location ↔
      (tree.locate true path).toOption.map Target.location = some location := by
    intro tree
    cases found : tree.locate true path <;> simp [Denotes, found, Except.toOption]
  rw [known, known, refilled.locate_samePlace true path]

/-- A path goes on leading to its place, where a node may stand by now. -/
theorem locate_filled (refilled : Refilled before after) {path : Bytes} {target : Target}
    {node : Node} (located : before.locate true path = .ok target)
    (filled : after.get target.location = some node) :
    after.locate true path = .ok (.node target.location) := by
  have same := refilled.locate_samePlace true path
  rw [SamePlace, located] at same
  cases later : after.locate true path with
  | error code => simp [later, Except.toOption] at same
  | ok target' =>
      have samePlace : target.location = target'.location := by
        simpa [later, Except.toOption] using same
      cases target' with
      | node place => rw [samePlace, Target.location_node]
      | slot place =>
          have absent := (locate_delivered later).1
          rw [samePlace, Target.location_slot, absent] at filled
          cases filled

theorem locate_before (refilled : Refilled before after) {path : Bytes}
    {location : Location} (located : after.locate true path = .ok (.node location)) :
    ∃ target, before.locate true path = .ok target ∧ target.location = location := by
  have same := refilled.locate_samePlace true path
  rw [SamePlace, located] at same
  cases earlier : before.locate true path with
  | error code => simp [earlier, Except.toOption] at same
  | ok target => exact ⟨target, rfl, by simpa [earlier, Except.toOption] using same⟩

theorem realpath_eq (refilled : Refilled before after) {path canonical : Bytes}
    (found : before.realpath path = some canonical) :
    after.realpath path = some canonical := by
  rcases realpath_eq_some found with
    ⟨location, located, rfl, short, node, exists', notLink⟩
  have stays : ∃ node, after.get location = some node := by
    rcases refilled location with kept | ⟨⟨content, filled⟩, _⟩
    · exact ⟨node, kept.trans exists'⟩
    · exact ⟨_, filled⟩
  rcases stays with ⟨_, filled⟩
  rw [realpath, refilled.locate_filled located filled]
  exact if_pos short

end Refilled

theorem refilled_put {tree : FileTree} {place : Location} (content : Bytes)
    (free : tree.get place = none) (holds : tree.CanHold place) :
    Refilled tree (tree.put place (.file content)) := by
  intro location
  by_cases here : location = place
  · subst here
    exact .inr ⟨⟨content, get_put_self _ holds⟩, .inl free⟩
  · exact .inl (tree.get_put_ne _ here)

theorem writeFile_refilled {outcome : WriteOutcome} {tree after : FileTree}
    {path stream : Bytes} {count : Nat}
    (wrote : tree.writeFile outcome path stream = .ok (count, after)) :
    Refilled tree after ∧ AgreeOff (tree.Denotes path) tree after := by
  rcases writeFile_ok wrote with
    ⟨target, located, _, _, notDir, ⟨_, rfl⟩ | ⟨notOther, rfl⟩⟩
  · exact ⟨Refilled.refl _, AgreeOff.refl _ _⟩
  · refine ⟨?_, (tree.agreeOff_put _ _).mono fun place same => ⟨target, located, same.symm⟩⟩
    intro location
    by_cases same : location = target.location
    · subst same
      by_cases holds : tree.CanHold target.location
      · refine .inr ⟨⟨_, get_put_self _ holds⟩, ?_⟩
        have delivered := locate_delivered located
        cases target with
        | slot place => exact .inl delivered.1
        | node place =>
            rcases delivered with ⟨node, found, notLink⟩ | ⟨impossible, _⟩
            · cases node with
              | file content => exact .inr ⟨content, found⟩
              | dir => exact absurd found notDir
              | link text => exact absurd rfl (notLink text)
              | other => exact absurd found notOther
            · cases impossible
      · exact .inl (by simp [put, holds])
    · exact .inl (tree.get_put_ne _ same)

end FileTree

end Posix
