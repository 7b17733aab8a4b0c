import FileTransfer.Posix.FileTree

/-! # Pathname resolution

From a path to the node it denotes, through `.` and `..`, symbolic links and
missing entries. A path whose last component is missing still denotes a place,
the slot where a node can be created.
-/

namespace Posix

open Foundation

inductive Errno
  | noEntry
  | notDir
  | isDir
  | exists
  | notEmpty
  | loop
  | nameTooLong
  | busy
  /-- Permissions, a full disk, and whatever else the tree does not show. -/
  | refused
deriving DecidableEq

inductive Target
  | node (location : Location)
  | slot (location : Location)
deriving DecidableEq

namespace Target

def location : Target → Location
  | node location => location
  | slot location => location

@[simp] theorem location_node (place : Location) : (node place).location = place := rfl

@[simp] theorem location_slot (place : Location) : (slot place).location = place := rfl

end Target

namespace FileTree

def Solid (tree : FileTree) (location : Location) : Prop :=
  ∃ node, tree.get location = some node ∧ ∀ text, node ≠ .link text

theorem solid_of_dir {tree : FileTree} {location : Location}
    (isDir : tree.get location = some .dir) : tree.Solid location :=
  ⟨.dir, isDir, fun _ equal => nomatch equal⟩

theorem dir_tail {tree : FileTree} {location : Location}
    (isDir : tree.get location = some .dir) :
    tree.get location.tail = some .dir := by
  cases location with
  | nil => exact isDir
  | cons name parent => exact parent_of_get isDir

/-- Follow a path from the directory `current`. A link in the path is handed to
`jump`, which goes on with the components of its text and then with the rest.
A link in the last place is followed on demand only. -/
def walkFrom (tree : FileTree) (followLast : Bool)
    (jump : Location → List Component → Except Errno Target) :
    Location → List Component → Except Errno Target
  | current, [] => .ok (.node current)
  | current, component :: rest =>
      if tree.get current ≠ some .dir then .error .notDir
      else
        match component with
        | .here => tree.walkFrom followLast jump current rest
        | .up => tree.walkFrom followLast jump current.tail rest
        | .unusable => .error .nameTooLong
        | .name name =>
            match tree.get (name :: current) with
            | none =>
                if rest = [] then .ok (.slot (name :: current)) else .error .noEntry
            | some (.link text) =>
                if rest = [] ∧ followLast = false then .ok (.node (name :: current))
                else if text = [] then .error .noEntry
                else jump (if isAbsolute text then [] else current)
                  (components text ++ rest)
            | some _ => tree.walkFrom followLast jump (name :: current) rest

def walk (tree : FileTree) (followLast : Bool) :
    Nat → Location → List Component → Except Errno Target
  | 0 => tree.walkFrom followLast fun _ _ => .error .loop
  | links + 1 => tree.walkFrom followLast (tree.walk followLast links)

def maxLinks : Nat := 40

/-- What an absolute path denotes. Relative paths, which depend on a working
directory, denote nothing here. -/
def locate (tree : FileTree) (followLast : Bool) (path : Bytes) :
    Except Errno Target :=
  if pathMax ≤ path.length then .error .nameTooLong
  else if isAbsolute path = false then .error .noEntry
  else tree.walk followLast maxLinks [] (components path)

def realpath (tree : FileTree) (path : Bytes) : Option Bytes :=
  match tree.locate true path with
  | .ok (.node location) =>
      if (render location).length < pathMax then some (render location) else none
  | _ => none

def Denotes (tree : FileTree) (path : Bytes) (location : Location) : Prop :=
  ∃ target, tree.locate true path = .ok target ∧ target.location = location

theorem denotes_unique {tree : FileTree} {path : Bytes} {first second : Location}
    (leadsFirst : tree.Denotes path first) (leadsSecond : tree.Denotes path second) :
    first = second := by
  rcases leadsFirst with ⟨target, found, rfl⟩
  rcases leadsSecond with ⟨other, found', rfl⟩
  rw [found] at found'
  cases found'
  rfl

/-! ## What a resolution can deliver -/

def Delivered (tree : FileTree) (followLast : Bool) : Target → Prop
  | .node location =>
      tree.Solid location ∨
        (followLast = false ∧ ∃ text, tree.get location = some (.link text))
  | .slot location => tree.get location = none ∧ tree.CanHold location

theorem walkFrom_delivered {tree : FileTree} {followLast : Bool}
    {jump : Location → List Component → Except Errno Target}
    (jumpDelivered : ∀ start components target,
      tree.Solid start → jump start components = .ok target →
      tree.Delivered followLast target)
    {path : List Component} {current : Location} {target : Target}
    (solid : tree.Solid current)
    (reached : tree.walkFrom followLast jump current path = .ok target) :
    tree.Delivered followLast target := by
  induction path generalizing current with
  | nil =>
      simp only [walkFrom, Except.ok.injEq] at reached
      subst reached
      exact .inl solid
  | cons component rest induction =>
      simp only [walkFrom] at reached
      split at reached
      · cases reached
      · rename_i isDir
        rw [not_not] at isDir
        split at reached
        · exact induction solid reached
        · exact induction (solid_of_dir (dir_tail isDir)) reached
        · cases reached
        · rename_i name
          split at reached
          · rename_i absent
            split at reached
            · cases reached
              exact ⟨absent, isDir, by simp [absent]⟩
            · cases reached
          · rename_i text link
            split at reached
            · rename_i kept
              cases reached
              exact .inr ⟨kept.2, text, link⟩
            · split at reached
              · cases reached
              · refine jumpDelivered _ _ _ ?_ reached
                split
                · exact solid_of_dir tree.get_root
                · exact solid
          · rename_i node notLink found
            refine induction ⟨node, found, fun text equal => ?_⟩ reached
            exact notLink text equal

theorem walk_delivered {tree : FileTree} {followLast : Bool} {links : Nat}
    {path : List Component} {current : Location} {target : Target}
    (solid : tree.Solid current)
    (reached : tree.walk followLast links current path = .ok target) :
    tree.Delivered followLast target := by
  induction links generalizing current path target with
  | zero =>
      refine walkFrom_delivered (fun _ _ _ _ looped => ?_) solid reached
      cases looped
  | succ links induction =>
      refine walkFrom_delivered (fun _ _ _ start jumped => ?_) solid reached
      exact induction start jumped

theorem locate_delivered {tree : FileTree} {followLast : Bool} {path : Bytes}
    {target : Target} (found : tree.locate followLast path = .ok target) :
    tree.Delivered followLast target := by
  simp only [locate] at found
  split at found
  · cases found
  · split at found
    · cases found
    · exact walk_delivered (solid_of_dir tree.get_root) found

theorem realpath_eq_some {tree : FileTree} {path canonical : Bytes}
    (found : tree.realpath path = some canonical) :
    ∃ location, tree.locate true path = .ok (.node location) ∧
      canonical = render location ∧ (render location).length < pathMax ∧
      tree.Solid location := by
  simp only [realpath] at found
  split at found
  · rename_i location located
    split at found
    · rename_i short
      cases found
      refine ⟨location, located, rfl, short, ?_⟩
      rcases locate_delivered located with solid | ⟨impossible, _⟩
      · exact solid
      · cases impossible
    · cases found
  · cases found

/-! ## Walking through directories -/

/-- Names that lead to a node other than a link are walked without regard to
links. -/
theorem walkFrom_names {tree : FileTree} {followLast : Bool}
    {jump : Location → List Component → Except Errno Target}
    (names : List Name) (current : Location) (rest : List Component)
    (solid : tree.Solid (names.reverse ++ current)) :
    tree.walkFrom followLast jump current (names.map .name ++ rest) =
      tree.walkFrom followLast jump (names.reverse ++ current) rest := by
  induction names generalizing current with
  | nil => rfl
  | cons name names induction =>
      rw [List.reverse_cons, List.append_assoc] at solid
      have nextSolid : tree.Solid (name :: current) := by
        by_cases arrived : names = []
        · simpa [arrived] using solid
        · rcases solid with ⟨node, found, _⟩
          refine solid_of_dir (dir_above ⟨⟨names.reverse, rfl⟩, ?_⟩ found)
          intro equal
          have sameLength := congrArg List.length equal
          have positive := List.length_pos_iff.mpr arrived
          simp only [List.length_append, List.length_reverse, List.length_cons]
            at sameLength
          omega
      rcases nextSolid with ⟨node, found, notLink⟩
      rw [List.map_cons, List.cons_append, walkFrom, if_neg (by simp [parent_of_get found]),
        List.reverse_cons, List.append_assoc]
      have onwards : tree.walkFrom followLast jump (name :: current)
          (names.map .name ++ rest) =
          tree.walkFrom followLast jump (names.reverse ++ ([name] ++ current)) rest :=
        induction (name :: current) solid
      cases node with
      | link text => exact absurd rfl (notLink text)
      | file content => simpa only [found] using onwards
      | dir => simpa only [found] using onwards
      | other => simpa only [found] using onwards

theorem walk_names {tree : FileTree} (followLast : Bool) (links : Nat)
    (names : List Name) (current : Location) (rest : List Component)
    (solid : tree.Solid (names.reverse ++ current)) :
    tree.walk followLast links current (names.map .name ++ rest) =
      tree.walk followLast links (names.reverse ++ current) rest := by
  cases links <;> exact walkFrom_names names current rest solid

theorem walk_here {tree : FileTree} {followLast : Bool} (links : Nat)
    {current : Location} (rest : List Component)
    (isDir : tree.get current = some .dir) :
    tree.walk followLast links current (.here :: rest) =
      tree.walk followLast links current rest := by
  cases links <;> simp [walk, walkFrom, isDir]

theorem walk_render {tree : FileTree} (followLast : Bool) (links : Nat)
    {location : Location} (rest : List Component) (solid : tree.Solid location) :
    tree.walk followLast links [] (components (render location) ++ rest) =
      tree.walk followLast links location rest := by
  rw [components_render, List.cons_append, walk_here links _ tree.get_root]
  by_cases isRoot : location = []
  · subst isRoot
    simpa using walk_here links rest tree.get_root
  · have through := walk_names followLast links location.reverse [] rest
      (by simpa using solid)
    simpa [isRoot] using through

theorem locate_below {tree : FileTree} (followLast : Bool) {location : Location}
    (solid : tree.Solid location) (path : Bytes)
    (short : (render location ++ slash :: path).length < pathMax) :
    tree.locate followLast (render location ++ slash :: path) =
      tree.walk followLast maxLinks location (components path) := by
  rw [locate, if_neg (by omega), isAbsolute_append (isAbsolute_render location),
    if_neg (by simp), components_append_slash, walk_render _ maxLinks _ solid]

theorem locate_render {tree : FileTree} (followLast : Bool) {location : Location}
    (solid : tree.Solid location)
    (short : (render location).length < pathMax) :
    tree.locate followLast (render location) = .ok (.node location) := by
  have arrived := walk_render followLast maxLinks [] solid
  rw [List.append_nil] at arrived
  rw [locate, if_neg (by omega), isAbsolute_render, if_neg (by simp), arrived]
  rfl

def follow (tree : FileTree) (directory : Location) (text : Bytes) :
    Except Errno Target :=
  if text = [] then .error .noEntry
  else tree.walk true (maxLinks - 1) (if isAbsolute text then [] else directory)
    (components text)

theorem walk_entry {tree : FileTree} {directory : Location} (name : Name)
    (isDir : tree.get directory = some .dir) :
    tree.walk true maxLinks directory [.name name] =
      match tree.get (name :: directory) with
      | none => .ok (.slot (name :: directory))
      | some (.link text) => tree.follow directory text
      | some _ => .ok (.node (name :: directory)) := by
  rw [maxLinks, walk, walkFrom, if_neg (by simp [isDir])]
  cases tree.get (name :: directory) with
  | none => rfl
  | some node =>
      cases node with
      | link text => simp [follow, maxLinks]
      | file content => rfl
      | dir => rfl
      | other => rfl

theorem walk_missing {tree : FileTree} (links : Nat) {directory : Location} {name : Name}
    (isDir : tree.get directory = some .dir) (missing : tree.get (name :: directory) = none) :
    tree.walk true links directory [.name name] = .ok (.slot (name :: directory)) := by
  cases links <;> simp [walk, walkFrom, isDir, missing]

theorem walk_entry_self {tree : FileTree} {directory : Location} (name : Name)
    (isDir : tree.get directory = some .dir) :
    tree.walk false maxLinks directory [.name name] =
      if tree.get (name :: directory) = none then .ok (.slot (name :: directory))
      else .ok (.node (name :: directory)) := by
  rw [maxLinks, walk, walkFrom, if_neg (by simp [isDir])]
  cases tree.get (name :: directory) with
  | none => rfl
  | some node => cases node <;> rfl

end FileTree

end Posix
