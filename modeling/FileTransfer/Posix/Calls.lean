import FileTransfer.Foundation.Fallible
import FileTransfer.Posix.Resolution

/-! # File system calls

The calls a file server makes, as functions on a tree. What the tree alone does
not decide is asked of the caller: whether the system permits a call, how much
of a write reaches the disk, in which order a directory is read, how large a
directory says it is.
-/

namespace Posix

open Foundation

inductive FileKind
  | regular
  | directory
  | link
  | other
deriving DecidableEq

def Node.kind : Node → FileKind
  | .file _ => .regular
  | .dir => .directory
  | .link _ => .link
  | .other => .other

structure Dirent where
  name : Bytes
  kind : FileKind
deriving DecidableEq

structure Stat where
  kind : FileKind
  size : Nat
deriving DecidableEq

/-- How writing a whole file fares: whether it opens, how many bytes `fwrite`
accepts, and how many of those are on disk once it is closed. `none` is all. -/
structure WriteOutcome where
  opens : Bool := true
  accepts : Option Nat := none
  keeps : Option Nat := none
deriving DecidableEq

namespace WriteOutcome

def accepted (outcome : WriteOutcome) (stream : Bytes) : Bytes :=
  stream.take (outcome.accepts.getD stream.length)

def kept (outcome : WriteOutcome) (stream : Bytes) : Bytes :=
  (outcome.accepted stream).take (outcome.keeps.getD stream.length)

theorem accepted_length_eq_iff (outcome : WriteOutcome) (stream : Bytes) :
    (outcome.accepted stream).length = stream.length ↔ outcome.accepted stream = stream := by
  have isPrefix : outcome.accepted stream <+: stream := List.take_prefix _ _
  exact ⟨fun same => isPrefix.eq_of_length same, fun same => by rw [same]⟩

theorem kept_ne_nil {outcome : WriteOutcome} {stream other : Bytes}
    (kept : outcome.kept stream ≠ []) (nonempty : other ≠ []) : outcome.kept other ≠ [] := by
  rw [WriteOutcome.kept, accepted, List.take_take, ne_eq, List.take_eq_nil_iff] at kept ⊢
  rw [not_or, Nat.min_eq_zero_iff, not_or] at kept ⊢
  have length := List.length_pos_of_ne_nil nonempty
  refine ⟨⟨?_, ?_⟩, nonempty⟩
  · cases keeps : outcome.keeps with
    | none => exact length.ne'
    | some count => simpa [keeps] using kept.1.1
  · cases accepts : outcome.accepts with
    | none => exact length.ne'
    | some count => simpa [accepts] using kept.1.2

def smooth : WriteOutcome := {}

@[simp] theorem accepted_smooth (stream : Bytes) : smooth.accepted stream = stream := by
  simp [smooth, accepted]

@[simp] theorem kept_smooth (stream : Bytes) : smooth.kept stream = stream := by
  simp [kept, show smooth.keeps = none from rfl]

end WriteOutcome

/-- What comes of a call of `calloc`. A build with the address sanitizer ends the process where
the size is too large. -/
inductive Allocation
  | granted
  | refused
  | aborts
deriving DecidableEq

/-- How a directory or a device that is open for reading answers `fseek` and `ftell`, and
what comes of allocating a buffer of the size it tells. -/
structure SpecialFile where
  seeks : Bool := true
  tells : Option Nat := some 0
  allocation : Allocation := .granted
deriving DecidableEq

def SpecialFile.Overstates (special : SpecialFile) : Prop :=
  special.seeks = true ∧ special.tells ≠ none ∧
    (special.allocation = .aborts ∨ special.allocation = .granted ∧ special.tells ≠ some 0)

instance (special : SpecialFile) : Decidable special.Overstates := by
  unfold SpecialFile.Overstates
  infer_instance

structure ReadOutcome where
  opens : Bool := true
  allocates : Bool := true
  whole : Bool := true
  special : Location → SpecialFile := fun _ => {}

structure ReadHandle where
  seeks : Bool
  tells : Option Nat
  allocation : Allocation
  bytes : Bytes
deriving DecidableEq

namespace ReadOutcome

/-- What `fread` delivers. If that is less than there is, how much it is does not matter. -/
def delivered (outcome : ReadOutcome) (content : Bytes) : Bytes :=
  if outcome.whole then content else content.dropLast

theorem delivered_length_eq_iff (outcome : ReadOutcome) (content : Bytes) :
    (outcome.delivered content).length = content.length ↔ outcome.delivered content = content := by
  have isPrefix : outcome.delivered content <+: content := by
    rw [delivered]
    split
    · exact List.prefix_refl content
    · exact List.dropLast_prefix content
  exact ⟨fun same => isPrefix.eq_of_length same, fun same => by rw [same]⟩

theorem delivered_eq_iff (outcome : ReadOutcome) (content : Bytes) :
    outcome.delivered content = content ↔ outcome.whole = true ∨ content = [] := by
  rw [delivered]
  cases outcome.whole with
  | true => simp
  | false =>
      cases content with
      | nil => simp
      | cons byte bytes =>
          have shorter : (byte :: bytes).dropLast.length ≠ (byte :: bytes).length := by simp
          simp only [Bool.false_eq_true, if_false, false_or, List.cons_ne_nil, iff_false]
          exact fun same => shorter (congrArg List.length same)

/-- Nothing can be read from a directory, nor from a device. -/
def handle (outcome : ReadOutcome) (location : Location) : Node → ReadHandle
  | .file content =>
      ⟨true, some content.length, if outcome.allocates then .granted else .refused,
        outcome.delivered content⟩
  | _ =>
      let special := outcome.special location
      ⟨special.seeks, special.tells, special.allocation, []⟩

structure Reads (outcome : ReadOutcome) (content : Bytes) : Prop where
  opens : outcome.opens = true
  allocates : outcome.allocates = true
  delivers : outcome.delivered content = content

instance (outcome : ReadOutcome) (content : Bytes) : Decidable (outcome.Reads content) :=
  decidable_of_iff (outcome.opens = true ∧ outcome.allocates = true ∧
      outcome.delivered content = content)
    ⟨fun ⟨opens, allocates, delivers⟩ => ⟨opens, allocates, delivers⟩,
      fun ⟨opens, allocates, delivers⟩ => ⟨opens, allocates, delivers⟩⟩

structure Smooth (outcome : ReadOutcome) : Prop where
  opens : outcome.opens = true
  allocates : outcome.allocates = true
  whole : outcome.whole = true

theorem Smooth.reads {outcome : ReadOutcome} (smooth : outcome.Smooth) (content : Bytes) :
    outcome.Reads content where
  opens := smooth.opens
  allocates := smooth.allocates
  delivers := (outcome.delivered_eq_iff content).mpr (.inl smooth.whole)

end ReadOutcome

namespace FileTree

def stat (dirSize : Location → Nat) (tree : FileTree) (path : Bytes) :
    Except Errno Stat := do
  let target ← tree.locate true path
  match tree.get target.location with
  | some (.file content) => return ⟨.regular, content.length⟩
  | some .dir => return ⟨.directory, dirSize target.location⟩
  | some node => return ⟨node.kind, 0⟩
  | none => throw .noEntry

def openRead (outcome : ReadOutcome) (tree : FileTree) (path : Bytes) :
    Except Errno ReadHandle := do
  let target ← tree.locate true path
  match tree.get target.location with
  | some node =>
      if outcome.opens then return outcome.handle target.location node else throw .refused
  | none => throw .noEntry

/-- `fopen(path, "w")`, one `fwrite` and `fclose`; the bytes that `fwrite` took
are reported. Sockets, pipes and devices swallow what is written. -/
def writeFile (outcome : WriteOutcome) (tree : FileTree) (path stream : Bytes) :
    Except Errno (Nat × FileTree) := do
  let target ← tree.locate true path
  if outcome.opens = false then throw .refused
  match tree.get target.location with
  | some .dir => throw .isDir
  | some .other => return ((outcome.accepted stream).length, tree)
  | _ => return ((outcome.accepted stream).length,
      tree.put target.location (.file (outcome.kept stream)))

def mkdir (permitted : Bool) (tree : FileTree) (path : Bytes) :
    Except Errno FileTree := do
  match ← tree.locate false path with
  | .node _ => throw .exists
  | .slot location => if permitted then return tree.put location .dir else throw .refused

def unlink (permitted : Bool) (tree : FileTree) (path : Bytes) :
    Except Errno FileTree := do
  let target ← tree.locate false path
  match tree.get target.location with
  | none => throw .noEntry
  | some .dir => throw .isDir
  | some _ => if permitted then return tree.remove target.location else throw .refused

def rmdir (permitted : Bool) (tree : FileTree) (path : Bytes) :
    Except Errno FileTree := do
  let target ← tree.locate false path
  match tree.get target.location with
  | none => throw .noEntry
  | some .dir =>
      if target.location = [] then throw .busy
      else if tree.children target.location ≠ [] then throw .notEmpty
      else if permitted then return tree.remove target.location
      else throw .refused
  | some _ => throw .notDir

def dirents (tree : FileTree) (directory : Location) : List Dirent :=
  ⟨dot, .directory⟩ :: ⟨dotDot, .directory⟩ ::
    (tree.children directory).map fun name =>
      ⟨name.bytes, ((tree.get (name :: directory)).map Node.kind).getD .other⟩

def readDirectory (permitted : Bool) (order : Arrangement Dirent) (tree : FileTree)
    (path : Bytes) : Except Errno (List Dirent) := do
  let target ← tree.locate true path
  match tree.get target.location with
  | some .dir =>
      if permitted then return order.arrange (tree.dirents target.location)
      else throw .refused
  | some _ => throw .notDir
  | none => throw .noEntry

/-! ## What each call can do -/

theorem openRead_ok {outcome : ReadOutcome} {tree : FileTree} {path : Bytes}
    {handle : ReadHandle} (opened : tree.openRead outcome path = .ok handle) :
    ∃ target node, tree.locate true path = .ok target ∧ outcome.opens = true ∧
      tree.get target.location = some node ∧
      handle = outcome.handle target.location node := by
  rcases Fallible.ok_of_bind_ok opened with ⟨target, located, opened⟩
  split at opened
  · rename_i node found
    split at opened <;> cases opened
    exact ⟨target, node, located, ‹_›, found, rfl⟩
  · cases opened

theorem stat_file {tree : FileTree} {path content : Bytes} {target : Target}
    (dirSize : Location → Nat) (located : tree.locate true path = .ok target)
    (found : tree.get target.location = some (.file content)) :
    tree.stat dirSize path = .ok ⟨.regular, content.length⟩ := by
  simp only [stat, located, bind, Except.bind, found]
  rfl

theorem stat_dir {tree : FileTree} {path : Bytes} {target : Target}
    (dirSize : Location → Nat) (located : tree.locate true path = .ok target)
    (isDir : tree.get target.location = some .dir) :
    tree.stat dirSize path = .ok ⟨.directory, dirSize target.location⟩ := by
  simp only [stat, located, bind, Except.bind, isDir]
  rfl

theorem stat_other {tree : FileTree} {path : Bytes} {target : Target}
    (dirSize : Location → Nat) (located : tree.locate true path = .ok target)
    (found : tree.get target.location = some .other) :
    tree.stat dirSize path = .ok ⟨.other, 0⟩ := by
  simp only [stat, located, bind, Except.bind, found]
  rfl

theorem stat_regular {tree : FileTree} {path : Bytes} {stat : Stat} {dirSize : Location → Nat}
    (known : tree.stat dirSize path = .ok stat) (regular : stat.kind = .regular) :
    ∃ target content, tree.locate true path = .ok target ∧
      tree.get target.location = some (.file content) := by
  rcases Fallible.ok_of_bind_ok known with ⟨target, located, known⟩
  refine ⟨target, ?_⟩
  split at known
  · rename_i content found
    exact ⟨content, located, found⟩
  · cases known
    cases regular
  · rename_i node notFile notDir found
    cases known
    cases node with
    | file content => exact absurd rfl (notFile content)
    | dir => exact absurd rfl notDir
    | link text => cases regular
    | other => cases regular
  · cases known

theorem writeFile_ok {outcome : WriteOutcome} {tree after : FileTree}
    {path stream : Bytes} {count : Nat}
    (wrote : tree.writeFile outcome path stream = .ok (count, after)) :
    ∃ target, tree.locate true path = .ok target ∧ outcome.opens = true ∧
      count = (outcome.accepted stream).length ∧
      tree.get target.location ≠ some .dir ∧
      (tree.get target.location = some .other ∧ after = tree ∨
        tree.get target.location ≠ some .other ∧
          after = tree.put target.location (.file (outcome.kept stream))) := by
  simp only [writeFile] at wrote
  cases located : tree.locate true path with
  | error code => simp [located, bind, Except.bind] at wrote
  | ok target =>
      refine ⟨target, rfl, ?_⟩
      simp only [located, bind, Except.bind] at wrote
      split at wrote
      · cases wrote
      · rename_i opened
        have opens : outcome.opens = true := by simpa using opened
        refine ⟨opens, ?_⟩
        split at wrote
        · cases wrote
        · rename_i found
          cases wrote
          exact ⟨rfl, by simp [found], .inl ⟨found, rfl⟩⟩
        · rename_i notDir notOther
          cases wrote
          exact ⟨rfl, notDir, .inr ⟨notOther, rfl⟩⟩

theorem writeFile_eq {outcome : WriteOutcome} {tree : FileTree} {path stream : Bytes}
    {target : Target} (located : tree.locate true path = .ok target)
    (opens : outcome.opens = true) (notDir : tree.get target.location ≠ some .dir) :
    tree.writeFile outcome path stream = .ok ((outcome.accepted stream).length,
      if tree.get target.location = some .other then tree
      else tree.put target.location (.file (outcome.kept stream))) := by
  simp only [writeFile, located, bind, Except.bind, opens, Bool.true_eq_false, if_false]
  cases found : tree.get target.location with
  | none => rfl
  | some node =>
      cases node with
      | dir => exact absurd found notDir
      | file content => rfl
      | link text => rfl
      | other => rfl

theorem writeFile_refused {outcome : WriteOutcome} {tree : FileTree} {path : Bytes}
    (stream : Bytes) {target : Target} (located : tree.locate true path = .ok target)
    (closed : outcome.opens = false) :
    tree.writeFile outcome path stream = .error .refused := by
  simp only [writeFile, located, closed, bind, Except.bind, if_true]
  rfl

theorem openRead_eq {tree : FileTree} {path : Bytes} {target : Target} {node : Node}
    (outcome : ReadOutcome) (located : tree.locate true path = .ok target)
    (found : tree.get target.location = some node) :
    tree.openRead outcome path =
      if outcome.opens then .ok (outcome.handle target.location node)
      else .error .refused := by
  simp only [openRead, located, bind, Except.bind, found]
  rfl

theorem writeFile_dir {outcome : WriteOutcome} {tree : FileTree} {path : Bytes}
    (stream : Bytes) {target : Target} (located : tree.locate true path = .ok target)
    (opens : outcome.opens = true) (isDir : tree.get target.location = some .dir) :
    tree.writeFile outcome path stream = .error .isDir := by
  simp only [writeFile, located, opens, isDir, bind, Except.bind, Bool.true_eq_false, if_false]
  rfl

theorem canHold_of_located {tree : FileTree} {path : Bytes} {target : Target}
    (located : tree.locate true path = .ok target)
    (notDir : tree.get target.location ≠ some .dir) : tree.CanHold target.location := by
  have delivered := locate_delivered located
  cases target with
  | slot place => exact delivered.2
  | node place =>
      rcases delivered with ⟨node, found, _⟩ | ⟨impossible, _⟩
      · cases place with
        | nil => exact absurd tree.get_root notDir
        | cons name parent => exact ⟨parent_of_get found, notDir⟩
      · cases impossible

theorem mkdir_ok {permitted : Bool} {tree after : FileTree} {path : Bytes}
    (made : tree.mkdir permitted path = .ok after) :
    ∃ location, tree.locate false path = .ok (.slot location) ∧
      after = tree.put location .dir := by
  simp only [mkdir] at made
  cases located : tree.locate false path with
  | error code => simp [located, bind, Except.bind] at made
  | ok target =>
      simp only [located, bind, Except.bind] at made
      cases target with
      | node location => cases made
      | slot location =>
          refine ⟨location, rfl, ?_⟩
          simp only at made
          split at made <;> cases made
          rfl

theorem mkdir_slot {tree : FileTree} {path : Bytes} {location : Location} (permitted : Bool)
    (located : tree.locate false path = .ok (.slot location)) :
    tree.mkdir permitted path =
      if permitted then .ok (tree.put location .dir) else .error .refused := by
  simp only [mkdir, located, bind, Except.bind]
  rfl

theorem mkdir_node {tree : FileTree} {path : Bytes} {location : Location} (permitted : Bool)
    (located : tree.locate false path = .ok (.node location)) :
    tree.mkdir permitted path = .error .exists := by
  simp only [mkdir, located, bind, Except.bind]
  rfl

theorem unlink_file {tree : FileTree} {path content : Bytes} {target : Target}
    (permitted : Bool) (located : tree.locate false path = .ok target)
    (found : tree.get target.location = some (.file content)) :
    tree.unlink permitted path =
      if permitted then .ok (tree.remove target.location) else .error .refused := by
  simp only [unlink, located, bind, Except.bind, found]
  rfl

theorem rmdir_dir {tree : FileTree} {path : Bytes} {target : Target} (permitted : Bool)
    (located : tree.locate false path = .ok target)
    (isDir : tree.get target.location = some .dir) :
    tree.rmdir permitted path =
      if target.location = [] then .error .busy
      else if tree.children target.location ≠ [] then .error .notEmpty
      else if permitted then .ok (tree.remove target.location) else .error .refused := by
  simp only [rmdir, located, bind, Except.bind, isDir]
  rfl

theorem unlink_ok {permitted : Bool} {tree after : FileTree} {path : Bytes}
    (removed : tree.unlink permitted path = .ok after) :
    ∃ target, tree.locate false path = .ok target ∧ tree.get target.location ≠ none ∧
      tree.get target.location ≠ some .dir ∧ after = tree.remove target.location := by
  rcases Fallible.ok_of_bind_ok removed with ⟨target, located, removed⟩
  refine ⟨target, located, ?_⟩
  split at removed
  · cases removed
  · cases removed
  · rename_i notDir found
    split at removed <;> cases removed
    refine ⟨by simp [found], ?_, rfl⟩
    rw [found]
    intro isDir
    exact notDir (Option.some.inj isDir)

theorem rmdir_ok {permitted : Bool} {tree after : FileTree} {path : Bytes}
    (removed : tree.rmdir permitted path = .ok after) :
    ∃ target, tree.locate false path = .ok target ∧
      tree.get target.location = some .dir ∧ target.location ≠ [] ∧
      tree.children target.location = [] ∧ after = tree.remove target.location := by
  rcases Fallible.ok_of_bind_ok removed with ⟨target, located, removed⟩
  refine ⟨target, located, ?_⟩
  split at removed
  · cases removed
  · rename_i isDir
    split at removed
    · cases removed
    rename_i notRoot
    split at removed
    · cases removed
    rename_i empty
    split at removed <;> cases removed
    exact ⟨isDir, notRoot, not_not.mp empty, rfl⟩
  · cases removed

theorem readDirectory_ok {permitted : Bool} {order : Arrangement Dirent} {tree : FileTree}
    {path : Bytes} {entries : List Dirent}
    (read : tree.readDirectory permitted order path = .ok entries) :
    ∃ target, tree.locate true path = .ok target ∧ permitted = true ∧
      tree.get target.location = some .dir ∧
      entries = order.arrange (tree.dirents target.location) := by
  simp only [readDirectory] at read
  cases located : tree.locate true path with
  | error code => simp [located, bind, Except.bind] at read
  | ok target =>
      refine ⟨target, rfl, ?_⟩
      simp only [located, bind, Except.bind] at read
      split at read
      · rename_i isDir
        split at read
        · rename_i allowed
          cases read
          exact ⟨allowed, isDir, rfl⟩
        · cases read
      · cases read
      · cases read

theorem readDirectory_dir {tree : FileTree} {path : Bytes} {target : Target} (permitted : Bool)
    (order : Arrangement Dirent) (located : tree.locate true path = .ok target)
    (isDir : tree.get target.location = some .dir) :
    tree.readDirectory permitted order path =
      if permitted then .ok (order.arrange (tree.dirents target.location))
      else .error .refused := by
  simp only [readDirectory, located, bind, Except.bind, isDir]
  rfl

/-! ## What a path exposes to writers -/

/-- The places that `path` leads writers to: the node that opening it for writing
opens or creates, and the node that `mkdir` creates. Neither call touches a
directory that exists. -/
inductive Touched (tree : FileTree) (path : Bytes) : Location → Prop
  | opened (target : Target) (located : tree.locate true path = .ok target)
      (notDir : tree.get target.location ≠ some .dir) : Touched tree path target.location
  | made (location : Location) (located : tree.locate false path = .ok (.slot location)) :
      Touched tree path location

theorem writeFile_touched {outcome : WriteOutcome} {tree after : FileTree}
    {path stream : Bytes} {count : Nat}
    (wrote : tree.writeFile outcome path stream = .ok (count, after)) :
    AgreeOff (tree.Touched path) tree after := by
  rcases writeFile_ok wrote with ⟨target, located, _, _, notDir, ⟨_, rfl⟩ | ⟨_, rfl⟩⟩
  · exact .refl _ _
  · refine (tree.agreeOff_put _ _).mono fun place same => ?_
    subst same
    exact .opened target located notDir

theorem mkdir_touched {permitted : Bool} {tree after : FileTree} {path : Bytes}
    (made : tree.mkdir permitted path = .ok after) :
    AgreeOff (tree.Touched path) tree after := by
  rcases mkdir_ok made with ⟨location, located, rfl⟩
  refine (tree.agreeOff_put _ _).mono fun place same => ?_
  subst same
  exact .made _ located

/-- Below a canonical path one component exposes nothing, unless it is a name in a
directory: `.` and `..` lead to directories, and nothing lies below a file. -/
theorem touched_below {tree : FileTree} {above location : Location} {last : Bytes}
    (solid : tree.Solid above) (noSlash : slash ∉ last)
    (short : (render above ++ slash :: last).length < pathMax)
    (touched : tree.Touched (render above ++ slash :: last) location) :
    tree.get above = some .dir ∧ ∃ name : Name, last = name.bytes := by
  have located : ∀ followLast, tree.locate followLast (render above ++ slash :: last) =
      tree.walk followLast maxLinks above [.ofBytes last] := by
    intro followLast
    rw [locate_below _ solid last short, components_of_not_mem noSlash]
  by_cases isDir : tree.get above = some .dir
  · have upDir := dir_tail isDir
    refine ⟨isDir, ?_⟩
    cases last' : Component.ofBytes last with
    | name name => exact ⟨name, Component.bytes_of_ofBytes last'⟩
    | here | up | unusable =>
        cases touched with
        | opened target found notDir =>
            rw [located, last'] at found
            simp only [maxLinks, walk, walkFrom, isDir, ne_eq, not_true, if_false] at found
            cases found <;> contradiction
        | made place found =>
            rw [located, last'] at found
            simp only [maxLinks, walk, walkFrom, isDir, ne_eq, not_true, if_false] at found
            cases found
  · cases touched with
    | opened target found notDir =>
        rw [located] at found
        simp [maxLinks, walk, walkFrom, isDir] at found
    | made place found =>
        rw [located] at found
        simp [maxLinks, walk, walkFrom, isDir] at found

theorem touched_entry_iff {tree : FileTree} {directory location : Location} {name : Name}
    (isDir : tree.get directory = some .dir)
    (short : (render directory ++ slash :: name.bytes).length < pathMax) :
    tree.Touched (render directory ++ slash :: name.bytes) location ↔
      (tree.get (name :: directory) ≠ some .dir ∧
          (∀ text, tree.get (name :: directory) ≠ some (.link text)) ∧
          location = name :: directory) ∨
        ∃ text target, tree.get (name :: directory) = some (.link text) ∧
          tree.follow directory text = .ok target ∧ target.location = location ∧
          tree.get location ≠ some .dir := by
  have through := locate_below true (solid_of_dir isDir) name.bytes short
  have onto := locate_below false (solid_of_dir isDir) name.bytes short
  rw [components_of_not_mem name.noSlash, Component.ofBytes_name] at through onto
  rw [walk_entry name isDir] at through
  rw [walk_entry_self name isDir] at onto
  constructor
  · intro touched
    cases touched with
    | opened target located notDir =>
        rw [through] at located
        split at located
        · rename_i absent
          cases located
          exact .inl ⟨by simp [absent], by simp [absent], rfl⟩
        · rename_i text found
          exact .inr ⟨text, target, found, located, rfl, notDir⟩
        · rename_i node notLink found
          cases located
          exact .inl ⟨notDir, fun text isLink => notLink text (by
            rw [found] at isLink
            exact Option.some.inj isLink), rfl⟩
    | made place located =>
        rw [onto] at located
        split at located
        · rename_i absent
          cases located
          exact .inl ⟨by simp [absent], by simp [absent], rfl⟩
        · cases located
  · rintro (⟨notDir, notLink, rfl⟩ | ⟨text, target, found, follows, rfl, notDir⟩)
    · have reached : ∃ target, tree.locate true (render directory ++ slash :: name.bytes) =
          .ok target ∧ target.location = name :: directory := by
        rw [through]
        split
        · exact ⟨_, rfl, rfl⟩
        · rename_i text found
          exact absurd found (notLink text)
        · exact ⟨_, rfl, rfl⟩
      rcases reached with ⟨target, located, place⟩
      have touched := Touched.opened target located (by rwa [place])
      rwa [place] at touched
    · refine .opened target ?_ notDir
      rw [through, found]
      exact follows

end FileTree

end Posix
