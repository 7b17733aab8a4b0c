import FileTransfer.Posix.PlainPaths
import FileTransfer.Server.Paths

/-! # Where checked paths lead later
A path is checked against the home directory first and used afterwards, and between the two
other workers may have created and removed what they like. As long as there are no links
where the check lets paths lead, they go on leading there.
-/

namespace FileTransfer

open Foundation Posix

/-- What the comparison with the home directory lets through: what is at home, and what is
in a directory beside it whose name only begins like its name. -/
def HomeAdmits (home location : Location) : Prop := render home <+: render location

instance (home location : Location) : Decidable (HomeAdmits home location) := by
  unfold HomeAdmits
  infer_instance

theorem admitted_root (location : Location) : HomeAdmits [] location :=
  AtOrBelow.render_prefix (List.nil_suffix)

theorem admitted_entry {home directory : Location} {name : Name}
    (within : render home <+: render directory ++ slash :: name.bytes) :
    HomeAdmits home (name :: directory) := by
  by_cases isRoot : directory = []
  · cases home with
    | nil => exact admitted_root _
    | cons last above =>
        rw [isRoot] at within
        exact absurd within (not_render_prefix_root last name above)
  · rw [HomeAdmits, render_cons isRoot]
    exact within

def Unlinked (home : Location) (tree : FileTree) : Prop :=
  ∀ location text, HomeAdmits home location → tree.get location ≠ some (.link text)

/-- No links lead to a place from outside of what is admitted. -/
def Straight (home : Location) (tree : FileTree) (location : Location) : Prop :=
  ∀ above, above <:+ location → ¬ HomeAdmits home above → ∀ text,
    tree.get above ≠ some (.link text)

section

variable {home location : Location} {tree after : FileTree} {path : VerifiedPath}
  {child : CString}

theorem Straight.clear (straight : Straight home tree location) (unlinked : Unlinked home tree) :
    tree.Clear [] location.reverse := by
  apply FileTree.clear_of_above
  intro above isAbove text
  rw [List.reverse_reverse, List.append_nil] at isAbove
  by_cases admitted : HomeAdmits home above
  · exact unlinked above text admitted
  · exact straight above isAbove admitted text

theorem Straight.of_solid (solid : tree.Solid location) : Straight home tree location := by
  intro above isAbove _ text
  by_cases same : above = location
  · subst same
    rcases solid with ⟨node, found, notLink⟩
    rw [found]
    intro isLink
    exact notLink text (Option.some.inj isLink)
  · rcases solid with ⟨node, found, _⟩
    have isDir := FileTree.dir_above ⟨isAbove, fun same' => same same'.symm⟩ found
    simp [isDir]

theorem Straight.stays (straight : Straight home tree location)
    (agree : FileTree.AgreeOff (HomeAdmits home) tree after) : Straight home after location := by
  intro above isAbove outside
  rw [agree above outside]
  exact straight above isAbove outside

theorem steps_render (location : Location) :
    steps (components (render location)) = location.reverse.map .name := by
  rw [components_render, steps_here, steps_append]
  split <;> simp [steps]

structure Resolved (home : Location) (tree : FileTree) (path : VerifiedPath)
    (location : Location) : Prop where
  canonical : path.path = render location
  admitted : HomeAdmits home location
  straight : Straight home tree location

structure Creatable (home : Location) (tree : FileTree) (path : VerifiedPath)
    (directory : Location) (last : Bytes) : Prop where
  spelled : path.path = render directory ++ slash :: last
  noSlash : slash ∉ last
  admitted : render home <+: path.path
  straight : Straight home tree directory

theorem resolved_of_path_resolve
    (resolved : fPathResolve tree (render home) child = .ok (some path)) :
    ∃ location, Resolved home tree path location := by
  rcases fPathResolve_some_iff.mp resolved with ⟨_, found, within⟩
  rcases FileTree.realpath_eq_some found with ⟨location, _, canonical, _, solid⟩
  refine ⟨location, canonical, ?_, .of_solid solid⟩
  rw [canonical] at within
  exact within

theorem creatable_of_valid_resolve
    (verified : fValidResolve tree (render home) child = .ok (some path)) :
    ∃ directory last, Creatable home tree path directory last := by
  rcases fValidResolve_some_iff.mp verified with ⟨_, directory, found, _, _, within, rfl⟩
  rcases FileTree.realpath_eq_some found with ⟨location, _, canonical, _, solid⟩
  subst canonical
  rcases basename_cases child.bytes with isSlash | noSlash
  · exact ⟨location, [], by rw [isSlash]; rfl, List.not_mem_nil, within, .of_solid solid⟩
  · exact ⟨location, _, joined_of_noSlash _ noSlash, noSlash, within, .of_solid solid⟩

theorem Resolved.leads (resolved : Resolved home tree path location)
    (unlinked : Unlinked home tree) {followLast : Bool} {target : Target}
    (located : tree.locate followLast path.path = .ok target) : target.location = location := by
  rw [resolved.canonical] at located
  simp only [FileTree.locate] at located
  split at located
  · cases located
  split at located
  · cases located
  have place := FileTree.walk_plain (resolved.straight.clear unlinked) (steps_render location)
    located
  rw [place, List.reverse_reverse, List.append_nil]

theorem Resolved.stays (resolved : Resolved home tree path location)
    (agree : FileTree.AgreeOff (HomeAdmits home) tree after) :
    Resolved home after path location :=
  ⟨resolved.canonical, resolved.admitted, resolved.straight.stays agree⟩

theorem Creatable.leads {directory : Location} {last : Bytes}
    (creatable : Creatable home tree path directory last) (unlinked : Unlinked home tree)
    {followLast : Bool} {target : Target}
    (located : tree.locate followLast path.path = .ok target) :
    HomeAdmits home target.location ∨ tree.get target.location = some .dir := by
  have within := creatable.admitted
  rw [creatable.spelled] at located within
  simp only [FileTree.locate] at located
  split at located
  · cases located
  split at located
  · cases located
  rw [components_append_slash, components_of_not_mem creatable.noSlash] at located
  rcases FileTree.walk_clear (creatable.straight.clear unlinked) (steps_render directory)
    located with arrived | ⟨impossible, _⟩
  swap
  · cases impossible
  rw [List.reverse_reverse, List.append_nil] at arrived
  by_cases isDir : tree.get directory = some .dir
  swap
  · rw [FileTree.walk_not_dir isDir] at arrived
    cases arrived
  cases component : Component.ofBytes last with
  | here =>
      rw [component, FileTree.walk_here _ _ isDir] at arrived
      rw [FileTree.walk_nil arrived]
      exact .inr isDir
  | up =>
      rw [component, FileTree.maxLinks, FileTree.walk, FileTree.walkFrom,
        if_neg (not_not.mpr isDir)] at arrived
      cases arrived
      exact .inr (FileTree.dir_tail isDir)
  | unusable =>
      rw [component, FileTree.maxLinks, FileTree.walk, FileTree.walkFrom,
        if_neg (not_not.mpr isDir)] at arrived
      cases arrived
  | name name =>
      rw [Component.bytes_of_ofBytes component] at within
      have admitted : HomeAdmits home (name :: directory) := admitted_entry within
      have clear : tree.Clear directory [name] := ⟨fun text => unlinked _ text admitted, trivial⟩
      rw [component] at arrived
      have place := FileTree.walk_plain clear rfl arrived
      rw [place]
      exact .inl admitted

theorem Creatable.stays {directory : Location} {last : Bytes}
    (creatable : Creatable home tree path directory last)
    (agree : FileTree.AgreeOff (HomeAdmits home) tree after) :
    Creatable home after path directory last :=
  ⟨creatable.spelled, creatable.noSlash, creatable.admitted, creatable.straight.stays agree⟩

end

end FileTransfer
