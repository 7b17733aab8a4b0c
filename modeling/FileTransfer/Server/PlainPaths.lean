import FileTransfer.Posix.PlainPaths
import FileTransfer.Server.FileRequests

/-! # Plain client paths
Where there are no links at home, both resolvers take a client path that only goes down to
the place that its names spell.
-/

namespace FileTransfer

open Foundation Posix

/-- A client path that goes down from home through `parent` to an entry `name`, and is short
enough to be looked up. -/
structure Spells (home : Location) (child : CString) (name : Name) (parent : Location) :
    Prop where
  last : basename child.bytes = name.bytes
  ends : child.bytes.getLast? ≠ some slash
  above : steps (components (dirname child.bytes)) = parent.reverse.map .name
  permitted : (render home).length + child.length + slashPlusNull ≤ pathMax
  fits : (joined (render (parent ++ home)) name.bytes).length < pathMax

theorem steps_joined (root path : Bytes) :
    ∃ rest, components (joined root path) = components root ++ rest ∧
      steps rest = steps (components path) := by
  rw [joined, components_append_slash]
  refine ⟨_, rfl, ?_⟩
  split
  · rename_i leading
    cases path with
    | nil => cases leading
    | cons byte rest =>
        simp only [List.head?_cons, Option.some.injEq] at leading
        rw [leading, List.tail_cons]
        have split : components (slash :: rest) = components [] ++ components rest :=
          components_append_slash [] rest
        rw [split]
        rfl
  · rfl

section

variable {tree : FileTree} {home : Location} {child : CString} {name : Name}
  {parent : Location}

theorem locate_home (homeDir : tree.get home = some .dir) {path : Bytes}
    {rest : List Component} (spelled : components (joined (render home) path) =
      components (render home) ++ rest)
    (short : (joined (render home) path).length < pathMax) :
    tree.locate true (joined (render home) path) =
      tree.walk true FileTree.maxLinks home rest := by
  rw [FileTree.locate, if_neg (by omega),
    if_neg (by rw [joined, isAbsolute_append (isAbsolute_render home)]; simp), spelled,
    FileTree.walk_render _ _ _ (FileTree.solid_of_dir homeDir)]

theorem render_le_joined (above : Location) (name : Name) :
    (render (name :: above)).length ≤ (joined (render above) name.bytes).length := by
  rw [joined_of_noSlash _ name.noSlash]
  by_cases isRoot : above = []
  · subst isRoot
    simp [render, spell]
  · rw [render_cons isRoot]

namespace Spells

theorem short (spells : Spells home child name parent) :
    (joined (render home) child.bytes).length < pathMax := by
  have bound := joined_length_le (render home) child.bytes
  have permitted := spells.permitted
  simp only [CString.length, slashPlusNull] at permitted
  omega

theorem endsIn (spells : Spells home child name parent) :
    ∃ between, EndsIn child.bytes name between 0 := by
  rcases endsIn_of_basename spells.last with ⟨between, behind, ends⟩
  have none : behind = 0 := by
    by_contra some
    exact spells.ends (ends.trailing_iff.mpr some)
  subst none
  exact ⟨between, ends⟩

theorem dirname_short (spells : Spells home child name parent) :
    (joined (render home) (dirname child.bytes)).length < pathMax := by
  rcases spells.endsIn with ⟨between, ends⟩
  have bound := joined_length_le (render home) (dirname child.bytes)
  have shorter := ends.dirname_length_le
  have permitted := spells.permitted
  simp only [CString.length, slashPlusNull] at permitted
  omega

theorem above_short (spells : Spells home child name parent) :
    (render (parent ++ home)).length < pathMax := by
  have fits := spells.fits
  rw [joined_of_noSlash _ name.noSlash, List.length_append] at fits
  omega

theorem place_short (spells : Spells home child name parent) :
    (render (name :: (parent ++ home))).length < pathMax :=
  lt_of_le_of_lt (render_le_joined _ name) spells.fits

theorem steps_dirname (spells : Spells home child name parent) :
    ∃ rest, components (joined (render home) (dirname child.bytes)) =
        components (render home) ++ rest ∧ steps rest = parent.reverse.map .name := by
  rcases steps_joined (render home) (dirname child.bytes) with ⟨rest, spelled, same⟩
  exact ⟨rest, spelled, same.trans spells.above⟩

theorem steps_replicate (count : Nat) (rest : List Component) :
    steps (List.replicate count .here ++ rest) = steps rest := by
  induction count with
  | zero => rfl
  | succ count induction =>
      rw [List.replicate_succ, List.cons_append, steps_here, induction]

theorem steps_whole (spells : Spells home child name parent) :
    ∃ rest, components (joined (render home) child.bytes) =
        components (render home) ++ rest ∧
      steps rest = (name :: parent).reverse.map .name := by
  rcases spells.endsIn with ⟨between, ends⟩
  have last : ∀ slashes, steps (List.replicate slashes .here ++
      .name name :: List.replicate 0 .here) = [.name name] :=
    fun slashes => steps_replicate slashes _
  rw [List.reverse_cons, List.map_append]
  rcases components_joined (render home) ends with ⟨slashes, below | ⟨top, atTop⟩⟩
  · rcases spells.steps_dirname with ⟨rest, spelled, above⟩
    refine ⟨_, by rw [below, spelled, List.append_assoc], ?_⟩
    rw [steps_append, above, last]
    rfl
  · refine ⟨_, atTop, ?_⟩
    have above := spells.above
    have none : parent.reverse.map Component.name = [] := by
      rcases top with isTop | isTop
      · rw [isTop] at above
        exact above.symm
      · rw [isTop] at above
        exact above.symm
    rw [last, none]
    rfl

theorem realpath_dirname (spells : Spells home child name parent)
    (homeDir : tree.get home = some .dir) (isDir : tree.get (parent ++ home) = some .dir) :
    tree.realpath (joined (render home) (dirname child.bytes)) =
      some (render (parent ++ home)) := by
  rcases spells.steps_dirname with ⟨rest, spelled, above⟩
  have reached : tree.walk true FileTree.maxLinks home rest =
      .ok (.node (parent.reverse.reverse ++ home)) :=
    FileTree.walk_plain_dir above (by rw [List.reverse_reverse]; exact isDir)
  rw [List.reverse_reverse] at reached
  rw [FileTree.realpath, locate_home homeDir spelled spells.dirname_short, reached]
  exact if_pos spells.above_short

theorem realpath_dirname_some (spells : Spells home child name parent)
    (homeDir : tree.get home = some .dir) (noLinks : tree.NoLinks home) {directory : Bytes}
    (found : tree.realpath (joined (render home) (dirname child.bytes)) = some directory) :
    directory = render (parent ++ home) := by
  rcases FileTree.realpath_eq_some found with ⟨location, located, rfl, _, _⟩
  rcases spells.steps_dirname with ⟨rest, spelled, above⟩
  rw [locate_home homeDir spelled spells.dirname_short] at located
  have place := FileTree.walk_plain (noLinks.clear _) above located
  rw [List.reverse_reverse] at place
  exact congrArg render place

theorem locate_whole (spells : Spells home child name parent)
    (homeDir : tree.get home = some .dir) (noLinks : tree.NoLinks home) {node : Node}
    (found : tree.get (name :: (parent ++ home)) = some node) :
    tree.locate true (joined (render home) child.bytes) =
      .ok (.node (name :: (parent ++ home))) := by
  have isDir := FileTree.parent_of_get found
  have solid : tree.Solid ([name].reverse ++ (parent ++ home)) := by
    refine ⟨node, found, ?_⟩
    rintro text rfl
    exact noLinks (name :: parent) text found
  rcases spells.endsIn with ⟨between, ends⟩
  rcases locate_joined homeDir isDir (spells.realpath_dirname homeDir isDir) ends spells.short
    with ⟨left, _, located⟩
  have onwards := FileTree.walk_names true left [name] (parent ++ home) [] solid
  rw [located]
  refine onwards.trans ?_
  cases left <;> rfl

theorem whole_located (spells : Spells home child name parent)
    (homeDir : tree.get home = some .dir) (noLinks : tree.NoLinks home) {target : Target}
    (located : tree.locate true (joined (render home) child.bytes) = .ok target) :
    target.location = name :: (parent ++ home) := by
  rcases spells.steps_whole with ⟨rest, spelled, names⟩
  rw [locate_home homeDir spelled spells.short] at located
  have place := FileTree.walk_plain (noLinks.clear _) names located
  rw [List.reverse_reverse] at place
  exact place

theorem resolved (spells : Spells home child name parent)
    (homeDir : tree.get home = some .dir) (noLinks : tree.NoLinks home) :
    fPathResolve tree (render home) child =
      .ok (if tree.get (name :: (parent ++ home)) = none then none
        else some ⟨render (name :: (parent ++ home))⟩) := by
  rw [fPathResolve_eq, if_pos spells.permitted]
  congr 1
  cases found : tree.get (name :: (parent ++ home)) with
  | none =>
      have unresolved : tree.realpath (joined (render home) child.bytes) = none := by
        cases resolved : tree.realpath (joined (render home) child.bytes) with
        | none => rfl
        | some path =>
            rcases FileTree.realpath_eq_some resolved with ⟨place, located, _, _, node, there, _⟩
            have same : place = _ := spells.whole_located homeDir noLinks located
            rw [same, found] at there
            cases there
      rw [unresolved]
      rfl
  | some node =>
      have canonical : tree.realpath (joined (render home) child.bytes) =
          some (render (name :: (parent ++ home))) := by
        rw [FileTree.realpath, spells.locate_whole homeDir noLinks found]
        exact if_pos spells.place_short
      have atHome : withinHome (render home) (render (name :: (parent ++ home))) = true :=
        (withinHome_iff _ _).mpr
          (AtOrBelow.render_prefix (List.suffix_append (name :: parent) home))
      rw [canonical, Option.filter_some, if_pos atHome, if_neg (Option.some_ne_none node)]
      rfl

theorem verified (spells : Spells home child name parent)
    (homeDir : tree.get home = some .dir) (isDir : tree.get (parent ++ home) = some .dir) :
    fValidResolve tree (render home) child =
      .ok (some ⟨joined (render (parent ++ home)) name.bytes⟩) := by
  rw [fValidResolve_some_iff]
  refine ⟨spells.dirname_short, _, spells.realpath_dirname homeDir isDir, ?_⟩
  rw [spells.last]
  refine ⟨name.valid.2.2.2.1, spells.fits, ?_, rfl⟩
  exact (AtOrBelow.render_prefix (List.suffix_append parent home)).trans (List.prefix_append _ _)

theorem verified_some (spells : Spells home child name parent)
    (homeDir : tree.get home = some .dir) (noLinks : tree.NoLinks home) {path : VerifiedPath}
    (verified : fValidResolve tree (render home) child = .ok (some path)) :
    path = ⟨joined (render (parent ++ home)) name.bytes⟩ := by
  rcases fValidResolve_some_iff.mp verified with ⟨_, directory, found, _, _, _, same⟩
  rw [same, spells.realpath_dirname_some homeDir noLinks found, spells.last]

theorem verified_or (spells : Spells home child name parent)
    (homeDir : tree.get home = some .dir) (noLinks : tree.NoLinks home) :
    fValidResolve tree (render home) child = .ok none ∨
      fValidResolve tree (render home) child =
        .ok (some ⟨joined (render (parent ++ home)) name.bytes⟩) := by
  rw [fValidResolve, joinAndResolvePaths, joinPaths_eq,
    if_neg (not_le.mpr spells.dirname_short), spells.last]
  simp only [Fallible.ok_bind, Fallible.pure_eq_ok]
  cases found : tree.realpath (joined (render home) (dirname child.bytes)) with
  | none => exact .inl rfl
  | some directory =>
      rw [spells.realpath_dirname_some homeDir noLinks found]
      simp only [Fallible.ok_bind, joinPaths_eq, if_neg (not_le.mpr spells.fits)]
      split
      · exact .inl rfl
      · split
        · exact .inr rfl
        · exact .inl rfl

end Spells

theorem locate_verified (name : Name) {above : Location} (solid : tree.Solid above)
    (fits : (joined (render above) name.bytes).length < pathMax) (followLast : Bool) :
    tree.locate followLast (joined (render above) name.bytes) =
      tree.walk followLast FileTree.maxLinks above [.name name] := by
  rw [joined_of_noSlash _ name.noSlash] at fits ⊢
  rw [FileTree.locate_below followLast solid name.bytes fits,
    components_of_not_mem name.noSlash, Component.ofBytes_name]

end

end FileTransfer
