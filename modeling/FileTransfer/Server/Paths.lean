import FileTransfer.Foundation.Fallible
import FileTransfer.Posix.Parts
import FileTransfer.Posix.Refilling
import FileTransfer.Server.FileApi

/-! # What resolving a client path comes to -/

namespace FileTransfer

open Foundation Posix

def joined (root child : Bytes) : Bytes :=
  root ++ slash :: (if child.head? = some slash then child.tail else child)

theorem joined_length_le (root child : Bytes) :
    (joined root child).length ≤ root.length + 1 + child.length := by
  rw [joined, List.length_append, List.length_cons]
  split
  · rw [List.length_tail]
    omega
  · omega

theorem joined_of_noSlash (root : Bytes) {child : Bytes} (noSlash : slash ∉ child) :
    joined root child = root ++ slash :: child := by
  rw [joined, if_neg]
  intro leading
  exact noSlash (List.mem_of_mem_head? leading)

theorem joinPaths_eq (root child : Bytes) :
    joinPaths root root.length child child.length =
      if pathMax ≤ (joined root child).length then .error .bufferOverflow
      else .ok (joined root child) := by
  have noSlash : ¬ root[root.length]? = some slash := by simp
  have spelled : root ++ (if child.head? = some slash then [] else [slash]) ++ child =
      joined root child := by
    rw [joined]
    split
    · rename_i leading
      cases child with
      | nil => cases leading
      | cons byte rest =>
          simp only [List.head?_cons, Option.some.injEq] at leading
          simp [leading]
    · simp
  simp only [joinPaths, if_neg noSlash, List.take_length, spelled]

theorem withinHome_iff (homeDir path : Bytes) :
    withinHome homeDir path = true ↔ homeDir <+: path := List.isPrefixOf_iff_prefix

/-- `f_path_resolve` always returns: the paths it joins fit. -/
theorem fPathResolve_eq (tree : FileTree) (homeDir : Bytes) (child : CString) :
    fPathResolve tree homeDir child = .ok
      (if homeDir.length + child.length + slashPlusNull ≤ pathMax then
        ((tree.realpath (joined homeDir child.bytes)).filter
          (withinHome homeDir ·)).map VerifiedPath.mk
      else none) := by
  by_cases fits : homeDir.length + child.length + slashPlusNull ≤ pathMax
  · have short : ¬ pathMax ≤ (joined homeDir child.bytes).length := by
      have bound := joined_length_le homeDir child.bytes
      simp only [CString.length, slashPlusNull] at fits
      omega
    rw [fPathResolve, if_neg (by omega), if_pos fits, joinAndResolvePaths, joinPaths_eq,
      if_neg short]
    simp only [Fallible.ok_bind, Fallible.pure_eq_ok]
    cases tree.realpath (joined homeDir child.bytes) with
    | none => rfl
    | some path =>
        by_cases within : withinHome homeDir path = true
        · simp [Option.filter, within]
        · simp [Option.filter, within]
  · rw [fPathResolve, if_pos (by omega), if_neg fits]

theorem fPathResolve_some_iff {tree : FileTree} {homeDir : Bytes} {child : CString}
    {path : VerifiedPath} :
    fPathResolve tree homeDir child = .ok (some path) ↔
      homeDir.length + child.length + slashPlusNull ≤ pathMax ∧
        tree.realpath (joined homeDir child.bytes) = some path.path ∧
        homeDir <+: path.path := by
  rw [fPathResolve_eq]
  by_cases fits : homeDir.length + child.length + slashPlusNull ≤ pathMax
  · rcases path with ⟨bytes⟩
    simp only [fits, if_true, Except.ok.injEq, Option.map_eq_some_iff,
      Option.filter_eq_some_iff, withinHome_iff, VerifiedPath.mk.injEq,
      exists_eq_right, true_and]
  · simp [fits]

theorem fValidResolve_some_iff {tree : FileTree} {homeDir : Bytes} {child : CString}
    {path : VerifiedPath} :
    fValidResolve tree homeDir child = .ok (some path) ↔
      (joined homeDir (dirname child.bytes)).length < pathMax ∧
        ∃ directory, tree.realpath (joined homeDir (dirname child.bytes)) = some directory ∧
          basename child.bytes ≠ dot ∧
          (joined directory (basename child.bytes)).length < pathMax ∧
          homeDir <+: joined directory (basename child.bytes) ∧
          path = ⟨joined directory (basename child.bytes)⟩ := by
  simp only [fValidResolve, joinAndResolvePaths, joinPaths_eq]
  by_cases long : pathMax ≤ (joined homeDir (dirname child.bytes)).length
  · simp [long]
  · simp only [long, if_false, Fallible.ok_bind, Fallible.pure_eq_ok, not_le.mp long,
      true_and]
    cases tree.realpath (joined homeDir (dirname child.bytes)) with
    | none => simp
    | some directory =>
        simp only [Option.some.injEq, exists_eq_left']
        by_cases isDot : basename child.bytes = dot
        · simp [isDot]
        · simp only [isDot, if_false, ne_eq, not_false_eq_true, true_and]
          by_cases longer : pathMax ≤ (joined directory (basename child.bytes)).length
          · simp [longer]
          · simp only [longer, if_false, Fallible.ok_bind, not_le.mp longer, true_and]
            by_cases within : homeDir <+: joined directory (basename child.bytes)
            · have within' := (withinHome_iff _ _).mpr within
              simp only [within', within, if_true, Except.ok.injEq, Option.some.injEq, true_and]
              exact eq_comm
            · have without' := mt (withinHome_iff _ _).mp within
              simp only [without', within, Bool.false_eq_true, if_false, Except.ok.injEq,
                reduceCtorEq, false_and]

theorem fValidResolve_refilled {before after : FileTree}
    (refilled : FileTree.Refilled before after) {homeDir : Bytes} {child : CString}
    {directory : Bytes}
    (found : before.realpath (joined homeDir (dirname child.bytes)) = some directory) :
    fValidResolve after homeDir child = fValidResolve before homeDir child := by
  have found' := refilled.realpath_eq found
  by_cases long : pathMax ≤ (joined homeDir (dirname child.bytes)).length
  · simp only [fValidResolve, joinAndResolvePaths, joinPaths_eq, if_pos long,
      Fallible.error_bind]
  · simp only [fValidResolve, joinAndResolvePaths, joinPaths_eq, if_neg long,
      Fallible.ok_bind, Fallible.pure_eq_ok, found, found']

/-! ## The whole path and its parts -/

theorem components_joined (root : Bytes) {path : Bytes} {name : Name} {between behind : Nat}
    (ends : EndsIn path name between behind) :
    ∃ slashes, components (joined root path) =
        components (joined root (dirname path)) ++
          (List.replicate slashes .here ++ .name name :: List.replicate behind .here) ∨
      (dirname path = dot ∨ dirname path = [slash]) ∧
        components (joined root path) = components root ++
          (List.replicate slashes .here ++ .name name :: List.replicate behind .here) := by
  cases ends with
  | below deep spelled =>
      refine ⟨between, .inl ?_⟩
      rcases List.exists_cons_of_ne_nil deep with ⟨byte, rest, directory⟩
      have seam : joined root path = joined root (dirname path) ++
          slash :: (List.replicate between slash ++
            (name.bytes ++ List.replicate behind slash)) := by
        nth_rewrite 1 [spelled]
        rw [directory]
        by_cases leading : byte = slash
        · simp [joined, leading]
        · simp [joined, leading]
      rw [seam, components_append_slash, components_slashes, components_name_slashes]
  | atTop top spelled =>
      cases between with
      | zero =>
          refine ⟨0, .inr ⟨top, ?_⟩⟩
          rw [List.replicate_zero, List.nil_append] at spelled
          have plain : ¬ path.head? = some slash := by
            rcases List.exists_cons_of_ne_nil name.valid.1 with ⟨byte, rest, named⟩
            rw [spelled, named, List.cons_append, List.head?_cons, Option.some.injEq]
            rintro rfl
            exact name.noSlash (by simp [named])
          rw [joined, if_neg plain, components_append_slash, spelled, components_name_slashes]
          rfl
      | succ between =>
          refine ⟨between, .inr ⟨top, ?_⟩⟩
          rw [joined, spelled, List.replicate_succ, List.cons_append, List.head?_cons,
            if_pos rfl, List.tail_cons, components_append_slash, components_slashes,
            components_name_slashes]

theorem locate_joined {tree : FileTree} {home above : Location} {path : Bytes} {name : Name}
    {between behind : Nat} (homeDir : tree.get home = some .dir)
    (isDir : tree.get above = some .dir)
    (parent : tree.realpath (joined (render home) (dirname path)) = some (render above))
    (ends : EndsIn path name between behind)
    (short : (joined (render home) path).length < pathMax) :
    ∃ left ≤ FileTree.maxLinks, tree.locate true (joined (render home) path) =
      tree.walk true left above (.name name :: List.replicate behind .here) := by
  have located : ∀ child, (joined (render home) child).length < pathMax →
      tree.locate true (joined (render home) child) =
        tree.walk true FileTree.maxLinks [] (components (joined (render home) child)) := by
    intro child short
    rw [FileTree.locate, if_neg (by omega),
      if_neg (by rw [joined, isAbsolute_append (isAbsolute_render home)]; simp)]
  have through : ∀ (links slashes : Nat) (rest : List Component),
      tree.walk true links above (List.replicate slashes .here ++ rest) =
        tree.walk true links above rest := by
    intro links slashes rest
    induction slashes with
    | zero => rfl
    | succ slashes induction =>
        rw [List.replicate_succ, List.cons_append, FileTree.walk_here links _ isDir, induction]
  rcases FileTree.realpath_eq_some parent with ⟨place, reached, same, _, _⟩
  rw [← render_injective same] at reached
  have directoryShort : (joined (render home) (dirname path)).length < pathMax := by
    by_contra long
    rw [FileTree.locate, if_pos (not_lt.mp long)] at reached
    cases reached
  rw [located _ directoryShort] at reached
  rw [located _ short]
  rcases components_joined (render home) ends with ⟨slashes, below | ⟨top, atTop⟩⟩
  · rcases FileTree.walk_append reached with ⟨left, fewer, onwards⟩
    exact ⟨left, fewer, by rw [below, onwards, through]⟩
  · have atHome : components (joined (render home) (dirname path)) =
        components (render home) ++ [.here] := by
      rcases top with isTop | isTop
      · rw [isTop, joined, if_neg (by decide), components_append_slash]
        rfl
      · rw [isTop, joined, if_pos (by decide), components_append_slash]
        rfl
    rw [atHome, FileTree.walk_render _ _ _ (FileTree.solid_of_dir homeDir),
      FileTree.walk_here _ _ homeDir] at reached
    have same : home = above := by
      cases reached
      rfl
    subst same
    refine ⟨FileTree.maxLinks, le_rfl, ?_⟩
    rw [atTop, FileTree.walk_render _ _ _ (FileTree.solid_of_dir homeDir), through]

end FileTransfer
