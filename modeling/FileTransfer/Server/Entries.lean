import FileTransfer.Server.Paths

/-! # The entries of `.cape`

`.cape` need not be a directory of its own: it may be a link, and so may the two files in
it. The server looks for a file along the whole path and takes what it finds within the
home directory. To write one it resolves `.cape` alone and joins the name to that.
-/

namespace FileTransfer

open Foundation Posix

/-! ## Where the database lies -/

def dbDirName : Name := ⟨dbDir, by decide⟩

def dbFileName : Name := ⟨ascii ".cape.db", by decide⟩

def hashFileName : Name := ⟨ascii ".cape.hash", by decide⟩

theorem joined_plain (root : Bytes) (name : Name) :
    joined root name.bytes = root ++ slash :: name.bytes :=
  joined_of_noSlash root name.noSlash

def DbDirAt (tree : FileTree) (home directory : Location) : Prop :=
  tree.walk true FileTree.maxLinks home [.name dbDirName] = .ok (.node directory)

/-- An entry of `.cape` leads to `place`, where something stands or could be made. -/
def EntryAt (tree : FileTree) (home : Location) (name : Name) (place : Location) : Prop :=
  ∃ directory target, DbDirAt tree home directory ∧
    tree.walk true FileTree.maxLinks directory [.name name] = .ok target ∧
    target.location = place

/-- `.cape` has an entry of this name, a link perhaps that leads nowhere. -/
def HasEntry (tree : FileTree) (home : Location) (name : Name) : Prop :=
  ∃ directory, DbDirAt tree home directory ∧ tree.get (name :: directory) ≠ none

variable {tree : FileTree} {home directory place : Location} {name : Name} {child : CString}

theorem DbDirAt.unique {other : Location} (leads : DbDirAt tree home directory)
    (leads' : DbDirAt tree home other) : directory = other := by
  rw [DbDirAt, leads] at leads'
  cases leads'
  rfl

theorem DbDirAt.present (isDir : tree.get home = some .dir)
    (leads : DbDirAt tree home directory) : tree.get (dbDirName :: home) ≠ none := by
  intro absent
  rw [DbDirAt, FileTree.walk_entry _ isDir, absent] at leads
  cases leads

theorem DbDirAt.solid (isDir : tree.get home = some .dir)
    (leads : DbDirAt tree home directory) : tree.Solid directory := by
  rcases FileTree.walk_delivered (FileTree.solid_of_dir isDir) leads with
    solid | ⟨impossible, _⟩
  · exact solid
  · cases impossible

theorem EntryAt.above (leads : EntryAt tree home name place)
    (isDb : DbDirAt tree home directory) : tree.get directory = some .dir := by
  rcases leads with ⟨directory', target, isDb', reached, _⟩
  cases isDb.unique isDb'
  by_contra other
  simp [FileTree.maxLinks, FileTree.walk, FileTree.walkFrom, other] at reached

theorem DbDirAt.plain (isDir : tree.get home = some .dir)
    (unlinked : ∀ text, tree.get (dbDirName :: home) ≠ some (.link text))
    (leads : DbDirAt tree home directory) : directory = dbDirName :: home := by
  rw [DbDirAt, FileTree.walk_entry _ isDir] at leads
  split at leads
  · cases leads
  · rename_i text found
    exact absurd found (unlinked text)
  · cases leads
    rfl

/-! ## Looking for an entry -/

theorem joined_entry (spelled : child.bytes = dbDirName.bytes ++ slash :: name.bytes) :
    joined (render home) child.bytes = render home ++ slash :: child.bytes := by
  rw [joined, if_neg]
  intro leading
  rw [spelled] at leading
  have isSlash : (46 : UInt8) = slash := Option.some.inj leading
  exact absurd isSlash (by decide)

theorem locate_entry (isDir : tree.get home = some .dir)
    (spelled : child.bytes = dbDirName.bytes ++ slash :: name.bytes)
    (short : (render home ++ slash :: child.bytes).length < pathMax) :
    tree.locate true (joined (render home) child.bytes) =
      tree.walk true FileTree.maxLinks home [.name dbDirName, .name name] := by
  rw [joined_entry spelled, FileTree.locate_below _ (FileTree.solid_of_dir isDir) _ short,
    spelled, components_append_slash, components_of_not_mem dbDirName.noSlash,
    components_of_not_mem name.noSlash, Component.ofBytes_name, Component.ofBytes_name]
  rfl

/-- An entry is found where it leads to a node within the home directory, if the path up
to it is short enough. -/
theorem fPathResolve_entry_iff (isDir : tree.get home = some .dir)
    (spelled : child.bytes = dbDirName.bytes ++ slash :: name.bytes) {path : VerifiedPath} :
    fPathResolve tree (render home) child = .ok (some path) ↔
      (render home).length + child.length + slashPlusNull ≤ pathMax ∧ ∃ place,
        tree.walk true FileTree.maxLinks home [.name dbDirName, .name name] =
            .ok (.node place) ∧
          (render place).length < pathMax ∧ render home <+: render place ∧
          path = ⟨render place⟩ := by
  rw [fPathResolve_some_iff]
  apply and_congr_right
  intro permitted
  have short : (render home ++ slash :: child.bytes).length < pathMax := by
    simp only [CString.length, slashPlusNull] at permitted
    rw [List.length_append, List.length_cons]
    omega
  constructor
  · rintro ⟨found, within⟩
    rcases FileTree.realpath_eq_some found with ⟨place, located, canonical, short', _⟩
    rw [locate_entry isDir spelled short] at located
    rw [canonical] at within
    exact ⟨place, located, short', within, congrArg VerifiedPath.mk canonical⟩
  · rintro ⟨place, reached, short', within, rfl⟩
    refine ⟨?_, within⟩
    rw [FileTree.realpath, locate_entry isDir spelled short, reached]
    exact if_pos short'

theorem entryAt_of_walk (reached : tree.walk true FileTree.maxLinks home
    [.name dbDirName, .name name] = .ok (.node place)) :
    EntryAt tree home name place ∧ HasEntry tree home name := by
  rcases FileTree.walk_split (show tree.walk true FileTree.maxLinks home
    ([.name dbDirName] ++ .name name :: []) = _ from reached) with ⟨directory, leads, entry⟩
  refine ⟨⟨directory, _, leads, entry, rfl⟩, directory, leads, ?_⟩
  intro absent
  by_cases isDir : tree.get directory = some .dir
  · rw [FileTree.walk_entry _ isDir, absent] at entry
    cases entry
  · simp [FileTree.maxLinks, FileTree.walk, FileTree.walkFrom, isDir] at entry

theorem fPathResolve_noEntry (isDir : tree.get home = some .dir)
    (spelled : child.bytes = dbDirName.bytes ++ slash :: name.bytes)
    (noEntry : ¬ HasEntry tree home name) :
    fPathResolve tree (render home) child = .ok none := by
  cases resolved : fPathResolve tree (render home) child with
  | error fault =>
      rw [fPathResolve_eq] at resolved
      cases resolved
  | ok path =>
      cases path with
      | none => rfl
      | some path =>
          rcases (fPathResolve_entry_iff isDir spelled).mp resolved with ⟨_, _, reached, _⟩
          exact absurd (entryAt_of_walk reached).2 noEntry

/-! ## Resolving an entry to write it -/

theorem fValidResolve_dbDir_iff (isDir : tree.get home = some .dir) {path : VerifiedPath} :
    fValidResolve tree (render home) (CString.ofBuffer dbDir) = .ok (some path) ↔
      (render home ++ slash :: dbDirName.bytes).length < pathMax ∧
        path = ⟨render home ++ slash :: dbDirName.bytes⟩ := by
  have directory : dirname (CString.ofBuffer dbDir).bytes = dot := by decide
  have last : basename (CString.ofBuffer dbDir).bytes = dbDirName.bytes := by decide
  have spelled : joined (render home) dot = render home ++ slash :: dot :=
    joined_of_noSlash _ (by decide)
  have here : ∀ short : (render home ++ slash :: dot).length < pathMax,
      tree.realpath (render home ++ slash :: dot) = some (render home) := by
    intro short
    have located : tree.locate true (render home ++ slash :: dot) = .ok (.node home) := by
      rw [FileTree.locate_below _ (FileTree.solid_of_dir isDir) _ short,
        show components dot = [.here] from by decide, FileTree.walk_here _ _ isDir]
      rfl
    rw [FileTree.realpath, located]
    apply if_pos
    rw [List.length_append] at short
    omega
  rw [fValidResolve_some_iff, directory, last, spelled]
  constructor
  · rintro ⟨short, parent, found, _, short', _, rfl⟩
    rw [here short] at found
    cases found
    rw [joined_plain] at short' ⊢
    exact ⟨short', rfl⟩
  · rintro ⟨short, rfl⟩
    have shorter : (render home ++ slash :: dot).length < pathMax := by
      have sizes : dot.length = 1 ∧ dbDirName.bytes.length = 5 := ⟨rfl, rfl⟩
      rw [List.length_append, List.length_cons] at short ⊢
      omega
    refine ⟨shorter, render home, here shorter, dbDirName.valid.2.2.2.1, ?_⟩
    rw [joined_plain]
    exact ⟨short, List.prefix_append _ _, rfl⟩

theorem locate_dbDir (isDir : tree.get home = some .dir)
    (short : (render home ++ slash :: dbDirName.bytes).length < pathMax) :
    tree.locate true (joined (render home) dbDir) =
      tree.walk true FileTree.maxLinks home [.name dbDirName] := by
  rw [show dbDir = dbDirName.bytes from rfl, joined_plain,
    FileTree.locate_below _ (FileTree.solid_of_dir isDir) _ short,
    components_of_not_mem dbDirName.noSlash, Component.ofBytes_name]

theorem dbDirAt_of_resolved (isDir : tree.get home = some .dir) {path : VerifiedPath}
    (resolved : fPathResolve tree (render home) (CString.ofBuffer dbDir) = .ok (some path)) :
    ∃ directory, DbDirAt tree home directory := by
  rcases fPathResolve_some_iff.mp resolved with ⟨permitted, found, _⟩
  rcases FileTree.realpath_eq_some found with ⟨directory, located, _⟩
  have short : (render home ++ slash :: dbDirName.bytes).length < pathMax := by
    have sizes : (CString.ofBuffer dbDir).length = dbDirName.bytes.length ∧
        slashPlusNull = 2 := ⟨rfl, rfl⟩
    rw [List.length_append, List.length_cons]
    omega
  exact ⟨directory, (locate_dbDir isDir short).symm.trans located⟩

/-- An entry can be written below the directory that `.cape` leads to, within the home
directory as far as its text tells. -/
theorem fValidResolve_entry_iff (isDir : tree.get home = some .dir)
    (spelled : dirname child.bytes = dbDir) (last : basename child.bytes = name.bytes)
    {path : VerifiedPath} :
    fValidResolve tree (render home) child = .ok (some path) ↔
      (render home ++ slash :: dbDirName.bytes).length < pathMax ∧ ∃ directory,
        DbDirAt tree home directory ∧
          (render directory ++ slash :: name.bytes).length < pathMax ∧
          render home <+: render directory ++ slash :: name.bytes ∧
          path = ⟨render directory ++ slash :: name.bytes⟩ := by
  have spelled' : joined (render home) dbDir = render home ++ slash :: dbDirName.bytes :=
    joined_plain _ dbDirName
  rw [fValidResolve_some_iff, spelled, last, spelled']
  apply and_congr_right
  intro short
  constructor
  · rintro ⟨parent, found, _, short', within, rfl⟩
    rcases FileTree.realpath_eq_some found with ⟨directory, located, rfl, _, _⟩
    rw [← spelled', locate_dbDir isDir short] at located
    rw [joined_plain] at short' within ⊢
    exact ⟨directory, located, short', within, rfl⟩
  · rintro ⟨directory, leads, short', within, rfl⟩
    refine ⟨render directory, ?_, name.valid.2.2.2.1, ?_⟩
    · rw [← spelled', FileTree.realpath, locate_dbDir isDir short, leads]
      apply if_pos
      rw [List.length_append] at short'
      omega
    · rw [joined_plain]
      exact ⟨short', within, rfl⟩

theorem denotes_entry_iff (isDir : tree.get home = some .dir)
    (leads : DbDirAt tree home directory)
    (short : (render directory ++ slash :: name.bytes).length < pathMax) :
    tree.Denotes (render directory ++ slash :: name.bytes) place ↔
      EntryAt tree home name place := by
  have located : tree.locate true (render directory ++ slash :: name.bytes) =
      tree.walk true FileTree.maxLinks directory [.name name] := by
    rw [FileTree.locate_below _ (leads.solid isDir) _ short,
      components_of_not_mem name.noSlash, Component.ofBytes_name]
  constructor
  · rintro ⟨target, reached, rfl⟩
    exact ⟨directory, target, leads, located ▸ reached, rfl⟩
  · rintro ⟨directory', target, leads', reached, rfl⟩
    cases leads.unique leads'
    exact ⟨target, located.trans reached, rfl⟩

theorem entryAt_missing (leads : DbDirAt tree home directory)
    (isDbDir : tree.get directory = some .dir)
    (missing : tree.get (name :: directory) = none) :
    EntryAt tree home name (name :: directory) := by
  refine ⟨directory, .slot (name :: directory), leads, ?_, rfl⟩
  rw [FileTree.walk_entry _ isDbDir, missing]

theorem entryAt_file {content : Bytes} (leads : DbDirAt tree home directory)
    (isFile : tree.get (name :: directory) = some (.file content)) :
    EntryAt tree home name (name :: directory) := by
  refine ⟨directory, .node (name :: directory), leads, ?_, rfl⟩
  rw [FileTree.walk_entry _ (FileTree.parent_of_get isFile), isFile]

theorem DbDirAt.refilled {after : FileTree} (leads : DbDirAt tree home directory)
    (isDir : tree.get home = some .dir) (refilled : FileTree.Refilled tree after) :
    DbDirAt after home directory := by
  have same : FileTree.Refilled.SamePlace
      (tree.walk true FileTree.maxLinks home [.name dbDirName])
      (after.walk true FileTree.maxLinks home [.name dbDirName]) :=
    refilled.walk_samePlace FileTree.maxLinks home _
  rw [FileTree.Refilled.SamePlace, leads] at same
  cases later : after.walk true FileTree.maxLinks home [.name dbDirName] with
  | error code => simp [later, Except.toOption] at same
  | ok target =>
      have samePlace : directory = target.location := by
        simpa [later, Except.toOption] using same
      cases target with
      | node place => rw [DbDirAt, later, samePlace, Target.location_node]
      | slot place =>
          have isDir' := (refilled.dir_iff home).mpr isDir
          have missing := (FileTree.walk_delivered (FileTree.solid_of_dir isDir') later).1
          rcases leads.solid isDir with ⟨node, found, _⟩
          rw [samePlace, Target.location_slot] at found
          rcases refilled place with kept | ⟨⟨content, filled⟩, _⟩
          · rw [kept, found] at missing
            cases missing
          · rw [filled] at missing
            cases missing

end FileTransfer
