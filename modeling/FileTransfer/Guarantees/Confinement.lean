import FileTransfer.Server.FileRequests

/-! # Confinement to the home directory

Which paths a client can have verified that lead out of the home directory, for
requests that need an existing node and for requests that create one.
-/

namespace FileTransfer

open Foundation Posix

structure Home (tree : FileTree) where
  name : Name
  parent : Location
  isDir : tree.get (name :: parent) = some .dir

namespace Home

variable {tree : FileTree} (home : Home tree)

def location : Location := home.name :: home.parent

def path : VerifiedPath := ⟨render home.location⟩

def ServedBy (server : Server) : Prop :=
  server.tree = tree ∧ server.db.homeDir = home.path

def InExtension (location : Location) : Prop :=
  ∃ other, Name.Extends other home.name ∧ AtOrBelow (other :: home.parent) location

theorem prefix_render_iff (location : Location) :
    home.path.path <+: render location ↔
      AtOrBelow home.location location ∨ home.InExtension location :=
  render_prefix_render_iff home.name home.parent location

variable {home}

theorem InExtension.not_atOrBelow {location : Location}
    (within : home.InExtension location) : ¬ AtOrBelow home.location location := by
  rcases within with ⟨other, extended, within⟩
  exact not_atOrBelow_sibling extended.2.symm within

end Home

/-! ## Requests for existing nodes -/

section

variable {tree : FileTree} (home : Home tree) (child : CString)

/-- What `f_ver_path_resolve` verifies lies in the home directory, and so does
all that GET, LIST and DELETE requests send or remove. -/
structure ReadsConfined : Prop where
  path : ∀ path, fVerPathResolve tree home.path (some child) = .ok (some path) →
    path = home.path ∨ home.path.path ++ [slash] <+: path.path
  content : ∀ (env : Env) (sha : Sha256) (timeout : Int) (server : Server)
    (request : WirePayload) (handled : Handled) (act : Act) (content : FileContent),
    home.ServedBy server → Asks request act child →
    ctrlParseAction env sha timeout server request = .ok handled →
    handled.response.content = some content →
    ∃ location, AtOrBelow home.location location ∧ content.path = render location ∧
      ReadFrom env tree location content act
  files : ∀ (env : Env) (sha : Sha256) (timeout : Int) (server : Server)
    (request : WirePayload) (handled : Handled) (act : Act),
    act = .getRemoteFile ∨ act = .listRemoteDirectory ∨ act = .deleteRemoteFile →
    home.ServedBy server → Asks request act child →
    ctrlParseAction env sha timeout server request = .ok handled →
    FileTree.AgreeOff (AtOrBelow home.location) tree handled.server.tree

def LeadsToExtension : Prop :=
  home.path.path.length + child.length + slashPlusNull ≤ pathMax ∧
    ∃ location, home.InExtension location ∧
      tree.realpath (joined home.path.path child.bytes) = some (render location)

variable {home child}

theorem fPathResolve_within (stays : ¬ LeadsToExtension home child) {location : Location}
    (resolved : fPathResolve tree home.path.path child = .ok (some ⟨render location⟩)) :
    AtOrBelow home.location location := by
  rcases fPathResolve_some_iff.mp resolved with ⟨fits, found, isPrefix⟩
  rcases (home.prefix_render_iff location).mp isPrefix with within | extension
  · exact within
  · exact absurd ⟨fits, location, extension, found⟩ stays

theorem readsConfined_of_stays (stays : ¬ LeadsToExtension home child) :
    ReadsConfined home child where
  path := by
    intro path resolved
    rcases fPathResolve_place resolved with ⟨location, rfl, _, _, _⟩
    have within := fPathResolve_within stays resolved
    by_cases isHome : location = home.location
    · exact .inl (by rw [isHome]; rfl)
    · exact .inr ((render_slash_prefix_iff _ _ location).mpr ⟨within, isHome⟩)
  content := by
    rintro env sha timeout server request handled act content ⟨sameTree, sameHome⟩ asks
      done carries
    rcases ctrlParseAction_content done carries with
      ⟨act', child', location, asks', resolved, samePath, source⟩
    rcases asks.unique asks' with ⟨rfl, rfl⟩
    rw [sameTree, sameHome] at resolved
    rw [sameTree] at source
    exact ⟨location, fPathResolve_within stays resolved, samePath, source⟩
  files := by
    rintro env sha timeout server request handled act which ⟨sameTree, sameHome⟩ asks done
    have notUser : request.optCode ≠ Act.userOperation.toByte := by
      rw [asks.opcode]
      rcases which with rfl | rfl | rfl <;> decide
    have changes := ctrlParseAction_changes done notUser
    rw [sameTree] at changes
    refine changes.mono fun place changeable => ?_
    cases changeable with
    | deleted child' location asks' resolved =>
        rcases asks.unique asks' with ⟨rfl, rfl⟩
        rw [sameTree, sameHome] at resolved
        exact fPathResolve_within stays resolved
    | made child' path location asks' resolved touched =>
        rcases asks.unique asks' with ⟨rfl, _⟩
        simp at which
    | stored child' path location asks' absent resolved touched =>
        rcases asks.unique asks' with ⟨rfl, _⟩
        simp at which

/-- GET, LIST and DELETE keep to the home directory, but for paths that lead into
a sibling whose name extends the name of the home directory. -/
theorem readsConfined_iff {tree : FileTree} (home : Home tree) (child : CString) :
    ReadsConfined home child ↔ ¬ LeadsToExtension home child := by
  refine ⟨fun confined leads => ?_, readsConfined_of_stays⟩
  rcases leads with ⟨fits, location, extension, found⟩
  have resolved : fVerPathResolve tree home.path (some child) =
      .ok (some ⟨render location⟩) :=
    fPathResolve_some_iff.mpr
      ⟨fits, found, (home.prefix_render_iff location).mpr (.inr extension)⟩
  refine extension.not_atOrBelow ?_
  rcases confined.path _ resolved with isHome | below
  · have same : location = home.location :=
      render_injective (congrArg VerifiedPath.path isHome)
    rw [same]
    exact List.suffix_refl _
  · exact ((render_slash_prefix_iff _ _ location).mp below).1

end

/-! A home directory with a longer-named sibling, and a link out of it. -/

def nameOf (text : String) (valid : NameValid (ascii text)) : Name := ⟨ascii text, valid⟩

def srv : Name := nameOf "srv" (by decide)
def homeName : Name := nameOf "home" (by decide)
def home2 : Name := nameOf "home2" (by decide)
def notes : Name := nameOf "notes" (by decide)
def shortcut : Name := nameOf "shortcut" (by decide)

def siblingTree : FileTree :=
  ((((FileTree.bare.put [srv] .dir).put [homeName, srv] .dir).put [home2, srv] .dir).put
    [notes, home2, srv] (.file (ascii "secret"))).put [shortcut, homeName, srv]
      (.link (ascii "/srv/notes"))

def siblingHome : Home siblingTree where
  name := homeName
  parent := [srv]
  isDir := by decide

set_option maxRecDepth 4000 in
theorem sibling_file_verified :
    ¬ ReadsConfined siblingHome (.ofBuffer (ascii "../home2/notes")) := by
  intro confined
  have verified : fVerPathResolve siblingTree siblingHome.path
      (some (.ofBuffer (ascii "../home2/notes"))) =
        .ok (some ⟨ascii "/srv/home2/notes"⟩) := by decide
  have inside := confined.path _ verified
  revert inside
  decide

/-! ## Requests for new nodes -/

section

variable {tree : FileTree} (home : Home tree) (child : CString)

/-- Whatever writing to a path touches that `f_ver_valid_resolve` verifies lies
strictly below the home directory, and so does all that PUT and MKDIR change. -/
structure WritesConfined : Prop where
  path : ∀ path, fVerValidResolve tree home.path (some child) = .ok (some path) →
    ∀ location, tree.Touched path.path location → StrictlyBelow home.location location
  files : ∀ (env : Env) (sha : Sha256) (timeout : Int) (server : Server)
    (request : WirePayload) (handled : Handled) (act : Act),
    act = .putRemoteFile ∨ act = .makeRemoteDirectory →
    home.ServedBy server → Asks request act child →
    ctrlParseAction env sha timeout server request = .ok handled →
    FileTree.AgreeOff (StrictlyBelow home.location) tree handled.server.tree

/-- The path names the entry `name` of the directory `above`: its directory part
leads there, its last component is the name, and both joined paths fit. In the
root no entry passes the comparison, for the joined path begins with two slashes. -/
structure NamesEntry (above : Location) (name : Name) : Prop where
  fits : (joined home.path.path (dirname child.bytes)).length < pathMax
  directory : tree.realpath (joined home.path.path (dirname child.bytes)) =
    some (render above)
  isDir : tree.get above = some .dir
  notRoot : above ≠ []
  last : basename child.bytes = name.bytes
  joins : (render (name :: above)).length < pathMax

inductive LeadsWritersOut : Prop
  /-- The entry is missing, or a file, in an extension of the home directory. -/
  | extension (above : Location) (name : Name) (names : NamesEntry home child above name)
      (within : home.InExtension (name :: above))
      (notDir : tree.get (name :: above) ≠ some .dir)
      (notLink : ∀ text, tree.get (name :: above) ≠ some (.link text))
  /-- The entry is a link to a place outside that is missing or a file. -/
  | link (above : Location) (name : Name) (text : Bytes) (target : Target)
      (names : NamesEntry home child above name)
      (within : AtOrBelow home.location (name :: above) ∨ home.InExtension (name :: above))
      (isLink : tree.get (name :: above) = some (.link text))
      (follows : tree.follow above text = .ok target)
      (notDir : tree.get target.location ≠ some .dir)
      (outside : ¬ StrictlyBelow home.location target.location)

variable {home child}

theorem NamesEntry.resolves {above : Location} {name : Name}
    (names : NamesEntry home child above name)
    (within : AtOrBelow home.location (name :: above) ∨ home.InExtension (name :: above)) :
    fVerValidResolve tree home.path (some child) = .ok (some ⟨render (name :: above)⟩) := by
  have spelled : joined (render above) (basename child.bytes) = render (name :: above) := by
    rw [names.last, joined_of_noSlash _ name.noSlash, render_cons names.notRoot]
  refine fValidResolve_some_iff.mpr
    ⟨names.fits, render above, names.directory, ?_, ?_, ?_, ?_⟩
  · rw [names.last]
    exact name.valid.2.2.2.1
  · rw [spelled]
    exact names.joins
  · rw [spelled]
    exact (home.prefix_render_iff _).mpr within
  · rw [spelled]

theorem fValidResolve_entry {path : VerifiedPath} {location : Location}
    (resolved : fVerValidResolve tree home.path (some child) = .ok (some path))
    (touched : tree.Touched path.path location) :
    ∃ above name, NamesEntry home child above name ∧ path = ⟨render (name :: above)⟩ ∧
      (AtOrBelow home.location (name :: above) ∨ home.InExtension (name :: above)) := by
  rcases fValidResolve_some_iff.mp resolved with
    ⟨fits, directory, parent, _, joins, isPrefix, rfl⟩
  rcases FileTree.realpath_eq_some parent with ⟨above, _, rfl, _, solid⟩
  rcases basename_cases child.bytes with isSlash | noSlash
  · -- A path of slashes only: the joined path ends in one, and leads to a directory.
    have trailing : joined (render above) (basename child.bytes) =
        render above ++ slash :: [] := by
      rw [isSlash]
      rfl
    rw [trailing] at joins touched
    rcases FileTree.touched_below solid (by simp) joins touched with ⟨_, name, empty⟩
    exact absurd empty.symm name.valid.1
  · rw [joined_of_noSlash _ noSlash] at joins touched isPrefix ⊢
    rcases FileTree.touched_below solid noSlash joins touched with ⟨isDir, name, last⟩
    rw [last] at joins isPrefix ⊢
    have notRoot : above ≠ [] := by
      rintro rfl
      exact not_render_prefix_root home.name name home.parent isPrefix
    rw [← render_cons notRoot] at joins isPrefix ⊢
    exact ⟨above, name, ⟨fits, parent, isDir, notRoot, last, joins⟩, rfl,
      (home.prefix_render_iff _).mp isPrefix⟩

theorem NamesEntry.touched_iff {above location : Location} {name : Name}
    (names : NamesEntry home child above name) :
    tree.Touched (render (name :: above)) location ↔
      (tree.get (name :: above) ≠ some .dir ∧
          (∀ text, tree.get (name :: above) ≠ some (.link text)) ∧
          location = name :: above) ∨
        ∃ text target, tree.get (name :: above) = some (.link text) ∧
          tree.follow above text = .ok target ∧ target.location = location ∧
          tree.get location ≠ some .dir := by
  have joins := names.joins
  rw [render_cons names.notRoot] at joins ⊢
  exact FileTree.touched_entry_iff names.isDir joins

theorem touched_below_home (stays : ¬ LeadsWritersOut home child) {path : VerifiedPath}
    {location : Location}
    (resolved : fVerValidResolve tree home.path (some child) = .ok (some path))
    (touched : tree.Touched path.path location) :
    StrictlyBelow home.location location := by
  rcases fValidResolve_entry resolved touched with ⟨above, name, names, rfl, within⟩
  rcases names.touched_iff.mp touched with
    ⟨notDir, notLink, rfl⟩ | ⟨text, target, isLink, follows, rfl, notDir⟩
  · rcases within with atHome | extension
    · refine ⟨atHome, fun isHome => notDir ?_⟩
      rw [isHome]
      exact home.isDir
    · exact absurd (.extension above name names extension notDir notLink) stays
  · by_contra outside
    exact stays (.link above name text target names within isLink follows notDir outside)

/-- PUT and MKDIR keep strictly below the home directory, but for entries of its
extensions and for links that lead out. -/
theorem writesConfined_iff {tree : FileTree} (home : Home tree) (child : CString) :
    WritesConfined home child ↔ ¬ LeadsWritersOut home child := by
  constructor
  · intro confined leads
    cases leads with
    | extension above name names within notDir notLink =>
        have below := confined.path _ (names.resolves (.inr within)) (name :: above)
          (names.touched_iff.mpr (.inl ⟨notDir, notLink, rfl⟩))
        exact within.not_atOrBelow below.1
    | link above name text target names within isLink follows notDir outside =>
        exact outside (confined.path _ (names.resolves within) target.location
          (names.touched_iff.mpr (.inr ⟨text, target, isLink, follows, rfl, notDir⟩)))
  · intro stays
    refine ⟨fun path resolved location => touched_below_home stays resolved, ?_⟩
    rintro env sha timeout server request handled act which ⟨sameTree, sameHome⟩ asks done
    have notUser : request.optCode ≠ Act.userOperation.toByte := by
      rw [asks.opcode]
      rcases which with rfl | rfl <;> decide
    have changes := ctrlParseAction_changes done notUser
    rw [sameTree] at changes
    refine changes.mono fun place changeable => ?_
    cases changeable with
    | deleted child' location asks' resolved =>
        rcases asks.unique asks' with ⟨rfl, _⟩
        simp at which
    | made child' path location asks' resolved touched =>
        rcases asks.unique asks' with ⟨_, rfl⟩
        rw [sameTree, sameHome] at resolved
        rw [sameTree] at touched
        exact touched_below_home stays resolved touched
    | stored child' path location asks' absent resolved touched =>
        rcases asks.unique asks' with ⟨_, rfl⟩
        rw [sameTree, sameHome] at resolved
        rw [sameTree] at touched
        exact touched_below_home stays resolved touched

end

theorem shortcut_leads_out : ¬ WritesConfined siblingHome (.ofBuffer (ascii "shortcut")) := by
  intro confined
  have verified : fVerValidResolve siblingTree siblingHome.path
      (some (.ofBuffer (ascii "shortcut"))) = .ok (some ⟨ascii "/srv/home/shortcut"⟩) := by
    decide +kernel
  have located : siblingTree.locate true (ascii "/srv/home/shortcut") =
      .ok (.slot [notes, srv]) := by decide +kernel
  have absent : siblingTree.get [notes, srv] ≠ some .dir := by decide +kernel
  have touched : siblingTree.Touched (ascii "/srv/home/shortcut") [notes, srv] :=
    .opened (.slot [notes, srv]) located absent
  have below := confined.path _ verified _ touched
  have outside : ¬ StrictlyBelow siblingHome.location [notes, srv] := by decide +kernel
  exact outside below

end FileTransfer
