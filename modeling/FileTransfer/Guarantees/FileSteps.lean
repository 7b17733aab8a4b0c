import FileTransfer.Guarantees.FileService
import FileTransfer.Server.FileWorkers

/-! # Steps of file requests
What each step of a worker does to the shelf that the files are: nothing, or all that its
request asks for, unless it acts on what another has changed since it looked: overwrites a
file that came up, or finds another kind of node where it is about to delete.
-/

namespace FileTransfer

open Foundation Posix

/-! ## Places at home -/

section Places

variable {server : Server} {home path location : Location} {shelf : Shelf Name Bytes}
  {name : Name} {parent : Location} {tree : FileTree}

namespace KeepsShelf

theorem clear (keeps : KeepsShelf server home shelf) (path : Location) :
    server.tree.Clear [] (path ++ home).reverse := by
  apply FileTree.clear_of_above
  intro place isAbove text
  rw [List.reverse_reverse, List.append_nil] at isAbove
  rcases List.suffix_or_suffix_of_suffix isAbove (List.suffix_append path home) with
    aboveHome | ⟨below, rfl⟩
  · rcases aboveHome with ⟨rest, same⟩
    have homeDir := keeps.homeDir
    rw [← same] at homeDir
    simp [FileTree.dir_of_below homeDir]
  · exact keeps.noLinks below text

theorem leads (keeps : KeepsShelf server home shelf) {followLast : Bool} {target : Target}
    (located : server.tree.locate followLast (render (path ++ home)) = .ok target) :
    target.location = path ++ home := by
  simp only [FileTree.locate] at located
  split at located
  · cases located
  split at located
  · cases located
  have place := FileTree.walk_plain (keeps.clear path) (steps_render _) located
  rw [place, List.reverse_reverse, List.append_nil]

theorem missing (keeps : KeepsShelf server home shelf)
    (absent : shelf.entry (name :: parent) = none) :
    server.tree.Missing (render (name :: (parent ++ home))) := by
  intro followLast target located
  have place : target.location = (name :: parent) ++ home := keeps.leads located
  rw [place]
  exact keeps.free_iff.mpr absent

theorem solid (keeps : KeepsShelf server home shelf) {entry : Entry Bytes}
    (present : shelf.entry (name :: parent) = some entry) :
    server.tree.Solid (name :: (parent ++ home)) := by
  refine ⟨entryNode entry, ?_, ?_⟩
  · rw [keeps.entry, present]
    rfl
  · intro text
    cases entry <;> simp [entryNode]

theorem dirEntry (keeps : KeepsShelf server home shelf)
    (folder : shelf.entry (name :: parent) = some .folder) :
    server.tree.get (name :: (parent ++ home)) = some .dir :=
  keeps.folder_iff.mpr folder

theorem creatable_leads (keeps : KeepsShelf server home shelf) {followLast : Bool}
    {target : Target}
    (located : server.tree.locate followLast (joined (render (parent ++ home)) name.bytes) =
      .ok target) :
    target.location = name :: (parent ++ home) ∧ shelf.entry parent = some .folder := by
  have place : target.location = name :: (parent ++ home) := by
    have spelled : steps (components (joined (render (parent ++ home)) name.bytes)) =
        (name :: (parent ++ home)).reverse.map .name := by
      rw [joined_of_noSlash _ name.noSlash, components_append_slash,
        components_of_not_mem name.noSlash, Component.ofBytes_name, steps_append, steps_render,
        List.reverse_cons, List.map_append]
      rfl
    simp only [FileTree.locate] at located
    split at located
    · cases located
    split at located
    · cases located
    have there := FileTree.walk_plain (keeps.clear (name :: parent)) spelled located
    rw [there, List.append_nil, List.reverse_reverse]
    rfl
  refine ⟨place, keeps.folder_iff.mp ?_⟩
  have delivered := FileTree.locate_delivered located
  cases target with
  | node location =>
      cases place
      rcases delivered with ⟨node, found, _⟩ | ⟨_, text, found⟩
      · exact FileTree.parent_of_get found
      · exact FileTree.parent_of_get found
  | slot location =>
      cases place
      exact delivered.2.1

theorem creatable_located (keeps : KeepsShelf server home shelf)
    (folder : shelf.entry parent = some .folder)
    (fits : (joined (render (parent ++ home)) name.bytes).length < pathMax) (followLast : Bool) :
    server.tree.locate followLast (joined (render (parent ++ home)) name.bytes) =
      .ok (if shelf.entry (name :: parent) = none then .slot (name :: (parent ++ home))
        else .node (name :: (parent ++ home))) := by
  have isDir := keeps.folder_iff.mpr folder
  rw [locate_verified name (FileTree.solid_of_dir isDir) fits, FileTree.maxLinks, FileTree.walk,
    FileTree.walkFrom, if_neg (not_not.mpr isDir)]
  have found := keeps.entry name parent
  cases present : shelf.entry (name :: parent) with
  | none =>
      rw [present] at found
      simp only [found, Option.map_none, if_true]
  | some entry =>
      rw [present] at found
      cases entry <;> simp only [found, Option.map_some, entryNode, reduceCtorEq, if_false] <;> rfl

end KeepsShelf

end Places

/-! ## Jobs on the shelf -/

inductive JobAsks (home : Location) : FileJob → Ask Name Bytes → Prop
  | get {payload : StdPayload} {child : CString} {name : Name} {parent : Location}
      (given : payload.cPath = some child) (spells : Spells home child name parent) :
      JobAsks home (.get payload) (.get (name :: parent))
  | put {payload : StdPayload} {child : CString} {name : Name} {parent : Location}
      (content : Bytes) (given : payload.cPath = some child)
      (file : payload.byteStream = if content = [] then none else some content)
      (spells : Spells home child name parent) :
      JobAsks home (.put payload) (.put name parent content)
  | makeDir {payload : StdPayload} {child : CString} {name : Name} {parent : Location}
      (given : payload.cPath = some child) (spells : Spells home child name parent) :
      JobAsks home (.makeDir payload) (.mkdir name parent)
  | del {payload : StdPayload} {child : CString} {name : Name} {parent : Location}
      (given : payload.cPath = some child) (spells : Spells home child name parent) :
      JobAsks home (.del payload) (.delete name parent)

def entryPath (home : Location) (name : Name) (parent : Location) : VerifiedPath :=
  ⟨render (name :: (parent ++ home))⟩

def newEntryPath (home : Location) (name : Name) (parent : Location) : VerifiedPath :=
  ⟨joined (render (parent ++ home)) name.bytes⟩

inductive Pursues (home : Location) : FileWorker → Ask Name Bytes → Prop
  | ready {job : FileJob} {ask : Ask Name Bytes} (asks : JobAsks home job ask) :
      Pursues home (.ready job) ask
  | absent {payload : StdPayload} {child : CString} {name : Name} {parent : Location}
      (content : Bytes) (given : payload.cPath = some child)
      (file : payload.byteStream = if content = [] then none else some content)
      (spells : Spells home child name parent) :
      Pursues home (.absent payload) (.put name parent content)
  | writing {name : Name} {parent : Location} (content : Bytes)
      (fits : (newEntryPath home name parent).path.length < pathMax) :
      Pursues home
        (.writing (newEntryPath home name parent) (if content = [] then none else some content))
        (.put name parent content)
  | making {name : Name} {parent : Location}
      (fits : (newEntryPath home name parent).path.length < pathMax) :
      Pursues home (.making (newEntryPath home name parent)) (.mkdir name parent)
  | deleting {name : Name} {parent : Location}
      (short : (entryPath home name parent).path.length < pathMax) :
      Pursues home (.deleting (entryPath home name parent)) (.delete name parent)
  | unlinking {name : Name} {parent : Location}
      (short : (entryPath home name parent).path.length < pathMax) :
      Pursues home (.unlinking (entryPath home name parent)) (.delete name parent)
  | opening {name : Name} {parent : Location}
      (short : (entryPath home name parent).path.length < pathMax) :
      Pursues home (.opening (entryPath home name parent)) (.delete name parent)
  | removing {name : Name} {parent : Location}
      (short : (entryPath home name parent).path.length < pathMax) :
      Pursues home (.removing (entryPath home name parent)) (.delete name parent)
  | examining {name : Name} {parent : Location}
      (short : (entryPath home name parent).path.length < pathMax) :
      Pursues home (.examining (entryPath home name parent)) (.get (name :: parent))
  | reading {name : Name} {parent : Location}
      (short : (entryPath home name parent).path.length < pathMax) :
      Pursues home (.reading (entryPath home name parent)) (.get (name :: parent))
  | done {ask : Ask Name Bytes} (response : ActResp) : Pursues home (.done response) ask

namespace FileWorker

def kindAt (tree : FileTree) (path : VerifiedPath) : Option FileKind :=
  (tree.stat (fun _ => 0) path.path).toOption.map Stat.kind

/-- Nobody has undone what the worker has found, where it matters for its next step. -/
def undisturbed (tree : FileTree) : FileWorker → Bool
  | writing path _ => kindAt tree path ≠ some .regular
  | unlinking path => kindAt tree path ≠ some .directory
  | opening path => kindAt tree path = some .directory
  | removing path => kindAt tree path ≠ some .regular
  | reading path => kindAt tree path ≠ some .directory
  | _ => true

def answer : FileWorker → Option ActResp
  | done response => some response
  | _ => none

end FileWorker

def ShelfAnswers (sha : Sha256) (shelf : Shelf Name Bytes) (ask : Ask Name Bytes)
    (response : ActResp) (after : Shelf Name Bytes) : Prop :=
  ∃ reply, Shelf.Step [] (fun _ => False) shelf ask reply after ∧ Replied sha reply response

/-- What a worker has found on the shelf and relies on, where folders may be made in some
places by others. -/
def Relies (makes : Location → Prop) (shelf : Shelf Name Bytes) :
    FileWorker → Ask Name Bytes → Prop
  | .absent _, .put name parent _ | .writing _ _, .put name parent _ =>
      shelf.entry (name :: parent) = none
  | .unlinking _, .delete name parent =>
      ∃ content, shelf.entry (name :: parent) = some (.file content)
  | .opening _, .delete name parent | .removing _, .delete name parent =>
      shelf.entry (name :: parent) = some .folder
  | .reading _, .get path => Shelf.NoFolder makes shelf path
  | _, _ => True

theorem Relies.of_same {makes : Location → Prop} {shelf after : Shelf Name Bytes}
    {worker : FileWorker} {ask : Ask Name Bytes} (relies : Relies makes shelf worker ask)
    (same : ∀ path, ask.place = some path → after.entry path = shelf.entry path)
    (still : ∀ path, Shelf.NoFolder makes shelf path → Shelf.NoFolder makes after path) :
    Relies makes after worker ask := by
  cases ask with
  | get path =>
      cases worker with
      | reading file => exact still path relies
      | _ => trivial
  | put name parent content =>
      have same' := same _ rfl
      cases worker <;> simp_all only [Relies]
  | delete name parent =>
      have same' := same _ rfl
      cases worker <;> simp_all only [Relies]
  | _ => cases worker <;> trivial

inductive Progress (sha : Sha256) (shelf : Shelf Name Bytes) (ask : Ask Name Bytes) :
    FileWorker → Shelf Name Bytes → Prop
  | onward (next : FileWorker) (unanswered : next.answer = none) :
      Progress sha shelf ask next shelf
  | answered (response : ActResp) (after : Shelf Name Bytes)
      (answers : ShelfAnswers sha shelf ask response after) :
      Progress sha shelf ask (.done response) after

theorem Progress.noFolder {sha : Sha256} {shelf after : Shelf Name Bytes}
    {ask : Ask Name Bytes} {next : FileWorker} {makes : Location → Prop} {path : Location}
    (progress : Progress sha shelf ask next after) (own : ask.makes = some path → makes path)
    (alone : ask.place = some path → ask.makes = none → ¬ makes path)
    (noFolder : Shelf.NoFolder makes shelf path) : Shelf.NoFolder makes after path := by
  cases progress with
  | onward _ _ => exact noFolder
  | answered _ _ answers =>
      rcases answers with ⟨_, step, _⟩
      exact step.noFolder id noFolder own alone

theorem Progress.elsewhere {sha : Sha256} {shelf after : Shelf Name Bytes}
    {ask : Ask Name Bytes} {next : FileWorker} (progress : Progress sha shelf ask next after)
    {path : List Name} (away : ask.place ≠ some path) : after.entry path = shelf.entry path := by
  cases progress with
  | onward _ _ => rfl
  | answered _ _ answers =>
      rcases answers with ⟨_, step, _⟩
      exact step.elsewhere id away

section Jobs

variable {env : Env} {sha : Sha256} {server : Server} {home : Location}
  {shelf : Shelf Name Bytes} {name : Name} {parent : Location} {ask : Ask Name Bytes}
  {worker : FileWorker} {child : CString} {payload : StdPayload}

variable {makes : Location → Prop}

variable (env sha server home shelf makes) in
def Advances (worker : FileWorker) (ask : Ask Name Bytes) : Prop :=
  ∃ after next shelf', worker.step env sha server = .ok (after, next) ∧
    KeepsShelf after home shelf' ∧ Pursues home next ask ∧ Progress sha shelf ask next shelf' ∧
    (Relies makes shelf worker ask → Relies makes shelf' next ask)

theorem Advances.onward (keeps : KeepsShelf server home shelf) {next : FileWorker}
    (stepped : worker.step env sha server = .ok (server, next)) (pursues : Pursues home next ask)
    (unanswered : next.answer = none)
    (relies : Relies makes shelf worker ask → Relies makes shelf next ask) :
    Advances env sha server home shelf makes worker ask :=
  ⟨server, next, shelf, stepped, keeps, pursues, .onward next unanswered, relies⟩

theorem Advances.refused (keeps : KeepsShelf server home shelf) {code : RetCode}
    (stepped : worker.step env sha server = .ok (server, .answered code))
    (failed : code ≠ .opSuccess)
    (step : Shelf.Step [] (fun _ => False) shelf ask .refused shelf) :
    Advances env sha server home shelf makes worker ask :=
  ⟨server, _, shelf, stepped, keeps, .done _, .answered _ shelf ⟨.refused, step, .code failed⟩,
    fun _ => trivial⟩

theorem Advances.done {tree : FileTree} {after : Shelf Name Bytes}
    (stepped : worker.step env sha server = .ok (server.setTree tree, .answered .opSuccess))
    (keeps : KeepsShelf (server.setTree tree) home after)
    (step : Shelf.Step [] (fun _ => False) shelf ask .done after) :
    Advances env sha server home shelf makes worker ask :=
  ⟨_, _, after, stepped, keeps, .done _, .answered _ after ⟨.done, step, .done _ rfl⟩,
    fun _ => trivial⟩

/-! ### Looking a path up -/

theorem get_ready (keeps : KeepsShelf server home shelf) (given : payload.cPath = some child)
    (spells : Spells home child name parent) :
    Advances env sha server home shelf makes (.ready (.get payload)) (.get (name :: parent)) := by
  have found := keeps.resolved spells given
  by_cases absent : shelf.entry (name :: parent) = none
  · rw [if_pos absent] at found
    have stepped : FileWorker.step env sha server (.ready (.get payload)) =
        .ok (server, .answered .opResolveError) := by
      rw [FileWorker.step, found]
      rfl
    exact .refused keeps stepped (by decide) (.notGot _ (by simp [absent]))
  · rw [if_neg absent] at found
    have stepped : FileWorker.step env sha server (.ready (.get payload)) =
        .ok (server, .examining (entryPath home name parent)) := by
      rw [FileWorker.step, found]
      rfl
    exact .onward keeps stepped (.examining spells.place_short) rfl (fun _ => trivial)

theorem put_ready (keeps : KeepsShelf server home shelf) {content : Bytes}
    (given : payload.cPath = some child)
    (file : payload.byteStream = if content = [] then none else some content)
    (spells : Spells home child name parent) :
    Advances env sha server home shelf makes (.ready (.put payload))
      (.put name parent content) := by
  have found := keeps.resolved spells given
  by_cases absent : shelf.entry (name :: parent) = none
  · rw [if_pos absent] at found
    have stepped : FileWorker.step env sha server (.ready (.put payload)) =
        .ok (server, .absent payload) := by
      rw [FileWorker.step, found]
      rfl
    exact .onward keeps stepped (.absent content given file spells) rfl (fun _ => absent)
  · rw [if_neg absent] at found
    have stepped : FileWorker.step env sha server (.ready (.put payload)) =
        .ok (server, .answered .opFileExists) := by
      rw [FileWorker.step, found]
      rfl
    exact .refused keeps stepped (by decide) (.notPut _ _ _ (.inl absent))

theorem del_ready (keeps : KeepsShelf server home shelf) (given : payload.cPath = some child)
    (spells : Spells home child name parent) :
    Advances env sha server home shelf makes (.ready (.del payload)) (.delete name parent) := by
  have found := keeps.resolved spells given
  by_cases absent : shelf.entry (name :: parent) = none
  · rw [if_pos absent] at found
    have stepped : FileWorker.step env sha server (.ready (.del payload)) =
        .ok (server, .answered .opResolveError) := by
      rw [FileWorker.step, found]
      rfl
    exact .refused keeps stepped (by decide) (.notDeleted _ _ (.inl absent))
  · rw [if_neg absent] at found
    have stepped : FileWorker.step env sha server (.ready (.del payload)) =
        .ok (server, .deleting (entryPath home name parent)) := by
      rw [FileWorker.step, found]
      rfl
    exact .onward keeps stepped (.deleting spells.place_short) rfl (fun _ => trivial)

theorem verified_cases (keeps : KeepsShelf server home shelf)
    (given : payload.cPath = some child) (spells : Spells home child name parent) :
    (shelf.entry parent ≠ some .folder ∧
        fVerValidResolve server.tree server.db.homeDir payload.cPath = .ok none) ∨
      fVerValidResolve server.tree server.db.homeDir payload.cPath =
        .ok (some (newEntryPath home name parent)) := by
  rw [given, keeps.serves]
  rcases spells.verified_or keeps.homeDir keeps.noLinks with nowhere | verified
  · refine .inl ⟨?_, nowhere⟩
    intro folder
    have verified := spells.verified keeps.homeDir (keeps.folder_iff.mpr folder)
    cases nowhere.symm.trans verified
  · exact .inr verified

theorem makeDir_ready (keeps : KeepsShelf server home shelf)
    (given : payload.cPath = some child) (spells : Spells home child name parent) :
    Advances env sha server home shelf makes (.ready (.makeDir payload)) (.mkdir name parent) := by
  rcases verified_cases keeps given spells with ⟨noFolder, nowhere⟩ | verified
  · have stepped : FileWorker.step env sha server (.ready (.makeDir payload)) =
        .ok (server, .answered .opResolveError) := by
      rw [FileWorker.step, nowhere]
      rfl
    exact .refused keeps stepped (by decide) (.notMade _ _ (.inr noFolder))
  · have stepped : FileWorker.step env sha server (.ready (.makeDir payload)) =
        .ok (server, .making (newEntryPath home name parent)) := by
      rw [FileWorker.step, verified]
      rfl
    exact .onward keeps stepped (.making spells.fits) rfl (fun _ => trivial)

theorem put_absent (keeps : KeepsShelf server home shelf) {content : Bytes}
    (given : payload.cPath = some child)
    (file : payload.byteStream = if content = [] then none else some content)
    (spells : Spells home child name parent) :
    Advances env sha server home shelf makes (.absent payload) (.put name parent content) := by
  rcases verified_cases keeps given spells with ⟨noFolder, nowhere⟩ | verified
  · have stepped : FileWorker.step env sha server (.absent payload) =
        .ok (server, .answered .opResolveError) := by
      rw [FileWorker.step, nowhere]
      rfl
    exact .refused keeps stepped (by decide) (.notPut _ _ _ (.inr (.inl noFolder)))
  · have stepped : FileWorker.step env sha server (.absent payload) =
        .ok (server, .writing (newEntryPath home name parent)
          (if content = [] then none else some content)) := by
      rw [FileWorker.step, verified, ← file]
      rfl
    exact .onward keeps stepped (.writing content spells.fits) rfl id

/-! ### Kinds of nodes -/

theorem located_entry (keeps : KeepsShelf server home shelf) {entry : Entry Bytes}
    (present : shelf.entry (name :: parent) = some entry)
    (short : (entryPath home name parent).path.length < pathMax) (followLast : Bool) :
    server.tree.locate followLast (entryPath home name parent).path =
      .ok (.node (name :: (parent ++ home))) :=
  FileTree.locate_render followLast (keeps.solid present) short

theorem kindAt_file (keeps : KeepsShelf server home shelf) {content : Bytes}
    (isFile : shelf.entry (name :: parent) = some (.file content))
    (short : (entryPath home name parent).path.length < pathMax) :
    FileWorker.kindAt server.tree (entryPath home name parent) = some .regular := by
  have located := located_entry keeps isFile short true
  rw [FileWorker.kindAt, FileTree.stat_file _ located (keeps.file_iff.mpr isFile)]
  rfl

theorem kindAt_folder (keeps : KeepsShelf server home shelf)
    (folder : shelf.entry (name :: parent) = some .folder)
    (short : (entryPath home name parent).path.length < pathMax) :
    FileWorker.kindAt server.tree (entryPath home name parent) = some .directory := by
  have located := located_entry keeps folder short true
  have isDir := keeps.dirEntry folder
  rw [FileWorker.kindAt, FileTree.stat_dir _ located isDir]
  rfl

theorem kindAt_missing (keeps : KeepsShelf server home shelf)
    (absent : shelf.entry (name :: parent) = none) :
    FileWorker.kindAt server.tree (entryPath home name parent) = none := by
  rcases (keeps.missing absent).stat (fun _ => 0) with ⟨code, failed⟩
  rw [FileWorker.kindAt, entryPath, failed]
  rfl

theorem kindAt_new (keeps : KeepsShelf server home shelf) {content : Bytes}
    (isFile : shelf.entry (name :: parent) = some (.file content))
    (fits : (newEntryPath home name parent).path.length < pathMax) :
    FileWorker.kindAt server.tree (newEntryPath home name parent) = some .regular := by
  have folder := shelf.above name parent (by simp [isFile])
  have located := keeps.creatable_located folder fits true
  rw [if_neg (by simp [isFile])] at located
  rw [FileWorker.kindAt, newEntryPath, FileTree.stat_file _ located (keeps.file_iff.mpr isFile)]
  rfl

theorem kindAt_newMissing (keeps : KeepsShelf server home shelf)
    (absent : shelf.entry (name :: parent) = none) :
    FileWorker.kindAt server.tree (newEntryPath home name parent) = none := by
  have missing : server.tree.Missing (newEntryPath home name parent).path := by
    intro followLast target located
    rw [(keeps.creatable_leads located).1]
    exact keeps.free_iff.mpr absent
  rcases missing.stat (fun _ => 0) with ⟨code, failed⟩
  rw [FileWorker.kindAt, failed]
  rfl

/-! ### Acting on it -/

theorem put_writing (keeps : KeepsShelf server home shelf) (smooth : env.Smooth)
    {content : Bytes} (fits : (newEntryPath home name parent).path.length < pathMax)
    (free : ∀ there, shelf.entry (name :: parent) ≠ some (.file there)) :
    Advances env sha server home shelf makes
      (.writing (newEntryPath home name parent) (if content = [] then none else some content))
      (.put name parent content) := by
  by_cases empty : content = []
  · rw [if_pos empty]
    exact .refused keeps rfl (by decide) (.notPut _ _ _ (.inr (.inr empty)))
  rw [if_neg empty]
  rcases fWriteFile_cases env.write server.tree (newEntryPath home name parent) content with
    ⟨target, located, _, notDir, wrote⟩ | ⟨unreached, code, failed, wrote⟩
  · rcases keeps.creatable_leads located with ⟨place, folder⟩
    rw [place] at notDir wrote
    have absent : shelf.entry (name :: parent) = none := by
      cases present : shelf.entry (name :: parent) with
      | none => rfl
      | some entry =>
          cases entry with
          | file there => exact absurd present (free there)
          | folder =>
              have isDir := keeps.dirEntry present
              exact absurd isDir notDir
    have stepped : FileWorker.step env sha server
        (.writing (newEntryPath home name parent) (some content)) =
        .ok (server.setTree (server.tree.put (name :: (parent ++ home)) (.file content)),
          .answered .opSuccess) := by
      rw [FileWorker.step, wrote, keeps.free_iff.mpr absent, smooth.write]
      simp
    exact .done stepped (keeps.put (.file content) absent folder) (.put _ _ _ absent folder empty)
  · have stepped : FileWorker.step env sha server
        (.writing (newEntryPath home name parent) (some content)) =
        .ok (server, .answered code) := by
      rw [FileWorker.step, wrote]
      rfl
    refine .refused keeps stepped failed (.notPut _ _ _ ?_)
    by_contra able
    rw [not_or, not_or, not_not, not_not] at able
    have located := keeps.creatable_located able.2.1 fits true
    rw [if_pos able.1] at located
    refine unreached ⟨_, located, by rw [smooth.write]; rfl, ?_⟩
    simp [keeps.free_iff.mpr able.1]

theorem fCreateDir_error {tree : FileTree} {path : VerifiedPath} {failure : Errno}
    (failed : tree.mkdir env.mkdir path.path = .error failure) :
    ∃ code, code ≠ .opSuccess ∧ fCreateDir env tree path = (code, tree) := by
  rw [fCreateDir, failed]
  cases failure <;> exact ⟨_, by decide, rfl⟩

theorem makeDir_making (keeps : KeepsShelf server home shelf) (smooth : env.Smooth)
    (fits : (newEntryPath home name parent).path.length < pathMax) :
    Advances env sha server home shelf makes (.making (newEntryPath home name parent))
      (.mkdir name parent) := by
  by_cases able : shelf.entry (name :: parent) = none ∧ shelf.entry parent = some .folder
  · rcases able with ⟨free, folder⟩
    have located := keeps.creatable_located folder fits false
    rw [if_pos free] at located
    have stepped : FileWorker.step env sha server (.making (newEntryPath home name parent)) =
        .ok (server.setTree (server.tree.put (name :: (parent ++ home)) .dir),
          .answered .opSuccess) := by
      rw [FileWorker.step, fCreateDir, newEntryPath, FileTree.mkdir_slot _ located,
        if_pos smooth.mkdir]
    exact .done stepped (keeps.put .folder free folder) (.made _ _ free folder)
  · have failed : ∃ failure,
        server.tree.mkdir env.mkdir (newEntryPath home name parent).path = .error failure := by
      rw [newEntryPath]
      cases located : server.tree.locate false (joined (render (parent ++ home)) name.bytes) with
      | error failure => exact ⟨failure, by rw [FileTree.mkdir, located]; rfl⟩
      | ok target =>
          rcases keeps.creatable_leads located with ⟨_, folder⟩
          have there := keeps.creatable_located folder fits false
          rw [if_neg fun free => able ⟨free, folder⟩] at there
          exact ⟨_, FileTree.mkdir_node _ there⟩
    rcases failed with ⟨failure, failed⟩
    rcases fCreateDir_error failed with ⟨code, unsuccessful, made⟩
    have stepped : FileWorker.step env sha server (.making (newEntryPath home name parent)) =
        .ok (server, .answered code) := by
      rw [FileWorker.step, made]
      rfl
    refine .refused keeps stepped unsuccessful (.notMade _ _ ?_)
    by_contra hindered
    rw [not_or, not_not, not_not] at hindered
    exact able hindered

theorem del_deleting (keeps : KeepsShelf server home shelf)
    (short : (entryPath home name parent).path.length < pathMax) :
    Advances env sha server home shelf makes (.deleting (entryPath home name parent))
      (.delete name parent) := by
  cases present : shelf.entry (name :: parent) with
  | none =>
      rcases (keeps.missing present).stat env.dirSize with ⟨code, failed⟩
      have stepped : FileWorker.step env sha server (.deleting (entryPath home name parent)) =
          .ok (server, .answered .opFailure) := by
        rw [FileWorker.step, entryPath, failed]
      exact .refused keeps stepped (by decide) (.notDeleted _ _ (.inl present))
  | some entry =>
      have located := located_entry keeps present short true
      cases entry with
      | file content =>
          have stepped : FileWorker.step env sha server
              (.deleting (entryPath home name parent)) =
              .ok (server, .unlinking (entryPath home name parent)) := by
            rw [FileWorker.step, FileTree.stat_file _ located (keeps.file_iff.mpr present)]
          exact .onward keeps stepped (.unlinking short) rfl (fun _ => ⟨content, present⟩)
      | folder =>
          have isDir := keeps.dirEntry present
          have stepped : FileWorker.step env sha server
              (.deleting (entryPath home name parent)) =
              .ok (server, .opening (entryPath home name parent)) := by
            rw [FileWorker.step, FileTree.stat_dir _ located isDir]
          exact .onward keeps stepped (.opening short) rfl (fun _ => present)

theorem del_unlinking (keeps : KeepsShelf server home shelf) (smooth : env.Smooth)
    (short : (entryPath home name parent).path.length < pathMax)
    (noFolder : shelf.entry (name :: parent) ≠ some .folder) :
    Advances env sha server home shelf makes (.unlinking (entryPath home name parent))
      (.delete name parent) := by
  cases present : shelf.entry (name :: parent) with
  | none =>
      rcases (keeps.missing present).unlink env.unlink with ⟨code, failed⟩
      have stepped : FileWorker.step env sha server (.unlinking (entryPath home name parent)) =
          .ok (server, .answered .opFailure) := by
        rw [FileWorker.step, entryPath, failed]
      exact .refused keeps stepped (by decide) (.notDeleted _ _ (.inl present))
  | some entry =>
      cases entry with
      | folder => exact absurd present noFolder
      | file content =>
          have located := located_entry keeps present short false
          have isFile := keeps.file_iff.mpr present
          have leaf : ∀ child, shelf.entry (child :: name :: parent) = none := by
            intro child
            by_contra below
            cases present.symm.trans (shelf.above child (name :: parent) below)
          have stepped : FileWorker.step env sha server
              (.unlinking (entryPath home name parent)) =
              .ok (server.setTree (server.tree.remove (name :: (parent ++ home))),
                .answered .opSuccess) := by
            rw [FileWorker.step, FileTree.unlink_file _ located isFile, if_pos smooth.unlink]
            rfl
          have removable : server.tree.Removable (name :: (parent ++ home)) :=
            FileTree.removable_of_not_dir (by simp [isFile])
          exact .done stepped (keeps.remove leaf removable)
            (.deleted _ _ (by simp [present]) leaf)

theorem del_opening (keeps : KeepsShelf server home shelf) (smooth : env.Smooth)
    (short : (entryPath home name parent).path.length < pathMax)
    (folder : shelf.entry (name :: parent) = some .folder) :
    Advances env sha server home shelf makes (.opening (entryPath home name parent))
      (.delete name parent) := by
  have located := located_entry keeps folder short true
  have isDir := keeps.dirEntry folder
  have read := FileTree.readDirectory_dir env.opendir env.entries located isDir
  rw [if_pos smooth.opendir] at read
  have counted := countFiles_iff env.entries server.tree (name :: (parent ++ home))
  by_cases empty : server.tree.children (name :: (parent ++ home)) = []
  · have stepped : FileWorker.step env sha server (.opening (entryPath home name parent)) =
        .ok (server, .removing (entryPath home name parent)) := by
      rw [FileWorker.step, read]
      exact if_neg (counted.not.mpr (not_not.mpr empty))
    exact .onward keeps stepped (.removing short) rfl id
  · have stepped : FileWorker.step env sha server (.opening (entryPath home name parent)) =
        .ok (server, .answered .opDirNotEmpty) := by
      rw [FileWorker.step, read]
      exact if_pos (counted.mpr empty)
    have below := not_forall.mp ((children_iff keeps).not.mp empty)
    exact .refused keeps stepped (by decide) (.notDeleted _ _ (.inr below))

theorem del_removing (keeps : KeepsShelf server home shelf) (smooth : env.Smooth)
    (short : (entryPath home name parent).path.length < pathMax)
    (noFile : ∀ content, shelf.entry (name :: parent) ≠ some (.file content)) :
    Advances env sha server home shelf makes (.removing (entryPath home name parent))
      (.delete name parent) := by
  cases present : shelf.entry (name :: parent) with
  | none =>
      rcases (keeps.missing present).rmdir env.rmdir with ⟨code, failed⟩
      have stepped : FileWorker.step env sha server (.removing (entryPath home name parent)) =
          .ok (server, .answered .opFailure) := by
        rw [FileWorker.step, entryPath, failed]
      exact .refused keeps stepped (by decide) (.notDeleted _ _ (.inl present))
  | some entry =>
      cases entry with
      | file content => exact absurd present (noFile content)
      | folder =>
          have located := located_entry keeps present short false
          have isDir := keeps.dirEntry present
          have removed := FileTree.rmdir_dir env.rmdir located isDir
          rw [Target.location_node, if_neg (List.cons_ne_nil _ _)] at removed
          by_cases empty : server.tree.children (name :: (parent ++ home)) = []
          · rw [if_neg (not_not.mpr empty), if_pos smooth.rmdir] at removed
            have stepped : FileWorker.step env sha server
                (.removing (entryPath home name parent)) =
                .ok (server.setTree (server.tree.remove (name :: (parent ++ home))),
                  .answered .opSuccess) := by
              rw [FileWorker.step, removed]
            have leaf := (children_iff keeps).mp empty
            exact .done stepped (keeps.remove leaf ⟨List.cons_ne_nil _ _, empty⟩)
              (.deleted _ _ (by simp [present]) leaf)
          · rw [if_pos empty] at removed
            have stepped : FileWorker.step env sha server
                (.removing (entryPath home name parent)) =
                .ok (server, .answered .opFailure) := by
              rw [FileWorker.step, removed]
            have below := not_forall.mp ((children_iff keeps).not.mp empty)
            exact .refused keeps stepped (by decide) (.notDeleted _ _ (.inr below))

theorem get_examining (keeps : KeepsShelf server home shelf)
    (short : (entryPath home name parent).path.length < pathMax) :
    Advances env sha server home shelf makes (.examining (entryPath home name parent))
      (.get (name :: parent)) := by
  cases present : shelf.entry (name :: parent) with
  | none =>
      rcases (keeps.missing present).stat env.dirSize with ⟨code, failed⟩
      have stepped : FileWorker.step env sha server (.examining (entryPath home name parent)) =
          .ok (server, .answered .opIoError) := by
        rw [FileWorker.step, entryPath, failed]
      exact .refused keeps stepped (by decide) (.notGot _ (by simp [present]))
  | some entry =>
      have located := located_entry keeps present short true
      cases entry with
      | file content =>
          have stepped : FileWorker.step env sha server
              (.examining (entryPath home name parent)) =
              .ok (server, .reading (entryPath home name parent)) := by
            rw [FileWorker.step, FileTree.stat_file _ located (keeps.file_iff.mpr present)]
            rfl
          exact .onward keeps stepped (.reading short) rfl (fun _ => by
            simp [Relies, Shelf.NoFolder, present])
      | folder =>
          have isDir := keeps.dirEntry present
          have stepped : FileWorker.step env sha server
              (.examining (entryPath home name parent)) =
              .ok (server, .answered .opPathNotFile) := by
            rw [FileWorker.step, FileTree.stat_dir _ located isDir]
            rfl
          exact .refused keeps stepped (by decide) (.notGot _ (by simp [present]))

theorem get_reading (keeps : KeepsShelf server home shelf) (smooth : env.Smooth)
    (short : (entryPath home name parent).path.length < pathMax)
    (noFolder : shelf.entry (name :: parent) ≠ some .folder) :
    Advances env sha server home shelf makes (.reading (entryPath home name parent))
      (.get (name :: parent)) := by
  cases present : shelf.entry (name :: parent) with
  | none =>
      rcases (keeps.missing present).openRead env.read with ⟨code, failed⟩
      have stepped : FileWorker.step env sha server (.reading (entryPath home name parent)) =
          .ok (server, .answered .opIoError) := by
        rw [FileWorker.step, readOpened, entryPath, failed]
        rfl
      exact .refused keeps stepped (by decide) (.notGot _ (by simp [present]))
  | some entry =>
      cases entry with
      | folder => exact absurd present noFolder
      | file content =>
          have read : readOpened env.read server.tree (entryPath home name parent) =
              .ok (.ok content) :=
            readOpened_reads (smooth.read.reads content)
              ⟨_, located_entry keeps present short true, rfl⟩ (keeps.file_iff.mpr present)
          by_cases empty : content = []
          · have stepped : FileWorker.step env sha server
                (.reading (entryPath home name parent)) = .ok (server, .answered .opFileEmpty) := by
              rw [FileWorker.step, read]
              exact if_pos empty
            exact .refused keeps stepped (by decide) (.notGot _ (by simp [present, empty]))
          · have stepped : FileWorker.step env sha server
                (.reading (entryPath home name parent)) = .ok (server, .done (contentResp
                  ⟨sha.digest content, content, (entryPath home name parent).path⟩)) := by
              rw [FileWorker.step, read]
              exact if_neg empty
            exact ⟨server, _, shelf, stepped, keeps, .done _, .answered _ shelf
              ⟨.content content, .got _ _ present empty,
                .content _ ⟨sha.digest content, content, _⟩ rfl rfl rfl⟩, fun _ => trivial⟩

theorem step_advances (keeps : KeepsShelf server home shelf) (smooth : env.Smooth)
    (pursues : Pursues home worker ask) (undisturbed : worker.undisturbed server.tree = true)
    (unanswered : worker.answer = none) : Advances env sha server home shelf makes worker ask := by
  cases pursues with
  | ready asks =>
      cases asks with
      | get given spells => exact get_ready keeps given spells
      | put content given file spells => exact put_ready keeps given file spells
      | makeDir given spells => exact makeDir_ready keeps given spells
      | del given spells => exact del_ready keeps given spells
  | absent content given file spells => exact put_absent keeps given file spells
  | writing content fits =>
      apply put_writing keeps smooth fits
      intro there isFile
      simp [FileWorker.undisturbed, kindAt_new keeps isFile fits] at undisturbed
  | making fits => exact makeDir_making keeps smooth fits
  | deleting short => exact del_deleting keeps short
  | unlinking short =>
      apply del_unlinking keeps smooth short
      intro folder
      simp [FileWorker.undisturbed, kindAt_folder keeps folder short] at undisturbed
  | @opening name parent short =>
      apply del_opening keeps smooth short
      cases present : shelf.entry (name :: parent) with
      | none => simp [FileWorker.undisturbed, kindAt_missing keeps present] at undisturbed
      | some entry =>
          cases entry with
          | file content =>
              simp [FileWorker.undisturbed, kindAt_file keeps present short] at undisturbed
          | folder => rfl
  | removing short =>
      apply del_removing keeps smooth short
      intro content isFile
      simp [FileWorker.undisturbed, kindAt_file keeps isFile short] at undisturbed
  | examining short => exact get_examining keeps short
  | reading short =>
      apply get_reading keeps smooth short
      intro folder
      simp [FileWorker.undisturbed, kindAt_folder keeps folder short] at undisturbed
  | done response => cases unanswered

/-! ### Being disturbed -/

theorem overwritten (keeps : KeepsShelf server home shelf) {place : Location} {content : Bytes}
    (away : place ≠ home) :
    ∃ shelf', KeepsShelf (server.setTree (server.tree.put place (.file content))) home shelf' := by
  have isDir : (server.tree.put place (.file content)).get home = some .dir := by
    rw [FileTree.get_put_ne _ _ away.symm]
    exact keeps.homeDir
  have plain : ∀ path node, (server.tree.put place (.file content)).get (path ++ home) =
      some node → ∃ entry, node = entryNode entry := by
    intro path node found
    have old : server.tree.get (path ++ home) = some node → ∃ entry, node = entryNode entry := by
      intro found
      rw [keeps.entries] at found
      rcases Option.map_eq_some_iff.mp found with ⟨entry, _, isNode⟩
      exact ⟨entry, isNode.symm⟩
    by_cases same : path ++ home = place
    · by_cases holds : server.tree.CanHold place
      · rw [same, FileTree.get_put_self _ holds] at found
        exact ⟨.file content, (Option.some.inj found).symm⟩
      · rw [FileTree.put, dif_neg holds] at found
        exact old found
    · rw [FileTree.get_put_ne _ _ same] at found
      exact old found
  have serves : (server.setTree (server.tree.put place (.file content))).db.homeDir =
      ⟨render home⟩ := keeps.serves
  exact ⟨_, shelfAt_keeps serves isDir plain⟩

variable (env sha server home) in
def GoesOn (worker : FileWorker) (ask : Ask Name Bytes) : Prop :=
  ∃ after next shelf', worker.step env sha server = .ok (after, next) ∧
    KeepsShelf after home shelf' ∧ Pursues home next ask

theorem Advances.goesOn
    (advances : Advances env sha server home shelf (fun _ => False) worker ask) :
    GoesOn env sha server home worker ask := by
  rcases advances with ⟨after, next, shelf', stepped, keeps, pursues, _⟩
  exact ⟨after, next, shelf', stepped, keeps, pursues⟩

theorem GoesOn.answered (keeps : KeepsShelf server home shelf) {code : RetCode}
    (stepped : worker.step env sha server = .ok (server, .answered code)) :
    GoesOn env sha server home worker ask :=
  ⟨server, _, shelf, stepped, keeps, .done _⟩

theorem GoesOn.written {path : VerifiedPath} {stream : Option Bytes} {code : RetCode}
    {tree : FileTree} (wrote : fWriteFile env.write server.tree path stream = (code, tree))
    (keeps : KeepsShelf (server.setTree tree) home shelf) :
    GoesOn env sha server home (.writing path stream) ask := by
  have stepped : FileWorker.step env sha server (.writing path stream) =
      .ok (server.setTree tree, .answered code) := by
    rw [FileWorker.step, wrote]
  exact ⟨_, _, shelf, stepped, keeps, .done _⟩

theorem writing_goesOn (keeps : KeepsShelf server home shelf) {stream : Option Bytes} :
    GoesOn env sha server home (.writing (newEntryPath home name parent) stream) ask := by
  have kept : KeepsShelf (server.setTree server.tree) home shelf := keeps.of_same rfl rfl
  cases stream with
  | none => exact .answered keeps rfl
  | some stream =>
      rcases fWriteFile_cases env.write server.tree (newEntryPath home name parent) stream with
        ⟨target, located, _, _, wrote⟩ | ⟨_, code, _, wrote⟩
      · have place := (keeps.creatable_leads located).1
        have away : target.location ≠ home := by
          rw [place]
          intro same
          have lengths := congrArg List.length same
          simp only [List.length_cons, List.length_append] at lengths
          omega
        by_cases other : server.tree.get target.location = some .other
        · rw [if_pos other] at wrote
          exact .written wrote kept
        · rw [if_neg other] at wrote
          rcases overwritten keeps away with ⟨shelf', keeps'⟩
          exact .written wrote keeps'
      · exact .written wrote kept

theorem unlinking_goesOn (keeps : KeepsShelf server home shelf) :
    GoesOn env sha server home (.unlinking (entryPath home name parent))
      (.delete name parent) := by
  cases removed : server.tree.unlink env.unlink (entryPath home name parent).path with
  | error code =>
      have stepped : FileWorker.step env sha server (.unlinking (entryPath home name parent)) =
          .ok (server, .answered .opFailure) := by
        rw [FileWorker.step, removed]
      exact .answered keeps stepped
  | ok tree =>
      rcases FileTree.unlink_ok removed with ⟨target, located, _, notDir, rfl⟩
      have place : target.location = (name :: parent) ++ home := keeps.leads located
      rw [place] at notDir removed
      have stepped : FileWorker.step env sha server (.unlinking (entryPath home name parent)) =
          .ok (server.setTree (server.tree.remove ((name :: parent) ++ home)),
            .answered .opSuccess) := by
        rw [FileWorker.step, removed]
      have leaf : ∀ child, shelf.entry (child :: name :: parent) = none := by
        intro child
        by_contra below
        exact notDir (keeps.folder_iff.mpr (shelf.above child (name :: parent) below))
      exact ⟨_, _, _, stepped, keeps.remove leaf (FileTree.removable_of_not_dir notDir), .done _⟩

theorem removing_goesOn (keeps : KeepsShelf server home shelf) :
    GoesOn env sha server home (.removing (entryPath home name parent))
      (.delete name parent) := by
  cases removed : server.tree.rmdir env.rmdir (entryPath home name parent).path with
  | error code =>
      have stepped : FileWorker.step env sha server (.removing (entryPath home name parent)) =
          .ok (server, .answered .opFailure) := by
        rw [FileWorker.step, removed]
      exact .answered keeps stepped
  | ok tree =>
      rcases FileTree.rmdir_ok removed with ⟨target, located, _, _, empty, rfl⟩
      have place : target.location = (name :: parent) ++ home := keeps.leads located
      rw [place] at empty removed
      have stepped : FileWorker.step env sha server (.removing (entryPath home name parent)) =
          .ok (server.setTree (server.tree.remove ((name :: parent) ++ home)),
            .answered .opSuccess) := by
        rw [FileWorker.step, removed]
      have leaf := (children_iff keeps).mp empty
      exact ⟨_, _, _, stepped, keeps.remove leaf ⟨List.cons_ne_nil _ _, empty⟩, .done _⟩

/-- To open what is no directory gives no directory stream, and the worker reads from it. -/
theorem opening_crashes (keeps : KeepsShelf server home shelf)
    (gone : server.tree.get (name :: (parent ++ home)) ≠ some .dir) :
    FileWorker.step env sha server (.opening (entryPath home name parent)) =
      .error .badPointer := by
  have failed : ∃ code, server.tree.readDirectory env.opendir env.entries
      (entryPath home name parent).path = .error code := by
    cases read : server.tree.readDirectory env.opendir env.entries
        (entryPath home name parent).path with
    | error code => exact ⟨code, rfl⟩
    | ok entries =>
        rcases Fallible.ok_of_bind_ok read with ⟨target, located, rest⟩
        have place : target.location = (name :: parent) ++ home := keeps.leads located
        rw [place] at rest
        split at rest
        · rename_i isDir
          exact absurd isDir gone
        · cases rest
        · cases rest
  rcases failed with ⟨code, failed⟩
  rw [FileWorker.step, failed]

/-- To read what is a directory by now gives nothing, or ends the process if it has told a
size. -/
theorem reading_folder (keeps : KeepsShelf server home shelf) (smooth : env.Smooth)
    (short : (entryPath home name parent).path.length < pathMax)
    (folder : shelf.entry (name :: parent) = some .folder) :
    ((env.read.special (name :: (parent ++ home))).Overstates ∧
        FileWorker.step env sha server (.reading (entryPath home name parent)) =
          .error (readFault (env.read.special (name :: (parent ++ home))))) ∨
      (¬ (env.read.special (name :: (parent ++ home))).Overstates ∧
        GoesOn env sha server home (.reading (entryPath home name parent))
          (.get (name :: parent))) := by
  have leads : server.tree.Denotes (entryPath home name parent).path (name :: (parent ++ home)) :=
    ⟨_, located_entry keeps folder short true, rfl⟩
  rcases readOpened_dir smooth.read.opens leads (keeps.dirEntry folder) with
    ⟨overstates, crashed⟩ | ⟨fits, result, read, empty⟩
  · left
    refine ⟨overstates, ?_⟩
    rw [FileWorker.step, crashed]
    rfl
  · right
    refine ⟨fits, ?_⟩
    cases result with
    | error code =>
        have stepped : FileWorker.step env sha server (.reading (entryPath home name parent)) =
            .ok (server, .answered code) := by
          rw [FileWorker.step, read]
          rfl
        exact .answered keeps stepped
    | ok bytes =>
        have stepped : FileWorker.step env sha server (.reading (entryPath home name parent)) =
            .ok (server, .answered .opFileEmpty) := by
          rw [FileWorker.step, read, empty bytes rfl]
          rfl
        exact .answered keeps stepped

/-- What a worker has seen is gone, where that ends the process: the directory that it is about
to open, or the file that it is about to read, if the directory in its place tells a size. -/
inductive Gone (env : Env) (tree : FileTree) (home : Location) : FileWorker → Fault → Prop
  | opening (name : Name) (parent : Location)
      (noDir : tree.get (name :: (parent ++ home)) ≠ some .dir) :
      Gone env tree home (.opening (entryPath home name parent)) .badPointer
  | reading (name : Name) (parent : Location)
      (isDir : tree.get (name :: (parent ++ home)) = some .dir)
      (overstates : (env.read.special (name :: (parent ++ home))).Overstates) :
      Gone env tree home (.reading (entryPath home name parent))
        (readFault (env.read.special (name :: (parent ++ home))))

/-- Whoever else has come in between, a step goes on, unless what it needs is gone. -/
theorem goesOn_or_gone (keeps : KeepsShelf server home shelf) (smooth : env.Smooth)
    (pursues : Pursues home worker ask) :
    GoesOn env sha server home worker ask ∨
      ∃ fault, worker.step env sha server = .error fault ∧
        Gone env server.tree home worker fault := by
  cases pursues with
  | writing content fits => exact .inl (writing_goesOn keeps)
  | unlinking short => exact .inl (unlinking_goesOn keeps)
  | removing short => exact .inl (removing_goesOn keeps)
  | done response => exact .inl ⟨server, _, shelf, rfl, keeps, .done response⟩
  | @opening name parent short =>
      by_cases isDir : server.tree.get (name :: (parent ++ home)) = some .dir
      · exact .inl (del_opening keeps smooth short (keeps.folder_iff.mp isDir)).goesOn
      · exact .inr ⟨_, opening_crashes keeps isDir, .opening name parent isDir⟩
  | @reading name parent short =>
      by_cases folder : shelf.entry (name :: parent) = some .folder
      · rcases reading_folder keeps smooth short folder with
          ⟨overstates, crashed⟩ | ⟨_, goesOn⟩
        · exact .inr ⟨_, crashed, .reading name parent (keeps.dirEntry folder) overstates⟩
        · exact .inl goesOn
      · exact .inl (get_reading keeps smooth short folder).goesOn
  | ready asks => exact .inl (step_advances keeps smooth (.ready asks) rfl rfl).goesOn
  | absent content given file spells =>
      exact .inl (put_absent keeps given file spells).goesOn
  | making fits => exact .inl (makeDir_making keeps smooth fits).goesOn
  | deleting short => exact .inl (del_deleting keeps short).goesOn
  | examining short => exact .inl (get_examining keeps short).goesOn

theorem Pursues.reading_short {path : VerifiedPath} (pursues : Pursues home (.reading path) ask) :
    path.path.length < pathMax := by
  cases pursues with
  | reading short => exact short

theorem Gone.crashes {fault : Fault} (gone : Gone env server.tree home worker fault)
    (keeps : KeepsShelf server home shelf) (smooth : env.Smooth)
    (pursues : Pursues home worker ask) : worker.step env sha server = .error fault := by
  cases gone with
  | opening name parent noDir => exact opening_crashes keeps noDir
  | reading name parent isDir overstates =>
      rcases reading_folder keeps smooth pursues.reading_short (keeps.folder_iff.mp isDir) with
        ⟨_, crashed⟩ | ⟨fits, _⟩
      · exact crashed
      · exact absurd overstates fits

end Jobs

end FileTransfer
