import FileTransfer.Foundation.Shelf
import FileTransfer.Guarantees.Downloads
import FileTransfer.Guarantees.RoundTrips
import FileTransfer.Guarantees.Transparency
import FileTransfer.Server.Entries
import FileTransfer.Server.FileChanges
import FileTransfer.Server.PlainPaths

/-! # The service as a shelf of files
What the server keeps at home is a shelf, and whatever its clients ask for by plain paths,
over connections that may fail, is what can be asked of a shelf.
-/

namespace FileTransfer

open Foundation Posix Client

/-! ## Files at home -/

def entryNode : Entry Bytes → Node
  | .file content => .file content
  | .folder => .dir

/-- What is at home is what is on the shelf. -/
structure KeepsShelf (server : Server) (home : Location) (shelf : Shelf Name Bytes) : Prop where
  serves : server.db.homeDir = ⟨render home⟩
  entries : ∀ path, server.tree.get (path ++ home) = (shelf.entry path).map entryNode

namespace KeepsShelf

variable {server : Server} {home : Location} {shelf : Shelf Name Bytes} {name : Name}
  {parent : Location}

theorem homeDir (keeps : KeepsShelf server home shelf) : server.tree.get home = some .dir := by
  have root := keeps.entries []
  rw [shelf.root] at root
  exact root

theorem noLinks (keeps : KeepsShelf server home shelf) : server.tree.NoLinks home := by
  intro path text found
  rw [keeps.entries] at found
  rcases Option.map_eq_some_iff.mp found with ⟨entry, _, isLink⟩
  cases entry <;> cases isLink

theorem entry (keeps : KeepsShelf server home shelf) (name : Name) (parent : Location) :
    server.tree.get (name :: (parent ++ home)) =
      (shelf.entry (name :: parent)).map entryNode :=
  keeps.entries (name :: parent)

theorem free_iff (keeps : KeepsShelf server home shelf) :
    server.tree.get (name :: (parent ++ home)) = none ↔ shelf.entry (name :: parent) = none := by
  rw [keeps.entry, Option.map_eq_none_iff]

theorem folder_iff (keeps : KeepsShelf server home shelf) :
    server.tree.get (parent ++ home) = some .dir ↔ shelf.entry parent = some .folder := by
  rw [keeps.entries, Option.map_eq_some_iff]
  constructor
  · rintro ⟨entry, found, isDir⟩
    cases entry with
    | file content => cases isDir
    | folder => exact found
  · intro found
    exact ⟨.folder, found, rfl⟩

theorem file_iff (keeps : KeepsShelf server home shelf) {content : Bytes} :
    server.tree.get (name :: (parent ++ home)) = some (.file content) ↔
      shelf.entry (name :: parent) = some (.file content) := by
  rw [keeps.entry, Option.map_eq_some_iff]
  constructor
  · rintro ⟨entry, found, isFile⟩
    cases entry with
    | file content =>
        cases isFile
        exact found
    | folder => cases isFile
  · intro found
    exact ⟨.file content, found, rfl⟩

theorem of_same (keeps : KeepsShelf server home shelf) {after : Server}
    (homeDir : after.db.homeDir = server.db.homeDir) (tree : after.tree = server.tree) :
    KeepsShelf after home shelf where
  serves := homeDir.trans keeps.serves
  entries := by
    rw [tree]
    exact keeps.entries

theorem put (keeps : KeepsShelf server home shelf) (stored : Entry Bytes)
    (free : shelf.entry (name :: parent) = none) (folder : shelf.entry parent = some .folder) :
    KeepsShelf (server.setTree (server.tree.put (name :: (parent ++ home)) (entryNode stored))) home
      (shelf.store name parent stored free folder) where
  serves := keeps.serves
  entries path := by
    have canHold : server.tree.CanHold (name :: (parent ++ home)) := by
      refine ⟨keeps.folder_iff.mpr folder, ?_⟩
      rw [keeps.free_iff.mpr free]
      exact (Option.some_ne_none _).symm
    change (server.tree.put _ _).get _ = _
    by_cases same : path = name :: parent
    · rw [same, Shelf.entry_store_self]
      exact FileTree.get_put_self _ canHold
    · rw [Shelf.entry_store_ne _ _ _ same, FileTree.get_put_ne]
      · exact keeps.entries path
      · intro same'
        exact same (List.append_cancel_right (same' : path ++ home = (name :: parent) ++ home))

theorem remove (keeps : KeepsShelf server home shelf)
    (leaf : ∀ child, shelf.entry (child :: name :: parent) = none)
    (removable : server.tree.Removable (name :: (parent ++ home))) :
    KeepsShelf (server.setTree (server.tree.remove (name :: (parent ++ home)))) home
      (shelf.takeAway name parent leaf) where
  serves := keeps.serves
  entries path := by
    change (server.tree.remove _).get _ = _
    by_cases same : path = name :: parent
    · rw [same, Shelf.entry_takeAway_self]
      exact FileTree.get_remove_self removable
    · rw [Shelf.entry_takeAway_ne _ same, FileTree.get_remove_ne]
      · exact keeps.entries path
      · intro same'
        exact same (List.append_cancel_right (same' : path ++ home = (name :: parent) ++ home))

end KeepsShelf

/-! ## The files of the database -/

def DatabaseEntry (path : List Name) : Prop :=
  path = [dbFileName, dbDirName] ∨ path = [hashFileName, dbDirName]

abbrev HomeServed : Shelf Name Bytes → Ask Name Bytes × Bool → Option (Reply Bytes) →
    Shelf Name Bytes → Prop :=
  Shelf.Served [] DatabaseEntry

def nodeEntry : Node → Option (Entry Bytes)
  | .file content => some (.file content)
  | .dir => some .folder
  | .link _ => none
  | .other => none

@[simp] theorem nodeEntry_entryNode (entry : Entry Bytes) :
    nodeEntry (entryNode entry) = some entry := by
  cases entry <;> rfl

def shelfAt (tree : FileTree) (home : Location) (isDir : tree.get home = some .dir) :
    Shelf Name Bytes where
  entry path := (tree.get (path ++ home)).bind nodeEntry
  root := congrArg (Option.bind · nodeEntry) isDir
  above name path present := by
    cases found : tree.get (name :: path ++ home) with
    | none =>
        rw [found] at present
        exact absurd rfl present
    | some node => exact congrArg (Option.bind · nodeEntry) (FileTree.parent_of_get found)

theorem shelfAt_keeps {server : Server} {home : Location}
    (serves : server.db.homeDir = ⟨render home⟩) (isDir : server.tree.get home = some .dir)
    (plain : ∀ path node, server.tree.get (path ++ home) = some node →
      ∃ entry, node = entryNode entry) :
    KeepsShelf server home (shelfAt server.tree home isDir) where
  serves := serves
  entries path := by
    change server.tree.get _ = ((server.tree.get _).bind nodeEntry).map entryNode
    cases found : server.tree.get (path ++ home) with
    | none => rfl
    | some node =>
        rcases plain path node found with ⟨entry, rfl⟩
        simp

theorem databaseFile_place {tree : FileTree} {home location : Location}
    (homeDir : tree.get home = some .dir) (noLinks : tree.NoLinks home)
    (file : DatabaseFile tree ⟨render home⟩ location) :
    ∃ path, DatabaseEntry path ∧ location = path ++ home := by
  rcases file with ⟨child, isDb, path, verified, target, located, rfl⟩
  have parts : ∃ name : Name, (name = dbFileName ∨ name = hashFileName) ∧
      dirname (CString.ofBuffer child).bytes = dbDir ∧
      basename (CString.ofBuffer child).bytes = name.bytes := by
    rcases isDb with rfl | rfl
    · exact ⟨dbFileName, .inl rfl, by decide, by decide⟩
    · exact ⟨hashFileName, .inr rfl, by decide, by decide⟩
  rcases parts with ⟨name, isName, parent, last⟩
  rcases fValidResolve_some_iff.mp verified with ⟨short, directory, found, _, fits, _, rfl⟩
  rcases FileTree.realpath_eq_some found with ⟨above, reached, rfl, _, solid⟩
  have place : above = dbDirName :: home := by
    rw [parent] at reached short
    have spelled : components (joined (render home) dbDir) =
        components (render home) ++ [.name dbDirName] := by
      have plain : joined (render home) dbDir = render home ++ slash :: dbDir :=
        joined_of_noSlash _ dbDirName.noSlash
      rw [plain, components_append_slash]
      rfl
    rw [locate_home homeDir spelled short] at reached
    have names : steps [.name dbDirName] = [dbDirName].map .name := rfl
    exact FileTree.walk_plain (noLinks.clear _) names reached
  subst place
  rw [last] at fits located
  rw [locate_verified name solid fits] at located
  have names : steps [.name name] = [name].map .name := rfl
  have there := FileTree.walk_plain ((noLinks.below dbDirName).clear _) names located
  refine ⟨[name, dbDirName], ?_, there⟩
  rcases isName with rfl | rfl
  · exact .inl rfl
  · exact .inr rfl

theorem KeepsShelf.refilled {server after : Server} {home : Location} {shelf : Shelf Name Bytes}
    (keeps : KeepsShelf server home shelf) (homeDir : after.db.homeDir = server.db.homeDir)
    (refilled : FileTree.Refilled server.tree after.tree)
    (agrees : FileTree.AgreeOff (DatabaseFile server.tree server.db.homeDir) server.tree
      after.tree) :
    ∃ shelf', KeepsShelf after home shelf' ∧
      ∀ path, ¬ DatabaseEntry path → shelf'.entry path = shelf.entry path := by
  have isDir := (refilled.dir_iff home).mpr keeps.homeDir
  refine ⟨shelfAt after.tree home isDir, shelfAt_keeps (homeDir.trans keeps.serves) isDir ?_, ?_⟩
  · intro path node found
    rcases refilled (path ++ home) with same | ⟨⟨content, isFile⟩, _⟩
    · rw [same, keeps.entries] at found
      rcases Option.map_eq_some_iff.mp found with ⟨entry, _, isNode⟩
      exact ⟨entry, isNode.symm⟩
    · cases found.symm.trans isFile
      exact ⟨.file content, rfl⟩
  · intro path unreserved
    have same := agrees (path ++ home) (by
      intro file
      rw [keeps.serves] at file
      rcases databaseFile_place keeps.homeDir keeps.noLinks file with ⟨path', isDb, there⟩
      rw [List.append_cancel_right there] at unreserved
      exact unreserved isDb)
    change (after.tree.get _).bind nodeEntry = _
    rw [same, keeps.entries]
    cases shelf.entry path <;> simp

/-! ## Requests by plain paths -/

inductive Replied (sha : Sha256) : Reply Bytes → ActResp → Prop
  | done (response : ActResp) (success : response.result = .opSuccess) :
      Replied sha .done response
  | content (response : ActResp) (file : FileContent) (success : response.result = .opSuccess)
      (carried : response.content = some file) (hash : file.hash = sha.digest file.stream) :
      Replied sha (.content file.stream) response
  | refused (response : ActResp) (failed : response.result ≠ .opSuccess) :
      Replied sha .refused response

theorem Replied.code {sha : Sha256} {code : RetCode} (failed : code ≠ .opSuccess) :
    Replied sha .refused (ctrlPopulateResp code) :=
  .refused _ failed

theorem someReply (sha : Sha256) (response : ActResp) :
    ∃ reply, (∀ content, reply ≠ Reply.content content) ∧ Replied sha reply response := by
  by_cases success : response.result = .opSuccess
  · exact ⟨.done, by simp, .done _ success⟩
  · exact ⟨.refused, by simp, .refused _ success⟩

section Operations

variable {env : Env} {sha : Sha256} {server : Server} {home : Location}
  {shelf : Shelf Name Bytes} {child : CString} {name : Name} {parent : Location}
  {payload : StdPayload} {reserved : List Name → Prop}

theorem KeepsShelf.resolved (keeps : KeepsShelf server home shelf)
    (spells : Spells home child name parent) (given : payload.cPath = some child) :
    fVerPathResolve server.tree server.db.homeDir payload.cPath =
      .ok (if shelf.entry (name :: parent) = none then none
        else some ⟨render (name :: (parent ++ home))⟩) := by
  rw [given, keeps.serves]
  simp only [fVerPathResolve, spells.resolved keeps.homeDir keeps.noLinks, keeps.free_iff]

def getAnswer (sha : Sha256) (path : Bytes) : Option (Entry Bytes) → ActResp
  | none => ctrlPopulateResp .opResolveError
  | some .folder => ctrlPopulateResp .opPathNotFile
  | some (.file content) =>
      if content = [] then ctrlPopulateResp .opFileEmpty
      else contentResp ⟨sha.digest content, content, path⟩

theorem doGetFile_answer (keeps : KeepsShelf server home shelf)
    (spells : Spells home child name parent) (given : payload.cPath = some child)
    (smooth : env.Smooth) :
    doGetFile env sha server payload = .ok
      (getAnswer sha (render (name :: (parent ++ home))) (shelf.entry (name :: parent))) := by
  rw [doGetFile, keeps.resolved spells given]
  cases found : shelf.entry (name :: parent) with
  | none =>
      rw [if_pos rfl]
      rfl
  | some entry =>
      rw [if_neg (Option.some_ne_none entry), Fallible.ok_bind]
      cases entry with
      | file content =>
          have isFile := keeps.file_iff.mpr found
          simp only [fReadFile_file spells.place_short isFile (smooth.read.reads _), getAnswer,
            Fallible.ok_bind]
          split <;> rfl
      | folder =>
          have isDir : server.tree.get (name :: (parent ++ home)) = some .dir :=
            keeps.folder_iff.mpr found
          have located := FileTree.locate_render true (FileTree.solid_of_dir isDir)
            spells.place_short
          simp only [fReadFile, FileTree.stat_dir env.dirSize located isDir]
          rfl

theorem getAnswer_replied (sha : Sha256) (path : Bytes) (location : List Name) :
    ∃ reply, Shelf.Step [] reserved shelf (.get location) reply shelf ∧
      Replied sha reply (getAnswer sha path (shelf.entry location)) := by
  cases found : shelf.entry location with
  | none => exact ⟨.refused, .notGot _ (by simp [found]), .code (by decide)⟩
  | some entry =>
      cases entry with
      | folder => exact ⟨.refused, .notGot _ (by simp [found]), .code (by decide)⟩
      | file content =>
          rw [getAnswer]
          by_cases empty : content = []
          · rw [if_pos empty]
            exact ⟨.refused, .notGot _ (by simp [found, empty]), .code (by decide)⟩
          · rw [if_neg empty]
            exact ⟨.content content, .got _ _ found empty, .content _ ⟨_, content, _⟩ rfl rfl rfl⟩

theorem newFile (keeps : KeepsShelf server home shelf) (spells : Spells home child name parent)
    (free : shelf.entry (name :: parent) = none) (folder : shelf.entry parent = some .folder) :
    NewFile server home child (parent ++ home) name (name :: (parent ++ home)) where
  serves := keeps.serves
  homeDir := keeps.homeDir
  permitted := spells.permitted
  directory := spells.realpath_dirname keeps.homeDir (keeps.folder_iff.mpr folder)
  within := List.suffix_append parent home
  isDir := keeps.folder_iff.mpr folder
  last := spells.last
  absent := FileTree.walk_missing _ (keeps.folder_iff.mpr folder) (keeps.free_iff.mpr free)

theorem located_in_folder (keeps : KeepsShelf server home shelf)
    (spells : Spells home child name parent) {path : VerifiedPath}
    (verified : fVerValidResolve server.tree server.db.homeDir (some child) = .ok (some path))
    (followLast : Bool) :
    path = ⟨joined (render (parent ++ home)) name.bytes⟩ ∧
      (shelf.entry parent ≠ some .folder →
        server.tree.locate followLast path.path = .error .notDir) ∧
      (shelf.entry parent = some .folder → server.tree.locate followLast path.path =
        server.tree.walk followLast FileTree.maxLinks (parent ++ home) [.name name]) := by
  rw [keeps.serves] at verified
  rcases fValidResolve_some_iff.mp verified with ⟨_, directory, found, _⟩
  cases spells.realpath_dirname_some keeps.homeDir keeps.noLinks found
  have same := spells.verified_some keeps.homeDir keeps.noLinks verified
  rcases FileTree.realpath_eq_some found with ⟨place, _, isAbove, _, solid⟩
  cases render_injective isAbove
  have located := locate_verified name solid spells.fits followLast
  subst same
  refine ⟨rfl, ?_, fun _ => located⟩
  intro noFolder
  rw [located]
  exact FileTree.walk_not_dir (fun isDir => noFolder (keeps.folder_iff.mp isDir)) _ _

theorem doPutFile_shelf (keeps : KeepsShelf server home shelf)
    (spells : Spells home child name parent) (given : payload.cPath = some child)
    (smooth : env.Smooth) {content : Bytes}
    (carried : payload.byteStream = if content = [] then none else some content)
    {code : RetCode} {tree : FileTree} (done : doPutFile env server payload = .ok (code, tree)) :
    ∃ reply shelf', Shelf.Step [] reserved shelf (.put name parent content) reply shelf' ∧
      KeepsShelf (server.setTree tree) home shelf' ∧ Replied sha reply (ctrlPopulateResp code) := by
  have kept : KeepsShelf (server.setTree server.tree) home shelf := keeps.of_same rfl rfl
  by_cases storable : shelf.entry (name :: parent) = none ∧ shelf.entry parent = some .folder ∧
      content ≠ []
  · rcases storable with ⟨free, folder, nonempty⟩
    rw [if_neg nonempty] at carried
    have stored := ((newFile keeps spells free folder).put_iff smooth given).mpr
      ⟨content, carried, spells.fits, rfl⟩
    cases stored.symm.trans done
    exact ⟨.done, _, .put name parent content free folder nonempty,
      keeps.put (.file content) free folder, .done _ rfl⟩
  · have hindered : shelf.entry (name :: parent) ≠ none ∨ shelf.entry parent ≠ some .folder ∨
        content = [] := by
      by_contra none
      rw [not_or, not_or, not_not, not_not] at none
      exact storable none
    have refused : code ≠ .opSuccess ∧ tree = server.tree := by
      rcases doPutFile_cases done with ⟨path, bytes, puts, wrote⟩ | ⟨_, failed, same⟩
      · have absent := puts.absent
        rw [keeps.resolved spells given] at absent
        have verified := puts.verified
        rw [given] at verified
        rcases located_in_folder keeps spells verified true with ⟨_, nowhere, _⟩
        rcases hindered with present | noFolder | empty
        · rw [if_neg present] at absent
          cases absent
        · rcases fWriteFile_cases env.write server.tree path bytes with
            ⟨target, located, _⟩ | ⟨_, code', failed, result⟩
          · rw [nowhere noFolder] at located
            cases located
          · cases wrote.symm.trans result
            exact ⟨failed, rfl⟩
        · rw [if_pos empty] at carried
          cases carried.symm.trans puts.carried
      · exact ⟨failed, same⟩
    rcases refused with ⟨failed, rfl⟩
    exact ⟨.refused, shelf, .notPut _ _ _ hindered, kept, .code failed⟩

theorem doMakeDir_shelf (keeps : KeepsShelf server home shelf)
    (spells : Spells home child name parent) (given : payload.cPath = some child)
    (smooth : env.Smooth) {code : RetCode} {tree : FileTree}
    (done : doMakeDir env server payload = .ok (code, tree)) :
    ∃ reply shelf', Shelf.Step [] reserved shelf (.mkdir name parent) reply shelf' ∧
      KeepsShelf (server.setTree tree) home shelf' ∧ Replied sha reply (ctrlPopulateResp code) := by
  have kept : KeepsShelf (server.setTree server.tree) home shelf := keeps.of_same rfl rfl
  rw [doMakeDir, given] at done
  rcases Fallible.ok_of_bind_ok done with ⟨resolved, verified, done⟩
  by_cases folder : shelf.entry parent = some .folder
  · have isDir := keeps.folder_iff.mpr folder
    cases resolved with
    | none =>
        rw [keeps.serves, fVerValidResolve, spells.verified keeps.homeDir isDir] at verified
        cases verified
    | some path =>
        rcases located_in_folder keeps spells verified false with ⟨_, _, inside⟩
        have located := (inside folder).trans (FileTree.walk_entry_self name isDir)
        have made := Except.ok.inj done
        by_cases free : shelf.entry (name :: parent) = none
        · rw [if_pos (keeps.free_iff.mpr free)] at located
          rw [fCreateDir, FileTree.mkdir_slot _ located, if_pos smooth.mkdir] at made
          cases made
          exact ⟨.done, _, .made name parent free folder, keeps.put .folder free folder,
            .done _ rfl⟩
        · rw [if_neg (keeps.free_iff.not.mpr free)] at located
          rw [fCreateDir, FileTree.mkdir_node _ located] at made
          cases made
          exact ⟨.refused, shelf, .notMade _ _ (.inl free), kept, .code (by decide)⟩
  · have refused : code ≠ .opSuccess ∧ tree = server.tree := by
      cases resolved with
      | none =>
          cases Except.ok.inj done
          exact ⟨by decide, rfl⟩
      | some path =>
          rcases located_in_folder keeps spells verified false with ⟨_, nowhere, _⟩
          have made := Except.ok.inj done
          simp only [fCreateDir, FileTree.mkdir, nowhere folder] at made
          cases made
          exact ⟨by decide, rfl⟩
    rcases refused with ⟨failed, rfl⟩
    exact ⟨.refused, shelf, .notMade _ _ (.inr folder), kept, .code failed⟩

theorem children_iff (keeps : KeepsShelf server home shelf) :
    server.tree.children (name :: (parent ++ home)) = [] ↔
      ∀ child, shelf.entry (child :: name :: parent) = none := by
  rw [List.eq_nil_iff_forall_not_mem]
  apply forall_congr'
  intro child
  have free : server.tree.get (child :: (name :: parent ++ home)) = none ↔
      shelf.entry (child :: name :: parent) = none := keeps.free_iff
  rw [FileTree.mem_children_iff, ← Option.ne_none_iff_exists', not_not]
  exact free

theorem doDelFile_shelf (keeps : KeepsShelf server home shelf)
    (spells : Spells home child name parent) (given : payload.cPath = some child)
    (smooth : env.Smooth) {code : RetCode} {tree : FileTree}
    (done : doDelFile env server payload = .ok (code, tree)) :
    ∃ reply shelf', Shelf.Step [] reserved shelf (.delete name parent) reply shelf' ∧
      KeepsShelf (server.setTree tree) home shelf' ∧ Replied sha reply (ctrlPopulateResp code) := by
  have kept : KeepsShelf (server.setTree server.tree) home shelf := keeps.of_same rfl rfl
  rw [doDelFile, keeps.resolved spells given] at done
  cases found : shelf.entry (name :: parent) with
  | none =>
      rw [if_pos found, Fallible.ok_bind] at done
      cases Except.ok.inj done
      exact ⟨.refused, shelf, .notDeleted _ _ (.inl found), kept, .code (by decide)⟩
  | some entry =>
      have present : shelf.entry (name :: parent) ≠ none := by simp [found]
      rw [if_neg present, Fallible.ok_bind] at done
      cases entry with
      | file content =>
          have isFile := keeps.file_iff.mpr found
          have leaf : ∀ child, shelf.entry (child :: name :: parent) = none := by
            intro child
            by_contra below
            have isFolder := shelf.above child (name :: parent) below
            cases found.symm.trans isFolder
          have deleted := (fDelFile_file spells.place_short isFile).symm.trans done
          rw [if_pos smooth.unlink] at deleted
          cases deleted
          refine ⟨.done, _, .deleted name parent present leaf, keeps.remove leaf ?_, .done _ rfl⟩
          exact FileTree.removable_of_not_dir (by simp [isFile])
      | folder =>
          have isDir : server.tree.get (name :: (parent ++ home)) = some .dir :=
            keeps.folder_iff.mpr found
          have deleted := (fDelFile_dir spells.place_short isDir).symm.trans done
          rw [if_neg (by simp [smooth.opendir])] at deleted
          by_cases leaf : ∀ child, shelf.entry (child :: name :: parent) = none
          · have empty := (children_iff keeps).mpr leaf
            rw [if_neg (not_not.mpr empty), if_pos ⟨List.cons_ne_nil _ _, smooth.rmdir⟩]
              at deleted
            cases deleted
            exact ⟨.done, _, .deleted name parent present leaf,
              keeps.remove leaf ⟨List.cons_ne_nil _ _, empty⟩, .done _ rfl⟩
          · rw [if_pos ((children_iff keeps).not.mpr leaf)] at deleted
            cases deleted
            refine ⟨.refused, shelf, .notDeleted _ _ (.inr ?_), kept, .code (by decide)⟩
            exact not_forall.mp leaf

end Operations

/-! ## What requests ask for -/

/-- What a request asks of the shelf. Listings, and requests that only log in, look at it,
and with the accounts their files are kept up. -/
inductive AsksShelf (home : Location) (request : WirePayload) : Ask Name Bytes → Prop
  | get {child : CString} {name : Name} {parent : Location}
      (asks : Asks request .getRemoteFile child) (spells : Spells home child name parent) :
      AsksShelf home request (.get (name :: parent))
  | put {child : CString} {name : Name} {parent : Location} {payload : StdPayload}
      (content : Bytes) (opcode : request.optCode = Act.putRemoteFile.toByte)
      (carried : request.payload = .std payload) (given : payload.cPath = some child)
      (file : payload.byteStream = if content = [] then none else some content)
      (spells : Spells home child name parent) :
      AsksShelf home request (.put name parent content)
  | mkdir {child : CString} {name : Name} {parent : Location}
      (asks : Asks request .makeRemoteDirectory child) (spells : Spells home child name parent) :
      AsksShelf home request (.mkdir name parent)
  | delete {child : CString} {name : Name} {parent : Location}
      (asks : Asks request .deleteRemoteFile child) (spells : Spells home child name parent) :
      AsksShelf home request (.delete name parent)
  | look (opcode : request.optCode = Act.listRemoteDirectory.toByte ∨
      request.optCode = Act.localOperation.toByte) : AsksShelf home request .look
  | upkeep (opcode : request.optCode = Act.userOperation.toByte) :
      AsksShelf home request .upkeep

def Granted (env : Env) (sha : Sha256) (timeout : Int) (server : Server)
    (request : WirePayload) (ask : Ask Name Bytes) : Prop :=
  ∃ user, Authentic sha server.db.usersHtable request user ∧
    SessionValid env timeout server.db.seshHtable request.sessionId ∧
    (ask.writes = true → Perms.readWrite ≤ user.permission)

section Requests

variable {env : Env} {sha : Sha256} {timeout : Int} {server : Server} {home : Location}
  {shelf : Shelf Name Bytes} {request : WirePayload} {ask : Ask Name Bytes}

theorem writeAction_shelf {user : UserAccount} {after : Server} {response : ActResp}
    {action : Server → StdPayload → Except Fault (RetCode × FileTree)}
    (keeps : KeepsShelf server home shelf) (writes : ask.writes = true)
    (acts : ∀ payload code tree, request.payload = .std payload →
      action server payload = .ok (code, tree) →
      ∃ reply shelf', Shelf.Step [] DatabaseEntry shelf ask reply shelf' ∧
        KeepsShelf (server.setTree tree) home shelf' ∧ Replied sha reply (ctrlPopulateResp code))
    (done : writeAction user server request action = .ok (response, after)) :
    ∃ reply shelf', HomeServed shelf
        (ask, decide (ask.writes = true → Perms.readWrite ≤ user.permission)) (some reply)
        shelf' ∧ KeepsShelf after home shelf' ∧ Replied sha reply response := by
  rcases writeAction_cases done with
    ⟨low, rfl, rfl⟩ | ⟨payload, code, tree, enough, carried, acted, rfl, rfl⟩
  · rw [decide_eq_false fun permitted => UInt8.not_le.mpr low (permitted writes)]
    exact ⟨.refused, shelf, .denied ask, keeps, .code (by decide)⟩
  · rcases acts payload code tree carried acted with ⟨reply, shelf', step, kept, replied⟩
    rw [decide_eq_true fun _ => enough]
    exact ⟨reply, shelf', .carriedOut step, kept, replied⟩

theorem performAction_shelf {user : UserAccount} {after : Server} {response : ActResp}
    (keeps : KeepsShelf server home shelf) (smooth : env.Smooth)
    (asks : AsksShelf home request ask)
    (done : performAction env sha user server request = .ok (response, after)) :
    ∃ reply shelf', HomeServed shelf
        (ask, decide (ask.writes = true → Perms.readWrite ≤ user.permission)) (some reply)
        shelf' ∧ KeepsShelf after home shelf' ∧ Replied sha reply response := by
  cases asks with
  | get asks spells =>
      rcases asks.path with ⟨payload, carried, given⟩
      rw [performAction, asks.opcode, Act.ofByte_toByte] at done
      simp only [WirePayload.stdPayload, carried, Fallible.ok_bind,
        doGetFile_answer keeps spells given smooth] at done
      cases Except.ok.inj done
      rcases getAnswer_replied sha _ _ with ⟨reply, step, replied⟩
      exact ⟨reply, shelf, .carriedOut step, keeps, replied⟩
  | put content opcode carried given file spells =>
      rw [performAction, opcode, Act.ofByte_toByte] at done
      apply writeAction_shelf keeps rfl _ done
      intro payload' code tree carried' acted
      cases carried.symm.trans carried'
      exact doPutFile_shelf keeps spells given smooth file acted
  | mkdir asks spells =>
      rw [performAction, asks.opcode, Act.ofByte_toByte] at done
      apply writeAction_shelf keeps rfl _ done
      intro payload code tree carried acted
      exact doMakeDir_shelf keeps spells (asks.given carried) smooth acted
  | delete asks spells =>
      rw [performAction, asks.opcode, Act.ofByte_toByte] at done
      apply writeAction_shelf keeps rfl _ done
      intro payload code tree carried acted
      exact doDelFile_shelf keeps spells (asks.given carried) smooth acted
  | look opcode =>
      have untouched : after = server := by
        rcases opcode with isList | isLocal
        · rw [performAction, isList, Act.ofByte_toByte] at done
          rcases Fallible.ok_of_bind_ok done with ⟨payload, _, done⟩
          rcases Fallible.ok_of_bind_ok done with ⟨listing, _, done⟩
          cases Except.ok.inj done
          rfl
        · rw [performAction, isLocal, Act.ofByte_toByte] at done
          cases Except.ok.inj done
          rfl
      subst untouched
      rcases someReply sha response with ⟨reply, bare, replied⟩
      exact ⟨reply, shelf, .carriedOut (.looked reply bare), keeps, replied⟩
  | upkeep opcode =>
      rcases someReply sha response with ⟨reply, bare, replied⟩
      have upkept : ∃ shelf', KeepsShelf after home shelf' ∧
          ∀ path, ¬ DatabaseEntry path → shelf'.entry path = shelf.entry path := by
        have isUser : Act.ofByte request.optCode = some .userOperation := by
          rw [opcode, Act.ofByte_toByte]
        cases performAction_effect done with
        | nothing same =>
            subst same
            exact ⟨shelf, keeps, fun _ _ => rfl⟩
        | users payload table _ carried change saved =>
            rcases saveUsers_ok saved with ⟨_, stored, refilled, agrees⟩
            exact keeps.refilled (by rw [stored]; rfl) refilled agrees
        | files act payload code tree isFile permitted carried performed answered stored =>
            cases isUser.symm.trans isFile
            rcases performed with ⟨other, _⟩ | ⟨other, _⟩ | ⟨other, _⟩ <;> cases other
      rcases upkept with ⟨shelf', keeps', others⟩
      exact ⟨reply, shelf', .carriedOut (.upkept reply shelf' bare others), keeps', replied⟩

/-- What the dispatcher does with a request for files, the shelf does. -/
theorem ctrlParseAction_shelf {handled : Handled} (keeps : KeepsShelf server home shelf)
    (smooth : env.Smooth) (asks : AsksShelf home request ask)
    (parsed : ctrlParseAction env sha timeout server request = .ok handled) :
    ∃ granted reply shelf', (granted = true ↔ Granted env sha timeout server request ask) ∧
      HomeServed shelf (ask, granted) (some reply) shelf' ∧
      KeepsShelf handled.server home shelf' ∧ Replied sha reply handled.response := by
  cases ctrlParseAction_effect parsed with
  | refused code failed stranger result =>
      cases result
      refine ⟨false, .refused, shelf, ?_, .denied ask, keeps, .code failed⟩
      simp only [Bool.false_eq_true, false_iff]
      rintro ⟨user, authentic, _⟩
      exact stranger user authentic
  | expired user check authentic checked failed result =>
      cases result
      refine ⟨false, .refused, shelf, ?_, .denied ask, keeps.of_same rfl rfl, .code failed⟩
      simp only [Bool.false_eq_true, false_iff]
      rintro ⟨_, _, valid, _⟩
      exact failed ((checkSession_success_iff checked).mpr valid)
  | performed user check response after authentic checked passed action result =>
      cases result
      have keeps' : KeepsShelf (server.setSessions check.table) home shelf := keeps.of_same rfl rfl
      rcases performAction_shelf keeps' smooth asks action with
        ⟨reply, shelf', served, kept, replied⟩
      refine ⟨_, reply, shelf', ?_, served, kept, replied⟩
      rw [decide_eq_true_iff]
      constructor
      · intro permitted
        exact ⟨user, authentic, (checkSession_success_iff checked).mp passed, permitted⟩
      · rintro ⟨user', authentic', _, permitted⟩
        cases authentic.unique authentic'
        exact permitted

end Requests

/-! ## Calls -/

structure FileCall where
  client : ClientRequest
  env : Env
  link : Link
  ask : Ask Name Bytes

section Calls

variable {Object : Type} (sha : Sha256) (timeout : Int) (hashlib : Hashlib Object)
  (home : Location)

structure FileCall.Proper (call : FileCall) : Prop where
  smooth : call.env.Smooth
  ascii : AsciiFields call.client
  asks : ∃ request, meant sha call.client = .ok request ∧ AsksShelf home request call.ask

def FileCall.Reliable (call : FileCall) : Prop :=
  call.link.Smooth ∧ ∃ bytes, call.client.clientRequest hashlib = .ok bytes

structure CallOutcome where
  granted : Bool
  answer : Except PyError (ServerResponse × ClientRequest)

inductive FileStep (server : Server) (call : FileCall) : CallOutcome → Server → Prop
  | call (granted : Bool) (request : WirePayload) (done : Exchanged)
      (exchanged : exchange call.env sha timeout hashlib call.link server call.client = .ok done)
      (inMemory : done.served.InMemory) (isMeant : meant sha call.client = .ok request)
      (entitled : granted = true ↔ Granted call.env sha timeout server request call.ask) :
      FileStep server call ⟨granted, done.outcome⟩ done.served.server

/-- What the client is told of a reply, and what it saves. It is told of a success only if
there was one, and of nothing only if the connection failed. -/
inductive Told (digits : UnicodeDigits) (call : FileCall) :
    Except PyError (ServerResponse × ClientRequest) → Option (Reply Bytes) → Prop
  | unheard (error : PyError) (reply : Option (Reply Bytes))
      (unreliable : ¬ call.Reliable hashlib) : Told digits call (.error error) reply
  | lost (resp : ServerResponse) (after : ClientRequest) (failed : resp.successful = false)
      (unreliable : ¬ call.Reliable hashlib) : Told digits call (.ok (resp, after)) none
  | done (resp : ServerResponse) (after : ClientRequest) (success : resp.successful = true) :
      Told digits call (.ok (resp, after)) (some .done)
  | content (resp : ServerResponse) (after : ClientRequest) (content : Bytes)
      (success : resp.successful = true)
      (saved : written (parseAction digits hashlib call.client resp) = some content) :
      Told digits call (.ok (resp, after)) (some (.content content))
  | refused (resp : ServerResponse) (after : ClientRequest)
      (failed : resp.successful = false) : Told digits call (.ok (resp, after)) (some .refused)

def Matches (digits : UnicodeDigits) (concrete : FileCall × CallOutcome)
    (onShelf : (Ask Name Bytes × Bool) × Option (Reply Bytes)) : Prop :=
  onShelf.1 = (concrete.1.ask, concrete.2.granted) ∧
    Told hashlib digits concrete.1 concrete.2.answer onShelf.2

end Calls

section Runs

variable {Object : Type} {sha : Sha256} {timeout : Int} {hashlib : Hashlib Object}
  {digits : UnicodeDigits} {home : Location} {server next : Server} {shelf : Shelf Name Bytes}
  {call : FileCall} {outcome : CallOutcome}

theorem Replied.told (hashes : hashlib.Hashes sha) {reply : Reply Bytes} {response : ActResp}
    (replied : Replied sha reply response) {granted : Bool} {shelf' : Shelf Name Bytes}
    (served : HomeServed shelf (call.ask, granted) (some reply) shelf')
    {request : WirePayload} (isMeant : meant sha call.client = .ok request)
    (asks : AsksShelf home request call.ask) (sessionId : UInt32) (after : ClientRequest) :
    Told hashlib digits call (.ok (conveyed response sessionId, after)) (some reply) := by
  cases replied with
  | done response success =>
      exact .done _ _ ((conveyed_successful response sessionId).mpr success)
  | refused response failed =>
      refine .refused _ _ ?_
      rw [Bool.eq_false_iff, Ne, conveyed_successful]
      exact failed
  | content response file success carried hash =>
      have successful := (conveyed_successful response sessionId).mpr success
      refine .content _ _ _ successful ?_
      have gets : ∃ path, call.ask = .get path ∧ file.stream ≠ [] := by
        generalize call.ask = ask at served
        rcases served with _ | _ | step
        cases step with
        | got path content found some => exact ⟨path, rfl, some⟩
        | looked _ bare => exact absurd rfl (bare file.stream)
        | upkept _ _ bare => exact absurd rfl (bare file.stream)
      rcases gets with ⟨path, isGet, nonempty⟩
      have action : call.client.action = .get := by
        rw [isGet] at asks
        cases asks with
        | get asks spells =>
            exact asked_of_opcode ((meant_header isMeant).1.symm.trans asks.opcode)
      rw [written_parseAction hashes digits action]
      refine ⟨(of_decide_eq_true successful).symm, file.stream, ?_, ?_, (saveFile_eq nonempty).symm⟩
      · exact congrArg (Option.map (·.stream)) carried
      · rw [← hash]
        exact congrArg (Option.map (·.hash)) carried

theorem FileStep.onShelf (digits : UnicodeDigits) (hashes : hashlib.Hashes sha)
    (keeps : KeepsShelf server home shelf) (proper : call.Proper sha home)
    (step : FileStep sha timeout hashlib server call outcome next) :
    ∃ reply shelf', HomeServed shelf (call.ask, outcome.granted) reply shelf' ∧
      KeepsShelf next home shelf' ∧ Told hashlib digits call outcome.answer reply := by
  rcases step with ⟨granted, request, done, exchanged, inMemory, isMeant, entitled⟩
  rcases proper.asks with ⟨request', isMeant', asks⟩
  cases isMeant.symm.trans isMeant'
  have carriedOut : ∀ handled, ctrlParseAction call.env sha timeout server request = .ok handled →
      done.served.server = handled.server →
      ∃ reply shelf', HomeServed shelf (call.ask, granted) (some reply) shelf' ∧
        KeepsShelf done.served.server home shelf' ∧ ∀ sessionId after,
          Told hashlib digits call (.ok (conveyed handled.response sessionId, after))
            (some reply) := by
    intro handled parsed same
    rcases ctrlParseAction_shelf keeps proper.smooth asks parsed with
      ⟨granted', reply, shelf', entitled', served, kept, replied⟩
    have agrees : granted' = granted := Bool.eq_iff_iff.mpr (entitled'.trans entitled.symm)
    subst agrees
    rw [same]
    exact ⟨reply, shelf', served, kept,
      fun sessionId after => replied.told hashes served isMeant asks sessionId after⟩
  by_cases reliable : call.Reliable hashlib
  · rcases reliable with ⟨smooth, bytes, sent⟩
    rcases (smooth.exchange_iff hashes proper.ascii sent).mp ⟨exchanged, inMemory⟩ with
      ⟨request', handled, isMeant', parsed, _, rfl⟩
    cases isMeant.symm.trans isMeant'
    rcases carriedOut handled parsed rfl with ⟨reply, shelf', served, kept, told⟩
    exact ⟨some reply, shelf', served, kept, told _ _⟩
  · have conveys : ∀ resp after, done.outcome = .ok (resp, after) →
        ∃ response sessionId, done.served.response = some (response, sessionId) ∧
          resp = conveyed response sessionId ∧
            after = call.client.setSession sessionId.toNat :=
      fun resp after got => exchange_conveys exchanged inMemory got
    have notServed : (∀ resp after, done.outcome = .ok (resp, after) → resp.successful = false) →
        Told hashlib digits call done.outcome none := by
      intro failed
      cases got : done.outcome with
      | error error => exact .unheard error _ reliable
      | ok heard => exact .lost _ _ (failed heard.1 heard.2 got) reliable
    rcases (exchange_ok exchanged).1 with ⟨_, unserved⟩ | ⟨_, serves⟩
    · refine ⟨none, shelf, .lost _, keeps.of_same ?_ ?_, notServed ?_⟩
      · rw [unserved]
      · rw [unserved]
      · intro resp after got
        rcases conveys resp after got with ⟨response, sessionId, answered, _⟩
        rw [unserved] at answered
        cases answered
    · rcases serveClient_reads serves with
        ⟨read, later, handled, isRead, parsed, served⟩ | ⟨⟨table, same⟩, failed⟩
      · cases isMeant.symm.trans (read_is_meant hashes proper.ascii isRead)
        rcases carriedOut handled parsed (by rw [served]) with
          ⟨reply, shelf', onShelf, kept, told⟩
        refine ⟨some reply, shelf', onShelf, kept, ?_⟩
        change Told hashlib digits call done.outcome (some reply)
        cases got : done.outcome with
        | error error => exact .unheard error _ reliable
        | ok heard =>
            rcases conveys heard.1 heard.2 got with ⟨response, sessionId, answered, isResp, _⟩
            rw [served] at answered
            cases answered
            have heardIt := told handled.sessionId heard.2
            rw [← isResp] at heardIt
            exact heardIt
      · refine ⟨none, shelf, .lost _, keeps.of_same ?_ ?_, notServed ?_⟩
        · rw [same]
          rfl
        · rw [same]
          rfl
        · intro resp after got
          rcases conveys resp after got with ⟨response, sessionId, answered, rfl, _⟩
          rw [Bool.eq_false_iff, Ne, conveyed_successful]
          exact failed response sessionId answered

theorem FileStep.matches (digits : UnicodeDigits) (hashes : hashlib.Hashes sha)
    (server : Server) (call : FileCall) (outcome : CallOutcome) (next : Server)
    (shelf : Shelf Name Bytes) (proper : call.Proper sha home)
    (keeps : KeepsShelf server home shelf)
    (step : FileStep sha timeout hashlib server call outcome next) :
    ∃ request reply shelf', HomeServed shelf request reply shelf' ∧ KeepsShelf next home shelf' ∧
      Matches hashlib digits (call, outcome) (request, reply) := by
  rcases step.onShelf digits hashes keeps proper with ⟨reply, shelf', served, kept, told⟩
  exact ⟨_, reply, shelf', served, kept, rfl, told⟩

/-- Whatever clients ask for by plain paths, in whatever order, and however their connections
fare, the server serves as from a shelf, and the clients are told what became of it. -/
theorem files_served_as_from_a_shelf (digits : UnicodeDigits) (hashes : hashlib.Hashes sha)
    {start final : Server} (keeps : KeepsShelf start home shelf) {calls : List FileCall}
    (proper : ∀ call ∈ calls, call.Proper sha home) {outcomes : List CallOutcome}
    (run : Trace (FileStep sha timeout hashlib) start calls outcomes final) :
    ∃ requests replies shelf', Trace HomeServed shelf requests replies shelf' ∧
      KeepsShelf final home shelf' ∧
      List.Forall₂ (Matches hashlib digits) (calls.zip outcomes) (requests.zip replies) :=
  Trace.simulates (FileStep.matches digits hashes) run proper keeps

theorem Told.of_success {reply : Option (Reply Bytes)} {resp : ServerResponse}
    {after : ClientRequest} (told : Told hashlib digits call (.ok (resp, after)) reply)
    (success : resp.successful = true) :
    reply = some .done ∨ ∃ content, reply = some (.content content) ∧
      written (parseAction digits hashlib call.client resp) = some content := by
  cases told with
  | lost resp after failed unreliable => exact absurd success (by simp [failed])
  | done resp after success => exact .inl rfl
  | content resp after content success saved => exact .inr ⟨content, rfl, saved⟩
  | refused resp after failed => exact absurd success (by simp [failed])

theorem Told.of_reliable {reply : Option (Reply Bytes)}
    {answer : Except PyError (ServerResponse × ClientRequest)}
    (told : Told hashlib digits call answer reply) (reliable : call.Reliable hashlib) :
    ∃ resp after reply', answer = .ok (resp, after) ∧ reply = some reply' := by
  cases told with
  | unheard error reply unreliable => exact absurd reliable unreliable
  | lost resp after failed unreliable => exact absurd reliable unreliable
  | done resp after _ => exact ⟨resp, after, _, rfl, rfl⟩
  | content resp after content _ _ => exact ⟨resp, after, _, rfl, rfl⟩
  | refused resp after _ => exact ⟨resp, after, _, rfl, rfl⟩

theorem spared_on_shelf {calls : List (FileCall × CallOutcome)}
    {requests : List ((Ask Name Bytes × Bool) × Option (Reply Bytes))}
    (alike : List.Forall₂ (Matches hashlib digits) calls requests) {ask : Ask Name Bytes}
    (spared : ∀ call ∈ calls, call.1.ask ≠ ask) : ∀ request ∈ requests, request.1.1 ≠ ask := by
  induction alike with
  | nil => simp
  | cons same _ induction =>
      rw [List.forall_mem_cons] at spared ⊢
      refine ⟨?_, induction spared.2⟩
      rw [same.1]
      exact spared.1

/-- A client that was told that its upload succeeded need not worry: whoever may read gets
the file, as long as nobody asks to have it deleted. -/
theorem uploads_come_back_to_clients (digits : UnicodeDigits) (hashes : hashlib.Hashes sha)
    {start middle late final : Server} (keeps : KeepsShelf start home shelf) {put get : FileCall}
    {name : Name} {parent : List Name} {content : Bytes}
    (puts : put.ask = .put name parent content) (gets : get.ask = .get (name :: parent))
    (notDb : ¬ DatabaseEntry (name :: parent)) {calls : List FileCall}
    (proper : ∀ call ∈ put :: get :: calls, call.Proper sha home) {granted : Bool}
    {resp : ServerResponse} {after : ClientRequest}
    (stored : FileStep sha timeout hashlib start put ⟨granted, .ok (resp, after)⟩ middle)
    (success : resp.successful = true) {outcomes : List CallOutcome}
    (run : Trace (FileStep sha timeout hashlib) middle calls outcomes late)
    (spared : ∀ call ∈ calls, call.ask ≠ .delete name parent) {outcome : CallOutcome}
    (fetched : FileStep sha timeout hashlib late get outcome final)
    (heard : outcome.granted = true ∧ get.Reliable hashlib ∨
      ∃ resp after, outcome.answer = .ok (resp, after) ∧ resp.successful = true) :
    ∃ resp after, outcome.answer = .ok (resp, after) ∧
      written (parseAction digits hashlib get.client resp) = some content := by
  rw [List.forall_mem_cons, List.forall_mem_cons] at proper
  rcases proper with ⟨putProper, getProper, callsProper⟩
  rcases stored.onShelf digits hashes keeps putProper with
    ⟨putReply, shelf', servedPut, kept', toldPut⟩
  rw [puts] at servedPut
  have isDone : putReply = some .done := by
    rcases toldPut.of_success success with isDone | ⟨other, isContent, _⟩
    · exact isDone
    · rw [isContent] at servedPut
      rcases servedPut with _ | _ | step
      cases step
  subst isDone
  rcases Trace.simulates (FileStep.matches digits hashes) run callsProper kept' with
    ⟨requests, replies, shelf'', served, kept'', alike⟩
  have untouched : ∀ request ∈ requests.zip replies, request.1.1 ≠ .delete name parent :=
    spared_on_shelf alike fun call member => spared call.1 (List.of_mem_zip member).1
  rcases fetched.onShelf digits hashes kept'' getProper with ⟨getReply, _, servedGet, _, toldGet⟩
  rw [gets] at servedGet
  have gotten : ∀ reply, getReply = some reply → outcome.granted = true →
      reply = .content content := by
    intro reply isReply entitled
    rw [isReply, entitled] at servedGet
    exact Shelf.got_of_put servedPut notDb served
      (fun request member _ => untouched request member) servedGet
  rcases heard with ⟨entitled, reliable⟩ | ⟨resp', after', isOk, success'⟩
  · rcases toldGet.of_reliable reliable with ⟨resp', after', reply, isOk, isReply⟩
    cases gotten reply isReply entitled
    rw [isOk, isReply] at toldGet
    rcases toldGet with _ | _ | _ | ⟨_, _, _, _, saved⟩ | _
    exact ⟨resp', after', isOk, saved⟩
  · rw [isOk] at toldGet
    refine ⟨resp', after', isOk, ?_⟩
    rcases toldGet.of_success success' with isDone' | ⟨other, isContent, saved⟩
    · exact absurd isDone' servedGet.ne_done_of_get
    · have entitled : outcome.granted = true := by
        rw [isContent] at servedGet
        exact servedGet.granted_of_content
      cases gotten _ isContent entitled
      exact saved

end Runs

/-! `alice` puts `note` under `notes`, and gets it. -/

theorem FileStep.exists {Object : Type} {sha : Sha256} {timeout : Int}
    {hashlib : Hashlib Object} {server : Server} (call : FileCall) {done : Exchanged}
    {request : WirePayload}
    (exchanged : exchange call.env sha timeout hashlib call.link server call.client = .ok done)
    (inMemory : done.served.InMemory) (isMeant : meant sha call.client = .ok request) :
    ∃ granted, FileStep sha timeout hashlib server call ⟨granted, done.outcome⟩
      done.served.server := by
  classical
  exact ⟨decide (Granted call.env sha timeout server request call.ask),
    .call _ request done exchanged inMemory isMeant decide_eq_true_iff⟩

def putNote : FileCall where
  client :=
    { action := .put
      username := asciiText (ascii "alice")
      password := asciiText (ascii "password")
      dst := some ['.']
      srcName := asciiText (ascii "notes")
      srcFile := some (ascii "note") }
  env := quietEnv
  link := bytewiseLink
  ask := .put notesEntry [] (ascii "note")

def getNote : FileCall where
  client :=
    { action := .get
      username := asciiText (ascii "alice")
      password := asciiText (ascii "password")
      dst := some (asciiText (ascii "notes"))
      sessionId := 7 }
  env := quietEnv
  link := bytewiseLink
  ask := .get [notesEntry]

theorem notes_spelled :
    Spells homeDirectory (CString.ofBuffer (ascii "notes")) notesEntry [] where
  last := by decide
  ends := by decide
  above := by decide
  permitted := by decide
  fits := by decide

theorem putNote_proper : putNote.Proper passwordSha homeDirectory where
  smooth := quietEnv_smooth
  ascii :=
    { username := by decide
      password := by decide
      otherUsername := by decide
      otherPassword := by decide
      path := by
        intro _ _ text isPath
        cases isPath
        decide }
  asks := ⟨_, rfl, .put (ascii "note") rfl rfl rfl rfl notes_spelled⟩

theorem getNote_proper : getNote.Proper passwordSha homeDirectory where
  smooth := quietEnv_smooth
  ascii :=
    { username := by decide
      password := by decide
      otherUsername := by decide
      otherPassword := by decide
      path := by
        intro _ _ text isPath
        cases isPath
        decide }
  asks := ⟨_, rfl, .get ⟨rfl, _, rfl, rfl⟩ notes_spelled⟩

theorem home_exists : uploadServer.tree.get homeDirectory = some .dir := by decide

theorem uploadServer_plain (path : List Name) (node : Node)
    (found : uploadServer.tree.get (path ++ homeDirectory) = some node) :
    ∃ entry, node = entryNode entry := by
  cases path with
  | nil =>
      cases home_exists.symm.trans found
      exact ⟨.folder, rfl⟩
  | cons name path =>
      have below : name :: path ++ homeDirectory ≠ homeDirectory := by
        intro same
        have lengths := congrArg List.length same
        simp only [List.length_append, List.length_cons] at lengths
        omega
      have absent : FileTree.bare.get (name :: path ++ homeDirectory) = none := rfl
      change (FileTree.bare.put homeDirectory .dir).get _ = _ at found
      rw [FileTree.get_put_ne _ _ below, absent] at found
      cases found

theorem uploadServer_keeps :
    KeepsShelf uploadServer homeDirectory (shelfAt uploadServer.tree homeDirectory home_exists) :=
  shelfAt_keeps (by decide) home_exists uploadServer_plain

def answered (done : Exchanged) : Option (Bool × Option Bool) :=
  done.outcome.toOption.map fun heard =>
    (heard.1.successful, done.served.response.map fun response =>
      decide (dataStreamSize response.1 < 2 ^ 63))

theorem of_answered {done : Exchanged} (seen : answered done = some (true, some true)) :
    done.served.InMemory ∧
      ∃ resp after, done.outcome = .ok (resp, after) ∧ resp.successful = true := by
  rcases Option.map_eq_some_iff.mp seen with ⟨heard, got, shown⟩
  rw [Prod.mk.injEq] at shown
  constructor
  · intro response sessionId responded
    have small := shown.2
    rw [responded] at small
    exact of_decide_eq_true (Option.some.inj small)
  · exact ⟨heard.1, heard.2, Fallible.ok_of_toOption got, shown.1⟩

theorem notes_exchanged :
    ∃ calls : Exchanged × Exchanged, (do
      let stored ← exchange quietEnv passwordSha 60 (collecting passwordSha) bytewiseLink
        uploadServer putNote.client
      let fetched ← exchange quietEnv passwordSha 60 (collecting passwordSha) bytewiseLink
        stored.served.server getNote.client
      return (stored, fetched) : Except Fault (Exchanged × Exchanged)) = .ok calls ∧
      (answered calls.1, answered calls.2) =
        (some (true, some true), some (true, some true)) := by
  apply Fallible.exists_ok_of_seen
  decide +kernel

theorem notes_called :
    ∃ stored fetched resp after middle final,
      FileStep passwordSha 60 (collecting passwordSha) uploadServer putNote
        ⟨stored, .ok (resp, after)⟩ middle ∧ resp.successful = true ∧
      FileStep passwordSha 60 (collecting passwordSha) middle getNote fetched final ∧
      ∃ resp after, fetched.answer = .ok (resp, after) ∧ resp.successful = true := by
  rcases notes_exchanged with ⟨calls, both, seen⟩
  rcases Fallible.ok_of_bind_ok both with ⟨put, exchangedPut, rest⟩
  rcases Fallible.ok_of_bind_ok rest with ⟨get, exchangedGet, rest⟩
  cases Except.ok.inj rest
  rw [Prod.mk.injEq] at seen
  rcases of_answered seen.1 with ⟨putInMemory, resp, after, answeredPut, success⟩
  rcases of_answered seen.2 with ⟨getInMemory, heard⟩
  have putMeant : meant passwordSha putNote.client = .ok _ := rfl
  have getMeant : meant passwordSha getNote.client = .ok _ := rfl
  rcases FileStep.exists putNote exchangedPut putInMemory putMeant with ⟨stored, putStep⟩
  rcases FileStep.exists getNote exchangedGet getInMemory getMeant with ⟨granted, getStep⟩
  rw [answeredPut] at putStep
  exact ⟨stored, ⟨granted, get.outcome⟩, resp, after, put.served.server, get.served.server,
    putStep, success, getStep, heard⟩

theorem notes_unreserved : ¬ DatabaseEntry [notesEntry] := by
  rintro (isDb | isHash)
  · cases isDb
  · cases isHash

theorem notes_proper (call : FileCall) (member : call ∈ [putNote, getNote]) :
    call.Proper passwordSha homeDirectory := by
  rcases List.mem_cons.mp member with rfl | isGet
  · exact putNote_proper
  · cases List.mem_singleton.mp isGet
    exact getNote_proper

theorem files_served_as_from_a_shelf_notes :
    ∃ outcomes final requests replies shelf,
      Trace (FileStep passwordSha 60 (collecting passwordSha)) uploadServer
        [putNote, getNote] outcomes final ∧
      Trace HomeServed (shelfAt uploadServer.tree homeDirectory home_exists) requests replies
        shelf ∧
      KeepsShelf final homeDirectory shelf ∧
      List.Forall₂ (Matches (collecting passwordSha) asciiDigits)
        ([putNote, getNote].zip outcomes) (requests.zip replies) := by
  rcases notes_called with ⟨_, _, _, _, _, _, putStep, _, getStep, _⟩
  have run := Trace.cons putStep (.cons getStep (.nil _))
  exact ⟨_, _, _, _, _, run,
    (files_served_as_from_a_shelf asciiDigits (collecting_hashes passwordSha) uploadServer_keeps
      notes_proper run).choose_spec.choose_spec.choose_spec⟩

theorem uploads_come_back_to_clients_note :
    ∃ stored middle fetched final,
      FileStep passwordSha 60 (collecting passwordSha) uploadServer putNote stored middle ∧
      FileStep passwordSha 60 (collecting passwordSha) middle getNote fetched final ∧
      ∃ resp after, fetched.answer = .ok (resp, after) ∧
        written (parseAction asciiDigits (collecting passwordSha) getNote.client resp) =
          some (ascii "note") := by
  rcases notes_called with ⟨_, _, _, _, _, _, putStep, success, getStep, heard⟩
  exact ⟨_, _, _, _, putStep, getStep,
    uploads_come_back_to_clients asciiDigits (collecting_hashes passwordSha) uploadServer_keeps
      rfl rfl notes_unreserved notes_proper putStep success (.nil _) (by simp) getStep (.inr heard)⟩

end FileTransfer
