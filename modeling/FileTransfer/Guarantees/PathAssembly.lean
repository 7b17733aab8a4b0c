import FileTransfer.Guarantees.ListingBuffer
import FileTransfer.Guarantees.Overwriting
import FileTransfer.Guarantees.Persistence

/-! # Putting paths together

The buffer that two paths are joined in holds `PATH_MAX` bytes. Only the resolver of whole
paths checks lengths before it joins; the other one joins unchecked, and an upload falls
from the first to the second exactly when the first refuses.
-/

namespace FileTransfer

open Foundation Posix

/-! ## What is put together -/

def pathResolveJoins (homeDir : Bytes) (child : CString) : List Bytes :=
  if homeDir.length + child.length + slashPlusNull > pathMax then []
  else [joined homeDir child.bytes]

def validResolveJoins (tree : FileTree) (homeDir : Bytes) (child : CString) : List Bytes :=
  joined homeDir (dirname child.bytes) ::
    match tree.realpath (joined homeDir (dirname child.bytes)) with
    | none => []
    | some directory =>
        if basename child.bytes = dot then [] else [joined directory (basename child.bytes)]

def fileSizePaths (env : Env) (tree : FileTree) (path : VerifiedPath) : List Bytes :=
  match tree.readDirectory env.opendir env.entries path.path with
  | .error _ => []
  | .ok entries =>
      (entries.filter listed).map fun entry => path.path ++ slash :: entry.name

inductive PathRequest
  | get
  | list
  | put
  | makeDir
  | delete
deriving DecidableEq

namespace PathRequest

def assembles (env : Env) (server : Server) (child : CString) : PathRequest → List Bytes
  | get | delete => pathResolveJoins server.db.homeDir.path child
  | list =>
      pathResolveJoins server.db.homeDir.path child ++
        match fPathResolve server.tree server.db.homeDir.path child with
        | .ok (some path) => fileSizePaths env server.tree path
        | _ => []
  | put =>
      pathResolveJoins server.db.homeDir.path child ++
        match fPathResolve server.tree server.db.homeDir.path child with
        | .ok none => validResolveJoins server.tree server.db.homeDir.path child
        | _ => []
  | makeDir => validResolveJoins server.tree server.db.homeDir.path child

def code (env : Env) (sha : Sha256) (server : Server) (payload : StdPayload) :
    PathRequest → Except Fault RetCode
  | get => return (← doGetFile env sha server payload).result
  | list => return (← doListDir env sha server payload).result
  | put => return (← doPutFile env server payload).1
  | makeDir => return (← doMakeDir env server payload).1
  | delete => return (← doDelFile env server payload).1

end PathRequest

/-! ## Overflows -/

theorem dirname_length_le_of_ne_nil {path : Bytes} (nonempty : path ≠ []) :
    (dirname path).length ≤ path.length := by
  have trimmed : (path.rdropWhile (· = slash)).length ≤ path.length :=
    (List.rdropWhile_prefix _ _).length_le
  have positive := List.length_pos_iff.mpr nonempty
  simp only [dirname, if_neg nonempty]
  split
  · exact positive
  · split
    · exact positive
    · split
      · exact positive
      · have parent := (List.rdropWhile_prefix (fun byte => decide (byte ≠ slash))
          (path.rdropWhile (· = slash))).length_le
        have stripped := (List.rdropWhile_prefix (fun byte => decide (byte = slash))
          ((path.rdropWhile (· = slash)).rdropWhile (· ≠ slash))).length_le
        omega

theorem pathResolveJoins_short (homeDir : Bytes) (child : CString) :
    ∀ path ∈ pathResolveJoins homeDir child, path.length < pathMax := by
  intro path member
  rw [pathResolveJoins] at member
  split at member
  · cases member
  · rename_i fits
    rw [List.mem_singleton.mp member]
    have bound := joined_length_le homeDir child.bytes
    simp only [CString.length, slashPlusNull] at fits
    omega

theorem fValidResolve_overflow_iff {tree : FileTree} {homeDir : Bytes} {child : CString} :
    fValidResolve tree homeDir child = .error .bufferOverflow ↔
      ∃ path ∈ validResolveJoins tree homeDir child, pathMax ≤ path.length := by
  rw [validResolveJoins]
  simp only [fValidResolve, joinAndResolvePaths, joinPaths_eq, List.mem_cons, exists_eq_or_imp]
  by_cases long : pathMax ≤ (joined homeDir (dirname child.bytes)).length
  · simp [long]
  · simp only [long, if_false, Fallible.ok_bind, Fallible.pure_eq_ok, false_or]
    cases tree.realpath (joined homeDir (dirname child.bytes)) with
    | none => simp
    | some directory =>
        by_cases isDot : basename child.bytes = dot
        · simp [isDot]
        · by_cases longer : pathMax ≤ (joined directory (basename child.bytes)).length
          · simp [isDot, longer]
          · simp only [isDot, longer, if_false, Fallible.ok_bind, List.mem_singleton,
              exists_eq_left, iff_false]
            split <;> simp

theorem put_overflow_iff {env : Env} {server : Server} {payload : StdPayload}
    {child : CString} (given : payload.cPath = some child) :
    doPutFile env server payload = .error .bufferOverflow ↔
      ∃ path ∈ PathRequest.assembles env server child .put, pathMax ≤ path.length := by
  have short := pathResolveJoins_short server.db.homeDir.path child
  simp only [PathRequest.assembles, List.mem_append, or_and_right, exists_or]
  rw [or_iff_right fun ⟨path, member, long⟩ => absurd (short path member) (not_lt.mpr long)]
  simp only [doPutFile, given, fVerPathResolve, fVerValidResolve]
  cases resolved : fPathResolve server.tree server.db.homeDir.path child with
  | error fault =>
      rw [fPathResolve_eq] at resolved
      cases resolved
  | ok found =>
      cases found with
      | some path => simp
      | none =>
          rw [← fValidResolve_overflow_iff]
          cases fValidResolve server.tree server.db.homeDir.path child with
          | error fault => simp
          | ok found => cases found <;> simp

theorem makeDir_overflow_iff {env : Env} {server : Server} {payload : StdPayload}
    {child : CString} (given : payload.cPath = some child) :
    doMakeDir env server payload = .error .bufferOverflow ↔
      ∃ path ∈ PathRequest.assembles env server child .makeDir, pathMax ≤ path.length := by
  simp only [PathRequest.assembles, doMakeDir, given, fVerValidResolve]
  rw [← fValidResolve_overflow_iff]
  cases fValidResolve server.tree server.db.homeDir.path child with
  | error fault => simp
  | ok found => cases found <;> simp

theorem fileSizePaths_fit_iff (env : Env) {tree : FileTree} {location : Location}
    (short : (render location).length < pathMax) (solid : tree.Solid location) :
    (∀ path ∈ fileSizePaths env tree ⟨render location⟩, path.length < pathMax) ↔
      (tree.get location = some .dir → env.opendir = true → PathsFit tree location) := by
  have located := FileTree.locate_render true solid short
  rw [fileSizePaths]
  constructor
  · intro fit isDir opened entry member isListed
    have read : tree.readDirectory env.opendir env.entries (render location) =
        .ok (env.entries.arrange (tree.dirents location)) := by
      rw [FileTree.readDirectory_dir _ _ located isDir, if_pos opened, Target.location_node]
    apply fit
    simp only [read]
    exact List.mem_map_of_mem
      (List.mem_filter.mpr ⟨env.entries.mem_arrange.mpr member, isListed⟩)
  · intro fit path member
    cases read : tree.readDirectory env.opendir env.entries (render location) with
    | error code => simp [read] at member
    | ok entries =>
        rcases FileTree.readDirectory_ok read with ⟨target, found, opened, isDir, rfl⟩
        rw [located] at found
        cases found
        simp only [read] at member
        rcases List.mem_map.mp member with ⟨entry, filtered, rfl⟩
        rcases List.mem_filter.mp filtered with ⟨arranged, isListed⟩
        exact fit isDir opened entry (env.entries.mem_arrange.mp arranged) isListed

def ListingOverruns (env : Env) (server : Server) (child : CString) : Prop :=
  ∃ location, fPathResolve server.tree server.db.homeDir.path child =
      .ok (some ⟨render location⟩) ∧
    server.tree.get location = some .dir ∧ env.opendir = true ∧
      ¬ PrintsInside env server.tree location

theorem doListDir_error_iff {env : Env} {sha : Sha256} {server : Server} {payload : StdPayload}
    {path : VerifiedPath} {fault : Fault}
    (resolved : fVerPathResolve server.tree server.db.homeDir payload.cPath = .ok (some path)) :
    doListDir env sha server payload = .error fault ↔
      fListDir env sha server.tree path = .error fault := by
  simp only [doListDir, resolved, Fallible.ok_bind]
  cases fListDir env sha server.tree path with
  | error other => simp
  | ok answer =>
      rcases answer with ⟨code, _ | content⟩
      · simp
      · simp only [Fallible.ok_bind]
        split <;> simp

theorem list_overflow_iff {env : Env} (sha : Sha256) {server : Server} {payload : StdPayload}
    {child : CString} (given : payload.cPath = some child) :
    doListDir env sha server payload = .error .bufferOverflow ↔
      (∃ path ∈ PathRequest.assembles env server child .list, pathMax ≤ path.length) ∨
        ListingOverruns env server child := by
  have short := pathResolveJoins_short server.db.homeDir.path child
  simp only [PathRequest.assembles, List.mem_append, or_and_right, exists_or, or_assoc]
  rw [or_iff_right fun ⟨path, member, long⟩ => absurd (short path member) (not_lt.mpr long)]
  cases resolved : fPathResolve server.tree server.db.homeDir.path child with
  | error fault =>
      rw [fPathResolve_eq] at resolved
      cases resolved
  | ok found =>
      cases found with
      | none => simp [doListDir, given, fVerPathResolve, ListingOverruns, resolved]
      | some verified =>
          rcases verified with ⟨bytes⟩
          rcases FileTree.realpath_eq_some (fPathResolve_some_iff.mp resolved).2.1 with
            ⟨location, _, rfl, fits, solid⟩
          have named : fVerPathResolve server.tree server.db.homeDir payload.cPath =
              .ok (some ⟨render location⟩) := by
            rw [given]
            exact resolved
          have paths := fileSizePaths_fit_iff env fits solid
          rw [doListDir_error_iff named, fListDir_overflow_iff fits solid]
          constructor
          · rintro ⟨isDir, opened, overstepped⟩
            by_cases fit : PathsFit server.tree location
            · exact .inr ⟨location, resolved, isDir, opened, fun inside =>
                overstepped ⟨fit, inside⟩⟩
            · left
              by_contra noneLong
              refine fit (paths.mp (fun path member => ?_) isDir opened)
              exact lt_of_not_ge fun long => noneLong ⟨path, member, long⟩
          · rintro (⟨path, member, long⟩ | ⟨other, same, isDir, opened, outside⟩)
            · by_contra inside
              have fit := paths.mpr fun isDir opened =>
                (not_not.mp fun outside => inside ⟨isDir, opened, outside⟩).1
              exact absurd (fit path member) (not_lt.mpr long)
            · rw [resolved, Except.ok.injEq, Option.some.injEq, VerifiedPath.mk.injEq] at same
              rw [render_injective same]
              exact ⟨isDir, opened, fun inside => outside inside.2⟩

theorem fVerPathResolve_total (tree : FileTree) (homeDir : VerifiedPath)
    (child : Option CString) : ∃ found, fVerPathResolve tree homeDir child = .ok found := by
  cases child with
  | none => exact ⟨none, rfl⟩
  | some child => exact ⟨_, fPathResolve_eq tree homeDir.path child⟩

theorem doGetFile_error {env : Env} {sha : Sha256} {server : Server} {payload : StdPayload}
    {fault : Fault} (failed : doGetFile env sha server payload = .error fault) :
    fault = .allocationAbort ∨ fault = .doubleClose := by
  rcases fVerPathResolve_total server.tree server.db.homeDir payload.cPath with
    ⟨_ | path, resolved⟩
  · simp [doGetFile, resolved] at failed
  · simp only [doGetFile, resolved, Fallible.ok_bind] at failed
    rcases Fallible.bind_eq_error_iff.mp failed with read | ⟨⟨code, _ | content⟩, _, rest⟩
    · exact fReadFile_error read
    · cases rest
    · simp only at rest
      split at rest <;> cases rest

theorem doDelFile_error {env : Env} {server : Server} {payload : StdPayload} {fault : Fault}
    (failed : doDelFile env server payload = .error fault) : fault = .badPointer := by
  rcases fVerPathResolve_total server.tree server.db.homeDir payload.cPath with
    ⟨_ | path, resolved⟩
  · simp [doDelFile, resolved] at failed
  · simp only [doDelFile, resolved, Fallible.ok_bind, fDelFile] at failed
    repeat' split at failed
    all_goals cases failed
    rfl

/-- Serving a request oversteps a buffer exactly if a path that is put together for it is too
long, or it is a listing that prints outside of its buffer. -/
theorem code_overflow_iff {env : Env} {sha : Sha256} {server : Server} {payload : StdPayload}
    {child : CString} (given : payload.cPath = some child) (request : PathRequest) :
    request.code env sha server payload = .error .bufferOverflow ↔
      (∃ path ∈ request.assembles env server child, pathMax ≤ path.length) ∨
        request = .list ∧ ListingOverruns env server child := by
  have short : ¬ ∃ path ∈ pathResolveJoins server.db.homeDir.path child,
      pathMax ≤ path.length := fun ⟨path, member, long⟩ =>
    absurd (pathResolveJoins_short server.db.homeDir.path child path member) (not_lt.mpr long)
  have coded : ∀ {α : Type} (answer : Except Fault α) (code : α → RetCode),
      (do return code (← answer) : Except Fault RetCode) = .error .bufferOverflow ↔
        answer = .error .bufferOverflow := by
    intro α answer code
    cases answer <;> simp
  cases request with
  | get =>
      refine iff_of_false (fun failed => ?_) (not_or.mpr ⟨short, fun lists => nomatch lists.1⟩)
      rcases doGetFile_error ((coded _ _).mp failed) with fault | fault <;> cases fault
  | list =>
      rw [and_iff_right rfl, ← list_overflow_iff sha given]
      exact coded _ _
  | put =>
      rw [or_iff_left (fun lists => nomatch lists.1), ← put_overflow_iff given]
      exact coded _ _
  | makeDir =>
      rw [or_iff_left (fun lists => nomatch lists.1), ← makeDir_overflow_iff given]
      exact coded _ _
  | delete =>
      refine iff_of_false (fun failed => ?_) (not_or.mpr ⟨short, fun lists => nomatch lists.1⟩)
      cases doDelFile_error ((coded _ _).mp failed)

/-! ## When every buffer is large enough -/

def TooLong (server : Server) (child : CString) : Prop :=
  pathMax < server.db.homeDir.path.length + child.length + slashPlusNull

structure Bounded (env : Env) (sha : Sha256) (server : Server) (payload : StdPayload)
    (child : CString) (request : PathRequest) : Prop where
  fits : ∀ path ∈ request.assembles env server child, path.length < pathMax
  refused : TooLong server child →
    request.assembles env server child = [] ∧
      request.code env sha server payload = .ok .opResolveError

/-- The parts of a path fit the buffer: the directory part may be `.` for an empty path,
and may resolve to a longer one. -/
structure PartsFit (server : Server) (child : CString) : Prop where
  empty : child.bytes = [] → server.db.homeDir.path.length + slashPlusNull < pathMax
  resolved : ∀ directory,
    server.tree.realpath (joined server.db.homeDir.path (dirname child.bytes)) =
      some directory →
    basename child.bytes ≠ dot → (joined directory (basename child.bytes)).length < pathMax

def BoundedWhen (env : Env) (server : Server) (child : CString) : PathRequest → Prop
  | .get | .delete => True
  | .list => ∀ location, server.tree.get location = some .dir → env.opendir = true →
      fPathResolve server.tree server.db.homeDir.path child = .ok (some ⟨render location⟩) →
      PathsFit server.tree location
  | .put => ¬ TooLong server child ∧
      (fPathResolve server.tree server.db.homeDir.path child = .ok none →
        PartsFit server child)
  | .makeDir => ¬ TooLong server child ∧ PartsFit server child

theorem validResolveJoins_fit_iff {server : Server} {child : CString}
    (limit : ¬ TooLong server child) :
    (∀ path ∈ validResolveJoins server.tree server.db.homeDir.path child,
        path.length < pathMax) ↔ PartsFit server child := by
  have directoryFits : (child.bytes = [] →
      server.db.homeDir.path.length + slashPlusNull < pathMax) ↔
        (joined server.db.homeDir.path (dirname child.bytes)).length < pathMax := by
    by_cases empty : child.bytes = []
    · have isDot : joined server.db.homeDir.path (dirname child.bytes) =
          server.db.homeDir.path ++ slash :: dot := by
        rw [empty]
        rfl
      rw [isDot, List.length_append]
      simp [empty, slashPlusNull, dot, ascii]
    · have directory := dirname_length_le_of_ne_nil empty
      have bound := joined_length_le server.db.homeDir.path (dirname child.bytes)
      simp only [TooLong, CString.length, slashPlusNull, not_lt] at limit
      exact iff_of_true (fun isEmpty => absurd isEmpty empty) (by omega)
  have split : PartsFit server child ↔
      (joined server.db.homeDir.path (dirname child.bytes)).length < pathMax ∧
        ∀ directory, server.tree.realpath
            (joined server.db.homeDir.path (dirname child.bytes)) = some directory →
          basename child.bytes ≠ dot →
          (joined directory (basename child.bytes)).length < pathMax := by
    rw [← directoryFits]
    exact ⟨fun fit => ⟨fit.empty, fit.resolved⟩, fun fit => ⟨fit.1, fit.2⟩⟩
  rw [split, validResolveJoins, List.forall_mem_cons]
  refine and_congr_right fun _ => ?_
  cases server.tree.realpath (joined server.db.homeDir.path (dirname child.bytes)) with
  | none => simp
  | some directory =>
      by_cases isDot : basename child.bytes = dot
      · simp [isDot]
      · simp [isDot]

theorem pathResolve_refuses {server : Server} {child : CString} (long : TooLong server child) :
    pathResolveJoins server.db.homeDir.path child = [] ∧
      fPathResolve server.tree server.db.homeDir.path child = .ok none := by
  exact ⟨if_pos long, if_pos long⟩

section Requests

variable {env : Env} {sha : Sha256} {server : Server} {payload : StdPayload} {child : CString}

theorem bounded_of_pathResolve {request : PathRequest}
    (joins : request.assembles env server child =
      pathResolveJoins server.db.homeDir.path child)
    (refused : fPathResolve server.tree server.db.homeDir.path child = .ok none →
      request.code env sha server payload = .ok .opResolveError) :
    Bounded env sha server payload child request where
  fits := by
    rw [joins]
    exact pathResolveJoins_short _ _
  refused long := by
    rw [joins]
    exact ⟨(pathResolve_refuses long).1, refused (pathResolve_refuses long).2⟩

theorem get_bounded (given : payload.cPath = some child) :
    Bounded env sha server payload child .get := by
  apply bounded_of_pathResolve rfl
  intro missed
  simp only [PathRequest.code, doGetFile, given, fVerPathResolve, missed]
  rfl

theorem delete_bounded (given : payload.cPath = some child) :
    Bounded env sha server payload child .delete := by
  apply bounded_of_pathResolve rfl
  intro missed
  simp only [PathRequest.code, doDelFile, given, fVerPathResolve, missed]
  rfl

theorem list_bounded_iff (given : payload.cPath = some child) :
    Bounded env sha server payload child .list ↔ BoundedWhen env server child .list := by
  constructor
  · intro bounded location isDir opened resolved
    rcases FileTree.realpath_eq_some (fPathResolve_some_iff.mp resolved).2.1 with
      ⟨_, _, same, short, _⟩
    rw [← render_injective same] at short
    refine (fileSizePaths_fit_iff env short (FileTree.solid_of_dir isDir)).mp ?_ isDir opened
    intro path member
    apply bounded.fits
    simp only [PathRequest.assembles, resolved]
    exact List.mem_append_right _ member
  · intro fit
    constructor
    · intro path member
      rcases List.mem_append.mp member with first | second
      · exact pathResolveJoins_short _ _ path first
      · cases resolved : fPathResolve server.tree server.db.homeDir.path child with
        | error fault => simp [resolved] at second
        | ok found =>
            cases found with
            | none => simp [resolved] at second
            | some verified =>
                rcases verified with ⟨bytes⟩
                rcases FileTree.realpath_eq_some (fPathResolve_some_iff.mp resolved).2.1 with
                  ⟨location, _, rfl, short, solid⟩
                simp only [resolved] at second
                exact (fileSizePaths_fit_iff env short solid).mpr
                  (fun isDir opened => fit location isDir opened resolved) path second
    · intro long
      rcases pathResolve_refuses long with ⟨joins, missed⟩
      constructor
      · simp only [PathRequest.assembles, joins, missed, List.append_nil]
      · simp only [PathRequest.code, doListDir, given, fVerPathResolve, missed]
        rfl

theorem not_tooLong_of_bounded {request : PathRequest}
    (bounded : Bounded env sha server payload child request)
    (joins : TooLong server child →
      validResolveJoins server.tree server.db.homeDir.path child <:+
        request.assembles env server child) : ¬ TooLong server child := by
  intro long
  have none := joins long
  rw [(bounded.refused long).1, List.suffix_nil] at none
  cases none

theorem put_bounded_iff :
    Bounded env sha server payload child .put ↔ BoundedWhen env server child .put := by
  constructor
  · intro bounded
    have limit : ¬ TooLong server child := by
      apply not_tooLong_of_bounded bounded
      intro long
      simp only [PathRequest.assembles, (pathResolve_refuses long).2]
      exact List.suffix_append _ _
    refine ⟨limit, fun missed => (validResolveJoins_fit_iff limit).mp ?_⟩
    intro path member
    apply bounded.fits
    simp only [PathRequest.assembles, missed]
    exact List.mem_append_right _ member
  · rintro ⟨limit, parts⟩
    refine ⟨fun path member => ?_, fun long => absurd long limit⟩
    rcases List.mem_append.mp member with first | second
    · exact pathResolveJoins_short _ _ path first
    · cases missed : fPathResolve server.tree server.db.homeDir.path child with
      | error fault => simp [missed] at second
      | ok found =>
          cases found with
          | some verified => simp [missed] at second
          | none =>
              simp only [missed] at second
              exact (validResolveJoins_fit_iff limit).mpr (parts missed) path second

theorem makeDir_bounded_iff :
    Bounded env sha server payload child .makeDir ↔
      BoundedWhen env server child .makeDir := by
  constructor
  · intro bounded
    have limit : ¬ TooLong server child :=
      not_tooLong_of_bounded bounded fun _ => List.suffix_refl _
    exact ⟨limit, (validResolveJoins_fit_iff limit).mp bounded.fits⟩
  · rintro ⟨limit, parts⟩
    exact ⟨(validResolveJoins_fit_iff limit).mpr parts, fun long => absurd long limit⟩

end Requests

/-- For every path that a request can carry: the buffers of GET and DELETE always hold
what is put together, those of LIST if the full paths in the directory fit, and those of
PUT and MKDIR if the path is within the limit and its parts fit. -/
theorem bounded_iff (env : Env) (sha : Sha256) (server : Server) (payload : StdPayload)
    (bytes : Bytes) (request : PathRequest) :
    Bounded env sha server { payload with path := some bytes } (CString.ofBuffer bytes)
        request ↔
      BoundedWhen env server (CString.ofBuffer bytes) request := by
  cases request with
  | get => exact iff_of_true (get_bounded rfl) trivial
  | list => exact list_bounded_iff rfl
  | put => exact put_bounded_iff
  | makeDir => exact makeDir_bounded_iff
  | delete => exact iff_of_true (delete_bounded rfl) trivial

/-! A first start in an empty home directory, and an upload under a name of 5000 bytes. -/

def longUpload : StdPayload where
  pathLen := 5000
  path := some (List.replicate 5000 97)
  byteStream := some []

theorem long_name_overruns :
    ∃ start, FirstStart firstSha start ∧
      doPutFile {} start longUpload = .error .bufferOverflow ∧
      ¬ Bounded {} firstSha start longUpload (CString.ofBuffer (List.replicate 5000 97))
        .put := by
  have seen : ∃ done, dbInit {} firstSha emptyHome ⟨render serverHome⟩ = .ok done ∧
      done.1.map (fun db => decide
        (∃ path ∈ PathRequest.assembles {} ⟨db, done.2⟩
          (CString.ofBuffer (List.replicate 5000 97)) .put, pathMax ≤ path.length)) =
        some true := by
    apply Fallible.exists_ok_of_seen
    decide +kernel
  rcases seen with ⟨⟨found, tree⟩, started, overrun⟩
  rcases Option.map_eq_some_iff.mp overrun with ⟨db, rfl, overrun⟩
  have overrun := of_decide_eq_true overrun
  refine ⟨⟨db, tree⟩, firstStart_emptyHome started, (put_overflow_iff rfl).mpr overrun,
    fun bounded => ?_⟩
  rcases overrun with ⟨path, member, long⟩
  exact absurd (bounded.fits path member) (not_lt.mpr long)

/-! ## The seam -/

def withoutTrailing (root : Bytes) : Bytes :=
  if root.getLast? = some slash then root.dropLast else root

def withoutLeading (child : Bytes) : Bytes :=
  if child.head? = some slash then child.tail else child

def oneSeam (root child : Bytes) : Bytes :=
  withoutTrailing root ++ slash :: withoutLeading child

theorem joined_eq_oneSeam {root : Bytes} (noTrailing : root.getLast? ≠ some slash)
    (child : Bytes) : joined root child = oneSeam root child := by
  rw [oneSeam, withoutTrailing, if_neg noTrailing]
  rfl

theorem joined_length_of_trailing {root : Bytes} (trailing : root.getLast? = some slash)
    (child : Bytes) : (joined root child).length = (oneSeam root child).length + 1 := by
  have nonempty : 0 < root.length := by
    apply List.length_pos_iff.mpr
    intro isNil
    rw [isNil] at trailing
    cases trailing
  rw [oneSeam, withoutTrailing, if_pos trailing]
  change (root ++ slash :: withoutLeading child).length = _
  rw [List.length_append, List.length_append, List.length_dropLast]
  omega

/-- `join_paths` puts one slash at the seam exactly where the root does not bring one. -/
theorem joinPaths_oneSeam_iff {root child : CString}
    (fits : (oneSeam root.bytes child.bytes).length < pathMax) :
    joinPaths root.bytes root.length child.bytes child.length =
        .ok (oneSeam root.bytes child.bytes) ↔
      root.bytes.getLast? ≠ some slash := by
  have joins : joinPaths root.bytes root.length child.bytes child.length = _ :=
    joinPaths_eq root.bytes child.bytes
  rw [joins]
  constructor
  · intro same trailing
    have longer := joined_length_of_trailing trailing child.bytes
    split at same
    · cases same
    · rw [Except.ok.inj same] at longer
      omega
  · intro noTrailing
    rw [joined_eq_oneSeam noTrailing, if_neg (not_le.mpr fits)]

theorem trailing_slash_is_doubled :
    joinPaths (ascii "/srv/") 5 (ascii "notes") 5 = .ok (ascii "/srv//notes") ∧
      oneSeam (ascii "/srv/") (ascii "notes") = ascii "/srv/notes" := by
  decide +kernel

theorem joinPaths_oneSeam_iff_srv :
    joinPaths (CString.ofBuffer (ascii "/srv")).bytes (CString.ofBuffer (ascii "/srv")).length
        (CString.ofBuffer (ascii "/notes")).bytes (CString.ofBuffer (ascii "/notes")).length =
        .ok (oneSeam (CString.ofBuffer (ascii "/srv")).bytes
          (CString.ofBuffer (ascii "/notes")).bytes) ↔
      (CString.ofBuffer (ascii "/srv")).bytes.getLast? ≠ some slash :=
  joinPaths_oneSeam_iff (by decide +kernel)

end FileTransfer
