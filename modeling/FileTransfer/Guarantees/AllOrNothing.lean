import FileTransfer.Guarantees.Overwriting
import FileTransfer.Guarantees.Upload

/-! # Requests that go wrong

A request that is answered with a failure is to leave the files below the home directory
alone, and an upload that is acknowledged is to be stored whole. An upload is written in
place and is not taken back, and what closing the file comes to is not looked at.
-/

namespace FileTransfer

open Foundation Posix

inductive ChangeRequest
  | put
  | makeDir
  | delete
deriving DecidableEq

def ChangeRequest.perform (env : Env) (server : Server) (payload : StdPayload) :
    ChangeRequest → Except Fault (RetCode × FileTree)
  | put => doPutFile env server payload
  | makeDir => doMakeDir env server payload
  | delete => doDelFile env server payload

/-- All or nothing: after a failure everything below `home` is as it was, and an upload
that succeeds has stored the whole stream in its file. -/
structure AllOrNothing (server : Server) (home : Location) (payload : StdPayload)
    (request : ChangeRequest) (code : RetCode) (after : FileTree) : Prop where
  failed : code ≠ .opSuccess →
    ∀ location, AtOrBelow home location → after.get location = server.tree.get location
  stored : request = .put → code = .opSuccess →
    ∃ stream place, payload.byteStream = some stream ∧
      WritesAt server payload.cPath place ∧ after.get place = some (.file stream)

structure WritesOut (env : Env) (server : Server) (payload : StdPayload) (place : Location)
    (stream : Bytes) : Prop where
  puts : ∃ path, Puts server payload path stream ∧ server.tree.Denotes path.path place
  opens : env.write.opens = true
  notDir : server.tree.get place ≠ some .dir

/-- A write goes well: it is accepted whole, reaches the disk whole and goes to a file; or
it is not accepted whole, and what it leaves below `home` is what was there. -/
def Harmless (outcome : WriteOutcome) (tree : FileTree) (home place : Location)
    (stream : Bytes) : Prop :=
  if outcome.accepted stream = stream then
    tree.get place ≠ some .other ∧ outcome.kept stream = stream
  else
    AtOrBelow home place →
      tree.get place = some .other ∨ tree.get place = some (.file (outcome.kept stream))

def HarmlessRequest (env : Env) (server : Server) (home : Location) (payload : StdPayload) :
    ChangeRequest → Prop
  | .put => ∀ place stream, WritesOut env server payload place stream →
      Harmless env.write server.tree home place stream
  | .makeDir | .delete => True

/-! ## Directories and deletions -/

theorem fCreateDir_failed {env : Env} {tree : FileTree} {path : VerifiedPath}
    (failed : (fCreateDir env tree path).1 ≠ .opSuccess) :
    (fCreateDir env tree path).2 = tree := by
  rw [fCreateDir] at failed ⊢
  cases made : tree.mkdir env.mkdir path.path with
  | ok after => simp [made] at failed
  | error code => cases code <;> rfl

theorem fDelFile_failed {env : Env} {tree after : FileTree} {path : VerifiedPath}
    {code : RetCode} (deleted : fDelFile env tree path = .ok (code, after))
    (failed : code ≠ .opSuccess) : after = tree := by
  rw [fDelFile] at deleted
  split at deleted
  · cases deleted
    rfl
  · split at deleted
    · split at deleted
      · cases deleted
        exact absurd rfl failed
      · cases deleted
        rfl
    · split at deleted
      · cases deleted
      · simp only at deleted
        split at deleted
        · cases deleted
          rfl
        · split at deleted
          · cases deleted
            exact absurd rfl failed
          · cases deleted
            rfl
    · cases deleted
      rfl

theorem allOrNothing_unchanged {server : Server} {home : Location} {payload : StdPayload}
    {request : ChangeRequest} {code : RetCode} {after : FileTree}
    (notPut : request ≠ .put) (unchanged : code ≠ .opSuccess → after = server.tree) :
    AllOrNothing server home payload request code after where
  failed failed location _ := by rw [unchanged failed]
  stored isPut _ := absurd isPut notPut

theorem makeDir_allOrNothing {env : Env} {server : Server} {home : Location}
    {payload : StdPayload} {code : RetCode} {after : FileTree}
    (done : doMakeDir env server payload = .ok (code, after)) :
    AllOrNothing server home payload .makeDir code after := by
  apply allOrNothing_unchanged (by decide)
  intro failed
  rcases Fallible.ok_of_bind_ok done with ⟨verified, _, done⟩
  cases verified with
  | none =>
      cases done
      rfl
  | some path =>
      have made : fCreateDir env server.tree path = (code, after) := Except.ok.inj done
      have failed' : (fCreateDir env server.tree path).1 ≠ .opSuccess := by rwa [made]
      exact (congrArg Prod.snd made).symm.trans (fCreateDir_failed failed')

theorem delete_allOrNothing {env : Env} {server : Server} {home : Location}
    {payload : StdPayload} {code : RetCode} {after : FileTree}
    (done : doDelFile env server payload = .ok (code, after)) :
    AllOrNothing server home payload .delete code after := by
  apply allOrNothing_unchanged (by decide)
  intro failed
  rcases Fallible.ok_of_bind_ok done with ⟨verified, _, done⟩
  cases verified with
  | none =>
      cases done
      rfl
  | some path => exact fDelFile_failed done failed

/-! ## Uploads -/

section Put

variable {env : Env} {server : Server} {home : Location} {payload : StdPayload}
  {code : RetCode} {after : FileTree}

theorem written_allOrNothing_iff {place : Location} {stream : Bytes}
    (carried : payload.byteStream = some stream)
    (writesAt : WritesAt server payload.cPath place)
    (holds : server.tree.CanHold place)
    (coded : code = if env.write.accepted stream = stream then .opSuccess else .opFailure)
    (left : after = if server.tree.get place = some .other then server.tree
      else server.tree.put place (.file (env.write.kept stream))) :
    AllOrNothing server home payload .put code after ↔
      Harmless env.write server.tree home place stream := by
  by_cases whole : env.write.accepted stream = stream
  · rw [if_pos whole] at coded
    rw [Harmless, if_pos whole]
    constructor
    · intro kept
      rcases kept.stored rfl coded with ⟨stream', place', carried', writesAt', found⟩
      cases carried.symm.trans carried'
      cases writesAt.unique writesAt'
      by_cases isOther : server.tree.get place = some .other
      · rw [left, if_pos isOther, isOther] at found
        cases found
      · rw [left, if_neg isOther, FileTree.get_put_self _ holds, Option.some.injEq,
          Node.file.injEq] at found
        exact ⟨isOther, found⟩
    · rintro ⟨notOther, flushed⟩
      refine ⟨fun failed => absurd coded failed, fun _ _ => ⟨stream, place, carried, writesAt, ?_⟩⟩
      rw [left, if_neg notOther, FileTree.get_put_self _ holds, flushed]
  · rw [if_neg whole] at coded
    have failed : code ≠ .opSuccess := by simp [coded]
    rw [Harmless, if_neg whole]
    constructor
    · intro kept below
      by_cases isOther : server.tree.get place = some .other
      · exact .inl isOther
      · have same := kept.failed failed place below
        rw [left, if_neg isOther, FileTree.get_put_self _ holds] at same
        exact .inr same.symm
    · intro harmless
      refine ⟨fun _ location below => ?_, fun _ success => absurd success failed⟩
      by_cases isOther : server.tree.get place = some .other
      · rw [left, if_pos isOther]
      · rw [left, if_neg isOther]
        by_cases here : location = place
        · subst here
          rw [FileTree.get_put_self _ holds]
          exact ((harmless below).resolve_left isOther).symm
        · exact FileTree.get_put_ne _ _ here

theorem WritesOut.unique {place other : Location} {stream stream' : Bytes}
    (writes : WritesOut env server payload place stream)
    (writes' : WritesOut env server payload other stream') :
    place = other ∧ stream = stream' := by
  rcases writes.puts with ⟨path, puts, leads⟩
  rcases writes'.puts with ⟨path', puts', leads'⟩
  have samePath := puts.verified.symm.trans puts'.verified
  cases samePath
  exact ⟨FileTree.denotes_unique leads leads',
    Option.some.inj (puts.carried.symm.trans puts'.carried)⟩

theorem put_allOrNothing_iff (done : doPutFile env server payload = .ok (code, after)) :
    AllOrNothing server home payload .put code after ↔
      HarmlessRequest env server home payload .put := by
  -- Where nothing is written out, nothing has changed.
  have idle : code ≠ .opSuccess → after = server.tree →
      (∀ place stream, ¬ WritesOut env server payload place stream) →
      (AllOrNothing server home payload .put code after ↔
        HarmlessRequest env server home payload .put) := by
    intro failed unchanged none
    apply iff_of_true
    · exact ⟨fun _ _ _ => by rw [unchanged], fun _ success => absurd success failed⟩
    · intro place stream writes
      exact absurd writes (none place stream)
  rcases doPutFile_cases done with ⟨path, stream, puts, written⟩ | ⟨nothing, failed, unchanged⟩
  · rcases fWriteFile_cases env.write server.tree path stream with
      ⟨target, located, opens, notDir, result⟩ | ⟨unready, code', failed, result⟩
    · rw [written, Prod.mk.injEq] at result
      have leads : server.tree.Denotes path.path target.location := ⟨target, located, rfl⟩
      have writes : WritesOut env server payload target.location stream :=
        ⟨⟨path, puts, leads⟩, opens, notDir⟩
      rw [written_allOrNothing_iff puts.carried ⟨path, puts.verified, leads⟩
        (FileTree.canHold_of_located located notDir) result.1 result.2]
      constructor
      · intro harmless place stream' writes'
        rcases writes.unique writes' with ⟨rfl, rfl⟩
        exact harmless
      · intro harmless
        exact harmless _ _ writes
    · rw [written, Prod.mk.injEq] at result
      rcases result with ⟨rfl, unchanged⟩
      apply idle failed unchanged
      intro place stream' writes
      rcases writes.puts with ⟨path', puts', target, located, rfl⟩
      cases puts.verified.symm.trans puts'.verified
      exact unready ⟨target, located, writes.opens, writes.notDir⟩
  · apply idle failed unchanged
    intro place stream writes
    rcases writes.puts with ⟨path, puts, _⟩
    exact nothing ⟨path, stream, puts⟩

end Put

/-- Requests for directories and deletions are all or nothing, and so is an upload exactly
if its write goes well. -/
theorem allOrNothing_iff {env : Env} {server : Server} {home : Location}
    {payload : StdPayload} {request : ChangeRequest} {code : RetCode} {after : FileTree}
    (done : request.perform env server payload = .ok (code, after)) :
    AllOrNothing server home payload request code after ↔
      HarmlessRequest env server home payload request := by
  cases request with
  | put => exact put_allOrNothing_iff done
  | makeDir => exact iff_of_true (makeDir_allOrNothing done) trivial
  | delete => exact iff_of_true (delete_allOrNothing done) trivial

/-! An upload of three bytes to an empty home directory, of which the disk takes one, or
of which closing the file loses all. -/

def upload : StdPayload where
  path := some (ascii "notes")
  byteStream := some (ascii "new")

def oneByteEnv : Env := { write := { accepts := some 1 } }

def lostAtCloseEnv : Env := { write := { keeps := some 0 } }

theorem upload_writesAt :
    WritesAt uploadServer upload.cPath [notesName, homeEntry] := by
  refine ⟨⟨ascii "/home/notes"⟩, by decide +kernel, .slot [notesName, homeEntry], ?_, rfl⟩
  decide +kernel

theorem short_write_stays :
    (∃ after later, doPutFile oneByteEnv uploadServer upload = .ok (.opFailure, after) ∧
        ¬ AllOrNothing uploadServer [homeEntry] upload .put .opFailure after ∧
        doPutFile {} { uploadServer with tree := after } upload =
          .ok (.opFileExists, later)) ∧
      ∃ after, doPutFile lostAtCloseEnv uploadServer upload = .ok (.opSuccess, after) ∧
        ¬ AllOrNothing uploadServer [homeEntry] upload .put .opSuccess after := by
  constructor
  · have seen : ∃ done, doPutFile oneByteEnv uploadServer upload = .ok done ∧
        (done.1, done.2.get [notesName, homeEntry],
          (doPutFile {} { uploadServer with tree := done.2 } upload).toOption.map Prod.fst) =
          (.opFailure, some (.file (ascii "n")), some .opFileExists) := by
      apply Fallible.exists_ok_of_seen
      decide +kernel
    rcases seen with ⟨⟨code, after⟩, done, shown⟩
    simp only [Prod.mk.injEq] at shown
    rcases shown with ⟨rfl, left, retried⟩
    rcases Option.map_eq_some_iff.mp retried with ⟨⟨again, later⟩, delivered, rfl⟩
    refine ⟨after, later, done, ?_, Fallible.ok_of_toOption delivered⟩
    intro kept
    have same := kept.failed (by decide) [notesName, homeEntry] (by decide)
    rw [left] at same
    revert same
    decide +kernel
  · have seen : ∃ done, doPutFile lostAtCloseEnv uploadServer upload = .ok done ∧
        (done.1, done.2.get [notesName, homeEntry]) = (.opSuccess, some (.file [])) := by
      apply Fallible.exists_ok_of_seen
      decide +kernel
    rcases seen with ⟨⟨code, after⟩, done, shown⟩
    simp only [Prod.mk.injEq] at shown
    rcases shown with ⟨rfl, left⟩
    refine ⟨after, done, ?_⟩
    intro kept
    rcases kept.stored rfl rfl with ⟨stream, place, carried, writesAt, found⟩
    cases carried
    rw [writesAt.unique upload_writesAt, left] at found
    revert found
    decide

theorem allOrNothing_iff_upload :
    ∃ after, ChangeRequest.perform oneByteEnv uploadServer upload .put =
        .ok (.opFailure, after) ∧
      (AllOrNothing uploadServer [homeEntry] upload .put .opFailure after ↔
        HarmlessRequest oneByteEnv uploadServer [homeEntry] upload .put) := by
  have seen : ∃ done, doPutFile oneByteEnv uploadServer upload = .ok done ∧
      done.1 = .opFailure := by
    apply Fallible.exists_ok_of_seen
    decide +kernel
  rcases seen with ⟨⟨code, after⟩, done, rfl⟩
  exact ⟨after, done, allOrNothing_iff done⟩

end FileTransfer
