import FileTransfer.Guarantees.Framing
import FileTransfer.Guarantees.Mediation
import FileTransfer.Server.FileRequests

/-! # Uploads

When an upload takes effect, from the frame on the wire to the file on disk. The
hash that comes with it has no part in that.
-/

namespace FileTransfer

open Foundation Posix

/-! ## Effects -/

def Effective (code : RetCode) (before after : FileTree) : Prop :=
  code = .opSuccess ∨ ∃ location, after.get location ≠ before.get location

theorem not_effective {code : RetCode} (failed : code ≠ .opSuccess) (tree : FileTree) :
    ¬ Effective code tree tree := by
  rintro (acknowledged | ⟨location, differs⟩)
  · exact failed acknowledged
  · exact differs rfl

/-- Writing `stream` through `path` is seen: the path opens for writing, and either
everything is accepted, or what is left in the file is not what was there. -/
def WriteSeen (outcome : WriteOutcome) (tree : FileTree) (path stream : Bytes) : Prop :=
  ∃ target, tree.locate true path = .ok target ∧ outcome.opens = true ∧
    tree.get target.location ≠ some .dir ∧
    (outcome.accepted stream = stream ∨
      tree.get target.location ≠ some .other ∧
        tree.get target.location ≠ some (.file (outcome.kept stream)))

theorem put_differs_iff {tree : FileTree} {place : Location} (holds : tree.CanHold place)
    (node : Node) :
    (∃ location, (tree.put place node).get location ≠ tree.get location) ↔
      tree.get place ≠ some node := by
  constructor
  · rintro ⟨location, differs⟩ same
    by_cases here : location = place
    · rw [here, FileTree.get_put_self node holds] at differs
      exact differs same.symm
    · exact differs (tree.get_put_ne node here)
  · intro differs
    refine ⟨place, ?_⟩
    rw [FileTree.get_put_self node holds]
    exact differs.symm

theorem fWriteFile_effective_iff (outcome : WriteOutcome) (tree : FileTree)
    (path : VerifiedPath) (stream : Bytes) :
    Effective (fWriteFile outcome tree path (some stream)).1 tree
        (fWriteFile outcome tree path (some stream)).2 ↔
      WriteSeen outcome tree path.path stream := by
  rcases fWriteFile_cases outcome tree path stream with
    ⟨target, located, opens, notDir, written⟩ | ⟨unready, code, failed, written⟩
  · have holds := FileTree.canHold_of_located located notDir
    have seen : WriteSeen outcome tree path.path stream ↔
        outcome.accepted stream = stream ∨
          tree.get target.location ≠ some .other ∧
            tree.get target.location ≠ some (.file (outcome.kept stream)) := by
      constructor
      · rintro ⟨target', located', _, _, change⟩
        rw [located] at located'
        cases located'
        exact change
      · exact fun change => ⟨target, located, opens, notDir, change⟩
    have changed : (∃ location,
          (if tree.get target.location = some .other then tree
            else tree.put target.location (.file (outcome.kept stream))).get location ≠
              tree.get location) ↔
        tree.get target.location ≠ some .other ∧
          tree.get target.location ≠ some (.file (outcome.kept stream)) := by
      by_cases isOther : tree.get target.location = some .other
      · simp [isOther]
      · rw [if_neg isOther, put_differs_iff holds]
        simp [isOther]
    rw [seen, ← changed, written, Effective]
    by_cases whole : outcome.accepted stream = stream
    · simp [whole]
    · simp [whole]
  · rw [written]
    refine iff_of_false (not_effective failed tree) ?_
    rintro ⟨target, located, opens, notDir, _⟩
    exact unready ⟨target, located, opens, notDir⟩

def PutSeen (env : Env) (server : Server) (child : Option CString)
    (stream : Option Bytes) : Prop :=
  fVerPathResolve server.tree server.db.homeDir child = .ok none ∧
    ∃ path bytes, stream = some bytes ∧
      fVerValidResolve server.tree server.db.homeDir child = .ok (some path) ∧
      WriteSeen env.write server.tree path.path bytes

theorem doPutFile_effective_iff {env : Env} {server : Server} {payload : StdPayload}
    {code : RetCode} {tree : FileTree}
    (done : doPutFile env server payload = .ok (code, tree)) :
    Effective code server.tree tree ↔
      PutSeen env server payload.cPath payload.byteStream := by
  rcases doPutFile_cases done with ⟨path, bytes, puts, written⟩ | ⟨idle, failed, rfl⟩
  · have seen := fWriteFile_effective_iff env.write server.tree path bytes
    rw [written] at seen
    rw [seen]
    constructor
    · exact fun written => ⟨puts.absent, path, bytes, puts.carried, puts.verified, written⟩
    · rintro ⟨_, path', bytes', carried, verified, written⟩
      rw [puts.carried] at carried
      rw [puts.verified] at verified
      cases carried
      cases verified
      exact written
  · refine iff_of_false (not_effective failed _) ?_
    rintro ⟨absent, path, bytes, carried, verified, _⟩
    exact idle ⟨path, bytes, absent, verified, carried⟩

theorem put_effective_iff {env : Env} {sha : Sha256} {timeout : Int} {server : Server}
    {request : WirePayload} {payload : StdPayload} {handled : Handled}
    (opcode : request.optCode = Act.putRemoteFile.toByte)
    (carried : request.payload = .std payload)
    (done : ctrlParseAction env sha timeout server request = .ok handled) :
    Effective handled.response.result server.tree handled.server.tree ↔
      ∃ user, Authentic sha server.db.usersHtable request user ∧
        SessionValid env timeout server.db.seshHtable request.sessionId ∧
        Perms.readWrite ≤ user.permission ∧
        PutSeen env server payload.cPath payload.byteStream := by
  cases ctrlParseAction_effect done with
  | refused code failed stranger result =>
      subst result
      refine iff_of_false (not_effective failed _) ?_
      rintro ⟨user, authentic, _⟩
      exact stranger user authentic
  | expired user check authentic checked failed result =>
      subst result
      refine iff_of_false (not_effective failed _) ?_
      rintro ⟨_, _, valid, _⟩
      exact failed ((checkSession_success_iff checked).mpr valid)
  | performed user check response after authentic checked passed action result =>
      subst result
      have valid := (checkSession_success_iff checked).mp passed
      simp only [performAction, opcode, Act.ofByte_toByte] at action
      rcases writeAction_cases action with
        ⟨low, rfl, rfl⟩ | ⟨payload', code, tree, permitted, carried', put, rfl, rfl⟩
      · refine iff_of_false (not_effective (by simp) _) ?_
        rintro ⟨user', authentic', _, enough, _⟩
        cases authentic.unique authentic'
        exact absurd low (UInt8.not_lt.mpr enough)
      · rw [carried] at carried'
        cases carried'
        refine (doPutFile_effective_iff put).trans ?_
        constructor
        · exact fun seen => ⟨user, authentic, valid, permitted, seen⟩
        · rintro ⟨_, _, _, _, seen⟩
          exact seen

/-! ## Uploads on the wire -/

/-- The promise of the hash: an upload is acknowledged only if the hash is that of
the stream, and an upload with another hash is refused and changes no file. -/
structure HashChecked (sha : Sha256) (hash stream : Bytes) (before : FileTree)
    (served : Served) : Prop where
  acknowledged : ∀ response session, served.response = some (response, session) →
    response.result = .opSuccess → hash = sha.digest stream
  refused : hash ≠ sha.digest stream →
    (∀ location, served.server.tree.get location = before.get location) ∧
      ∃ response session, served.response = some (response, session) ∧
        response.result ≠ .opSuccess

def UploadSeen (env : Env) (sha : Sha256) (timeout : Int) (server : Server)
    (frame : Frame) (path : ShortBytes) (stream : Bytes) : Prop :=
  stream ≠ [] ∧
    ∃ user, Authentic sha server.db.usersHtable frame.decoded user ∧
      SessionValid env timeout server.db.seshHtable frame.session ∧
      Perms.readWrite ≤ user.permission ∧
      PutSeen env server (some (CString.ofBuffer path.val)) (some stream)

/-- The promise is kept for an upload exactly when its hash is right anyway, or
something other than its hash keeps it from taking effect. -/
theorem hashChecked_iff {env : Env} {sha : Sha256} {timeout : Int} {server : Server}
    {frame : Frame} {path : ShortBytes} {hash : { hash : Bytes // hash.length = hHashLen }}
    {stream rest : Bytes} {ending : StreamEnd} {served : Served}
    (isPut : frame.opcode = Act.putRemoteFile.toByte)
    (carries : frame.payload = .std path (some (hash, stream)))
    (done : serveClient env sha timeout server
      { calloc := plenty, stream := ⟨frame.encode ++ rest, ending⟩ } = .ok served) :
    HashChecked sha hash.val stream server.tree served ↔
      hash.val = sha.digest stream ∨
        ¬ UploadSeen env sha timeout server frame path stream := by
  rw [serveClient_frame] at done
  rcases Fallible.ok_of_bind_ok done with ⟨handled, parsed, final⟩
  cases final
  have payload : frame.decoded.payload =
      (FramePayload.std path (some (hash, stream))).decoded :=
    congrArg FramePayload.decoded carries
  have effective := put_effective_iff isPut payload parsed
  have seen : Effective handled.response.result server.tree handled.server.tree ↔
      UploadSeen env sha timeout server frame path stream := by
    refine effective.trans ?_
    by_cases empty : stream = []
    · simp [UploadSeen, PutSeen, empty]
    · simp only [StdPayload.cPath, Option.map_some, Option.bind_some, if_neg empty]
      simp only [UploadSeen, empty, ne_eq, not_false_eq_true, true_and]
      rfl
  rw [← seen]
  constructor
  · intro checked
    by_contra neither
    rcases not_or.mp neither with ⟨wrong, takesEffect⟩
    rw [not_not] at takesEffect
    rcases checked.refused wrong with ⟨same, response, session, answered, failed⟩
    cases answered
    rcases takesEffect with acknowledged | ⟨location, differs⟩
    · exact failed acknowledged
    · exact differs (same location)
  · rintro (right | idle)
    · exact ⟨fun _ _ _ _ => right, fun wrong => absurd right wrong⟩
    · rcases not_or.mp idle with ⟨failed, same⟩
      refine ⟨?_, fun _ => ⟨?_, _, _, rfl, failed⟩⟩
      · rintro response session answered acknowledged
        cases answered
        exact absurd acknowledged failed
      · intro location
        by_contra differs
        exact same ⟨location, differs⟩

/-! An upload of the text `password` under a hash of zeros. -/

theorem home_valid : NameValid (ascii "home") := by decide

def uploadServer : Server :=
  let server := serverOf (accountNamed "alice" Perms.readWrite)
  { db := { server.db with homeDir := ⟨ascii "/home"⟩ }
    tree := server.tree.put [⟨ascii "home", home_valid⟩] .dir }

def zeroHash : { hash : Bytes // hash.length = hHashLen } :=
  ⟨List.replicate hHashLen 0, zeros_length⟩

def notesPath : ShortBytes := ⟨ascii "notes", by decide⟩

def alteredUpload : Frame where
  opcode := Act.putRemoteFile.toByte
  flag := 0
  reserved := ⟨[0, 0], reserved_length⟩
  session := 0
  username := ⟨ascii "alice", by decide⟩
  passwd := ⟨ascii "password", by decide⟩
  payload := .std notesPath (some (zeroHash, ascii "password"))
  shaped := put_opcode
  sized := by decide

theorem alteredUpload_stored :
    ∃ handled, ctrlParseAction quietEnv passwordSha 60 uploadServer alteredUpload.decoded =
        .ok handled ∧ handled.response.result = .opSuccess := by
  apply Fallible.exists_ok_of_seen
  decide +kernel

theorem altered_upload_acknowledged :
    ∃ served, serveClient quietEnv passwordSha 60 uploadServer
        { calloc := plenty, stream := ⟨alteredUpload.encode ++ [], .closed⟩ } = .ok served ∧
      ¬ HashChecked passwordSha zeroHash.val (ascii "password") uploadServer.tree served := by
  rcases alteredUpload_stored with ⟨handled, parsed, success⟩
  refine ⟨⟨some (handled.response, handled.sessionId), handled.server⟩, ?_, ?_⟩
  · rw [serveClient_frame, parsed]
    rfl
  · intro checked
    have right := checked.acknowledged _ _ rfl success
    revert right
    decide

theorem hashChecked_iff_altered_upload :
    ∃ served, serveClient quietEnv passwordSha 60 uploadServer
        { calloc := plenty, stream := ⟨alteredUpload.encode ++ [], .closed⟩ } = .ok served ∧
      (HashChecked passwordSha zeroHash.val (ascii "password") uploadServer.tree served ↔
        zeroHash.val = passwordSha.digest (ascii "password") ∨
          ¬ UploadSeen quietEnv passwordSha 60 uploadServer alteredUpload notesPath
            (ascii "password")) := by
  rcases alteredUpload_stored with ⟨handled, parsed, _⟩
  have done : serveClient quietEnv passwordSha 60 uploadServer
      { calloc := plenty, stream := ⟨alteredUpload.encode ++ [], .closed⟩ } =
        .ok ⟨some (handled.response, handled.sessionId), handled.server⟩ := by
    rw [serveClient_frame, parsed]
    rfl
  exact ⟨_, done, hashChecked_iff rfl rfl done⟩

end FileTransfer
