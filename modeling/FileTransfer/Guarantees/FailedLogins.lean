import FileTransfer.Guarantees.Framing
import FileTransfer.Server.Response

/-! # Failed logins

What a client sees of a login that fails, and what the login leaves behind. Whether
the user is unknown or the password is wrong, the response is the same, to the byte,
and neither depends on anything else that the server holds.
-/

namespace FileTransfer

open Foundation Posix

def WrongCredentials (sha : Sha256) (users : HashTable CString UserAccount)
    (request : WirePayload) : Prop :=
  ∀ name passwd, request.username = some name → request.passwd = some passwd →
    users.get (CString.ofBuffer name) = none ∨
      ∃ account, users.get (CString.ofBuffer name) = some account ∧
        account.hash ≠ sha.digest (CString.ofBuffer passwd).bytes

theorem authenticate_wrong {sha : Sha256} {db : Db} {request : WirePayload}
    {name passwd : Bytes} (named : request.username = some name)
    (secret : request.passwd = some passwd)
    (wrong : WrongCredentials sha db.usersHtable request) :
    authenticate sha db request = .ok (.error .opUserAuth) := by
  rw [authenticate, named, secret]
  simp only [Option.map_some, dbAuthenticateUser]
  rcases wrong name passwd named secret with unknown | ⟨account, known, differs⟩
  · rw [unknown]
  · rw [known]
    simp [hashByteArray, differs]

theorem ctrlParseAction_wrong {calloc : Allocation → Bool} {stream rest : Stream}
    {request : WirePayload} (read : readClientReq calloc ({}, stream) = .ok () (request, rest))
    (env : Env) {sha : Sha256} (timeout : Int) {server : Server}
    (wrong : WrongCredentials sha server.db.usersHtable request) :
    ctrlParseAction env sha timeout server request =
      .ok ⟨ctrlPopulateResp .opUserAuth, request.sessionId, server⟩ := by
  rcases readClientReq_credentials read with ⟨name, passwd, named, secret⟩
  rw [ctrlParseAction, authenticate_wrong named secret wrong]
  rfl

structure Observed where
  server : Server
  response : (write : Pieces) → (calloc : Bool) → Except Fault (Bool × Sending)

def observe (env : Env) (sha : Sha256) (timeout : Int) (server : Server)
    (request : WirePayload) : Except Fault Observed := do
  let handled ← ctrlParseAction env sha timeout server request
  return ⟨handled.server, fun write calloc =>
    writeResponse write calloc handled.response handled.sessionId⟩

def Observed.Sends (observed : Observed) (bytes : Bytes) : Prop :=
  ∀ write : Pieces, write.Unfailing → ∃ sending,
    observed.response write true = .ok (true, sending) ∧ sending.wire = bytes

def refusal (sessionId : UInt32) (server : Server) : Observed where
  server := server
  response write calloc :=
    writeResponse write calloc (ctrlPopulateResp .opUserAuth) sessionId

theorem observe_wrong {calloc : Allocation → Bool} {stream rest : Stream}
    {request : WirePayload} (read : readClientReq calloc ({}, stream) = .ok () (request, rest))
    (env : Env) {sha : Sha256} (timeout : Int) {server : Server}
    (wrong : WrongCredentials sha server.db.usersHtable request) :
    observe env sha timeout server request = .ok (refusal request.sessionId server) := by
  rw [observe, ctrlParseAction_wrong read env timeout wrong]
  rfl

theorem refusal_sends (sessionId : UInt32) (server : Server) :
    (refusal sessionId server).Sends
      (respBytes (ctrlPopulateResp .opUserAuth) sessionId) := by
  intro write unfailing
  rcases writeResponse_sends unfailing (ctrlPopulateResp .opUserAuth) sessionId with
    ⟨calls, sent⟩
  exact ⟨_, sent, rfl⟩

/-- Two servers, whatever they hold, answer a login that fails at both alike, and keep
what they hold. -/
theorem failed_logins_look_alike {calloc : Allocation → Bool} {stream rest : Stream}
    {request : WirePayload} (read : readClientReq calloc ({}, stream) = .ok () (request, rest))
    {sha : Sha256} {first second : Server}
    (wrong : WrongCredentials sha first.db.usersHtable request)
    (wrong' : WrongCredentials sha second.db.usersHtable request)
    (env env' : Env) (timeout timeout' : Int) :
    ∃ observed observed',
      observe env sha timeout first request = .ok observed ∧
      observe env' sha timeout' second request = .ok observed' ∧
      observed.server = first ∧ observed'.server = second ∧
      observed.response = observed'.response ∧
      ∃ bytes, observed.Sends bytes ∧ observed'.Sends bytes := by
  have seen := observe_wrong read env timeout wrong
  have seen' := observe_wrong read env' timeout' wrong'
  exact ⟨_, _, seen, seen', rfl, rfl, rfl, _, refusal_sends request.sessionId first,
    refusal_sends request.sessionId second⟩

theorem failed_logins_look_alike_empty_put :
    ∃ observed observed',
      observe quietEnv passwordSha 60 (serverOf (accountNamed "admin" Perms.admin))
        emptyPut.decoded = .ok observed ∧
      observe quietEnv passwordSha 60 (serverOf (accountNamed "A" Perms.read))
        emptyPut.decoded = .ok observed' ∧
      observed.response = observed'.response := by
  have wrong : WrongCredentials passwordSha
      (serverOf (accountNamed "admin" Perms.admin)).db.usersHtable emptyPut.decoded := by
    intro name passwd named secret
    cases named
    exact .inl (by decide)
  have wrong' : WrongCredentials passwordSha
      (serverOf (accountNamed "A" Perms.read)).db.usersHtable emptyPut.decoded := by
    intro name passwd named secret
    cases named
    cases secret
    exact .inr ⟨_, rfl, by decide⟩
  rcases failed_logins_look_alike (readClientReq_frame emptyPut [] .closed) wrong wrong'
    quietEnv quietEnv 60 60 with
    ⟨observed, observed', seen, seen', _, _, alike, _⟩
  exact ⟨observed, observed', seen, seen', alike⟩

end FileTransfer
