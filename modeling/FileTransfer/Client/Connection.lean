import FileTransfer.Client.Classes

/-! # `make_connection`
What the client puts on a connection, and what it keeps of the answer.
-/

namespace FileTransfer.Client

open Foundation

def ClientRequest.setSession (client : ClientRequest) (value : Nat) : ClientRequest :=
  { client with sessionId := value }

section

variable {Object : Type} (hashlib : Hashlib Object)

/-- `conn.send`: a single call, which takes a first part of what it is given. -/
def send (pieces : Pieces) (bytes : Bytes) : Except PyError Bytes :=
  match pieces.moved 0 bytes.length with
  | none => .error (.failure .socketError)
  | some count => .ok (bytes.take count)

def outgoing (pieces : Pieces) (client : ClientRequest) : Except PyError Bytes := do
  send pieces (← client.clientRequest hashlib)

/-- `make_connection`, over a connection that brings `incoming`: the response, and the
client, which has taken the session id of the response. -/
def makeConnection (connects : Bool) (pieces recv : Pieces) (incoming : Stream)
    (client : ClientRequest) : Except PyError (ServerResponse × ClientRequest) := do
  if connects = false then throw (.failure .socketError)
  else
    let _ ← outgoing hashlib pieces client
    match connect recv (0, incoming) with
    | .error failure _ => throw (.failure failure)
    | .ok resp _ => return (resp, client.setSession resp.sessionId)

end

/-! ## What is sent, what is kept -/

section

variable {Object : Type} {hashlib : Hashlib Object} {pieces recv : Pieces}
  {client : ClientRequest}

theorem outgoing_ok {bytes : Bytes} (sent : outgoing hashlib pieces client = .ok bytes) :
    ∃ whole, client.clientRequest hashlib = .ok whole ∧ bytes <+: whole := by
  rcases Fallible.ok_of_bind_ok sent with ⟨whole, isRequest, sent⟩
  refine ⟨whole, isRequest, ?_⟩
  rw [send] at sent
  split at sent
  · cases sent
  · cases sent
    exact List.take_prefix _ _

theorem makeConnection_ok {connects : Bool} {incoming : Stream} {resp : ServerResponse}
    {after : ClientRequest}
    (made : makeConnection hashlib connects pieces recv incoming client = .ok (resp, after)) :
    connects = true ∧ (∃ bytes, outgoing hashlib pieces client = .ok bytes) ∧
      (∃ later, connect recv (0, incoming) = .ok resp later) ∧
      after = client.setSession resp.sessionId := by
  rw [makeConnection] at made
  split at made
  · cases made
  · rename_i connected
    rcases Fallible.ok_of_bind_ok made with ⟨bytes, sent, made⟩
    split at made
    · cases made
    · rename_i isOk
      cases made
      exact ⟨eq_true_of_ne_false connected, ⟨bytes, sent⟩, ⟨_, isOk⟩, rfl⟩

end

end FileTransfer.Client
