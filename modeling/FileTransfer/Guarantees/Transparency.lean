import FileTransfer.Foundation.Trace
import FileTransfer.Guarantees.RemoteCalls

/-! # Calls that might as well be direct
Over connections on which nothing fails, clients and server are one program: every call is
`ctrl_parse_action` on what the user meant, and the wire between does not show.
-/

namespace FileTransfer

open Foundation Posix Client

/-! ## One call -/

section Smooth

variable {Object : Type} {env : Env} {sha : Sha256} {timeout : Int} {hashlib : Hashlib Object}
  {link : Link} {server : Server} {client : ClientRequest} {done : Exchanged} {bytes : Bytes}

theorem Link.Smooth.outgoing (smooth : link.Smooth)
    (sent : client.clientRequest hashlib = .ok bytes) :
    outgoing hashlib link.send client = .ok bytes := by
  have nonempty : 0 < bytes.length := by
    rcases clientRequest_ok sent with ⟨payload, _, _, _, _, _, rfl⟩
    simp [layout, hOpcode]
  rw [Client.outgoing, sent, Fallible.ok_bind, Client.send, smooth.sendsAll _ nonempty]
  exact congrArg Except.ok List.take_length

theorem Link.Smooth.serve (smooth : link.Smooth) (env : Env) (timeout : Int)
    (server : Server) (hashes : hashlib.Hashes sha)
    (ascii : AsciiFields client) (sent : client.clientRequest hashlib = .ok bytes) :
    ∃ request, meant sha client = .ok request ∧
      link.serve env sha timeout server (Client.outgoing hashlib link.send client) = (do
        let handled ← ctrlParseAction env sha timeout server request
        return ⟨some (handled.response, handled.sessionId), handled.server⟩) := by
  rcases frame_of_ascii hashes ascii sent with ⟨frame, rfl, isMeant⟩
  have granted : link.calloc = plenty := funext smooth.calloc
  have framed := serveClient_frame env sha timeout server frame [] link.ending
  rw [List.append_nil] at framed
  refine ⟨frame.decoded, isMeant, ?_⟩
  simp only [Link.serve, smooth.connects, Bool.true_eq_false, if_false, smooth.outgoing sent,
    Link.connection, smooth.setsockopt, granted]
  exact framed

theorem Link.Smooth.incoming (smooth : link.Smooth) (response : ActResp) (sessionId : UInt32)
    (after : Server) :
    link.incoming ⟨some (response, sessionId), after⟩ =
      .ok ⟨respBytes response sessionId, .closed⟩ := by
  rcases writeResponse_sends smooth.writes response sessionId with ⟨calls, wrote⟩
  simp only [Link.incoming, smooth.callocResponse, wrote]
  rfl

theorem Link.Smooth.makeConnection (smooth : link.Smooth)
    (sent : client.clientRequest hashlib = .ok bytes) {response : ActResp}
    (built : Built response) (inMemory : dataStreamSize response < 2 ^ 63)
    (sessionId : UInt32) :
    makeConnection hashlib link.connects link.send link.recv
        ⟨respBytes response sessionId, .closed⟩ client =
      .ok (conveyed response sessionId, client.setSession sessionId.toNat) := by
  have delivers : Delivers (connect link.recv) ⟨respBytes response sessionId ++ [], .closed⟩
      (conveyed response sessionId) ⟨[], .closed⟩ :=
    connect_delivers smooth.receives built inMemory built.encodeUtf8_msg [] .closed
  rcases delivers 0 with ⟨calls, decoded⟩
  rw [List.append_nil] at decoded
  rw [Client.makeConnection, if_neg (by rw [smooth.connects]; decide), smooth.outgoing sent,
    Fallible.ok_bind, decoded]
  rfl

/-- A call over a connection on which nothing fails is a call of the dispatcher. -/
theorem Link.Smooth.exchange_iff (smooth : link.Smooth) (hashes : hashlib.Hashes sha)
    (ascii : AsciiFields client) (sent : client.clientRequest hashlib = .ok bytes) :
    (exchange env sha timeout hashlib link server client = .ok done ∧ done.served.InMemory) ↔
      ∃ request handled, meant sha client = .ok request ∧
        ctrlParseAction env sha timeout server request = .ok handled ∧
        dataStreamSize handled.response < 2 ^ 63 ∧
        done = ⟨⟨some (handled.response, handled.sessionId), handled.server⟩,
          .ok (conveyed handled.response handled.sessionId,
            client.setSession handled.sessionId.toNat)⟩ := by
  rcases smooth.serve env timeout server hashes ascii sent with ⟨request, isMeant, serves⟩
  constructor
  · rintro ⟨exchanged, inMemory⟩
    rw [exchange, serves] at exchanged
    rcases Fallible.ok_of_bind_ok exchanged with ⟨served, isServed, exchanged⟩
    rcases Fallible.ok_of_bind_ok isServed with ⟨handled, parsed, isServed⟩
    cases isServed
    rw [smooth.incoming] at exchanged
    cases exchanged
    have small := inMemory handled.response handled.sessionId rfl
    rw [smooth.makeConnection sent (ctrlParseAction_built parsed) small]
    exact ⟨request, handled, isMeant, parsed, small, rfl⟩
  · rintro ⟨request', handled, isMeant', parsed, small, rfl⟩
    cases isMeant.symm.trans isMeant'
    constructor
    · rw [exchange, serves, parsed]
      simp only [Fallible.ok_bind, Fallible.pure_eq_ok]
      rw [smooth.incoming, Fallible.ok_bind,
        smooth.makeConnection sent (ctrlParseAction_built parsed) small]
    · intro response sessionId answered
      cases answered
      exact small

end Smooth

/-! ## Runs of several clients -/

structure Callers (Caller : Type) where
  server : Server
  sessions : Caller → UInt32

structure RemoteCall (Caller : Type) where
  caller : Caller
  request : ClientRequest
  env : Env
  link : Link

section Runs

variable {Caller Object : Type} [DecidableEq Caller] (sha : Sha256) (timeout : Int)
  (hashlib : Hashlib Object)

def Callers.request (callers : Callers Caller) (call : RemoteCall Caller) : ClientRequest :=
  call.request.setSession (callers.sessions call.caller).toNat

def Callers.after (callers : Callers Caller) (call : RemoteCall Caller) (server : Server)
    (sessionId : UInt32) : Callers Caller :=
  ⟨server, Function.update callers.sessions call.caller sessionId⟩

def WireStep (callers : Callers Caller) (call : RemoteCall Caller) (resp : ServerResponse)
    (next : Callers Caller) : Prop :=
  ∃ done client, exchange call.env sha timeout hashlib call.link callers.server
      (callers.request call) = .ok done ∧
    done.served.InMemory ∧ done.outcome = .ok (resp, client) ∧
    next = callers.after call done.served.server (UInt32.ofNat client.sessionId)

def DirectStep (callers : Callers Caller) (call : RemoteCall Caller) (resp : ServerResponse)
    (next : Callers Caller) : Prop :=
  ∃ request handled, meant sha (callers.request call) = .ok request ∧
    ctrlParseAction call.env sha timeout callers.server request = .ok handled ∧
    dataStreamSize handled.response < 2 ^ 63 ∧
    resp = conveyed handled.response handled.sessionId ∧
    next = callers.after call handled.server handled.sessionId

structure RemoteCall.Smooth (call : RemoteCall Caller) : Prop where
  link : call.link.Smooth
  ascii : AsciiFields call.request
  fits : ∀ session : UInt32, ∃ bytes,
    (call.request.setSession session.toNat).clientRequest hashlib = .ok bytes

theorem AsciiFields.setSession {request : ClientRequest} (ascii : AsciiFields request)
    (session : Nat) : AsciiFields (request.setSession session) where
  username := ascii.username
  password := ascii.password
  otherUsername := ascii.otherUsername
  otherPassword := ascii.otherPassword
  path := ascii.path

variable {sha timeout hashlib}

theorem wireStep_iff (hashes : hashlib.Hashes sha) {callers next : Callers Caller}
    {call : RemoteCall Caller} {resp : ServerResponse} (smooth : call.Smooth hashlib) :
    WireStep sha timeout hashlib callers call resp next ↔
      DirectStep sha timeout callers call resp next := by
  rcases smooth.fits (callers.sessions call.caller) with ⟨bytes, sent⟩
  have ascii : AsciiFields (callers.request call) := smooth.ascii.setSession _
  constructor
  · rintro ⟨done, client, exchanged, inMemory, got, rfl⟩
    rcases (smooth.link.exchange_iff hashes ascii sent).mp ⟨exchanged, inMemory⟩ with
      ⟨request, handled, isMeant, parsed, small, rfl⟩
    cases got
    refine ⟨request, handled, isMeant, parsed, small, rfl, ?_⟩
    simp only [ClientRequest.setSession, UInt32.ofNat_toNat]
  · rintro ⟨request, handled, isMeant, parsed, small, rfl, rfl⟩
    rcases (smooth.link.exchange_iff hashes ascii sent).mpr
      ⟨request, handled, isMeant, parsed, small, rfl⟩ with ⟨exchanged, inMemory⟩
    refine ⟨_, _, exchanged, inMemory, rfl, ?_⟩
    simp only [ClientRequest.setSession, UInt32.ofNat_toNat]

/-- Whatever clients call, in whatever order, and however the wire cuts their bytes: the
server goes through the same states, and the clients get the same responses and session ids,
as if each call were made directly. -/
theorem remote_calls_transparent (hashes : hashlib.Hashes sha)
    {calls : List (RemoteCall Caller)} (smooth : ∀ call ∈ calls, call.Smooth hashlib)
    {start final : Callers Caller} {resps : List ServerResponse} :
    Trace (WireStep sha timeout hashlib) start calls resps final ↔
      Trace (DirectStep sha timeout) start calls resps final := by
  constructor
  · exact Trace.mono_of (fun allowed => (wireStep_iff hashes allowed).mp) smooth
  · exact Trace.mono_of (fun allowed => (wireStep_iff hashes allowed).mpr) smooth

end Runs

/-! `alice` logs in from two machines, over connections that deliver her bytes one at a time,
and from the first she comes back. -/

def atOnce : Pieces where
  moved _ asked := some asked
  inRange positive moved := by
    cases moved
    exact ⟨positive, le_rfl⟩

def bytewiseLink : Link where
  send := atOnce
  recv := .bytewise
  write := .bytewise

theorem bytewiseLink_smooth : bytewiseLink.Smooth where
  connects := rfl
  sendsAll _ _ := rfl
  receives := Pieces.bytewise_unfailing
  writes := Pieces.bytewise_unfailing
  setsockopt := rfl
  calloc _ := rfl
  callocResponse := rfl

def aliceLogin : ClientRequest where
  action := .localOp
  username := asciiText (ascii "alice")
  password := asciiText (ascii "password")

def aliceCall (first : Bool) (env : Env) : RemoteCall Bool where
  caller := first
  request := aliceLogin
  env := env
  link := bytewiseLink

def aliceCalls : List (RemoteCall Bool) :=
  [aliceCall true quietEnv, aliceCall false laterEnv, aliceCall true laterEnv]

theorem aliceLogin_ascii : AsciiFields aliceLogin where
  username := by decide
  password := by decide
  otherUsername isUser := by cases isUser
  otherPassword isUser := by cases isUser
  path notLocal := absurd rfl notLocal

theorem aliceLogin_fits (session : UInt32) :
    ∃ bytes, (aliceLogin.setSession session.toNat).clientRequest (collecting passwordSha) =
      .ok bytes := by
  have fits : session.toNat < 4294967296 := session.toNat_lt
  simp [ClientRequest.clientRequest, ClientRequest.payload, ClientRequest.setSession, pack,
    aliceLogin, asciiText, ascii, ActionType.value, fits]

theorem aliceCalls_smooth (call : RemoteCall Bool) (member : call ∈ aliceCalls) :
    call.Smooth (collecting passwordSha) := by
  simp only [aliceCalls, List.mem_cons, List.not_mem_nil, or_false] at member
  rcases member with rfl | rfl | rfl <;>
    exact ⟨bytewiseLink_smooth, aliceLogin_ascii, aliceLogin_fits⟩

theorem remote_calls_transparent_alice :
    ∃ resps final, Trace (WireStep passwordSha 60 (collecting passwordSha))
      ⟨serverOf alice, fun _ => 0⟩ aliceCalls resps final ∧
        final.sessions true = 7 ∧ final.sessions false = 9 := by
  have login : meant passwordSha (aliceLogin.setSession 0) =
      .ok (aliceConnection 0).request := by decide +kernel
  have return' : meant passwordSha (aliceLogin.setSession 7) =
      .ok (aliceConnection 7).request := by decide +kernel
  refine ⟨_, _, (remote_calls_transparent (collecting_hashes passwordSha) aliceCalls_smooth).mpr
    (.cons ⟨_, ⟨ctrlPopulateResp .opSuccess, 7, _⟩, login, rfl, ?_, rfl, rfl⟩
      (.cons ⟨_, ⟨ctrlPopulateResp .opSuccess, 9, _⟩, login, rfl, ?_, rfl, rfl⟩
        (.cons ⟨_, ⟨ctrlPopulateResp .opSuccess, 7, _⟩, return', rfl, ?_, rfl, rfl⟩
          (.nil _)))), rfl, rfl⟩
  all_goals decide

end FileTransfer
