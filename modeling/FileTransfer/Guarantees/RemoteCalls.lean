import FileTransfer.Client.Connection
import FileTransfer.Guarantees.ClientRequests
import FileTransfer.Guarantees.ResponseFormat

/-! # Requests as remote calls
A request of the client, the worker that serves it and the response that comes back, seen
from both ends: a procedure that is called with what the user meant, or one that fails.
-/

namespace FileTransfer

open Foundation Posix Client

/-! ## What is meant -/

def meant (sha : Sha256) (request : ClientRequest) : Except PyError WirePayload := do
  let header : WirePayload :=
    { optCode := UInt8.ofNat request.action.value
      userFlag := UInt8.ofNat request.userFlag.value
      usernameLen := (encodeUtf8 request.username).length
      passwdLen := (encodeUtf8 request.password).length
      sessionId := UInt32.ofNat request.sessionId
      username := some (encodeUtf8 request.username)
      passwd := some (encodeUtf8 request.password) }
  if request.action = .localOp then return header
  else if request.action = .userOp then
    let username := encodeUtf8 request.otherUsername
    let passwd :=
      if request.userFlag = .createUser then some (encodeUtf8 request.otherPassword) else none
    return { header with
      payloadLen := hUsrActFlag + hUsrPermission + hUsernameLen + username.length +
        match passwd with
        | some passwd => hPasswordLen + passwd.length
        | none => 0
      type := .userPayload
      payload := .user
        { userFlag := UInt8.ofNat request.userFlag.value
          userPerm := UInt8.ofNat request.perm.value
          usernameLen := username.length
          username := some username
          passwdLen := (passwd.map List.length).getD 0
          passwd } }
  else
    let path := encodeUtf8 (← request.path)
    let file := if request.action = .put then request.srcFile else none
    return { header with
      payloadLen := hPathLen + path.length +
        match file with
        | some content => hHashLen + content.length
        | none => 0
      payload := .std
        { pathLen := path.length
          path := some path
          byteStream := file.bind fun content => if content = [] then none else some content
          hashStream := file.map sha.digest
          byteStreamLen := (file.map List.length).getD 0 } }

section Meant

variable {sha : Sha256} {request : ClientRequest} {frame : Frame}

theorem ofNat_of_toNat {byte : UInt8} {value : Nat} (same : byte.toNat = value) :
    byte = UInt8.ofNat value := by
  rw [← same, UInt8.ofNat_toNat]

theorem meant_of_carries (opcode : frame.opcode.toNat = request.action.value)
    (flag : frame.flag.toNat = request.userFlag.value)
    (session : frame.session.toNat = request.sessionId)
    (username : frame.username.val = encodeUtf8 request.username)
    (passwd : frame.passwd.val = encodeUtf8 request.password)
    (reserved : frame.reserved.val = [0, 0])
    (carries : Carries sha request frame.payload) :
    meant sha request = .ok frame.decoded := by
  have number : frame.session = UInt32.ofNat request.sessionId := by
    rw [← session, UInt32.ofNat_toNat]
  rcases frame with ⟨_, _, _, _, _, _, payload, _, _⟩
  dsimp only at *
  cases payload with
  | empty =>
      have isLocal : request.action = .localOp := carries
      simp only [meant, isLocal, if_true, Frame.decoded, ofNat_of_toNat opcode,
        ofNat_of_toNat flag, number, username, passwd, reserved]
      rfl
  | user flag' permission username' passwd' =>
      rcases carries with ⟨isUser, sameFlag, samePermission, sameName, samePasswd⟩
      have notLocal : request.action ≠ .localOp := by
        rw [isUser]
        decide
      simp only [meant, if_neg notLocal, if_pos isUser, ← samePasswd, ← sameName,
        Frame.decoded, FramePayload.decoded, FramePayload.type, ofNat_of_toNat opcode,
        ofNat_of_toNat flag, ofNat_of_toNat sameFlag, ofNat_of_toNat samePermission, number,
        username, passwd, reserved]
      cases passwd' with
      | none => simp [FramePayload.encode, FramePayload.encodePasswd, Nat.add_assoc]
      | some secret => simp [FramePayload.encode, FramePayload.encodePasswd, Nat.add_assoc]
  | std path file =>
      rcases carries with ⟨notLocal, notUser, ⟨text, isPath, samePath⟩, sameFile⟩
      have fileSent : file.map (fun sent => (sent.1.val, sent.2)) =
          (if request.action = .put then request.srcFile else none).map
            fun content => (sha.digest content, content) := by
        rw [sameFile]
        split <;> rfl
      simp only [meant, if_neg notLocal, if_neg notUser, isPath, Fallible.ok_bind, ← samePath,
        Frame.decoded, FramePayload.decoded, FramePayload.type, ofNat_of_toNat opcode,
        ofNat_of_toNat flag, number, username, passwd, reserved]
      generalize (if request.action = .put then request.srcFile else none) = content at fileSent
      cases file with
      | none =>
          cases content with
          | none => simp [FramePayload.encode, FramePayload.encodeFile]
          | some content => cases fileSent
      | some sent =>
          cases content with
          | none => cases fileSent
          | some content =>
              rcases sent with ⟨hash, stream⟩
              have counted := hash.2
              simp only [Option.map_some, Option.some.injEq, Prod.mk.injEq] at fileSent
              rcases fileSent with ⟨isHash, rfl⟩
              simp [FramePayload.encode, FramePayload.encodeFile, ← isHash, counted,
                Nat.add_assoc]

theorem frame_of_ascii {Object : Type} {hashlib : Hashlib Object}
    (hashes : hashlib.Hashes sha) (ascii : AsciiFields request) {bytes : Bytes}
    (sent : request.clientRequest hashlib = .ok bytes) :
    ∃ frame : Frame, frame.encode = bytes ∧ meant sha request = .ok frame.decoded := by
  rcases clientRequest_ok sent with ⟨payload, isPayload, short, short', session, sized, rfl⟩
  rcases carries_of_ascii hashes isPayload ascii with ⟨carried, goesWith, rfl, carries⟩
  have name := encodeUtf8_length_eq_iff.mpr ascii.username
  have secret := encodeUtf8_length_eq_iff.mpr ascii.password
  have number : (UInt32.ofNat request.sessionId).toNat = request.sessionId :=
    UInt32.toNat_ofNat_of_lt' session
  let frame : Frame :=
    { opcode := UInt8.ofNat request.action.value
      flag := UInt8.ofNat request.userFlag.value
      reserved := ⟨[0, 0], reserved_length⟩
      session := UInt32.ofNat request.sessionId
      username := ⟨encodeUtf8 request.username, by omega⟩
      passwd := ⟨encodeUtf8 request.password, by omega⟩
      payload := carried
      shaped := goesWith
      sized := sized }
  refine ⟨frame, ?_, ?_⟩
  · simp only [frame, Frame.encode, layout, actionValue_fits, number, name, secret]
    rfl
  · exact meant_of_carries (actionValue_fits _) (actionValue_fits _) number rfl rfl rfl carries

end Meant

section Meant

variable {sha : Sha256} {request : ClientRequest} {payload : WirePayload}

theorem meant_header (isMeant : meant sha request = .ok payload) :
    payload.optCode = UInt8.ofNat request.action.value ∧
      payload.userFlag = UInt8.ofNat request.userFlag.value ∧
      payload.username = some (encodeUtf8 request.username) ∧
      payload.passwd = some (encodeUtf8 request.password) := by
  rw [meant] at isMeant
  dsimp only at isMeant
  split at isMeant
  · cases isMeant
    exact ⟨rfl, rfl, rfl, rfl⟩
  · split at isMeant
    · cases isMeant
      exact ⟨rfl, rfl, rfl, rfl⟩
    · rcases Fallible.ok_of_bind_ok isMeant with ⟨path, _, isMeant⟩
      cases isMeant
      exact ⟨rfl, rfl, rfl, rfl⟩

theorem meant_user (isUser : request.action = .userOp) {user : UserPayload}
    (isMeant : meant sha request = .ok payload) (carried : payload.payload = .user user) :
    user.userFlag = UInt8.ofNat request.userFlag.value ∧
      user.userPerm = UInt8.ofNat request.perm.value ∧
      user.username = some (encodeUtf8 request.otherUsername) ∧
      (request.userFlag = .createUser →
        user.passwd = some (encodeUtf8 request.otherPassword)) := by
  have notLocal : request.action ≠ .localOp := by
    rw [isUser]
    decide
  rw [meant] at isMeant
  simp only [if_neg notLocal, if_pos isUser] at isMeant
  cases isMeant
  cases carried
  exact ⟨rfl, rfl, rfl, fun creates => if_pos creates⟩

theorem meant_put (isPut : request.action = .put) {std : StdPayload} {stream : Bytes}
    (isMeant : meant sha request = .ok payload) (carried : payload.payload = .std std)
    (given : std.byteStream = some stream) : request.srcFile = some stream := by
  have notLocal : request.action ≠ .localOp := by
    rw [isPut]
    decide
  have notUser : request.action ≠ .userOp := by
    rw [isPut]
    decide
  rw [meant] at isMeant
  simp only [if_neg notLocal, if_neg notUser, if_pos isPut] at isMeant
  rcases Fallible.ok_of_bind_ok isMeant with ⟨path, _, isMeant⟩
  cases isMeant
  cases carried
  rcases Option.bind_eq_some_iff.mp given with ⟨content, isFile, isContent⟩
  split at isContent
  · cases isContent
  · cases isContent
    exact isFile

def Act.asked : Act → ActionType
  | userOperation => .userOp
  | deleteRemoteFile => .delete
  | listRemoteDirectory => .ls
  | getRemoteFile => .get
  | makeRemoteDirectory => .mkdir
  | putRemoteFile => .put
  | localOperation => .localOp

theorem asked_of_opcode {action : ActionType} {act : Act}
    (same : UInt8.ofNat action.value = act.toByte) : action = act.asked := by
  cases action <;> cases act <;> revert same <;> decide

end Meant

/-! ## One connection -/

/-- What lies between a client and the server for one connection: whether it comes about,
what the calls at both ends move, what the server is granted, and what it finds behind the
bytes of the client, who waits for the response. -/
structure Link where
  connects : Bool := true
  send : Pieces
  recv : Pieces
  write : Pieces
  setsockopt : Bool := true
  calloc : Allocation → Bool := plenty
  callocResponse : Bool := true
  ending : StreamEnd := .timedOut

namespace Link

variable (link : Link)

def connection (outgoing : Except PyError Bytes) : Connection where
  setsockopt := link.setsockopt
  calloc := link.calloc
  stream :=
    match outgoing with
    | .error _ => ⟨[], .closed⟩
    | .ok bytes => ⟨bytes, link.ending⟩

def incoming (served : Served) : Except Fault Stream :=
  match served.response with
  | none => .ok ⟨[], .closed⟩
  | some (response, sessionId) => do
      let (_, sending) ← writeResponse link.write link.callocResponse response sessionId
      return ⟨sending.wire, .closed⟩

structure Smooth : Prop where
  connects : link.connects = true
  sendsAll : ∀ asked, 0 < asked → link.send.moved 0 asked = some asked
  receives : link.recv.Unfailing
  writes : link.write.Unfailing
  setsockopt : link.setsockopt = true
  calloc : ∀ allocation, link.calloc allocation = true
  callocResponse : link.callocResponse = true

end Link

structure Exchanged where
  served : Served
  outcome : Except PyError (ServerResponse × ClientRequest)

section Exchange

variable {Object : Type} (env : Env) (sha : Sha256) (timeout : Int) (hashlib : Hashlib Object)

def Link.serve (link : Link) (server : Server) (outgoing : Except PyError Bytes) :
    Except Fault Served :=
  if link.connects = false then .ok ⟨none, server⟩
  else serveClient env sha timeout server (link.connection outgoing)

def exchange (link : Link) (server : Server) (client : ClientRequest) :
    Except Fault Exchanged := do
  let served ← link.serve env sha timeout server (outgoing hashlib link.send client)
  let incoming ← link.incoming served
  return ⟨served, makeConnection hashlib link.connects link.send link.recv incoming client⟩

end Exchange

def conveyed (response : ActResp) (sessionId : UInt32) : ServerResponse :=
  decodedResp response sessionId (asciiText response.msg)

theorem conveyed_successful (response : ActResp) (sessionId : UInt32) :
    (conveyed response sessionId).successful = true ↔ response.result = .opSuccess := by
  rw [ServerResponse.successful, decide_eq_true_iff]
  change successResponse = response.result.toByte.toNat ↔ _
  cases response.result <;> decide

def Served.InMemory (served : Served) : Prop :=
  ∀ response sessionId, served.response = some (response, sessionId) →
    dataStreamSize response < 2 ^ 63

theorem Built.encodeUtf8_msg {response : ActResp} (built : Built response) :
    encodeUtf8 (asciiText response.msg) = response.msg := by
  have short : ∃ code, response.msg = getErrMsg code := by
    cases built with
    | code code => exact ⟨code, rfl⟩
    | content content nonempty hashSize => exact ⟨.opSuccess, rfl⟩
  rcases short with ⟨code, isMsg⟩
  rw [isMsg]
  exact encodeUtf8_asciiText (shortAscii_spec (getErrMsg_short code)).1

section Exchange

variable {Object : Type} {env : Env} {sha : Sha256} {timeout : Int} {hashlib : Hashlib Object}
  {link : Link} {server : Server} {client : ClientRequest} {done : Exchanged}

theorem Link.incoming_part (link : Link) (served : Served) :
    ∃ part, link.incoming served = .ok ⟨part, .closed⟩ ∧
      (served.response = none → part = []) ∧
      ∀ response sessionId, served.response = some (response, sessionId) →
        part <+: respBytes response sessionId := by
  rw [incoming]
  rcases served with ⟨_ | ⟨response, sessionId⟩, after⟩
  · exact ⟨[], rfl, fun _ => rfl, by simp⟩
  · rcases writeResponse_part link.write link.callocResponse response sessionId with
      ⟨whole, sending, wrote, isPart, _⟩
    refine ⟨sending.wire, ?_, by simp, ?_⟩
    · simp only [wrote, Fallible.ok_bind]
      rfl
    · intro _ _ answered
      cases answered
      exact isPart

theorem connect_nothing {recv : Pieces} {calls : Nat} {ending : StreamEnd}
    {resp : ServerResponse} {after : Nat × Stream} :
    connect recv (calls, ⟨[], ending⟩) ≠ .ok resp after := by
  intro connected
  have split := congrArg List.length (connect_ok connected).2
  simp only [laidOut, List.length_append, toBigEndian_length, List.length_nil,
    RespHeader.returnCode] at split
  omega

theorem exchange_ok
    (exchanged : exchange env sha timeout hashlib link server client = .ok done) :
    (link.connects = false ∧ done.served = ⟨none, server⟩ ∨
      link.connects = true ∧ serveClient env sha timeout server
        (link.connection (outgoing hashlib link.send client)) = .ok done.served) ∧
      ∃ part, link.incoming done.served = .ok ⟨part, .closed⟩ ∧
        done.outcome = makeConnection hashlib link.connects link.send link.recv
          ⟨part, .closed⟩ client := by
  rw [exchange] at exchanged
  rcases Fallible.ok_of_bind_ok exchanged with ⟨served, serves, exchanged⟩
  rcases Fallible.ok_of_bind_ok exchanged with ⟨incoming, wrote, exchanged⟩
  cases exchanged
  constructor
  · rw [Link.serve] at serves
    split at serves
    · rename_i unconnected
      cases serves
      exact .inl ⟨unconnected, rfl⟩
    · rename_i connected
      exact .inr ⟨eq_true_of_ne_false connected, serves⟩
  · rcases link.incoming_part served with ⟨part, isPart, _, _⟩
    cases isPart.symm.trans wrote
    exact ⟨part, wrote, rfl⟩

theorem exchange_conveys
    (exchanged : exchange env sha timeout hashlib link server client = .ok done)
    (inMemory : done.served.InMemory) {resp : ServerResponse} {after : ClientRequest}
    (got : done.outcome = .ok (resp, after)) :
    ∃ response sessionId, done.served.response = some (response, sessionId) ∧
      resp = conveyed response sessionId ∧ after = client.setSession sessionId.toNat := by
  rcases exchange_ok exchanged with ⟨serves, part, wrote, outcome⟩
  rw [got] at outcome
  rcases makeConnection_ok outcome.symm with ⟨connects, _, ⟨later, decoded⟩, rfl⟩
  rcases serves with ⟨unconnected, _⟩ | ⟨_, serves⟩
  · rw [unconnected] at connects
    cases connects
  · rcases link.incoming_part done.served with ⟨part', wrote', nothing, isPart⟩
    cases wrote.symm.trans wrote'
    cases answered : done.served.response with
    | none =>
        rw [nothing answered] at decoded
        exact absurd decoded connect_nothing
    | some response =>
        rcases response with ⟨response, sessionId⟩
        have built := serveClient_built serves answered
        rcases connect_part built (inMemory response sessionId answered)
          (isPart response sessionId answered) decoded with ⟨msg, isText, rfl⟩
        cases encodeUtf8_injective (isText.trans built.encodeUtf8_msg.symm)
        exact ⟨response, sessionId, rfl, rfl, rfl⟩

end Exchange

/-! ## Carried out or not -/

/-- A worker carries out the request that it has read, or it touches neither users nor
files and reports no success. -/
theorem serveClient_reads {env : Env} {sha : Sha256} {timeout : Int} {server : Server}
    {connection : Connection} {served : Served}
    (done : serveClient env sha timeout server connection = .ok served) :
    (∃ request after handled,
        readClientReq connection.calloc ({}, connection.stream) = .ok () (request, after) ∧
        ctrlParseAction env sha timeout server request = .ok handled ∧
        served = ⟨some (handled.response, handled.sessionId), handled.server⟩) ∨
      (∃ table, served.server = server.setSessions table) ∧
        ∀ response sessionId, served.response = some (response, sessionId) →
          response.result ≠ .opSuccess := by
  have untouched : ∃ table, server = server.setSessions table := ⟨server.db.seshHtable, rfl⟩
  rw [serveClient] at done
  split at done
  · cases done
    exact .inr ⟨untouched, by simp⟩
  · split at done
    · cases done
      exact .inr ⟨untouched, by simp⟩
    · split at done
      · rename_i code request after failed
        cases done
        refine .inr ⟨⟨_, rfl⟩, ?_⟩
        intro response sessionId answered
        simp only [failureResponse] at answered
        split at answered
        · cases answered
        · cases answered
          exact (disciplined_readClientReq connection.calloc).fails failed
      · rename_i request after read
        rcases Fallible.ok_of_bind_ok done with ⟨handled, parsed, final⟩
        cases final
        exact .inl ⟨request, after, handled, read, parsed, rfl⟩

section Calls

variable {Object : Type} {env : Env} {sha : Sha256} {timeout : Int} {hashlib : Hashlib Object}
  {link : Link} {server : Server} {client : ClientRequest} {done : Exchanged}

theorem plenty_granted (allocation : Allocation) : plenty allocation = true := rfl

theorem not_read_of_cut {calloc : Allocation → Bool} {frame : Frame} {start : Bytes}
    (isPrefix : start <+: frame.encode) (proper : start ≠ frame.encode) {ending : StreamEnd}
    {after : WirePayload × Stream} :
    readClientReq calloc ({}, ⟨start, ending⟩) ≠ .ok () after := by
  intro read
  rcases readClientReq_cut frame isPrefix proper ending with ⟨code, later, _, failed⟩
  cases failed.symm.trans (below_readClientReq calloc plenty_granted _ _ _ read)

theorem read_is_meant (hashes : hashlib.Hashes sha) (ascii : AsciiFields client)
    {request : WirePayload} {after : Stream}
    (read : readClientReq link.calloc
      ({}, (link.connection (outgoing hashlib link.send client)).stream) =
        .ok () (request, after)) :
    meant sha client = .ok request := by
  cases sent : outgoing hashlib link.send client with
  | error error =>
      rw [sent] at read
      have isPrefix : [] <+: emptyPut.encode := List.nil_prefix
      exact absurd read (not_read_of_cut isPrefix (by decide))
  | ok bytes =>
      rw [sent] at read
      rcases outgoing_ok sent with ⟨whole, isRequest, isPart⟩
      rcases frame_of_ascii hashes ascii isRequest with ⟨frame, rfl, isMeant⟩
      by_cases proper : bytes = frame.encode
      · have decoded := readClientReq_frame frame [] link.ending
        have read' := below_readClientReq link.calloc plenty_granted _ _ _ read
        simp only [Link.connection, proper] at read'
        rw [List.append_nil] at decoded
        cases decoded.symm.trans read'
        exact isMeant
      · exact absurd read (not_read_of_cut isPart proper)

/-- However a connection fares, the request that was meant is carried out once, in full,
and a response that the client gets is the one to it; or nothing is carried out, and the
client is not told of a success. -/
theorem exchange_at_most_once (hashes : hashlib.Hashes sha) (ascii : AsciiFields client)
    (exchanged : exchange env sha timeout hashlib link server client = .ok done)
    (inMemory : done.served.InMemory) :
    (∃ request handled, meant sha client = .ok request ∧
        ctrlParseAction env sha timeout server request = .ok handled ∧
        done.served.server = handled.server ∧
        ∀ resp after, done.outcome = .ok (resp, after) →
          resp = conveyed handled.response handled.sessionId ∧
            after = client.setSession handled.sessionId.toNat) ∨
      done.served.server.db.usersHtable = server.db.usersHtable ∧
        done.served.server.tree = server.tree ∧
        ∀ resp after, done.outcome = .ok (resp, after) → resp.successful = false := by
  have conveys : ∀ resp after, done.outcome = .ok (resp, after) →
      ∃ response sessionId, done.served.response = some (response, sessionId) ∧
        resp = conveyed response sessionId ∧ after = client.setSession sessionId.toNat :=
    fun resp after got => exchange_conveys exchanged inMemory got
  rcases (exchange_ok exchanged).1 with ⟨_, unserved⟩ | ⟨_, serves⟩
  · right
    rw [unserved] at conveys ⊢
    refine ⟨rfl, rfl, ?_⟩
    intro resp after got
    rcases conveys resp after got with ⟨response, sessionId, answered, _⟩
    cases answered
  · rcases serveClient_reads serves with
      ⟨request, later, handled, read, parsed, served⟩ | ⟨⟨table, kept⟩, failed⟩
    · left
      refine ⟨request, handled, read_is_meant hashes ascii read, parsed, by rw [served], ?_⟩
      intro resp after got
      rcases conveys resp after got with ⟨response, sessionId, answered, isResp, isAfter⟩
      rw [served] at answered
      cases answered
      exact ⟨isResp, isAfter⟩
    · right
      rw [kept]
      refine ⟨rfl, rfl, ?_⟩
      intro resp after got
      rcases conveys resp after got with ⟨response, sessionId, answered, rfl, _⟩
      rw [Bool.eq_false_iff, Ne, conveyed_successful]
      exact failed response sessionId answered

end Calls

def cutLink : Link where
  send :=
    { moved := fun _ asked => some (min asked 5)
      inRange := by
        intro _ asked count positive moved
        cases moved
        omega }
  recv := .bytewise
  write := .bytewise

def listing : ClientRequest := listRequest ['a', 'l', 'i', 'c', 'e']

theorem listing_ascii : AsciiFields listing where
  username := by decide
  password := by decide
  otherUsername isUser := by cases isUser
  otherPassword isUser := by cases isUser
  path _ _ text isPath := by
    cases isPath
    decide

theorem exchange_at_most_once_cut :
    ∃ done, exchange quietEnv passwordSha 60 (collecting passwordSha) cutLink
        (serverOf (accountNamed "alice" Perms.readWrite)) listing = .ok done ∧
      done.outcome.toOption.map (·.1.returnCode) = some sessionError ∧
      ((∃ request handled, meant passwordSha listing = .ok request ∧
          ctrlParseAction quietEnv passwordSha 60
            (serverOf (accountNamed "alice" Perms.readWrite)) request = .ok handled ∧
          done.served.server = handled.server ∧
          ∀ resp after, done.outcome = .ok (resp, after) →
            resp = conveyed handled.response handled.sessionId ∧
              after = listing.setSession handled.sessionId.toNat) ∨
        done.served.server.db.usersHtable =
            (serverOf (accountNamed "alice" Perms.readWrite)).db.usersHtable ∧
          done.served.server.tree = (serverOf (accountNamed "alice" Perms.readWrite)).tree ∧
          ∀ resp after, done.outcome = .ok (resp, after) → resp.successful = false) := by
  have seen : ∃ done, exchange quietEnv passwordSha 60 (collecting passwordSha) cutLink
        (serverOf (accountNamed "alice" Perms.readWrite)) listing = .ok done ∧
      (done.outcome.toOption.map (·.1.returnCode),
        done.served.response.map fun response =>
          decide (dataStreamSize response.1 < 2 ^ 63)) = (some sessionError, some true) := by
    apply Fallible.exists_ok_of_seen
    decide +kernel
  rcases seen with ⟨done, exchanged, shown⟩
  rw [Prod.mk.injEq] at shown
  have inMemory : done.served.InMemory := by
    intro response sessionId answered
    have small := shown.2
    rw [answered] at small
    exact of_decide_eq_true (Option.some.inj small)
  exact ⟨done, exchanged, shown.1,
    exchange_at_most_once (collecting_hashes passwordSha) listing_ascii exchanged inMemory⟩

end FileTransfer
