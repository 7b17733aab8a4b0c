import FileTransfer.Guarantees.Sessions

/-! # Request frames

The documented layout of a request, as an encoder. The reader decodes what the
encoder lays out, field by field and to the last byte, and it succeeds on no part
of a frame that was cut short.
-/

namespace FileTransfer

open Foundation Posix

/-! ## The layout -/

abbrev ShortBytes : Type := { bytes : Bytes // bytes.length < 256 ^ 2 }

/-- What follows the header. Whether a password or a file is there is not flagged:
the reader infers it from the lengths. -/
inductive FramePayload
  | empty
  | user (flag : UInt8) (permission : Perms) (username : ShortBytes)
      (passwd : Option ShortBytes)
  | std (path : ShortBytes)
      (file : Option ({ hash : Bytes // hash.length = hHashLen } × Bytes))

namespace FramePayload

def encodePasswd : Option ShortBytes → Bytes
  | none => []
  | some passwd => toBigEndian hPasswordLen passwd.val.length ++ passwd.val

def encodeFile : Option ({ hash : Bytes // hash.length = hHashLen } × Bytes) → Bytes
  | none => []
  | some (hash, stream) => hash.val ++ stream

def encode : FramePayload → Bytes
  | empty => []
  | user flag permission username passwd =>
      toBigEndian hUsrActFlag flag.toNat ++ (toBigEndian hUsrPermission permission.toNat ++
        (toBigEndian hUsernameLen username.val.length ++
          (username.val ++ encodePasswd passwd)))
  | std path file =>
      toBigEndian hPathLen path.val.length ++ (path.val ++ encodeFile file)

def GoesWith : FramePayload → (opcode : UInt8) → Prop
  | empty, opcode => opcode = Act.localOperation.toByte
  | user .., opcode => opcode = Act.userOperation.toByte
  | std .., opcode =>
      opcode ≠ Act.userOperation.toByte ∧ opcode ≠ Act.localOperation.toByte

/-- The union member that the fields are stored in. An empty buffer stays NULL. -/
def decoded : FramePayload → Payload
  | empty => .empty
  | user flag permission username passwd =>
      .user
        { userFlag := flag
          userPerm := permission
          usernameLen := username.val.length
          username := some username.val
          passwdLen := (passwd.map (·.val.length)).getD 0
          passwd := passwd.map Subtype.val }
  | std path file =>
      .std
        { pathLen := path.val.length
          path := some path.val
          byteStream := file.bind fun (_, stream) =>
            if stream = [] then none else some stream
          hashStream := file.map (·.1.val)
          byteStreamLen := (file.map (·.2.length)).getD 0 }

def type : FramePayload → PayloadType
  | user .. => .userPayload
  | _ => .noPayload

end FramePayload

structure Frame where
  opcode : UInt8
  flag : UInt8
  reserved : { bytes : Bytes // bytes.length = hReqReserved }
  session : UInt32
  username : ShortBytes
  passwd : ShortBytes
  payload : FramePayload
  shaped : payload.GoesWith opcode
  sized : payload.encode.length < 256 ^ 8

namespace Frame

def encode (frame : Frame) : Bytes :=
  toBigEndian hOpcode frame.opcode.toNat ++ (toBigEndian hUserFlag frame.flag.toNat ++
    (frame.reserved.val ++ (toBigEndian hUsernameLen frame.username.val.length ++
      (toBigEndian hPasswordLen frame.passwd.val.length ++
        (toBigEndian hSessionId frame.session.toNat ++
          (frame.username.val ++ (frame.passwd.val ++
            (toBigEndian hPayloadLen frame.payload.encode.length ++
              frame.payload.encode))))))))

def decoded (frame : Frame) : WirePayload where
  optCode := frame.opcode
  userFlag := frame.flag
  reserved := frame.reserved.val
  usernameLen := frame.username.val.length
  passwdLen := frame.passwd.val.length
  sessionId := frame.session
  username := some frame.username.val
  passwd := some frame.passwd.val
  payloadLen := frame.payload.encode.length
  type := frame.payload.type
  payload := frame.payload.decoded

end Frame

/-! ## Reading what was laid out -/

section Fields

variable (field : Field) (rest : Bytes) (ending : StreamEnd) (state : WirePayload)

def plenty : Allocation → Bool := fun _ => true

theorem readStream_append {count : Nat} {bytes : Bytes} (counted : bytes.length = count) :
    readStream plenty field count (state, ⟨bytes ++ rest, ending⟩) =
      .ok bytes (state, ⟨rest, ending⟩) := by
  rw [readStream]
  split
  · rename_i isZero
    have isNil : bytes = [] := List.length_eq_zero_iff.mp (counted.trans isZero)
    rw [isNil]
    rfl
  · exact Reader.take_append streamEndCode counted.symm rest ending state

theorem readNumber_append {count value : Nat} (fits : value < 256 ^ count) :
    readNumber plenty field count (state, ⟨toBigEndian count value ++ rest, ending⟩) =
      .ok value (state, ⟨rest, ending⟩) := by
  rw [readNumber, Reader.bind_apply_of_ok
    (readStream_append field rest ending state (toBigEndian_length count value)),
    ofBigEndian_toBigEndian fits]
  rfl

theorem makeString_append {count : Nat} {bytes : Bytes} (counted : bytes.length = count) :
    makeByteArray plenty field count true (state, ⟨bytes ++ rest, ending⟩) =
      .ok (some bytes) (state, ⟨rest, ending⟩) := by
  rw [makeByteArray, if_neg (by simp)]
  exact Reader.bind_apply_of_ok (readStream_append field rest ending state counted)

theorem makeArray_append {count : Nat} {bytes : Bytes} (counted : bytes.length = count) :
    makeByteArray plenty field count false (state, ⟨bytes ++ rest, ending⟩) =
      .ok (if bytes = [] then none else some bytes) (state, ⟨rest, ending⟩) := by
  rw [makeByteArray]
  by_cases isNil : bytes = []
  · subst isNil
    rw [if_pos ⟨counted.symm, rfl⟩]
    rfl
  · have positive := List.length_pos_iff.mpr isNil
    rw [if_neg (by omega), if_neg isNil]
    exact Reader.bind_apply_of_ok (readStream_append field rest ending state counted)

end Fields

theorem byte_fits (byte : UInt8) {width : Nat} (one : width = 1) :
    byte.toNat < 256 ^ width := by
  subst one
  simpa using byte.toNat_lt

theorem session_fits (session : UInt32) : session.toNat < 256 ^ hSessionId := by
  simpa [hSessionId] using session.toNat_lt

theorem store_apply (change : WirePayload → WirePayload) (next : Unit → RequestReader α)
    (state : WirePayload) (stream : Stream) :
    (Reader.modifyState change >>= next) (state, stream) =
      next () (change state, stream) := rfl

theorem userPayloadHasPassword_frame (flag : UInt8) (permission : Perms)
    (username : ShortBytes) (passwd : Option ShortBytes) :
    userPayloadHasPassword
        (FramePayload.user flag permission username passwd).encode.length
        username.val.length = passwd.isSome := by
  cases passwd with
  | none =>
      simp [userPayloadHasPassword, FramePayload.encode, FramePayload.encodePasswd]
      omega
  | some passwd =>
      simp [userPayloadHasPassword, FramePayload.encode, FramePayload.encodePasswd,
        hPasswordLen]
      omega

/-- The lengths tell whether a file follows: the difference does not wrap. -/
theorem stdPayloadHasFile_frame (path : ShortBytes)
    (file : Option ({ hash : Bytes // hash.length = hHashLen } × Bytes))
    (sized : (FramePayload.std path file).encode.length < 256 ^ 8) :
    stdPayloadHasFile (FramePayload.std path file).encode.length path.val.length =
      file.isSome := by
  have difference : ∀ payloadLen pathLen : Nat, pathLen ≤ payloadLen →
      payloadLen < 256 ^ 8 →
      (payloadLen + (2 ^ 64 - pathLen)) % 2 ^ 64 = payloadLen - pathLen := by
    intro payloadLen pathLen within fits
    omega
  have within : path.val.length ≤ (FramePayload.std path file).encode.length := by
    simp only [FramePayload.encode, List.length_append]
    omega
  rw [stdPayloadHasFile, difference _ _ within sized]
  cases file with
  | none =>
      simp [FramePayload.encode, FramePayload.encodeFile, hHashLen, hPathLen,
        sha256DigestLength]
  | some file =>
      rcases file with ⟨⟨hash, hashSize⟩, stream⟩
      simp [FramePayload.encode, FramePayload.encodeFile, hashSize]
      omega

theorem getFileStreamSize_frame (path : ShortBytes)
    (hash : { hash : Bytes // hash.length = hHashLen }) (stream : Bytes) :
    getFileStreamSize (FramePayload.std path (some (hash, stream))).encode.length
      path.val.length = stream.length := by
  rcases hash with ⟨hash, hashSize⟩
  simp only [getFileStreamSize, FramePayload.encode, FramePayload.encodeFile,
    List.length_append, toBigEndian_length, hashSize]
  rw [if_neg (by omega)]
  omega

theorem readClientUserPayload_frame (flag : UInt8) (permission : Perms)
    (username : ShortBytes) (passwd : Option ShortBytes) (rest : Bytes)
    (ending : StreamEnd) (state : WirePayload) :
    readClientUserPayload plenty
        (FramePayload.user flag permission username passwd).encode.length
        (state, ⟨(FramePayload.user flag permission username passwd).encode ++ rest,
          ending⟩) =
      .ok () ({ state with
          type := .userPayload
          payload := (FramePayload.user flag permission username passwd).decoded },
        ⟨rest, ending⟩) := by
  have hasPassword := userPayloadHasPassword_frame flag permission username passwd
  generalize counted : (FramePayload.user flag permission username passwd).encode.length =
    payloadLen at hasPassword ⊢
  rcases username with ⟨name, nameShort⟩
  have allocated : ∀ state stream,
      allocate plenty .userPayload (state, stream) = .ok () (state, stream) :=
    fun _ _ => rfl
  rw [readClientUserPayload, store_apply, Reader.bind_apply_of_ok (allocated _ _), store_apply]
  simp only [FramePayload.encode, List.append_assoc]
  rw [Reader.bind_apply_of_ok (readNumber_append _ _ _ _
      (byte_fits flag (show hUsrActFlag = 1 from rfl))), store_apply,
    Reader.bind_apply_of_ok (readNumber_append _ _ _ _
      (byte_fits permission (show hUsrPermission = 1 from rfl))), store_apply,
    Reader.bind_apply_of_ok (readNumber_append _ _ _ _
      (show name.length < 256 ^ hUsernameLen from nameShort)), store_apply,
    Reader.bind_apply_of_ok (makeString_append _ _ _ _ rfl), store_apply, hasPassword]
  cases passwd with
  | none =>
      rw [Option.isSome_none, if_neg Bool.false_ne_true]
      simp [FramePayload.decoded, FramePayload.encodePasswd, WirePayload.setUser]
  | some passwd =>
      rcases passwd with ⟨secret, secretShort⟩
      rw [Option.isSome_some, if_pos rfl, FramePayload.encodePasswd, List.append_assoc,
        Reader.bind_apply_of_ok (readNumber_append _ _ _ _
          (show secret.length < 256 ^ hPasswordLen from secretShort)), store_apply,
        Reader.bind_apply_of_ok (makeString_append _ _ _ _ rfl)]
      simp [FramePayload.decoded, WirePayload.setUser]

theorem readClientStdPayload_frame (path : ShortBytes)
    (file : Option ({ hash : Bytes // hash.length = hHashLen } × Bytes))
    (sized : (FramePayload.std path file).encode.length < 256 ^ 8) (rest : Bytes)
    (ending : StreamEnd) (state : WirePayload) :
    readClientStdPayload plenty (FramePayload.std path file).encode.length
        (state, ⟨(FramePayload.std path file).encode ++ rest, ending⟩) =
      .ok () ({ state with payload := (FramePayload.std path file).decoded },
        ⟨rest, ending⟩) := by
  have hasFile := stdPayloadHasFile_frame path file sized
  have streamSize : ∀ hash stream, file = some (hash, stream) →
      getFileStreamSize (FramePayload.std path file).encode.length path.val.length =
        stream.length := by
    rintro hash stream rfl
    exact getFileStreamSize_frame path hash stream
  generalize counted : (FramePayload.std path file).encode.length = payloadLen
    at hasFile streamSize ⊢
  rcases path with ⟨name, nameShort⟩
  have allocated : ∀ state stream,
      allocate plenty .stdPayload (state, stream) = .ok () (state, stream) :=
    fun _ _ => rfl
  rw [readClientStdPayload, Reader.bind_apply_of_ok (allocated _ _), store_apply]
  simp only [FramePayload.encode, List.append_assoc]
  rw [Reader.bind_apply_of_ok (readNumber_append _ _ _ _
      (show name.length < 256 ^ hPathLen from nameShort)), store_apply,
    Reader.bind_apply_of_ok (makeString_append _ _ _ _ rfl), store_apply, hasFile]
  cases file with
  | none =>
      rw [Option.isSome_none, if_neg Bool.false_ne_true]
      simp [FramePayload.decoded, FramePayload.encodeFile, WirePayload.setStd]
  | some file =>
      rcases file with ⟨⟨hash, hashSize⟩, stream⟩
      have hashHere : hash ≠ [] := by
        rintro rfl
        exact absurd hashSize (by decide)
      rw [Option.isSome_some, if_pos rfl, streamSize ⟨hash, hashSize⟩ stream rfl,
        FramePayload.encodeFile, List.append_assoc,
        Reader.bind_apply_of_ok (makeArray_append _ _ _ _ hashSize), if_neg hashHere,
        store_apply, Reader.bind_apply_of_ok (makeArray_append _ _ _ _ rfl)]
      simp [FramePayload.decoded, WirePayload.setStd]

theorem readClientReq_frame (frame : Frame) (rest : Bytes) (ending : StreamEnd) :
    readClientReq plenty ({}, ⟨frame.encode ++ rest, ending⟩) =
      .ok () (frame.decoded, ⟨rest, ending⟩) := by
  rcases frame with ⟨opcode, flag, ⟨reserved, twoBytes⟩, session, ⟨name, nameShort⟩,
    ⟨secret, secretShort⟩, payload, shaped, sized⟩
  rw [readClientReq]
  simp only [Frame.encode, List.append_assoc]
  -- field by field: the reader takes what was laid out first, and stores it
  refine (Reader.bind_apply_of_ok (readNumber_append _ _ _ _
    (byte_fits opcode (show hOpcode = 1 from rfl)))).trans ((store_apply _ _ _ _).trans ?_)
  refine (Reader.bind_apply_of_ok (readNumber_append _ _ _ _
    (byte_fits flag (show hUserFlag = 1 from rfl)))).trans ((store_apply _ _ _ _).trans ?_)
  refine (Reader.bind_apply_of_ok (readStream_append _ _ _ _ twoBytes)).trans
    ((store_apply _ _ _ _).trans ?_)
  refine (Reader.bind_apply_of_ok (readNumber_append _ _ _ _
    (show name.length < 256 ^ hUsernameLen from nameShort))).trans
    ((store_apply _ _ _ _).trans ?_)
  refine (Reader.bind_apply_of_ok (readNumber_append _ _ _ _
    (show secret.length < 256 ^ hPasswordLen from secretShort))).trans
    ((store_apply _ _ _ _).trans ?_)
  refine (Reader.bind_apply_of_ok (readNumber_append _ _ _ _
    (session_fits session))).trans ((store_apply _ _ _ _).trans ?_)
  refine (Reader.bind_apply_of_ok (makeString_append _ _ _ _ rfl)).trans
    ((store_apply _ _ _ _).trans ?_)
  refine (Reader.bind_apply_of_ok (makeString_append _ _ _ _ rfl)).trans
    ((store_apply _ _ _ _).trans ?_)
  refine (Reader.bind_apply_of_ok (readNumber_append _ _ _ _
    (show payload.encode.length < 256 ^ hPayloadLen from sized))).trans
    ((store_apply _ _ _ _).trans ?_)
  simp only [UInt8.ofNat_toNat, UInt32.ofNat_toNat]
  cases payload with
  | empty =>
      have isLocal : opcode = Act.localOperation.toByte := shaped
      have notUser : opcode ≠ Act.userOperation.toByte := by
        rw [isLocal]
        decide
      rw [if_neg notUser, if_neg (not_not.mpr isLocal)]
      simp [Frame.decoded, FramePayload.encode, FramePayload.decoded, FramePayload.type]
  | user usrFlag permission username passwd =>
      have isUser : opcode = Act.userOperation.toByte := shaped
      rw [if_pos isUser, readClientUserPayload_frame]
      simp [Frame.decoded, FramePayload.type]
  | std path file =>
      rw [if_neg shaped.1, if_pos shaped.2, readClientStdPayload_frame path file sized]
      simp [Frame.decoded, FramePayload.type]

theorem serveClient_frame (env : Env) (sha : Sha256) (timeout : Int) (server : Server)
    (frame : Frame) (rest : Bytes) (ending : StreamEnd) :
    serveClient env sha timeout server
        { calloc := plenty, stream := ⟨frame.encode ++ rest, ending⟩ } =
      (do
        let handled ← ctrlParseAction env sha timeout server frame.decoded
        return ⟨some (handled.response, handled.sessionId), handled.server⟩) := by
  simp only [serveClient, plenty, Bool.true_eq_false, if_false]
  rw [readClientReq_frame frame rest ending]

/-! ## Frames that are cut short -/

theorem readClientReq_cut (frame : Frame) {start : Bytes}
    (isPrefix : start <+: frame.encode) (proper : start ≠ frame.encode) (cut : StreamEnd) :
    ∃ code after, code ≠ .opSuccess ∧
      readClientReq plenty ({}, ⟨start, cut⟩) = .error code after := by
  have disciplined := disciplined_readClientReq plenty
  have exact' := readClientReq_frame frame [] .closed
  rw [List.append_nil] at exact'
  cases result : readClientReq plenty ({}, ⟨start, cut⟩) with
  | ok value after =>
      exact absurd result (disciplined.isLocal.not_ok_of_proper_prefix exact' isPrefix proper
        cut value after)
  | error code after => exact ⟨code, after, disciplined.fails result, rfl⟩

/-- A frame is decoded to every field it encodes and consumed to its last byte;
a frame cut short is an error, and serving it touches neither users nor files. -/
theorem frame_read_whole_or_not_at_all (frame : Frame) :
    (∀ ending, readClientReq plenty ({}, ⟨frame.encode, ending⟩) =
      .ok () (frame.decoded, ⟨[], ending⟩)) ∧
    ∀ start, start <+: frame.encode → start ≠ frame.encode → ∀ cut,
      (∃ code after, code ≠ .opSuccess ∧
        readClientReq plenty ({}, ⟨start, cut⟩) = .error code after) ∧
      ∀ (env : Env) (sha : Sha256) (timeout : Int) (server : Server), ∃ served,
        serveClient env sha timeout server { calloc := plenty, stream := ⟨start, cut⟩ } =
            .ok served ∧
          served.server.db.usersHtable = server.db.usersHtable ∧
          served.server.tree = server.tree := by
  refine ⟨fun ending => ?_, fun start isPrefix proper cut => ?_⟩
  · have decoded := readClientReq_frame frame [] ending
    rwa [List.append_nil] at decoded
  · rcases readClientReq_cut frame isPrefix proper cut with ⟨code, after, failed, stopped⟩
    refine ⟨⟨code, after, failed, stopped⟩, fun env sha timeout server => ?_⟩
    refine ⟨⟨failureResponse code,
      server.setSessions (server.db.seshHtable.del after.1.sessionId)⟩, ?_, rfl, rfl⟩
    rw [serveClient]
    simp only [plenty, Bool.true_eq_false, if_false] at stopped ⊢
    rw [stopped]

theorem reserved_length : ([0, 0] : Bytes).length = hReqReserved := rfl

theorem zeros_length : (List.replicate hHashLen (0 : UInt8)).length = hHashLen := rfl

theorem put_opcode : Act.putRemoteFile.toByte ≠ Act.userOperation.toByte ∧
    Act.putRemoteFile.toByte ≠ Act.localOperation.toByte := by decide

def emptyPut : Frame where
  opcode := Act.putRemoteFile.toByte
  flag := 0
  reserved := ⟨[0, 0], reserved_length⟩
  session := 7
  username := ⟨[65], by decide⟩
  passwd := ⟨[66], by decide⟩
  payload := .std ⟨[67], by decide⟩ (some (⟨List.replicate hHashLen 0, zeros_length⟩, []))
  shaped := put_opcode
  sized := by decide

set_option maxRecDepth 4000 in
theorem frame_read_whole_or_not_at_all_empty_put :
    readClientReq plenty ({}, ⟨emptyPut.encode, .closed⟩) =
        .ok () (emptyPut.decoded, ⟨[], .closed⟩) ∧
      ∃ code after, code ≠ .opSuccess ∧
        readClientReq plenty ({}, ⟨emptyPut.encode.take 20, .timedOut⟩) =
          .error code after := by
  have law := frame_read_whole_or_not_at_all emptyPut
  exact ⟨law.1 .closed,
    (law.2 (emptyPut.encode.take 20) (List.take_prefix _ _) (by decide) .timedOut).1⟩

end FileTransfer
