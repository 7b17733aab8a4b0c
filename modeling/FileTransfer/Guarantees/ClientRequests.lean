import FileTransfer.Client.Classes
import FileTransfer.Guarantees.Framing

/-! # The client's requests

When the server reads from a request what the client put into it. The client announces its
texts by their characters and sends them by their bytes.
-/

namespace FileTransfer

open Foundation Client

/-! ## What was sent -/

def Carries (sha : Sha256) (request : ClientRequest) : FramePayload → Prop
  | .empty => request.action = .localOp
  | .user flag permission username passwd =>
      request.action = .userOp ∧ flag.toNat = request.userFlag.value ∧
        permission.toNat = request.perm.value ∧
        username.val = encodeUtf8 request.otherUsername ∧
        passwd.map Subtype.val =
          if request.userFlag = .createUser then some (encodeUtf8 request.otherPassword)
          else none
  | .std path file =>
      request.action ≠ .localOp ∧ request.action ≠ .userOp ∧
        (∃ text, request.path = .ok text ∧ path.val = encodeUtf8 text) ∧
        file.map (fun sent => (sent.1.val, sent.2)) =
          if request.action = .put then
            request.srcFile.map fun content => (sha.digest content, content)
          else none

/-- The bytes are a frame of the request: every length counts what follows it, and the
server reads every field as it was meant. -/
structure WellFramed (sha : Sha256) (request : ClientRequest) (bytes : Bytes)
    (frame : Frame) : Prop where
  encoded : frame.encode = bytes
  opcode : frame.opcode.toNat = request.action.value
  flag : frame.flag.toNat = request.userFlag.value
  session : frame.session.toNat = request.sessionId
  username : frame.username.val = encodeUtf8 request.username
  passwd : frame.passwd.val = encodeUtf8 request.password
  carries : Carries sha request frame.payload
  read : ∀ rest ending, readClientReq plenty ({}, ⟨bytes ++ rest, ending⟩) =
    .ok () (frame.decoded, ⟨rest, ending⟩)

structure AsciiFields (request : ClientRequest) : Prop where
  username : IsAscii request.username
  password : IsAscii request.password
  otherUsername : request.action = .userOp → IsAscii request.otherUsername
  otherPassword : request.action = .userOp → request.userFlag = .createUser →
    IsAscii request.otherPassword
  path : request.action ≠ .localOp → request.action ≠ .userOp → ∀ text,
    request.path = .ok text → IsAscii text

section Layout

variable {Object : Type} {hashlib : Hashlib Object} {sha : Sha256} {request : ClientRequest}
  {bytes payload : Bytes}

theorem actionValue_fits (action : ActionType) :
    (UInt8.ofNat action.value).toNat = action.value := by
  cases action <;> rfl

def layout (opcode flag usernameLen passwdLen session : Nat) (username passwd payload : Bytes) :
    Bytes :=
  toBigEndian hOpcode opcode ++ (toBigEndian hUserFlag flag ++ (toBigEndian hReqReserved 0 ++
    (toBigEndian hUsernameLen usernameLen ++ (toBigEndian hPasswordLen passwdLen ++
      (toBigEndian hSessionId session ++ (username ++ (passwd ++
        (toBigEndian hPayloadLen payload.length ++ payload))))))))

theorem clientRequest_ok (sent : request.clientRequest hashlib = .ok bytes) :
    ∃ payload, request.payload hashlib = .ok payload ∧
      request.username.length < 256 ^ 2 ∧ request.password.length < 256 ^ 2 ∧
      request.sessionId < 256 ^ 4 ∧ payload.length < 256 ^ 8 ∧
      bytes = layout request.action.value request.userFlag.value request.username.length
        request.password.length request.sessionId (encodeUtf8 request.username)
        (encodeUtf8 request.password) payload := by
  rcases Fallible.ok_of_bind_ok sent with ⟨header, packed, sent⟩
  rcases Fallible.ok_of_bind_ok sent with ⟨payload, carried, sent⟩
  rcases Fallible.ok_of_bind_ok sent with ⟨payloadLen, counted, final⟩
  rcases pack_ok packed with ⟨fits, rfl⟩
  rcases pack_ok counted with ⟨sized, rfl⟩
  simp only [List.forall_mem_cons] at fits sized
  rcases fits with ⟨_, _, _, short, short', session, _⟩
  cases final
  refine ⟨payload, carried, short, short', session, sized.1, ?_⟩
  simp only [layout, List.flatMap_cons, List.flatMap_nil, List.append_assoc, List.nil_append]
  rfl

theorem userPayload_sent (sent : request.userPayload = .ok payload) :
    request.otherUsername.length < 256 ^ 2 ∧
      (request.userFlag = .createUser → request.otherPassword.length < 256 ^ 2) ∧
      payload = toBigEndian hUsrActFlag request.userFlag.value ++
        (toBigEndian hUsrPermission request.perm.value ++
          (toBigEndian hUsernameLen request.otherUsername.length ++
            (encodeUtf8 request.otherUsername ++
              if request.userFlag = .createUser then
                toBigEndian hPasswordLen request.otherPassword.length ++
                  encodeUtf8 request.otherPassword
              else []))) := by
  rcases Fallible.ok_of_bind_ok sent with ⟨header, packed, sent⟩
  rcases pack_ok packed with ⟨fits, rfl⟩
  simp only [List.forall_mem_cons] at fits
  have short := fits.2.2.1
  simp only at sent
  split at sent
  · rename_i creates
    rcases Fallible.ok_of_bind_ok sent with ⟨passwordLen, packed', final⟩
    rcases pack_ok packed' with ⟨fits', rfl⟩
    simp only [List.forall_mem_cons] at fits'
    cases final
    refine ⟨short, fun _ => fits'.1, ?_⟩
    rw [if_pos creates]
    simp only [List.flatMap_cons, List.flatMap_nil, List.append_assoc, List.append_nil]
    rfl
  · rename_i other
    cases sent
    refine ⟨short, fun creates => absurd creates other, ?_⟩
    rw [if_neg other]
    simp only [List.flatMap_cons, List.flatMap_nil, List.append_assoc, List.append_nil]
    rfl

theorem stdPayload_sent (hashes : hashlib.Hashes sha)
    (sent : request.stdPayload hashlib = .ok payload) :
    ∃ text, request.path = .ok text ∧ text.length < 256 ^ 2 ∧
      payload = toBigEndian hPathLen text.length ++ (encodeUtf8 text ++
        if request.action = .put then
          (request.srcFile.map fun content => sha.digest content ++ content).getD []
        else []) := by
  rcases Fallible.ok_of_bind_ok sent with ⟨text, path, sent⟩
  rcases Fallible.ok_of_bind_ok sent with ⟨pathLen, packed, sent⟩
  rcases pack_ok packed with ⟨fits, rfl⟩
  simp only [List.forall_mem_cons] at fits
  refine ⟨text, path, fits.1, ?_⟩
  simp only at sent
  split at sent
  · rename_i isPut
    rw [if_pos isPut]
    cases srcFile : request.srcFile with
    | none =>
        rw [srcFile] at sent
        cases sent
    | some content =>
        rw [srcFile] at sent
        rcases Fallible.ok_of_bind_ok sent with ⟨digest, hashed, final⟩
        rw [hash_eq hashes] at hashed
        cases hashed
        cases final
        simp only [Option.map_some, Option.getD_some, List.flatMap_cons, List.flatMap_nil,
          List.append_assoc, List.append_nil]
        rfl
  · rename_i other
    cases sent
    rw [if_neg other]
    simp only [List.flatMap_cons, List.flatMap_nil, List.append_nil]
    rfl

/-- What the lengths in a frame say, wherever the frame came from. -/
theorem lengths_of_encode {frame : Frame} {opcode flag usernameLen passwdLen session : Nat}
    {username passwd : Bytes} (short : usernameLen < 256 ^ 2) (short' : passwdLen < 256 ^ 2)
    (same : frame.encode =
      layout opcode flag usernameLen passwdLen session username passwd payload) :
    frame.username.val.length = usernameLen ∧ frame.passwd.val.length = passwdLen ∧
      (frame.username.val = username → frame.passwd.val = passwd →
        frame.payload.encode = payload) := by
  rw [Frame.encode, layout] at same
  have reserved : frame.reserved.val.length = (toBigEndian hReqReserved 0).length := by
    rw [frame.reserved.property, toBigEndian_length]
  have afterOpcode := (List.append_inj same (by simp)).2
  have afterFlag := (List.append_inj afterOpcode (by simp)).2
  have afterReserved := (List.append_inj afterFlag reserved).2
  rcases List.append_inj afterReserved (by simp) with ⟨name, afterName⟩
  rcases List.append_inj afterName (by simp) with ⟨secret, afterSecret⟩
  have afterSession := (List.append_inj afterSecret (by simp)).2
  refine ⟨toBigEndian_injective frame.username.property short name,
    toBigEndian_injective frame.passwd.property short' secret, ?_⟩
  intro sameName sameSecret
  rw [sameName, sameSecret, List.append_cancel_left_eq, List.append_cancel_left_eq]
    at afterSession
  exact (List.append_inj afterSession (by simp)).2

theorem ascii_of_length {text : Text} (counted : (encodeUtf8 text).length = text.length) :
    IsAscii text := encodeUtf8_length_eq_iff.mp counted

theorem ascii_of_carries (hashes : hashlib.Hashes sha)
    (sent : request.payload hashlib = .ok payload) {carried : FramePayload}
    (carries : Carries sha request carried) (same : carried.encode = payload) :
    (request.action = .userOp → IsAscii request.otherUsername) ∧
      (request.action = .userOp → request.userFlag = .createUser →
        IsAscii request.otherPassword) ∧
      (request.action ≠ .localOp → request.action ≠ .userOp → ∀ text,
        request.path = .ok text → IsAscii text) := by
  cases carried with
  | empty =>
      have isLocal : request.action = .localOp := carries
      simp [isLocal]
  | user flag permission username passwd =>
      rcases carries with ⟨isUser, _, _, isName, isSecret⟩
      rw [ClientRequest.payload, if_neg (by simp [isUser]), if_pos isUser] at sent
      rcases userPayload_sent sent with ⟨short, short', rfl⟩
      rw [FramePayload.encode] at same
      have afterFlag := (List.append_inj same (by simp)).2
      have afterPermission := (List.append_inj afterFlag (by simp)).2
      rcases List.append_inj afterPermission (by simp) with ⟨nameLen, afterName⟩
      have counted := toBigEndian_injective username.property short nameLen
      rw [isName, List.append_cancel_left_eq] at afterName
      rw [isName] at counted
      refine ⟨fun _ => ascii_of_length counted, fun _ creates => ?_,
        fun _ notUser => absurd isUser notUser⟩
      rw [if_pos creates] at isSecret afterName
      rcases Option.map_eq_some_iff.mp isSecret with ⟨secret, rfl, secretIs⟩
      rw [FramePayload.encodePasswd] at afterName
      have secretLen := (List.append_inj afterName (by simp)).1
      have counted' := toBigEndian_injective secret.property (short' creates) secretLen
      rw [secretIs] at counted'
      exact ascii_of_length counted'
  | std path file =>
      rcases carries with ⟨notLocal, notUser, ⟨text, isPath, encoded⟩, _⟩
      rw [ClientRequest.payload, if_neg notLocal, if_neg notUser] at sent
      rcases stdPayload_sent hashes sent with ⟨text', isPath', short, rfl⟩
      rw [isPath] at isPath'
      cases isPath'
      rw [FramePayload.encode] at same
      have pathLen := (List.append_inj same (by simp)).1
      have counted := toBigEndian_injective path.property short pathLen
      rw [encoded] at counted
      refine ⟨fun isUser => absurd isUser notUser, fun isUser => absurd isUser notUser, ?_⟩
      intro _ _ other isOther
      rw [isPath] at isOther
      cases isOther
      exact ascii_of_length counted

theorem carries_of_ascii (hashes : hashlib.Hashes sha)
    (sent : request.payload hashlib = .ok payload) (ascii : AsciiFields request) :
    ∃ carried : FramePayload, carried.GoesWith (UInt8.ofNat request.action.value) ∧
      carried.encode = payload ∧ Carries sha request carried := by
  by_cases isLocal : request.action = .localOp
  · rw [ClientRequest.payload, if_pos isLocal] at sent
    cases sent
    exact ⟨.empty, by rw [isLocal]; rfl, rfl, isLocal⟩
  · by_cases isUser : request.action = .userOp
    · rw [ClientRequest.payload, if_neg isLocal, if_pos isUser] at sent
      rcases userPayload_sent sent with ⟨short, short', rfl⟩
      have counted := encodeUtf8_length_eq_iff.mpr (ascii.otherUsername isUser)
      have permission : (UInt8.ofNat request.perm.value).toNat = request.perm.value := by
        cases request.perm <;> rfl
      by_cases creates : request.userFlag = .createUser
      · have counted' := encodeUtf8_length_eq_iff.mpr (ascii.otherPassword isUser creates)
        refine ⟨.user (UInt8.ofNat request.userFlag.value) (UInt8.ofNat request.perm.value)
          ⟨encodeUtf8 request.otherUsername, by omega⟩
          (some ⟨encodeUtf8 request.otherPassword, by have := short' creates; omega⟩),
          by rw [isUser]; rfl, ?_, isUser, actionValue_fits _, permission, rfl, ?_⟩
        · simp only [FramePayload.encode, FramePayload.encodePasswd, actionValue_fits,
            permission, counted, counted', if_pos creates]
        · rw [if_pos creates]
          rfl
      · refine ⟨.user (UInt8.ofNat request.userFlag.value) (UInt8.ofNat request.perm.value)
          ⟨encodeUtf8 request.otherUsername, by omega⟩ none,
          by rw [isUser]; rfl, ?_, isUser, actionValue_fits _, permission, rfl, ?_⟩
        · simp only [FramePayload.encode, FramePayload.encodePasswd, actionValue_fits,
            permission, counted, if_neg creates]
        · rw [if_neg creates]
          rfl
    · rw [ClientRequest.payload, if_neg isLocal, if_neg isUser] at sent
      rcases stdPayload_sent hashes sent with ⟨text, isPath, short, rfl⟩
      have counted := encodeUtf8_length_eq_iff.mpr (ascii.path isLocal isUser text isPath)
      have goesWith : UInt8.ofNat request.action.value ≠ Act.userOperation.toByte ∧
          UInt8.ofNat request.action.value ≠ Act.localOperation.toByte := by
        cases action : request.action with
        | userOp => exact absurd action isUser
        | localOp => exact absurd action isLocal
        | _ => decide
      refine ⟨.std ⟨encodeUtf8 text, by omega⟩
        (if request.action = .put then
          request.srcFile.map fun content => (⟨sha.digest content, sha.size content⟩, content)
        else none), goesWith, ?_, isLocal, isUser, ⟨text, isPath, rfl⟩, ?_⟩
      · simp only [FramePayload.encode, counted]
        by_cases isPut : request.action = .put
        · rw [if_pos isPut, if_pos isPut]
          cases request.srcFile <;> rfl
        · rw [if_neg isPut, if_neg isPut]
          rfl
      · by_cases isPut : request.action = .put
        · rw [if_pos isPut, if_pos isPut]
          cases request.srcFile <;> rfl
        · rw [if_neg isPut, if_neg isPut]
          rfl

end Layout

/-- The server reads a request as it was meant exactly if every text in it is ASCII. -/
theorem wellFramed_iff {Object : Type} {hashlib : Hashlib Object} {sha : Sha256}
    {request : ClientRequest} {bytes : Bytes} (hashes : hashlib.Hashes sha)
    (sent : request.clientRequest hashlib = .ok bytes) :
    (∃ frame, WellFramed sha request bytes frame) ↔ AsciiFields request := by
  rcases clientRequest_ok sent with ⟨payload, carried, short, short', session, sized, rfl⟩
  constructor
  · rintro ⟨frame, framed⟩
    rcases lengths_of_encode short short' framed.encoded with ⟨name, secret, rest⟩
    rw [framed.username] at name
    rw [framed.passwd] at secret
    have same := rest framed.username framed.passwd
    rcases ascii_of_carries hashes carried framed.carries same with ⟨other, other', path⟩
    exact ⟨ascii_of_length name, ascii_of_length secret, other, other', path⟩
  · intro ascii
    rcases carries_of_ascii hashes carried ascii with ⟨carries, goesWith, rfl, isCarried⟩
    have name := encodeUtf8_length_eq_iff.mpr ascii.username
    have secret := encodeUtf8_length_eq_iff.mpr ascii.password
    have number : (UInt32.ofNat request.sessionId).toNat = request.sessionId :=
      UInt32.toNat_ofNat_of_lt' session
    let frame : Frame :=
      { opcode := UInt8.ofNat request.action.value
        flag := UInt8.ofNat request.userFlag.value
        reserved := ⟨[0, 0], reserved_length⟩
        session := UInt32.ofNat request.sessionId
        username := ⟨encodeUtf8 request.username, by omega⟩
        passwd := ⟨encodeUtf8 request.password, by omega⟩
        payload := carries
        shaped := goesWith
        sized := sized }
    have encoded : frame.encode = layout request.action.value request.userFlag.value
        request.username.length request.password.length request.sessionId
        (encodeUtf8 request.username) (encodeUtf8 request.password) carries.encode := by
      simp only [frame, Frame.encode, layout, actionValue_fits, number, name, secret]
      rfl
    refine ⟨frame, encoded, actionValue_fits _, actionValue_fits _, number, rfl, rfl, isCarried, ?_⟩
    intro rest ending
    rw [← encoded]
    exact readClientReq_frame frame rest ending

/-! A hash object that keeps what it was given, and two requests for a listing. -/

def collecting (sha : Sha256) : Hashlib Bytes where
  sha256 := []
  update bytes chunk := bytes ++ chunk
  digest := sha.digest

theorem collecting_hashes (sha : Sha256) : (collecting sha).Hashes sha := by
  intro chunks
  have collected : ∀ bytes, chunks.foldl (fun bytes chunk => bytes ++ chunk) bytes =
      bytes ++ chunks.flatten := by
    induction chunks with
    | nil => simp
    | cons chunk chunks induction =>
        intro bytes
        rw [List.foldl_cons, induction, List.flatten_cons, List.append_assoc]
  exact congrArg sha.digest ((collected []).trans (List.nil_append _))

def listRequest (username : Text) : ClientRequest where
  action := .ls
  username := username
  password := ['s', 'e', 'c', 'r', 'e', 't']
  dst := some ['/']

theorem accented_name_is_cut :
    ∃ bytes, (listRequest ['é']).clientRequest (collecting passwordSha) = .ok bytes ∧
      ¬ ∃ frame, WellFramed passwordSha (listRequest ['é']) bytes frame := by
  have seen : ∃ bytes, (listRequest ['é']).clientRequest (collecting passwordSha) = .ok bytes ∧
      bytes.length = 31 := by
    apply Fallible.exists_ok_of_seen
    decide +kernel
  rcases seen with ⟨bytes, sent, _⟩
  refine ⟨bytes, sent, ?_⟩
  rintro ⟨frame, framed⟩
  rcases clientRequest_ok sent with ⟨payload, carried, short, short', _, _, rfl⟩
  have name := (lengths_of_encode short short' framed.encoded).1
  rw [framed.username] at name
  revert name
  decide

theorem wellFramed_iff_alice :
    ∃ bytes frame,
      (listRequest ['a', 'l', 'i', 'c', 'e']).clientRequest (collecting passwordSha) =
          .ok bytes ∧
        WellFramed passwordSha (listRequest ['a', 'l', 'i', 'c', 'e']) bytes frame := by
  have seen : ∃ bytes, (listRequest ['a', 'l', 'i', 'c', 'e']).clientRequest
      (collecting passwordSha) = .ok bytes ∧ bytes.length = 34 := by
    apply Fallible.exists_ok_of_seen
    decide +kernel
  rcases seen with ⟨bytes, sent, _⟩
  rcases (wellFramed_iff (collecting_hashes passwordSha) sent).mpr
      ⟨by decide +kernel, by decide +kernel, fun isUser => (by cases isUser),
        fun isUser => (by cases isUser),
        fun _ _ text isPath => (by cases isPath; decide +kernel)⟩ with ⟨frame, framed⟩
  exact ⟨bytes, frame, sent, framed⟩

end FileTransfer
