import FileTransfer.Client.Ctrl
import FileTransfer.Server.Types

/-! # `client_classes.py`

The request that the client sends, and what it does with the response.
-/

namespace FileTransfer.Client

open Foundation

inductive PyError
  | typeError
  | structError
  | osError
  | timeoutError
  | failure (failure : Failure)
deriving DecidableEq

inductive ActionType
  | noOp
  | userOp
  | delete
  | ls
  | get
  | mkdir
  | put
  | localOp
  | createUser
  | deleteUser
  | shell
  | lLs
  | lDelete
  | lMkdir
deriving DecidableEq

def ActionType.value : ActionType → Nat
  | noOp => 0
  | userOp => 1
  | delete => 2
  | ls => 3
  | get => 4
  | mkdir => 5
  | put => 6
  | localOp => 7
  | createUser => 10
  | deleteUser => 20
  | shell => 21
  | lLs => 22
  | lDelete => 23
  | lMkdir => 24

inductive UserPerm
  | read
  | readWrite
  | admin
deriving DecidableEq

def UserPerm.value : UserPerm → Nat
  | read => 1
  | readWrite => 2
  | admin => 3

structure ClientRequest where
  action : ActionType := .noOp
  userFlag : ActionType := .noOp
  username : Text := []
  password : Text := []
  otherUsername : Text := []
  otherPassword : Text := []
  perm : UserPerm := .read
  dst : Option Text := none
  srcName : Text := []
  srcFile : Option Bytes := none
  sessionId : Nat := 0
deriving DecidableEq

/-! ## Hashing -/

structure Hashlib (Object : Type) where
  sha256 : Object
  update : Object → Bytes → Object
  digest : Object → Bytes

/-- An object that was updated with pieces has the digest of the whole. -/
def Hashlib.Hashes {Object : Type} (hashlib : Hashlib Object) (sha : Sha256) : Prop :=
  ∀ chunks : List Bytes,
    hashlib.digest (chunks.foldl hashlib.update hashlib.sha256) = sha.digest chunks.flatten

def chunkerLoop (payload : Bytes) (size : Nat) : (rounds : Nat) → (pos : Nat) → List Bytes
  | 0, _ => []
  | rounds + 1, pos =>
      if pos < payload.length then
        (payload.drop pos).take size :: chunkerLoop payload size rounds (pos + size)
      else []

/-- `_chunker`. The step of a `range` must not be zero. -/
def chunker (payload : Bytes) (size : Nat) : Except PyError (List Bytes) :=
  if size = 0 then .error (.failure .valueError)
  else .ok (chunkerLoop payload size payload.length 0)

/-- `_hash`, in pieces of 1024 bytes. -/
def hash {Object : Type} (hashlib : Hashlib Object) (payload : Bytes) :
    Except PyError Bytes := do
  let chunks ← chunker payload 1024
  return hashlib.digest (chunks.foldl hashlib.update hashlib.sha256)

/-! ## The request -/

def pack : (fields : List (Nat × Nat)) → Except PyError Bytes
  | [] => .ok []
  | (width, value) :: fields =>
      if value < 256 ^ width then do
        return toBigEndian width value ++ (← pack fields)
      else .error .structError

def joinPosix (dst name : Text) : Text :=
  let root : Text :=
    if dst.take 1 ≠ ['/'] then []
    else if dst.take 2 = ['/', '/'] ∧ dst.take 3 ≠ ['/', '/', '/'] then ['/', '/']
    else ['/']
  let parts := (dst.splitOn '/' ++ [name]).filter fun part => part ≠ [] ∧ part ≠ ['.']
  if root = [] ∧ parts = [] then ['.'] else root ++ ['/'].intercalate parts

namespace ClientRequest

variable {Object : Type} (hashlib : Hashlib Object) (request : ClientRequest)

def userPayload : Except PyError Bytes := do
  let header ← pack [(1, request.userFlag.value), (1, request.perm.value),
    (2, request.otherUsername.length)]
  let userPayload := header ++ encodeUtf8 request.otherUsername
  if request.userFlag = .createUser then
    let passwordLen ← pack [(2, request.otherPassword.length)]
    return userPayload ++ (passwordLen ++ encodeUtf8 request.otherPassword)
  else return userPayload

def path : Except PyError Text :=
  match request.dst with
  | none => .error .typeError
  | some dst => .ok (if request.action = .put then joinPosix dst request.srcName else dst)

def stdPayload : Except PyError Bytes := do
  let path ← request.path
  let pathLen ← pack [(2, path.length)]
  let stdPayload := pathLen ++ encodeUtf8 path
  if request.action = .put then
    match request.srcFile with
    | none => throw .osError
    | some payload => return stdPayload ++ ((← hash hashlib payload) ++ payload)
  else return stdPayload

def payload : Except PyError Bytes :=
  if request.action = .localOp then .ok []
  else if request.action = .userOp then request.userPayload
  else request.stdPayload hashlib

/-- `client_request`. The lengths of the texts are counted in characters. -/
def clientRequest : Except PyError Bytes := do
  let header ← pack [(1, request.action.value), (1, request.userFlag.value), (2, 0),
    (2, request.username.length), (2, request.password.length), (4, request.sessionId)]
  let payload ← request.payload hashlib
  let payloadLen ← pack [(8, payload.length)]
  return header ++ (encodeUtf8 request.username ++ (encodeUtf8 request.password ++
    (payloadLen ++ payload)))

end ClientRequest

/-! ## The response -/

/-- What `save_file` of the request leaves in the file: it is created first, and then
written in one piece as long as the payload. -/
def saveFile (payload : Bytes) : Bytes :=
  match chunker payload payload.length with
  | .error _ => []
  | .ok chunks => chunks.flatten

namespace ServerResponse

variable {Object : Type} (hashlib : Hashlib Object) (resp : ServerResponse)

def validHash : Except PyError Bool :=
  match resp.digest with
  | none => .ok false
  | some digest =>
      match resp.payload with
      | none => .error .typeError
      | some payload => do return digest = (← hash hashlib payload)

/-- `save_file` of the response: the file that is written, if one is. -/
def saveFile : Except PyError (Option Bytes) := do
  if ← resp.validHash hashlib then
    match resp.payload with
    | none => throw .typeError
    | some payload => return some (Client.saveFile payload)
  else return none

def successful : Bool := successResponse = resp.returnCode

end ServerResponse

inductive Reaction
  | nothing
  | msg (msg : Text)
  | listing (entries : List DirList)
  | download (saved : Option Bytes)
  | locally (action : ActionType)
deriving DecidableEq

def sessionError : Nat := 2

def parseAction {Object : Type} (digits : UnicodeDigits) (hashlib : Hashlib Object)
    (request : ClientRequest) (resp : ServerResponse) : Except PyError Reaction :=
  if resp.successful = false then
    if sessionError = resp.returnCode then .error .timeoutError else .ok (.msg resp.msg)
  else
    let action := if request.action = .localOp then request.userFlag else request.action
    match action with
    | .ls => do
        if ← resp.validHash hashlib then
          match resp.payload with
          | none => return .nothing
          | some payload =>
              match parseDir digits payload with
              | .error failure => throw (.failure failure)
              | .ok entries => return .listing entries
        else return .nothing
    | .mkdir | .put | .delete | .userOp => .ok (.msg resp.msg)
    | .get => do return .download (← resp.saveFile hashlib)
    | .lLs | .lMkdir | .lDelete => .ok (.locally action)
    | _ => .ok .nothing

def answer {Object : Type} (digits : UnicodeDigits) (hashlib : Hashlib Object)
    (recv : Pieces) (request : ClientRequest) (stream : Stream) : Except PyError Reaction :=
  match connect recv (0, stream) with
  | .error failure _ => .error (.failure failure)
  | .ok resp _ => parseAction digits hashlib request resp

/-! ## Chunks -/

theorem chunkerLoop_flatten (payload : Bytes) {size : Nat} (positive : 0 < size)
    (rounds pos : Nat) (enough : payload.length ≤ pos + rounds) :
    (chunkerLoop payload size rounds pos).flatten = payload.drop pos := by
  induction rounds generalizing pos with
  | zero =>
      rw [chunkerLoop, List.flatten_nil, List.drop_eq_nil_of_le (by omega)]
  | succ rounds induction =>
      rw [chunkerLoop]
      split
      · rw [List.flatten_cons, induction (pos + size) (by omega), ← List.drop_drop,
          List.take_append_drop]
      · rw [List.flatten_nil, List.drop_eq_nil_of_le (by omega)]

theorem chunker_ok (payload : Bytes) {size : Nat} (positive : 0 < size) :
    ∃ chunks, chunker payload size = .ok chunks ∧ chunks.flatten = payload := by
  refine ⟨_, if_neg (by omega), ?_⟩
  rw [chunkerLoop_flatten payload positive _ _ (by omega), List.drop_zero]

theorem hash_eq {Object : Type} {hashlib : Hashlib Object} {sha : Sha256}
    (hashes : hashlib.Hashes sha) (payload : Bytes) :
    hash hashlib payload = .ok (sha.digest payload) := by
  rcases chunker_ok payload (by decide : 0 < 1024) with ⟨chunks, chunked, whole⟩
  simp only [hash, chunked, Fallible.ok_bind, Fallible.pure_eq_ok, hashes chunks, whole]

theorem saveFile_eq {payload : Bytes} (nonempty : payload ≠ []) :
    saveFile payload = payload := by
  rcases chunker_ok payload (List.length_pos_iff.mpr nonempty) with ⟨chunks, chunked, whole⟩
  simp only [saveFile, chunked, whole]

/-! ## Packing -/

theorem pack_ok {fields : List (Nat × Nat)} {bytes : Bytes} (packed : pack fields = .ok bytes) :
    (∀ field ∈ fields, field.2 < 256 ^ field.1) ∧
      bytes = fields.flatMap fun field => toBigEndian field.1 field.2 := by
  induction fields generalizing bytes with
  | nil =>
      cases packed
      exact ⟨by simp, rfl⟩
  | cons field fields induction =>
      rw [pack] at packed
      split at packed
      · rename_i fits
        rcases Fallible.ok_of_bind_ok packed with ⟨rest, packed', final⟩
        cases final
        rcases induction packed' with ⟨others, rfl⟩
        exact ⟨List.forall_mem_cons.mpr ⟨fits, others⟩, rfl⟩
      · cases packed

end FileTransfer.Client
