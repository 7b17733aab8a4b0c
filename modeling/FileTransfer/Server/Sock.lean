import FileTransfer.Foundation.ByteReader
import FileTransfer.Server.Ctrl

/-! # `server_sock.c` -/

namespace FileTransfer

open Foundation Posix

/-! ## Header sizes -/

def hOpcode : Nat := 1
def hUserFlag : Nat := 1
def hReqReserved : Nat := 2
def hUsernameLen : Nat := 2
def hPasswordLen : Nat := 2
def hSessionId : Nat := 4
def hPayloadLen : Nat := 8
def hPathLen : Nat := 2
def hUsrActFlag : Nat := 1
def hUsrPermission : Nat := 1
def hHashLen : Nat := sha256DigestLength

inductive Field
  | opcode
  | userFlag
  | reserved
  | usernameLen
  | passwdLen
  | sessionId
  | username
  | passwd
  | payloadLen
  | usrActFlag
  | usrPermission
  | usrUsernameLen
  | usrUsername
  | usrPasswdLen
  | usrPasswd
  | pathLen
  | path
  | hashStream
  | byteStream
deriving DecidableEq

inductive Allocation
  | request
  | stdPayload
  | userPayload
  /-- The array that a field is kept in. -/
  | array (field : Field)
  /-- The working buffers while a field is read. -/
  | buffers (field : Field)
deriving DecidableEq

structure Connection where
  setsockopt : Bool := true
  calloc : Allocation → Bool := fun _ => true
  stream : Stream

/-! ## Reading fields -/

abbrev RequestReader (α : Type) := Reader RetCode WirePayload α

def streamEndCode : StreamEnd → RetCode
  | .closed => .opSockClosed
  | .timedOut => .opSessionError
  | .failed => .opFailure

def allocate (calloc : Allocation → Bool) (allocation : Allocation) : RequestReader Unit :=
  if calloc allocation = false then throw .opFailure else pure ()

def readStream (calloc : Allocation → Bool) (field : Field) (bytesToRead : Nat) :
    RequestReader Bytes :=
  if bytesToRead = 0 then pure []
  else do
    allocate calloc (.buffers field)
    Reader.take streamEndCode bytesToRead

def readNumber (calloc : Allocation → Bool) (field : Field) (bytesToRead : Nat) :
    RequestReader Nat := do
  return ofBigEndian (← readStream calloc field bytesToRead)

def makeByteArray (calloc : Allocation → Bool) (field : Field) (arrayLen : Nat)
    (makeString : Bool) : RequestReader (Option Bytes) :=
  if arrayLen = 0 ∧ makeString = false then pure none
  else do
    allocate calloc (.array field)
    return some (← readStream calloc field arrayLen)

/-! ## Payloads -/

def userPayloadHasPassword (payloadLen usernameLen : Nat) : Bool :=
  let operand := hUsrActFlag + hUsrPermission + hUsernameLen + usernameLen
  !(payloadLen ≤ operand)

/-- The difference is one of unsigned 64-bit numbers. -/
def stdPayloadHasFile (payloadLen pathLen : Nat) : Bool :=
  (payloadLen + (2 ^ 64 - pathLen)) % 2 ^ 64 ≥ hHashLen

def getFileStreamSize (payloadLen pathLen : Nat) : Nat :=
  let operand := pathLen + hHashLen + hPathLen
  if payloadLen < operand then 0 else payloadLen - operand

def WirePayload.setStd (load : StdPayload) (request : WirePayload) : WirePayload :=
  { request with payload := .std load }

def WirePayload.setUser (load : UserPayload) (request : WirePayload) : WirePayload :=
  { request with payload := .user load }

def readClientStdPayload (calloc : Allocation → Bool) (payloadLen : Nat) :
    RequestReader Unit := do
  allocate calloc .stdPayload
  let load : StdPayload := {}
  Reader.modifyState (WirePayload.setStd load)
  let pathLen ← readNumber calloc .pathLen hPathLen
  let load := { load with pathLen := pathLen }
  Reader.modifyState (WirePayload.setStd load)
  let path ← makeByteArray calloc .path pathLen true
  let load := { load with path := path }
  Reader.modifyState (WirePayload.setStd load)
  if stdPayloadHasFile payloadLen pathLen then
    let hashStream ← makeByteArray calloc .hashStream hHashLen false
    let byteStreamLen := getFileStreamSize payloadLen pathLen
    let load := { load with hashStream := hashStream, byteStreamLen := byteStreamLen }
    Reader.modifyState (WirePayload.setStd load)
    let byteStream ← makeByteArray calloc .byteStream byteStreamLen false
    Reader.modifyState (WirePayload.setStd { load with byteStream := byteStream })

def readClientUserPayload (calloc : Allocation → Bool) (payloadLen : Nat) :
    RequestReader Unit := do
  Reader.modifyState fun request => { request with type := .userPayload }
  allocate calloc .userPayload
  let load : UserPayload := {}
  Reader.modifyState (WirePayload.setUser load)
  let userFlag ← readNumber calloc .usrActFlag hUsrActFlag
  let load := { load with userFlag := UInt8.ofNat userFlag }
  Reader.modifyState (WirePayload.setUser load)
  let userPerm ← readNumber calloc .usrPermission hUsrPermission
  let load := { load with userPerm := UInt8.ofNat userPerm }
  Reader.modifyState (WirePayload.setUser load)
  let usernameLen ← readNumber calloc .usrUsernameLen hUsernameLen
  let load := { load with usernameLen := usernameLen }
  Reader.modifyState (WirePayload.setUser load)
  let username ← makeByteArray calloc .usrUsername usernameLen true
  let load := { load with username := username }
  Reader.modifyState (WirePayload.setUser load)
  if userPayloadHasPassword payloadLen usernameLen then
    let passwdLen ← readNumber calloc .usrPasswdLen hPasswordLen
    let load := { load with passwdLen := passwdLen }
    Reader.modifyState (WirePayload.setUser load)
    let passwd ← makeByteArray calloc .usrPasswd passwdLen true
    Reader.modifyState (WirePayload.setUser { load with passwd := passwd })

/-! ## The request -/

def readClientReq (calloc : Allocation → Bool) : RequestReader Unit := do
  let optCode ← readNumber calloc .opcode hOpcode
  Reader.modifyState fun request => { request with optCode := UInt8.ofNat optCode }
  let userFlag ← readNumber calloc .userFlag hUserFlag
  Reader.modifyState fun request => { request with userFlag := UInt8.ofNat userFlag }
  let reserved ← readStream calloc .reserved hReqReserved
  Reader.modifyState fun request => { request with reserved := reserved }
  let usernameLen ← readNumber calloc .usernameLen hUsernameLen
  Reader.modifyState fun request => { request with usernameLen := usernameLen }
  let passwdLen ← readNumber calloc .passwdLen hPasswordLen
  Reader.modifyState fun request => { request with passwdLen := passwdLen }
  let sessionId ← readNumber calloc .sessionId hSessionId
  Reader.modifyState fun request => { request with sessionId := UInt32.ofNat sessionId }
  let username ← makeByteArray calloc .username usernameLen true
  Reader.modifyState fun request => { request with username := username }
  let passwd ← makeByteArray calloc .passwd passwdLen true
  Reader.modifyState fun request => { request with passwd := passwd }
  let payloadLen ← readNumber calloc .payloadLen hPayloadLen
  Reader.modifyState fun request => { request with payloadLen := payloadLen }
  if UInt8.ofNat optCode = Act.userOperation.toByte then
    readClientUserPayload calloc payloadLen
  else if UInt8.ofNat optCode ≠ Act.localOperation.toByte then
    readClientStdPayload calloc payloadLen

/-! ## Serving a connection -/

/-- What the worker of one connection leaves behind: the response it wrote, with
the session id in it, if it wrote one, and the state. -/
structure Served where
  response : Option (ActResp × UInt32)
  server : Server

/-- The response to a request that could not be read. The worker's session id is
still zero. -/
def failureResponse (code : RetCode) : Option (ActResp × UInt32) :=
  if code = .opSockClosed then none else some (ctrlPopulateResp code, 0)

def serveClient (env : Env) (sha : Sha256) (timeout : Int) (server : Server)
    (connection : Connection) : Except Fault Served :=
  if connection.setsockopt = false then .ok ⟨none, server⟩
  else if connection.calloc .request = false then .ok ⟨none, server⟩
  else
    match readClientReq connection.calloc ({}, connection.stream) with
    | .error code (request, _) =>
        .ok ⟨failureResponse code,
          server.setSessions (server.db.seshHtable.del request.sessionId)⟩
    | .ok () (request, _) => do
        let handled ← ctrlParseAction env sha timeout server request
        return ⟨some (handled.response, handled.sessionId), handled.server⟩

end FileTransfer
