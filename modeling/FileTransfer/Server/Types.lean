import FileTransfer.Posix.Calls

/-! # Server types

The constants and records of `server.h`, `server_db.h` and `server_ctrl.h`, and
what the server asks of the machine it runs on.
-/

namespace FileTransfer

open Foundation Posix

/-! ## Limits -/

def maxUsernameLen : Nat := 20
def minUsernameLen : Nat := 3
def maxPasswdLen : Nat := 32
def minPasswdLen : Nat := 6

def sha256DigestLen : Nat := 64

def sha256DigestLength : Nat := 32

/-! ## Codes -/

inductive RetCode
  | opSuccess
  | opSessionError
  | opPermissionError
  | opUserExists
  | opFileExists
  | opCredRuleError
  | opUserAuth
  | opDirNotEmpty
  | opResolveError
  | opPathNotDir
  | opPathNotFile
  | opDirExists
  | opSockClosed
  | opUserNoExist
  | opFileEmpty
  | opDirEmpty
  | opIoError
  | opFailure
deriving DecidableEq

def RetCode.toByte : RetCode → UInt8
  | opSuccess => 1
  | opSessionError => 2
  | opPermissionError => 3
  | opUserExists => 4
  | opFileExists => 5
  | opCredRuleError => 6
  | opUserAuth => 7
  | opDirNotEmpty => 8
  | opResolveError => 9
  | opPathNotDir => 10
  | opPathNotFile => 11
  | opDirExists => 12
  | opSockClosed => 13
  | opUserNoExist => 14
  | opFileEmpty => 15
  | opDirEmpty => 16
  | opIoError => 254
  | opFailure => 255

inductive Act
  | userOperation
  | deleteRemoteFile
  | listRemoteDirectory
  | getRemoteFile
  | makeRemoteDirectory
  | putRemoteFile
  | localOperation
deriving DecidableEq

def Act.toByte : Act → UInt8
  | userOperation => 1
  | deleteRemoteFile => 2
  | listRemoteDirectory => 3
  | getRemoteFile => 4
  | makeRemoteDirectory => 5
  | putRemoteFile => 6
  | localOperation => 7

def Act.ofByte (byte : UInt8) : Option Act :=
  [userOperation, deleteRemoteFile, listRemoteDirectory, getRemoteFile,
    makeRemoteDirectory, putRemoteFile, localOperation].find? (·.toByte = byte)

@[simp] theorem Act.ofByte_toByte (act : Act) : Act.ofByte act.toByte = some act := by
  cases act <;> decide

theorem Act.toByte_of_ofByte {byte : UInt8} {act : Act}
    (decoded : Act.ofByte byte = some act) : byte = act.toByte := by
  have found := List.find?_some decoded
  simpa using Eq.symm (of_decide_eq_true found)

inductive UsrAct
  | createUser
  | deleteUser
deriving DecidableEq

def UsrAct.toByte : UsrAct → UInt8
  | createUser => 10
  | deleteUser => 20

def UsrAct.ofByte (byte : UInt8) : Option UsrAct :=
  [createUser, deleteUser].find? (·.toByte = byte)

/-- `perms_t`: a byte on the wire and in the database, any byte. -/
abbrev Perms := UInt8

namespace Perms

def read : Perms := 1
def readWrite : Perms := 2
def admin : Perms := 3

end Perms

/-! ## Records -/

structure UserAccount where
  username : CString
  permission : Perms
  hash : Bytes
deriving DecidableEq

structure VerifiedPath where
  path : Bytes
deriving DecidableEq

structure FileContent where
  hash : Bytes
  stream : Bytes
  path : Bytes
deriving DecidableEq

structure ActResp where
  msg : Bytes
  result : RetCode
  content : Option FileContent := none
deriving DecidableEq

structure Db where
  usersHtable : HashTable CString UserAccount
  seshHtable : HashTable UInt32 Int
  homeDir : VerifiedPath
  debug : Bool

structure Server where
  db : Db
  tree : FileTree

/-! ## Requests -/

/-- `std_payload_t`. A buffer is `none` where the pointer stays NULL. -/
structure StdPayload where
  pathLen : Nat := 0
  path : Option Bytes := none
  byteStream : Option Bytes := none
  hashStream : Option Bytes := none
  byteStreamLen : Nat := 0
deriving DecidableEq

structure UserPayload where
  userFlag : UInt8 := 0
  userPerm : Perms := 0
  usernameLen : Nat := 0
  username : Option Bytes := none
  passwdLen : Nat := 0
  passwd : Option Bytes := none
deriving DecidableEq

inductive PayloadType
  | noPayload
  | stdPayload
  | userPayload
deriving DecidableEq

/-- The union of a request, with the member that was filled in. -/
inductive Payload
  | empty
  | std (payload : StdPayload)
  | user (payload : UserPayload)
deriving DecidableEq

structure WirePayload where
  optCode : UInt8 := 0
  userFlag : UInt8 := 0
  reserved : Bytes := [0, 0]
  usernameLen : Nat := 0
  passwdLen : Nat := 0
  sessionId : UInt32 := 0
  username : Option Bytes := none
  passwd : Option Bytes := none
  payloadLen : Nat := 0
  type : PayloadType := .noPayload
  payload : Payload := .empty
deriving DecidableEq

/-! ## The machine -/

inductive Fault
  | bufferOverflow
  | overread
  | badPointer
  | intOverflow
  /-- A loop whose every round leaves things as they were. -/
  | noProgress
  /-- A loop that waits for `rand` to deliver an unused value, and it does not. -/
  | noFreshSession
  /-- `fclose` of a stream that is closed already. -/
  | doubleClose
  /-- A size too large to allocate, where that ends the process. -/
  | allocationAbort
deriving DecidableEq

/-- SHA-256, of which only the size of the digest is ever used. -/
structure Sha256 where
  digest : Bytes → Bytes
  size : ∀ bytes, (digest bytes).length = sha256DigestLength

/-- A function that has the given digests on the given inputs, and a digest of
zeros elsewhere. -/
def Sha256.ofTable
    (table : List (Bytes × { digest : Bytes // digest.length = sha256DigestLength })) :
    Sha256 where
  digest bytes :=
    ((table.lookup bytes).getD ⟨List.replicate sha256DigestLength 0, by simp⟩).val
  size bytes := ((table.lookup bytes).getD _).property

/-- The world during one request: the clock, what `rand` delivers, the orders in
which the user table and a directory are iterated, and how calls fare. -/
structure Env where
  time : Int := 0
  rand : List Nat := []
  users : Arrangement UserAccount := .stored UserAccount
  entries : Arrangement Dirent := .stored Dirent
  dirSize : Location → Nat := fun _ => 0
  /-- Writing an uploaded file, the database, and the hash of the database. -/
  write : WriteOutcome := .smooth
  dbWrite : WriteOutcome := .smooth
  hashWrite : WriteOutcome := .smooth
  read : ReadOutcome := {}
  /-- Reading the database back to hash it. -/
  dbRead : ReadOutcome := {}
  opendir : Bool := true
  mkdir : Bool := true
  unlink : Bool := true
  rmdir : Bool := true

structure Env.Smooth (env : Env) : Prop where
  write : env.write = .smooth
  dbWrite : env.dbWrite = .smooth
  hashWrite : env.hashWrite = .smooth
  read : env.read.Smooth
  dbRead : env.dbRead.Smooth
  opendir : env.opendir = true
  mkdir : env.mkdir = true
  unlink : env.unlink = true
  rmdir : env.rmdir = true

theorem Env.smooth_default : Env.Smooth {} :=
  ⟨rfl, rfl, rfl, ⟨rfl, rfl, rfl⟩, ⟨rfl, rfl, rfl⟩, rfl, rfl, rfl, rfl⟩

end FileTransfer
