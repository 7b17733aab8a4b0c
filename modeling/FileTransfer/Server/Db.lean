import FileTransfer.Server.Crypto
import FileTransfer.Server.FileApi

/-! # `server_db.c` -/

namespace FileTransfer

open Foundation Posix

def defaultUser : Bytes := ascii "admin"

def defaultHash : Bytes :=
  ascii "5e884898da28047151d0e56f8dc6292773603d0d6aabbdd62a11ef721d1542d8"

def magicBytes : Bytes := [0xba, 0xfa, 0xaa, 0xff]

def colon : UInt8 := 58
def newline : UInt8 := 10

def maxInt : Nat := 2 ^ 31 - 1

/-! ## Writing the database -/

def accountRecord (account : UserAccount) : Bytes :=
  account.username.bytes ++ colon :: (decimal account.permission.toNat ++
    colon :: (hexString account.hash ++ [newline]))

def charCount (accounts : List UserAccount) : Nat :=
  accounts.foldl
    (fun count account => count + account.username.length + account.hash.length * 2 + 5)
    magicBytes.length

/-- The second pass: the text so far in a buffer of `size` bytes. Each record is
written with its terminator, and the `int` offset grows by the record. -/
def writeAccounts (size : Nat) : List UserAccount → (text : Bytes) → Except Fault Bytes
  | [], text => .ok text
  | account :: accounts, text =>
      let record := accountRecord account
      if sha256DigestLen < account.hash.length * 2 then .error .bufferOverflow
      else if size < text.length + record.length + 1 then .error .bufferOverflow
      else if maxInt < text.length + record.length then .error .intOverflow
      else writeAccounts size accounts (text ++ record)

def dbImage (accounts : List UserAccount) : Except Fault Bytes := do
  let size := charCount accounts
  let text ← writeAccounts size accounts magicBytes
  let buffer := text ++ List.replicate (size - text.length) 0
  return buffer.take (size - accounts.length)

/-- `update_db_hash` up to its `fclose`. Of the two calls of `fseek` nothing is asked. -/
def readBack (env : Env) (tree : FileTree) (dbFile : VerifiedPath) :
    Except Fault (Option Bytes) := do
  match tree.openRead env.dbRead dbFile.path with
  | .error _ => return none
  | .ok handle =>
      match handle.tells with
      | none => return none
      | some fileSize =>
          match handle.allocation with
          | .refused => return none
          | .aborts => throw .allocationAbort
          | .granted => return some (← readWhole handle fileSize)

/-- The rest of `update_db_hash`, whose ways out close the database file once more. -/
def writeHash (env : Env) (sha : Sha256) (tree : FileTree) (homeDir : VerifiedPath)
    (byteArray : Bytes) : Except Fault (VerifiedPath × FileTree) := do
  match ← fVerValidResolve tree homeDir (some (CString.ofBuffer dbHash)) with
  | none => throw .doubleClose
  | some hashFile =>
      match tree.writeFile env.hashWrite hashFile.path
          (magicBytes ++ sha.digest byteArray) with
      | .error _ => throw .doubleClose
      | .ok (_, tree) => return (hashFile, tree)

def updateDbHash (env : Env) (sha : Sha256) (tree : FileTree)
    (homeDir dbFile : VerifiedPath) : Except Fault (Option VerifiedPath × FileTree) := do
  match ← readBack env tree dbFile with
  | none => return (none, tree)
  | some byteArray =>
      let (hashFile, tree) ← writeHash env sha tree homeDir byteArray
      return (some hashFile, tree)

def dbUpdateDb (env : Env) (sha : Sha256) (server : Server) : Except Fault FileTree :=
  if server.db.debug then .ok server.tree
  else do
    let buffer ← dbImage (env.users.arrange server.db.usersHtable.values)
    match ← fVerValidResolve server.tree server.db.homeDir
        (some (CString.ofBuffer dbName)) with
    | none => return server.tree
    | some dbPath =>
        let (status, tree) := fWriteFile env.dbWrite server.tree dbPath (some buffer)
        if status = .opFailure then return tree
        else
          let (_, tree) ← updateDbHash env sha tree server.db.homeDir dbPath
          return tree

/-! ## Users -/

def Db.setUsers (db : Db) (users : HashTable CString UserAccount) : Db :=
  { db with usersHtable := users }

@[simp] theorem Db.setUsers_usersHtable (db : Db) (users : HashTable CString UserAccount) :
    (db.setUsers users).usersHtable = users := rfl

@[simp] theorem Db.setUsers_seshHtable (db : Db) (users : HashTable CString UserAccount) :
    (db.setUsers users).seshHtable = db.seshHtable := rfl

@[simp] theorem Db.setUsers_homeDir (db : Db) (users : HashTable CString UserAccount) :
    (db.setUsers users).homeDir = db.homeDir := rfl

@[simp] theorem Db.setUsers_debug (db : Db) (users : HashTable CString UserAccount) :
    (db.setUsers users).debug = db.debug := rfl

def saveUsers (env : Env) (sha : Sha256) (server : Server)
    (users : HashTable CString UserAccount) : Except Fault (RetCode × Server) := do
  let db := server.db.setUsers users
  let tree ← dbUpdateDb env sha ⟨db, server.tree⟩
  return (.opSuccess, ⟨db, tree⟩)

def dbRemoveUser (env : Env) (sha : Sha256) (server : Server) :
    (username : Option CString) → Except Fault (RetCode × Server)
  | none => .ok (.opFailure, server)
  | some username =>
      if server.db.usersHtable.keyExists username = false then
        .ok (.opUserNoExist, server)
      else saveUsers env sha server (server.db.usersHtable.del username)

def credentialsAllowed (username passwd : CString) : Bool :=
  !(maxPasswdLen < passwd.length || passwd.length < minPasswdLen ||
    maxUsernameLen < username.length || username.length < minUsernameLen)

def dbCreateUser (env : Env) (sha : Sha256) (server : Server) :
    (username passwd : Option CString) → (permission : Perms) →
      Except Fault (RetCode × Server)
  | some username, some passwd, permission =>
      if credentialsAllowed username passwd = false then .ok (.opCredRuleError, server)
      else if server.db.usersHtable.keyExists username then .ok (.opUserExists, server)
      else
        saveUsers env sha server
          (server.db.usersHtable.set username
            ⟨username, permission, hashByteArray sha passwd.bytes⟩)
  | _, _, _ => .ok (.opFailure, server)

def dbAuthenticateUser (sha : Sha256) (db : Db) :
    (username passwd : Option CString) → Except Fault (Except RetCode UserAccount)
  | none, _ => .ok (.error .opFailure)
  | some _, none => .ok (.error .opUserAuth)
  | some username, some passwd =>
      match db.usersHtable.get username with
      | none => .ok (.error .opUserAuth)
      | some user => do
          if ← hashHashTMatch user.hash (hashByteArray sha passwd.bytes) then
            return .ok user
          else return .error .opUserAuth

/-! ## Reading the database -/

def verifyMagic (stream : Bytes) : Bool :=
  magicBytes.length ≤ stream.length && stream.take magicBytes.length = magicBytes

def getStoredData (content : FileContent) : Option FileContent :=
  if verifyMagic content.stream then
    some { content with stream := content.stream.drop magicBytes.length }
  else none

def getStoredHash (content : FileContent) : Option FileContent :=
  if verifyMagic content.stream = false then none
  else if content.stream.length ≠ sha256DigestLength + magicBytes.length then none
  else getStoredData content

inductive SegmentScan
  | eof
  | incomplete
  | tokens (username : CString) (perm : Perms) (pwHash : CString)
deriving DecidableEq

/-- The conversions of `sscanf(segment, "%20[^:]:%hhu:%64[^\n]", ...)`, each of which looks at
no more than it needs. -/
def scanSegment (segment : Bytes) : Except Fault SegmentScan :=
  match Scan.set (· ≠ colon) maxUsernameLen segment with
  | .overread => .error .overread
  | .ended => .ok .eof
  | .mismatch => .ok .incomplete
  | .value username rest =>
  match Scan.literal colon rest with
  | .overread => .error .overread
  | .ended | .mismatch => .ok .incomplete
  | .value () rest =>
  match Scan.byteValue 10 (Scan.unbounded rest) rest with
  | .overread => .error .overread
  | .ended | .mismatch => .ok .incomplete
  | .value perm rest =>
  match Scan.literal colon rest with
  | .overread => .error .overread
  | .ended | .mismatch => .ok .incomplete
  | .value () rest =>
  match Scan.set (· ≠ newline) sha256DigestLen rest with
  | .overread => .error .overread
  | .ended | .mismatch => .ok .incomplete
  | .value pwHash _ =>
      .ok (.tokens (CString.ofBuffer username) perm (CString.ofBuffer pwHash))

/-- `sscanf` itself looks for the terminator of its string before it converts anything. -/
def scanString (segment : Bytes) : Except Fault SegmentScan :=
  if (0 : UInt8) ∈ segment then scanSegment segment else .error .overread

/-- `memchr(segment, '\n', stream_size)` and the step past what it found. When
it found nothing the step is one from NULL. -/
def nextSegment (streamSize : Nat) (segment : Bytes) : Except Fault (Option Bytes) :=
  if newline ∈ segment then .ok (some (segment.dropWhile (· ≠ newline)).tail)
  else if segment.length < streamSize then .error .overread
  else .ok none

/-- The loop of `populate_htable`. Every round adds at least four to the count
of what was read, so there are never more rounds than bytes. -/
def populateLoop (sscanf : Bytes → Except Fault SegmentScan) (streamSize : Nat) :
    (rounds : Nat) → HashTable CString UserAccount → (totalRead : Nat) → (segment : Option Bytes) →
    Except Fault (Option (HashTable CString UserAccount))
  | 0, table, totalRead, _ =>
      if streamSize ≤ totalRead then .ok (some table) else .error .noProgress
  | rounds + 1, table, totalRead, segment =>
      if streamSize ≤ totalRead then .ok (some table)
      else
        match segment with
        | none => .error .badPointer
        | some memory => do
            match ← sscanf memory with
            | .eof => return some table
            | .incomplete => return none
            | .tokens username perm pwHash =>
                match ← hexCharToByteArray pwHash pwHash.length with
                | none => return none
                | some hash =>
                    populateLoop sscanf streamSize rounds
                      (table.set username ⟨username, perm, hash⟩)
                      (totalRead + 4 + username.length + pwHash.length)
                      (← nextSegment streamSize memory)

/-- What is loaded wherever the terminator stands behind the content: `get_stored_data` puts
none there. -/
def populateHtable (table : HashTable CString UserAccount) (contents : FileContent) :
    Except Fault (Option (HashTable CString UserAccount)) :=
  populateLoop scanSegment contents.stream.length contents.stream.length table 0
    (some contents.stream)

/-- `populate_htable` that may look at no byte behind the content. -/
def populateHtableWithin (table : HashTable CString UserAccount) (contents : FileContent) :
    Except Fault (Option (HashTable CString UserAccount)) :=
  populateLoop scanString contents.stream.length contents.stream.length table 0
    (some contents.stream)

/-! ## Start-up -/

def initDbDir (env : Env) (tree : FileTree) (homeDir : VerifiedPath) :
    Except Fault (Option VerifiedPath × FileTree) := do
  match ← fVerValidResolve tree homeDir (some (CString.ofBuffer dbDir)) with
  | none => return (none, tree)
  | some path =>
      let (status, tree) := fCreateDir env tree path
      if status = .opFailure then return (none, tree) else return (some path, tree)

def defaultImage : Bytes :=
  magicBytes ++ defaultUser ++ colon :: (decimal Perms.admin.toNat ++
    colon :: (defaultHash ++ [newline]))

def initDbFile (env : Env) (tree : FileTree) (homeDir : VerifiedPath) :
    Except Fault (Option VerifiedPath × FileTree) := do
  match ← fVerValidResolve tree homeDir (some (CString.ofBuffer dbName)) with
  | none => return (none, tree)
  | some path =>
      let (status, tree) := fWriteFile env.dbWrite tree path (some defaultImage)
      if status = .opFailure then return (none, tree) else return (some path, tree)

def findDbDir (env : Env) (tree : FileTree) (homeDir : VerifiedPath) :
    Except Fault (Option VerifiedPath × FileTree) := do
  match ← fVerPathResolve tree homeDir (some (CString.ofBuffer dbDir)) with
  | some path => return (some path, tree)
  | none => initDbDir env tree homeDir

/-- The second part: find the database and its hash, or make both. When only one
of them exists the server refuses to start. -/
def findDbFiles (env : Env) (sha : Sha256) (tree : FileTree) (homeDir : VerifiedPath) :
    Except Fault (Option (VerifiedPath × VerifiedPath) × FileTree) := do
  let hashFile ← fVerPathResolve tree homeDir (some (CString.ofBuffer dbHash))
  let dbFile ← fVerPathResolve tree homeDir (some (CString.ofBuffer dbName))
  match hashFile, dbFile with
  | some hashFile, some dbFile => return (some (hashFile, dbFile), tree)
  | none, none =>
      match ← initDbFile env tree homeDir with
      | (none, tree) => return (none, tree)
      | (some dbFile, tree) =>
          match ← updateDbHash env sha tree homeDir dbFile with
          | (none, tree) => return (none, tree)
          | (some hashFile, tree) => return (some (hashFile, dbFile), tree)
  | _, _ => return (none, tree)

def dbLoad (env : Env) (sha : Sha256) (tree : FileTree) (homeDir : VerifiedPath)
    (hashFile dbFile : VerifiedPath) : Except Fault (Option Db) := do
  match ← fReadFile env sha tree dbFile with
  | (_, none) => return none
  | (_, some dbContents) =>
  match ← fReadFile env sha tree hashFile with
  | (_, none) => return none
  | (_, some hashContents) =>
  match getStoredHash hashContents with
  | none => return none
  | some stored =>
      if ← hashBytesMatch dbContents.hash stored.stream then
        match getStoredData dbContents with
        | none => return none
        | some data =>
            match ← populateHtable ∅ data with
            | none => return none
            | some users => return some ⟨users, ∅, homeDir, false⟩
      else return none

def dbInit (env : Env) (sha : Sha256) (tree : FileTree) (homeDir : VerifiedPath) :
    Except Fault (Option Db × FileTree) := do
  match ← findDbDir env tree homeDir with
  | (none, tree) => return (none, tree)
  | (some _, tree) =>
      match ← findDbFiles env sha tree homeDir with
      | (none, tree) => return (none, tree)
      | (some (hashFile, dbFile), tree) =>
          return (← dbLoad env sha tree homeDir hashFile dbFile, tree)

end FileTransfer
