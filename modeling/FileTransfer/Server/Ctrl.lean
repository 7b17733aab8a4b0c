import FileTransfer.Server.Db

/-! # `server_ctrl.c` -/

namespace FileTransfer

open Foundation Posix

def getErrMsg : RetCode → Bytes
  | .opSuccess => ascii "Server action was successful"
  | .opSessionError => ascii "Provided Session ID was invalid or expired"
  | .opPermissionError => ascii "User associated with provided Session ID has insufficient permissions to perform the action"
  | .opUserExists => ascii "User could not be created because it already exists"
  | .opFileExists => ascii "File could not be created because it already exists"
  | .opCredRuleError => ascii "Username must be between 3 and 20 characters and password must be between 6 and 32 characters"
  | .opUserAuth => ascii "Either username or password is incorrect"
  | .opDirNotEmpty => ascii "Directory is not empty, cannot remove"
  | .opResolveError => ascii "Path could not be resolved. This could be because it does not exist, or the path does not resolve within the home directory of the server"
  | .opPathNotDir => ascii "Path provided is not of type directory."
  | .opPathNotFile => ascii "Path provided is not of type regular file."
  | .opDirExists => ascii "Directory could not be created because it already exists"
  | .opSockClosed => ascii "Network socket is closed, cannot read or send anymore data"
  | .opUserNoExist => ascii "User could not be removed because they do not exist"
  | .opFileEmpty => ascii "File requested exists but it is empty"
  | .opDirEmpty => ascii "Directory requested exists but it is empty"
  | .opIoError => ascii "I/O error occurred during the action. This could be due to permissions, file not existing, or error while writing and reading."
  | .opFailure => ascii "Server action failed"

/-- `ctrl_populate_resp` and `set_resp`: a response with a message and no content. -/
def ctrlPopulateResp (code : RetCode) : ActResp := ⟨getErrMsg code, code, none⟩

@[simp] theorem ctrlPopulateResp_result (code : RetCode) :
    (ctrlPopulateResp code).result = code := rfl

@[simp] theorem ctrlPopulateResp_content (code : RetCode) :
    (ctrlPopulateResp code).content = none := rfl

def contentResp (content : FileContent) : ActResp :=
  { ctrlPopulateResp .opSuccess with content := some content }

/-! ## File requests -/

def StdPayload.cPath (payload : StdPayload) : Option CString :=
  payload.path.map CString.ofBuffer

def doGetFile (env : Env) (sha : Sha256) (server : Server) (payload : StdPayload) :
    Except Fault ActResp := do
  match ← fVerPathResolve server.tree server.db.homeDir payload.cPath with
  | none => return ctrlPopulateResp .opResolveError
  | some path =>
      match ← fReadFile env sha server.tree path with
      | (code, none) => return ctrlPopulateResp code
      | (_, some content) =>
          if content.stream = [] then return ctrlPopulateResp .opFileEmpty
          else return contentResp content

def doListDir (env : Env) (sha : Sha256) (server : Server) (payload : StdPayload) :
    Except Fault ActResp := do
  match ← fVerPathResolve server.tree server.db.homeDir payload.cPath with
  | none => return ctrlPopulateResp .opResolveError
  | some path =>
      match ← fListDir env sha server.tree path with
      | (code, none) => return ctrlPopulateResp code
      | (_, some content) =>
          if content.stream = [] then return ctrlPopulateResp .opDirEmpty
          else return contentResp content

def doPutFile (env : Env) (server : Server) (payload : StdPayload) :
    Except Fault (RetCode × FileTree) := do
  match ← fVerPathResolve server.tree server.db.homeDir payload.cPath with
  | some _ => return (.opFileExists, server.tree)
  | none =>
      match ← fVerValidResolve server.tree server.db.homeDir payload.cPath with
      | none => return (.opResolveError, server.tree)
      | some path => return fWriteFile env.write server.tree path payload.byteStream

def doMakeDir (env : Env) (server : Server) (payload : StdPayload) :
    Except Fault (RetCode × FileTree) := do
  match ← fVerValidResolve server.tree server.db.homeDir payload.cPath with
  | none => return (.opResolveError, server.tree)
  | some path => return fCreateDir env server.tree path

def doDelFile (env : Env) (server : Server) (payload : StdPayload) :
    Except Fault (RetCode × FileTree) := do
  match ← fVerPathResolve server.tree server.db.homeDir payload.cPath with
  | none => return (.opResolveError, server.tree)
  | some path => fDelFile env server.tree path

/-! ## User requests -/

def userAction (env : Env) (sha : Sha256) (server : Server) (payload : UserPayload) :
    Except Fault (RetCode × Server) :=
  match UsrAct.ofByte payload.userFlag with
  | some .createUser =>
      dbCreateUser env sha server (payload.username.map CString.ofBuffer)
        (payload.passwd.map CString.ofBuffer) payload.userPerm
  | some .deleteUser =>
      dbRemoveUser env sha server (payload.username.map CString.ofBuffer)
  | none => .ok (.opFailure, server)

/-! ## Sessions -/

def genSession (first second third fourth : Nat) : UInt32 :=
  UInt32.ofNat ((first &&& 0xff) ||| (second &&& 0xff) <<< 8 |||
    (third &&& 0xff) <<< 16 ||| (fourth &&& 0xff) <<< 24)

def unusedSession (table : HashTable UInt32 Int) : (rand : List Nat) → Except Fault UInt32
  | first :: second :: third :: fourth :: rand =>
      let sesh := genSession first second third fourth
      if table.keyExists sesh then unusedSession table rand else .ok sesh
  | _ => .error .noFreshSession

def generateSessionId (env : Env) (table : HashTable UInt32 Int) :
    Except Fault (UInt32 × HashTable UInt32 Int) := do
  let sesh ← unusedSession table env.rand
  return (sesh, table.set sesh env.time)

/-- What the session block of `ctrl_parse_action` leaves behind: its verdict,
the session id now in the request, and the session table. -/
structure SessionCheck where
  result : RetCode
  sessionId : UInt32
  table : HashTable UInt32 Int

def checkSession (env : Env) (timeout : Int) (table : HashTable UInt32 Int)
    (sessionId : UInt32) : Except Fault SessionCheck :=
  if sessionId = 0 then do
    let (fresh, table) ← generateSessionId env table
    return ⟨.opSuccess, fresh, table⟩
  else
    match table.get sessionId with
    | none => .ok ⟨.opSessionError, sessionId, table⟩
    | some sessionTime =>
        if env.time - sessionTime > timeout then
          .ok ⟨.opSessionError, sessionId, table.del sessionId⟩
        else .ok ⟨.opSuccess, sessionId, table.set sessionId env.time⟩

/-! ## The dispatcher -/

def Server.setSessions (server : Server) (table : HashTable UInt32 Int) : Server :=
  { server with db := { server.db with seshHtable := table } }

def Server.setTree (server : Server) (tree : FileTree) : Server :=
  { server with tree := tree }

namespace Server

variable (server : Server) (table : HashTable UInt32 Int) (tree : FileTree)

@[simp] theorem setSessions_users :
    (server.setSessions table).db.usersHtable = server.db.usersHtable := rfl

@[simp] theorem setSessions_sessions :
    (server.setSessions table).db.seshHtable = table := rfl

@[simp] theorem setSessions_homeDir :
    (server.setSessions table).db.homeDir = server.db.homeDir := rfl

@[simp] theorem setSessions_debug :
    (server.setSessions table).db.debug = server.db.debug := rfl

@[simp] theorem setSessions_tree : (server.setSessions table).tree = server.tree := rfl

@[simp] theorem setTree_db : (server.setTree tree).db = server.db := rfl

@[simp] theorem setTree_tree : (server.setTree tree).tree = tree := rfl

end Server

def WirePayload.stdPayload (request : WirePayload) : Except Fault StdPayload :=
  match request.payload with
  | .std payload => .ok payload
  | _ => .error .badPointer

def WirePayload.userPayload (request : WirePayload) : Except Fault UserPayload :=
  match request.payload with
  | .user payload => .ok payload
  | _ => .error .badPointer

def writeAction (user : UserAccount) (server : Server) (request : WirePayload)
    (action : Server → StdPayload → Except Fault (RetCode × FileTree)) :
    Except Fault (ActResp × Server) :=
  if user.permission < Perms.readWrite then
    .ok (ctrlPopulateResp .opPermissionError, server)
  else do
    let (code, tree) ← action server (← request.stdPayload)
    return (ctrlPopulateResp code, server.setTree tree)

/-- The switch of `ctrl_parse_action`. -/
def performAction (env : Env) (sha : Sha256) (user : UserAccount) (server : Server)
    (request : WirePayload) : Except Fault (ActResp × Server) :=
  match Act.ofByte request.optCode with
  | some .localOperation => .ok (ctrlPopulateResp .opSuccess, server)
  | some .userOperation => do
      let payload ← request.userPayload
      match UsrAct.ofByte payload.userFlag with
      | some .createUser =>
          if user.permission < payload.userPerm then
            return (ctrlPopulateResp .opPermissionError, server)
          else
            let (code, server) ← userAction env sha server payload
            return (ctrlPopulateResp code, server)
      | some .deleteUser =>
          if Perms.admin ≠ user.permission then
            return (ctrlPopulateResp .opPermissionError, server)
          else
            let (code, server) ← userAction env sha server payload
            return (ctrlPopulateResp code, server)
      | none => return (ctrlPopulateResp .opFailure, server)
  | some .deleteRemoteFile => writeAction user server request (doDelFile env)
  | some .makeRemoteDirectory => writeAction user server request (doMakeDir env)
  | some .putRemoteFile => writeAction user server request (doPutFile env)
  | some .listRemoteDirectory => do
      return (← doListDir env sha server (← request.stdPayload), server)
  | some .getRemoteFile => do
      return (← doGetFile env sha server (← request.stdPayload), server)
  | none => .ok (ctrlPopulateResp .opFailure, server)

structure Handled where
  response : ActResp
  sessionId : UInt32
  server : Server

def authenticate (sha : Sha256) (db : Db) (request : WirePayload) :
    Except Fault (Except RetCode UserAccount) :=
  dbAuthenticateUser sha db (request.username.map CString.ofBuffer)
    (request.passwd.map CString.ofBuffer)

def ctrlParseAction (env : Env) (sha : Sha256) (timeout : Int) (server : Server)
    (request : WirePayload) : Except Fault Handled := do
  match ← authenticate sha server.db request with
  | .error code => return ⟨ctrlPopulateResp code, request.sessionId, server⟩
  | .ok user =>
      let check ← checkSession env timeout server.db.seshHtable request.sessionId
      let server := server.setSessions check.table
      if check.result ≠ .opSuccess then
        return ⟨ctrlPopulateResp check.result, check.sessionId, server⟩
      else
        let (response, server) ← performAction env sha user server request
        return ⟨response, check.sessionId, server⟩

end FileTransfer
