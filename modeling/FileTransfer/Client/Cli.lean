import FileTransfer.Client.Interactive

/-! # `client_cli.py` and the constructor of `ClientRequest`
From the options on the command line to the request of the client.
-/

namespace FileTransfer.Client

open Foundation

/-! ## Options -/

inductive OptionValue
  | flag (set : Bool)
  | text (value : Option Text)
deriving DecidableEq

def OptionValue.truthy : OptionValue → Bool
  | flag set => set
  | text value => value.getD [] ≠ []

def OptionValue.asText : OptionValue → Text
  | flag _ => []
  | text value => value.getD []

structure Options where
  debug : Bool := false
  username : Text
  shell : Bool := false
  src : Option Text := none
  dst : Option Text := none
  ls : Bool := false
  mkdir : Bool := false
  delete : Bool := false
  put : Bool := false
  get : Bool := false
  lLs : Bool := false
  lDelete : Bool := false
  lMkdir : Bool := false
  createUser : Option Text := none
  deleteUser : Option Text := none
  perm : UserPerm := .read

def Options.kwargs (options : Options) : List (Text × OptionValue) :=
  [("debug".toList, .flag options.debug), ("shell".toList, .flag options.shell),
    ("ls".toList, .flag options.ls), ("mkdir".toList, .flag options.mkdir),
    ("delete".toList, .flag options.delete), ("put".toList, .flag options.put),
    ("get".toList, .flag options.get), ("l_ls".toList, .flag options.lLs),
    ("l_delete".toList, .flag options.lDelete), ("l_mkdir".toList, .flag options.lMkdir),
    ("create_user".toList, .text options.createUser),
    ("delete_user".toList, .text options.deleteUser)]

/-! ## Actions by name -/

def ActionType.members : List (Text × ActionType) :=
  [("NO_OP".toList, noOp), ("USER_OP".toList, userOp), ("DELETE".toList, delete),
    ("LS".toList, ls), ("GET".toList, get), ("MKDIR".toList, mkdir), ("PUT".toList, put),
    ("LOCAL_OP".toList, localOp), ("CREATE_USER".toList, createUser),
    ("DELETE_USER".toList, deleteUser), ("SHELL".toList, shell), ("L_LS".toList, lLs),
    ("L_DELETE".toList, lDelete), ("L_MKDIR".toList, lMkdir)]

def ActionType.name : ActionType → Text
  | noOp => "NO_OP".toList
  | userOp => "USER_OP".toList
  | delete => "DELETE".toList
  | ls => "LS".toList
  | get => "GET".toList
  | mkdir => "MKDIR".toList
  | put => "PUT".toList
  | localOp => "LOCAL_OP".toList
  | createUser => "CREATE_USER".toList
  | deleteUser => "DELETE_USER".toList
  | shell => "SHELL".toList
  | lLs => "L_LS".toList
  | lDelete => "L_DELETE".toList
  | lMkdir => "L_MKDIR".toList

def dependencyAction : List (Text × Nat) :=
  [("SHELL".toList, 0), ("DELETE_USER".toList, 0), ("L_LS".toList, 1),
    ("L_DELETE".toList, 1), ("L_MKDIR".toList, 1), ("LS".toList, 2), ("MKDIR".toList, 2),
    ("DELETE".toList, 2), ("PUT".toList, 3), ("GET".toList, 3), ("CREATE_USER".toList, 4)]

/-! ## The constructor -/

inductive InitError
  | valueError (msg : Text)
  | fileExistsError (msg : Text)
deriving DecidableEq

def onlyOneCommand : Text := "[!] Only one command flag may be set".toList

def noCommand : Text := "[!] No command flag set".toList

def requiresArgument (action : ActionType) (arguments : String) : Text :=
  "[!] Command \"--".toList ++ action.name.map Char.toLower ++ "\" requires ".toList ++
    arguments.toList ++ " argument".toList

def notADirectory : Text := "Path provided must be a directory".toList

def alreadyExists (path : Text) : Text :=
  "File ".toList ++ path ++ " already exists".toList

def findAction : (kwargs : List (Text × OptionValue)) → (otherUsername : Text) →
    (action : Option Text) → Except InitError (Text × Option Text)
  | [], otherUsername, action => .ok (otherUsername, action)
  | (key, value) :: kwargs, otherUsername, action =>
      if key = "debug".toList then findAction kwargs otherUsername action
      else if value.truthy then
        let otherUsername :=
          if key = "create_user".toList ∨ key = "delete_user".toList then value.asText
          else otherUsername
        if action.isSome then .error (.valueError onlyOneCommand)
        else findAction kwargs otherUsername (some key)
      else findAction kwargs otherUsername action

/-- What an action depends on. The permission has a default and is always there. -/
def checkDependency (action : ActionType) (src dst : Option Text) : Except InitError Unit :=
  let depValue := (dependencyAction.lookup action.name).getD 0
  if depValue = 1 then
    if src.isNone then .error (.valueError (requiresArgument action "\"--src\""))
    else .ok ()
  else if depValue = 2 then
    if dst.isNone then .error (.valueError (requiresArgument action "\"--dst\""))
    else .ok ()
  else if depValue = 3 then
    if dst.isNone ∨ src.isNone then
      .error (.valueError (requiresArgument action "\"--src\" and \"--dst\""))
    else .ok ()
  else .ok ()

namespace ClientRequest

def setAction (client : ClientRequest) (action : ActionType) : ClientRequest :=
  let client := { client with action }
  let client :=
    if client.action = .deleteUser ∨ client.action = .createUser then
      { client with userFlag := client.action, action := .userOp }
    else client
  if client.action = .lLs ∨ client.action = .lMkdir ∨ client.action = .lDelete then
    { client with userFlag := client.action, action := .localOp }
  else client

def checkGet (disk : LocalDisk) (client : ClientRequest) (src dst : Option Text) :
    Except InitError Unit :=
  if client.action = .get then
    let src := src.getD []
    let path := joinPosix src (pathName (dst.getD []))
    if disk.isDir src = false then .error (.fileExistsError notADirectory)
    else if disk.isThere path then .error (.fileExistsError (alreadyExists path))
    else .ok ()
  else .ok ()

def init (disk : LocalDisk) (options : Options) : Except InitError ClientRequest := do
  let (otherUsername, action) ← findAction options.kwargs [] none
  let client : ClientRequest :=
    { username := options.username
      otherUsername
      perm := options.perm
      dst := options.dst
      srcName := (options.src.map pathName).getD []
      srcFile := options.src.bind disk.readBytes }
  match action with
  | none => throw (.valueError noCommand)
  | some action =>
      let action := (ActionType.members.lookup (action.map Char.toUpper)).getD .noOp
      checkDependency action options.src options.dst
      let client := client.setAction action
      client.checkGet disk options.src options.dst
      return client

def requireOtherPassword (client : ClientRequest) : Bool := client.userFlag = .createUser

def enterPasswords (client : ClientRequest) (self other : Text) : ClientRequest :=
  let client := { client with password := self }
  if client.requireOtherPassword then { client with otherPassword := other } else client

end ClientRequest

end FileTransfer.Client
