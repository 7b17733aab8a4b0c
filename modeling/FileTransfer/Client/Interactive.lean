import FileTransfer.Client.Connection

/-! # `client_interactive.py`
The shell: its commands, the requests they make, and the loop that asks for the password
again once the session has expired.
-/

namespace FileTransfer.Client

open Foundation

/-! ## Setting up a request -/

structure LocalDisk where
  isDir : Text → Bool
  isThere : Text → Bool
  readBytes : Text → Option Bytes
  raises : ActionType → Text → Bool

def pathName (path : Text) : Text :=
  ((path.splitOn '/').filter fun part => part ≠ [] ∧ part ≠ ['.']).getLastD []

namespace ClientRequest

variable (disk : LocalDisk) (client : ClientRequest) (dst src : Text)

def resetState : ClientRequest :=
  { client with
    action := .noOp
    userFlag := .noOp
    srcName := []
    srcFile := none
    dst := some [] }

def setSrc : ClientRequest :=
  { client with srcName := pathName src, srcFile := disk.readBytes src }

def setAuthHeaders : ClientRequest := { client.resetState with action := .localOp }

def setLocals : ClientRequest := client.resetState.setSrc disk src

def checkGetPath : Except PyError Unit :=
  if disk.isDir src = false then .error .osError
  else if disk.isThere (joinPosix src (pathName dst)) then .error .osError
  else .ok ()

def setGet : Except PyError ClientRequest := do
  let client := { client.resetState.setSrc disk src with dst := some dst, action := .get }
  checkGetPath disk dst src
  return client

def setPut : ClientRequest :=
  { client.resetState.setSrc disk src with dst := some dst, action := .put }

def setDelete : ClientRequest := { client.resetState with dst := some dst, action := .delete }

def setLs : ClientRequest := { client.resetState with dst := some dst, action := .ls }

def setMkdir : ClientRequest := { client.resetState with dst := some dst, action := .mkdir }

end ClientRequest

/-! ## Commands -/

inductive Command
  | get
  | put
  | help
  | quit
  | delete
  | lDelete
  | ls
  | lLs
  | mkdir
  | lMkdir
deriving DecidableEq

def Command.args : Command → List Text
  | get => ["r_dst".toList, "r_src".toList]
  | put => ["r_src".toList, "r_dst".toList]
  | help => ["cmds".toList]
  | quit => []
  | delete => ["r_dst".toList]
  | lDelete => ["r_src".toList]
  | ls => ["dst".toList]
  | lLs => ["src".toList]
  | mkdir => ["r_dst".toList]
  | lMkdir => ["r_src".toList]

def cmds : List (Text × Command) :=
  [("get".toList, .get), ("put".toList, .put), ("help".toList, .help),
    ("quit".toList, .quit), ("delete".toList, .delete), ("l_delete".toList, .lDelete),
    ("ls".toList, .ls), ("l_ls".toList, .lLs), ("mkdir".toList, .mkdir),
    ("l_mkdir".toList, .lMkdir)]

def isRequired (arg : Text) : Bool := "r_".toList.isPrefixOf arg

def collectArgs : (args given : List Text) → List (Text × Option Text)
  | [], _ => []
  | arg :: args, given => (arg, given.head?) :: collectArgs args given.tail

def tooManyArgs (cmdName : Text) : Text :=
  "[!] Too many arguments for this command provided. User `help ".toList ++ cmdName ++
    "` for more information".toList

def missingArg (cmdName arg : Text) : Text :=
  "[!] Command ".toList ++ cmdName ++ " requires ".toList ++ arg.drop 2 ++
    ". Use `help ".toList ++ cmdName ++ "` for more information".toList

def parseArgs (command : Command) (cmdName : Text) (given : List Text) :
    Except Text (List (Text × Option Text)) :=
  let argDict := collectArgs command.args given
  let argsCollected := 1 + (argDict.filter fun entry => entry.2.isSome).length
  if 1 + given.length > argsCollected then .error (tooManyArgs cmdName)
  else
    match argDict.find? fun entry => isRequired entry.1 && entry.2.isNone with
    | some entry => .error (missingArg cmdName entry.1)
    | none => .ok argDict

def getArg (argDict : List (Text × Option Text)) (arg : String) : Text :=
  ((argDict.lookup arg.toList).getD none).getD []

inductive Prepared
  | prints (msg : Text)
  | help
  | quits
  | raises (error : PyError)
  | remote (client : ClientRequest)
  | locally (client : ClientRequest) (action : ActionType) (src : Text)

def orElse (value default : Text) : Text := if value = [] then default else value

section

variable (disk : LocalDisk) (client : ClientRequest) (argDict : List (Text × Option Text))

def Command.callback : Command → Prepared
  | get =>
      match client.setGet disk (getArg argDict "r_dst") (getArg argDict "r_src") with
      | .error error => .raises error
      | .ok client => .remote client
  | put => .remote (client.setPut disk (getArg argDict "r_dst") (getArg argDict "r_src"))
  | help => .help
  | quit => .quits
  | delete => .remote (client.setDelete (getArg argDict "r_dst"))
  | lDelete =>
      .locally (client.setLocals disk (getArg argDict "r_src")) .lDelete
        (getArg argDict "r_src")
  | ls => .remote (client.setLs (orElse (getArg argDict "dst") ['/']))
  | lLs =>
      .locally (client.setLocals disk (orElse (getArg argDict "src") ['.'])) .lLs
        (orElse (getArg argDict "src") ['.'])
  | mkdir => .remote (client.setMkdir (getArg argDict "r_dst"))
  | lMkdir =>
      .locally (client.setLocals disk (getArg argDict "r_src")) .lMkdir
        (getArg argDict "r_src")

end

def invalidCommand : Text :=
  "[!] Invalid command. Use \"help\" for a list of commands.".toList

/-- `lower`, as far as it makes the letters of a command: beyond ASCII only the Kelvin sign
has one of them as its lower case. -/
def lower (text : Text) : Text :=
  text.map fun character => if character.toNat = 0x212a then 'k' else character.toLower

def prepare (disk : LocalDisk) (client : ClientRequest) : (cmd : List Text) → Prepared
  | [] => .prints []
  | name :: given =>
      let cmdName := lower name
      match cmds.lookup cmdName with
      | none => .prints invalidCommand
      | some .help => .help
      | some .quit => .quits
      | some command =>
          match parseArgs command cmdName given with
          | .error msg => .prints msg
          | .ok argDict => command.callback disk client argDict

/-! ## The shell -/

inductive Stage
  | password
  | prompt
  | exited
deriving DecidableEq

structure Shell where
  client : ClientRequest
  stage : Stage

/-- What the user does: a line comes as its tokens, and a stroke of `Ctrl-C`, the end of the
input or a line that cannot be split raises. -/
inductive Typed
  | password (text : Text)
  | line (cmd : List Text)
  | raises
deriving DecidableEq

inductive ShellTurn
  | stays (shell : Shell)
  | connects (client : ClientRequest)

namespace Shell

def exit (client : ClientRequest) : Shell := ⟨client, .exited⟩

def turn (disk : LocalDisk) (shell : Shell) (typed : Typed) : ShellTurn :=
  match shell.stage, typed with
  | .password, .raises | .prompt, .raises => .stays (exit shell.client)
  | .password, .password text =>
      .connects { shell.client with password := text }.setAuthHeaders
  | .prompt, .line cmd =>
      match prepare disk shell.client cmd with
      | .prints _ | .help => .stays shell
      | .quits | .raises _ => .stays (exit shell.client)
      | .remote client => .connects client
      | .locally client action src =>
          if disk.raises action src then .stays (exit client) else .stays ⟨client, .prompt⟩
  | _, _ => .stays shell

def handle (client : ClientRequest) : PyError → Shell
  | .timeoutError => ⟨client.setSession 0, .password⟩
  | _ => exit client

def raised (timedOut : Bool) : PyError → PyError
  | .failure .socketError => if timedOut then .timeoutError else .failure .socketError
  | error => error

def resume {Object : Type} (digits : UnicodeDigits) (hashlib : Hashlib Object)
    (timedOut : Bool) (stage : Stage) (client : ClientRequest)
    (outcome : Except PyError (ServerResponse × ClientRequest)) : Shell :=
  match outcome with
  | .error error => handle client (raised timedOut error)
  | .ok (resp, client) =>
      if stage = .password then
        if resp.successful = false then exit client
        else ⟨client.setSession resp.sessionId, .prompt⟩
      else
        match parseAction digits hashlib client resp with
        | .error error => handle client error
        | .ok _ => ⟨client, .prompt⟩

end Shell

/-! ## The session while a request is set up -/

def Prepared.InSession (session : Nat) : Prepared → Prop
  | remote client => client.sessionId = session
  | locally client _ _ => client.sessionId = session
  | _ => True

def ShellTurn.GoesOn (shell : Shell) : ShellTurn → Prop
  | stays after => after.stage = .exited ∨
      after.stage = shell.stage ∧ after.client.sessionId = shell.client.sessionId
  | connects client => shell.stage ≠ .exited ∧ client.sessionId = shell.client.sessionId

section

variable (disk : LocalDisk)

theorem Command.callback_inSession (client : ClientRequest)
    (argDict : List (Text × Option Text)) (command : Command) :
    (command.callback disk client argDict).InSession client.sessionId := by
  cases command with
  | get =>
      rw [callback]
      split
      · trivial
      · rename_i isSet
        rcases Fallible.ok_of_bind_ok isSet with ⟨_, _, rest⟩
        cases rest
        rfl
  | help => trivial
  | quit => trivial
  | _ => rfl

theorem prepare_inSession (client : ClientRequest) (cmd : List Text) :
    (prepare disk client cmd).InSession client.sessionId := by
  cases cmd with
  | nil => trivial
  | cons name given =>
      simp only [prepare]
      split
      · trivial
      · trivial
      · trivial
      · split
        · trivial
        · exact Command.callback_inSession disk client _ _

theorem Shell.turn_goesOn (shell : Shell) (typed : Typed) :
    (shell.turn disk typed).GoesOn shell := by
  rcases shell with ⟨client, stage⟩
  cases stage with
  | exited => cases typed <;> exact .inl rfl
  | password =>
      cases typed with
      | password text => exact ⟨Stage.noConfusion, rfl⟩
      | line cmd => exact .inr ⟨rfl, rfl⟩
      | raises => exact .inl rfl
  | prompt =>
      cases typed with
      | password text => exact .inr ⟨rfl, rfl⟩
      | raises => exact .inl rfl
      | line cmd =>
          have kept := prepare_inSession disk client cmd
          simp only [turn]
          cases prepared : prepare disk client cmd with
          | prints msg => exact .inr ⟨rfl, rfl⟩
          | help => exact .inr ⟨rfl, rfl⟩
          | quits => exact .inl rfl
          | raises error => exact .inl rfl
          | remote next =>
              rw [prepared] at kept
              exact ⟨Stage.noConfusion, kept⟩
          | locally next action src =>
              rw [prepared] at kept
              by_cases raises : disk.raises action src
              · simp only [raises, if_true]
                exact .inl rfl
              · simp only [raises, Bool.false_eq_true, if_false]
                exact .inr ⟨rfl, kept⟩

end

end FileTransfer.Client
