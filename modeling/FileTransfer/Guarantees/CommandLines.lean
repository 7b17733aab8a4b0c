import FileTransfer.Client.Cli
import FileTransfer.Guarantees.Overwriting
import FileTransfer.Guarantees.Transparency
import FileTransfer.Server.FileChanges

/-! # Command lines and what they come to
The client turns a command line into a request if it names one command and what that command
needs. At the server nothing becomes of it but what the command names.
-/

namespace FileTransfer.Client

open Foundation Posix

/-! ## Commands -/

inductive CliCommand
  | shell
  | ls
  | mkdir
  | delete
  | put
  | get
  | lLs
  | lDelete
  | lMkdir
  | createUser (name : Text)
  | deleteUser (name : Text)

namespace CliCommand

def option : CliCommand → Text × OptionValue
  | shell => ("shell".toList, .flag true)
  | ls => ("ls".toList, .flag true)
  | mkdir => ("mkdir".toList, .flag true)
  | delete => ("delete".toList, .flag true)
  | put => ("put".toList, .flag true)
  | get => ("get".toList, .flag true)
  | lLs => ("l_ls".toList, .flag true)
  | lDelete => ("l_delete".toList, .flag true)
  | lMkdir => ("l_mkdir".toList, .flag true)
  | createUser name => ("create_user".toList, .text (some name))
  | deleteUser name => ("delete_user".toList, .text (some name))

def asks : CliCommand → ActionType × ActionType
  | shell => (.shell, .noOp)
  | ls => (.ls, .noOp)
  | mkdir => (.mkdir, .noOp)
  | delete => (.delete, .noOp)
  | put => (.put, .noOp)
  | get => (.get, .noOp)
  | lLs => (.localOp, .lLs)
  | lDelete => (.localOp, .lDelete)
  | lMkdir => (.localOp, .lMkdir)
  | createUser _ => (.userOp, .createUser)
  | deleteUser _ => (.userOp, .deleteUser)

def otherUser : CliCommand → Text
  | createUser name => name
  | deleteUser name => name
  | _ => []

def Ready (disk : LocalDisk) (options : Options) : CliCommand → Prop
  | ls => options.dst.isSome
  | mkdir => options.dst.isSome
  | delete => options.dst.isSome
  | put => options.src.isSome ∧ options.dst.isSome
  | get => ∃ src dst, options.src = some src ∧ options.dst = some dst ∧
      disk.isDir src = true ∧ disk.isThere (joinPosix src (pathName dst)) = false
  | lLs => options.src.isSome
  | lDelete => options.src.isSome
  | lMkdir => options.src.isSome
  | _ => True

def request (disk : LocalDisk) (options : Options) (command : CliCommand) : ClientRequest where
  action := command.asks.1
  userFlag := command.asks.2
  username := options.username
  otherUsername := command.otherUser
  perm := options.perm
  dst := options.dst
  srcName := (options.src.map pathName).getD []
  srcFile := options.src.bind disk.readBytes

end CliCommand

def flagged (set : Bool) (command : CliCommand) : List CliCommand :=
  if set then [command] else []

def named (name : Option Text) (command : Text → CliCommand) : List CliCommand :=
  if name.getD [] = [] then [] else [command (name.getD [])]

def Options.commands (options : Options) : List CliCommand :=
  flagged options.shell .shell ++ (flagged options.ls .ls ++ (flagged options.mkdir .mkdir ++
    (flagged options.delete .delete ++ (flagged options.put .put ++
    (flagged options.get .get ++ (flagged options.lLs .lLs ++
    (flagged options.lDelete .lDelete ++ (flagged options.lMkdir .lMkdir ++
    (named options.createUser .createUser ++ named options.deleteUser .deleteUser)))))))))

/-! ## From the options to the request -/

def chosen (kwargs : List (Text × OptionValue)) : List (Text × OptionValue) :=
  kwargs.filter fun entry => entry.1 ≠ "debug".toList ∧ entry.2.truthy

def namedUser (entry : Text × OptionValue) (otherwise : Text) : Text :=
  if entry.1 = "create_user".toList ∨ entry.1 = "delete_user".toList then entry.2.asText
  else otherwise

section

variable {kwargs : List (Text × OptionValue)} {key : Text} {value : OptionValue}

theorem chosen_debug (debug : key = "debug".toList) :
    chosen ((key, value) :: kwargs) = chosen kwargs :=
  List.filter_cons_of_neg (by simp only [debug, ne_eq, not_true, false_and]; decide)

theorem chosen_truthy (notDebug : key ≠ "debug".toList) (truthy : value.truthy = true) :
    chosen ((key, value) :: kwargs) = (key, value) :: chosen kwargs :=
  List.filter_cons_of_pos (decide_eq_true ⟨notDebug, truthy⟩)

theorem chosen_falsy (falsy : ¬ value.truthy = true) :
    chosen ((key, value) :: kwargs) = chosen kwargs :=
  List.filter_cons_of_neg fun taken => falsy (of_decide_eq_true taken).2

theorem findAction_some {name action : Text} {found : Text × Option Text} :
    findAction kwargs name (some action) = .ok found ↔
      chosen kwargs = [] ∧ found = (name, some action) := by
  induction kwargs with
  | nil =>
      rw [findAction, Except.ok.injEq, eq_comm]
      exact ⟨fun same => ⟨rfl, same⟩, And.right⟩
  | cons entry kwargs induction =>
      rcases entry with ⟨key, value⟩
      rw [findAction]
      by_cases debug : key = "debug".toList
      · rw [if_pos debug, induction, chosen_debug debug]
      · rw [if_neg debug]
        by_cases truthy : value.truthy = true
        · rw [if_pos truthy, chosen_truthy debug truthy]
          constructor
          · intro found
            cases found
          · rintro ⟨none, _⟩
            cases none
        · rw [if_neg truthy, induction, chosen_falsy truthy]

theorem findAction_none {name : Text} {found : Text × Option Text} :
    findAction kwargs name none = .ok found ↔
      chosen kwargs = [] ∧ found = (name, none) ∨
        ∃ entry, chosen kwargs = [entry] ∧ found = (namedUser entry name, some entry.1) := by
  induction kwargs with
  | nil =>
      rw [findAction, Except.ok.injEq, eq_comm]
      constructor
      · exact fun same => .inl ⟨rfl, same⟩
      · rintro (⟨_, same⟩ | ⟨entry, some, _⟩)
        · exact same
        · cases some
  | cons entry kwargs induction =>
      rcases entry with ⟨key, value⟩
      rw [findAction]
      by_cases debug : key = "debug".toList
      · rw [if_pos debug, induction, chosen_debug debug]
      · rw [if_neg debug]
        by_cases truthy : value.truthy = true
        · simp only [if_pos truthy, chosen_truthy debug truthy, Option.isSome_none,
            Bool.false_eq_true, if_false, findAction_some]
          constructor
          · rintro ⟨none, rfl⟩
            exact .inr ⟨(key, value), by rw [none], rfl⟩
          · rintro (⟨none, _⟩ | ⟨entry, one, rfl⟩)
            · cases none
            · rcases List.cons.inj one with ⟨rfl, none⟩
              exact ⟨none, rfl⟩
        · rw [if_neg truthy, induction, chosen_falsy truthy]

end

theorem chosen_flag {key : Text} (set : Bool) (command : CliCommand)
    (kwargs : List (Text × OptionValue)) (isOption : command.option = (key, .flag true))
    (notDebug : key ≠ "debug".toList) :
    chosen ((key, .flag set) :: kwargs) =
      (flagged set command).map CliCommand.option ++ chosen kwargs := by
  cases set with
  | false =>
      have falsy : ¬ (OptionValue.flag false).truthy = true := Bool.false_ne_true
      rw [chosen_falsy falsy]
      rfl
  | true =>
      have truthy : (OptionValue.flag true).truthy = true := rfl
      rw [chosen_truthy notDebug truthy, flagged, if_pos rfl, List.map_singleton, isOption]
      rfl

theorem chosen_named {key : Text} (name : Option Text) (command : Text → CliCommand)
    (kwargs : List (Text × OptionValue))
    (isOption : ∀ name, (command name).option = (key, .text (some name)))
    (notDebug : key ≠ "debug".toList) :
    chosen ((key, .text name) :: kwargs) =
      (named name command).map CliCommand.option ++ chosen kwargs := by
  have truthy_iff : (OptionValue.text name).truthy = true ↔ name.getD [] ≠ [] :=
    decide_eq_true_iff
  rw [named]
  by_cases empty : name.getD [] = []
  · rw [if_pos empty, chosen_falsy (by rw [truthy_iff, not_not]; exact empty)]
    rfl
  · rw [if_neg empty, chosen_truthy notDebug (truthy_iff.mpr empty), List.map_singleton,
      isOption]
    cases name with
    | none => exact absurd rfl empty
    | some name => rfl

theorem chosen_kwargs (options : Options) :
    chosen options.kwargs = options.commands.map CliCommand.option := by
  have nothing : chosen [] = [] := rfl
  rw [Options.kwargs, chosen_debug rfl,
    chosen_flag options.shell .shell _ rfl (by decide),
    chosen_flag options.ls .ls _ rfl (by decide),
    chosen_flag options.mkdir .mkdir _ rfl (by decide),
    chosen_flag options.delete .delete _ rfl (by decide),
    chosen_flag options.put .put _ rfl (by decide),
    chosen_flag options.get .get _ rfl (by decide),
    chosen_flag options.lLs .lLs _ rfl (by decide),
    chosen_flag options.lDelete .lDelete _ rfl (by decide),
    chosen_flag options.lMkdir .lMkdir _ rfl (by decide),
    chosen_named options.createUser .createUser _ (fun _ => rfl) (by decide),
    chosen_named options.deleteUser .deleteUser _ (fun _ => rfl) (by decide)]
  simp only [Options.commands, List.map_append, nothing, List.append_nil]

/-! ## The constructor -/

def CliCommand.member : CliCommand → ActionType
  | shell => .shell
  | ls => .ls
  | mkdir => .mkdir
  | delete => .delete
  | put => .put
  | get => .get
  | lLs => .lLs
  | lDelete => .lDelete
  | lMkdir => .lMkdir
  | createUser _ => .createUser
  | deleteUser _ => .deleteUser

def CliCommand.depValue : CliCommand → Nat
  | shell => 0
  | deleteUser _ => 0
  | lLs => 1
  | lDelete => 1
  | lMkdir => 1
  | ls => 2
  | mkdir => 2
  | delete => 2
  | put => 3
  | get => 3
  | createUser _ => 4

theorem member_of_option (command : CliCommand) :
    (ActionType.members.lookup (command.option.1.map Char.toUpper)).getD .noOp =
      command.member := by
  cases command <;> rfl

theorem namedUser_option (command : CliCommand) :
    namedUser command.option [] = command.otherUser := by
  cases command <;> rfl

theorem setAction_member (client : ClientRequest) (command : CliCommand)
    (flagless : client.userFlag = .noOp) :
    client.setAction command.member =
      { client with action := command.asks.1, userFlag := command.asks.2 } := by
  rcases client with ⟨action, _, username, password, otherUsername, otherPassword, perm, dst,
    srcName, srcFile, sessionId⟩
  cases flagless
  cases command <;> rfl

section

variable {disk : LocalDisk} {options : Options}

theorem checkDependency_ok_iff (action : ActionType) (src dst : Option Text) :
    checkDependency action src dst = .ok () ↔
      ((dependencyAction.lookup action.name).getD 0 = 1 → src.isSome) ∧
      ((dependencyAction.lookup action.name).getD 0 = 2 → dst.isSome) ∧
      ((dependencyAction.lookup action.name).getD 0 = 3 → src.isSome ∧ dst.isSome) := by
  rw [checkDependency]
  generalize (dependencyAction.lookup action.name).getD 0 = depValue
  cases src <;> cases dst <;> simp <;> grind

theorem lookup_member (command : CliCommand) :
    (dependencyAction.lookup command.member.name).getD 0 = command.depValue := by
  cases command <;> rfl

theorem checkGet_get {src dst : Text} (hasSrc : options.src = some src)
    (hasDst : options.dst = some dst) :
    (CliCommand.get.request disk options).checkGet disk options.src options.dst = .ok () ↔
      disk.isDir src = true ∧ disk.isThere (joinPosix src (pathName dst)) = false := by
  have gets : (CliCommand.get.request disk options).action = .get := rfl
  rw [ClientRequest.checkGet, if_pos gets, hasSrc, hasDst]
  dsimp only [Option.getD_some]
  split
  · rename_i noDir
    simp [noDir]
  · rename_i isDir
    split
    · rename_i there
      simp [there]
    · rename_i free
      exact iff_of_true rfl ⟨eq_true_of_ne_false isDir, eq_false_of_ne_true free⟩

theorem ready_iff (command : CliCommand) :
    (checkDependency command.member options.src options.dst = .ok () ∧
        (command.request disk options).checkGet disk options.src options.dst = .ok ()) ↔
      command.Ready disk options := by
  rw [checkDependency_ok_iff, lookup_member]
  by_cases gets : command = .get
  · cases gets
    cases hasSrc : options.src with
    | none => simp [CliCommand.depValue, CliCommand.Ready, hasSrc]
    | some src =>
        cases hasDst : options.dst with
        | none => simp [CliCommand.depValue, CliCommand.Ready, hasDst]
        | some dst =>
            rw [← hasSrc, ← hasDst, checkGet_get hasSrc hasDst]
            simp [CliCommand.depValue, CliCommand.Ready, hasSrc, hasDst]
  · have unchecked : (command.request disk options).checkGet disk options.src options.dst =
        .ok () := by
      apply if_neg
      intro isGet
      cases command <;> first | exact gets rfl | cases isGet
    rw [unchecked]
    cases command <;> simp [CliCommand.depValue, CliCommand.Ready] at gets ⊢

/-- A command line is turned into a request exactly if it gives one command, and what that
command needs. -/
theorem init_ok_iff {client : ClientRequest} :
    ClientRequest.init disk options = .ok client ↔
      ∃ command, options.commands = [command] ∧ command.Ready disk options ∧
        client = command.request disk options := by
  have made (command : CliCommand) (given : options.commands = [command]) :
      ClientRequest.init disk options = (do
        checkDependency command.member options.src options.dst
        (command.request disk options).checkGet disk options.src options.dst
        return command.request disk options) := by
    have found : findAction options.kwargs [] none =
        .ok (command.otherUser, some command.option.1) := by
      rw [findAction_none, chosen_kwargs, given]
      exact .inr ⟨command.option, rfl, by rw [namedUser_option]⟩
    rw [ClientRequest.init, found]
    simp only [Fallible.ok_bind, member_of_option]
    rw [setAction_member _ _ rfl]
    rfl
  constructor
  · intro isOk
    have found := isOk
    rw [ClientRequest.init] at found
    rcases Fallible.ok_of_bind_ok found with ⟨⟨name, action⟩, found, rest⟩
    rcases findAction_none.mp found with ⟨_, isNone⟩ | ⟨entry, one, _⟩
    · cases isNone
      cases rest
    · rw [chosen_kwargs] at one
      rcases List.map_eq_singleton_iff.mp one with ⟨command, given, rfl⟩
      rw [made command given] at isOk
      rcases Fallible.ok_of_bind_ok isOk with ⟨_, depends, isOk⟩
      rcases Fallible.ok_of_bind_ok isOk with ⟨_, free, isOk⟩
      cases isOk
      exact ⟨command, given, (ready_iff command).mp ⟨depends, free⟩, rfl⟩
  · rintro ⟨command, given, ready, rfl⟩
    rcases (ready_iff command).mpr ready with ⟨depends, free⟩
    rw [made command given, depends, Fallible.ok_bind, free]
    rfl

def CliCommand.entered (disk : LocalDisk) (options : Options) (self other : Text)
    (command : CliCommand) : ClientRequest :=
  (command.request disk options).enterPasswords self other

theorem entered_eq {self other : Text} (command : CliCommand) :
    ∃ otherPassword, command.entered disk options self other =
        { command.request disk options with password := self, otherPassword } ∧
      (command.asks.2 = .createUser → otherPassword = other) := by
  rw [CliCommand.entered, ClientRequest.enterPasswords]
  split
  · exact ⟨other, rfl, fun _ => rfl⟩
  · rename_i without
    exact ⟨[], rfl, fun creates => absurd (decide_eq_true creates) without⟩

end

end FileTransfer.Client

namespace FileTransfer

open Foundation Posix Client

/-! ## What a command may do -/

def cString (text : Text) : CString := CString.ofBuffer (encodeUtf8 text)

def LogsIn (sha : Sha256) (server : Server) (options : Options) (passwd : Text)
    (level : Perms) : Prop :=
  ∃ user, server.db.usersHtable.get (cString options.username) = some user ∧
    user.hash = sha.digest (cString passwd).bytes ∧ level ≤ user.permission

/-- What becomes of users and files when a command is given, with the passwords `self` and
`other`. -/
inductive Allows (sha : Sha256) (disk : LocalDisk) (options : Options) (self other : Text)
    (before after : Server) : CliCommand → Prop
  | nothing (command : CliCommand)
      (users : after.db.usersHtable = before.db.usersHtable)
      (files : after.tree = before.tree) :
      Allows sha disk options self other before after command
  | mkdir (location : Location)
      (user : LogsIn sha before options self Perms.readWrite)
      (users : after.db.usersHtable = before.db.usersHtable)
      (isNew : before.tree.get location = none)
      (files : ChangedAt before.tree after.tree location (some .dir)) :
      Allows sha disk options self other before after .mkdir
  | delete (location : Location)
      (user : LogsIn sha before options self Perms.readWrite)
      (users : after.db.usersHtable = before.db.usersHtable)
      (was : (∃ content, before.tree.get location = some (.file content)) ∨
        before.tree.get location = some .dir ∧ before.tree.Removable location)
      (files : ChangedAt before.tree after.tree location none) :
      Allows sha disk options self other before after .delete
  | put (location : Location) (content part : Bytes)
      (user : LogsIn sha before options self Perms.readWrite)
      (users : after.db.usersHtable = before.db.usersHtable)
      (isFile : options.src.bind disk.readBytes = some content)
      (isPart : part <+: content)
      (files : ChangedAt before.tree after.tree location (some (.file part))) :
      Allows sha disk options self other before after .put
  | createUser (name : Text)
      (user : LogsIn sha before options self (UInt8.ofNat options.perm.value))
      (isNew : before.db.usersHtable.get (cString name) = none)
      (users : after.db.usersHtable = before.db.usersHtable.set (cString name)
        ⟨cString name, UInt8.ofNat options.perm.value, sha.digest (cString other).bytes⟩)
      (files : FileTree.AgreeOff (DatabaseFile before.tree before.db.homeDir) before.tree
        after.tree) :
      Allows sha disk options self other before after (.createUser name)
  | deleteUser (name : Text)
      (user : LogsIn sha before options self Perms.admin)
      (was : before.db.usersHtable.get (cString name) ≠ none)
      (users : after.db.usersHtable = before.db.usersHtable.del (cString name))
      (files : FileTree.AgreeOff (DatabaseFile before.tree before.db.homeDir) before.tree
        after.tree) :
      Allows sha disk options self other before after (.deleteUser name)

section

variable {env : Env} {sha : Sha256} {timeout : Int} {disk : LocalDisk} {options : Options}
  {self other : Text} {server : Server} {command : CliCommand} {request : WirePayload}

theorem logsIn_of_authentic
    (isMeant : meant sha (command.entered disk options self other) = .ok request)
    {user : UserAccount} (authentic : Authentic sha server.db.usersHtable request user)
    {level : Perms} (enough : level ≤ user.permission) :
    LogsIn sha server options self level := by
  rcases entered_eq command with ⟨otherPassword, isEntered, _⟩
  rw [isEntered] at isMeant
  rcases meant_header isMeant with ⟨_, _, username, passwd⟩
  rcases authentic with ⟨name, secret, named, given, found, matched⟩
  cases named.symm.trans username
  cases given.symm.trans passwd
  exact ⟨user, found, matched, enough⟩

theorem creates_of_flag {action : ActionType}
    (flag : UsrAct.ofByte (UInt8.ofNat action.value) = some .createUser) :
    action = .createUser := by
  cases action <;> revert flag <;> decide

theorem deletes_of_flag {action : ActionType}
    (flag : UsrAct.ofByte (UInt8.ofNat action.value) = some .deleteUser) :
    action = .deleteUser := by
  cases action <;> revert flag <;> decide

theorem allows_files {location : Location} {node : Option Node}
    (isMeant : meant sha (command.entered disk options self other) = .ok request)
    (holds : LogsIn sha server options self Perms.readWrite)
    (change : FileChange env server request location node) {after : Server}
    (users : after.db.usersHtable = server.db.usersHtable)
    (changed : ChangedAt server.tree after.tree location node) :
    Allows sha disk options self other server after command := by
  rcases entered_eq command with ⟨otherPassword, isEntered, _⟩
  rw [isEntered] at isMeant
  have opcode : request.optCode = UInt8.ofNat command.asks.1.value := (meant_header isMeant).1
  cases change with
  | deleted child location asks resolved deletable =>
      have isDelete := asked_of_opcode (opcode.symm.trans asks.opcode)
      cases command <;> cases isDelete
      refine .delete location holds users ?_ changed
      exact deletable.imp And.left fun isDir => ⟨isDir.1, isDir.2.1⟩
  | made child path location asks resolved free permitted =>
      have isMkdir := asked_of_opcode (opcode.symm.trans asks.opcode)
      cases command <;> cases isMkdir
      exact .mkdir location holds users (FileTree.locate_delivered free).1 changed
  | stored payload path bytes target isPut carried puts located opens notDir notOther =>
      have asksPut := asked_of_opcode (opcode.symm.trans isPut)
      cases command <;> cases asksPut
      refine .put target.location bytes (env.write.kept bytes) holds users ?_ ?_ changed
      · exact meant_put rfl isMeant carried puts.carried
      · exact (List.take_prefix _ _).trans (List.take_prefix _ _)

theorem allows_users {user : UserAccount} {payload : UserPayload}
    {table : HashTable CString UserAccount}
    (isMeant : meant sha (command.entered disk options self other) = .ok request)
    (authentic : Authentic sha server.db.usersHtable request user)
    (isUser : request.optCode = Act.userOperation.toByte)
    (carried : request.payload = .user payload)
    (change : UserChange sha user payload server.db.usersHtable table) {after : Server}
    (users : after.db.usersHtable = table)
    (files : FileTree.AgreeOff (DatabaseFile server.tree server.db.homeDir) server.tree
      after.tree) :
    Allows sha disk options self other server after command := by
  have holds : ∀ level ≤ user.permission, LogsIn sha server options self level :=
    fun level enough => logsIn_of_authentic isMeant authentic enough
  rcases entered_eq command with ⟨otherPassword, isEntered, passwordAsked⟩
  rw [isEntered] at isMeant
  have opcode : request.optCode = UInt8.ofNat command.asks.1.value := (meant_header isMeant).1
  have asksUser : command.asks.1 = .userOp := asked_of_opcode (opcode.symm.trans isUser)
  have carries : payload.userFlag = UInt8.ofNat command.asks.2.value ∧
      payload.userPerm = UInt8.ofNat options.perm.value ∧
      payload.username = some (encodeUtf8 command.otherUser) ∧
      (command.asks.2 = .createUser → payload.passwd = some (encodeUtf8 otherPassword)) :=
    meant_user asksUser isMeant carried
  rcases carries with ⟨sameFlag, samePerm, sameName, samePasswd⟩
  cases change with
  | added name passwd named secret allowed capped fresh stored flag =>
      rw [sameFlag] at flag
      have creates : command.asks.2 = .createUser := creates_of_flag flag
      cases passwordAsked creates
      cases named.symm.trans sameName
      cases secret.symm.trans (samePasswd creates)
      rw [samePerm] at capped stored
      cases command <;> cases creates
      exact .createUser _ (holds _ capped) fresh (users.trans stored) files
  | removed name account named admin present deleted flag =>
      rw [sameFlag] at flag
      have deletes : command.asks.2 = .deleteUser := deletes_of_flag flag
      cases named.symm.trans sameName
      have enough : Perms.admin ≤ user.permission := by
        rw [admin]
        exact UInt8.le_refl _
      cases command <;> cases deletes
      refine .deleteUser _ (holds _ enough) ?_ (users.trans deleted) files
      exact fun absent => Option.some_ne_none _ (present.symm.trans absent)

theorem allows_parsed {handled : Handled}
    (isMeant : meant sha (command.entered disk options self other) = .ok request)
    (parsed : ctrlParseAction env sha timeout server request = .ok handled) :
    Allows sha disk options self other server handled.server command := by
  cases ctrlParseAction_effect parsed with
  | refused code failed stranger result =>
      cases result
      exact .nothing command rfl rfl
  | expired user check authentic checked failed result =>
      cases result
      exact .nothing command rfl rfl
  | performed user check response after authentic checked passed action result =>
      cases result
      cases performAction_effect action with
      | nothing kept =>
          cases kept
          exact .nothing command rfl rfl
      | users payload table opcode carried change saved =>
          rcases saveUsers_ok saved with ⟨_, stored, _, files⟩
          exact allows_users isMeant authentic (Act.toByte_of_ofByte opcode) carried change
            (by rw [stored]; rfl) files
      | files act payload code tree opcode permitted carried performed answered stored =>
          have notUser : request.optCode ≠ Act.userOperation.toByte := by
            rw [Act.toByte_of_ofByte opcode]
            rcases performed with ⟨rfl, _⟩ | ⟨rfl, _⟩ | ⟨rfl, _⟩ <;> decide
          have users : after.db.usersHtable = server.db.usersHtable := by rw [stored]; rfl
          rcases performAction_exactly permitted notUser action with
            ⟨location, node, change, changed⟩ | ⟨_, same⟩
          · exact allows_files isMeant (logsIn_of_authentic isMeant authentic permitted)
              change.of_setSessions users changed
          · exact .nothing command users same

end

/-- A command line is turned into a request exactly if it gives one command and what that
command needs. Whatever then happens between client and server, users and files are changed as
the command has it, for the user named, or not at all. -/
theorem commands_do_what_they_name {Object : Type} {env : Env} {sha : Sha256} {timeout : Int}
    {hashlib : Hashlib Object} (hashes : hashlib.Hashes sha) {disk : LocalDisk}
    {options : Options} {client : ClientRequest} {self other : Text} {link : Link}
    {server : Server} :
    (ClientRequest.init disk options = .ok client ↔
      ∃ command, options.commands = [command] ∧ command.Ready disk options ∧
        client = command.request disk options) ∧
    (ClientRequest.init disk options = .ok client →
      AsciiFields (client.enterPasswords self other) → ∀ done,
      exchange env sha timeout hashlib link server (client.enterPasswords self other) =
        .ok done →
      ∃ command, options.commands = [command] ∧
        Allows sha disk options self other server done.served.server command) := by
  refine ⟨init_ok_iff, ?_⟩
  intro made ascii done exchanged
  rcases init_ok_iff.mp made with ⟨command, given, _, rfl⟩
  refine ⟨command, given, ?_⟩
  rcases (exchange_ok exchanged).1 with ⟨_, unserved⟩ | ⟨_, serves⟩
  · rw [unserved]
    exact .nothing command rfl rfl
  · rcases serveClient_reads serves with
      ⟨request, later, handled, read, parsed, served⟩ | ⟨⟨table, kept⟩, _⟩
    · rw [served]
      exact allows_parsed (read_is_meant hashes ascii read) parsed
    · rw [kept]
      exact .nothing command rfl rfl

/-! `--mkdir --dst notes`, given by `alice`. -/

def bareDisk : LocalDisk where
  isDir _ := false
  isThere _ := false
  readBytes _ := none
  raises _ _ := false

def mkdirLine : Options where
  username := asciiText (ascii "alice")
  dst := some (asciiText (ascii "notes"))
  mkdir := true

def mkdirClient : ClientRequest :=
  CliCommand.mkdir.entered bareDisk mkdirLine (asciiText (ascii "password")) []

theorem mkdirClient_ascii : AsciiFields mkdirClient where
  username := by decide
  password := by decide
  otherUsername isUser := by cases isUser
  otherPassword isUser := by cases isUser
  path _ _ text isPath := by
    cases isPath
    decide

theorem commands_do_what_they_name_mkdir :
    ∃ done, exchange quietEnv passwordSha 60 (collecting passwordSha) bytewiseLink
        (serverOf (accountNamed "alice" Perms.readWrite)) mkdirClient = .ok done ∧
      done.served.server.tree.get [notesName] = some .dir ∧
      ∃ command, mkdirLine.commands = [command] ∧
        Allows passwordSha bareDisk mkdirLine (asciiText (ascii "password")) []
          (serverOf (accountNamed "alice" Perms.readWrite)) done.served.server command := by
  have seen : ∃ done, exchange quietEnv passwordSha 60 (collecting passwordSha) bytewiseLink
        (serverOf (accountNamed "alice" Perms.readWrite)) mkdirClient = .ok done ∧
      done.served.server.tree.get [notesName] = some .dir := by
    apply Fallible.exists_ok_of_seen
    decide +kernel
  rcases seen with ⟨done, exchanged, created⟩
  have made : ClientRequest.init bareDisk mkdirLine =
      .ok (CliCommand.mkdir.request bareDisk mkdirLine) := by decide
  exact ⟨done, exchanged, created,
    (commands_do_what_they_name (collecting_hashes passwordSha)).2 made mkdirClient_ascii done
      exchanged⟩

end FileTransfer
