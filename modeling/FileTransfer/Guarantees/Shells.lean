import FileTransfer.Client.Interactive
import FileTransfer.Foundation.Tenancy
import FileTransfer.Guarantees.Listings
import FileTransfer.Guarantees.Transparency

/-! # Shells side by side
Any number of shells on one server, each with the session that it was handed. What happens
on the way to the server, to whom and in whatever order, no shell ends up in the session of
another, and none loses its session through another.
-/

namespace FileTransfer

open Foundation Posix Client

/-! ## What a connection does to sessions -/

inductive HandsOut (env : Env) (before : HashTable UInt32 Int) (named : UInt32)
    (response : ActResp) (session : UInt32) (after : HashTable UInt32 Int) : Prop
  | none' (isNone : session = 0) (failed : response.result ≠ .opSuccess)
  | refused (same : session = named) (failed : response.result ≠ .opSuccess)
      (kept : after = before)
  | expired (same : session = named) (code : response.result = .opSessionError)
  | fresh (free : before.get session = none) (stored : after.get session = some env.time)
  | refreshed (same : session = named) (stored : after.get session = some env.time)

section Serving

variable {env : Env} {sha : Sha256} {timeout : Int} {server : Server} {connection : Connection}
  {served : Served}

theorem serveClient_entries
    (done : serveClient env sha timeout server connection = .ok served) {session : UInt32}
    (present : server.db.seshHtable.get session ≠ none)
    (other : session ≠ connection.request.sessionId) :
    served.server.db.seshHtable.get session = server.db.seshHtable.get session := by
  rcases serveClient_cases done with ⟨_, rfl⟩ | ⟨_, _, code, rfl⟩ | ⟨_, _, handled, parsed, rfl⟩
  · rfl
  · exact HashTable.get_del_ne _ other
  · rcases authenticate_total sha server.db connection.request with
      ⟨user, _, authentic⟩ | ⟨code, _, _, stranger⟩
    · rcases ctrlParseAction_sessions authentic parsed with ⟨check, checked, _, after⟩
      simp only [after]
      rcases checkSession_cases checked with ⟨_, fresh, free, rfl⟩ | ⟨_, _, rfl⟩ |
        ⟨_, _, _, _, rfl⟩ | ⟨_, _, _, _, rfl⟩
      · apply HashTable.get_set_ne
        rintro rfl
        exact present free
      · rfl
      · exact HashTable.get_del_ne _ other
      · exact HashTable.get_set_ne _ _ other
    · simp only [ctrlParseAction_stranger stranger parsed]

theorem serveClient_handsOut
    (done : serveClient env sha timeout server connection = .ok served) {response : ActResp}
    {session : UInt32} (answered : served.response = some (response, session)) :
    HandsOut env server.db.seshHtable connection.request.sessionId response session
      served.server.db.seshHtable := by
  rcases serveClient_cases done with
    ⟨_, rfl⟩ | ⟨_, cut, code, isServed⟩ | ⟨_, _, handled, parsed, rfl⟩
  · cases answered
  · rcases serveClient_reads done with ⟨request, after, _, read, _⟩ | ⟨_, failed⟩
    · exact absurd ⟨_, read⟩ cut
    · have unlike := failed response session answered
      rw [isServed] at answered
      simp only [failureResponse] at answered
      split at answered
      · cases answered
      · cases answered
        exact .none' rfl unlike
  · cases answered
    cases ctrlParseAction_effect parsed with
    | refused code failed stranger result =>
        subst result
        exact .refused rfl failed rfl
    | expired user check authentic checked failed result =>
        subst result
        rcases checkSession_cases checked with ⟨_, _, _, rfl⟩ | ⟨_, _, rfl⟩ |
          ⟨_, _, _, _, rfl⟩ | ⟨_, _, _, _, rfl⟩
        · exact absurd rfl failed
        · exact .expired rfl rfl
        · exact .expired rfl rfl
        · exact absurd rfl failed
    | performed user check response after authentic checked passed action result =>
        subst result
        have sessions := (performAction_effect action).sessions
        rw [Server.setSessions_sessions] at sessions
        rcases checkSession_cases checked with ⟨_, fresh, free, rfl⟩ | ⟨_, _, rfl⟩ |
          ⟨_, _, _, _, rfl⟩ | ⟨_, _, _, _, rfl⟩
        · exact .fresh free (by simp only [sessions, HashTable.get_set_self])
        · cases passed
        · cases passed
        · exact .refreshed rfl (by simp only [sessions, HashTable.get_set_self])

end Serving

/-! ## The system -/

structure Shells (Person : Type) where
  server : Server
  shells : Person → Shell

inductive ShellInput (Person : Type)
  | types (person : Person) (typed : Typed) (disk : LocalDisk) (env : Env) (link : Link)
      (timedOut : Bool)
  | stranger (env : Env) (connection : Connection)

def ShellInput.mover {Person : Type} : ShellInput Person → Option Person
  | types person _ _ _ _ _ => some person
  | stranger _ _ => none

/-- The session that a shell is in. Zero is what it sends to get one. -/
def Client.Shell.session (shell : Shell) : Option UInt32 :=
  if shell.stage = .exited ∨ UInt32.ofNat shell.client.sessionId = 0 then none
  else some (UInt32.ofNat shell.client.sessionId)

section Steps

variable {Person Object : Type} [DecidableEq Person] (sha : Sha256) (timeout : Int)
  (hashlib : Hashlib Object) (digits : UnicodeDigits)

/-- What one input comes to. Strangers may send what they like, but they do not know the
sessions of the shells. -/
inductive ShellStep (state : Shells Person) :
    ShellInput Person → Option (ActResp × UInt32) → Shells Person → Prop
  | stays (person : Person) (typed : Typed) (disk : LocalDisk) (env : Env) (link : Link)
      (timedOut : Bool) (shell : Shell)
      (turn : (state.shells person).turn disk typed = .stays shell) :
      ShellStep state (.types person typed disk env link timedOut) none
        ⟨state.server, Function.update state.shells person shell⟩
  | connects (person : Person) (typed : Typed) (disk : LocalDisk) (env : Env) (link : Link)
      (timedOut : Bool) (client : ClientRequest) (done : Exchanged)
      (turn : (state.shells person).turn disk typed = .connects client)
      (exchanged : exchange env sha timeout hashlib link state.server client = .ok done)
      (inMemory : done.served.InMemory) :
      ShellStep state (.types person typed disk env link timedOut) done.served.response
        ⟨done.served.server, Function.update state.shells person
          (Shell.resume digits hashlib timedOut (state.shells person).stage client
            done.outcome)⟩
  | stranger (env : Env) (connection : Connection) (served : Served)
      (unknown : ∀ person session, (state.shells person).session = some session →
        connection.request.sessionId ≠ session)
      (serves : serveClient env sha timeout state.server connection = .ok served) :
      ShellStep state (.stranger env connection) served.response
        ⟨served.server, state.shells⟩

def Shells.tenancy (state : Shells Person) : Tenancy Person UInt32 Int where
  held person := (state.shells person).session
  entry := state.server.db.seshHtable.get

/-! ## One step -/

variable {sha timeout hashlib digits}

theorem Client.Shell.session_eq_some {shell : Shell} {session : UInt32} :
    shell.session = some session ↔
      shell.stage ≠ .exited ∧ session ≠ 0 ∧ UInt32.ofNat shell.client.sessionId = session := by
  rw [Shell.session]
  split
  · rename_i nothing
    constructor
    · intro isSome
      cases isSome
    · rintro ⟨stays, nonzero, rfl⟩
      exact absurd nothing (not_or.mpr ⟨stays, nonzero⟩)
  · rename_i something
    rw [not_or] at something
    constructor
    · intro isSome
      cases isSome
      exact ⟨something.1, something.2, rfl⟩
    · rintro ⟨_, _, rfl⟩
      rfl

theorem Client.Shell.session_exit (client : ClientRequest) : (Shell.exit client).session = none :=
  if_pos (.inl rfl)

theorem Client.Shell.session_handle (client : ClientRequest) (error : PyError) :
    (Shell.handle client error).session = none := by
  cases error with
  | timeoutError => exact if_pos (.inr rfl)
  | _ => exact session_exit client

end Steps

/-! ## What the server reads of a shell -/

theorem headerSessionId_layout {bytes : Bytes} {opcode flag usernameLen passwdLen session : Nat}
    {username passwd payload : Bytes} (fits : session < 256 ^ hSessionId)
    (isPart : bytes <+: layout opcode flag usernameLen passwdLen session username passwd payload)
    (arrived : sessionIdOffset + hSessionId ≤ bytes.length) :
    headerSessionId bytes = UInt32.ofNat session := by
  have front : ((layout opcode flag usernameLen passwdLen session username passwd payload).drop
      sessionIdOffset).take hSessionId = toBigEndian hSessionId session := by
    let before := toBigEndian hOpcode opcode ++ (toBigEndian hUserFlag flag ++
      (toBigEndian hReqReserved 0 ++ (toBigEndian hUsernameLen usernameLen ++
        toBigEndian hPasswordLen passwdLen)))
    have counted : before.length = sessionIdOffset := by
      simp [before, sessionIdOffset, hOpcode, hUserFlag, hReqReserved, hUsernameLen,
        hPasswordLen]
    have split : layout opcode flag usernameLen passwdLen session username passwd payload =
        before ++ (toBigEndian hSessionId session ++ (username ++ (passwd ++
          (toBigEndian hPayloadLen payload.length ++ payload)))) := by
      simp [layout, before]
    rw [split, List.drop_left' counted, List.take_left' (toBigEndian_length _ _)]
  rw [List.prefix_iff_eq_take] at isPart
  rw [headerSessionId, isPart, List.drop_take, List.take_take,
    Nat.min_eq_left (Nat.le_sub_of_add_le' arrived), front, ofBigEndian_toBigEndian fits]

section Steps

variable {Object : Type} {sha : Sha256} {timeout : Int} {hashlib : Hashlib Object}
  {digits : UnicodeDigits}

theorem request_session (hashlib : Hashlib Object) (link : Link) (client : ClientRequest) :
    (link.connection (outgoing hashlib link.send client)).request.sessionId = 0 ∨
      (link.connection (outgoing hashlib link.send client)).request.sessionId =
        UInt32.ofNat client.sessionId := by
  rcases readClientReq_sessionId link.calloc
    (link.connection (outgoing hashlib link.send client)).stream with isZero | ⟨arrived, isHeader⟩
  · exact .inl isZero
  · right
    cases sent : outgoing hashlib link.send client with
    | error error =>
        rw [sent] at arrived
        exact absurd arrived (Nat.not_succ_le_zero _)
    | ok bytes =>
        rw [sent] at arrived isHeader
        rcases outgoing_ok sent with ⟨whole, isRequest, isPart⟩
        rcases clientRequest_ok isRequest with ⟨payload, _, _, _, fits, _, rfl⟩
        exact isHeader.trans (headerSessionId_layout fits isPart arrived)

theorem session_resume {timedOut : Bool} {stage : Stage} {client : ClientRequest}
    {outcome : Except PyError (ServerResponse × ClientRequest)} {session : UInt32}
    (goesOn : (Shell.resume digits hashlib timedOut stage client outcome).session =
      some session) :
    ∃ resp after, outcome = .ok (resp, after) ∧ resp.returnCode ≠ sessionError ∧
      (UInt32.ofNat after.sessionId = session ∨ UInt32.ofNat resp.sessionId = session) := by
  cases outcome with
  | error error =>
      rw [Shell.resume, Client.Shell.session_handle] at goesOn
      cases goesOn
  | ok result =>
      rcases result with ⟨resp, after⟩
      refine ⟨resp, after, rfl, ?_⟩
      simp only [Shell.resume] at goesOn
      split at goesOn
      · split at goesOn
        · rw [Client.Shell.session_exit] at goesOn
          cases goesOn
        · rename_i success
          rw [Client.Shell.session_eq_some] at goesOn
          refine ⟨?_, .inr goesOn.2.2⟩
          intro expired
          simp [ServerResponse.successful, expired, sessionError, successResponse] at success
      · split at goesOn
        · rw [Client.Shell.session_handle] at goesOn
          cases goesOn
        · rename_i reacted
          rw [Client.Shell.session_eq_some] at goesOn
          refine ⟨?_, .inl goesOn.2.2⟩
          intro expired
          have failed : resp.successful = false := by
            simp [ServerResponse.successful, expired, sessionError, successResponse]
          simp [parseAction, failed, expired] at reacted

/-- A shell that goes on after a connection is in the session it was in, or in one that was
free. -/
theorem exchange_session {env : Env} {link : Link} {server : Server} {client : ClientRequest}
    {done : Exchanged} (exchanged : exchange env sha timeout hashlib link server client = .ok done)
    (inMemory : done.served.InMemory) {timedOut : Bool} {stage : Stage} {session : UInt32}
    (goesOn : (Shell.resume digits hashlib timedOut stage client done.outcome).session =
      some session) :
    (session = UInt32.ofNat client.sessionId ∧
        (done.served.server.db.seshHtable.get session = server.db.seshHtable.get session ∨
          done.served.server.db.seshHtable.get session ≠ none)) ∨
      server.db.seshHtable.get session = none ∧
        done.served.server.db.seshHtable.get session ≠ none := by
  have nonzero := (Client.Shell.session_eq_some.mp goesOn).2.1
  rcases session_resume goesOn with ⟨resp, after, got, notTold, isSession⟩
  rcases exchange_conveys exchanged inMemory got with
    ⟨response, sessionId, answered, rfl, rfl⟩
  have same : sessionId = session := by
    rcases isSession with isSession | isSession
    · rw [← isSession]
      exact (UInt32.ofNat_toNat).symm
    · rw [← isSession]
      exact (UInt32.ofNat_toNat).symm
  subst same
  rcases (exchange_ok exchanged).1 with ⟨_, unserved⟩ | ⟨_, serves⟩
  · rw [unserved] at answered
    cases answered
  · have named : ∀ session : UInt32, session ≠ 0 → session =
        (link.connection (outgoing hashlib link.send client)).request.sessionId →
          session = UInt32.ofNat client.sessionId := by
      intro session nonzero same
      rcases request_session hashlib link client with isZero | isOwn
      · exact absurd (same.trans isZero) nonzero
      · exact same.trans isOwn
    cases serveClient_handsOut serves answered with
    | none' isZero => exact absurd isZero nonzero
    | refused same failed kept => exact .inl ⟨named _ nonzero same, .inl (by rw [kept])⟩
    | expired same code =>
        apply absurd _ notTold
        change response.result.toByte.toNat = sessionError
        rw [code]
        rfl
    | fresh free stored => exact .inr ⟨free, by rw [stored]; exact Option.some_ne_none _⟩
    | refreshed same stored =>
        exact .inl ⟨named _ nonzero same, .inr (by rw [stored]; exact Option.some_ne_none _)⟩

theorem exchange_entries {env : Env} {link : Link} {server : Server} {client : ClientRequest}
    {done : Exchanged} (exchanged : exchange env sha timeout hashlib link server client = .ok done)
    {session : UInt32} (nonzero : session ≠ 0) (other : session ≠ UInt32.ofNat client.sessionId)
    (present : server.db.seshHtable.get session ≠ none) :
    done.served.server.db.seshHtable.get session = server.db.seshHtable.get session := by
  rcases (exchange_ok exchanged).1 with ⟨_, unserved⟩ | ⟨_, serves⟩
  · rw [unserved]
  · apply serveClient_entries serves present
    intro same
    rcases request_session hashlib link client with isZero | isOwn
    · exact nonzero (same.trans isZero)
    · exact other (same.trans isOwn)

variable {Person : Type} [DecidableEq Person]

theorem ShellStep.tenancy {state next : Shells Person} {input : ShellInput Person}
    {answer : Option (ActResp × UInt32)} (apart : state.tenancy.Apart)
    (step : ShellStep sha timeout hashlib digits state input answer next) :
    Tenancy.Step input.mover state.tenancy next.tenancy := by
  cases step with
  | stays person typed disk env link timedOut shell turn =>
      have goesOn := Shell.turn_goesOn disk (state.shells person) typed
      rw [turn] at goesOn
      constructor
      · intro other rests
        have different : other ≠ person := fun same => rests (congrArg some same.symm)
        exact congrArg Client.Shell.session (Function.update_of_ne different _ _)
      · intros
        rfl
      · intro mover session moves holds
        cases moves
        have isShell : shell.session = some session := by
          rw [← holds]
          exact congrArg Client.Shell.session (Function.update_self person shell state.shells).symm
        rw [Client.Shell.session_eq_some] at isShell
        rcases goesOn with exited | ⟨sameStage, sameSession⟩
        · exact absurd exited isShell.1
        · have held : state.tenancy.held person = some session := by
            apply Client.Shell.session_eq_some.mpr
            rw [← sameStage, ← sameSession]
            exact isShell
          exact ⟨apart.known person session held, .inl held⟩
  | connects person typed disk env link timedOut client done turn exchanged inMemory =>
      have goesOn := Shell.turn_goesOn disk (state.shells person) typed
      rw [turn] at goesOn
      have own : ∀ session, session ≠ 0 → session = UInt32.ofNat client.sessionId →
          state.tenancy.held person = some session := by
        intro session nonzero same
        apply Client.Shell.session_eq_some.mpr
        rw [← goesOn.2]
        exact ⟨goesOn.1, nonzero, same.symm⟩
      constructor
      · intro other rests
        have different : other ≠ person := fun same => rests (congrArg some same.symm)
        exact congrArg Client.Shell.session (Function.update_of_ne different _ _)
      · intro other session rests held
        have nonzero := (Client.Shell.session_eq_some.mp held).2.1
        apply exchange_entries exchanged nonzero _ (apart.known other session held)
        intro same
        have shared := apart.distinct person other session (own session nonzero same) held
        exact rests (congrArg some shared)
      · intro mover session moves holds
        cases moves
        have isShell : (Shell.resume digits hashlib timedOut (state.shells person).stage client
            done.outcome).session = some session := by
          rw [← holds]
          exact congrArg Client.Shell.session (Function.update_self person _ state.shells).symm
        have nonzero := (Client.Shell.session_eq_some.mp isShell).2.1
        rcases exchange_session exchanged inMemory isShell with
          ⟨same, kept | present⟩ | ⟨free, present⟩
        · have held := own session nonzero same
          refine ⟨?_, .inl held⟩
          change done.served.server.db.seshHtable.get session ≠ none
          rw [kept]
          exact apart.known person session held
        · exact ⟨present, .inl (own session nonzero same)⟩
        · exact ⟨present, .inr free⟩
  | stranger env connection served unknown serves =>
      constructor
      · intros
        rfl
      · intro other session rests held
        exact serveClient_entries serves (apart.known other session held)
          (unknown other session held).symm
      · intro mover session moves
        cases moves

/-! ## Runs -/

def Shells.Fresh (state : Shells Person) : Prop :=
  ∀ person, (state.shells person).session = none

/-- In every run of shells, with whatever failures on the way and whatever strangers beside
them, no two shells are in one session, the server knows the session of every shell, and as
long as a shell rests nobody ends its session or keeps it alive. -/
theorem shells_keep_apart {start middle final : Shells Person}
    {inputs later : List (ShellInput Person)} {answers answers' : List (Option (ActResp × UInt32))}
    (fresh : start.Fresh)
    (run : Trace (ShellStep sha timeout hashlib digits) start inputs answers middle)
    (goesOn : Trace (ShellStep sha timeout hashlib digits) middle later answers' final) :
    (∀ person other session, (middle.shells person).session = some session →
        (middle.shells other).session = some session → person = other) ∧
      ∀ person session, (middle.shells person).session = some session →
        ∃ last, middle.server.db.seshHtable.get session = some last ∧
          ((∀ input ∈ later, input.mover ≠ some person) →
            (final.shells person).session = some session ∧
              final.server.db.seshHtable.get session = some last) := by
  have stepped : ∀ {state : Shells Person} {input : ShellInput Person}
      {answer : Option (ActResp × UInt32)} {next : Shells Person}, state.tenancy.Apart →
      ShellStep sha timeout hashlib digits state input answer next →
        Tenancy.Step input.mover state.tenancy next.tenancy :=
    fun apart step => step.tenancy apart
  have apart : middle.tenancy.Apart :=
    Tenancy.run_apart Shells.tenancy ShellInput.mover stepped run (.nobody fresh)
  refine ⟨apart.distinct, ?_⟩
  intro person session held
  rcases Option.ne_none_iff_exists'.mp (apart.known person session held) with ⟨last, isLast⟩
  refine ⟨last, isLast, ?_⟩
  intro rests
  rcases Tenancy.run_rests Shells.tenancy ShellInput.mover stepped goesOn apart rests with
    ⟨same, entries⟩
  exact ⟨same.trans held, (entries session held).trans isLast⟩

end Steps

/-! `alice` logs in from two machines; then she leaves the second shell, and a stranger breaks
off a request in session 5. -/

def emptyDisk : LocalDisk where
  isDir _ := false
  isThere _ := false
  readBytes _ := none
  raises _ _ := true

def aliceShells : Shells Bool where
  server := serverOf alice
  shells _ := ⟨{ username := asciiText (ascii "alice") }, .password⟩

def aliceClient : ClientRequest :=
  { username := asciiText (ascii "alice"), password := asciiText (ascii "password") :
    ClientRequest }.setAuthHeaders

def aliceTypes (first : Bool) (env : Env) : ShellInput Bool :=
  .types first (.password (asciiText (ascii "password"))) emptyDisk env bytewiseLink false

def aliceLeaves : ShellInput Bool := .types false .raises emptyDisk quietEnv bytewiseLink false

def breaksOff (session : UInt8) : Connection where
  stream := ⟨[Act.localOperation.toByte, 0, 0, 0, 0, 5, 0, 8, 0, 0, 0, session], .closed⟩

def aliceAfter (done : Exchanged) : Shell :=
  Shell.resume asciiDigits (collecting passwordSha) false .password aliceClient done.outcome

def aliceView (done : Exchanged) : Option UInt32 × Stage × Option Bool :=
  ((aliceAfter done).session, (aliceAfter done).stage, done.served.response.map fun response =>
    decide (dataStreamSize response.1 < 2 ^ 63))

theorem inMemory_of_view {done : Exchanged} {session : Option UInt32} {stage : Stage}
    (view : aliceView done = (session, stage, some true)) : done.served.InMemory := by
  intro response sessionId answered
  have small := (Prod.mk.inj (Prod.mk.inj view).2).2
  rw [answered] at small
  exact of_decide_eq_true (Option.some.inj small)

theorem aliceLogins : ∃ first second,
    exchange quietEnv passwordSha 60 (collecting passwordSha) bytewiseLink (serverOf alice)
        aliceClient = .ok first ∧
      exchange laterEnv passwordSha 60 (collecting passwordSha) bytewiseLink first.served.server
        aliceClient = .ok second ∧
      aliceView first = (some 7, .prompt, some true) ∧
      aliceView second = (some 9, .prompt, some true) := by
  have seen : ∃ both, (do
      let first ← exchange quietEnv passwordSha 60 (collecting passwordSha) bytewiseLink
        (serverOf alice) aliceClient
      let second ← exchange laterEnv passwordSha 60 (collecting passwordSha) bytewiseLink
        first.served.server aliceClient
      return (first, second)) = .ok both ∧
      (aliceView both.1, aliceView both.2) =
        ((some 7, .prompt, some true), (some 9, .prompt, some true)) := by
    apply Fallible.exists_ok_of_seen
    decide +kernel
  rcases seen with ⟨both, ran, view⟩
  rcases Fallible.ok_of_bind_ok ran with ⟨first, exchanged, ran⟩
  rcases Fallible.ok_of_bind_ok ran with ⟨second, exchanged', ran⟩
  cases ran
  exact ⟨first, second, exchanged, exchanged', (Prod.mk.inj view).1, (Prod.mk.inj view).2⟩

theorem shells_keep_apart_alice :
    ∃ middle answers final answers',
      Trace (ShellStep passwordSha 60 (collecting passwordSha) asciiDigits) aliceShells
        [aliceTypes true quietEnv, aliceTypes false laterEnv] answers middle ∧
      Trace (ShellStep passwordSha 60 (collecting passwordSha) asciiDigits) middle
        [aliceLeaves, .stranger quietEnv (breaksOff 5)] answers' final ∧
      (middle.shells true).session = some 7 ∧ (middle.shells false).session = some 9 ∧
      (final.shells true).session = some 7 ∧ (final.shells false).session = none ∧
      final.server.db.seshHtable.get 7 = middle.server.db.seshHtable.get 7 := by
  rcases aliceLogins with ⟨first, second, exchanged, exchanged', view, view'⟩
  let opened : Shells Bool :=
    ⟨first.served.server, Function.update aliceShells.shells true (aliceAfter first)⟩
  let middle : Shells Bool :=
    ⟨second.served.server, Function.update opened.shells false (aliceAfter second)⟩
  let left' : Shells Bool :=
    ⟨middle.server, Function.update middle.shells false (Shell.exit (aliceAfter second).client)⟩
  have logins : Trace (ShellStep passwordSha 60 (collecting passwordSha) asciiDigits) aliceShells
      [aliceTypes true quietEnv, aliceTypes false laterEnv]
      [first.served.response, second.served.response] middle :=
    .cons (.connects true _ emptyDisk quietEnv bytewiseLink false aliceClient first rfl exchanged
        (inMemory_of_view view))
      (.cons (.connects false _ emptyDisk laterEnv bytewiseLink false aliceClient second rfl
        exchanged' (inMemory_of_view view')) (.nil _))
  have held : (middle.shells true).session = some 7 := (Prod.mk.inj view).1
  have held' : (middle.shells false).session = some 9 := (Prod.mk.inj view').1
  have leaves : ShellStep passwordSha 60 (collecting passwordSha) asciiDigits middle aliceLeaves
      none left' := by
    apply ShellStep.stays false .raises emptyDisk quietEnv bytewiseLink false
    have prompt : (aliceAfter second).stage = .prompt := (Prod.mk.inj (Prod.mk.inj view').2).1
    change (aliceAfter second).turn emptyDisk .raises = _
    simp only [Shell.turn, prompt]
  have stranger : ShellStep passwordSha 60 (collecting passwordSha) asciiDigits left'
      (.stranger quietEnv (breaksOff 5)) none
      ⟨left'.server.setSessions (left'.server.db.seshHtable.del 5), left'.shells⟩ := by
    apply ShellStep.stranger quietEnv (breaksOff 5) ⟨none, _⟩ _ rfl
    intro person session isHeld
    cases person with
    | true =>
        cases held.symm.trans isHeld
        decide
    | false => cases isHeld
  have goesOn := Trace.cons leaves (.cons stranger (.nil _))
  have apart := shells_keep_apart (fun _ => rfl) logins goesOn
  rcases apart.2 true 7 held with ⟨last, isLast, rests⟩
  have rested := rests (by simp [ShellInput.mover, aliceLeaves])
  exact ⟨middle, _, _, _, logins, goesOn, held, held', rested.1, rfl,
    rested.2.trans isLast.symm⟩

end FileTransfer
