import FileTransfer.Foundation.History
import FileTransfer.Guarantees.Mediation
import FileTransfer.Server.UserCalls

/-! # Account histories

A user logs in by what the requests so far have done to the account: the last create or
delete that was acknowledged counts, and requests that were refused do not.
-/

namespace FileTransfer

open Foundation Posix

/-! ## Events -/

inductive AccountEvent
  | created (name passwd : CString) (permission : Perms)
  | deleted (name : CString)
deriving DecidableEq

namespace AccountEvent

def name : AccountEvent → CString
  | created name _ _ => name
  | deleted name => name

def account (sha : Sha256) : AccountEvent → Option UserAccount
  | created name passwd permission => some ⟨name, permission, sha.digest passwd.bytes⟩
  | deleted _ => none

end AccountEvent

def UserCall.event : UserCall → Option AccountEvent
  | create (some username) (some passwd) permission =>
      some (.created username passwd permission)
  | remove (some username) => some (.deleted username)
  | _ => none

abbrev replayAccounts (sha : Sha256) (users : HashTable CString UserAccount)
    (events : List AccountEvent) : HashTable CString UserAccount :=
  History.replay AccountEvent.name (AccountEvent.account sha) users events

theorem UserCall.verdict_replays {sha : Sha256} {users table : HashTable CString UserAccount}
    {call : UserCall} (accepted : call.verdict sha users = .ok table) :
    table = replayAccounts sha users call.event.toList := by
  rcases verdict_cases accepted with
    ⟨name, passwd, permission, rfl, -, stored⟩ | ⟨name, account, rfl, -, deleted⟩
  · exact stored
  · exact deleted

/-! ## Requests -/

def UserPayload.userCall (payload : UserPayload) : Option UserCall :=
  match UsrAct.ofByte payload.userFlag with
  | some .createUser =>
      some (.create (payload.username.map CString.ofBuffer)
        (payload.passwd.map CString.ofBuffer) payload.userPerm)
  | some .deleteUser => some (.remove (payload.username.map CString.ofBuffer))
  | none => none

def WirePayload.userCall (request : WirePayload) : Option UserCall :=
  match Act.ofByte request.optCode, request.payload with
  | some .userOperation, .user payload => payload.userCall
  | _, _ => none

theorem WirePayload.userCall_some {request : WirePayload} {call : UserCall}
    (asked : request.userCall = some call) :
    Act.ofByte request.optCode = some .userOperation ∧
      ∃ payload, request.payload = .user payload ∧ payload.userCall = some call := by
  rw [userCall] at asked
  split at asked
  · rename_i payload opcode carried
    exact ⟨opcode, payload, carried, asked⟩
  · cases asked

theorem userAction_eq (env : Env) (sha : Sha256) (server : Server) (payload : UserPayload) :
    userAction env sha server payload =
      match payload.userCall with
      | some call => call.run env sha server
      | none => .ok (.opFailure, server) := by
  rw [userAction, UserPayload.userCall]
  cases UsrAct.ofByte payload.userFlag with
  | none => rfl
  | some act => cases act <;> rfl

theorem UserChange.asked {sha : Sha256} {user : UserAccount} {payload : UserPayload}
    {before after : HashTable CString UserAccount}
    (change : UserChange sha user payload before after) : payload.userCall ≠ none := by
  rw [UserPayload.userCall]
  cases change with
  | added name passwd named secret allowed capped fresh stored flag => simp [flag]
  | removed name account named admin present deleted flag => simp [flag]

def UserCall.Permitted (user : UserAccount) : UserCall → Prop
  | create _ _ permission => permission ≤ user.permission
  | remove _ => user.permission = Perms.admin

theorem performAction_userCall {env : Env} {sha : Sha256} {user : UserAccount}
    {server : Server} {request : WirePayload} {call : UserCall}
    (asked : request.userCall = some call) :
    (call.Permitted user ∧ performAction env sha user server request = (do
        let (code, after) ← call.run env sha server
        return (ctrlPopulateResp code, after))) ∨
      (¬ call.Permitted user ∧ performAction env sha user server request =
        .ok (ctrlPopulateResp .opPermissionError, server)) := by
  rcases WirePayload.userCall_some asked with ⟨opcode, payload, carried, meant⟩
  have action : userAction env sha server payload = call.run env sha server := by
    rw [userAction_eq, meant]
  rw [performAction, opcode]
  simp only [WirePayload.userPayload, carried, Fallible.ok_bind]
  rw [UserPayload.userCall] at meant
  cases flag : UsrAct.ofByte payload.userFlag with
  | none =>
      rw [flag] at meant
      cases meant
  | some act =>
      rw [flag] at meant
      cases act with
      | createUser =>
          cases meant
          by_cases higher : user.permission < payload.userPerm
          · exact .inr ⟨UInt8.not_le.mpr higher, if_pos higher⟩
          · rw [if_neg higher, action]
            exact .inl ⟨UInt8.not_lt.mp higher, rfl⟩
      | deleteUser =>
          cases meant
          by_cases other : Perms.admin ≠ user.permission
          · exact .inr ⟨other.symm, if_pos other⟩
          · rw [if_neg other, action]
            exact .inl ⟨(not_not.mp other).symm, rfl⟩

theorem performAction_noUserCall {env : Env} {sha : Sha256} {user : UserAccount}
    {server after : Server} {request : WirePayload} {response : ActResp}
    (asked : request.userCall = none)
    (done : performAction env sha user server request = .ok (response, after)) :
    after.db.usersHtable = server.db.usersHtable := by
  cases performAction_effect done with
  | nothing kept => rw [kept]
  | users payload table opcode carried change saved =>
      rw [WirePayload.userCall, opcode, carried] at asked
      exact absurd asked change.asked
  | files act payload code tree opcode permitted carried performed answered stored =>
      rw [stored]
      rfl

/-! ## Runs -/

/-- The event that a request was, once it was answered: only what was acknowledged
counts. -/
def accountEvent (request : WirePayload) (code : RetCode) : Option AccountEvent :=
  if code = .opSuccess then request.userCall.bind UserCall.event else none

def accountHistory (calls : List Call) (answers : List Handled) : List AccountEvent :=
  (calls.zip answers).flatMap fun (call, handled) =>
    (accountEvent call.request handled.response.result).toList

/-- A request about users that is not acknowledged changes neither the users nor the
files, and one that is puts the table in place that it asks for. -/
theorem CtrlStep.userCall {sha : Sha256} {server next : Server} {call : Call}
    {handled : Handled} {asked : UserCall} (step : CtrlStep sha server call handled next)
    (asks : call.request.userCall = some asked) :
    (handled.response.result ≠ .opSuccess ∧ next.db.usersHtable = server.db.usersHtable ∧
        next.tree = server.tree) ∨
      (handled.response.result = .opSuccess ∧
        asked.verdict sha server.db.usersHtable = .ok next.db.usersHtable) := by
  rcases step with ⟨done, rfl⟩
  cases ctrlParseAction_effect done with
  | refused code failed stranger result =>
      subst result
      exact .inl ⟨failed, rfl, rfl⟩
  | expired user check authentic checked failed result =>
      subst result
      exact .inl ⟨failed, rfl, rfl⟩
  | performed user check response after authentic checked passed action result =>
      subst result
      rcases performAction_userCall asks with ⟨_, performed⟩ | ⟨_, performed⟩
      · rw [performed] at action
        rcases Fallible.ok_of_bind_ok action with ⟨⟨code, served⟩, called, final⟩
        cases final
        rw [UserCall.run_eq, Server.setSessions_users] at called
        cases verdict : asked.verdict sha server.db.usersHtable with
        | error refusal =>
            rw [verdict] at called
            cases called
            exact .inl ⟨UserCall.verdict_refused verdict, rfl, rfl⟩
        | ok table =>
            rw [verdict] at called
            rcases saveUsers_ok called with ⟨acknowledged, stored, _⟩
            refine .inr ⟨acknowledged, ?_⟩
            rw [stored]
            rfl
      · rw [performed] at action
        cases action
        have refused : RetCode.opPermissionError ≠ .opSuccess := by decide
        exact .inl ⟨refused, rfl, rfl⟩

theorem CtrlStep.replays {sha : Sha256} {server next : Server} {call : Call}
    {handled : Handled} (step : CtrlStep sha server call handled next) :
    next.db.usersHtable = replayAccounts sha server.db.usersHtable
      (accountEvent call.request handled.response.result).toList := by
  rw [accountEvent]
  cases asks : call.request.userCall with
  | some asked =>
      rcases step.userCall asks with ⟨failed, kept, _⟩ | ⟨acknowledged, accepted⟩
      · rw [if_neg failed, kept]
        rfl
      · rw [if_pos acknowledged]
        exact UserCall.verdict_replays accepted
  | none =>
      have kept : next.db.usersHtable = server.db.usersHtable := by
        rcases step with ⟨done, rfl⟩
        cases ctrlParseAction_effect done with
        | refused code failed stranger result => rw [result]
        | expired user check authentic checked failed result =>
            rw [result]
            rfl
        | performed user check response after authentic checked passed action result =>
            rw [result]
            have same := performAction_noUserCall asks action
            rwa [Server.setSessions_users] at same
      rw [kept]
      split <;> rfl

theorem run_replays {sha : Sha256} {start final : Server} {calls : List Call}
    {answers : List Handled} (run : Trace (CtrlStep sha) start calls answers final) :
    final.db.usersHtable =
      replayAccounts sha start.db.usersHtable (accountHistory calls answers) := by
  induction run with
  | nil => rfl
  | cons step _ induction =>
      rw [induction, step.replays]
      exact (History.replay_append _ _ _ _ _).symm

/-! ## Logging in -/

/-- Who may log in as `account` after a history: the last event about the name created
the account with the password, or there was none and the account was there. -/
def Entitled (sha : Sha256) (start : HashTable CString UserAccount)
    (history : List AccountEvent) (name passwd : CString) (account : UserAccount) : Prop :=
  match History.lastAbout AccountEvent.name name history with
  | none => start.get name = some account ∧ account.hash = sha.digest passwd.bytes
  | some (.created _ secret permission) =>
      account = ⟨name, permission, sha.digest secret.bytes⟩ ∧
        sha.digest secret.bytes = sha.digest passwd.bytes
  | some (.deleted _) => False

theorem dbAuthenticateUser_ok_iff {sha : Sha256} {db : Db} {name passwd : CString}
    {account : UserAccount} :
    dbAuthenticateUser sha db (some name) (some passwd) = .ok (.ok account) ↔
      db.usersHtable.get name = some account ∧ account.hash = sha.digest passwd.bytes := by
  rw [dbAuthenticateUser]
  cases known : db.usersHtable.get name with
  | none => simp
  | some user =>
      simp only [hashByteArray, hashHashTMatch_eq, Fallible.ok_bind, decide_eq_true_eq]
      by_cases same : user.hash = sha.digest passwd.bytes
      · rw [if_pos same]
        constructor
        · intro accepted
          cases accepted
          exact ⟨rfl, same⟩
        · rintro ⟨isUser, _⟩
          cases isUser
          rfl
      · rw [if_neg same]
        constructor
        · intro accepted
          cases accepted
        · rintro ⟨isUser, right⟩
          cases isUser
          exact absurd right same

theorem entitled_iff (sha : Sha256) (start : HashTable CString UserAccount)
    (history : List AccountEvent) (name passwd : CString) (account : UserAccount) :
    Entitled sha start history name passwd account ↔
      (replayAccounts sha start history).get name = some account ∧
        account.hash = sha.digest passwd.bytes := by
  rw [History.get_replay, Entitled]
  cases last : History.lastAbout AccountEvent.name name history with
  | none => rfl
  | some event =>
      have isAbout := History.key_of_lastAbout _ last
      cases event with
      | created name' secret permission =>
          have sameName : name' = name := isAbout
          subst sameName
          simp only [AccountEvent.account, Option.some.injEq]
          constructor
          · rintro ⟨rfl, right⟩
            exact ⟨rfl, right⟩
          · rintro ⟨rfl, right⟩
            exact ⟨rfl, right⟩
      | deleted name' => simp [AccountEvent.account]

/-- Whoever the history of a run entitles can log in after it, and nobody else, and a
request about users that is not acknowledged leaves users and files as they are. -/
theorem authentication_follows_history {sha : Sha256} {start final : Server}
    {calls : List Call} {answers : List Handled}
    (run : Trace (CtrlStep sha) start calls answers final) :
    (∀ name passwd account,
      dbAuthenticateUser sha final.db (some name) (some passwd) = .ok (.ok account) ↔
        Entitled sha start.db.usersHtable (accountHistory calls answers) name passwd account) ∧
    ∀ {server next : Server} {call : Call} {handled : Handled},
      CtrlStep sha server call handled next → call.request.userCall ≠ none →
      handled.response.result ≠ .opSuccess →
        next.db.usersHtable = server.db.usersHtable ∧ next.tree = server.tree := by
  constructor
  · intro name passwd account
    rw [dbAuthenticateUser_ok_iff, entitled_iff, run_replays run]
  · intro server next call handled step asks failed
    rcases Option.ne_none_iff_exists'.mp asks with ⟨asked, asksFor⟩
    rcases step.userCall asksFor with ⟨_, sameUsers, sameTree⟩ | ⟨acknowledged, _⟩
    · exact ⟨sameUsers, sameTree⟩
    · exact absurd acknowledged failed

theorem authentication_follows_history_create :
    ∃ first second, ctrlParseAction quietEnv passwordSha 60
        (serverOf (accountNamed "admin" Perms.admin))
        (createRequest "admin" "carol" Perms.readWrite) = .ok first ∧
      ctrlParseAction laterEnv passwordSha 60 first.server
        (createRequest "carol" "dave" Perms.read) = .ok second ∧
      dbAuthenticateUser passwordSha second.server.db (some (CString.ofBuffer (ascii "dave")))
        (some (CString.ofBuffer (ascii "password"))) =
          .ok (.ok (accountNamed "dave" Perms.read)) := by
  refine ⟨_, _, rfl, rfl, ?_⟩
  have run : Trace (CtrlStep passwordSha) (serverOf (accountNamed "admin" Perms.admin))
      [⟨quietEnv, 60, createRequest "admin" "carol" Perms.readWrite⟩,
        ⟨laterEnv, 60, createRequest "carol" "dave" Perms.read⟩] _ _ :=
    .cons ⟨rfl, rfl⟩ (.cons ⟨rfl, rfl⟩ (.nil _))
  apply ((authentication_follows_history run).1 _ _ _).mpr
  exact ⟨rfl, rfl⟩

end FileTransfer
