import FileTransfer.Server.Ctrl
import FileTransfer.Server.Storage

/-! # What handling a request can do

One lemma for each layer of `ctrl_parse_action` says everything the layer can
do. What is proved about requests elsewhere follows from these cases.
-/

namespace FileTransfer

open Foundation Posix

/-! ## Authentication -/

def Authentic (sha : Sha256) (users : HashTable CString UserAccount)
    (request : WirePayload) (user : UserAccount) : Prop :=
  ∃ name passwd, request.username = some name ∧ request.passwd = some passwd ∧
    users.get (CString.ofBuffer name) = some user ∧
    user.hash = sha.digest (CString.ofBuffer passwd).bytes

theorem Authentic.unique {sha : Sha256} {users : HashTable CString UserAccount}
    {request : WirePayload} {user other : UserAccount}
    (authentic : Authentic sha users request user)
    (authentic' : Authentic sha users request other) : user = other := by
  rcases authentic with ⟨name, _, named, _, known, _⟩
  rcases authentic' with ⟨name', _, named', _, known', _⟩
  rw [named, Option.some.injEq] at named'
  rw [← named', known] at known'
  exact Option.some.inj known'

theorem authenticate_total (sha : Sha256) (db : Db) (request : WirePayload) :
    (∃ user, authenticate sha db request = .ok (.ok user) ∧
        Authentic sha db.usersHtable request user) ∨
      ∃ code, authenticate sha db request = .ok (.error code) ∧ code ≠ .opSuccess ∧
        ∀ user, ¬ Authentic sha db.usersHtable request user := by
  rw [authenticate]
  cases named : request.username with
  | none => exact .inr ⟨_, rfl, by decide, by simp [Authentic, named]⟩
  | some name =>
      cases secret : request.passwd with
      | none => exact .inr ⟨_, rfl, by decide, by simp [Authentic, secret]⟩
      | some passwd =>
          simp only [Option.map_some, dbAuthenticateUser, hashByteArray]
          cases known : db.usersHtable.get (CString.ofBuffer name) with
          | none => exact .inr ⟨_, rfl, by decide, by simp [Authentic, named, known]⟩
          | some user =>
              by_cases same : user.hash = sha.digest (CString.ofBuffer passwd).bytes
              · exact .inl ⟨user, by simp [same], name, passwd, named, secret, known, same⟩
              · refine .inr ⟨.opUserAuth, by simp [same], by decide, ?_⟩
                simpa [Authentic, named, secret, known] using same

theorem authenticate_ok_iff {sha : Sha256} {db : Db} {request : WirePayload}
    {user : UserAccount} :
    authenticate sha db request = .ok (.ok user) ↔
      Authentic sha db.usersHtable request user := by
  rcases authenticate_total sha db request with
    ⟨other, accepted, authentic⟩ | ⟨code, refused, _, none⟩
  · rw [accepted]
    simp only [Except.ok.injEq]
    constructor
    · rintro rfl
      exact authentic
    · exact authentic.unique
  · rw [refused]
    simp [none user]

/-! ## The session check -/

def SessionValid (env : Env) (timeout : Int) (table : HashTable UInt32 Int)
    (sessionId : UInt32) : Prop :=
  sessionId = 0 ∨
    ∃ sessionTime, table.get sessionId = some sessionTime ∧
      env.time - sessionTime ≤ timeout

theorem unusedSession_fresh {table : HashTable UInt32 Int} {rand : List Nat}
    {sesh : UInt32} (drawn : unusedSession table rand = .ok sesh) :
    table.get sesh = none := by
  fun_induction unusedSession table rand with
  | case1 first second third fourth rand sesh' taken induction => exact induction drawn
  | case2 first second third fourth rand sesh' free =>
      rw [Except.ok.injEq] at drawn
      rw [← drawn]
      exact (HashTable.keyExists_eq_false_iff _ _).mp (by simpa using free)
  | case3 => cases drawn

/-- The session check issues a new session, refuses an unknown one, expires an
old one, or refreshes a live one. -/
theorem checkSession_cases {env : Env} {timeout : Int} {table : HashTable UInt32 Int}
    {sessionId : UInt32} {check : SessionCheck}
    (checked : checkSession env timeout table sessionId = .ok check) :
    (sessionId = 0 ∧ ∃ fresh, table.get fresh = none ∧
        check = ⟨.opSuccess, fresh, table.set fresh env.time⟩) ∨
      (sessionId ≠ 0 ∧ table.get sessionId = none ∧
        check = ⟨.opSessionError, sessionId, table⟩) ∨
      (sessionId ≠ 0 ∧ ∃ sessionTime, table.get sessionId = some sessionTime ∧
        env.time - sessionTime > timeout ∧
        check = ⟨.opSessionError, sessionId, table.del sessionId⟩) ∨
      (sessionId ≠ 0 ∧ ∃ sessionTime, table.get sessionId = some sessionTime ∧
        env.time - sessionTime ≤ timeout ∧
        check = ⟨.opSuccess, sessionId, table.set sessionId env.time⟩) := by
  rw [checkSession] at checked
  by_cases isNew : sessionId = 0
  · rw [if_pos isNew, generateSessionId] at checked
    rcases Fallible.ok_of_bind_ok checked with ⟨⟨fresh, after⟩, generated, final⟩
    rcases Fallible.ok_of_bind_ok generated with ⟨sesh, drawn, stored⟩
    cases stored
    cases final
    exact .inl ⟨isNew, fresh, unusedSession_fresh drawn, rfl⟩
  · rw [if_neg isNew] at checked
    cases known : table.get sessionId with
    | none =>
        simp only [known, Except.ok.injEq] at checked
        exact .inr (.inl ⟨isNew, rfl, checked.symm⟩)
    | some sessionTime =>
        simp only [known] at checked
        split at checked
        · rename_i expired
          cases checked
          exact .inr (.inr (.inl ⟨isNew, sessionTime, rfl, expired, rfl⟩))
        · rename_i alive
          cases checked
          exact .inr (.inr (.inr ⟨isNew, sessionTime, rfl, not_lt.mp alive, rfl⟩))

theorem checkSession_success_iff {env : Env} {timeout : Int}
    {table : HashTable UInt32 Int} {sessionId : UInt32} {check : SessionCheck}
    (checked : checkSession env timeout table sessionId = .ok check) :
    check.result = .opSuccess ↔ SessionValid env timeout table sessionId := by
  rcases checkSession_cases checked with
    ⟨isNew, fresh, _, rfl⟩ | ⟨named, unknown, rfl⟩ |
      ⟨named, sessionTime, known, expired, rfl⟩ | ⟨named, sessionTime, known, alive, rfl⟩
  · simp [SessionValid, isNew]
  · simp [SessionValid, named, unknown]
  · have expired' : ¬ env.time - sessionTime ≤ timeout := not_le.mpr expired
    simp only [SessionValid, named, known, Option.some.injEq, exists_eq_left', expired',
      reduceCtorEq, or_self]
  · exact iff_of_true rfl (.inr ⟨sessionTime, known, alive⟩)

theorem checkSession_frame {env : Env} {timeout : Int} {table : HashTable UInt32 Int}
    {sessionId : UInt32} {check : SessionCheck}
    (checked : checkSession env timeout table sessionId = .ok check) :
    ∃ touched, ∀ other, other ≠ touched → check.table.get other = table.get other := by
  rcases checkSession_cases checked with
    ⟨_, fresh, _, rfl⟩ | ⟨_, _, rfl⟩ | ⟨_, _, _, _, rfl⟩ | ⟨_, _, _, _, rfl⟩
  · exact ⟨fresh, fun other different => HashTable.get_set_ne _ _ different⟩
  · exact ⟨0, fun _ _ => rfl⟩
  · exact ⟨sessionId, fun other different => HashTable.get_del_ne _ different⟩
  · exact ⟨sessionId, fun other different => HashTable.get_set_ne _ _ different⟩

/-! ## User requests -/

inductive UserChange (sha : Sha256) (user : UserAccount) (payload : UserPayload)
    (before after : HashTable CString UserAccount) : Prop
  | added (name passwd : Bytes)
      (named : payload.username = some name)
      (secret : payload.passwd = some passwd)
      (allowed : credentialsAllowed (CString.ofBuffer name) (CString.ofBuffer passwd)
        = true)
      (capped : payload.userPerm ≤ user.permission)
      (fresh : before.get (CString.ofBuffer name) = none)
      (stored : after = before.set (CString.ofBuffer name)
        ⟨CString.ofBuffer name, payload.userPerm,
          sha.digest (CString.ofBuffer passwd).bytes⟩)
      (flag : UsrAct.ofByte payload.userFlag = some .createUser)
  | removed (name : Bytes) (account : UserAccount)
      (named : payload.username = some name)
      (admin : user.permission = Perms.admin)
      (present : before.get (CString.ofBuffer name) = some account)
      (deleted : after = before.del (CString.ofBuffer name))
      (flag : UsrAct.ofByte payload.userFlag = some .deleteUser)

theorem dbCreateUser_cases {env : Env} {sha : Sha256} {server after : Server}
    {username passwd : Option CString} {permission : Perms} {code : RetCode}
    (created : dbCreateUser env sha server username passwd permission = .ok (code, after)) :
    (code ≠ .opSuccess ∧ after = server) ∨
      ∃ name secret, username = some name ∧ passwd = some secret ∧
        credentialsAllowed name secret = true ∧
        server.db.usersHtable.get name = none ∧
        saveUsers env sha server
          (server.db.usersHtable.set name ⟨name, permission, sha.digest secret.bytes⟩) =
            .ok (code, after) := by
  cases username with
  | none =>
      cases created
      exact .inl ⟨by decide, rfl⟩
  | some name =>
      cases passwd with
      | none =>
          cases created
          exact .inl ⟨by decide, rfl⟩
      | some secret =>
          simp only [dbCreateUser] at created
          split at created
          · cases created
            exact .inl ⟨by decide, rfl⟩
          · rename_i allowed
            split at created
            · cases created
              exact .inl ⟨by decide, rfl⟩
            · rename_i fresh
              exact .inr ⟨name, secret, rfl, rfl, by simpa using allowed,
                (HashTable.keyExists_eq_false_iff _ _).mp (by simpa using fresh), created⟩

theorem dbRemoveUser_cases {env : Env} {sha : Sha256} {server after : Server}
    {username : Option CString} {code : RetCode}
    (removed : dbRemoveUser env sha server username = .ok (code, after)) :
    (code ≠ .opSuccess ∧ after = server) ∨
      ∃ name account, username = some name ∧
        server.db.usersHtable.get name = some account ∧
        saveUsers env sha server (server.db.usersHtable.del name) = .ok (code, after) := by
  cases username with
  | none =>
      cases removed
      exact .inl ⟨by decide, rfl⟩
  | some name =>
      simp only [dbRemoveUser] at removed
      split at removed
      · cases removed
        exact .inl ⟨by decide, rfl⟩
      · rename_i present
        rcases (HashTable.keyExists_iff _ _).mp (by simpa using present) with
          ⟨account, found⟩
        exact .inr ⟨name, account, rfl, found, removed⟩

/-! ## Requests -/

/-- A request that is carried out does one of three things: nothing to the
state, a saved change of the user table, or a change of the files. -/
inductive ActionEffect (env : Env) (sha : Sha256) (user : UserAccount)
    (server : Server) (request : WirePayload) (response : ActResp) (after : Server) :
    Prop
  | nothing (kept : after = server)
  | users (payload : UserPayload) (table : HashTable CString UserAccount)
      (opcode : Act.ofByte request.optCode = some .userOperation)
      (carried : request.payload = .user payload)
      (change : UserChange sha user payload server.db.usersHtable table)
      (saved : saveUsers env sha server table = .ok (.opSuccess, after))
  | files (act : Act) (payload : StdPayload) (code : RetCode) (tree : FileTree)
      (opcode : Act.ofByte request.optCode = some act)
      (permitted : Perms.readWrite ≤ user.permission)
      (carried : request.payload = .std payload)
      (performed :
        act = .deleteRemoteFile ∧ doDelFile env server payload = .ok (code, tree) ∨
        act = .makeRemoteDirectory ∧ doMakeDir env server payload = .ok (code, tree) ∨
        act = .putRemoteFile ∧ doPutFile env server payload = .ok (code, tree))
      (answered : response = ctrlPopulateResp code)
      (stored : after = server.setTree tree)

theorem stdPayload_ok {request : WirePayload} {payload : StdPayload}
    (carried : request.stdPayload = .ok payload) : request.payload = .std payload := by
  rw [WirePayload.stdPayload] at carried
  split at carried <;> cases carried
  assumption

theorem userPayload_ok {request : WirePayload} {payload : UserPayload}
    (carried : request.userPayload = .ok payload) : request.payload = .user payload := by
  rw [WirePayload.userPayload] at carried
  split at carried <;> cases carried
  assumption

theorem writeAction_cases {user : UserAccount} {server after : Server}
    {request : WirePayload} {response : ActResp}
    {action : Server → StdPayload → Except Fault (RetCode × FileTree)}
    (done : writeAction user server request action = .ok (response, after)) :
    (user.permission < Perms.readWrite ∧
        response = ctrlPopulateResp .opPermissionError ∧ after = server) ∨
      ∃ payload code tree, Perms.readWrite ≤ user.permission ∧
        request.payload = .std payload ∧ action server payload = .ok (code, tree) ∧
        response = ctrlPopulateResp code ∧ after = server.setTree tree := by
  rw [writeAction] at done
  split at done
  · rename_i low
    cases done
    exact .inl ⟨low, rfl, rfl⟩
  · rename_i enough
    rcases Fallible.ok_of_bind_ok done with ⟨payload, carried, done⟩
    rcases Fallible.ok_of_bind_ok done with ⟨⟨code, tree⟩, acted, final⟩
    cases final
    exact .inr ⟨payload, code, tree, UInt8.not_lt.mp enough, stdPayload_ok carried, acted,
      rfl, rfl⟩

theorem performAction_effect {env : Env} {sha : Sha256} {user : UserAccount}
    {server after : Server} {request : WirePayload} {response : ActResp}
    (done : performAction env sha user server request = .ok (response, after)) :
    ActionEffect env sha user server request response after := by
  have writes : ∀ (act : Act)
      (action : Server → StdPayload → Except Fault (RetCode × FileTree)),
      Act.ofByte request.optCode = some act →
      (∀ payload code tree, action server payload = .ok (code, tree) →
        act = .deleteRemoteFile ∧ doDelFile env server payload = .ok (code, tree) ∨
        act = .makeRemoteDirectory ∧ doMakeDir env server payload = .ok (code, tree) ∨
        act = .putRemoteFile ∧ doPutFile env server payload = .ok (code, tree)) →
      writeAction user server request action = .ok (response, after) →
      ActionEffect env sha user server request response after := by
    intro act action opcode which written
    rcases writeAction_cases written with
      ⟨_, _, kept⟩ | ⟨payload, code, tree, permitted, carried, acted, answered, stored⟩
    · exact .nothing kept
    · exact .files act payload code tree opcode permitted carried
        (which payload code tree acted) answered stored
  rw [performAction] at done
  split at done
  · cases done
    exact .nothing rfl
  · rename_i opcode
    rcases Fallible.ok_of_bind_ok done with ⟨payload, carried, done⟩
    have carried' := userPayload_ok carried
    split at done
    · rename_i flag
      split at done
      · cases done
        exact .nothing rfl
      · rename_i capped
        simp only [userAction, flag] at done
        rcases Fallible.ok_of_bind_ok done with ⟨⟨code, after'⟩, created, final⟩
        cases final
        rcases dbCreateUser_cases created with
          ⟨_, rfl⟩ | ⟨name, secret, named, hidden, allowed, fresh, saved⟩
        · exact .nothing rfl
        · rcases Option.map_eq_some_iff.mp named with ⟨nameBytes, nameGiven, rfl⟩
          rcases Option.map_eq_some_iff.mp hidden with ⟨passBytes, passGiven, rfl⟩
          cases (saveUsers_ok saved).1
          exact .users payload _ opcode carried'
            (.added nameBytes passBytes nameGiven passGiven allowed
              (UInt8.not_lt.mp capped) fresh rfl flag) saved
    · rename_i flag
      split at done
      · cases done
        exact .nothing rfl
      · rename_i admin
        simp only [userAction, flag] at done
        rcases Fallible.ok_of_bind_ok done with ⟨⟨code, after'⟩, removed, final⟩
        cases final
        rcases dbRemoveUser_cases removed with
          ⟨_, rfl⟩ | ⟨name, account, named, present, saved⟩
        · exact .nothing rfl
        · rcases Option.map_eq_some_iff.mp named with ⟨nameBytes, nameGiven, rfl⟩
          cases (saveUsers_ok saved).1
          exact .users payload _ opcode carried'
            (.removed nameBytes account nameGiven (not_not.mp admin).symm present rfl flag)
            saved
    · cases done
      exact .nothing rfl
  · rename_i opcode
    exact writes _ _ opcode (fun _ _ _ acted => .inl ⟨rfl, acted⟩) done
  · rename_i opcode
    exact writes _ _ opcode (fun _ _ _ acted => .inr (.inl ⟨rfl, acted⟩)) done
  · rename_i opcode
    exact writes _ _ opcode (fun _ _ _ acted => .inr (.inr ⟨rfl, acted⟩)) done
  · rcases Fallible.ok_of_bind_ok done with ⟨payload, _, done⟩
    rcases Fallible.ok_of_bind_ok done with ⟨listing, _, final⟩
    cases final
    exact .nothing rfl
  · rcases Fallible.ok_of_bind_ok done with ⟨payload, _, done⟩
    rcases Fallible.ok_of_bind_ok done with ⟨listing, _, final⟩
    cases final
    exact .nothing rfl
  · cases done
    exact .nothing rfl

theorem ActionEffect.sessions {env : Env} {sha : Sha256} {user : UserAccount}
    {server after : Server} {request : WirePayload} {response : ActResp}
    (effect : ActionEffect env sha user server request response after) :
    after.db.seshHtable = server.db.seshHtable := by
  cases effect with
  | nothing kept => rw [kept]
  | users payload table opcode carried change saved =>
      rw [(saveUsers_ok saved).2.1]
      rfl
  | files act payload code tree opcode permitted carried performed answered stored =>
      rw [stored]
      rfl

inductive RequestEffect (env : Env) (sha : Sha256) (timeout : Int) (server : Server)
    (request : WirePayload) (handled : Handled) : Prop
  | refused (code : RetCode) (failed : code ≠ .opSuccess)
      (stranger : ∀ user, ¬ Authentic sha server.db.usersHtable request user)
      (result : handled = ⟨ctrlPopulateResp code, request.sessionId, server⟩)
  | expired (user : UserAccount) (check : SessionCheck)
      (authentic : Authentic sha server.db.usersHtable request user)
      (checked : checkSession env timeout server.db.seshHtable request.sessionId =
        .ok check)
      (failed : check.result ≠ .opSuccess)
      (result : handled = ⟨ctrlPopulateResp check.result, check.sessionId,
        server.setSessions check.table⟩)
  | performed (user : UserAccount) (check : SessionCheck) (response : ActResp)
      (after : Server)
      (authentic : Authentic sha server.db.usersHtable request user)
      (checked : checkSession env timeout server.db.seshHtable request.sessionId =
        .ok check)
      (passed : check.result = .opSuccess)
      (action : performAction env sha user (server.setSessions check.table) request =
        .ok (response, after))
      (result : handled = ⟨response, check.sessionId, after⟩)

theorem ctrlParseAction_effect {env : Env} {sha : Sha256} {timeout : Int}
    {server : Server} {request : WirePayload} {handled : Handled}
    (done : ctrlParseAction env sha timeout server request = .ok handled) :
    RequestEffect env sha timeout server request handled := by
  rw [ctrlParseAction] at done
  rcases authenticate_total sha server.db request with
    ⟨user, accepted, authentic⟩ | ⟨code, refused, failed, stranger⟩
  · rw [accepted] at done
    simp only [Fallible.ok_bind] at done
    rcases Fallible.ok_of_bind_ok done with ⟨check, checked, done⟩
    split at done
    · rename_i failed
      cases done
      exact .expired user check authentic checked failed rfl
    · rename_i passed
      rcases Fallible.ok_of_bind_ok done with ⟨⟨response, after⟩, action, final⟩
      cases final
      exact .performed user check response after authentic checked (not_not.mp passed)
        action rfl
  · rw [refused] at done
    cases done
    exact .refused code failed stranger rfl

theorem ctrlParseAction_carries {env : Env} {sha : Sha256} {timeout : Int}
    {server : Server} {request : WirePayload} {user : UserAccount} {check : SessionCheck}
    (authentic : Authentic sha server.db.usersHtable request user)
    (checked : checkSession env timeout server.db.seshHtable request.sessionId = .ok check)
    (passed : check.result = .opSuccess) :
    ctrlParseAction env sha timeout server request = (do
      let (response, after) ←
        performAction env sha user (server.setSessions check.table) request
      return ⟨response, check.sessionId, after⟩) := by
  rw [ctrlParseAction, authenticate_ok_iff.mpr authentic]
  simp only [Fallible.ok_bind, checked, passed, ne_eq, not_true, if_false]

/-! ## Runs -/

structure Call where
  env : Env
  timeout : Int
  request : WirePayload

def CtrlStep (sha : Sha256) (server : Server) (call : Call) (handled : Handled)
    (next : Server) : Prop :=
  ctrlParseAction call.env sha call.timeout server call.request = .ok handled ∧
    handled.server = next

/-- The user table after a request is the one before it, or differs by a change
that an authenticated user was entitled to, and that was saved unless the server
is one that saves nothing. -/
theorem CtrlStep.users {sha : Sha256} {server next : Server} {call : Call}
    {handled : Handled} (step : CtrlStep sha server call handled next) :
    next.db.usersHtable = server.db.usersHtable ∨
      ∃ user payload, Authentic sha server.db.usersHtable call.request user ∧
        call.request.payload = .user payload ∧
        UserChange sha user payload server.db.usersHtable next.db.usersHtable ∧
        (server.db.debug = false → ∃ image,
          dbImage (call.env.users.arrange next.db.usersHtable.values) = .ok image) := by
  rcases step with ⟨done, rfl⟩
  cases ctrlParseAction_effect done with
  | refused code failed stranger result =>
      subst result
      exact .inl rfl
  | expired user check authentic checked failed result =>
      subst result
      exact .inl rfl
  | performed user check response after authentic checked passed action result =>
      subst result
      cases performAction_effect action with
      | nothing kept =>
          subst kept
          exact .inl rfl
      | users payload table opcode carried change saved =>
          have stored : after.db.usersHtable = table := by
            rw [(saveUsers_ok saved).2.1]
            rfl
          refine .inr ⟨user, payload, authentic, carried, ?_, fun saving => ?_⟩
          · rw [stored]
            exact change
          · rw [stored]
            exact saveUsers_image saved saving
      | files act payload code tree opcode permitted carried performed answered stored =>
          subst stored
          exact .inl rfl

theorem CtrlStep.debug {sha : Sha256} {server next : Server} {call : Call}
    {handled : Handled} (step : CtrlStep sha server call handled next) :
    next.db.debug = server.db.debug := by
  rcases step with ⟨done, rfl⟩
  cases ctrlParseAction_effect done with
  | refused code failed stranger result =>
      subst result
      rfl
  | expired user check authentic checked failed result =>
      subst result
      rfl
  | performed user check response after authentic checked passed action result =>
      subst result
      cases performAction_effect action with
      | nothing kept =>
          subst kept
          rfl
      | users payload table opcode carried change saved =>
          simp only [(saveUsers_ok saved).2.1, Db.setUsers_debug, Server.setSessions_debug]
      | files act payload code tree opcode permitted carried performed answered stored =>
          subst stored
          rfl

end FileTransfer
