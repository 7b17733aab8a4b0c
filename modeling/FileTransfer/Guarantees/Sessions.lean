import FileTransfer.Foundation.Lease
import FileTransfer.Foundation.Trace
import FileTransfer.Guarantees.Mediation
import FileTransfer.Server.Reading

/-! # The life of a session

Seen from outside, a connection issues a session id, uses one, or breaks off.
The session table remembers of this history exactly what the law of leases asks
for, so a session is accepted as long as the lease is alive.
-/

namespace FileTransfer

open Foundation Posix

/-! ## What a connection does to sessions -/

namespace Connection

def request (connection : Connection) : WirePayload :=
  Reader.finalState (readClientReq connection.calloc ({}, connection.stream))

def Attempted (connection : Connection) : Prop :=
  connection.setsockopt = true ∧ connection.calloc .request = true

def Complete (connection : Connection) : Prop :=
  ∃ after, readClientReq connection.calloc ({}, connection.stream) = .ok () after

end Connection

/-- What a connection does to the lease of session ids: a read that fails revokes
the id that was sent, an authentic request uses the id it names or is issued
one, which the response carries. -/
inductive SessionEvents (env : Env) (sha : Sha256) (server : Server)
    (connection : Connection) (served : Served) : List (Lease.Event UInt32) → Prop
  | unread (notAttempted : ¬ connection.Attempted) :
      SessionEvents env sha server connection served []
  | broken (attempted : connection.Attempted) (cut : ¬ connection.Complete) :
      SessionEvents env sha server connection served
        [.revoked connection.request.sessionId]
  | refused (attempted : connection.Attempted) (complete : connection.Complete)
      (stranger : ∀ user, ¬ Authentic sha server.db.usersHtable connection.request user) :
      SessionEvents env sha server connection served []
  | issued (attempted : connection.Attempted) (complete : connection.Complete)
      (user : UserAccount)
      (authentic : Authentic sha server.db.usersHtable connection.request user)
      (isNew : connection.request.sessionId = 0) (response : ActResp) (session : UInt32)
      (answered : served.response = some (response, session)) :
      SessionEvents env sha server connection served [.issued session env.time]
  | used (attempted : connection.Attempted) (complete : connection.Complete)
      (user : UserAccount)
      (authentic : Authentic sha server.db.usersHtable connection.request user)
      (named : connection.request.sessionId ≠ 0) :
      SessionEvents env sha server connection served
        [.used connection.request.sessionId env.time]

def ServeStep (sha : Sha256) (timeout : Int) (server : Server)
    (input : Env × Connection) (output : Served × List (Lease.Event UInt32))
    (next : Server) : Prop :=
  serveClient input.1 sha timeout server input.2 = .ok output.1 ∧
    SessionEvents input.1 sha server input.2 output.1 output.2 ∧
    output.1.server = next

def sessionLog (outputs : List (Served × List (Lease.Event UInt32))) :
    List (Lease.Event UInt32) :=
  outputs.flatMap Prod.snd

/-! ## Serving one connection -/

theorem serveClient_cases {env : Env} {sha : Sha256} {timeout : Int} {server : Server}
    {connection : Connection} {served : Served}
    (done : serveClient env sha timeout server connection = .ok served) :
    (¬ connection.Attempted ∧ served = ⟨none, server⟩) ∨
      (connection.Attempted ∧ ¬ connection.Complete ∧ ∃ code,
        served = ⟨failureResponse code, server.setSessions
          (server.db.seshHtable.del connection.request.sessionId)⟩) ∨
      (connection.Attempted ∧ connection.Complete ∧ ∃ handled,
        ctrlParseAction env sha timeout server connection.request = .ok handled ∧
        served = ⟨some (handled.response, handled.sessionId), handled.server⟩) := by
  rw [serveClient] at done
  split at done
  · rename_i noTimeout
    cases done
    exact .inl ⟨by simp [Connection.Attempted, noTimeout], rfl⟩
  · rename_i timeoutSet
    split at done
    · rename_i noMemory
      cases done
      exact .inl ⟨by simp [Connection.Attempted, noMemory], rfl⟩
    · rename_i memory
      have attempted : connection.Attempted := ⟨by simpa using timeoutSet, by simpa using memory⟩
      cases read : readClientReq connection.calloc ({}, connection.stream) with
      | error code after =>
          rw [read] at done
          cases done
          refine .inr (.inl ⟨attempted, ?_, code, ?_⟩)
          · rintro ⟨_, complete⟩
            rw [read] at complete
            cases complete
          · rw [Connection.request, read]
            rfl
      | ok _ after =>
          rw [read] at done
          rcases Fallible.ok_of_bind_ok done with ⟨handled, parsed, final⟩
          cases final
          refine .inr (.inr ⟨attempted, ⟨after, read⟩, handled, ?_, rfl⟩)
          rw [Connection.request, read]
          exact parsed

theorem ctrlParseAction_sessions {env : Env} {sha : Sha256} {timeout : Int}
    {server : Server} {request : WirePayload} {handled : Handled} {user : UserAccount}
    (authentic : Authentic sha server.db.usersHtable request user)
    (done : ctrlParseAction env sha timeout server request = .ok handled) :
    ∃ check, checkSession env timeout server.db.seshHtable request.sessionId = .ok check ∧
      handled.sessionId = check.sessionId ∧
      handled.server.db.seshHtable = check.table := by
  cases ctrlParseAction_effect done with
  | refused code failed stranger result => exact absurd authentic (stranger user)
  | expired user' check authentic' checked failed result =>
      subst result
      exact ⟨check, checked, rfl, rfl⟩
  | performed user' check response after authentic' checked passed action result =>
      subst result
      exact ⟨check, checked, rfl, (performAction_effect action).sessions⟩

theorem ctrlParseAction_stranger {env : Env} {sha : Sha256} {timeout : Int}
    {server : Server} {request : WirePayload} {handled : Handled}
    (stranger : ∀ user, ¬ Authentic sha server.db.usersHtable request user)
    (done : ctrlParseAction env sha timeout server request = .ok handled) :
    handled.server = server := by
  cases ctrlParseAction_effect done with
  | refused code failed stranger' result => rw [result]
  | expired user check authentic checked failed result =>
      exact absurd authentic (stranger user)
  | performed user check response after authentic checked passed action result =>
      exact absurd authentic (stranger user)

/-! ## The invariant -/

/-- Serving a connection changes what the table says of a session as the events
of the connection change what is remembered of its lease. -/
theorem ServeStep.remembers {sha : Sha256} {timeout : Int} {server next : Server}
    {input : Env × Connection} {output : Served × List (Lease.Event UInt32)}
    (step : ServeStep sha timeout server input output next) (session : UInt32) :
    next.db.seshHtable.get session =
      Lease.lastUse timeout session (server.db.seshHtable.get session) output.2 := by
  rcases input with ⟨env, connection⟩
  rcases output with ⟨served, events⟩
  rcases step with ⟨done, noted, rfl⟩
  simp only at done noted ⊢
  rcases serveClient_cases done with
    ⟨notAttempted, rfl⟩ | ⟨attempted, cut, code, rfl⟩ |
      ⟨attempted, complete, handled, parsed, rfl⟩
  · cases noted with
    | unread _ => rfl
    | broken attempted _ => exact absurd attempted notAttempted
    | refused attempted _ _ => exact absurd attempted notAttempted
    | issued attempted _ _ _ _ _ _ _ => exact absurd attempted notAttempted
    | used attempted _ _ _ _ => exact absurd attempted notAttempted
  · cases noted with
    | unread notAttempted => exact absurd attempted notAttempted
    | broken _ _ =>
        simp [Lease.lastUse, Lease.remember, HashTable.get_del, eq_comm]
    | refused _ complete _ => exact absurd complete cut
    | issued _ complete _ _ _ _ _ _ => exact absurd complete cut
    | used _ complete _ _ _ => exact absurd complete cut
  · cases noted with
    | unread notAttempted => exact absurd attempted notAttempted
    | broken _ cut => exact absurd complete cut
    | refused _ _ stranger =>
        simp only [ctrlParseAction_stranger stranger parsed]
        rfl
    | issued _ _ user authentic isNew response fresh answered =>
        rcases ctrlParseAction_sessions authentic parsed with ⟨check, checked, sameId, sameTable⟩
        simp only [Option.some.injEq, Prod.mk.injEq] at answered
        rw [← answered.2, sameId, sameTable]
        rcases checkSession_cases checked with
          ⟨_, drawn, _, rfl⟩ | ⟨notNew, _, _⟩ | ⟨notNew, _⟩ | ⟨notNew, _⟩
        · simp [Lease.lastUse, Lease.remember, HashTable.get_set, eq_comm]
        · exact absurd isNew notNew
        · exact absurd isNew notNew
        · exact absurd isNew notNew
    | used _ _ user authentic notNew =>
        rcases ctrlParseAction_sessions authentic parsed with ⟨check, checked, _, sameTable⟩
        simp only [sameTable]
        by_cases same : connection.request.sessionId = session
        · subst same
          rcases checkSession_cases checked with
            ⟨isNew, _⟩ | ⟨_, unknown, rfl⟩ | ⟨_, sessionTime, known, expired, rfl⟩ |
              ⟨_, sessionTime, known, alive, rfl⟩
          · exact absurd isNew notNew
          · simp [Lease.lastUse, Lease.remember, unknown]
          · simp only [Lease.lastUse, List.foldl_cons, List.foldl_nil, Lease.remember, known,
              if_true, Option.bind_some, if_pos expired, HashTable.get_del_self]
          · simp only [Lease.lastUse, List.foldl_cons, List.foldl_nil, Lease.remember, known,
              if_true, Option.bind_some, if_neg (not_lt.mpr alive), HashTable.get_set_self]
        · have different : session ≠ connection.request.sessionId := Ne.symm same
          have kept : check.table.get session = server.db.seshHtable.get session := by
            rcases checkSession_cases checked with
              ⟨isNew, _⟩ | ⟨_, _, rfl⟩ | ⟨_, _, _, _, rfl⟩ | ⟨_, _, _, _, rfl⟩
            · exact absurd isNew notNew
            · rfl
            · exact HashTable.get_del_ne _ different
            · exact HashTable.get_set_ne _ _ different
          simp [Lease.lastUse, Lease.remember, same, kept]

theorem serveStep_exists {env : Env} {sha : Sha256} {timeout : Int} {server : Server}
    {connection : Connection} {served : Served}
    (done : serveClient env sha timeout server connection = .ok served) :
    ∃ events, ServeStep sha timeout server (env, connection) (served, events)
      served.server := by
  suffices noted : ∃ events, SessionEvents env sha server connection served events by
    rcases noted with ⟨events, noted⟩
    exact ⟨events, done, noted, rfl⟩
  rcases serveClient_cases done with
    ⟨notAttempted, _⟩ | ⟨attempted, cut, _⟩ | ⟨attempted, complete, handled, _, answered⟩
  · exact ⟨_, .unread notAttempted⟩
  · exact ⟨_, .broken attempted cut⟩
  · by_cases known : ∃ user, Authentic sha server.db.usersHtable connection.request user
    · rcases known with ⟨user, authentic⟩
      by_cases isNew : connection.request.sessionId = 0
      · exact ⟨_, .issued attempted complete user authentic isNew handled.response
          handled.sessionId (by rw [answered])⟩
      · exact ⟨_, .used attempted complete user authentic isNew⟩
    · exact ⟨_, .refused attempted complete fun user authentic => known ⟨user, authentic⟩⟩

theorem run_remembers {sha : Sha256} {timeout : Int} {start final : Server}
    {inputs : List (Env × Connection)}
    {outputs : List (Served × List (Lease.Event UInt32))}
    (run : Trace (ServeStep sha timeout) start inputs outputs final) (session : UInt32) :
    final.db.seshHtable.get session =
      Lease.lastUse timeout session (start.db.seshHtable.get session)
        (sessionLog outputs) := by
  induction run with
  | nil => rfl
  | cons step rest induction =>
      rw [induction, step.remembers session, sessionLog, sessionLog, List.flatMap_cons,
        Lease.lastUse, Lease.lastUse, Lease.lastUse, List.foldl_append]

/-! ## The law -/

/-- What a session id is worth to a request that names it, after a history. -/
structure SessionLaw (env : Env) (sha : Sha256) (timeout : Int) (server : Server)
    (request : WirePayload) (user : UserAccount) (log : List (Lease.Event UInt32)) :
    Prop where
  /-- The session check passes exactly when the lease is alive. -/
  accepted_iff :
    SessionValid env timeout server.db.seshHtable request.sessionId ↔
      Lease.Alive timeout request.sessionId log env.time
  /-- A request that passes refreshes its session and is carried out. -/
  accepted :
    SessionValid env timeout server.db.seshHtable request.sessionId →
      ctrlParseAction env sha timeout server request = do
        let (response, after) ← performAction env sha user
          (server.setSessions (server.db.seshHtable.set request.sessionId env.time)) request
        return ⟨response, request.sessionId, after⟩
  /-- A request that does not pass is answered so, and its session is gone. -/
  rejected :
    ¬ SessionValid env timeout server.db.seshHtable request.sessionId →
      ctrlParseAction env sha timeout server request =
        .ok ⟨ctrlPopulateResp .opSessionError, request.sessionId,
          server.setSessions (server.db.seshHtable.del request.sessionId)⟩
  /-- It stays rejected in every run that does not issue the id again. -/
  stays_rejected :
    ¬ SessionValid env timeout server.db.seshHtable request.sessionId →
      ∀ (inputs : List (Env × Connection))
        (outputs : List (Served × List (Lease.Event UInt32))) (final : Server),
        Trace (ServeStep sha timeout)
          (server.setSessions (server.db.seshHtable.del request.sessionId))
          inputs outputs final →
        (∀ time, .issued request.sessionId time ∉ sessionLog outputs) →
        ∀ later : Env,
          ¬ SessionValid later timeout final.db.seshHtable request.sessionId

theorem sessionValid_iff {env : Env} {timeout : Int} {table : HashTable UInt32 Int}
    {session : UInt32} (named : session ≠ 0) :
    SessionValid env timeout table session ↔
      ∃ last, table.get session = some last ∧ env.time - last ≤ timeout := by
  simp [SessionValid, named]

theorem session_lifetime {sha : Sha256} {timeout : Int} {start server : Server}
    {inputs : List (Env × Connection)}
    {outputs : List (Served × List (Lease.Event UInt32))}
    (started : start.db.seshHtable = ∅)
    (run : Trace (ServeStep sha timeout) start inputs outputs server)
    (env : Env) {request : WirePayload} {user : UserAccount}
    (named : request.sessionId ≠ 0)
    (authentic : Authentic sha server.db.usersHtable request user) :
    SessionLaw env sha timeout server request user (sessionLog outputs) := by
  have remembered := run_remembers run request.sessionId
  rw [started, HashTable.get_empty] at remembered
  have accepted := authenticate_ok_iff.mpr authentic
  refine ⟨?_, ?_, ?_, ?_⟩
  · rw [sessionValid_iff named, Lease.alive_iff_lastUse, remembered]
  · intro valid
    rcases (sessionValid_iff named).mp valid with ⟨last, known, alive⟩
    have checked : checkSession env timeout server.db.seshHtable request.sessionId =
        .ok ⟨.opSuccess, request.sessionId,
          server.db.seshHtable.set request.sessionId env.time⟩ := by
      simp only [checkSession, if_neg named, known, if_neg (not_lt.mpr alive)]
    simp only [ctrlParseAction, accepted, Fallible.ok_bind, checked, ne_eq, not_true,
      if_false]
  · intro invalid
    rw [sessionValid_iff named] at invalid
    have checked : checkSession env timeout server.db.seshHtable request.sessionId =
        .ok ⟨.opSessionError, request.sessionId,
          server.db.seshHtable.del request.sessionId⟩ := by
      cases known : server.db.seshHtable.get request.sessionId with
      | none =>
          simp only [checkSession, if_neg named, known,
            HashTable.del_of_get_eq_none _ known]
      | some last =>
          have expired : env.time - last > timeout := by
            by_contra alive
            exact invalid ⟨last, known, not_lt.mp alive⟩
          simp only [checkSession, if_neg named, known, if_pos expired]
    simp only [ctrlParseAction, accepted, Fallible.ok_bind, checked]
    rfl
  · intro _ inputs outputs final later notIssued env'
    rw [sessionValid_iff named, run_remembers later request.sessionId,
      Server.setSessions_sessions, HashTable.get_del_self,
      Lease.lastUse_none_of_not_issued _ _ _ notIssued]
    rintro ⟨_, impossible, _⟩
    cases impossible

def alice : UserAccount := accountNamed "alice" Perms.readWrite

def aliceConnection (session : UInt8) : Connection where
  stream :=
    ⟨[Act.localOperation.toByte, 0, 0, 0, 0, 5, 0, 8, 0, 0, 0, session] ++
      ascii "alicepassword" ++ [0, 0, 0, 0, 0, 0, 0, 0], .closed⟩

set_option maxRecDepth 4000 in
theorem session_lifetime_alice :
    ∃ outputs server, sessionLog outputs = [.issued 7 0, .used 7 5] ∧
      SessionLaw { time := 35 } passwordSha 60 server (aliceConnection 7).request alice
        (sessionLog outputs) := by
  have accepted : authenticate passwordSha (serverOf alice).db (aliceConnection 0).request =
      .ok (.ok alice) := rfl
  have returns : authenticate passwordSha (serverOf alice).db (aliceConnection 7).request =
      .ok (.ok alice) := rfl
  have run : Trace (ServeStep passwordSha 60) (serverOf alice)
      [(quietEnv, aliceConnection 0), (laterEnv, aliceConnection 7)]
      [(⟨some (ctrlPopulateResp .opSuccess, 7), _⟩, [.issued 7 0]),
        (⟨some (ctrlPopulateResp .opSuccess, 7), _⟩, [.used 7 5])] _ :=
    .cons ⟨rfl, .issued ⟨rfl, rfl⟩ ⟨_, rfl⟩ alice (authenticate_ok_iff.mp accepted) rfl _ _ rfl,
        rfl⟩
      (.cons ⟨rfl, .used ⟨rfl, rfl⟩ ⟨_, rfl⟩ alice (authenticate_ok_iff.mp returns) (by decide),
        rfl⟩ (.nil _))
  exact ⟨_, _, rfl, session_lifetime rfl run _ (by decide) (authenticate_ok_iff.mp returns)⟩

/-! ## Connections that do not authenticate -/

/-- What a connection without valid credentials does to the sessions: nothing,
but that a request which breaks off takes the session with it that its header
names. -/
theorem serveClient_stranger_sessions {env : Env} {sha : Sha256} {timeout : Int}
    {server : Server} {connection : Connection} {served : Served}
    (stranger : ∀ user, ¬ Authentic sha server.db.usersHtable connection.request user)
    (done : serveClient env sha timeout server connection = .ok served) :
    (¬ (connection.Attempted ∧ ¬ connection.Complete) →
        served.server.db.seshHtable = server.db.seshHtable) ∧
      (connection.Attempted ∧ ¬ connection.Complete →
        served.server.db.seshHtable =
          server.db.seshHtable.del connection.request.sessionId) ∧
      HasHeaderSession connection.stream.bytes connection.request := by
  refine ⟨?_, ?_, readClientReq_sessionId _ _⟩
  · intro whole
    rcases serveClient_cases done with
      ⟨_, rfl⟩ | ⟨attempted, cut, _⟩ | ⟨_, _, handled, parsed, rfl⟩
    · rfl
    · exact absurd ⟨attempted, cut⟩ whole
    · simp only [ctrlParseAction_stranger stranger parsed]
  · rintro ⟨attempted, cut⟩
    rcases serveClient_cases done with
      ⟨notAttempted, _⟩ | ⟨_, _, code, rfl⟩ | ⟨_, complete, _⟩
    · exact absurd attempted notAttempted
    · rfl
    · exact absurd complete cut

def cutConnection : Connection where
  stream := ⟨[Act.localOperation.toByte, 0, 0, 0, 0, 5, 0, 8, 0, 0, 0, 7], .closed⟩

def busyServer : Server := (serverOf alice).setSessions (HashTable.set ∅ 7 0)

theorem cutConnection_stranger (user : UserAccount) :
    ¬ Authentic passwordSha busyServer.db.usersHtable cutConnection.request user := by
  rintro ⟨name, passwd, named, secret, _⟩
  have silent : cutConnection.request.passwd = none := rfl
  rw [silent] at secret
  cases secret

theorem unauthenticated_connection_ends_session :
    ¬ ∀ (env : Env) (sha : Sha256) (timeout : Int) (server : Server)
      (connection : Connection) (served : Served),
      (∀ user, ¬ Authentic sha server.db.usersHtable connection.request user) →
      serveClient env sha timeout server connection = .ok served →
      served.server.db.seshHtable = server.db.seshHtable := by
  intro undisturbed
  have same := undisturbed quietEnv passwordSha 60 busyServer cutConnection _
    cutConnection_stranger rfl
  have ended := congrArg (fun table => HashTable.get table 7) same
  revert ended
  decide

set_option maxRecDepth 4000 in
theorem serveClient_stranger_sessions_cut :
    ∃ served, serveClient quietEnv passwordSha 60 busyServer cutConnection = .ok served ∧
      served.server.db.seshHtable = HashTable.del (HashTable.set ∅ 7 0) 7 := by
  have done : serveClient quietEnv passwordSha 60 busyServer cutConnection = .ok _ := rfl
  have cut : ¬ cutConnection.Complete := by
    have failed : readClientReq cutConnection.calloc ({}, cutConnection.stream) =
        .error _ _ := rfl
    rintro ⟨_, read⟩
    rw [failed] at read
    cases read
  exact ⟨_, done, (serveClient_stranger_sessions cutConnection_stranger done).2.1
    ⟨⟨rfl, rfl⟩, cut⟩⟩

end FileTransfer
