import FileTransfer.Guarantees.Sessions

/-! # Fresh sessions

What a client can do with a session id it is handed. Zero marks a client that has no
session yet, and nothing keeps zero from being drawn.
-/

namespace FileTransfer

open Foundation Posix

/-! ## Draws -/

def draws : List Nat → List UInt32
  | first :: second :: third :: fourth :: rand =>
      genSession first second third fourth :: draws rand
  | _ => []

theorem unusedSession_draws {table : HashTable UInt32 Int} {rand : List Nat} {sesh : UInt32}
    (drawn : unusedSession table rand = .ok sesh) :
    ∃ taken later, draws rand = taken ++ sesh :: later ∧
      (∀ id ∈ taken, table.get id ≠ none) ∧ table.get sesh = none := by
  fun_induction unusedSession table rand with
  | case1 first second third fourth rand sesh' live induction =>
      rcases induction drawn with ⟨taken, later, split, allLive, free⟩
      refine ⟨genSession first second third fourth :: taken, later, ?_, ?_, free⟩
      · rw [draws, split, List.cons_append]
      · intro id member
        rcases List.mem_cons.mp member with rfl | earlier
        · rcases (HashTable.keyExists_iff _ _).mp live with ⟨time, known⟩
          rw [known]
          simp
        · exact allLive id earlier
  | case2 first second third fourth rand sesh' free =>
      rw [Except.ok.injEq] at drawn
      subst drawn
      refine ⟨[], draws rand, rfl, by simp, ?_⟩
      exact (HashTable.keyExists_eq_false_iff _ _).mp (by simpa using free)
  | case3 => cases drawn

/-! ## Handing out -/

/-- A session id that was handed out serves as one: it does not say that there is no
session, nobody had it, handing it out disturbed nobody, and the next request with it
belongs to that session, unless time ran out. -/
structure Usable (env : Env) (table : HashTable UInt32 Int) (sesh : UInt32)
    (after : HashTable UInt32 Int) : Prop where
  nonzero : sesh ≠ 0
  fresh : table.get sesh = none
  others : ∀ other, other ≠ sesh → after.get other = table.get other
  recognised : ∀ (later : Env) (sha : Sha256) (timeout : Int) (server : Server)
    (request : WirePayload) (user : UserAccount) (handled : Handled),
    server.db.seshHtable = after → Authentic sha server.db.usersHtable request user →
    request.sessionId = sesh → later.time - env.time ≤ timeout →
    ctrlParseAction later sha timeout server request = .ok handled →
      handled.sessionId = sesh ∧ handled.server.db.seshHtable = after.set sesh later.time

/-- A free id is drawn before zero is, or zero is live and cannot be handed out. -/
def ZeroSpared (table : HashTable UInt32 Int) (rand : List Nat) : Prop :=
  table.get 0 ≠ none ∨ ∃ taken id later, draws rand = taken ++ id :: later ∧
    table.get id = none ∧ 0 ∉ taken ∧ id ≠ 0

theorem generateSessionId_ok {env : Env} {table after : HashTable UInt32 Int} {sesh : UInt32}
    (generated : generateSessionId env table = .ok (sesh, after)) :
    unusedSession table env.rand = .ok sesh ∧ after = table.set sesh env.time := by
  rcases Fallible.ok_of_bind_ok generated with ⟨drawn, unused, final⟩
  cases final
  exact ⟨unused, rfl⟩

theorem nonzero_iff {env : Env} {table after : HashTable UInt32 Int} {sesh : UInt32}
    (generated : generateSessionId env table = .ok (sesh, after)) :
    sesh ≠ 0 ↔ ZeroSpared table env.rand := by
  rcases unusedSession_draws (generateSessionId_ok generated).1 with
    ⟨taken, later, split, allLive, free⟩
  constructor
  · intro nonzero
    by_cases zeroLive : table.get 0 = none
    · refine .inr ⟨taken, sesh, later, split, free, fun drawn => ?_, nonzero⟩
      exact allLive 0 drawn zeroLive
    · exact .inl zeroLive
  · rintro spared rfl
    rcases spared with zeroLive | ⟨taken', id, later', split', free', notBefore, nonzero⟩
    · exact zeroLive free
    · -- Both splits end at a first free id, so the one of zero comes first.
      rw [split] at split'
      rcases List.append_eq_append_iff.mp split' with
        ⟨between, longer, rest⟩ | ⟨between, longer, rest⟩
      · cases between with
        | nil => exact nonzero (List.cons.inj rest).1.symm
        | cons head tail =>
            have isZero : head = 0 := (List.cons.inj rest).1.symm
            rw [isZero] at longer
            exact notBefore (by simp [longer])
      · cases between with
        | nil => exact nonzero (List.cons.inj rest).1
        | cons head tail =>
            have isId : head = id := (List.cons.inj rest).1.symm
            rw [isId] at longer
            exact allLive id (by simp [longer]) free'

theorem checkSession_refreshes {env : Env} {timeout : Int} {table : HashTable UInt32 Int}
    {sesh : UInt32} {sessionTime : Int} (named : sesh ≠ 0)
    (known : table.get sesh = some sessionTime) (alive : env.time - sessionTime ≤ timeout) :
    checkSession env timeout table sesh = .ok ⟨.opSuccess, sesh, table.set sesh env.time⟩ := by
  rw [checkSession, if_neg named, known]
  simp only
  rw [if_neg (not_lt.mpr alive)]

theorem usable_iff {env : Env} {table after : HashTable UInt32 Int} {sesh : UInt32}
    (generated : generateSessionId env table = .ok (sesh, after)) :
    Usable env table sesh after ↔ ZeroSpared table env.rand := by
  rw [← nonzero_iff generated]
  rcases generateSessionId_ok generated with ⟨unused, rfl⟩
  constructor
  · exact Usable.nonzero
  · intro nonzero
    refine ⟨nonzero, unusedSession_fresh unused,
      fun other different => HashTable.get_set_ne _ _ different, ?_⟩
    intro later sha timeout server request user handled live authentic named inTime done
    rcases ctrlParseAction_sessions authentic done with ⟨check, checked, sameId, sameTable⟩
    rw [named, live, checkSession_refreshes nonzero (HashTable.get_set_self _ _ _) inTime]
      at checked
    cases checked
    exact ⟨sameId, sameTable⟩

theorem zero_is_handed_out :
    ¬ ∀ (env : Env) (table after : HashTable UInt32 Int) (sesh : UInt32),
      generateSessionId env table = .ok (sesh, after) → Usable env table sesh after := by
  intro usable
  have handedOut : generateSessionId { rand := [256, 0, 512, 1024] } ∅ =
      .ok (0, HashTable.set ∅ 0 0) := rfl
  exact (usable _ _ _ _ handedOut).nonzero rfl

theorem usable_iff_quiet :
    Usable quietEnv ∅ 7 (HashTable.set ∅ 7 0) ↔ ZeroSpared ∅ quietEnv.rand :=
  usable_iff rfl

end FileTransfer
