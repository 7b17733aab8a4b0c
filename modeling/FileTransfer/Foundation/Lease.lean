import Mathlib

/-! # Leases

A key is leased by issuing it, kept by using it often enough, and lost by being
revoked. The law of a lease speaks about the whole history of the key; the
keeper of leases remembers one time per key.
-/

namespace Foundation

namespace Lease

inductive Event (Key : Type u)
  | issued (key : Key) (time : Int)
  | used (key : Key) (time : Int)
  | revoked (key : Key)
deriving DecidableEq

variable {Key : Type u} [DecidableEq Key]

def remember (timeout : Int) (key : Key) (last : Option Int) : Event Key → Option Int
  | .issued other time => if other = key then some time else last
  | .used other time =>
      if other = key then last.bind fun last =>
        if time - last > timeout then none else some time
      else last
  | .revoked other => if other = key then none else last

def lastUse (timeout : Int) (key : Key) (start : Option Int) (log : List (Event Key)) :
    Option Int :=
  log.foldl (remember timeout key) start

theorem lastUse_concat (timeout : Int) (key : Key) (start : Option Int)
    (log : List (Event Key)) (event : Event Key) :
    lastUse timeout key start (log ++ [event]) =
      remember timeout key (lastUse timeout key start log) event := by
  simp [lastUse]

def uses (key : Key) (log : List (Event Key)) : List Int :=
  log.filterMap fun
    | .used other time => if other = key then some time else none
    | _ => none

theorem uses_concat (key : Key) (log : List (Event Key)) (event : Event Key) :
    uses key (log ++ [event]) = uses key log ++ uses key [event] := by
  simp [uses]

def InTime (timeout : Int) (times : List Int) : Prop :=
  times.IsChain fun earlier later => later - earlier ≤ timeout

/-- `key` has been issued, and since it was last issued it has not been revoked
and was always used in time, at last at `last`. -/
def HeldSince (timeout : Int) (key : Key) (log : List (Event Key)) (last : Int) : Prop :=
  ∃ before after issued, log = before ++ .issued key issued :: after ∧
    (∀ time, .issued key time ∉ after) ∧ .revoked key ∉ after ∧
    InTime timeout (issued :: uses key after) ∧
    last = (issued :: uses key after).getLast (List.cons_ne_nil _ _)

/-- `key` has been issued, and since it was last issued it has not been revoked
and was always used in time, the use at `now` included. -/
def Alive (timeout : Int) (key : Key) (log : List (Event Key)) (now : Int) : Prop :=
  ∃ before after issued, log = before ++ .issued key issued :: after ∧
    (∀ time, .issued key time ∉ after) ∧ .revoked key ∉ after ∧
    InTime timeout (issued :: uses key after ++ [now])

theorem inTime_concat (timeout : Int) {times : List Int} (nonempty : times ≠ [])
    (now : Int) :
    InTime timeout (times ++ [now]) ↔
      InTime timeout times ∧ now - times.getLast nonempty ≤ timeout := by
  rw [InTime, List.isChain_append]
  simp [InTime, List.getLast?_eq_some_getLast nonempty]

theorem alive_iff (timeout : Int) (key : Key) (log : List (Event Key)) (now : Int) :
    Alive timeout key log now ↔
      ∃ last, HeldSince timeout key log last ∧ now - last ≤ timeout := by
  constructor
  · rintro ⟨before, after, issued, history, notIssued, notRevoked, inTime⟩
    have parts := (inTime_concat _ (List.cons_ne_nil _ _) _).mp inTime
    exact ⟨_, ⟨before, after, issued, history, notIssued, notRevoked, parts.1, rfl⟩, parts.2⟩
  · rintro ⟨_, ⟨before, after, issued, history, notIssued, notRevoked, inTime, rfl⟩, soon⟩
    exact ⟨before, after, issued, history, notIssued, notRevoked,
      (inTime_concat _ (List.cons_ne_nil _ _) _).mpr ⟨inTime, soon⟩⟩

theorem heldSince_concat_split (timeout : Int) (key : Key) (log : List (Event Key))
    (event : Event Key) (last : Int) :
    HeldSince timeout key (log ++ [event]) last ↔
      event = .issued key last ∨
        (∀ time, event ≠ .issued key time) ∧ event ≠ .revoked key ∧
          ∃ before after issued, log = before ++ .issued key issued :: after ∧
            (∀ time, .issued key time ∉ after) ∧ .revoked key ∉ after ∧
            InTime timeout (issued :: (uses key after ++ uses key [event])) ∧
            last = (issued :: (uses key after ++ uses key [event])).getLast
              (List.cons_ne_nil _ _) := by
  constructor
  · rintro ⟨before, after, issued, history, notIssued, notRevoked, inTime, rfl⟩
    rcases List.eq_nil_or_concat after with rfl | ⟨earlier, latest, rfl⟩
    · rcases List.append_inj' history rfl with ⟨_, same⟩
      exact .inl (by simpa [uses] using same)
    · rw [List.concat_eq_append, ← List.cons_append, ← List.append_assoc] at history
      rcases List.append_inj' history rfl with ⟨rfl, same⟩
      cases same
      simp only [List.concat_eq_append, List.mem_append, List.mem_singleton, not_or]
        at notIssued notRevoked
      simp only [List.concat_eq_append, uses_concat] at inTime ⊢
      exact .inr ⟨fun time => Ne.symm (notIssued time).2, Ne.symm notRevoked.2, before,
        earlier, issued, rfl, fun time => (notIssued time).1, notRevoked.1, inTime, rfl⟩
  · rintro (rfl | ⟨notIssue, notRevoke, before, after, issued, rfl, notIssued, notRevoked,
      inTime, rfl⟩)
    · exact ⟨log, [], last, rfl, by simp, by simp, by simp [InTime, uses], by simp [uses]⟩
    · refine ⟨before, after ++ [event], issued, by simp, ?_, ?_, ?_, ?_⟩
      · intro time member
        rcases List.mem_append.mp member with early | late
        · exact notIssued time early
        · exact notIssue time (List.mem_singleton.mp late).symm
      · intro member
        rcases List.mem_append.mp member with early | late
        · exact notRevoked early
        · exact notRevoke (List.mem_singleton.mp late).symm
      · rw [uses_concat]
        exact inTime
      · simp only [uses_concat]

theorem heldSince_concat_other (timeout : Int) (key : Key) (log : List (Event Key))
    {event : Event Key} (last : Int) (notIssue : ∀ time, event ≠ .issued key time)
    (notRevoke : event ≠ .revoked key) (unused : uses key [event] = []) :
    HeldSince timeout key (log ++ [event]) last ↔ HeldSince timeout key log last := by
  rw [heldSince_concat_split, unused]
  simp only [notIssue last, false_or, List.append_nil]
  exact ⟨fun ⟨_, _, held⟩ => held, fun held => ⟨notIssue, notRevoke, held⟩⟩

theorem heldSince_concat_issued (timeout : Int) (key : Key) (log : List (Event Key))
    (time last : Int) :
    HeldSince timeout key (log ++ [.issued key time]) last ↔ last = time := by
  rw [heldSince_concat_split]
  constructor
  · rintro (same | ⟨notIssue, _⟩)
    · cases same
      rfl
    · exact absurd rfl (notIssue time)
  · rintro rfl
    exact .inl rfl

theorem not_heldSince_concat_revoked (timeout : Int) (key : Key)
    (log : List (Event Key)) (last : Int) :
    ¬ HeldSince timeout key (log ++ [.revoked key]) last := by
  rw [heldSince_concat_split]
  rintro (same | ⟨_, notRevoke, _⟩)
  · cases same
  · exact notRevoke rfl

theorem heldSince_concat_used (timeout : Int) (key : Key) (log : List (Event Key))
    (time last : Int) :
    HeldSince timeout key (log ++ [.used key time]) last ↔
      last = time ∧
        ∃ previous, HeldSince timeout key log previous ∧ time - previous ≤ timeout := by
  have used : uses key [.used key time] = [time] := by simp [uses]
  rw [heldSince_concat_split, used]
  constructor
  · rintro (same | ⟨_, _, before, after, issued, history, notIssued, notRevoked, inTime, rfl⟩)
    · cases same
    · rw [← List.cons_append, inTime_concat _ (List.cons_ne_nil _ _)] at inTime
      refine ⟨?_, _, ⟨before, after, issued, history, notIssued, notRevoked, inTime.1, rfl⟩,
        inTime.2⟩
      simp only [← List.cons_append, List.getLast_append_singleton]
  · rintro ⟨rfl, _, ⟨before, after, issued, history, notIssued, notRevoked, inTime, rfl⟩,
      soon⟩
    refine .inr ⟨by simp, by simp, before, after, issued, history, notIssued, notRevoked,
      ?_, ?_⟩
    · rw [← List.cons_append, inTime_concat _ (List.cons_ne_nil _ _)]
      exact ⟨inTime, soon⟩
    · simp only [← List.cons_append, List.getLast_append_singleton]

/-- What the keeper remembers is what the law asks for. -/
theorem lastUse_eq_some_iff (timeout : Int) (key : Key) (log : List (Event Key))
    (last : Int) :
    lastUse timeout key none log = some last ↔ HeldSince timeout key log last := by
  induction log using List.reverseRecOn generalizing last with
  | nil => simp [lastUse, HeldSince]
  | append_singleton log event induction =>
      rw [lastUse_concat]
      cases event with
      | issued other time =>
          by_cases same : other = key
          · subst same
            rw [heldSince_concat_issued]
            simp [remember, eq_comm]
          · rw [heldSince_concat_other _ _ _ _ (by simp [same]) (by simp) (by simp [uses])]
            simp [remember, same, induction]
      | used other time =>
          by_cases same : other = key
          · subst same
            rw [heldSince_concat_used]
            simp only [remember, if_true, Option.bind_eq_some_iff, induction]
            constructor
            · rintro ⟨previous, held, inTime⟩
              split at inTime
              · cases inTime
              · rename_i soon
                cases inTime
                exact ⟨rfl, previous, held, not_lt.mp soon⟩
            · rintro ⟨rfl, previous, held, soon⟩
              exact ⟨previous, held, if_neg (not_lt.mpr soon)⟩
          · rw [heldSince_concat_other _ _ _ _ (by simp) (by simp) (by simp [uses, same])]
            simp [remember, same, induction]
      | revoked other =>
          by_cases same : other = key
          · subst same
            simp [remember, not_heldSince_concat_revoked]
          · rw [heldSince_concat_other _ _ _ _ (by simp) (by simp [same]) (by simp [uses])]
            simp [remember, same, induction]

/-- A key is alive at `now` exactly when the keeper remembers a recent enough time. -/
theorem alive_iff_lastUse (timeout : Int) (key : Key) (log : List (Event Key))
    (now : Int) :
    Alive timeout key log now ↔
      ∃ last, lastUse timeout key none log = some last ∧ now - last ≤ timeout := by
  simp only [alive_iff, lastUse_eq_some_iff]

theorem lastUse_none_of_not_issued (timeout : Int) (key : Key) (log : List (Event Key))
    (notIssued : ∀ time, .issued key time ∉ log) :
    lastUse timeout key none log = none := by
  induction log using List.reverseRecOn with
  | nil => rfl
  | append_singleton log event induction =>
      have earlier := induction fun time member =>
        notIssued time (List.mem_append_left _ member)
      rw [lastUse_concat, earlier]
      cases event with
      | issued other time =>
          have different : other ≠ key := by
            rintro rfl
            exact notIssued time (by simp)
          simp [remember, different]
      | used other time => simp [remember]
      | revoked other => simp [remember]

end Lease

end Foundation
