import FileTransfer.Server.Args

/-! # Numeric options

What the operator types for the port and for the session timeout, and what the server
makes of it. The port is kept in thirty-two bits, the timeout in eight, which its limit
does not fit.
-/

namespace FileTransfer

open Foundation Posix

/-! ## One number -/

theorem strToLong_eq_some_iff {strNum : CString} {value : Int} :
    strToLong strNum = some value ↔ DecimalLong strNum.bytes value := by
  rw [← strtol_complete_iff, strToLong]
  cases (strtol strNum).outOfRange with
  | true => simp
  | false => simp [Option.ite_none_left_eq_some]

theorem strToLong_eq_none_iff {strNum : CString} :
    strToLong strNum = none ↔ ¬ ∃ value, DecimalLong strNum.bytes value := by
  rw [Option.eq_none_iff_forall_ne_some, not_exists]
  apply forall_congr'
  intro value
  rw [ne_eq, strToLong_eq_some_iff]

structure Means (text : CString) (lower upper : Int) (result : Nat) : Prop where
  decimal : ∀ value, DecimalLong text.bytes value →
    (result : Int) = if lower ≤ value ∧ value ≤ upper then value else 0
  other : (¬ ∃ value, DecimalLong text.bytes value) → result = 0

theorem getPort_means (port : CString) :
    Means port minPort maxPort (getPort port).toNat where
  decimal value decimal := by
    rw [getPort, strToLong_eq_some_iff.mpr decimal]
    by_cases within : minPort ≤ value ∧ value ≤ maxPort
    · have small : value.toNat < 2 ^ 32 := by
        simp only [minPort, maxPort] at within
        omega
      have outside : ¬ (value > maxPort ∨ value < minPort) := by omega
      simp only [outside, if_false, within, and_self, if_true]
      rw [UInt32.toNat_ofNat_of_lt' small]
      simp only [minPort] at within
      omega
    · have outside : value > maxPort ∨ value < minPort := by omega
      simp only [outside, if_true, within, if_false]
      rfl
  other noNumber := by
    rw [getPort, strToLong_eq_none_iff.mpr noNumber]
    rfl

theorem getTimeout_of_decimal {timeout : CString} {value : Int}
    (decimal : DecimalLong timeout.bytes value) :
    ((getTimeout timeout).toNat : Int) =
      if 1 ≤ value ∧ value ≤ maxTimeout then value % 256 else 0 := by
  rw [getTimeout, strToLong_eq_some_iff.mpr decimal]
  by_cases within : 1 ≤ value ∧ value ≤ maxTimeout
  · rw [if_pos within]
    simp only [gt_iff_lt, not_lt.mpr within.1, not_lt.mpr within.2, if_false]
    rw [UInt8.toNat_ofNat']
    omega
  · rw [if_neg within]
    by_cases above : value > maxTimeout
    · simp only [above, if_true]
      rfl
    · have below : value < 1 := by omega
      simp only [above, below, if_true, if_false]
      rfl

theorem getTimeout_of_other {timeout : CString}
    (noNumber : ¬ ∃ value, DecimalLong timeout.bytes value) : (getTimeout timeout).toNat = 0 := by
  rw [getTimeout, strToLong_eq_none_iff.mpr noNumber]
  rfl

def Wide (timeout : CString) : Prop :=
  ∃ value, DecimalLong timeout.bytes value ∧ 256 ≤ value ∧ value ≤ maxTimeout

theorem getTimeout_means_iff (timeout : CString) :
    Means timeout 1 maxTimeout (getTimeout timeout).toNat ↔ ¬ Wide timeout := by
  constructor
  · intro means wide
    rcases wide with ⟨value, decimal, lower, upper⟩
    have said := means.decimal value decimal
    rw [getTimeout_of_decimal decimal] at said
    have within : 1 ≤ value ∧ value ≤ maxTimeout := ⟨by omega, upper⟩
    rw [if_pos within, if_pos within] at said
    omega
  · intro narrow
    refine ⟨?_, getTimeout_of_other⟩
    intro value decimal
    rw [getTimeout_of_decimal decimal]
    by_cases within : 1 ≤ value ∧ value ≤ maxTimeout
    · have small : value < 256 := by
        by_contra large
        exact narrow ⟨value, decimal, not_lt.mp large, within.2⟩
      rw [if_pos within, if_pos within]
      omega
    · rw [if_neg within, if_neg within]

/-! ## The whole command line -/

section Loop

variable {readWrite : Bytes → Bool} {tree : FileTree} {parsing next : Parsing}

theorem argsStep_timeout {opt : Opt}
    (stepped : argsStep readWrite tree parsing opt = .ok (some next)) :
    (∃ optarg, opt = .withArg optTimeout optarg ∧ parsing.bTimeout = false ∧
        next.args.timeout = getTimeout optarg ∧ next.bTimeout = true) ∨
      (∀ optarg, opt ≠ .withArg optTimeout optarg) ∧
        next.args.timeout = parsing.args.timeout ∧ next.bTimeout = parsing.bTimeout := by
  cases opt with
  | flag name => cases stepped
  | unknown optopt => cases stepped
  | withArg name optarg =>
      rw [argsStep] at stepped
      by_cases isPort : name = optPort
      · have notTimeout : ∀ other, Opt.withArg name optarg ≠ .withArg optTimeout other := by
          intro other same
          injection same with sameName
          rw [isPort] at sameName
          revert sameName
          decide
        right
        rw [if_pos isPort] at stepped
        split at stepped
        · cases stepped
        · split at stepped
          · cases stepped
          · cases stepped
            exact ⟨notTimeout, rfl, rfl⟩
      · rw [if_neg isPort] at stepped
        by_cases isTimeout : name = optTimeout
        · left
          rw [if_pos isTimeout] at stepped
          split at stepped
          · cases stepped
          · rename_i notYet
            split at stepped
            · cases stepped
            · cases stepped
              exact ⟨optarg, by rw [isTimeout], Bool.eq_false_of_not_eq_true notYet, rfl, rfl⟩
        · have notTimeout : ∀ other, Opt.withArg name optarg ≠ .withArg optTimeout other := by
            intro other same
            injection same with sameName
            exact isTimeout sameName
          right
          rw [if_neg isTimeout] at stepped
          split at stepped
          · split at stepped
            · cases stepped
            · rcases Fallible.ok_of_bind_ok stepped with ⟨homeDirectory, _, stepped⟩
              cases homeDirectory with
              | none => cases stepped
              | some homeDirectory =>
                  cases stepped
                  exact ⟨notTimeout, rfl, rfl⟩
          · cases stepped
            exact ⟨notTimeout, rfl, rfl⟩

theorem argsLoop_timeout {opts : List Opt}
    (looped : argsLoop readWrite tree parsing opts = .ok (some next)) :
    (parsing.bTimeout = true → next.args.timeout = parsing.args.timeout) ∧
      ∀ optarg, .withArg optTimeout optarg ∈ opts →
        parsing.bTimeout = false ∧ next.args.timeout = getTimeout optarg := by
  induction opts generalizing parsing with
  | nil =>
      cases looped
      refine ⟨fun _ => rfl, ?_⟩
      intro optarg member
      cases member
  | cons opt opts induction =>
      rcases Fallible.ok_of_bind_ok looped with ⟨stepped, step, looped⟩
      cases stepped with
      | none => cases looped
      | some middle =>
          rcases induction looped with ⟨stays, taken⟩
          rcases argsStep_timeout step with
            ⟨optarg, rfl, notYet, isTaken, flagged⟩ | ⟨otherOpt, kept, sameFlag⟩
          · constructor
            · intro already
              rw [notYet] at already
              cases already
            · intro other member
              rcases List.mem_cons.mp member with same | later
              · cases same
                exact ⟨notYet, (stays flagged).trans isTaken⟩
              · have refused := (taken other later).1
                rw [flagged] at refused
                cases refused
          · constructor
            · intro already
              rw [stays (sameFlag.trans already), kept]
            · intro optarg member
              rcases List.mem_cons.mp member with same | later
              · exact absurd same.symm (otherOpt optarg)
              · rcases taken optarg later with ⟨notYet, result⟩
                exact ⟨sameFlag.symm.trans notYet, result⟩

theorem argsParse_timeout {argv : List CString} {args : Args} {optarg : CString}
    (parsed : argsParse readWrite tree argv = .ok (some args))
    (typed : .withArg optTimeout optarg ∈ (getopt optstring argv).opts) :
    args.timeout = getTimeout optarg := by
  rw [argsParse] at parsed
  split at parsed
  · cases parsed
  · rcases Fallible.ok_of_bind_ok parsed with ⟨looped, loop, parsed⟩
    cases looped with
    | none => cases parsed
    | some last =>
        have result := ((argsLoop_timeout loop).2 optarg typed).2
        simp only at parsed
        split at parsed
        · cases parsed
        · split at parsed
          · cases parsed
          · cases parsed
            exact result

end Loop

/-- A timeout within the limit is the one that the parsed arguments hold, and that every
worker of the server is handed. -/
def HandedOn (timeout : CString) : Prop :=
  ∀ readWrite tree argv args, argsParse readWrite tree argv = .ok (some args) →
    .withArg optTimeout timeout ∈ (getopt optstring argv).opts →
      ∀ value, DecimalLong timeout.bytes value → 1 ≤ value → value ≤ maxTimeout →
        (args.timeout.toNat : Int) = value ∧
          ∀ accepted, ∀ worker ∈ startServer args.timeout accepted, worker.timeout = value

theorem startServer_timeout {timeout : UInt8} {accepted : List (Option Nat)}
    {worker : WorkerPayload} (member : worker ∈ startServer timeout accepted) :
    worker.timeout = timeout.toNat := by
  rcases List.mem_filterMap.mp member with ⟨clientFd, _, made⟩
  rcases Option.map_eq_some_iff.mp made with ⟨fd, _, rfl⟩
  rfl

theorem handedOn_of_means {timeout : CString}
    (means : Means timeout 1 maxTimeout (getTimeout timeout).toNat) : HandedOn timeout := by
  intro readWrite tree argv args parsed typed value decimal lower upper
  have said := means.decimal value decimal
  rw [if_pos ⟨lower, upper⟩, ← argsParse_timeout parsed typed] at said
  refine ⟨said, ?_⟩
  intro accepted worker member
  rw [startServer_timeout member, said]

structure OptionsMean (text : CString) : Prop where
  timeout : Means text 1 maxTimeout (getTimeout text).toNat
  port : Means text minPort maxPort (getPort text).toNat
  handedOn : HandedOn text

/-- The options mean what they say exactly for texts that do not stand for a timeout
between 256 and the limit. -/
theorem optionsMean_iff (text : CString) :
    OptionsMean text ↔ ¬ ∃ value, DecimalLong text.bytes value ∧ 256 ≤ value ∧
      value ≤ maxTimeout := by
  constructor
  · intro promised
    exact (getTimeout_means_iff text).mp promised.timeout
  · intro narrow
    have means := (getTimeout_means_iff text).mpr narrow
    exact ⟨means, getPort_means text, handedOn_of_means means⟩

theorem largest_timeout_is_cut :
    getTimeout (CString.ofBuffer (ascii "300")) = 44 ∧
      ¬ OptionsMean (CString.ofBuffer (ascii "300")) := by
  have isDecimal : DecimalLong (CString.ofBuffer (ascii "300")).bytes 300 :=
    strToLong_eq_some_iff.mp (by decide +kernel)
  constructor
  · decide +kernel
  · intro promised
    exact (getTimeout_means_iff _).mp promised.timeout ⟨300, isDecimal, by decide, by decide⟩

end FileTransfer
