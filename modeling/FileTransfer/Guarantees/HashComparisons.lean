import FileTransfer.Foundation.Fallible
import FileTransfer.Server.Crypto

/-! # Comparing hashes

Two of the three comparisons look at the sizes first. The one with a string of digits
does not, and compares as many bytes as the string stands for.
-/

namespace FileTransfer

open Foundation Posix

def Differ (left right : Bytes) : Prop :=
  ∃ (place : Nat) (byte other : UInt8),
    left[place]? = some byte ∧ right[place]? = some other ∧ byte ≠ other

namespace Differ

variable {left right : Bytes}

theorem cons_iff {byte other : UInt8} :
    Differ (byte :: left) (other :: right) ↔ byte ≠ other ∨ Differ left right := by
  constructor
  · intro differ
    rcases differ with ⟨place, found, found', atLeft, atRight, different⟩
    cases place with
    | zero =>
        cases atLeft
        cases atRight
        exact .inl different
    | succ place => exact .inr ⟨place, found, found', atLeft, atRight, different⟩
  · intro either
    rcases either with different | ⟨place, found, found', atLeft, atRight, different⟩
    · exact ⟨0, byte, other, rfl, rfl, different⟩
    · exact ⟨place + 1, found, found', atLeft, atRight, different⟩

theorem not_nil_left (right : Bytes) : ¬ Differ [] right := by
  intro differ
  rcases differ with ⟨place, byte, other, atLeft, _⟩
  cases atLeft

theorem not_nil_right (left : Bytes) : ¬ Differ left [] := by
  intro differ
  rcases differ with ⟨place, byte, other, _, atRight, _⟩
  cases atRight

theorem irrefl (bytes : Bytes) : ¬ Differ bytes bytes := by
  intro differ
  rcases differ with ⟨place, byte, other, atLeft, atRight, different⟩
  rw [atLeft] at atRight
  exact different (Option.some.inj atRight)

end Differ

theorem hashCompare_cases (left right : Bytes) :
    hashCompare left right left.length = .ok false ∧ Differ left right ∨
      hashCompare left right left.length = .ok true ∧ ¬ Differ left right ∧
        left.length ≤ right.length ∨
      hashCompare left right left.length = .error .overread ∧ ¬ Differ left right ∧
        right.length < left.length := by
  induction left generalizing right with
  | nil => exact .inr (.inl ⟨rfl, Differ.not_nil_left right, Nat.zero_le _⟩)
  | cons byte left induction =>
      cases right with
      | nil => exact .inr (.inr ⟨rfl, Differ.not_nil_right _, Nat.zero_lt_succ _⟩)
      | cons other right =>
          rw [List.length_cons, hashCompare]
          by_cases same : byte = other
          · have further : Differ (byte :: left) (other :: right) ↔ Differ left right := by
              simp [Differ.cons_iff, same]
            rw [if_neg (not_not.mpr same), further, List.length_cons, Nat.succ_le_succ_iff,
              Nat.succ_lt_succ_iff]
            exact induction right
          · rw [if_pos same]
            exact .inl ⟨rfl, Differ.cons_iff.mpr (.inl same)⟩

theorem hashPassMatch_digits (hash : Bytes) {input : CString} (even : input.length % 2 = 0)
    (digits : ∀ byte ∈ input.bytes, Scan.isDigit 16 byte = true) :
    hashPassMatch hash input input.length =
      if input.length = 0 then .ok false
      else hashCompare (unhex input.bytes) hash (unhex input.bytes).length := by
  rw [hashPassMatch]
  by_cases empty : input.length = 0
  · rw [if_pos empty, hexCharToByteArray, if_pos empty]
    rfl
  · rw [if_neg empty, hexCharToByteArray_digits empty even digits]
    rfl

def ComparisonsAgree (hash : Bytes) (input : CString) : Prop :=
  ∃ matched, hashPassMatch hash input input.length = .ok matched ∧
    hashBytesMatch hash (unhex input.bytes) = .ok matched ∧
    hashHashTMatch hash (unhex input.bytes) = .ok matched ∧
    (matched = true ↔ hash = unhex input.bytes)

def Comparable (hash : Bytes) (input : CString) : Prop :=
  if input.length = 0 then hash.length ≠ 0
  else hash.length = (unhex input.bytes).length ∨ Differ (unhex input.bytes) hash

theorem comparisonsAgree_iff_pass {hash : Bytes} {input : CString} :
    ComparisonsAgree hash input ↔ hashPassMatch hash input input.length =
      .ok (decide (hash = unhex input.bytes)) := by
  constructor
  · intro agree
    rcases agree with ⟨matched, pass, _, bytes, _⟩
    rw [hashHashTMatch_eq] at bytes
    rw [pass, bytes]
  · intro pass
    exact ⟨_, pass, hashBytesMatch_eq _ _, hashHashTMatch_eq _ _, decide_eq_true_iff⟩

/-- The comparisons agree on the digits of a hash exactly if the arrays can be told apart,
or found the same, within the shorter one. -/
theorem comparisonsAgree_iff {hash : Bytes} {input : CString} (even : input.length % 2 = 0)
    (digits : ∀ byte ∈ input.bytes, Scan.isDigit 16 byte = true) :
    ComparisonsAgree hash input ↔ Comparable hash input := by
  rw [comparisonsAgree_iff_pass, hashPassMatch_digits hash even digits, Comparable]
  by_cases empty : input.length = 0
  · have nothing : unhex input.bytes = [] := by
      rw [List.length_eq_zero_iff.mp empty]
      rfl
    simp [empty, nothing, List.length_eq_zero_iff]
  · rw [if_neg empty, if_neg empty]
    rcases hashCompare_cases (unhex input.bytes) hash with
      ⟨compared, differ⟩ | ⟨compared, alike, shorter⟩ | ⟨compared, alike, longer⟩
    · have unequal : hash ≠ unhex input.bytes := by
        intro equal
        rw [equal] at differ
        exact Differ.irrefl _ differ
      rw [compared]
      exact iff_of_true (by rw [decide_eq_false unequal]) (.inr differ)
    · rw [compared]
      constructor
      · intro same
        have equal : hash = unhex input.bytes := of_decide_eq_true (Except.ok.inj same).symm
        exact .inl (congrArg List.length equal)
      · intro comparable
        rcases comparable with sameSize | differ
        · have found := hashCompare_eq (unhex input.bytes) hash sameSize.symm
          rw [compared] at found
          have equal : unhex input.bytes = hash := of_decide_eq_true (Except.ok.inj found).symm
          rw [decide_eq_true equal.symm]
        · exact absurd differ alike
    · rw [compared]
      apply iff_of_false
      · intro same
        cases same
      · intro comparable
        rcases comparable with sameSize | differ
        · omega
        · exact alike differ

/-! A hash of two bytes, and a string that stands for one byte, or for three. -/

theorem prefix_matches_and_longer_overreads :
    hashPassMatch [1, 2] (CString.ofBuffer (ascii "01")) 2 = .ok true ∧
      hashBytesMatch [1, 2] (unhex (ascii "01")) = .ok false ∧
      hashPassMatch [1, 2] (CString.ofBuffer (ascii "010203")) 6 = .error .overread := by
  decide +kernel

theorem comparisonsAgree_iff_two_bytes :
    ComparisonsAgree [1, 2] (CString.ofBuffer (ascii "0102")) ↔
      Comparable [1, 2] (CString.ofBuffer (ascii "0102")) :=
  comparisonsAgree_iff (by decide +kernel) (by decide +kernel)

end FileTransfer
