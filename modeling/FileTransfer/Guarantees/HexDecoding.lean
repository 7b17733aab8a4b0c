import FileTransfer.Foundation.Fallible
import FileTransfer.Server.Crypto

/-! # Decoding hexadecimal digests

The decoder reads one byte from every two characters. It stops where a conversion meets
the end of the string, and tries again for ever where one meets a character that does not
fit; and a conversion takes more than digits: white space before them, and a sign.
-/

namespace FileTransfer

open Foundation Posix

/-! ## Strings of digits -/

structure IsHex (text : Bytes) : Prop where
  nonempty : text ≠ []
  even : text.length % 2 = 0
  digits : ∀ byte ∈ text, Scan.isDigit 16 byte = true

/-! ## One conversion -/

def StartsWithDigit (text : Bytes) : Prop :=
  ∃ digit, text.head? = some digit ∧ Scan.isDigit 16 digit = true

/-- A conversion at the start of `text` yields a byte: white space, then a digit that does
not begin a prefix, or a sign and a digit. -/
def Converts (text : Bytes) : Prop :=
  ∃ first rest, Scan.skipSpace text = first :: rest ∧
    (Scan.isDigit 16 first = true ∧ Scan.hexPrefixed 16 2 (first :: rest) = false ∨
      Scan.isSign first = true ∧ StartsWithDigit rest)

def Blank (text : Bytes) : Prop := ∀ byte ∈ text, Scan.isSpace byte = true

theorem takeSet_terminated {accepted : UInt8 → Bool} {text : Bytes} (noNul : 0 ∉ text)
    (width : Nat) :
    ∃ rest, Scan.takeSet accepted width (text ++ [0]) =
      some ((text.take width).takeWhile accepted, rest) := by
  induction text generalizing width with
  | nil =>
      cases width with
      | zero => exact ⟨_, rfl⟩
      | succ width => exact ⟨_, rfl⟩
  | cons byte text induction =>
      cases width with
      | zero => exact ⟨_, rfl⟩
      | succ width =>
          simp only [List.mem_cons, not_or] at noNul
          by_cases inSet : accepted byte = true
          · rcases induction noNul.2 width with ⟨rest, taken⟩
            refine ⟨rest, ?_⟩
            simp [Scan.takeSet, Ne.symm noNul.1, inSet, taken]
          · exact ⟨byte :: (text ++ [0]), by simp [Scan.takeSet, inSet]⟩

theorem takeDigits_terminated {text : Bytes} (noNul : 0 ∉ text) (width : Nat) :
    (StartsWithDigit text ∧ ∃ digit digits rest,
        Scan.takeSet (Scan.isDigit 16) (width + 1) (text ++ [0]) =
          some (digit :: digits, rest)) ∨
      ¬ StartsWithDigit text ∧ ∃ rest,
        Scan.takeSet (Scan.isDigit 16) (width + 1) (text ++ [0]) = some ([], rest) := by
  rcases takeSet_terminated noNul (width + 1) with ⟨rest, taken⟩
  cases text with
  | nil => exact .inr ⟨by simp [StartsWithDigit], rest, taken⟩
  | cons byte text =>
      by_cases digit : Scan.isDigit 16 byte = true
      · rw [List.take_succ_cons, List.takeWhile_cons_of_pos digit] at taken
        exact .inl ⟨⟨byte, rfl, digit⟩, byte, _, rest, taken⟩
      · rw [List.take_succ_cons, List.takeWhile_cons_of_neg digit] at taken
        exact .inr ⟨by simpa [StartsWithDigit] using digit, rest, taken⟩

theorem skipSpace_terminated (text : Bytes) :
    Scan.skipSpace (text ++ [0]) = Scan.skipSpace text ++ [0] := by
  have notSpace : Scan.isSpace 0 = false := by decide
  rw [Scan.skipSpace, Scan.skipSpace, List.dropWhile_append]
  cases behind : text.dropWhile Scan.isSpace with
  | nil => simp [notSpace]
  | cons byte rest => rfl

inductive Conversion (text : Bytes) : Prop
  | blank (allBlank : Blank text) (result : Scan.byteValue 16 2 (text ++ [0]) = .ended)
  | value (converts : Converts text) (byte : UInt8) (rest : Bytes)
      (result : Scan.byteValue 16 2 (text ++ [0]) = .value byte rest)
  | mismatch (notBlank : ¬ Blank text) (refused : ¬ Converts text)
      (result : Scan.byteValue 16 2 (text ++ [0]) = .mismatch)

theorem Converts.notBlank {text : Bytes} (converts : Converts text) : ¬ Blank text := by
  intro allBlank
  rcases converts with ⟨first, rest, cell, _⟩
  rw [Scan.skipSpace, List.dropWhile_eq_nil_iff.mpr allBlank] at cell
  cases cell

section Cell

variable {text rest : Bytes} {first : UInt8}

theorem conversion_signed (noNul : 0 ∉ first :: rest)
    (cell : Scan.skipSpace text = first :: rest) (notBlank : ¬ Blank text)
    (signed : Scan.isSign first = true) : Conversion text := by
  rcases not_or.mp (mt List.mem_cons.mpr noNul) with ⟨notNul, restNoNul⟩
  have notNul := Ne.symm notNul
  have skipped := skipSpace_terminated text
  have plain : Scan.hexPrefixed 16 1 (rest ++ [0]) = false := by
    cases rest ++ [0] with
    | nil => rfl
    | cons byte others => cases others <;> simp [Scan.hexPrefixed]
  rcases takeDigits_terminated restNoNul 0 with
    ⟨starts, digit, digits, left, taken⟩ | ⟨starts, left, taken⟩
  · apply Conversion.value ⟨first, rest, cell, .inr ⟨signed, starts⟩⟩
    simp only [Scan.byteValue, skipped, cell, List.cons_append, notNul, signed, if_true,
      if_false, plain, Bool.false_eq_true, taken]
    rfl
  · apply Conversion.mismatch notBlank
    · have digitNotSign : ∀ byte : UInt8, Scan.isSign byte = true →
          Scan.isDigit 16 byte = false := by
        decide +kernel
      rintro ⟨first', rest', same, ⟨digit, _⟩ | ⟨_, starts'⟩⟩
      · rw [cell, List.cons.injEq] at same
        rw [← same.1, digitNotSign first signed] at digit
        cases digit
      · rw [cell, List.cons.injEq] at same
        exact starts (same.2 ▸ starts')
    · simp [Scan.byteValue, skipped, cell, notNul, signed, plain, taken]

theorem conversion_unsigned (noNul : 0 ∉ first :: rest)
    (cell : Scan.skipSpace text = first :: rest) (notBlank : ¬ Blank text)
    (signed : ¬ Scan.isSign first = true) : Conversion text := by
  have notNul : first ≠ 0 := fun isNul => noNul (isNul ▸ .head _)
  have skipped := skipSpace_terminated text
  have prefixed : Scan.hexPrefixed 16 2 (first :: (rest ++ [0])) =
      Scan.hexPrefixed 16 2 (first :: rest) := by
    cases rest with
    | nil => simp [Scan.hexPrefixed]
    | cons byte others => rfl
  have unsigned : ∀ first' rest', Scan.skipSpace text = first' :: rest' →
      Scan.isSign first' = true → False := by
    intro first' rest' same signed'
    rw [cell, List.cons.injEq] at same
    exact signed (same.1 ▸ signed')
  by_cases isPrefix : Scan.hexPrefixed 16 2 (first :: rest) = true
  · apply Conversion.mismatch notBlank
    · rintro ⟨first', rest', same, ⟨_, plain⟩ | ⟨signed', _⟩⟩
      · rw [← same, cell, isPrefix] at plain
        cases plain
      · exact unsigned first' rest' same signed'
    · simp [Scan.byteValue, skipped, cell, notNul, signed, prefixed, isPrefix, Scan.takeSet]
  · have plain : Scan.hexPrefixed 16 2 (first :: rest) = false := by simpa using isPrefix
    rcases takeDigits_terminated noNul 1 with
      ⟨⟨digit, isFirst, isDigit⟩, digit', digits, left, taken⟩ | ⟨starts, left, taken⟩
    · cases isFirst
      rw [List.cons_append] at taken
      apply Conversion.value ⟨first, rest, cell, .inl ⟨isDigit, plain⟩⟩
      simp only [Scan.byteValue, skipped, cell, List.cons_append, notNul, signed,
        Bool.false_eq_true, if_false, prefixed, plain, taken]
      rfl
    · apply Conversion.mismatch notBlank
      · rintro ⟨first', rest', same, ⟨digit, _⟩ | ⟨signed', _⟩⟩
        · rw [cell, List.cons.injEq] at same
          exact starts ⟨first, rfl, same.1 ▸ digit⟩
        · exact unsigned first' rest' same signed'
      · rw [List.cons_append] at taken
        simp [Scan.byteValue, skipped, cell, notNul, signed, prefixed, plain, taken]

end Cell

theorem conversion_cases {text : Bytes} (noNul : 0 ∉ text) : Conversion text := by
  cases cell : Scan.skipSpace text with
  | nil =>
      apply Conversion.blank
      · exact List.dropWhile_eq_nil_iff.mp cell
      · simp [Scan.byteValue, skipSpace_terminated, cell]
  | cons first rest =>
      have noNul' : 0 ∉ first :: rest := by
        rw [← cell]
        exact fun member => noNul ((List.dropWhile_suffix _).mem member)
      have notBlank : ¬ Blank text := by
        intro allBlank
        rw [Scan.skipSpace, List.dropWhile_eq_nil_iff.mpr allBlank] at cell
        cases cell
      by_cases signed : Scan.isSign first = true
      · exact conversion_signed noNul' cell notBlank signed
      · exact conversion_unsigned noNul' cell notBlank signed

/-! ## The whole string -/

def RunsOut (text : Bytes) : Prop :=
  ∃ cell, 2 * cell < text.length ∧ (∀ earlier < cell, Converts (text.drop (2 * earlier))) ∧
    Blank (text.drop (2 * cell))

theorem runsOut_step {text : Bytes} (converts : Converts text) :
    RunsOut text ↔ RunsOut (text.drop 2) := by
  have behind : ∀ cell, (text.drop 2).drop (2 * cell) = text.drop (2 * (cell + 1)) := by
    intro cell
    rw [List.drop_drop]
    congr 1
    omega
  constructor
  · rintro ⟨cell, within, earlier, blank⟩
    cases cell with
    | zero => exact absurd blank converts.notBlank
    | succ cell =>
        refine ⟨cell, by rw [List.length_drop]; omega, ?_, by rwa [behind]⟩
        intro before less
        rw [behind]
        exact earlier (before + 1) (Nat.succ_lt_succ less)
  · rintro ⟨cell, within, earlier, blank⟩
    rw [List.length_drop] at within
    refine ⟨cell + 1, by omega, ?_, by rwa [behind] at blank⟩
    intro before less
    cases before with
    | zero => exact converts
    | succ before =>
        rw [← behind]
        exact earlier before (Nat.lt_of_succ_lt_succ less)

theorem hexCharLoop_none_iff {text : Bytes} {remaining : Nat}
    (size : text.length = 2 * remaining) (noNul : 0 ∉ text) :
    hexCharLoop remaining (text ++ [0]) = .ok none ↔ RunsOut text := by
  induction remaining generalizing text with
  | zero =>
      apply iff_of_false
      · intro impossible
        cases impossible
      · rintro ⟨cell, within, _⟩
        omega
  | succ remaining induction =>
      cases conversion_cases noNul with
      | blank allBlank result =>
          apply iff_of_true
          · simp only [hexCharLoop, result]
          · exact ⟨0, by omega, fun earlier less => absurd less (Nat.not_lt_zero _), allBlank⟩
      | value converts byte rest result =>
          have shorter : (text.drop 2).length = 2 * remaining := by
            rw [List.length_drop]
            omega
          have later : (text ++ [0]).drop 2 = text.drop 2 ++ [0] :=
            List.drop_append_of_le_length (by omega)
          rw [runsOut_step converts,
            ← induction shorter fun member => noNul (List.mem_of_mem_drop member)]
          simp only [hexCharLoop, result, later]
          cases hexCharLoop remaining (text.drop 2 ++ [0]) with
          | error fault => exact Iff.rfl
          | ok decoded => cases decoded <;> simp
      | mismatch notBlank refused result =>
          apply iff_of_false
          · simp [hexCharLoop, result]
          · rintro ⟨cell, _, earlier, blank⟩
            cases cell with
            | zero => exact notBlank blank
            | succ cell => exact refused (earlier 0 (Nat.succ_pos _))

/-- What decoding is to do: a string of hexadecimal bytes becomes the array that prints
like it, and any other string is refused. -/
structure HexExact (text : CString) : Prop where
  accepts : IsHex text.bytes → ∃ bytes,
    hexCharToByteArray text text.length = .ok (some bytes) ∧
      hexString bytes = text.bytes.map lowerCase
  refuses : ¬ IsHex text.bytes → hexCharToByteArray text text.length = .ok none

/-- Decoding is exact for strings of an odd length, for strings of digits alone, and for
those that run out before a conversion fails. -/
theorem hexExact_iff (text : CString) :
    HexExact text ↔ text.length % 2 = 1 ∨
      (∀ byte ∈ text.bytes, Scan.isDigit 16 byte = true) ∨ RunsOut text.bytes := by
  by_cases isHex : IsHex text.bytes
  · refine iff_of_true ⟨?_, fun notHex => absurd isHex notHex⟩ (.inr (.inl isHex.digits))
    intro _
    have positive := List.length_pos_iff.mpr isHex.nonempty
    exact ⟨_, hexCharToByteArray_digits (Nat.ne_of_gt positive) isHex.even isHex.digits,
      hexString_unhex isHex.even isHex.digits⟩
  · have refused : HexExact text ↔ hexCharToByteArray text text.length = .ok none :=
      ⟨fun decodes => decodes.refuses isHex, fun none =>
        ⟨fun hex => absurd hex isHex, fun _ => none⟩⟩
    rw [refused, hexCharToByteArray]
    by_cases empty : text.length = 0
    · rw [if_pos empty]
      refine iff_of_true rfl (.inr (.inl fun byte among => ?_))
      rw [List.length_eq_zero_iff.mp empty] at among
      cases among
    · rw [if_neg empty]
      by_cases odd : text.length % 2 = 1
      · rw [if_pos (by omega)]
        exact iff_of_true rfl (.inl odd)
      · have even : text.length % 2 = 0 := by omega
        have size : text.bytes.length = 2 * (text.length / 2) := by
          rw [CString.length] at even ⊢
          omega
        have notDigits : ¬ ∀ byte ∈ text.bytes, Scan.isDigit 16 byte = true := by
          intro digits
          exact isHex ⟨fun isNil => empty (by rw [CString.length, isNil]; rfl), even, digits⟩
        rw [if_neg (not_not.mpr even), hexCharLoop_none_iff size text.nulFree]
        simp only [odd, notDigits, false_or]

/-- Two letters that are no digits are tried again for ever, and a sign is taken for one
of the two characters of a byte. -/
theorem letters_decode_for_ever :
    ¬ HexExact (CString.ofBuffer (ascii "zz")) ∧
      hexCharToByteArray (CString.ofBuffer (ascii "zz")) 2 = .error .noProgress ∧
      ¬ HexExact (CString.ofBuffer (ascii "-1")) ∧
      hexCharToByteArray (CString.ofBuffer (ascii "-1")) 2 = .ok (some [255]) := by
  have notHex : ∀ text : CString, ¬ (∀ byte ∈ text.bytes, Scan.isDigit 16 byte = true) →
      ¬ IsHex text.bytes := fun _ other isHex => other isHex.digits
  refine ⟨fun decodes => ?_, by decide +kernel, fun decodes => ?_, by decide +kernel⟩
  · have refused := decodes.refuses (notHex _ (by decide +kernel))
    revert refused
    decide +kernel
  · have refused := decodes.refuses (notHex _ (by decide +kernel))
    revert refused
    decide +kernel

end FileTransfer
