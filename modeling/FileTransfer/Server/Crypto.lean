import FileTransfer.Posix.Scan
import FileTransfer.Server.Types

/-! # `server_crypto.c` -/

namespace FileTransfer

open Foundation Posix

def hashByteArray (sha : Sha256) (byteArray : Bytes) : Bytes := sha.digest byteArray

def hashCompare : (leftArray rightArray : Bytes) → (size : Nat) → Except Fault Bool
  | _, _, 0 => .ok true
  | left :: lefts, right :: rights, size + 1 =>
      if left ≠ right then .ok false else hashCompare lefts rights size
  | _, _, _ + 1 => .error .overread

def hashBytesMatch (hash array : Bytes) : Except Fault Bool :=
  if hash.length ≠ array.length then .ok false
  else hashCompare hash array array.length

def hashHashTMatch (leftHash rightHash : Bytes) : Except Fault Bool :=
  if rightHash.length ≠ leftHash.length then .ok false
  else hashCompare leftHash rightHash leftHash.length

theorem hashCompare_eq (left right : Bytes) (sameSize : left.length = right.length) :
    hashCompare left right left.length = .ok (decide (left = right)) := by
  induction left generalizing right with
  | nil =>
      have isNil : right = [] := List.length_eq_zero_iff.mp sameSize.symm
      simp [hashCompare, isNil]
  | cons byte left induction =>
      cases right with
      | nil => simp at sameSize
      | cons other right =>
          have equal := induction right (by simpa using sameSize)
          by_cases same : byte = other
          · simp [hashCompare, same, equal]
          · simp [hashCompare, same]

@[simp] theorem hashHashTMatch_eq (left right : Bytes) :
    hashHashTMatch left right = .ok (decide (left = right)) := by
  rw [hashHashTMatch]
  split
  · rename_i different
    have unequal : left ≠ right := fun equal => different (equal ▸ rfl)
    simp [unequal]
  · rename_i sameSize
    exact hashCompare_eq left right (not_not.mp sameSize).symm

@[simp] theorem hashBytesMatch_eq (hash array : Bytes) :
    hashBytesMatch hash array = .ok (decide (hash = array)) := by
  rw [hashBytesMatch]
  split
  · rename_i different
    have unequal : hash ≠ array := fun equal => different (equal ▸ rfl)
    simp [unequal]
  · rename_i sameSize
    rw [← not_not.mp sameSize]
    exact hashCompare_eq hash array (not_not.mp sameSize)

/-- The loop of `hex_char_to_byte_array`: so many bytes still to be read from
the memory at the current index. A conversion that fails without reaching the
end of the string leaves the index where it was, and the loop tries again. -/
def hexCharLoop : (remaining : Nat) → (memory : Bytes) → Except Fault (Option Bytes)
  | 0, _ => .ok (some [])
  | remaining + 1, memory =>
      match Scan.byteValue 16 2 memory with
      | .value byte _ => do
          let bytes ← hexCharLoop remaining (memory.drop 2)
          return bytes.map (byte :: ·)
      | .ended => .ok none
      | .mismatch => .error .noProgress
      | .overread => .error .overread

def hexCharToByteArray (hashStr : CString) (hashSize : Nat) :
    Except Fault (Option Bytes) :=
  if hashSize = 0 then .ok none
  else if hashSize % 2 ≠ 0 then .ok none
  else hexCharLoop (hashSize / 2) (hashStr.bytes ++ [0])

/-- The loop, which is that of `hash_compare`, goes by the size of the decoded array. -/
def hashPassMatch (hash : Bytes) (input : CString) (length : Nat) : Except Fault Bool := do
  match ← hexCharToByteArray input length with
  | none => return false
  | some pwHash => hashCompare pwHash hash pwHash.length

/-! ## Reading digits in pairs -/

def lowerCase (byte : UInt8) : UInt8 := if 65 ≤ byte ∧ byte ≤ 90 then byte + 32 else byte

def hexValue (digit : UInt8) : Nat := (Scan.digitValue digit).getD 0

def unhex : Bytes → Bytes
  | high :: low :: rest => UInt8.ofNat (hexValue high * 16 + hexValue low) :: unhex rest
  | _ => []

theorem isDigit_hexDigit {value : Nat} (small : value < 16) :
    Scan.isDigit 16 (hexDigit value) = true ∧ hexValue (hexDigit value) = value := by
  have all : ∀ value : Fin 16, Scan.isDigit 16 (hexDigit value) = true ∧
      hexValue (hexDigit value) = value.val := by decide
  exact all ⟨value, small⟩

theorem hexDigit_hexValue {digit : UInt8} (isDigit : Scan.isDigit 16 digit = true) :
    hexValue digit < 16 ∧ hexDigit (hexValue digit) = lowerCase digit := by
  revert digit
  decide +kernel

theorem isDigit_of_mem_hexString {bytes : Bytes} {digit : UInt8}
    (member : digit ∈ hexString bytes) : Scan.isDigit 16 digit = true := by
  rcases List.mem_flatMap.mp member with ⟨byte, _, among⟩
  have bounded := byte.toNat_lt
  simp only [hexByte, List.mem_cons, List.not_mem_nil, or_false] at among
  rcases among with rfl | rfl
  · exact (isDigit_hexDigit (by omega)).1
  · exact (isDigit_hexDigit (by omega)).1

theorem unhex_hexString (bytes : Bytes) : unhex (hexString bytes) = bytes := by
  induction bytes with
  | nil => rfl
  | cons byte bytes induction =>
      have bounded := byte.toNat_lt
      have digits : hexString (byte :: bytes) =
          hexDigit (byte.toNat / 16) :: hexDigit (byte.toNat % 16) :: hexString bytes := rfl
      rw [digits, unhex, induction, (isDigit_hexDigit (by omega)).2,
        (isDigit_hexDigit (by omega)).2, Nat.div_add_mod', UInt8.ofNat_toNat]

theorem hexString_unhex {text : Bytes} (even : text.length % 2 = 0)
    (digits : ∀ byte ∈ text, Scan.isDigit 16 byte = true) :
    hexString (unhex text) = text.map lowerCase := by
  induction text using unhex.induct with
  | case1 high low rest induction =>
      rcases hexDigit_hexValue (digits high (.head _)) with ⟨highSmall, highPrinted⟩
      rcases hexDigit_hexValue (digits low (.tail _ (.head _))) with ⟨lowSmall, lowPrinted⟩
      have shorter : rest.length % 2 = 0 := by
        simp only [List.length_cons] at even
        omega
      have behind := induction shorter fun byte among => digits byte (.tail _ (.tail _ among))
      have value : (UInt8.ofNat (hexValue high * 16 + hexValue low)).toNat =
          hexValue high * 16 + hexValue low :=
        UInt8.toNat_ofNat_of_lt' (by change hexValue high * 16 + hexValue low < 256; omega)
      have upper : (hexValue high * 16 + hexValue low) / 16 = hexValue high := by omega
      have lower : (hexValue high * 16 + hexValue low) % 16 = hexValue low := by omega
      rw [unhex, hexString, List.flatMap_cons, ← hexString, behind, hexByte, value, upper, lower,
        highPrinted, lowPrinted]
      rfl
  | case2 text short =>
      cases text with
      | nil => rfl
      | cons byte rest =>
          cases rest with
          | nil => simp at even
          | cons other rest => exact absurd rfl (short byte other rest)

theorem byteValue_digitPair {high low : UInt8} (highDigit : Scan.isDigit 16 high = true)
    (lowDigit : Scan.isDigit 16 low = true) (rest : Bytes) :
    Scan.byteValue 16 2 (high :: low :: rest) =
      .value (UInt8.ofNat (hexValue high * 16 + hexValue low)) rest := by
  have notLetter : ∀ digit : UInt8, Scan.isDigit 16 digit = true →
      digit ≠ 120 ∧ digit ≠ 88 := by
    decide +kernel
  have highSmall := (hexDigit_hexValue highDigit).1
  have lowSmall := (hexDigit_hexValue lowDigit).1
  have value : Scan.unsignedLong false (Scan.digitsValue 16 [high, low]) =
      hexValue high * 16 + hexValue low := by
    have sum : Scan.digitsValue 16 [high, low] = hexValue high * 16 + hexValue low := by
      simp [Scan.digitsValue, hexValue]
    rw [sum, Scan.unsignedLong, if_neg (by omega)]
    rfl
  rw [← value]
  change Scan.byteValue 16 2 ([high, low] ++ rest) = _
  apply Scan.byteValue_digits (List.cons_ne_nil _ _) _ (le_refl 2) (.inl rfl)
  · simp [Scan.hexPrefixed, notLetter low lowDigit]
  · intro digit among
    simp only [List.mem_cons, List.not_mem_nil, or_false] at among
    rcases among with rfl | rfl
    · exact highDigit
    · exact lowDigit

theorem hexCharLoop_digits {text : Bytes} {remaining : Nat}
    (size : text.length = 2 * remaining)
    (digits : ∀ byte ∈ text, Scan.isDigit 16 byte = true) (rest : Bytes) :
    hexCharLoop remaining (text ++ rest) = .ok (some (unhex text)) := by
  induction remaining generalizing text with
  | zero =>
      rw [List.length_eq_zero_iff.mp size]
      rfl
  | succ remaining induction =>
      rcases text with _ | ⟨high, _ | ⟨low, text⟩⟩
      · simp at size
      · simp only [List.length_cons, List.length_nil] at size
        omega
      · have shorter : text.length = 2 * remaining := by
          simp only [List.length_cons] at size
          omega
        have decoded := induction shorter fun byte among =>
          digits byte (.tail _ (.tail _ among))
        have read := byteValue_digitPair (digits high (.head _)) (digits low (.tail _ (.head _)))
          (text ++ rest)
        simp only [List.cons_append, hexCharLoop, read, List.drop_succ_cons, List.drop_zero,
          decoded]
        rfl

theorem hexCharToByteArray_digits {hashStr : CString} (nonempty : hashStr.length ≠ 0)
    (even : hashStr.length % 2 = 0)
    (digits : ∀ byte ∈ hashStr.bytes, Scan.isDigit 16 byte = true) :
    hexCharToByteArray hashStr hashStr.length = .ok (some (unhex hashStr.bytes)) := by
  rw [hexCharToByteArray, if_neg nonempty, if_neg (not_not.mpr even)]
  exact hexCharLoop_digits (by rw [CString.length] at even ⊢; omega) digits [0]

end FileTransfer
