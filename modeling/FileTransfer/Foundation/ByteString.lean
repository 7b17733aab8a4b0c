import Mathlib

/-! # Byte strings

C strings, fixed-width big-endian integers and the two number formats that
`sprintf` is asked for. Nothing here knows what the bytes are used for.
-/

namespace Foundation

abbrev Bytes := List UInt8

def ascii (text : String) : Bytes :=
  text.toList.map fun character => UInt8.ofNat character.toNat

example : ascii "a:1" = [97, 58, 49] := by decide

/-! ## C strings -/

/-- A string as C sees it: the bytes before the terminator, none of them NUL. -/
structure CString where
  bytes : Bytes
  nulFree : (0 : UInt8) ∉ bytes
deriving DecidableEq

namespace CString

/-- What a `char *` into a NUL-terminated buffer denotes: the bytes before the
first NUL, whatever the buffer holds after it. -/
def ofBuffer (buffer : Bytes) : CString where
  bytes := buffer.takeWhile (· ≠ 0)
  nulFree := by
    intro member
    simpa using List.mem_takeWhile_imp member

@[reducible] def length (text : CString) : Nat := text.bytes.length

@[ext] theorem ext {left right : CString} (equal : left.bytes = right.bytes) :
    left = right := by
  cases left
  cases right
  simpa using equal

theorem ofBuffer_bytes_of_nulFree {buffer : Bytes}
    (nulFree : (0 : UInt8) ∉ buffer) : (ofBuffer buffer).bytes = buffer := by
  apply List.takeWhile_eq_self_iff.mpr
  intro byte member
  have nonzero : byte ≠ 0 := fun equal => nulFree (equal ▸ member)
  simpa using nonzero

@[simp] theorem ofBuffer_bytes (text : CString) : ofBuffer text.bytes = text :=
  ext (ofBuffer_bytes_of_nulFree text.nulFree)

end CString

/-! ## Big-endian integers -/

def toBigEndian : (width : Nat) → (value : Nat) → Bytes
  | 0, _ => []
  | width + 1, value =>
      toBigEndian width (value / 256) ++ [UInt8.ofNat (value % 256)]

def ofBigEndian (bytes : Bytes) : Nat :=
  bytes.foldl (fun value byte => value * 256 + byte.toNat) 0

example : toBigEndian 2 0x1234 = [0x12, 0x34] := by decide
example : ofBigEndian [0x12, 0x34] = 0x1234 := by decide

@[simp] theorem toBigEndian_length (width value : Nat) :
    (toBigEndian width value).length = width := by
  induction width generalizing value with
  | zero => rfl
  | succ width induction => simp [toBigEndian, induction]

theorem ofBigEndian_concat (bytes : Bytes) (byte : UInt8) :
    ofBigEndian (bytes ++ [byte]) = ofBigEndian bytes * 256 + byte.toNat := by
  simp [ofBigEndian]

theorem ofBigEndian_lt (bytes : Bytes) : ofBigEndian bytes < 256 ^ bytes.length := by
  induction bytes using List.reverseRecOn with
  | nil => decide
  | append_singleton bytes byte induction =>
      have bounded := byte.toNat_lt
      rw [ofBigEndian_concat, List.length_append, List.length_singleton, Nat.pow_succ]
      omega

theorem ofBigEndian_toBigEndian {width value : Nat}
    (fits : value < 256 ^ width) :
    ofBigEndian (toBigEndian width value) = value := by
  induction width generalizing value with
  | zero =>
      have isZero : value = 0 := by simpa using fits
      simp [toBigEndian, ofBigEndian, isZero]
  | succ width induction =>
      have highFits : value / 256 < 256 ^ width := by
        rw [Nat.div_lt_iff_lt_mul (by decide)]
        simpa [Nat.pow_succ] using fits
      have low : (UInt8.ofNat (value % 256)).toNat = value % 256 :=
        UInt8.toNat_ofNat_of_lt' (Nat.mod_lt _ (by decide))
      rw [toBigEndian, ofBigEndian_concat, induction highFits, low]
      omega

theorem toBigEndian_ofBigEndian (bytes : Bytes) :
    toBigEndian bytes.length (ofBigEndian bytes) = bytes := by
  induction bytes using List.reverseRecOn with
  | nil => rfl
  | append_singleton bytes byte induction =>
      have bounded := byte.toNat_lt
      have high : (ofBigEndian bytes * 256 + byte.toNat) / 256 = ofBigEndian bytes := by omega
      have low : (ofBigEndian bytes * 256 + byte.toNat) % 256 = byte.toNat := by omega
      rw [List.length_append, List.length_singleton, ofBigEndian_concat, toBigEndian, high, low,
        induction, UInt8.ofNat_toNat]

theorem toBigEndian_injective {width value other : Nat} (fits : value < 256 ^ width)
    (fits' : other < 256 ^ width) (same : toBigEndian width value = toBigEndian width other) :
    value = other := by
  rw [← ofBigEndian_toBigEndian fits, same, ofBigEndian_toBigEndian fits']

/-! ## Number formats -/

def digitZero : UInt8 := 48

def decimal (value : Nat) : Bytes :=
  if value = 0 then [digitZero]
  else ((Nat.digits 10 value).map fun digit => UInt8.ofNat (48 + digit)).reverse

example : decimal 0 = ascii "0" := by decide
example : decimal 4096 = ascii "4096" := by decide

def decimalDigits (value : Nat) : List Nat :=
  if value = 0 then [0] else (Nat.digits 10 value).reverse

theorem decimal_eq (value : Nat) :
    decimal value = (decimalDigits value).map fun digit => UInt8.ofNat (48 + digit) := by
  rw [decimal, decimalDigits]
  split
  · rfl
  · rw [List.map_reverse]

theorem decimalDigits_ne_nil (value : Nat) : decimalDigits value ≠ [] := by
  rw [decimalDigits]
  split
  · simp
  · rename_i nonzero
    simpa [Nat.digits_eq_nil_iff_eq_zero] using nonzero

theorem decimalDigits_lt {value digit : Nat} (member : digit ∈ decimalDigits value) :
    digit < 10 := by
  rw [decimalDigits] at member
  split at member
  · simp at member
    omega
  · exact Nat.digits_lt_base (by decide) (List.mem_reverse.mp member)

theorem decimalDigits_value (value : Nat) :
    (decimalDigits value).foldl (fun sum digit => sum * 10 + digit) 0 = value := by
  rw [decimalDigits]
  split
  · rename_i isZero
    simp [isZero]
  · have digits := Nat.ofDigits_digits 10 value
    rw [Nat.ofDigits_eq_foldr] at digits
    rw [List.foldl_reverse]
    simpa only [Nat.cast_id, Nat.mul_comm, Nat.add_comm] using digits

def hexDigit (value : Nat) : UInt8 :=
  if value < 10 then UInt8.ofNat (48 + value) else UInt8.ofNat (87 + value)

def hexByte (byte : UInt8) : Bytes :=
  [hexDigit (byte.toNat / 16), hexDigit (byte.toNat % 16)]

def hexString (bytes : Bytes) : Bytes := bytes.flatMap hexByte

example : hexString [0x5e, 0x88] = ascii "5e88" := by decide

@[simp] theorem hexString_length (bytes : Bytes) :
    (hexString bytes).length = 2 * bytes.length := by
  induction bytes with
  | nil => rfl
  | cons byte rest induction =>
      simp only [hexString, List.flatMap_cons, List.length_append] at induction ⊢
      simp [hexByte, induction, Nat.mul_add]
      omega

end Foundation
