import FileTransfer.Foundation.ByteString

/-! # Scanning

The conversions of `sscanf` over memory that holds a NUL-terminated string. A
byte is looked at only when the conversion needs it; memory that ends first is
read beyond its end.
-/

namespace Posix

open Foundation

inductive Scanned (α : Type)
  | value (value : α) (rest : Bytes)
  /-- The next byte does not fit the directive. -/
  | mismatch
  /-- The string ends before the directive has begun. -/
  | ended
  | overread
deriving DecidableEq

namespace Scan

/-- The bytes up to the first that is not accepted, at most `width` of them;
`none` when memory runs out first. -/
def takeSet (accepted : UInt8 → Bool) : (width : Nat) → Bytes → Option (Bytes × Bytes)
  | 0, memory => some ([], memory)
  | _ + 1, [] => none
  | width + 1, byte :: rest =>
      if byte ≠ 0 ∧ accepted byte then
        (takeSet accepted width rest).map fun (taken, rest) => (byte :: taken, rest)
      else some ([], byte :: rest)

theorem takeSet_append {accepted : UInt8 → Bool} {text rest : Bytes} {width : Nat}
    (inSet : ∀ byte ∈ text, byte ≠ 0 ∧ accepted byte = true)
    (fits : text.length ≤ width)
    (stops : text.length = width ∨
      ∃ byte tail, rest = byte :: tail ∧ (byte = 0 ∨ accepted byte = false)) :
    takeSet accepted width (text ++ rest) = some (text, rest) := by
  induction text generalizing width with
  | nil =>
      rcases stops with exhausted | ⟨byte, tail, rfl, stop⟩
      · subst exhausted
        rfl
      · cases width with
        | zero => rfl
        | succ width =>
            rcases stop with isNul | refused
            · simp [takeSet, isNul]
            · simp [takeSet, refused]
  | cons byte text induction =>
      cases width with
      | zero => simp at fits
      | succ width =>
          have head := inSet byte List.mem_cons_self
          have tail : takeSet accepted width (text ++ rest) = some (text, rest) := by
            refine induction (fun later member => inSet later (.tail _ member)) ?_ ?_
            · simpa using fits
            · simpa using stops
          simp [takeSet, head, tail]

def set (accepted : UInt8 → Bool) (width : Nat) (memory : Bytes) : Scanned Bytes :=
  match takeSet accepted width memory with
  | none => .overread
  | some ([], rest) => if rest.head? = some 0 then .ended else .mismatch
  | some (taken, rest) => .value taken rest

theorem set_append {accepted : UInt8 → Bool} {text rest : Bytes} {width : Nat}
    (nonempty : text ≠ [])
    (inSet : ∀ byte ∈ text, byte ≠ 0 ∧ accepted byte = true)
    (fits : text.length ≤ width)
    (stops : text.length = width ∨
      ∃ byte tail, rest = byte :: tail ∧ (byte = 0 ∨ accepted byte = false)) :
    set accepted width (text ++ rest) = .value text rest := by
  rw [set, takeSet_append inSet fits stops]
  cases text with
  | nil => exact absurd rfl nonempty
  | cons byte text => rfl

def literal (expected : UInt8) : Bytes → Scanned Unit
  | [] => .overread
  | byte :: rest =>
      if byte = 0 then .ended
      else if byte = expected then .value () rest
      else .mismatch

/-! ## Numbers -/

def isSpace (byte : UInt8) : Bool := byte = 32 ∨ (9 ≤ byte ∧ byte ≤ 13)

def isSign (byte : UInt8) : Bool := byte = 43 ∨ byte = 45

def digitValue (byte : UInt8) : Option Nat :=
  if 48 ≤ byte ∧ byte ≤ 57 then some (byte.toNat - 48)
  else if 65 ≤ byte ∧ byte ≤ 70 then some (byte.toNat - 55)
  else if 97 ≤ byte ∧ byte ≤ 102 then some (byte.toNat - 87)
  else none

def isDigit (base : Nat) (byte : UInt8) : Bool :=
  match digitValue byte with
  | some value => value < base
  | none => false

def digitsValue (base : Nat) (digits : Bytes) : Nat :=
  digits.foldl (fun value digit => value * base + (digitValue digit).getD 0) 0

/-- What `strtoul` makes of a sign and digits, on 64 bits: values too large
become the largest, others are negated on demand. -/
def unsignedLong (negative : Bool) (value : Nat) : Nat :=
  if 2 ^ 64 ≤ value then 2 ^ 64 - 1
  else if negative then (2 ^ 64 - value) % 2 ^ 64
  else value

def skipSpace (memory : Bytes) : Bytes := memory.dropWhile isSpace

/-- `0x` or `0X`, which may stand before hexadecimal digits. It takes two bytes
of the width, and digits have to follow. -/
def hexPrefixed (base width : Nat) : Bytes → Bool
  | zero :: letter :: _ =>
      base = 16 ∧ 2 ≤ width ∧ zero = 48 ∧ (letter = 120 ∨ letter = 88)
  | _ => false

/-- `%hhu` (base 10) and `%hhx` (base 16): white space, which the width does not
count, then a sign or none, then digits. The value is cut to one byte. -/
def byteValue (base width : Nat) (memory : Bytes) : Scanned UInt8 :=
  match skipSpace memory with
  | [] => .overread
  | first :: others =>
      if first = 0 then .ended
      else
        let signed := isSign first
        let number := if signed then others else first :: others
        let width := if signed then width - 1 else width
        let digits :=
          if hexPrefixed base width number then
            takeSet (isDigit base) (width - 2) (number.drop 2)
          else takeSet (isDigit base) width number
        match digits with
        | none => .overread
        | some ([], _) => .mismatch
        | some (digits, rest) =>
            .value (UInt8.ofNat (unsignedLong (first = 45) (digitsValue base digits)))
              rest

def unbounded (memory : Bytes) : Nat := memory.length + 1

example : byteValue 10 9 (ascii " 258:") = .value 2 (ascii ":") := by decide
example : byteValue 10 9 (ascii "-1:") = .value 255 (ascii ":") := by decide
example : byteValue 16 2 (ascii "0x7") = .mismatch := by decide
example : byteValue 16 2 (ascii "5e8") = .value 0x5e (ascii "8") := by decide

theorem isDigit_plain {base : Nat} {byte : UInt8} (digit : isDigit base byte = true) :
    isSpace byte = false ∧ isSign byte = false ∧ byte ≠ 0 ∧ byte ≠ 45 := by
  have known : (digitValue byte).isSome = true := by
    rw [isDigit] at digit
    split at digit
    · rename_i value found
      simp [found]
    · cases digit
  revert known
  clear digit
  revert byte
  decide +kernel

theorem byteValue_digits {base width : Nat} {digits rest : Bytes}
    (nonempty : digits ≠ [])
    (allDigits : ∀ byte ∈ digits, isDigit base byte = true)
    (fits : digits.length ≤ width)
    (stops : digits.length = width ∨
      ∃ byte tail, rest = byte :: tail ∧ (byte = 0 ∨ isDigit base byte = false))
    (notPrefixed : hexPrefixed base width (digits ++ rest) = false) :
    byteValue base width (digits ++ rest) =
      .value (UInt8.ofNat (unsignedLong false (digitsValue base digits))) rest := by
  have taken : takeSet (isDigit base) width (digits ++ rest) = some (digits, rest) :=
    takeSet_append (fun byte member => ⟨(isDigit_plain (allDigits byte member)).2.2.1,
      allDigits byte member⟩) fits stops
  cases digits with
  | nil => exact absurd rfl nonempty
  | cons first others =>
      rcases isDigit_plain (allDigits first List.mem_cons_self) with
        ⟨notSpace, notSign, notNul, notMinus⟩
      rw [List.cons_append] at taken notPrefixed ⊢
      simp [byteValue, skipSpace, notSpace, notNul, notSign,
        notPrefixed, taken, notMinus]

end Scan

end Posix
