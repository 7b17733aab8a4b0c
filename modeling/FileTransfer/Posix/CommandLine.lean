import FileTransfer.Posix.Scan

/-! # Command lines

`getopt` and `strtol`, with which a program takes its command line apart.
-/

namespace Posix

open Foundation

/-! ## Options -/

inductive Opt
  | flag (name : UInt8)
  | withArg (name : UInt8) (optarg : CString)
  /-- An option that is not known, or has no argument left. -/
  | unknown (optopt : UInt8)
deriving DecidableEq

structure CommandLine where
  opts : List Opt
  /-- What is left behind the options. -/
  operands : List CString

namespace CommandLine

def minus : UInt8 := 45
def colonMark : UInt8 := 58

def takesArg (name : UInt8) : (optstring : Bytes) → Option Bool
  | [] => none
  | listed :: rest =>
      if listed ≠ name ∨ name = colonMark then takesArg name rest
      else some (rest.head? = some colonMark)

def cluster (optstring : Bytes) : Bytes → List Opt × Option UInt8
  | [] => ([], none)
  | name :: rest =>
      match takesArg name optstring with
      | some true =>
          if rest = [] then ([], some name)
          else ([.withArg name (CString.ofBuffer rest)], none)
      | some false => (.flag name :: (cluster optstring rest).1, (cluster optstring rest).2)
      | none => (.unknown name :: (cluster optstring rest).1, (cluster optstring rest).2)

def scan (optstring : Bytes) : (waiting : Option UInt8) → List CString → CommandLine
  | none, [] => ⟨[], []⟩
  | some name, [] => ⟨[.unknown name], []⟩
  | some name, optarg :: later =>
      let line := scan optstring none later
      { line with opts := .withArg name optarg :: line.opts }
  | none, element :: later =>
      if element.bytes = [minus, minus] then ⟨[], later⟩
      else if element.bytes.head? = some minus ∧ element.bytes ≠ [minus] then
        let line := scan optstring (cluster optstring element.bytes.tail).2 later
        { line with opts := (cluster optstring element.bytes.tail).1 ++ line.opts }
      else
        let line := scan optstring none later
        { line with operands := element :: line.operands }

end CommandLine

def getopt (optstring : Bytes) (argv : List CString) : CommandLine :=
  CommandLine.scan optstring none argv.tail

/-! ## Numbers -/

def longMin : Int := -2 ^ 63
def longMax : Int := 2 ^ 63 - 1

/-- What `strtol` leaves behind: its result, whether it has set `errno`, and how far it
has come. -/
structure Strtol where
  value : Int
  outOfRange : Bool
  endptr : Nat
deriving DecidableEq

def splitSign : Bytes → Bytes × Bytes
  | [] => ([], [])
  | first :: rest => if Scan.isSign first then ([first], rest) else ([], first :: rest)

def signedValue (sign digits : Bytes) : Int :=
  if sign = [CommandLine.minus] then -(Scan.digitsValue 10 digits : Int)
  else Scan.digitsValue 10 digits

def nearestLong (value : Int) (endptr : Nat) : Strtol :=
  if value < longMin then ⟨longMin, true, endptr⟩
  else if longMax < value then ⟨longMax, true, endptr⟩
  else ⟨value, false, endptr⟩

/-- `strtol(str, &endptr, 10)`. Without digits nothing is taken. -/
def strtol (str : CString) : Strtol :=
  let (sign, number) := splitSign (Scan.skipSpace str.bytes)
  let digits := number.takeWhile (Scan.isDigit 10)
  if digits = [] then ⟨0, false, 0⟩
  else nearestLong (signedValue sign digits) (str.length - (number.length - digits.length))

example : strtol (CString.ofBuffer (ascii " -42x")) = ⟨-42, false, 4⟩ := by decide +kernel

structure DecimalText (text : Bytes) (sign digits : Bytes) : Prop where
  spelled : ∃ blanks, text = blanks ++ (sign ++ digits) ∧ ∀ byte ∈ blanks, Scan.isSpace byte = true
  signed : sign = [] ∨ ∃ byte, sign = [byte] ∧ Scan.isSign byte = true
  nonempty : digits ≠ []
  decimal : ∀ byte ∈ digits, Scan.isDigit 10 byte = true

def DecimalLong (text : Bytes) (value : Int) : Prop :=
  ∃ sign digits, DecimalText text sign digits ∧ value = signedValue sign digits ∧
    longMin ≤ value ∧ value ≤ longMax

theorem splitSign_append (bytes : Bytes) :
    (splitSign bytes).1 ++ (splitSign bytes).2 = bytes := by
  cases bytes with
  | nil => rfl
  | cons first rest =>
      rw [splitSign]
      split <;> rfl

theorem splitSign_signed (bytes : Bytes) :
    (splitSign bytes).1 = [] ∨
      ∃ byte, (splitSign bytes).1 = [byte] ∧ Scan.isSign byte = true := by
  cases bytes with
  | nil => exact .inl rfl
  | cons first rest =>
      rw [splitSign]
      split
      · rename_i isSign
        exact .inr ⟨first, rfl, isSign⟩
      · exact .inl rfl

theorem isSign_not_space {byte : UInt8} (sign : Scan.isSign byte = true) :
    Scan.isSpace byte = false := by
  revert byte
  decide +kernel

namespace DecimalText

variable {text sign digits : Bytes}

theorem skipSpace (decimal : DecimalText text sign digits) :
    Scan.skipSpace text = sign ++ digits := by
  rcases decimal.spelled with ⟨blanks, rfl, blank⟩
  rw [Scan.skipSpace, List.dropWhile_append_of_pos blank]
  rcases decimal.signed with unsigned | ⟨byte, signed, isSign⟩
  · cases digits with
    | nil => exact absurd rfl decimal.nonempty
    | cons digit digits =>
        have plain := Scan.isDigit_plain (decimal.decimal digit List.mem_cons_self)
        rw [unsigned, List.nil_append, List.dropWhile_cons_of_neg (by simp [plain.1])]
  · rw [signed, List.singleton_append,
      List.dropWhile_cons_of_neg (by simp [isSign_not_space isSign])]

theorem splitSign (decimal : DecimalText text sign digits) :
    Posix.splitSign (sign ++ digits) = (sign, digits) := by
  rcases decimal.signed with unsigned | ⟨byte, signed, isSign⟩
  · cases digits with
    | nil => exact absurd rfl decimal.nonempty
    | cons digit digits =>
        have plain := Scan.isDigit_plain (decimal.decimal digit List.mem_cons_self)
        rw [unsigned, List.nil_append, Posix.splitSign, if_neg (by simp [plain.2.1])]
  · rw [signed, List.singleton_append, Posix.splitSign, if_pos isSign]

end DecimalText

theorem strtol_parts (str : CString) :
    ∃ blanks sign digits rest, str.bytes = blanks ++ (sign ++ (digits ++ rest)) ∧
      (∀ byte ∈ blanks, Scan.isSpace byte = true) ∧
      (sign = [] ∨ ∃ byte, sign = [byte] ∧ Scan.isSign byte = true) ∧
      (∀ byte ∈ digits, Scan.isDigit 10 byte = true) ∧
      strtol str = if digits = [] then ⟨0, false, 0⟩
        else nearestLong (signedValue sign digits) (str.length - rest.length) := by
  let number := (splitSign (Scan.skipSpace str.bytes)).2
  let digits := number.takeWhile (Scan.isDigit 10)
  let rest := number.dropWhile (Scan.isDigit 10)
  have split : digits ++ rest = number := List.takeWhile_append_dropWhile
  have left : number.length - digits.length = rest.length := by
    rw [← split, List.length_append]
    omega
  refine ⟨str.bytes.takeWhile Scan.isSpace, (splitSign (Scan.skipSpace str.bytes)).1, digits,
    rest, ?_, ?_, splitSign_signed _, ?_, ?_⟩
  · rw [split, splitSign_append, Scan.skipSpace, List.takeWhile_append_dropWhile]
  · intro byte member
    exact List.mem_takeWhile_imp member
  · intro byte member
    exact List.mem_takeWhile_imp member
  · rw [← left]
    rfl

theorem nearestLong_value (value : Int) (endptr : Nat) :
    (nearestLong value endptr).outOfRange = false ↔
      nearestLong value endptr = ⟨value, false, endptr⟩ ∧ longMin ≤ value ∧ value ≤ longMax := by
  rw [nearestLong]
  split
  · simp
  · rename_i notBelow
    split
    · simp
    · rename_i notAbove
      simp only [true_and, true_iff]
      exact ⟨not_lt.mp notBelow, not_lt.mp notAbove⟩

/-- A conversion that is complete has taken a decimal number, to the end of the string. -/
theorem strtol_complete_iff {str : CString} {value : Int} :
    (strtol str).outOfRange = false ∧ (strtol str).endptr ≠ 0 ∧
        (strtol str).endptr = str.length ∧ (strtol str).value = value ↔
      DecimalLong str.bytes value := by
  constructor
  · intro complete
    rcases complete with ⟨fits, begun, ended, rfl⟩
    rcases strtol_parts str with ⟨blanks, sign, digits, rest, spelled, blank, signed, decimal,
      result⟩
    by_cases nothing : digits = []
    · rw [result, if_pos nothing] at begun
      exact absurd rfl begun
    · rw [if_neg nothing] at result
      rw [result] at fits
      rcases (nearestLong_value _ _).mp fits with ⟨exactly, lower, upper⟩
      rw [result, exactly] at begun ended
      have isNil : rest = [] := by
        apply List.length_eq_zero_iff.mp
        simp only at begun ended
        omega
      rw [isNil, List.append_nil] at spelled
      rw [result, exactly]
      exact ⟨sign, digits, ⟨⟨blanks, spelled, blank⟩, signed, nothing, decimal⟩, rfl, lower, upper⟩
  · intro decimalLong
    rcases decimalLong with ⟨sign, digits, decimal, rfl, lower, upper⟩
    have taken : digits.takeWhile (Scan.isDigit 10) = digits :=
      List.takeWhile_eq_self_iff.mpr decimal.decimal
    have result : strtol str = ⟨signedValue sign digits, false, str.length⟩ := by
      simp only [strtol, decimal.skipSpace, decimal.splitSign, taken, decimal.nonempty,
        if_false, Nat.sub_self, Nat.sub_zero, nearestLong, not_lt.mpr lower, not_lt.mpr upper]
    have nonempty : str.length ≠ 0 := by
      rcases decimal.spelled with ⟨blanks, spelled, _⟩
      have positive := List.length_pos_iff.mpr decimal.nonempty
      rw [CString.length, spelled, List.length_append, List.length_append]
      omega
    rw [result]
    exact ⟨rfl, nonempty, rfl, rfl⟩

end Posix
