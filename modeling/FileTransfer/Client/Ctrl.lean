import FileTransfer.Client.Sock
import FileTransfer.Foundation.Fallible

/-! # `client_ctrl.py`

How the client reads a directory listing.
-/

namespace FileTransfer.Client

open Foundation

/-- What Unicode says about digits, as far as a version of Python knows it: the
characters that `isdigit` accepts, and the values that `int` gives to decimal ones. -/
structure UnicodeDigits where
  isDigit : Char → Bool
  decimal : Char → Option Nat
  ascii : ∀ value, value < 10 →
    isDigit (Char.ofNat (48 + value)) = true ∧ decimal (Char.ofNat (48 + value)) = some value

def UnicodeDigits.int (digits : UnicodeDigits) (text : Text) : Option Nat :=
  text.foldl
    (fun value character => do return (← value) * 10 + (← digits.decimal character))
    (some 0)

structure DirList where
  fType : Text
  size : Nat
  fName : Text
deriving DecidableEq

/-- One round of the loop in `_parse_dir`. Unpacking fails unless there are three
parts. -/
def parseFile (digits : UnicodeDigits) (file : Text) : Except Failure DirList :=
  match file.splitOn ':' with
  | [type, size, name] =>
      if size = [] ∨ size.all digits.isDigit = false then .error .valueError
      else
        match digits.int size with
        | some value => .ok ⟨type, value, name⟩
        | none => .error .valueError
  | _ => .error .valueError

def parseFiles (digits : UnicodeDigits) : List Text → Except Failure (List DirList)
  | [] => .ok []
  | file :: files =>
      if file = [] then .ok []
      else do
        let entry ← parseFile digits file
        let entries ← parseFiles digits files
        return entry :: entries

def sortsBefore (left right : DirList) : Bool :=
  left.fType < right.fType || left.fType = right.fType && right.size ≤ left.size

def parseDir (digits : UnicodeDigits) (array : Bytes) : Except Failure (List DirList) :=
  if array = [] then .ok []
  else
    match decodeUtf8 array with
    | none => .error .unicodeDecodeError
    | some text => do
        let dirObjs ← parseFiles digits (text.splitOn '\n')
        return dirObjs.mergeSort sortsBefore

/-! ## Splitting -/

theorem mem_splitOn {separator : Char} {text part : Text}
    (isPart : part ∈ text.splitOn separator) :
    separator ∉ part ∧ ∀ character ∈ part, character ∈ text := by
  induction text generalizing part with
  | nil =>
      rw [List.splitOn_nil, List.mem_singleton] at isPart
      simp [isPart]
  | cons character text induction =>
      rw [List.splitOn_cons_eq_if_modifyHead] at isPart
      split at isPart
      · rcases List.mem_cons.mp isPart with rfl | later
        · simp
        · rcases induction later with ⟨without, within⟩
          exact ⟨without, fun other among => .tail _ (within other among)⟩
      · rename_i different
        rcases List.exists_cons_of_ne_nil (List.splitOn_ne_nil separator text) with
          ⟨first, others, parts⟩
        rw [parts, List.modifyHead_cons] at isPart
        rcases List.mem_cons.mp isPart with rfl | later
        · rcases induction (parts ▸ List.mem_cons_self) with ⟨without, within⟩
          refine ⟨?_, ?_⟩
          · simp only [List.mem_cons, not_or]
            exact ⟨fun same => different (by simp [same]), without⟩
          · intro other among
            rcases List.mem_cons.mp among with rfl | among
            · exact .head _
            · exact .tail _ (within other among)
        · rcases induction (parts ▸ List.mem_cons_of_mem _ later) with ⟨without, within⟩
          exact ⟨without, fun other among => .tail _ (within other among)⟩

theorem parseFile_name {digits : UnicodeDigits} {file : Text} {entry : DirList}
    (parsed : parseFile digits file = .ok entry) : entry.fName ∈ file.splitOn ':' := by
  rw [parseFile] at parsed
  split at parsed
  · rename_i type size name parts
    split at parsed
    · cases parsed
    · split at parsed
      · cases parsed
        simp [parts]
      · cases parsed
  · cases parsed

theorem parseFiles_names {digits : UnicodeDigits} {files : List Text}
    {entries : List DirList} (parsed : parseFiles digits files = .ok entries)
    (noNewline : ∀ file ∈ files, '\n' ∉ file) :
    ∀ entry ∈ entries, ':' ∉ entry.fName ∧ '\n' ∉ entry.fName := by
  induction files generalizing entries with
  | nil =>
      cases parsed
      simp
  | cons file files induction =>
      rw [parseFiles] at parsed
      split at parsed
      · cases parsed
        simp
      · rcases Fallible.ok_of_bind_ok parsed with ⟨entry, first, parsed⟩
        rcases Fallible.ok_of_bind_ok parsed with ⟨others, rest, final⟩
        cases final
        intro other among
        rcases List.mem_cons.mp among with rfl | among
        · rcases mem_splitOn (parseFile_name first) with ⟨noColon, within⟩
          exact ⟨noColon, fun newline => noNewline file (.head _) (within _ newline)⟩
        · exact induction rest (fun file among => noNewline file (.tail _ among)) other among

/-! ## Listings -/

def DirList.line (entry : DirList) : Text :=
  entry.fType ++ ':' :: (asciiText (decimal entry.size) ++ ':' :: entry.fName)

structure DirList.Clean (entry : DirList) : Prop where
  type : ':' ∉ entry.fType ∧ '\n' ∉ entry.fType
  name : ':' ∉ entry.fName ∧ '\n' ∉ entry.fName

theorem asciiText_decimal (value : Nat) :
    asciiText (decimal value) =
      (decimalDigits value).map fun digit => Char.ofNat (48 + digit) := by
  rw [decimal_eq, asciiText, List.map_map]
  refine List.map_congr_left fun digit among => ?_
  have small := decimalDigits_lt among
  rw [Function.comp_apply, UInt8.toNat_ofNat_of_lt' (by omega : 48 + digit < 256)]

theorem not_mem_asciiText_decimal (value : Nat) :
    ':' ∉ asciiText (decimal value) ∧ '\n' ∉ asciiText (decimal value) := by
  rw [asciiText_decimal]
  have noDigit : ∀ digit : Fin 10, Char.ofNat (48 + digit.val) ≠ ':' ∧
      Char.ofNat (48 + digit.val) ≠ '\n' := by decide
  constructor
  · intro among
    rcases List.mem_map.mp among with ⟨digit, isDigit, same⟩
    exact (noDigit ⟨digit, decimalDigits_lt isDigit⟩).1 same
  · intro among
    rcases List.mem_map.mp among with ⟨digit, isDigit, same⟩
    exact (noDigit ⟨digit, decimalDigits_lt isDigit⟩).2 same

theorem UnicodeDigits.int_decimal (digits : UnicodeDigits) (value : Nat) :
    digits.int (asciiText (Foundation.decimal value)) = some value := by
  have collect : ∀ (list : List Nat) (sum : Nat), (∀ digit ∈ list, digit < 10) →
      (list.map fun digit => Char.ofNat (48 + digit)).foldl
        (fun value character => do return (← value) * 10 + (← digits.decimal character))
        (some sum) =
      some (list.foldl (fun sum digit => sum * 10 + digit) sum) := by
    intro list
    induction list with
    | nil => exact fun sum _ => rfl
    | cons digit list induction =>
        intro sum small
        have here := (digits.ascii digit (small digit (.head _))).2
        simp only [List.map_cons, List.foldl_cons, here]
        exact induction _ fun other among => small other (.tail _ among)
  rw [UnicodeDigits.int, asciiText_decimal,
    collect _ _ fun _ member => decimalDigits_lt member, decimalDigits_value]

theorem parseFile_line {digits : UnicodeDigits} {entry : DirList} (clean : entry.Clean) :
    parseFile digits entry.line = .ok entry := by
  have parts : entry.line.splitOn ':' =
      [entry.fType, asciiText (decimal entry.size), entry.fName] := by
    rw [DirList.line, List.splitOn_append_cons_self_of_not_mem clean.type.1,
      List.splitOn_append_cons_self_of_not_mem (not_mem_asciiText_decimal _).1,
      List.splitOn_eq_singleton clean.name.1]
  have isNumber : ¬ (asciiText (decimal entry.size) = [] ∨
      (asciiText (decimal entry.size)).all digits.isDigit = false) := by
    rw [asciiText_decimal]
    simp only [List.map_eq_nil_iff, decimalDigits_ne_nil, false_or, Bool.not_eq_false,
      List.all_eq_true, List.mem_map, forall_exists_index, and_imp, forall_apply_eq_imp_iff₂]
    exact fun digit among => (digits.ascii digit (decimalDigits_lt among)).1
  simp only [parseFile, parts, if_neg isNumber, digits.int_decimal]

theorem parseFiles_lines {digits : UnicodeDigits} {entries : List DirList}
    (clean : ∀ entry ∈ entries, entry.Clean) :
    parseFiles digits
      ((entries.flatMap fun entry => entry.line ++ ['\n']).splitOn '\n') = .ok entries := by
  induction entries with
  | nil => rfl
  | cons entry entries induction =>
      have here := clean entry (.head _)
      have noNewline : '\n' ∉ entry.line := by
        simp only [DirList.line, List.mem_append, List.mem_cons, not_or]
        exact ⟨here.type.2, by decide, (not_mem_asciiText_decimal _).2, by decide, here.name.2⟩
      have nonempty : entry.line ≠ [] := by simp [DirList.line]
      rw [List.flatMap_cons, List.append_assoc, List.singleton_append,
        List.splitOn_append_cons_self_of_not_mem noNewline, parseFiles, if_neg nonempty,
        parseFile_line here, induction fun other among => clean other (.tail _ among)]
      rfl

/-- The client shows the entries that a listing was made of. -/
theorem parseDir_lines (digits : UnicodeDigits) {entries : List DirList}
    (clean : ∀ entry ∈ entries, entry.Clean) :
    parseDir digits (encodeUtf8 (entries.flatMap fun entry => entry.line ++ ['\n'])) =
      .ok (entries.mergeSort sortsBefore) := by
  by_cases empty : encodeUtf8 (entries.flatMap fun entry => entry.line ++ ['\n']) = []
  · have noEntry : entries = [] := by
      cases entries with
      | nil => rfl
      | cons entry entries =>
          have noText : (entry :: entries).flatMap (fun entry => entry.line ++ ['\n']) = [] :=
            encodeUtf8_injective empty
          simp at noText
    rw [parseDir, if_pos empty, noEntry, List.mergeSort_nil]
  · simp only [parseDir, if_neg empty, decodeUtf8_encodeUtf8, parseFiles_lines clean]
    rfl

theorem parseDir_names {digits : UnicodeDigits} {array : Bytes} {entries : List DirList}
    (parsed : parseDir digits array = .ok entries) :
    ∀ entry ∈ entries, ':' ∉ entry.fName ∧ '\n' ∉ entry.fName := by
  rw [parseDir] at parsed
  split at parsed
  · cases parsed
    simp
  · split at parsed
    · cases parsed
    · rename_i text decoded
      rcases Fallible.ok_of_bind_ok parsed with ⟨dirObjs, found, final⟩
      cases final
      intro entry among
      exact parseFiles_names found (fun file isPart => (mem_splitOn isPart).1) entry
        (List.mem_mergeSort.mp among)

end FileTransfer.Client
