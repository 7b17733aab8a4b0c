import FileTransfer.Foundation.Fallible
import FileTransfer.Server.Db

/-! # The lines of the database

The format that the database is kept in, line by line, and how far `populate_htable` takes
a line apart where the format puts it together.
-/

namespace FileTransfer

open Foundation Posix

/-! ## The format -/

structure Line where
  name : Bytes
  digits : Bytes
  hash : Bytes

namespace Line

def text (line : Line) : Bytes :=
  line.name ++ colon :: (line.digits ++ colon :: (line.hash ++ [newline]))

structure Valid (line : Line) : Prop where
  named : line.name ≠ []
  short : line.name.length ≤ maxUsernameLen
  noColon : colon ∉ line.name
  noNewline : newline ∉ line.name
  numbered : line.digits ≠ []
  decimal : ∀ byte ∈ line.digits, Scan.isDigit 10 byte = true
  oneByte : Scan.digitsValue 10 line.digits < 256
  digest : line.hash.length = sha256DigestLen
  hex : ∀ byte ∈ line.hash, Scan.isDigit 16 byte = true

def account (line : Line) : UserAccount :=
  ⟨CString.ofBuffer line.name, UInt8.ofNat (Scan.digitsValue 10 line.digits),
    unhex line.hash⟩

def counted (line : Line) : Nat := line.name.length + sha256DigestLen + 4

variable {line : Line}

theorem text_length (valid : line.Valid) :
    line.text.length + 1 = line.counted + line.digits.length := by
  have digest := valid.digest
  simp only [text, counted, List.length_append, List.length_cons, List.length_nil, digest]
  omega

theorem counted_le (valid : line.Valid) : line.counted ≤ line.text.length := by
  have length := text_length valid
  have numbered := List.length_pos_iff.mpr valid.numbered
  omega

theorem counted_eq_iff (valid : line.Valid) :
    line.counted = line.text.length ↔ line.digits.length = 1 := by
  have length := text_length valid
  omega

theorem hash_nulFree (valid : line.Valid) : (0 : UInt8) ∉ line.hash := by
  intro member
  have digit := valid.hex 0 member
  revert digit
  decide

theorem scanSegment_text (valid : line.Valid) (nulFree : (0 : UInt8) ∉ line.name)
    (rest : Bytes) :
    scanSegment (line.text ++ rest) =
      .ok (.tokens (CString.ofBuffer line.name) line.account.permission
        (CString.ofBuffer line.hash)) := by
  have username : ∀ others : Bytes,
      Scan.set (· ≠ colon) maxUsernameLen (line.name ++ colon :: others) =
        .value line.name (colon :: others) := by
    intro others
    apply Scan.set_append valid.named _ valid.short
    · exact .inr ⟨colon, others, rfl, .inr (by simp)⟩
    · intro byte member
      have notColon : byte ≠ colon := fun isColon => valid.noColon (isColon ▸ member)
      exact ⟨fun isNul => nulFree (isNul ▸ member), by simpa using notColon⟩
  have permission : ∀ others : Bytes, Scan.byteValue 10
      (Scan.unbounded (line.digits ++ colon :: others)) (line.digits ++ colon :: others) =
        .value line.account.permission (colon :: others) := by
    intro others
    have small := valid.oneByte
    have value : Scan.unsignedLong false (Scan.digitsValue 10 line.digits) =
        Scan.digitsValue 10 line.digits := by
      rw [Scan.unsignedLong, if_neg (by omega)]
      rfl
    have notPrefixed : ∀ width text, Scan.hexPrefixed 10 width text = false := by
      intro width text
      unfold Scan.hexPrefixed
      split <;> simp
    rw [Scan.byteValue_digits valid.numbered valid.decimal (by simp [Scan.unbounded]; omega)
      (.inr ⟨colon, others, rfl, .inr (by decide)⟩) (notPrefixed _ _), value]
    rfl
  have hash : Scan.set (· ≠ newline) sha256DigestLen (line.hash ++ newline :: rest) =
      .value line.hash (newline :: rest) := by
    apply Scan.set_append _ _ valid.digest.le (.inl valid.digest)
    · intro isNil
      have digest := valid.digest
      rw [isNil] at digest
      cases digest
    · intro byte member
      have notNewline : byte ≠ newline := by
        rintro rfl
        have digit := valid.hex newline member
        revert digit
        decide
      exact ⟨fun isNul => hash_nulFree valid (isNul ▸ member), by simpa using notNewline⟩
  have spelled : line.text ++ rest =
      line.name ++ colon :: (line.digits ++ colon :: (line.hash ++ newline :: rest)) := by
    simp [text]
  have colonRead : ∀ others : Bytes,
      Scan.literal colon (colon :: others) = .value () others := fun _ => rfl
  rw [spelled, scanSegment, username]
  simp only [colonRead, permission, hash]

theorem nextSegment_text (valid : line.Valid) (streamSize : Nat) (rest : Bytes) :
    nextSegment streamSize (line.text ++ rest) = .ok (some rest) := by
  have noNewline : ∀ byte ∈ line.name ++ colon :: (line.digits ++ colon :: line.hash),
      byte ≠ newline := by
    intro byte member isNewline
    rw [isNewline] at member
    have notDigit : ∀ base, Scan.isDigit base newline = false := fun _ => rfl
    have notColon : newline ≠ colon := by decide
    simp only [List.mem_append, List.mem_cons] at member
    rcases member with inName | isColon | inDigits | isColon | inHash
    · exact valid.noNewline inName
    · exact notColon isColon
    · exact absurd (valid.decimal newline inDigits) (by simp [notDigit])
    · exact notColon isColon
    · exact absurd (valid.hex newline inHash) (by simp [notDigit])
  have spelled : line.text ++ rest =
      (line.name ++ colon :: (line.digits ++ colon :: line.hash)) ++ newline :: rest := by
    simp [text]
  rw [nextSegment, if_pos (by simp [spelled]), spelled,
    List.dropWhile_append_of_pos (fun byte member => by simpa using noNewline byte member)]
  simp

theorem hash_decoded (valid : line.Valid) :
    hexCharToByteArray (CString.ofBuffer line.hash) (CString.ofBuffer line.hash).length =
      .ok (some (unhex line.hash)) := by
  have bytes : (CString.ofBuffer line.hash).bytes = line.hash :=
    CString.ofBuffer_bytes_of_nulFree (hash_nulFree valid)
  have length : (CString.ofBuffer line.hash).length = sha256DigestLen := by
    rw [CString.length, bytes, valid.digest]
  have decoded : hexCharToByteArray (CString.ofBuffer line.hash)
      (CString.ofBuffer line.hash).length = .ok (some (unhex (CString.ofBuffer line.hash).bytes)) :=
    hexCharToByteArray_digits (by rw [length]; decide) (by rw [length]; decide)
      (by rw [bytes]; exact valid.hex)
  rwa [bytes] at decoded

end Line

/-! ## Many lines -/

def linesText (lines : List Line) : Bytes := lines.flatMap Line.text

@[simp] theorem linesText_nil : linesText [] = [] := rfl

@[simp] theorem linesText_cons (line : Line) (lines : List Line) :
    linesText (line :: lines) = line.text ++ linesText lines := rfl

def linesCounted (lines : List Line) : Nat := (lines.map Line.counted).sum

@[simp] theorem linesCounted_cons (line : Line) (lines : List Line) :
    linesCounted (line :: lines) = line.counted + linesCounted lines := rfl

theorem linesCounted_le {lines : List Line} (valid : ∀ line ∈ lines, line.Valid) :
    linesCounted lines ≤ (linesText lines).length := by
  induction lines with
  | nil => exact le_refl 0
  | cons line lines induction =>
      have here := Line.counted_le (valid line (.head _))
      have behind := induction fun other among => valid other (.tail _ among)
      rw [linesCounted_cons, linesText_cons, List.length_append]
      omega

theorem linesCounted_eq_iff {lines : List Line} (valid : ∀ line ∈ lines, line.Valid) :
    linesCounted lines = (linesText lines).length ↔
      ∀ line ∈ lines, line.digits.length = 1 := by
  induction lines with
  | nil => exact iff_of_true rfl (by simp)
  | cons line lines induction =>
      have valid' : ∀ other ∈ lines, other.Valid := fun other among => valid other (.tail _ among)
      have here := Line.counted_le (valid line (.head _))
      have behind := linesCounted_le valid'
      rw [List.forall_mem_cons, ← Line.counted_eq_iff (valid line (.head _)),
        ← induction valid', linesCounted_cons, linesText_cons, List.length_append]
      omega

/-- The loop takes lines of the format, whatever follows them: it stores their accounts in
order, and counts one digit for each permission. -/
theorem populateLoop_lines {lines : List Line} (valid : ∀ line ∈ lines, line.Valid)
    (nulFree : ∀ line ∈ lines, (0 : UInt8) ∉ line.name) {streamSize : Nat}
    (table : HashTable CString UserAccount) (totalRead rounds : Nat) (rest : Bytes)
    (within : totalRead + (linesText lines).length ≤ streamSize) :
    populateLoop scanSegment streamSize (lines.length + rounds) table totalRead
        (some (linesText lines ++ rest)) =
      populateLoop scanSegment streamSize rounds
        (HashTable.collect UserAccount.username table (lines.map Line.account))
        (totalRead + linesCounted lines) (some rest) := by
  induction lines generalizing table totalRead with
  | nil => simp [HashTable.collect, linesCounted]
  | cons line lines induction =>
      have here := valid line (.head _)
      have free := nulFree line (.head _)
      have counted := Line.counted_le here
      have positive : 0 < line.counted := Nat.succ_pos _
      rw [linesText_cons, List.length_append] at within
      have unread : ¬ streamSize ≤ totalRead := by omega
      have onwards := induction (fun other among => valid other (.tail _ among))
        (fun other among => nulFree other (.tail _ among))
        (table.set (CString.ofBuffer line.name) line.account) (totalRead + line.counted)
        (by omega)
      have nameLength : (CString.ofBuffer line.name).length = line.name.length := by
        rw [CString.length, CString.ofBuffer_bytes_of_nulFree free]
      have hashLength : (CString.ofBuffer line.hash).length = sha256DigestLen := by
        rw [CString.length, CString.ofBuffer_bytes_of_nulFree (Line.hash_nulFree here),
          here.digest]
      have sum : totalRead + 4 + (CString.ofBuffer line.name).length +
          (CString.ofBuffer line.hash).length = totalRead + line.counted := by
        rw [nameLength, hashLength, Line.counted]
        omega
      have rounds' : (line :: lines).length + rounds = lines.length + rounds + 1 := by
        rw [List.length_cons]
        omega
      rw [rounds', populateLoop, if_neg unread, linesText_cons, List.append_assoc]
      simp only [Line.scanSegment_text here free, Line.hash_decoded here,
        Line.nextSegment_text here, Fallible.ok_bind]
      rw [linesCounted_cons, ← Nat.add_assoc, sum]
      exact onwards

theorem lines_length_le {lines : List Line} : lines.length ≤ linesCounted lines := by
  induction lines with
  | nil => exact le_refl 0
  | cons line lines induction =>
      rw [List.length_cons, linesCounted_cons, Line.counted]
      omega

/-- A database of the format is loaded if every permission has one digit. With any more
the count falls behind, and the loop reads on where the lines end. -/
theorem populateHtable_lines {lines : List Line} (valid : ∀ line ∈ lines, line.Valid)
    (nulFree : ∀ line ∈ lines, (0 : UInt8) ∉ line.name) {contents : FileContent}
    (stored : contents.stream = linesText lines) :
    ((∀ line ∈ lines, line.digits.length = 1) ∧ populateHtable ∅ contents =
        .ok (some (HashTable.collect UserAccount.username ∅ (lines.map Line.account)))) ∨
      (¬ ∀ line ∈ lines, line.digits.length = 1) ∧
        populateHtable ∅ contents = .error .overread := by
  have counted := linesCounted_le valid
  have least : lines.length ≤ linesCounted lines := lines_length_le
  rcases Nat.exists_eq_add_of_le (least.trans counted) with ⟨rounds, enough⟩
  have loop := populateLoop_lines valid nulFree ∅ 0 rounds [] (by rw [Nat.zero_add])
  rw [List.append_nil, Nat.zero_add, ← enough] at loop
  rw [populateHtable, stored, loop, ← linesCounted_eq_iff valid]
  by_cases reached : linesCounted lines = (linesText lines).length
  · left
    rw [reached]
    cases rounds <;> exact ⟨rfl, by simp [populateLoop]⟩
  · right
    refine ⟨reached, ?_⟩
    have unread : ¬ (linesText lines).length ≤ linesCounted lines := by omega
    cases rounds with
    | zero => omega
    | succ rounds =>
        rw [populateLoop, if_neg unread]
        rfl

end FileTransfer
