import FileTransfer.Server.Lines

/-! # Parsing the database

The parser is to accept the lines of the format and nothing else, and to look at nothing
behind them. It finds the next line by its newline and its end by counting, as if every
permission had one digit, it takes whatever `sscanf` takes for three fields, and `sscanf` looks
for a terminator that nobody has put there.
-/

namespace FileTransfer

open Foundation Posix

/-! ## What is promised -/

def OfFormat (text : Bytes) : Prop :=
  ∃ lines : List Line, (∀ line ∈ lines, line.Valid) ∧ text = linesText lines

/-- Parsing is exact: a text of the format is loaded into the accounts of its lines, the
last one of a name winning, any other text is refused, and nothing behind it is looked at. -/
structure ParsesExactly (contents : FileContent) : Prop where
  accepts : ∀ lines : List Line, (∀ line ∈ lines, line.Valid) →
    contents.stream = linesText lines →
    ∃ table, populateHtableWithin ∅ contents = .ok (some table) ∧
      ∀ username, table.get username =
        (HashTable.collect UserAccount.username ∅ (lines.map Line.account)).get username
  refuses : ¬ OfFormat contents.stream → populateHtableWithin ∅ contents = .ok none

/-! ## Texts that are refused -/

def behindNewline (text : Bytes) : Bytes := (text.dropWhile (· ≠ newline)).tail

def fromLine (text : Bytes) : (index : Nat) → Bytes
  | 0 => text
  | index + 1 => fromLine (behindNewline text) index

def Taken (text : Bytes) : Prop :=
  ∃ username perm pwHash hash, scanSegment text = .ok (.tokens username perm pwHash) ∧
    hexCharToByteArray pwHash pwHash.length = .ok (some hash)

def Rejected (text : Bytes) : Prop :=
  scanSegment text = .ok .incomplete ∨
    ∃ username perm pwHash, scanSegment text = .ok (.tokens username perm pwHash) ∧
      hexCharToByteArray pwHash pwHash.length = .ok none

/-- The bytes of the name and the digest that are read at the front of a text, with four
more for what stands around them. -/
def fieldBytes (text : Bytes) : Nat :=
  match scanSegment text with
  | .ok (.tokens username _ pwHash) => 4 + username.length + pwHash.length
  | _ => 0

def bytesBefore (text : Bytes) : (index : Nat) → Nat
  | 0 => 0
  | index + 1 => fieldBytes text + bytesBefore (behindNewline text) index

/-- A line is rejected that has a terminator in it or behind it, the lines before it are taken
and end with newlines, and they are taken for less than `room` bytes. -/
def RefusedWithin (room : Nat) (text : Bytes) : Prop :=
  ∃ index, (∀ earlier < index,
      Taken (fromLine text earlier) ∧ newline ∈ fromLine text earlier) ∧
    bytesBefore text index < room ∧ Rejected (fromLine text index) ∧
      (0 : UInt8) ∈ fromLine text index

theorem Taken.counts {text : Bytes} (taken : Taken text) : 4 ≤ fieldBytes text := by
  rcases taken with ⟨username, perm, pwHash, hash, scanned, _⟩
  have counted : fieldBytes text = 4 + username.length + pwHash.length := by
    rw [fieldBytes, scanned]
  omega

theorem Taken.notRejected {text : Bytes} (taken : Taken text) : ¬ Rejected text := by
  rcases taken with ⟨username, perm, pwHash, hash, scanned, decoded⟩
  rintro (incomplete | ⟨username', perm', pwHash', scanned', refused⟩)
  · rw [scanned] at incomplete
    cases incomplete
  · rw [scanned] at scanned'
    cases scanned'
    rw [decoded] at refused
    cases refused

theorem not_refused {room : Nat} {text : Bytes} (notTaken : ¬ Taken text)
    (notRejected : ¬ Rejected text) : ¬ RefusedWithin room text := by
  rintro ⟨index, taken, _, rejected, _⟩
  cases index with
  | zero => exact notRejected rejected
  | succ index => exact notTaken (taken 0 (Nat.succ_pos _)).1

theorem refused_here {room : Nat} {text : Bytes} (unread : 0 < room)
    (rejected : Rejected text) (terminated : (0 : UInt8) ∈ text) : RefusedWithin room text :=
  ⟨0, fun _ earlier => absurd earlier (Nat.not_lt_zero _), unread, rejected, terminated⟩

theorem mem_of_mem_behindNewline {text : Bytes} {byte : UInt8}
    (behind : byte ∈ behindNewline text) : byte ∈ text :=
  (List.dropWhile_suffix _).subset (List.mem_of_mem_tail behind)

theorem mem_of_mem_fromLine {text : Bytes} {byte : UInt8} {index : Nat}
    (within : byte ∈ fromLine text index) : byte ∈ text := by
  induction index generalizing text with
  | zero => exact within
  | succ index induction => exact mem_of_mem_behindNewline (induction within)

theorem RefusedWithin.terminated {room : Nat} {text : Bytes} (refused : RefusedWithin room text) :
    (0 : UInt8) ∈ text := by
  rcases refused with ⟨index, _, _, _, terminated⟩
  exact mem_of_mem_fromLine terminated

theorem refused_behind {room : Nat} {text : Bytes} (taken : Taken text) :
    RefusedWithin room text ↔ newline ∈ text ∧
      RefusedWithin (room - fieldBytes text) (behindNewline text) := by
  constructor
  · rintro ⟨index, earlier, counted, rejected⟩
    cases index with
    | zero => exact absurd rejected.1 taken.notRejected
    | succ index =>
        rw [bytesBefore] at counted
        refine ⟨(earlier 0 (Nat.succ_pos _)).2, index, ?_, by omega, rejected⟩
        intro before less
        exact earlier (before + 1) (Nat.succ_lt_succ less)
  · rintro ⟨ended, index, earlier, counted, rejected⟩
    refine ⟨index + 1, ?_, by rw [bytesBefore]; omega, rejected⟩
    intro before less
    cases before with
    | zero => exact ⟨taken, ended⟩
    | succ before => exact earlier before (Nat.lt_of_succ_lt_succ less)

theorem not_refused_full (text : Bytes) : ¬ RefusedWithin 0 text := by
  rintro ⟨index, _, counted, _⟩
  exact Nat.not_lt_zero _ counted

theorem populateLoop_unended {streamSize rounds totalRead : Nat}
    {table : HashTable CString UserAccount} {text : Bytes} (ended : newline ∉ text) :
    (nextSegment streamSize text >>= fun next =>
      populateLoop scanString streamSize rounds table totalRead next) ≠ .ok none := by
  intro refused
  rw [nextSegment, if_neg ended] at refused
  split at refused
  · cases refused
  · rw [Fallible.ok_bind] at refused
    cases rounds with
    | zero =>
        rw [populateLoop] at refused
        split at refused <;> cases refused
    | succ rounds =>
        rw [populateLoop] at refused
        split at refused <;> cases refused

/-- What a round of the loop makes of a line with a terminator in it or behind it. -/
inductive Round (streamSize rounds totalRead : Nat) (table : HashTable CString UserAccount)
    (text : Bytes) : Prop
  | refuses (rejected : Rejected text)
      (stops : populateLoop scanString streamSize (rounds + 1) table totalRead (some text) =
        .ok none)
  | stops (notTaken : ¬ Taken text) (notRejected : ¬ Rejected text)
      (loads : populateLoop scanString streamSize (rounds + 1) table totalRead (some text) ≠
        .ok none)
  | goesOn (taken : Taken text) (stored : HashTable CString UserAccount)
      (onwards : populateLoop scanString streamSize (rounds + 1) table totalRead (some text) =
        nextSegment streamSize text >>=
          populateLoop scanString streamSize rounds stored (totalRead + fieldBytes text))

theorem not_taken_of_undecoded {text : Bytes} {username : CString} {perm : Perms}
    {pwHash : CString} {fault : Fault}
    (scanned : scanSegment text = .ok (.tokens username perm pwHash))
    (decoded : hexCharToByteArray pwHash pwHash.length = .error fault) :
    ¬ Taken text ∧ ¬ Rejected text := by
  constructor
  · simp [Taken, scanned, decoded]
  · simp [Rejected, scanned, decoded]

theorem populateLoop_round {streamSize totalRead : Nat} (rounds : Nat)
    (table : HashTable CString UserAccount) {text : Bytes} (unread : ¬ streamSize ≤ totalRead)
    (terminated : (0 : UInt8) ∈ text) : Round streamSize rounds totalRead table text := by
  have scan : scanString text = scanSegment text := if_pos terminated
  cases scanned : scanSegment text with
  | error fault =>
      apply Round.stops
      · simp [Taken, scanned]
      · simp [Rejected, scanned]
      · simp [populateLoop, unread, scan, scanned]
  | ok found =>
      cases found with
      | eof =>
          apply Round.stops
          · simp [Taken, scanned]
          · simp [Rejected, scanned]
          · simp [populateLoop, unread, scan, scanned]
      | incomplete =>
          apply Round.refuses (.inl scanned)
          simp [populateLoop, unread, scan, scanned]
      | tokens username perm pwHash =>
          cases decoded : hexCharToByteArray pwHash pwHash.length with
          | error fault =>
              rcases not_taken_of_undecoded scanned decoded with ⟨notTaken, notRejected⟩
              apply Round.stops notTaken notRejected
              simp [populateLoop, unread, scan, scanned, decoded]
          | ok bytes =>
              cases bytes with
              | none =>
                  apply Round.refuses (.inr ⟨username, perm, pwHash, scanned, decoded⟩)
                  simp [populateLoop, unread, scan, scanned, decoded]
              | some hash =>
                  have counted : totalRead + fieldBytes text =
                      totalRead + 4 + username.length + pwHash.length := by
                    rw [fieldBytes, scanned]
                    simp only [Nat.add_assoc]
                  apply Round.goesOn ⟨username, perm, pwHash, hash, scanned, decoded⟩
                    (table.set username ⟨username, perm, hash⟩)
                  rw [counted]
                  simp [populateLoop, unread, scan, scanned, decoded]

theorem populateLoop_full {streamSize totalRead : Nat} (rounds : Nat)
    (table : HashTable CString UserAccount) (text : Bytes) (full : streamSize ≤ totalRead) :
    populateLoop scanString streamSize rounds table totalRead (some text) = .ok (some table) := by
  cases rounds <;> rw [populateLoop, if_pos full]

/-- The loop refuses a text exactly if some line of it is rejected before the count is
full. -/
theorem populateLoop_none_iff {streamSize rounds totalRead : Nat}
    (table : HashTable CString UserAccount) (text : Bytes)
    (enough : streamSize ≤ totalRead + rounds) :
    populateLoop scanString streamSize rounds table totalRead (some text) = .ok none ↔
      RefusedWithin (streamSize - totalRead) text := by
  have whenFull : ∀ {totalRead rounds : Nat} (table : HashTable CString UserAccount)
      (text : Bytes), streamSize ≤ totalRead →
      (populateLoop scanString streamSize rounds table totalRead (some text) = .ok none ↔
        RefusedWithin (streamSize - totalRead) text) := by
    intro totalRead rounds table text full
    rw [Nat.sub_eq_zero_of_le full, populateLoop_full rounds table text full]
    exact iff_of_false (by simp) (not_refused_full text)
  induction rounds generalizing totalRead table text with
  | zero => exact whenFull table text enough
  | succ rounds induction =>
      by_cases full : streamSize ≤ totalRead
      · exact whenFull table text full
      by_cases terminated : (0 : UInt8) ∈ text
      · cases populateLoop_round rounds table full terminated with
        | refuses rejected stops =>
            apply iff_of_true stops
            exact refused_here (by omega) rejected terminated
        | stops notTaken notRejected loads =>
            exact iff_of_false loads (not_refused notTaken notRejected)
        | goesOn taken stored onwards =>
            have counts := taken.counts
            rw [onwards, refused_behind taken, Nat.sub_sub]
            by_cases ended : newline ∈ text
            · have next : nextSegment streamSize text = .ok (some (behindNewline text)) :=
                if_pos ended
              rw [next, Fallible.ok_bind, and_iff_right ended]
              exact induction stored (behindNewline text) (by omega)
            · apply iff_of_false (populateLoop_unended ended)
              exact fun refused => ended refused.1
      · rw [populateLoop, if_neg full]
        apply iff_of_false _ fun refused => terminated refused.terminated
        simp [scanString, terminated]

theorem populateHtableWithin_none_iff (contents : FileContent) :
    populateHtableWithin ∅ contents = .ok none ↔
      RefusedWithin contents.stream.length contents.stream := by
  rw [populateHtableWithin, populateLoop_none_iff ∅ contents.stream (by omega), Nat.sub_zero]

/-! ## Texts that are loaded -/

/-- What the loop comes to without looking behind the content it comes to wherever the
terminator stands. -/
theorem populateLoop_of_within {streamSize rounds totalRead : Nat}
    {table : HashTable CString UserAccount} {segment : Option Bytes}
    {result : Option (HashTable CString UserAccount)}
    (within : populateLoop scanString streamSize rounds table totalRead segment = .ok result) :
    populateLoop scanSegment streamSize rounds table totalRead segment = .ok result := by
  induction rounds generalizing table totalRead segment with
  | zero => exact within
  | succ rounds induction =>
      cases segment with
      | none => exact within
      | some text =>
          by_cases full : streamSize ≤ totalRead
          · rw [populateLoop, if_pos full] at within ⊢
            exact within
          · rw [populateLoop, if_neg full] at within ⊢
            rcases Fallible.ok_of_bind_ok within with ⟨scanned, scan, onwards⟩
            rw [scanString] at scan
            split at scan
            · simp only [scan, Fallible.ok_bind]
              cases scanned with
              | eof => exact onwards
              | incomplete => exact onwards
              | tokens username perm pwHash =>
                  rcases Fallible.ok_of_bind_ok onwards with ⟨hash, decoded, onwards⟩
                  simp only [decoded, Fallible.ok_bind]
                  cases hash with
                  | none => exact onwards
                  | some hash =>
                      rcases Fallible.ok_of_bind_ok onwards with ⟨next, found, onwards⟩
                      simp only [found, Fallible.ok_bind]
                      exact induction onwards
            · cases scan

theorem terminated_of_within {contents : FileContent}
    {result : Option (HashTable CString UserAccount)} (nonempty : contents.stream ≠ [])
    (within : populateHtableWithin ∅ contents = .ok result) : (0 : UInt8) ∈ contents.stream := by
  by_contra open'
  have positive := List.length_pos_iff.mpr nonempty
  rcases Nat.exists_eq_add_of_le' positive with ⟨rounds, size⟩
  rw [populateHtableWithin, size, populateLoop, if_neg (by omega)] at within
  simp only [scanString, if_neg open'] at within
  cases within

theorem exists_nul_name {lines : List Line} (valid : ∀ line ∈ lines, line.Valid)
    (nul : (0 : UInt8) ∈ linesText lines) : ∃ line ∈ lines, (0 : UInt8) ∈ line.name := by
  rcases List.mem_flatMap.mp nul with ⟨line, among, inText⟩
  refine ⟨line, among, ?_⟩
  have digit : (0 : UInt8) ∉ line.digits := by
    intro member
    have isDigit := (valid line among).decimal 0 member
    revert isDigit
    decide
  have hex := Line.hash_nulFree (valid line among)
  simpa [Line.text, digit, hex, show (0 : UInt8) ≠ colon by decide,
    show (0 : UInt8) ≠ newline by decide] using inText

/-! ## Names with a terminator in them -/

theorem scanSegment_nul {line : Line} (valid : line.Valid) (nul : (0 : UInt8) ∈ line.name)
    (rest : Bytes) :
    (CString.ofBuffer line.name).bytes = [] ∧ scanSegment (line.text ++ rest) = .ok .eof ∨
      scanSegment (line.text ++ rest) = .ok .incomplete := by
  rcases List.eq_append_cons_of_mem nul with ⟨front, back, name, nulFree⟩
  have spelled : line.text ++ rest = front ++ (0 : UInt8) ::
      (back ++ colon :: (line.digits ++ colon :: (line.hash ++ newline :: rest))) := by
    simp [Line.text, name]
  rw [spelled]
  by_cases leads : front = []
  · left
    rw [name, leads]
    exact ⟨rfl, rfl⟩
  · right
    have username : ∀ others : Bytes,
        Scan.set (· ≠ colon) maxUsernameLen (front ++ (0 : UInt8) :: others) =
          .value front ((0 : UInt8) :: others) := by
      intro others
      apply Scan.set_append leads
      · intro byte member
        have inName : byte ∈ line.name := name ▸ List.mem_append_left _ member
        have notColon : byte ≠ colon := fun isColon => valid.noColon (isColon ▸ inName)
        exact ⟨fun isNul => nulFree (isNul ▸ member), by simpa using notColon⟩
      · have short := valid.short
        rw [name, List.length_append] at short
        omega
      · exact .inr ⟨0, others, rfl, .inl rfl⟩
    have ended : ∀ others : Bytes, Scan.literal colon ((0 : UInt8) :: others) = .ended :=
      fun _ => rfl
    rw [scanSegment, username]
    simp only [ended]

theorem exists_first_nul {lines : List Line} (nul : ∃ line ∈ lines, (0 : UInt8) ∈ line.name) :
    ∃ front bad back, lines = front ++ bad :: back ∧
      (∀ line ∈ front, (0 : UInt8) ∉ line.name) ∧ (0 : UInt8) ∈ bad.name := by
  cases found : lines.find? (fun line => decide ((0 : UInt8) ∈ line.name)) with
  | none =>
      rcases nul with ⟨line, among, inName⟩
      exact absurd inName (by simpa using List.find?_eq_none.mp found line among)
  | some bad =>
      rcases List.find?_eq_some_iff_append.mp found with ⟨inName, front, back, split, before⟩
      exact ⟨front, bad, back, split, fun line among => by simpa using before line among,
        by simpa using inName⟩

/-- Where a name begins with a terminator the loop ends early, without its account, and
where one contains a terminator the text is refused. -/
theorem not_loaded_of_nul {lines : List Line} (valid : ∀ line ∈ lines, line.Valid)
    {contents : FileContent} (stored : contents.stream = linesText lines)
    (nul : ∃ line ∈ lines, (0 : UInt8) ∈ line.name) :
    ¬ ∃ table, populateHtable ∅ contents = .ok (some table) ∧ ∀ username,
      table.get username =
        (HashTable.collect UserAccount.username ∅ (lines.map Line.account)).get username := by
  rintro ⟨table, loaded, gets⟩
  rcases exists_first_nul nul with ⟨front, bad, back, split, nulFree, badNul⟩
  have validFront : ∀ line ∈ front, line.Valid := fun line among =>
    valid line (split ▸ List.mem_append_left _ among)
  have validBad : bad.Valid := valid bad (split ▸ List.mem_append_right _ (.head _))
  have text : contents.stream = linesText front ++ (bad.text ++ linesText back) := by
    rw [stored, split, linesText, List.flatMap_append, List.flatMap_cons]
    rfl
  have size : contents.stream.length =
      (linesText front).length + (bad.text.length + (linesText back).length) := by
    rw [text, List.length_append, List.length_append]
  have counted := linesCounted_le validFront
  have least : front.length ≤ linesCounted front := lines_length_le
  have badText := Line.counted_le validBad
  have positive : 0 < bad.counted := Nat.succ_pos _
  rcases Nat.exists_eq_add_of_lt (show front.length < contents.stream.length by omega) with
    ⟨rounds, enough⟩
  have loop := populateLoop_lines validFront nulFree ∅ 0 (rounds + 1)
    (bad.text ++ linesText back) (show 0 + _ ≤ contents.stream.length by omega)
  have unread : ¬ contents.stream.length ≤ 0 + linesCounted front := by omega
  rw [← text, ← Nat.add_assoc, ← enough, populateLoop, if_neg unread] at loop
  rw [populateHtable, loop] at loaded
  rcases scanSegment_nul validBad badNul (linesText back) with ⟨empty, ended⟩ | incomplete
  · simp only [ended, Fallible.ok_bind] at loaded
    cases loaded
    have missing : bad.account.username ∉
        (front.map Line.account).map UserAccount.username := by
      intro member
      rw [List.map_map] at member
      rcases List.mem_map.mp member with ⟨line, among, same⟩
      have bytes : (CString.ofBuffer line.name).bytes = (CString.ofBuffer bad.name).bytes :=
        congrArg CString.bytes same
      rw [CString.ofBuffer_bytes_of_nulFree (nulFree line among), empty] at bytes
      exact (validFront line among).named bytes
    have absent := (HashTable.get_collect_eq_none_iff UserAccount.username ∅ _ _).mpr
      ⟨missing, HashTable.get_empty _⟩
    rw [gets, HashTable.get_collect_eq_none_iff] at absent
    apply absent.1
    rw [split, List.map_append, List.map_append]
    exact List.mem_append_right _ (.head _)
  · simp only [incomplete, Fallible.ok_bind] at loaded
    cases loaded

/-! ## When parsing is exact -/

/-- Parsing is exact for no text of the format but the empty one, and for another text if it
has a line that is rejected while the count still lasts and before a terminator. -/
theorem parsesExactly_iff (contents : FileContent) :
    ParsesExactly contents ↔ contents.stream = [] ∨
      ¬ OfFormat contents.stream ∧ RefusedWithin contents.stream.length contents.stream := by
  constructor
  · intro exactly
    by_cases ofFormat : OfFormat contents.stream
    · left
      rcases ofFormat with ⟨lines, valid, stored⟩
      rcases exactly.accepts lines valid stored with ⟨table, loaded, gets⟩
      by_contra nonempty
      have nul := terminated_of_within nonempty loaded
      rw [stored] at nul
      exact not_loaded_of_nul valid stored (exists_nul_name valid nul)
        ⟨table, populateLoop_of_within loaded, gets⟩
    · exact .inr ⟨ofFormat, (populateHtableWithin_none_iff contents).mp (exactly.refuses ofFormat)⟩
  · rintro (empty | ⟨other, refused⟩)
    · constructor
      · intro lines valid stored
        have none' : lines = [] := by
          cases lines with
          | nil => rfl
          | cons line lines =>
              have named := (valid line (.head _)).named
              simp [empty, Line.text] at stored
        rw [none', populateHtableWithin, empty]
        exact ⟨_, rfl, fun _ => rfl⟩
      · intro other
        exact absurd ⟨[], by simp, empty⟩ other
    · constructor
      · intro lines valid stored
        exact absurd ⟨lines, valid, stored⟩ other
      · intro _
        exact (populateHtableWithin_none_iff contents).mpr refused

def storedText (text : Bytes) : FileContent := ⟨[], text, []⟩

def defaultLine : Line := ⟨defaultUser, decimal Perms.admin.toNat, defaultHash⟩

def twoDigits : Line := ⟨ascii "a", ascii "10", defaultHash⟩

def shortDigest : Bytes := ascii "a:1:ff\n" ++ [0]

theorem defaultLine_valid : ∀ line ∈ [defaultLine], line.Valid := by
  intro line among
  rcases List.mem_singleton.mp among with rfl
  constructor <;> decide +kernel

theorem shortDigest_other : ¬ OfFormat shortDigest := by
  rintro ⟨lines, valid, stored⟩
  have size : (linesText lines).length = 8 := congrArg List.length stored.symm
  cases lines with
  | nil => cases size
  | cons line lines =>
      have counted := linesCounted_le valid
      rw [linesCounted_cons, Line.counted, sha256DigestLen] at counted
      omega

/-- Even the database that the server makes itself is read beyond its end. A permission of two
digits makes the loop look for another line behind the last one, and a digest of one byte is
taken for one. -/
theorem default_database_overreads :
    (linesText [defaultLine] = defaultImage.drop magicBytes.length ∧
      ¬ ParsesExactly (storedText (linesText [defaultLine])) ∧
      populateHtableWithin ∅ (storedText (linesText [defaultLine])) = .error .overread) ∧
    populateHtable ∅ (storedText twoDigits.text) = .error .overread ∧
    ¬ ParsesExactly (storedText shortDigest) ∧
      populateHtableWithin ∅ (storedText shortDigest) =
        .ok (some (HashTable.set ∅ (CString.ofBuffer (ascii "a"))
          ⟨CString.ofBuffer (ascii "a"), 1, [255]⟩)) := by
  have overread : populateHtableWithin ∅ (storedText (linesText [defaultLine])) =
      .error .overread := by
    decide +kernel
  have taken : populateHtableWithin ∅ (storedText shortDigest) =
      .ok (some (HashTable.set ∅ (CString.ofBuffer (ascii "a"))
        ⟨CString.ofBuffer (ascii "a"), 1, [255]⟩)) := by
    rfl
  refine ⟨⟨by decide +kernel, fun exactly => ?_, overread⟩, by decide +kernel,
    fun exactly => ?_, taken⟩
  · rcases exactly.accepts [defaultLine] defaultLine_valid rfl with ⟨table, loaded, _⟩
    rw [overread] at loaded
    cases loaded
  · have refused := exactly.refuses shortDigest_other
    rw [taken] at refused
    cases refused

end FileTransfer
