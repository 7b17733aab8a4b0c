import FileTransfer.Server.Lines

/-! # Reading back the database

The records that `db_update_db` prints are those that `populate_htable` scans, as
long as no name contains what the format puts between them.
-/

namespace FileTransfer

open Foundation Posix

/-! ## One record -/

/-- An account whose record the scanner takes apart where the printer put it
together: a short name without the format's own delimiters, a permission of one
digit, and a digest. -/
structure Recordable (account : UserAccount) : Prop where
  named : account.username.bytes ≠ []
  short : account.username.length ≤ maxUsernameLen
  noColon : colon ∉ account.username.bytes
  noNewline : newline ∉ account.username.bytes
  oneDigit : account.permission.toNat < 10
  digest : account.hash.length = sha256DigestLength

/-- An account whose record has the size that is counted for it: whatever the name, the
permission has one digit and the hash is a digest. -/
structure Sized (account : UserAccount) : Prop where
  oneDigit : account.permission.toNat < 10
  digest : account.hash.length = sha256DigestLength

theorem Recordable.sized {account : UserAccount} (recordable : Recordable account) :
    Sized account :=
  ⟨recordable.oneDigit, recordable.digest⟩

theorem decimal_oneDigit {value : Nat} (small : value < 10) :
    decimal value = [UInt8.ofNat (48 + value)] := by
  have all : ∀ value : Fin 10, decimal value.val = [UInt8.ofNat (48 + value.val)] := by
    decide
  exact all ⟨value, small⟩

theorem accountRecord_length {account : UserAccount} (sized : Sized account) :
    (accountRecord account).length = account.username.length + 68 := by
  simp [accountRecord, decimal_oneDigit sized.oneDigit, sized.digest, sha256DigestLength]

def recordLine (account : UserAccount) : Line :=
  ⟨account.username.bytes, decimal account.permission.toNat, hexString account.hash⟩

theorem recordLine_oneDigit {account : UserAccount} (recordable : Recordable account) :
    (recordLine account).digits.length = 1 ∧
      Scan.digitsValue 10 (recordLine account).digits = account.permission.toNat ∧
      ∀ byte ∈ (recordLine account).digits, Scan.isDigit 10 byte = true := by
  have all : ∀ value : Fin 10, (decimal value.val).length = 1 ∧
      Scan.digitsValue 10 (decimal value.val) = value.val ∧
      ∀ byte ∈ decimal value.val, Scan.isDigit 10 byte = true := by
    decide +kernel
  exact all ⟨account.permission.toNat, recordable.oneDigit⟩

theorem recordLine_valid {account : UserAccount} (recordable : Recordable account) :
    (recordLine account).Valid where
  named := recordable.named
  short := recordable.short
  noColon := recordable.noColon
  noNewline := recordable.noNewline
  numbered := List.ne_nil_of_length_pos (by rw [(recordLine_oneDigit recordable).1]; decide)
  decimal := (recordLine_oneDigit recordable).2.2
  oneByte := by
    rw [(recordLine_oneDigit recordable).2.1]
    exact account.permission.toNat_lt
  digest := by
    simp only [recordLine, hexString_length, recordable.digest]
    rfl
  hex _ := isDigit_of_mem_hexString

theorem recordLine_account {account : UserAccount} (recordable : Recordable account) :
    (recordLine account).account = account := by
  have permission : UInt8.ofNat (Scan.digitsValue 10 (recordLine account).digits) =
      account.permission := by
    rw [(recordLine_oneDigit recordable).2.1, UInt8.ofNat_toNat]
  rw [Line.account, permission]
  simp only [recordLine, CString.ofBuffer_bytes, unhex_hexString]

/-! ## All records -/

def records (accounts : List UserAccount) : Bytes := accounts.flatMap accountRecord

@[simp] theorem records_nil : records [] = [] := rfl

@[simp] theorem records_cons (account : UserAccount) (accounts : List UserAccount) :
    records (account :: accounts) = accountRecord account ++ records accounts := rfl

theorem records_length_perm {accounts others : List UserAccount}
    (perm : accounts.Perm others) : (records accounts).length = (records others).length := by
  simp only [records, List.length_flatMap]
  exact (perm.map _).sum_eq

theorem records_length_sublist {accounts others : List UserAccount}
    (sublist : accounts.Sublist others) :
    (records accounts).length ≤ (records others).length := by
  simp only [records, List.length_flatMap]
  exact (sublist.map _).sum_le_sum (by simp)

theorem records_eq_lines (accounts : List UserAccount) :
    records accounts = linesText (accounts.map recordLine) := by
  rw [records, linesText, List.flatMap_map]
  rfl

theorem populateHtable_records {accounts : List UserAccount}
    (recordable : ∀ account ∈ accounts, Recordable account) {contents : FileContent}
    (stored : contents.stream = records accounts) :
    populateHtable ∅ contents =
      .ok (some (HashTable.collect UserAccount.username ∅ accounts)) := by
  rw [records_eq_lines] at stored
  have valid : ∀ line ∈ accounts.map recordLine, line.Valid := by
    intro line member
    rcases List.mem_map.mp member with ⟨account, among, rfl⟩
    exact recordLine_valid (recordable account among)
  have nulFree : ∀ line ∈ accounts.map recordLine, (0 : UInt8) ∉ line.name := by
    intro line member
    rcases List.mem_map.mp member with ⟨account, _, rfl⟩
    exact account.username.nulFree
  have described : (accounts.map recordLine).map Line.account = accounts := by
    rw [List.map_map]
    exact (List.map_congr_left fun account among =>
      recordLine_account (recordable account among)).trans (List.map_id' accounts)
  rcases populateHtable_lines valid nulFree stored with ⟨_, loaded⟩ | ⟨more, _⟩
  · rwa [described] at loaded
  · refine absurd (fun line member => ?_) more
    rcases List.mem_map.mp member with ⟨account, among, rfl⟩
    exact (recordLine_oneDigit (recordable account among)).1

/-! ## Printing all records -/

theorem charCount_foldl (accounts : List UserAccount) (count : Nat) :
    accounts.foldl (fun count account =>
        count + account.username.length + account.hash.length * 2 + 5) count =
      count + (accounts.map fun account =>
        account.username.length + account.hash.length * 2 + 5).sum := by
  induction accounts generalizing count with
  | nil => simp
  | cons account accounts induction =>
      rw [List.foldl_cons, induction, List.map_cons, List.sum_cons]
      omega

theorem charCount_eq {accounts : List UserAccount}
    (sized : ∀ account ∈ accounts, Sized account) :
    charCount accounts =
      magicBytes.length + (records accounts).length + accounts.length := by
  rw [charCount, charCount_foldl, Nat.add_assoc]
  congr 1
  induction accounts with
  | nil => rfl
  | cons account accounts induction =>
      have head := sized account List.mem_cons_self
      have rest := induction fun other member =>
        sized other (List.mem_cons_of_mem _ member)
      have digest := head.digest
      simp only [sha256DigestLength] at digest
      simp only [List.map_cons, List.sum_cons, rest, records_cons, List.length_append,
        accountRecord_length head, List.length_cons, digest]
      omega

theorem writeAccounts_records {accounts : List UserAccount}
    (sized : ∀ account ∈ accounts, Sized account) {size : Nat} (text : Bytes)
    (room : text.length + (records accounts).length + accounts.length ≤ size)
    (fits : text.length + (records accounts).length ≤ maxInt) :
    writeAccounts size accounts text = .ok (text ++ records accounts) := by
  induction accounts generalizing text with
  | nil => simp [writeAccounts]
  | cons account accounts induction =>
      have head := sized account List.mem_cons_self
      have digest := head.digest
      simp only [records_cons, List.length_append, List.length_cons] at room fits
      have rest := induction
        (fun other member => sized other (List.mem_cons_of_mem _ member))
        (text ++ accountRecord account)
        (by rw [List.length_append]; omega) (by rw [List.length_append]; omega)
      rw [writeAccounts, if_neg (by rw [digest]; decide), if_neg (by omega),
        if_neg (by omega), rest]
      simp

/-- What is written is the magic number and the records, if the `int` offset can
count them. -/
theorem dbImage_eq {accounts : List UserAccount}
    (sized : ∀ account ∈ accounts, Sized account)
    (fits : magicBytes.length + (records accounts).length ≤ maxInt) :
    dbImage accounts = .ok (magicBytes ++ records accounts) := by
  have size := charCount_eq sized
  have written : writeAccounts (charCount accounts) accounts magicBytes =
      .ok (magicBytes ++ records accounts) :=
    writeAccounts_records sized magicBytes (by omega) fits
  rw [dbImage, written]
  simp only [Fallible.ok_bind, Fallible.pure_eq_ok, Except.ok.injEq]
  have whole : charCount accounts - accounts.length =
      (magicBytes ++ records accounts).length := by
    rw [size, List.length_append]
    omega
  rw [whole, List.take_left]

theorem writeAccounts_append (size : Nat) (accounts others : List UserAccount) (text : Bytes) :
    writeAccounts size (accounts ++ others) text =
      writeAccounts size accounts text >>= writeAccounts size others := by
  induction accounts generalizing text with
  | nil => rfl
  | cons account accounts induction =>
      rw [List.cons_append, writeAccounts, writeAccounts]
      split
      · rfl
      · split
        · rfl
        · split
          · rfl
          · exact induction _

theorem writeAccounts_ok {size : Nat} {accounts : List UserAccount} {text written : Bytes}
    (starts : text.length ≤ maxInt)
    (done : writeAccounts size accounts text = .ok written) :
    written = text ++ records accounts ∧ written.length ≤ maxInt := by
  induction accounts generalizing text with
  | nil =>
      cases done
      exact ⟨by simp, starts⟩
  | cons account accounts induction =>
      rw [writeAccounts] at done
      split at done
      · cases done
      · split at done
        · cases done
        · split at done
          · cases done
          · rename_i counted
            have next : (text ++ accountRecord account).length ≤ maxInt := by
              rw [List.length_append]
              omega
            rcases induction next done with ⟨rfl, fits⟩
            exact ⟨by simp, fits⟩

theorem dbImage_ok {accounts : List UserAccount} {image : Bytes}
    (done : dbImage accounts = .ok image) :
    magicBytes.length + (records accounts).length ≤ maxInt := by
  rcases Fallible.ok_of_bind_ok done with ⟨text, written, _⟩
  rcases writeAccounts_ok (by decide) written with ⟨rfl, fits⟩
  simpa using fits

/-! ## Behind the magic number -/

theorem getStoredData_some_iff {content data : FileContent} :
    getStoredData content = some data ↔ magicBytes <+: content.stream ∧
      data = { content with stream := content.stream.drop magicBytes.length } := by
  have magic : verifyMagic content.stream = true ↔ magicBytes <+: content.stream := by
    simp only [verifyMagic, Bool.and_eq_true, decide_eq_true_eq, List.prefix_iff_eq_take]
    constructor
    · exact fun checked => checked.2.symm
    · intro leads
      refine ⟨?_, leads.symm⟩
      have sized := congrArg List.length leads
      rw [List.length_take] at sized
      omega
  rw [← magic, getStoredData]
  split
  · rename_i checked
    simp [checked, eq_comm]
  · rename_i unchecked
    simp [unchecked]

theorem getStoredData_image {content : FileContent} {text : Bytes}
    (stream : content.stream = magicBytes ++ text) :
    getStoredData content = some { content with stream := text } := by
  rw [getStoredData_some_iff, stream, List.drop_left]
  exact ⟨List.prefix_append _ _, rfl⟩

theorem getStoredHash_some_iff {content hash : FileContent} :
    getStoredHash content = some hash ↔ ∃ digest,
      content.stream = magicBytes ++ digest ∧ digest.length = sha256DigestLength ∧
        hash = { content with stream := digest } := by
  constructor
  · intro accepted
    rw [getStoredHash] at accepted
    split at accepted
    · cases accepted
    · rename_i magic
      split at accepted
      · cases accepted
      · rename_i sized
        rw [Bool.not_eq_false] at magic
        rw [getStoredData, if_pos magic] at accepted
        cases accepted
        rw [not_not] at sized
        simp only [verifyMagic, Bool.and_eq_true, decide_eq_true_eq] at magic
        refine ⟨_, ?_, ?_, rfl⟩
        · have parted := (List.take_append_drop magicBytes.length content.stream).symm
          rwa [magic.2] at parted
        · rw [List.length_drop]
          omega
  · rintro ⟨digest, stream, sized, rfl⟩
    have magic : verifyMagic content.stream = true := by
      simp [verifyMagic, stream]
    have counted : content.stream.length = sha256DigestLength + magicBytes.length := by
      rw [stream, List.length_append]
      omega
    rw [getStoredHash, if_neg (by simp [magic]), if_neg (not_not.mpr counted),
      getStoredData_image stream]

theorem populateHtable_congr {content other : FileContent}
    (same : content.stream = other.stream) (table : HashTable CString UserAccount) :
    populateHtable table content = populateHtable table other := by
  simp only [populateHtable, same]

end FileTransfer
