import FileTransfer.Guarantees.AccountHistory
import FileTransfer.Guarantees.Persistence
import FileTransfer.Server.Disk

/-! # The size of the database

The writer counts the bytes of the table in one pass and prints them in another. The two
agree on accounts with a permission of one digit and a digest, as all accounts are that
requests create; but the second pass keeps its place in an `int`.
-/

namespace FileTransfer

open Foundation Posix

/-! ## Tables -/

/-- The buffer has the size of the magic number and the records, and one byte more for
each account. Both passes are made, no `sprintf` leaves the buffer it prints to, and what
goes into the file is the magic number and the records. -/
structure SizedExactly (accounts : List UserAccount) : Prop where
  counted : charCount accounts = (magicBytes ++ records accounts).length + accounts.length
  written : dbImage accounts = .ok (magicBytes ++ records accounts)

theorem sizedExactly_iff {accounts : List UserAccount}
    (sized : ∀ account ∈ accounts, Sized account) :
    SizedExactly accounts ↔ magicBytes.length + (records accounts).length ≤ maxInt := by
  constructor
  · intro exactly
    exact dbImage_ok exactly.written
  · intro fits
    refine ⟨?_, dbImage_eq sized fits⟩
    rw [charCount_eq sized, List.length_append]

def TableSized (users : HashTable CString UserAccount) : Prop :=
  ∀ name account, users.get name = some account →
    account.permission ≤ Perms.admin ∧ account.hash.length = sha256DigestLength

namespace TableSized

variable {users : HashTable CString UserAccount}

theorem sized (holds : TableSized users) {account : UserAccount}
    (member : account ∈ users.values) : Sized account := by
  rcases (users.mem_values_iff account).mp member with ⟨name, found⟩
  rcases holds name account found with ⟨capped, digest⟩
  have small : account.permission.toNat ≤ 3 := UInt8.le_iff_toNat_le.mp capped
  exact ⟨by omega, digest⟩

theorem set (holds : TableSized users) (name : CString) {account : UserAccount}
    (capped : account.permission ≤ Perms.admin)
    (digest : account.hash.length = sha256DigestLength) :
    TableSized (users.set name account) := by
  intro other stored found
  rw [HashTable.get_set] at found
  split at found
  · cases found
    exact ⟨capped, digest⟩
  · exact holds other stored found

theorem del (holds : TableSized users) (name : CString) : TableSized (users.del name) := by
  intro other stored found
  rw [HashTable.get_del] at found
  split at found
  · cases found
  · exact holds other stored found

theorem exactly_iff (holds : TableSized users) (order : Arrangement UserAccount) :
    SizedExactly (order.arrange users.values) ↔
      magicBytes.length + (records users.values).length ≤ maxInt := by
  rw [← records_length_perm (order.perm users.values)]
  apply sizedExactly_iff
  intro account member
  exact holds.sized ((order.perm users.values).mem_iff.mp member)

end TableSized

/-! ## Requests that save a table -/

structure HandsOver (sha : Sha256) (server : Server) (call : Call) (user : UserAccount)
    (check : SessionCheck) (asked : UserCall) (table : HashTable CString UserAccount) :
    Prop where
  authentic : Authentic sha server.db.usersHtable call.request user
  checked : checkSession call.env call.timeout server.db.seshHtable call.request.sessionId =
    .ok check
  passed : check.result = .opSuccess
  asks : call.request.userCall = some asked
  permitted : asked.Permitted user
  accepted : asked.verdict sha server.db.usersHtable = .ok table

theorem HandsOver.saves {sha : Sha256} {server : Server} {call : Call} {user : UserAccount}
    {check : SessionCheck} {asked : UserCall} {table : HashTable CString UserAccount}
    (hands : HandsOver sha server call user check asked table) :
    ctrlParseAction call.env sha call.timeout server call.request = (do
      let (code, after) ← saveUsers call.env sha (server.setSessions check.table) table
      return ⟨ctrlPopulateResp code, check.sessionId, after⟩) := by
  have called : asked.run call.env sha (server.setSessions check.table) =
      saveUsers call.env sha (server.setSessions check.table) table := by
    rw [UserCall.run_eq, Server.setSessions_users, hands.accepted]
  rcases performAction_userCall hands.asks with ⟨_, performed⟩ | ⟨notPermitted, _⟩
  · rw [ctrlParseAction_carries hands.authentic hands.checked hands.passed, performed, called]
    cases saveUsers call.env sha (server.setSessions check.table) table with
    | error fault => rfl
    | ok saved => rfl
  · exact absurd hands.permitted notPermitted

/-! ## Runs -/

section Runs

variable {sha : Sha256} {start server next final : Server} {call : Call} {handled : Handled}
  {user : UserAccount} {users table : HashTable CString UserAccount}

theorem UserCall.verdict_sized {asked : UserCall} (holds : TableSized users)
    (below : user.permission ≤ Perms.admin) (permitted : asked.Permitted user)
    (accepted : asked.verdict sha users = .ok table) : TableSized table := by
  rcases verdict_cases accepted with
    ⟨name, passwd, permission, rfl, -, rfl⟩ | ⟨name, account, -, -, rfl⟩
  · exact holds.set _ (UInt8.le_trans permitted below) (sha.size _)
  · exact holds.del _

theorem CtrlStep.sized (holds : TableSized server.db.usersHtable)
    (step : CtrlStep sha server call handled next) : TableSized next.db.usersHtable := by
  rcases step.users with same | ⟨user, payload, authentic, _, change, _⟩
  · rw [same]
    exact holds
  · rcases authentic with ⟨_, _, _, _, known, _⟩
    have below := (holds _ _ known).1
    cases change with
    | added name passwd named secret allowed capped fresh stored flag =>
        rw [stored]
        exact holds.set _ (UInt8.le_trans capped below) (sha.size _)
    | removed name account named admin present deleted flag =>
        rw [deleted]
        exact holds.del _

theorem HandsOver.sized {check : SessionCheck} {asked : UserCall}
    (hands : HandsOver sha server call user check asked table)
    (holds : TableSized server.db.usersHtable) : TableSized table := by
  rcases hands.authentic with ⟨_, _, _, _, known, _⟩
  exact UserCall.verdict_sized holds (holds _ _ known).1 hands.permitted hands.accepted

/-- The tables of one server lifetime: those that the server holds between requests, and
those that a request hands to the writer. -/
inductive Reached (sha : Sha256) (start : Server) : HashTable CString UserAccount → Prop
  | held {calls : List Call} {answers : List Handled} {final : Server}
      (run : Trace (CtrlStep sha) start calls answers final) :
      Reached sha start final.db.usersHtable
  | handed {calls : List Call} {answers : List Handled} {final : Server} {call : Call}
      {user : UserAccount} {check : SessionCheck} {asked : UserCall}
      {table : HashTable CString UserAccount}
      (run : Trace (CtrlStep sha) start calls answers final)
      (hands : HandsOver sha final call user check asked table) : Reached sha start table

theorem Reached.sized (reached : Reached sha start users)
    (holds : TableSized start.db.usersHtable) : TableSized users := by
  have kept : ∀ {calls answers final}, Trace (CtrlStep sha) start calls answers final →
      TableSized final.db.usersHtable := by
    intro calls answers final run
    exact run.invariant (fun server => TableSized server.db.usersHtable)
      (fun holds step => step.sized holds) holds
  cases reached with
  | held run => exact kept run
  | handed run hands => exact hands.sized (kept run)

def defaultUsers : HashTable CString UserAccount :=
  HashTable.set ∅ defaultAccount.username defaultAccount

theorem defaultUsers_sized : TableSized defaultUsers := by
  have empty : TableSized ∅ := by
    intro name account found
    simp at found
  exact empty.set _ (by decide) (by decide +kernel)

/-- In every run from the default table, whatever the order of iteration, the writer's
passes agree to the byte exactly for tables that an `int` can count. -/
theorem sizing_exact_iff (default : start.db.usersHtable = defaultUsers)
    (reached : Reached sha start users) (order : Arrangement UserAccount) :
    SizedExactly (order.arrange users.values) ↔
      magicBytes.length + (records users.values).length ≤ maxInt := by
  apply (reached.sized _).exactly_iff
  rw [default]
  exact defaultUsers_sized

end Runs

/-! ## More users than an `int` can count

A first start, and the administrator creating users with names of twenty bytes. -/

theorem numberedName_nulFree (number : Nat) : (0 : UInt8) ∉ hexString (toBigEndian 10 number) := by
  intro member
  exact (Scan.isDigit_plain (isDigit_of_mem_hexString member)).2.2.1 rfl

def numberedName (number : Nat) : CString :=
  ⟨hexString (toBigEndian 10 number), numberedName_nulFree number⟩

theorem numberedName_length (number : Nat) : (numberedName number).length = 20 := by
  simp [numberedName, CString.length]

theorem numberedName_injective {number other : Nat} (fits : number < 256 ^ 10)
    (fits' : other < 256 ^ 10) (same : numberedName number = numberedName other) :
    number = other := by
  have spelled : hexString (toBigEndian 10 number) = hexString (toBigEndian 10 other) :=
    congrArg CString.bytes same
  have bytes := congrArg unhex spelled
  rw [unhex_hexString, unhex_hexString] at bytes
  exact toBigEndian_injective fits fits' bytes

theorem numberedName_ne_admin (number : Nat) :
    numberedName number ≠ defaultAccount.username := by
  intro same
  have length := numberedName_length number
  rw [same] at length
  revert length
  decide

def numberedAccount (number : Nat) : UserAccount :=
  ⟨numberedName number, Perms.read, firstSha.digest (ascii "password")⟩

def numberedUsers : Nat → HashTable CString UserAccount
  | 0 => defaultUsers
  | count + 1 => (numberedUsers count).set (numberedName count) (numberedAccount count)

theorem numberedUsers_fresh {count number : Nat} (later : count ≤ number)
    (fits : number < 256 ^ 10) : (numberedUsers count).get (numberedName number) = none := by
  induction count with
  | zero =>
      rw [numberedUsers, defaultUsers, HashTable.get_set_ne _ _ (numberedName_ne_admin number),
        HashTable.get_empty]
  | succ count induction =>
      have different : numberedName number ≠ numberedName count := by
        intro same
        have equal := numberedName_injective fits (by omega) same
        omega
      rw [numberedUsers, HashTable.get_set_ne _ _ different]
      exact induction (by omega)

theorem numberedUsers_admin (count : Nat) :
    (numberedUsers count).get defaultAccount.username = some defaultAccount := by
  induction count with
  | zero => exact HashTable.get_set_self _ _ _
  | succ count induction =>
      rw [numberedUsers, HashTable.get_set_ne _ _ (numberedName_ne_admin count).symm]
      exact induction

theorem numberedUsers_sized (count : Nat) : TableSized (numberedUsers count) := by
  induction count with
  | zero => exact defaultUsers_sized
  | succ count induction =>
      have capped : (numberedAccount count).permission ≤ Perms.admin :=
        show Perms.read ≤ Perms.admin by decide
      exact induction.set _ capped (firstSha.size _)

theorem numberedUsers_records {count : Nat} (fits : count ≤ 256 ^ 10) :
    (records (numberedUsers count).values).length = 73 + 88 * count := by
  induction count with
  | zero => decide +kernel
  | succ count induction =>
      have sized : Sized (numberedAccount count) :=
        ⟨show Perms.read.toNat < 10 by decide, firstSha.size _⟩
      have length : (numberedAccount count).username.length = 20 := numberedName_length count
      rw [numberedUsers, HashTable.values_set_of_get_eq_none _
        (numberedUsers_fresh le_rfl (by omega)), records_cons, List.length_append,
        induction (by omega), accountRecord_length sized, length]
      omega

def adminRequest (sessionId : UInt32) (act : Act) (payload : Payload) : WirePayload where
  optCode := act.toByte
  sessionId := sessionId
  username := some (ascii "admin")
  passwd := some (ascii "password")
  payload := payload

def opening : WirePayload := adminRequest 0 .localOperation .empty

def creating (number : Nat) : WirePayload :=
  adminRequest 7 .userOperation (.user
    { userFlag := UsrAct.createUser.toByte
      userPerm := Perms.read
      username := some (numberedName number).bytes
      passwd := some (ascii "password") })

structure Filling (count : Nat) (server : Server) : Prop where
  users : server.db.usersHtable = numberedUsers count
  serves : server.db.homeDir = ⟨render serverHome⟩
  saving : server.db.debug = false
  disk : ∃ text stored, OnDisk server.tree serverHome text stored
  session : server.db.seshHtable.get 7 = some 0

namespace Filling

variable {count : Nat} {server : Server}

theorem handsOver (filling : Filling count server) (fits : count < 256 ^ 10) :
    HandsOver firstSha server ⟨quietEnv, 60, creating count⟩ defaultAccount
      ⟨.opSuccess, 7, server.db.seshHtable.set 7 0⟩
      (.create (some (numberedName count)) (some (CString.ofBuffer (ascii "password")))
        Perms.read) (numberedUsers (count + 1)) where
  authentic := by
    refine ⟨ascii "admin", ascii "password", rfl, rfl, ?_, by decide +kernel⟩
    rw [filling.users]
    exact numberedUsers_admin count
  checked := by
    have alive : ¬ quietEnv.time - 0 > 60 := by decide
    have known : ¬ (creating count).sessionId = 0 := show ¬ (7 : UInt32) = 0 by decide
    have held : server.db.seshHtable.get (creating count).sessionId = some 0 := filling.session
    rw [checkSession, if_neg known, held]
    simp only [alive, if_false]
    rfl
  passed := rfl
  asks := by
    have named : CString.ofBuffer (numberedName count).bytes = numberedName count :=
      CString.ofBuffer_bytes _
    change some (UserCall.create (some (CString.ofBuffer (numberedName count).bytes)) _ _) = _
    rw [named]
    rfl
  permitted := show Perms.read ≤ Perms.admin by decide
  accepted := by
    have allowed : credentialsAllowed (numberedName count) (CString.ofBuffer (ascii "password")) =
        true := by
      rw [credentialsAllowed, numberedName_length]
      decide
    have fresh : (numberedUsers count).keyExists (numberedName count) = false :=
      (HashTable.keyExists_eq_false_iff _ _).mpr (numberedUsers_fresh le_rfl fits)
    rw [filling.users, UserCall.verdict, allowed, fresh]
    rfl

theorem step (filling : Filling count server) (fits : count < 256 ^ 10)
    (counted : magicBytes.length + (records (numberedUsers (count + 1)).values).length ≤ maxInt) :
    ∃ handled next, CtrlStep firstSha server ⟨quietEnv, 60, creating count⟩ handled next ∧
      Filling (count + 1) next := by
  have hands := filling.handsOver fits
  have written : dbImage (quietEnv.users.arrange (numberedUsers (count + 1)).values) = .ok _ :=
    (((numberedUsers_sized (count + 1)).exactly_iff quietEnv.users).mpr counted).written
  rcases filling.disk with ⟨text, stored, disk⟩
  have onDisk : OnDisk (server.setSessions (server.db.seshHtable.set 7 0)).tree serverHome text
      stored := disk
  rcases saveUsers_written firstSha onDisk filling.serves filling.saving written
    (quietEnv_smooth.survives _) with ⟨tree, saved, afterwards⟩
  have handled := hands.saves
  simp only [saved, Fallible.ok_bind, Fallible.pure_eq_ok] at handled
  refine ⟨_, _, ⟨handled, rfl⟩, ?_⟩
  exact ⟨rfl, filling.serves, filling.saving, ⟨_, _, afterwards⟩, HashTable.get_set_self _ _ _⟩

end Filling

theorem opened_first : ∃ start handled, FirstStart firstSha start ∧
    CtrlStep firstSha start ⟨quietEnv, 60, opening⟩ handled handled.server ∧
      Filling 0 handled.server := by
  have evaluated : (firstRun opening).map (fun ran => decide
      (ran.2.server.db.usersHtable.entries = defaultUsers.entries ∧
        ran.2.server.db.homeDir = ⟨render serverHome⟩ ∧ ran.2.server.db.debug = false ∧
        ran.2.server.tree.get (dbFileName :: dbDirName :: serverHome) =
          some (.file defaultImage) ∧
        ran.2.server.tree.get (hashFileName :: dbDirName :: serverHome) =
          some (.file (magicBytes ++ firstSha.digest defaultImage)) ∧
        ran.2.server.db.seshHtable.get 7 = some 0)) = some true := by
    decide +kernel
  rcases Option.map_eq_some_iff.mp evaluated with ⟨⟨start, handled⟩, ran, facts⟩
  rcases firstRun_steps ran with ⟨first, step⟩
  rcases of_decide_eq_true facts with ⟨entries, serves, saving, file, hash, session⟩
  refine ⟨start, handled, first, step, AList.ext entries, serves, saving, ?_, session⟩
  exact ⟨_, _, file, hash, by decide⟩

theorem sizing_exact_created :
    ∃ opened handled next, opened.db.usersHtable = defaultUsers ∧
      CtrlStep firstSha opened ⟨quietEnv, 60, creating 0⟩ handled next ∧
        next.db.usersHtable = numberedUsers 1 ∧ SizedExactly next.db.usersHtable.values ∧
          SizedExactly
            ((Arrangement.backwards UserAccount).arrange next.db.usersHtable.values) := by
  rcases opened_first with ⟨start, opened, _, _, filling⟩
  have small : magicBytes.length + (records (numberedUsers (0 + 1)).values).length ≤ maxInt := by
    rw [numberedUsers_records (show 0 + 1 ≤ 256 ^ 10 by decide)]
    decide
  rcases filling.step (by decide) small with ⟨handled, next, step, created⟩
  have reached : Reached firstSha opened.server next.db.usersHtable :=
    .held (.cons step (.nil next))
  rw [← created.users] at small
  exact ⟨opened.server, handled, next, filling.users, step, created.users,
    (sizing_exact_iff filling.users reached (.stored UserAccount)).mpr small,
    (sizing_exact_iff filling.users reached (.backwards UserAccount)).mpr small⟩

theorem filled {start : Server} {calls : List Call} {answers : List Handled} {opened : Server}
    (run : Trace (CtrlStep firstSha) start calls answers opened) (filling : Filling 0 opened)
    {count : Nat} (bounded : count < 256 ^ 10)
    (counted : magicBytes.length + (73 + 88 * count) ≤ maxInt) :
    ∃ calls answers final, Trace (CtrlStep firstSha) start calls answers final ∧
      Filling count final := by
  induction count with
  | zero => exact ⟨calls, answers, opened, run, filling⟩
  | succ count induction =>
      rcases induction (by omega) (by omega) with ⟨calls, answers, final, run, filling⟩
      rw [← numberedUsers_records bounded.le] at counted
      rcases filling.step (by omega) counted with ⟨handled, next, step, further⟩
      exact ⟨_, _, next, run.append (.cons step (.nil next)), further⟩

/-- With 24403223 users besides the default one, the writer's `int` overflows. -/
theorem int_offset_overflows :
    ∃ start users, FirstStart firstSha start ∧ Reached firstSha start users ∧
      ¬ SizedExactly users.values := by
  rcases opened_first with ⟨start, handled, first, step, filling⟩
  rcases filled (.cons step (.nil _)) filling (show 24403222 < 256 ^ 10 by decide)
    (show magicBytes.length + (73 + 88 * 24403222) ≤ maxInt by decide) with
    ⟨calls, answers, final, run, full⟩
  have hands := full.handsOver (show 24403222 < 256 ^ 10 by decide)
  refine ⟨start, _, first, .handed run hands, ?_⟩
  intro exactly
  have counted := dbImage_ok exactly.written
  rw [numberedUsers_records (show 24403222 + 1 ≤ 256 ^ 10 by decide)] at counted
  revert counted
  decide

end FileTransfer
