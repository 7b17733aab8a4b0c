import FileTransfer.Server.Disk
import FileTransfer.Server.Records
import FileTransfer.Server.UserCalls

/-! # Calls of several workers

`db_create_user` and `db_remove_user` as the workers of the pool carry them out, on one
database and with no lock around it: each call of the hash table and each access to a file
is a step, and other workers take theirs in between.
-/

namespace FileTransfer

open Foundation Posix

/-! ## Iterating -/

/-- The iterator of the hash table. It may do anything while the table changes, and a
table that is left alone it delivers in the order it would have been delivered in one go:
`remaining` are the accounts from the current one on. -/
structure HtableIter (Iter : Type) (order : Arrangement UserAccount) where
  getIter : HashTable CString UserAccount → Iter
  getEntry : HashTable CString UserAccount → Iter → Option UserAccount
  getNext : HashTable CString UserAccount → Iter → Option UserAccount × Iter
  remaining : HashTable CString UserAccount → Iter → List UserAccount
  remaining_getIter : ∀ users, remaining users (getIter users) = order.arrange users.values
  getEntry_eq : ∀ users iter, getEntry users iter = (remaining users iter).head?
  getNext_eq : ∀ users iter,
    (getNext users iter).1 = (remaining users (getNext users iter).2).head?
  remaining_getNext : ∀ users iter,
    remaining users (getNext users iter).2 = (remaining users iter).tail

@[reducible] def HtableIter.snapshot (order : Arrangement UserAccount) :
    HtableIter (List UserAccount) order where
  getIter users := order.arrange users.values
  getEntry _ accounts := accounts.head?
  getNext _ accounts := (accounts.tail.head?, accounts.tail)
  remaining _ accounts := accounts
  remaining_getIter _ := rfl
  getEntry_eq _ _ := rfl
  getNext_eq _ _ := rfl
  remaining_getNext _ _ := rfl

inductive Pass (Iter : Type)
  | unopened
  | opened (iter : Iter)
  | visiting (iter : Iter) (account : UserAccount)
deriving DecidableEq

namespace HtableIter

variable {Iter : Type} {order : Arrangement UserAccount}

def advance (iteration : HtableIter Iter order) (users : HashTable CString UserAccount) :
    Pass Iter → Option (Pass Iter)
  | .unopened => some (.opened (iteration.getIter users))
  | .opened iter => (iteration.getEntry users iter).map (.visiting iter)
  | .visiting iter _ =>
      let (entry, iter) := iteration.getNext users iter
      entry.map (.visiting iter)

end HtableIter

def Pass.current {Iter : Type} : Pass Iter → List UserAccount
  | .visiting _ account => [account]
  | _ => []

/-! ## Steps -/

inductive Worker (Iter : Type)
  | ready (call : UserCall)
  /-- In `db_create_user`, past the lookup of the name. -/
  | checked (username passwd : CString) (permission : Perms)
  /-- In the first loop of `db_update_db`. -/
  | counting (pass : Pass Iter) (count : Nat)
  /-- In the second, with the size of the buffer and what is in it. -/
  | printing (pass : Pass Iter) (size accounts : Nat) (text : Bytes)
  | writing (buffer : Bytes)
  /-- In `update_db_hash`. -/
  | reading (dbFile : VerifiedPath)
  | hashing (byteArray : Bytes)
  | done (code : RetCode)
deriving DecidableEq

def countAccount (count : Nat) (account : UserAccount) : Nat :=
  count + account.username.length + account.hash.length * 2 + 5

def bufferOf (size accounts : Nat) (text : Bytes) : Bytes :=
  (text ++ List.replicate (size - text.length) 0).take (size - accounts)

namespace Worker

variable {Iter : Type}

def update (db : Db) : Worker Iter :=
  if db.debug then .done .opSuccess else .counting .unopened magicBytes.length

/-- One step of a worker: up to its next access to what the workers share, and that. -/
def step (env : Env) (iteration : HtableIter Iter env.users) (sha : Sha256)
    (server : Server) : Worker Iter → Except Fault (Server × Worker Iter)
  | ready (.create (some username) (some passwd) permission) =>
      if credentialsAllowed username passwd = false then .ok (server, done .opCredRuleError)
      else if server.db.usersHtable.keyExists username then .ok (server, done .opUserExists)
      else .ok (server, checked username passwd permission)
  | ready (.remove (some username)) =>
      if server.db.usersHtable.keyExists username = false then
        .ok (server, done .opUserNoExist)
      else
        .ok (⟨server.db.setUsers (server.db.usersHtable.del username), server.tree⟩,
          update server.db)
  | ready _ => .ok (server, done .opFailure)
  | checked username passwd permission =>
      let account := ⟨username, permission, hashByteArray sha passwd.bytes⟩
      .ok (⟨server.db.setUsers (server.db.usersHtable.set username account), server.tree⟩,
        update server.db)
  | counting pass count =>
      let count := pass.current.foldl countAccount count
      match iteration.advance server.db.usersHtable pass with
      | some pass => .ok (server, counting pass count)
      | none => .ok (server, printing .unopened count 0 magicBytes)
  | printing pass size accounts text => do
      let text ← writeAccounts size pass.current text
      let accounts := accounts + pass.current.length
      match iteration.advance server.db.usersHtable pass with
      | some pass => return (server, printing pass size accounts text)
      | none => return (server, writing (bufferOf size accounts text))
  | writing buffer => do
      match ← fVerValidResolve server.tree server.db.homeDir
          (some (CString.ofBuffer dbName)) with
      | none => return (server, done .opSuccess)
      | some dbPath =>
          let (status, tree) := fWriteFile env.dbWrite server.tree dbPath (some buffer)
          if status = .opFailure then return (⟨server.db, tree⟩, done .opSuccess)
          else return (⟨server.db, tree⟩, reading dbPath)
  | reading dbFile => do
      match ← readBack env server.tree dbFile with
      | none => return (server, done .opSuccess)
      | some byteArray => return (server, hashing byteArray)
  | hashing byteArray => do
      let (_, tree) ← writeHash env sha server.tree server.db.homeDir byteArray
      return (⟨server.db, tree⟩, done .opSuccess)
  | done code => .ok (server, done code)

/-- The code that a worker will return or has returned, once nothing can change it. -/
def answer : Worker Iter → Option RetCode
  | ready _ | checked _ _ _ => none
  | done code => some code
  | _ => some .opSuccess

def saving : Worker Iter → Bool
  | counting _ _ | printing _ _ _ _ | writing _ => true
  | _ => false

def storesFree (users : HashTable CString UserAccount) : Worker Iter → Bool
  | checked username _ _ => !users.keyExists username
  | _ => true

def changes (users : HashTable CString UserAccount) : Worker Iter → Bool
  | ready (.remove (some username)) => users.keyExists username
  | checked _ _ _ => true
  | _ => false

end Worker

/-! ## Passes over a table that is left alone -/

namespace HtableIter

variable {Iter : Type} {order : Arrangement UserAccount}

def pending (iteration : HtableIter Iter order) (users : HashTable CString UserAccount) :
    Pass Iter → List UserAccount
  | .unopened => order.arrange users.values
  | .opened iter => iteration.remaining users iter
  | .visiting iter account => account :: (iteration.remaining users iter).tail

theorem pending_eq (iteration : HtableIter Iter order)
    (users : HashTable CString UserAccount) (pass : Pass Iter) :
    iteration.pending users pass = pass.current ++
      ((iteration.advance users pass).map (iteration.pending users)).getD [] := by
  have delivered : ∀ iter, iteration.remaining users iter =
      (((iteration.remaining users iter).head?.map (Pass.visiting iter)).map
        (iteration.pending users)).getD [] := by
    intro iter
    cases left : iteration.remaining users iter with
    | nil => rfl
    | cons account accounts => simp [pending, left]
  cases pass with
  | unopened => exact (iteration.remaining_getIter users).symm
  | opened iter =>
      simp only [pending, advance, Pass.current, List.nil_append, iteration.getEntry_eq]
      exact delivered iter
  | visiting iter account =>
      have next := iteration.remaining_getNext users iter
      simp only [pending, advance, Pass.current, List.singleton_append, List.cons.injEq, true_and,
        iteration.getNext_eq]
      rw [← next]
      exact delivered _

end HtableIter

theorem writeAccounts_bounds {size : Nat} {accounts : List UserAccount} {text text' : Bytes}
    (wrote : writeAccounts size accounts text = .ok text') (fits : text.length ≤ size) :
    text.length + accounts.length ≤ text'.length ∧ text'.length ≤ size := by
  induction accounts generalizing text with
  | nil =>
      cases wrote
      exact ⟨le_rfl, fits⟩
  | cons account accounts induction =>
      simp only [writeAccounts] at wrote
      split at wrote
      · cases wrote
      split at wrote
      · cases wrote
      rename_i roomy
      split at wrote
      · cases wrote
      have length : (text ++ accountRecord account).length =
          text.length + (accountRecord account).length := List.length_append
      have record : 0 < (accountRecord account).length := by simp [accountRecord]
      rcases induction wrote (by omega) with ⟨longer, fits'⟩
      simp only [List.length_cons]
      exact ⟨by omega, fits'⟩

theorem dbImage_eq_bufferOf (accounts : List UserAccount) :
    dbImage accounts = (do
      let text ← writeAccounts (charCount accounts) accounts magicBytes
      return bufferOf (charCount accounts) accounts.length text) := rfl

/-! ## What a step does -/

namespace Worker

variable {Iter : Type} {env : Env} {iteration : HtableIter Iter env.users} {sha : Sha256}
  {server after : Server} {worker next : Worker Iter}

def InCall (call : UserCall) : Worker Iter → Prop
  | ready other => other = call
  | checked username passwd permission =>
      call = .create (some username) (some passwd) permission ∧
        credentialsAllowed username passwd = true
  | _ => True

def OnCourse (iteration : HtableIter Iter env.users)
    (users : HashTable CString UserAccount) : Worker Iter → Prop
  | counting pass count =>
      (iteration.pending users pass).foldl countAccount count =
        charCount (env.users.arrange users.values)
  | printing pass size accounts text =>
      size = charCount (env.users.arrange users.values) ∧
      accounts + (iteration.pending users pass).length =
        (env.users.arrange users.values).length ∧
      writeAccounts size (iteration.pending users pass) text =
        writeAccounts size (env.users.arrange users.values) magicBytes
  | writing buffer => dbImage (env.users.arrange users.values) = .ok buffer
  | _ => False

/-- What a step comes to, with what it finds on its way. -/
inductive Moves (env : Env) (iteration : HtableIter Iter env.users) (sha : Sha256)
    (server : Server) : Worker Iter → Server → Worker Iter → Prop
  | refuses (call : UserCall) {code : RetCode}
      (refused : call.verdict sha server.db.usersHtable = .error code) :
      Moves env iteration sha server (ready call) server (done code)
  | looks (username passwd : CString) (permission : Perms)
      (allowed : credentialsAllowed username passwd = true)
      (free : server.db.usersHtable.keyExists username = false) :
      Moves env iteration sha server (ready (.create (some username) (some passwd) permission))
        server (checked username passwd permission)
  | removes (username : CString) (present : server.db.usersHtable.keyExists username = true) :
      Moves env iteration sha server (ready (.remove (some username)))
        ⟨server.db.setUsers (server.db.usersHtable.del username), server.tree⟩
        (update server.db)
  | stores (username passwd : CString) (permission : Perms) :
      Moves env iteration sha server (checked username passwd permission)
        ⟨server.db.setUsers (server.db.usersHtable.set username
          ⟨username, permission, hashByteArray sha passwd.bytes⟩), server.tree⟩
        (update server.db)
  | counts {pass onwards : Pass Iter} (count : Nat)
      (moved : iteration.advance server.db.usersHtable pass = some onwards) :
      Moves env iteration sha server (counting pass count) server
        (counting onwards (pass.current.foldl countAccount count))
  | counted {pass : Pass Iter} (count : Nat)
      (ended : iteration.advance server.db.usersHtable pass = none) :
      Moves env iteration sha server (counting pass count) server
        (printing .unopened (pass.current.foldl countAccount count) 0 magicBytes)
  | prints {pass onwards : Pass Iter} {size : Nat} (accounts : Nat) {text longer : Bytes}
      (wrote : writeAccounts size pass.current text = .ok longer)
      (moved : iteration.advance server.db.usersHtable pass = some onwards) :
      Moves env iteration sha server (printing pass size accounts text) server
        (printing onwards size (accounts + pass.current.length) longer)
  | printed {pass : Pass Iter} {size : Nat} (accounts : Nat) {text longer : Bytes}
      (wrote : writeAccounts size pass.current text = .ok longer)
      (ended : iteration.advance server.db.usersHtable pass = none) :
      Moves env iteration sha server (printing pass size accounts text) server
        (writing (bufferOf size (accounts + pass.current.length) longer))
  | unwritten (buffer : Bytes)
      (refused : fVerValidResolve server.tree server.db.homeDir
        (some (CString.ofBuffer dbName)) = .ok none) :
      Moves env iteration sha server (writing buffer) server (done .opSuccess)
  | writes (buffer : Bytes) {dbPath : VerifiedPath} {status : RetCode} {tree : FileTree}
      (verified : fVerValidResolve server.tree server.db.homeDir
        (some (CString.ofBuffer dbName)) = .ok (some dbPath))
      (wrote : fWriteFile env.dbWrite server.tree dbPath (some buffer) = (status, tree)) :
      Moves env iteration sha server (writing buffer) ⟨server.db, tree⟩
        (if status = .opFailure then done .opSuccess else reading dbPath)
  | unread (dbFile : VerifiedPath) :
      Moves env iteration sha server (reading dbFile) server (done .opSuccess)
  | reads (dbFile : VerifiedPath) (byteArray : Bytes) :
      Moves env iteration sha server (reading dbFile) server (hashing byteArray)
  | hashes (byteArray : Bytes) {hashFile : VerifiedPath} {tree : FileTree}
      (wrote : writeHash env sha server.tree server.db.homeDir byteArray =
        .ok (hashFile, tree)) :
      Moves env iteration sha server (hashing byteArray) ⟨server.db, tree⟩ (done .opSuccess)
  | rests (code : RetCode) : Moves env iteration sha server (done code) server (done code)

theorem ready_moves {call : UserCall}
    (stepped : (ready call).step env iteration sha server = .ok (after, next)) :
    Moves env iteration sha server (ready call) after next := by
  rw [step.eq_def] at stepped
  split at stepped
  · rename_i username passwd permission same
    cases same
    split at stepped
    · rename_i disallowed
      cases stepped
      exact .refuses _ (by simp [UserCall.verdict, disallowed])
    · rename_i allowed
      split at stepped
      · rename_i taken
        cases stepped
        exact .refuses _ (by simp [UserCall.verdict, allowed, taken])
      · rename_i free
        cases stepped
        exact .looks username passwd permission (by simpa using allowed) (by simpa using free)
  · rename_i username same
    cases same
    split at stepped
    · rename_i missing
      cases stepped
      exact .refuses _ (by simp [UserCall.verdict, missing])
    · rename_i present
      cases stepped
      exact .removes username (by simpa using present)
  · rename_i other notCreate notRemove same
    cases same
    cases stepped
    refine .refuses _ ?_
    rw [UserCall.verdict.eq_def]
    split
    · exact absurd rfl (notCreate _ _ _)
    · exact absurd rfl (notRemove _)
    · rfl
  all_goals rename_i same; cases same

theorem moves_of_step (stepped : worker.step env iteration sha server = .ok (after, next)) :
    Moves env iteration sha server worker after next := by
  cases worker with
  | ready call => exact ready_moves stepped
  | checked username passwd permission =>
      cases stepped
      exact .stores username passwd permission
  | counting pass count =>
      rw [step] at stepped
      split at stepped <;> rename_i moved <;> cases stepped
      · exact .counts count moved
      · exact .counted count moved
  | printing pass size accounts text =>
      rcases Fallible.ok_of_bind_ok stepped with ⟨longer, wrote, rest⟩
      simp only at rest
      split at rest <;> rename_i moved <;> cases rest
      · exact .prints accounts wrote moved
      · exact .printed accounts wrote moved
  | writing buffer =>
      rcases Fallible.ok_of_bind_ok stepped with ⟨_ | dbPath, verified, rest⟩
      · cases rest
        exact .unwritten buffer verified
      · cases wrote : fWriteFile env.dbWrite server.tree dbPath (some buffer) with
        | mk status tree =>
            have moves : Moves env iteration sha server (writing buffer) _ _ :=
              .writes buffer verified wrote
            simp only [wrote] at rest
            split at rest <;> rename_i failed <;> cases rest
            · rwa [if_pos failed] at moves
            · rwa [if_neg failed] at moves
  | reading dbFile =>
      rcases Fallible.ok_of_bind_ok stepped with ⟨_ | byteArray, _, rest⟩
      · cases rest
        exact .unread dbFile
      · cases rest
        exact .reads dbFile byteArray
  | hashing byteArray =>
      rcases Fallible.ok_of_bind_ok stepped with ⟨result, wrote, rest⟩
      cases rest
      exact .hashes byteArray wrote
  | done code =>
      cases stepped
      exact .rests code

theorem step_unanswered {call : UserCall}
    (stepped : worker.step env iteration sha server = .ok (after, next))
    (unanswered : worker.answer = none) (inCall : worker.InCall call)
    (free : worker.storesFree server.db.usersHtable = true) :
    (after = server ∧ next.answer = none ∧ next.InCall call ∧
        next.storesFree server.db.usersHtable = true) ∨
      (∃ code, call.verdict sha server.db.usersHtable = .error code ∧
        after = server ∧ next = done code) ∨
      ∃ table, call.verdict sha server.db.usersHtable = .ok table ∧
        worker.changes server.db.usersHtable = true ∧
        after = ⟨server.db.setUsers table, server.tree⟩ ∧ next = update server.db := by
  cases moves_of_step stepped with
  | refuses other refused =>
      cases inCall
      exact .inr (.inl ⟨_, refused, rfl, rfl⟩)
  | looks username passwd permission allowed isFree =>
      cases inCall
      exact .inl ⟨rfl, rfl, ⟨rfl, allowed⟩, by simp [storesFree, isFree]⟩
  | removes username present =>
      cases inCall
      exact .inr (.inr ⟨_, by simp [UserCall.verdict, present], present, rfl, rfl⟩)
  | stores username passwd permission =>
      rcases inCall with ⟨rfl, allowed⟩
      have fresh : server.db.usersHtable.keyExists username = false := by
        simpa [storesFree] using free
      exact .inr (.inr ⟨_, by simp [UserCall.verdict, allowed, fresh], rfl, rfl, rfl⟩)
  | _ => cases unanswered

theorem step_answered {code : RetCode}
    (stepped : worker.step env iteration sha server = .ok (after, next))
    (answered : worker.answer = some code) :
    after.db = server.db ∧ next.answer = some code := by
  cases moves_of_step stepped with
  | refuses call refused => cases answered
  | looks username passwd permission allowed free => cases answered
  | removes username present => cases answered
  | stores username passwd permission => cases answered
  | writes buffer verified wrote => split <;> exact ⟨rfl, answered⟩
  | _ => exact ⟨rfl, answered⟩

theorem update_onCourse (users : HashTable CString UserAccount) {db : Db}
    (saves : db.debug = false) : (update db : Worker Iter).OnCourse iteration users := by
  rw [update, saves]
  rfl

theorem answer_of_saving (saves : worker.saving = true) :
    worker.answer = some .opSuccess := by
  cases worker with
  | counting pass count => rfl
  | printing pass size accounts text => rfl
  | writing buffer => rfl
  | ready call => cases saves
  | checked username passwd permission => cases saves
  | reading dbFile => cases saves
  | hashing byteArray => cases saves
  | done code => cases saves

theorem OnCourse.saving {users : HashTable CString UserAccount}
    (course : worker.OnCourse iteration users) : worker.saving = true := by
  cases worker with
  | counting pass count => rfl
  | printing pass size accounts text => rfl
  | writing buffer => rfl
  | ready call => exact course.elim
  | checked username passwd permission => exact course.elim
  | reading dbFile => exact course.elim
  | hashing byteArray => exact course.elim
  | done code => exact course.elim

theorem storesFree_of_answer {code : RetCode} (users : HashTable CString UserAccount)
    (answered : worker.answer = some code) : worker.storesFree users = true := by
  cases worker with
  | checked username passwd permission => cases answered
  | ready call => rfl
  | counting pass count => rfl
  | printing pass size accounts text => rfl
  | writing buffer => rfl
  | reading dbFile => rfl
  | hashing byteArray => rfl
  | done code => rfl

theorem saving_of_changes {users : HashTable CString UserAccount}
    (change : worker.changes users = true) : worker.saving = false := by
  cases worker with
  | counting pass count => cases change
  | printing pass size accounts text => cases change
  | writing buffer => cases change
  | ready call => rfl
  | checked username passwd permission => rfl
  | reading dbFile => rfl
  | hashing byteArray => rfl
  | done code => rfl

def Prints : Worker Iter → Prop
  | counting _ count => magicBytes.length ≤ count
  | printing _ size accounts text =>
      magicBytes.length + accounts ≤ text.length ∧ text.length ≤ size
  | writing buffer => buffer ≠ []
  | _ => True

theorem update_prints (db : Db) : (update db : Worker Iter).Prints := by
  rw [update]
  split
  · trivial
  · exact le_rfl

theorem step_prints (stepped : worker.step env iteration sha server = .ok (after, next))
    (prints : worker.Prints) : next.Prints := by
  have counted : ∀ {pass : Pass Iter} {count : Nat}, (counting pass count).Prints →
      magicBytes.length ≤ pass.current.foldl countAccount count := by
    intro pass count start
    cases pass with
    | visiting iter account =>
        have start' : magicBytes.length ≤ count := start
        simp only [Pass.current, List.foldl_cons, List.foldl_nil, countAccount]
        omega
    | _ => exact start
  cases moves_of_step stepped with
  | removes username present => exact update_prints _
  | stores username passwd permission => exact update_prints _
  | counts count moved => exact counted prints
  | counted count ended => exact ⟨le_rfl, counted prints⟩
  | prints accounts wrote moved =>
      rcases writeAccounts_bounds wrote prints.2 with ⟨longer, fits⟩
      have start := prints.1
      exact ⟨by omega, fits⟩
  | printed accounts wrote ended =>
      rcases writeAccounts_bounds wrote prints.2 with ⟨longer, fits⟩
      have start := prints.1
      have magic : magicBytes.length = 4 := rfl
      apply List.ne_nil_of_length_pos
      simp only [bufferOf, List.length_take, List.length_append, List.length_replicate]
      omega
  | writes buffer verified wrote => split <;> trivial
  | _ => trivial

section OnDisk

variable {home : Location} {text stored : Bytes}

/-- A worker that saves gets nearer to writing the image of the table, or writes it. -/
theorem step_saving (stepped : worker.step env iteration sha server = .ok (after, next))
    (course : worker.OnCourse iteration server.db.usersHtable)
    (disk : OnDisk server.tree home text stored) (serves : server.db.homeDir = ⟨render home⟩) :
    (after = server ∧ next.OnCourse iteration server.db.usersHtable) ∨
      ∃ image, dbImage (env.users.arrange server.db.usersHtable.values) = .ok image ∧
        OnDisk after.tree home (textAfter env text image) stored ∧ next.saving = false ∧
        (SaveCrashes env image →
          next = reading ⟨render (dbFileName :: dbDirName :: home)⟩) := by
  cases moves_of_step stepped with
  | @counts pass onwards count moved =>
      have course' : (iteration.pending server.db.usersHtable pass).foldl countAccount count =
          charCount (env.users.arrange server.db.usersHtable.values) := course
      rw [iteration.pending_eq, List.foldl_append, moved] at course'
      exact .inl ⟨rfl, course'⟩
  | @counted pass count ended =>
      have course' : (iteration.pending server.db.usersHtable pass).foldl countAccount count =
          charCount (env.users.arrange server.db.usersHtable.values) := course
      rw [iteration.pending_eq, List.foldl_append, ended] at course'
      exact .inl ⟨rfl, course', Nat.zero_add _, rfl⟩
  | prints accounts wrote moved =>
      rcases course with ⟨sized, counted, printed⟩
      rw [iteration.pending_eq, List.length_append, moved] at counted
      rw [iteration.pending_eq, writeAccounts_append, wrote, moved] at printed
      exact .inl ⟨rfl, sized, (Nat.add_assoc _ _ _).trans counted, printed⟩
  | @printed pass size accounts text' longer wrote ended =>
      rcases course with ⟨sized, counted, printed⟩
      rw [iteration.pending_eq, List.length_append, ended] at counted
      rw [iteration.pending_eq, writeAccounts_append, wrote, ended] at printed
      have whole : writeAccounts (charCount (env.users.arrange server.db.usersHtable.values))
          (env.users.arrange server.db.usersHtable.values) magicBytes = .ok longer := by
        rw [← sized]
        exact printed.symm
      have counted' : accounts + pass.current.length =
          (env.users.arrange server.db.usersHtable.values).length := counted
      refine .inl ⟨rfl, ?_⟩
      rw [OnCourse, dbImage_eq_bufferOf, whole, sized, counted']
      rfl
  | unwritten buffer refused =>
      rw [serves, disk.file_resolves.2.1] at refused
      cases refused
  | writes buffer verified wrote =>
      rcases fWriteFile_disk env buffer disk with ⟨status, tree, wrote', disk', failed⟩
      rw [serves, disk.file_resolves.2.1] at verified
      cases verified
      cases wrote.symm.trans wrote'
      refine .inr ⟨buffer, course, disk', ?_, fun crashes => ?_⟩
      · split <;> rfl
      · rw [if_neg fun reported => failed.mp reported ⟨crashes.1, crashes.2.1⟩]
  | refuses call refused => exact course.elim
  | looks username passwd permission allowed free => exact course.elim
  | removes username present => exact course.elim
  | stores username passwd permission => exact course.elim
  | unread dbFile => exact course.elim
  | reads dbFile byteArray => exact course.elim
  | hashes byteArray wrote => exact course.elim
  | rests code => exact course.elim

/-- Once the database is written, what is left of a call leaves it as it is. -/
theorem step_written {code : RetCode}
    (stepped : worker.step env iteration sha server = .ok (after, next))
    (answered : worker.answer = some code) (written : worker.saving = false)
    (disk : OnDisk server.tree home text stored) (serves : server.db.homeDir = ⟨render home⟩) :
    (∃ stored', OnDisk after.tree home text stored') ∧ next.saving = false := by
  cases moves_of_step stepped with
  | unread dbFile => exact ⟨⟨stored, disk⟩, rfl⟩
  | reads dbFile byteArray => exact ⟨⟨stored, disk⟩, rfl⟩
  | hashes byteArray wrote =>
      rw [serves, disk.writeHash_eq] at wrote
      split at wrote <;> cases wrote
      exact ⟨⟨_, disk.put_hash _⟩, rfl⟩
  | rests code => exact ⟨⟨stored, disk⟩, rfl⟩
  | refuses call refused => cases answered
  | looks username passwd permission allowed free => cases answered
  | removes username present => cases answered
  | stores username passwd permission => cases answered
  | _ => cases written

/-- Whatever step a worker takes, both files stay there, and what it writes to the database
file is not empty. -/
theorem step_disk (stepped : worker.step env iteration sha server = .ok (after, next))
    (prints : worker.Prints) (disk : OnDisk server.tree home text stored)
    (serves : server.db.homeDir = ⟨render home⟩) :
    after.db.homeDir = server.db.homeDir ∧ ∃ text' stored', OnDisk after.tree home text' stored' ∧
      (text' = text ∨ ∃ buffer, buffer ≠ [] ∧ text' = env.dbWrite.kept buffer) := by
  have still : ∃ text' stored', OnDisk server.tree home text' stored' ∧
      (text' = text ∨ ∃ buffer, buffer ≠ [] ∧ text' = env.dbWrite.kept buffer) :=
    ⟨text, stored, disk, .inl rfl⟩
  cases moves_of_step stepped with
  | writes buffer verified wrote =>
      rcases fWriteFile_disk env buffer disk with ⟨status, tree, wrote', disk', _⟩
      rw [serves, disk.file_resolves.2.1] at verified
      cases verified
      cases wrote.symm.trans wrote'
      refine ⟨rfl, _, _, disk', ?_⟩
      rw [textAfter]
      split
      · exact .inr ⟨buffer, prints, rfl⟩
      · exact .inl rfl
  | hashes byteArray wrote =>
      rw [serves, disk.writeHash_eq] at wrote
      split at wrote <;> cases wrote
      exact ⟨rfl, text, _, disk.put_hash _, .inl rfl⟩
  | _ => exact ⟨rfl, still⟩

end OnDisk

end Worker

end FileTransfer
