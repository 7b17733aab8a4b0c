import FileTransfer.Foundation.Trace
import FileTransfer.Server.Disk
import FileTransfer.Server.UserCalls

/-! # Calls one after another

What a row of creates and deletes makes of the table and of the database file.
-/

namespace FileTransfer

open Foundation Posix

def UserCall.Answers (sha : Sha256) (users : HashTable CString UserAccount) (call : UserCall)
    (code : RetCode) (after : HashTable CString UserAccount) : Prop :=
  match call.verdict sha users with
  | .ok table => code = .opSuccess ∧ after = table
  | .error refusal => code = refusal ∧ after = users

def UserCall.Runs (env : Env) (sha : Sha256) (server : Server) (call : UserCall)
    (code : RetCode) (after : Server) : Prop :=
  call.run env sha server = .ok (code, after)

theorem UserCall.answers_of_runs {env : Env} {sha : Sha256} {server after : Server}
    {call : UserCall} {code : RetCode} (runs : call.Runs env sha server code after) :
    call.Answers sha server.db.usersHtable code after.db.usersHtable := by
  rw [Runs, run_eq] at runs
  rw [Answers]
  cases verdict : call.verdict sha server.db.usersHtable with
  | ok table =>
      rw [verdict] at runs
      have saved : saveUsers env sha server table = .ok (code, after) := runs
      rcases saveUsers_ok saved with ⟨success, sameDb, _, _⟩
      exact ⟨success, congrArg Db.usersHtable sameDb⟩
  | error refusal =>
      rw [verdict] at runs
      cases runs
      exact ⟨rfl, rfl⟩

theorem UserCall.runs_of_refused {env : Env} {sha : Sha256} {server : Server}
    {call : UserCall} {code : RetCode}
    (refused : call.verdict sha server.db.usersHtable = .error code) :
    call.Runs env sha server code server := by
  rw [Runs, run_eq, refused]

/-! ## Names -/

section Names

variable {Thread : Type} {sha : Sha256} {calls : Thread → UserCall}
  {users final : HashTable CString UserAccount} {name : CString} {passwd : Option CString}
  {permission : Perms} {thread : Thread} {log : List (Thread × RetCode)}

theorem UserCall.answers_keyExists {call : UserCall} {code : RetCode}
    (answers : call.Answers sha users code final) (present : users.keyExists name = true)
    (kept : ¬ (call = .remove (some name) ∧ code = .opSuccess)) :
    final.keyExists name = true := by
  rw [HashTable.keyExists_iff] at present ⊢
  rcases present with ⟨account, found⟩
  rw [Answers] at answers
  cases accepted : call.verdict sha users with
  | error refusal =>
      rw [accepted] at answers
      rw [answers.2]
      exact ⟨account, found⟩
  | ok table =>
      rw [accepted] at answers
      rcases answers with ⟨rfl, rfl⟩
      rcases verdict_cases accepted with
        ⟨other, passwd, permission, -, -, rfl⟩ | ⟨other, removed, rfl, -, rfl⟩
      · rw [HashTable.get_set]
        split
        · exact ⟨_, rfl⟩
        · exact ⟨account, found⟩
      · have different : name ≠ other := by
          intro same
          subst same
          exact kept ⟨rfl, rfl⟩
        rw [HashTable.get_del_ne _ different]
        exact ⟨account, found⟩

theorem UserCall.answers_created {call : UserCall} {code : RetCode}
    (answers : call.Answers sha users code final)
    (create : call = .create (some name) passwd permission) (success : code = .opSuccess) :
    users.keyExists name = false ∧ final.keyExists name = true := by
  subst create success
  rw [Answers] at answers
  cases accepted : (UserCall.create (some name) passwd permission).verdict sha users with
  | error refusal =>
      rw [accepted] at answers
      exact absurd answers.1.symm (verdict_refused accepted)
  | ok table =>
      rw [accepted] at answers
      rcases verdict_cases accepted with
        ⟨other, secret, granted, same, free, rfl⟩ | ⟨other, removed, same, -, -⟩
      · cases same
        rw [answers.2, HashTable.keyExists_eq_false_iff, HashTable.keyExists_iff]
        exact ⟨free, _, HashTable.get_set_self _ _ _⟩
      · cases same

/-- While a name is taken it is created again only if it is deleted in between. -/
theorem removed_of_present
    (trace : Trace (UserCall.Answers sha) users (log.map fun entry => calls entry.1)
      (log.map Prod.snd) final)
    (present : users.keyExists name = true) (listed : (thread, .opSuccess) ∈ log)
    (create : calls thread = .create (some name) passwd permission) :
    ∃ third, (third, .opSuccess) ∈ log ∧ calls third = .remove (some name) := by
  induction log generalizing users with
  | nil => cases listed
  | cons entry log induction =>
      rcases trace with _ | ⟨answers, rest⟩
      by_cases removes : calls entry.1 = .remove (some name) ∧ entry.2 = .opSuccess
      · refine ⟨entry.1, ?_, removes.1⟩
        rw [← removes.2]
        exact List.mem_cons_self
      · have still := UserCall.answers_keyExists answers present removes
        rcases List.mem_cons.mp listed with rfl | later
        · have free := (UserCall.answers_created answers create rfl).1
          rw [present] at free
          cases free
        · rcases induction rest still later with ⟨third, listed', remove⟩
          exact ⟨third, List.mem_cons_of_mem _ listed', remove⟩

theorem removed_of_created_twice {second : Thread} {passwd' : Option CString}
    {permission' : Perms}
    (trace : Trace (UserCall.Answers sha) users (log.map fun entry => calls entry.1)
      (log.map Prod.snd) final)
    (different : thread ≠ second) (listed : (thread, .opSuccess) ∈ log)
    (listed' : (second, .opSuccess) ∈ log)
    (create : calls thread = .create (some name) passwd permission)
    (create' : calls second = .create (some name) passwd' permission') :
    ∃ third, (third, .opSuccess) ∈ log ∧ calls third = .remove (some name) := by
  induction log generalizing users with
  | nil => cases listed
  | cons entry log induction =>
      rcases trace with _ | ⟨answers, rest⟩
      have onwards : (∃ third, (third, .opSuccess) ∈ log ∧ calls third = .remove (some name)) →
          ∃ third, (third, .opSuccess) ∈ entry :: log ∧ calls third = .remove (some name) := by
        rintro ⟨third, removed, remove⟩
        exact ⟨third, List.mem_cons_of_mem _ removed, remove⟩
      apply onwards
      -- The first of the two creates takes the name.
      rcases List.mem_cons.mp listed with rfl | later
      · rcases List.mem_cons.mp listed' with same | later'
        · exact absurd (congrArg Prod.fst same).symm different
        · have taken := (UserCall.answers_created answers create rfl).2
          exact removed_of_present rest taken later' create'
      · rcases List.mem_cons.mp listed' with rfl | later'
        · have taken := (UserCall.answers_created answers create' rfl).2
          exact removed_of_present rest taken later create
        · exact induction rest later later'

end Names

/-! ## The database file -/

section Files

variable {env : Env} {sha : Sha256} {home : Location} {text stored : Bytes}

structure Keeps (server : Server) (home : Location) (text : Bytes) : Prop where
  serves : server.db.homeDir = ⟨render home⟩
  saves : server.db.debug = false
  disk : ∃ stored, OnDisk server.tree home text stored

theorem UserCall.runs_keeps {server after : Server} {call : UserCall} {code : RetCode}
    (keeps : Keeps server home text) (runs : call.Runs env sha server code after) :
    (code ≠ .opSuccess ∧ after = server) ∨
      ∃ image, dbImage (env.users.arrange after.db.usersHtable.values) = .ok image ∧
        Keeps after home (textAfter env text image) := by
  rw [Runs, run_eq] at runs
  cases accepted : call.verdict sha server.db.usersHtable with
  | error refusal =>
      rw [accepted] at runs
      cases runs
      exact .inl ⟨verdict_refused accepted, rfl⟩
  | ok table =>
      rw [accepted] at runs
      have saved : saveUsers env sha server table = .ok (code, after) := runs
      rcases keeps.disk with ⟨stored, disk⟩
      rcases saveUsers_disk disk keeps.serves keeps.saves saved with
        ⟨image, written, _, disk'⟩
      have sameDb := (saveUsers_ok saved).2.1
      refine .inr ⟨image, ?_, ?_, ?_, _, disk'⟩
      · rw [sameDb]
        exact written
      · rw [sameDb]
        exact keeps.serves
      · rw [sameDb]
        exact keeps.saves

def Current (env : Env) (home : Location) (server : Server) : Prop :=
  ∃ image, dbImage (env.users.arrange server.db.usersHtable.values) = .ok image ∧
    Keeps server home (env.dbWrite.kept image)

theorem Current.runs {server after : Server} {call : UserCall} {code : RetCode}
    (opens : env.dbWrite.opens = true) (current : Current env home server)
    (runs : call.Runs env sha server code after) : Current env home after := by
  rcases current with ⟨image, written, keeps⟩
  rcases UserCall.runs_keeps keeps runs with ⟨_, rfl⟩ | ⟨image', written', keeps'⟩
  · exact ⟨image, written, keeps⟩
  · rw [textAfter, if_pos opens] at keeps'
    exact ⟨image', written', keeps'⟩

theorem trace_current {server final : Server} {inputs : List UserCall} {codes : List RetCode}
    (opens : env.dbWrite.opens = true) (keeps : Keeps server home text)
    (trace : Trace (UserCall.Runs env sha) server inputs codes final)
    (success : .opSuccess ∈ codes) : Current env home final := by
  induction trace with
  | nil => cases success
  | cons runs rest induction =>
      rcases UserCall.runs_keeps keeps runs with ⟨failed, rfl⟩ | ⟨image, written, keeps'⟩
      · rcases List.mem_cons.mp success with first | later
        · exact absurd first.symm failed
        · exact induction keeps later
      · rw [textAfter, if_pos opens] at keeps'
        exact rest.invariant (Current env home) (Current.runs opens) ⟨image, written, keeps'⟩

end Files

end FileTransfer
