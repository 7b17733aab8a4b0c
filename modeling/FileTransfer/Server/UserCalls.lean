import FileTransfer.Foundation.Fallible
import FileTransfer.Server.Db

/-! # Calls that change the users

`db_create_user` and `db_remove_user` alike look at the table, and refuse the call or
put a new table in place and save it.
-/

namespace FileTransfer

open Foundation Posix

inductive UserCall
  | create (username passwd : Option CString) (permission : Perms)
  | remove (username : Option CString)
deriving DecidableEq

namespace UserCall

def run (env : Env) (sha : Sha256) (server : Server) :
    UserCall → Except Fault (RetCode × Server)
  | create username passwd permission => dbCreateUser env sha server username passwd permission
  | remove username => dbRemoveUser env sha server username

def verdict (sha : Sha256) (users : HashTable CString UserAccount) :
    UserCall → Except RetCode (HashTable CString UserAccount)
  | create (some username) (some passwd) permission =>
      if credentialsAllowed username passwd = false then .error .opCredRuleError
      else if users.keyExists username then .error .opUserExists
      else .ok (users.set username ⟨username, permission, hashByteArray sha passwd.bytes⟩)
  | remove (some username) =>
      if users.keyExists username = false then .error .opUserNoExist
      else .ok (users.del username)
  | _ => .error .opFailure

theorem run_eq (env : Env) (sha : Sha256) (server : Server) (call : UserCall) :
    call.run env sha server =
      match call.verdict sha server.db.usersHtable with
      | .ok table => saveUsers env sha server table
      | .error code => .ok (code, server) := by
  cases call with
  | create username passwd permission =>
      cases username with
      | none => rfl
      | some username =>
          cases passwd with
          | none => rfl
          | some passwd =>
              simp only [run, dbCreateUser, verdict]
              split
              · rfl
              · split <;> rfl
  | remove username =>
      cases username with
      | none => rfl
      | some username =>
          simp only [run, dbRemoveUser, verdict]
          split <;> rfl

theorem verdict_refused {sha : Sha256} {users : HashTable CString UserAccount}
    {call : UserCall} {code : RetCode} (refused : call.verdict sha users = .error code) :
    code ≠ .opSuccess := by
  rw [verdict.eq_def] at refused
  split at refused
  · split at refused
    · cases refused
      decide
    · split at refused <;> cases refused
      decide
  · split at refused <;> cases refused
    decide
  · cases refused
    decide

theorem verdict_cases {sha : Sha256} {users table : HashTable CString UserAccount}
    {call : UserCall} (accepted : call.verdict sha users = .ok table) :
    (∃ username passwd permission, call = create (some username) (some passwd) permission ∧
        users.get username = none ∧
        table = users.set username ⟨username, permission, hashByteArray sha passwd.bytes⟩) ∨
      ∃ username account, call = remove (some username) ∧
        users.get username = some account ∧ table = users.del username := by
  rw [verdict.eq_def] at accepted
  split at accepted
  · rename_i username passwd permission
    split at accepted
    · cases accepted
    · split at accepted
      · cases accepted
      · rename_i fresh
        cases accepted
        have free := (HashTable.keyExists_eq_false_iff users username).mp (by simpa using fresh)
        exact .inl ⟨username, passwd, permission, rfl, free, rfl⟩
  · rename_i username
    split at accepted
    · cases accepted
    · rename_i present
      cases accepted
      rcases (HashTable.keyExists_iff _ _).mp (by simpa using present) with ⟨account, found⟩
      exact .inr ⟨username, account, rfl, found, rfl⟩
  · cases accepted

theorem verdict_changes {sha : Sha256} {users table : HashTable CString UserAccount}
    {call : UserCall} (accepted : call.verdict sha users = .ok table) :
    ∃ name, table.get name ≠ users.get name := by
  rcases verdict_cases accepted with
    ⟨name, passwd, permission, -, free, rfl⟩ | ⟨name, account, -, found, rfl⟩
  · refine ⟨name, ?_⟩
    rw [HashTable.get_set_self, free]
    simp
  · refine ⟨name, ?_⟩
    rw [HashTable.get_del_self, found]
    simp

end UserCall

end FileTransfer
