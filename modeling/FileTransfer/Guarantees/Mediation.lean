import FileTransfer.Foundation.Trace
import FileTransfer.Server.Dispatch

/-! # Complete mediation

Whatever a request changes, it was entitled to change: first for one request and
every part of the state, then for the accounts over whole runs.
-/

namespace FileTransfer

open Foundation Posix

/-! ## What a requester may change -/

def AddsOne (sha : Sha256) (limit : Perms)
    (before after : HashTable CString UserAccount) : Prop :=
  ∃ (name passwd : CString) (permission : Perms),
    before.get name = none ∧ permission ≤ limit ∧
    (minUsernameLen ≤ name.length ∧ name.length ≤ maxUsernameLen) ∧
    (minPasswdLen ≤ passwd.length ∧ passwd.length ≤ maxPasswdLen) ∧
    after.get name = some ⟨name, permission, sha.digest passwd.bytes⟩ ∧
    ∀ other, other ≠ name → after.get other = before.get other

def RemovesOne (before after : HashTable CString UserAccount) : Prop :=
  ∃ name account, before.get name = some account ∧ after.get name = none ∧
    ∀ other, other ≠ name → after.get other = before.get other

def Act.writesFiles (act : Act) : Prop :=
  act = .deleteRemoteFile ∨ act = .makeRemoteDirectory ∨ act = .putRemoteFile

/-- Every difference that a request makes is one it was entitled to make. Client
files are all nodes but those the server keeps its database in. -/
structure Mediated (env : Env) (sha : Sha256) (timeout : Int) (server : Server)
    (request : WirePayload) (after : Server) : Prop where
  users :
    (∃ name, after.db.usersHtable.get name ≠ server.db.usersHtable.get name) →
      ∃ user, Authentic sha server.db.usersHtable request user ∧
        SessionValid env timeout server.db.seshHtable request.sessionId ∧
        request.optCode = Act.userOperation.toByte ∧
        (AddsOne sha user.permission server.db.usersHtable after.db.usersHtable ∨
          RemovesOne server.db.usersHtable after.db.usersHtable ∧
            user.permission = Perms.admin)
  files :
    (∃ location, ¬ DatabaseFile server.tree server.db.homeDir location ∧
        after.tree.get location ≠ server.tree.get location) →
      ∃ user, Authentic sha server.db.usersHtable request user ∧
        SessionValid env timeout server.db.seshHtable request.sessionId ∧
        Perms.readWrite ≤ user.permission ∧
        ∃ act : Act, act.writesFiles ∧ request.optCode = act.toByte
  sessions :
    (∃ session, after.db.seshHtable.get session ≠ server.db.seshHtable.get session) →
      (∃ user, Authentic sha server.db.usersHtable request user) ∧
        ∃ touched, ∀ other, other ≠ touched →
          after.db.seshHtable.get other = server.db.seshHtable.get other
  reading :
    (request.optCode ≠ Act.userOperation.toByte ∧
        ∀ act : Act, act.writesFiles → request.optCode ≠ act.toByte) →
      after.db.usersHtable = server.db.usersHtable ∧ after.tree = server.tree

theorem credentialsAllowed_iff (username passwd : CString) :
    credentialsAllowed username passwd = true ↔
      (minUsernameLen ≤ username.length ∧ username.length ≤ maxUsernameLen) ∧
        (minPasswdLen ≤ passwd.length ∧ passwd.length ≤ maxPasswdLen) := by
  simp only [credentialsAllowed, Bool.not_eq_true', Bool.or_eq_false_iff,
    decide_eq_false_iff_not, not_lt]
  omega

theorem UserChange.addsOrRemoves {sha : Sha256} {user : UserAccount}
    {payload : UserPayload} {before after : HashTable CString UserAccount}
    (change : UserChange sha user payload before after) :
    AddsOne sha user.permission before after ∨
      RemovesOne before after ∧ user.permission = Perms.admin := by
  cases change with
  | added name passwd named secret allowed capped fresh stored flag =>
      have lengths := (credentialsAllowed_iff _ _).mp allowed
      subst stored
      exact .inl ⟨_, _, _, fresh, capped, lengths.1, lengths.2, HashTable.get_set_self _ _ _,
        fun other different => HashTable.get_set_ne _ _ different⟩
  | removed name account named admin present deleted flag =>
      subst deleted
      exact .inr ⟨⟨_, account, present, HashTable.get_del_self _ _,
        fun other different => HashTable.get_del_ne _ different⟩, admin⟩

theorem ctrlParseAction_mediated {env : Env} {sha : Sha256} {timeout : Int}
    {server : Server} {request : WirePayload} {handled : Handled}
    (done : ctrlParseAction env sha timeout server request = .ok handled) :
    Mediated env sha timeout server request handled.server := by
  cases ctrlParseAction_effect done with
  | refused code failed stranger result =>
      subst result
      exact ⟨fun ⟨_, differs⟩ => absurd rfl differs, fun ⟨_, _, differs⟩ => absurd rfl differs,
        fun ⟨_, differs⟩ => absurd rfl differs, fun _ => ⟨rfl, rfl⟩⟩
  | expired user check authentic checked failed result =>
      subst result
      exact ⟨fun ⟨_, differs⟩ => absurd rfl differs, fun ⟨_, _, differs⟩ => absurd rfl differs,
        fun _ => ⟨⟨user, authentic⟩, checkSession_frame checked⟩, fun _ => ⟨rfl, rfl⟩⟩
  | performed user check response after authentic checked passed action result =>
      subst result
      have valid := (checkSession_success_iff checked).mp passed
      have effect := performAction_effect action
      have sessions : (∃ session, after.db.seshHtable.get session ≠
            server.db.seshHtable.get session) →
          (∃ user, Authentic sha server.db.usersHtable request user) ∧
            ∃ touched, ∀ other, other ≠ touched →
              after.db.seshHtable.get other = server.db.seshHtable.get other := by
        rw [effect.sessions]
        exact fun _ => ⟨⟨user, authentic⟩, checkSession_frame checked⟩
      cases effect with
      | nothing kept =>
          subst kept
          exact ⟨fun ⟨_, differs⟩ => absurd rfl differs,
            fun ⟨_, _, differs⟩ => absurd rfl differs, sessions, fun _ => ⟨rfl, rfl⟩⟩
      | users payload table opcode carried change saved =>
          rcases saveUsers_ok saved with ⟨_, sameDb, _, agree⟩
          have opcode' := Act.toByte_of_ofByte opcode
          refine ⟨fun _ => ⟨user, authentic, valid, opcode', ?_⟩, ?_, sessions, ?_⟩
          · rw [sameDb]
            exact change.addsOrRemoves
          · rintro ⟨location, clientFile, differs⟩
            exact absurd (agree location clientFile) differs
          · rintro ⟨notUser, _⟩
            exact absurd opcode' notUser
      | files act payload code tree opcode permitted carried performed answered stored =>
          have opcode' := Act.toByte_of_ofByte opcode
          have writes : act.writesFiles := by
            rcases performed with ⟨is, _⟩ | ⟨is, _⟩ | ⟨is, _⟩ <;> simp [Act.writesFiles, is]
          refine ⟨?_, fun _ => ⟨user, authentic, valid, permitted, act, writes, opcode'⟩,
            sessions, ?_⟩
          · rintro ⟨name, differs⟩
            rw [stored] at differs
            exact absurd rfl differs
          · rintro ⟨_, notWrite⟩
            exact absurd opcode' (notWrite act writes)

/-! A server whose only account is the default one, asked by it for another. -/

def passwordDigest : { digest : Bytes // digest.length = sha256DigestLength } :=
  ⟨[0x5e, 0x88, 0x48, 0x98, 0xda, 0x28, 0x04, 0x71, 0x51, 0xd0, 0xe5, 0x6f, 0x8d, 0xc6,
    0x29, 0x27, 0x73, 0x60, 0x3d, 0x0d, 0x6a, 0xab, 0xbd, 0xd6, 0x2a, 0x11, 0xef, 0x72,
    0x1d, 0x15, 0x42, 0xd8], by decide⟩

def passwordSha : Sha256 := .ofTable [(ascii "password", passwordDigest)]

def accountNamed (name : String) (permission : Perms) : UserAccount :=
  ⟨CString.ofBuffer (ascii name), permission, passwordDigest.val⟩

def serverOf (account : UserAccount) : Server where
  db :=
    { usersHtable := HashTable.set ∅ account.username account
      seshHtable := ∅
      homeDir := ⟨ascii "/"⟩
      debug := true }
  tree := .bare

def createRequest (username created : String) (permission : Perms) : WirePayload where
  optCode := Act.userOperation.toByte
  username := some (ascii username)
  passwd := some (ascii "password")
  payload := .user
    { userFlag := UsrAct.createUser.toByte
      userPerm := permission
      username := some (ascii created)
      passwd := some (ascii "password") }

def quietEnv : Env where
  rand := [7, 0, 0, 0]

def laterEnv : Env where
  time := 5
  rand := [9, 0, 0, 0]

theorem quietEnv_smooth : quietEnv.Smooth :=
  ⟨rfl, rfl, rfl, ⟨rfl, rfl, rfl⟩, ⟨rfl, rfl, rfl⟩, rfl, rfl, rfl, rfl⟩

theorem ctrlParseAction_mediated_create :
    ∃ handled, ctrlParseAction quietEnv passwordSha 60
        (serverOf (accountNamed "admin" Perms.admin))
        (createRequest "admin" "carol" Perms.readWrite) = .ok handled ∧
      handled.server.db.usersHtable.get (CString.ofBuffer (ascii "carol")) =
        some (accountNamed "carol" Perms.readWrite) ∧
      Mediated quietEnv passwordSha 60 (serverOf (accountNamed "admin" Perms.admin))
        (createRequest "admin" "carol" Perms.readWrite) handled.server :=
  ⟨_, rfl, by decide, ctrlParseAction_mediated rfl⟩

/-! ## No escalation over runs -/

/-- A step of a run in which whoever authenticates has at most the permission
`limit` at that moment. -/
def CappedStep (sha : Sha256) (limit : Perms) (server : Server) (call : Call)
    (handled : Handled) (next : Server) : Prop :=
  CtrlStep sha server call handled next ∧
    ∀ user, Authentic sha server.db.usersHtable call.request user →
      user.permission ≤ limit

/-- A capped step adds at most a capped account and removes none, for removing
takes an administrator. -/
theorem CappedStep.grownBy {sha : Sha256} {limit : Perms} (below : limit < Perms.admin)
    {start : HashTable CString UserAccount} {server next : Server} {call : Call}
    {handled : Handled}
    (grown : HashTable.GrownBy (fun account => account.permission ≤ limit) start
      server.db.usersHtable)
    (step : CappedStep sha limit server call handled next) :
    HashTable.GrownBy (fun account => account.permission ≤ limit) start
      next.db.usersHtable := by
  rcases step with ⟨step, capped⟩
  rcases step.users with kept | ⟨user, payload, authentic, _, change, _⟩
  · rw [kept]
    exact grown
  · have userCapped := capped user authentic
    cases change with
    | added name passwd named secret allowed low fresh stored flag =>
        rw [stored]
        exact grown.set fresh (UInt8.le_trans low userCapped)
    | removed name account named admin present deleted flag =>
        rw [admin] at userCapped
        exact absurd below (UInt8.not_lt.mpr userCapped)

theorem permissions_never_escalate {sha : Sha256} {limit : Perms}
    (below : limit < Perms.admin) {start final : Server} {calls : List Call}
    {answers : List Handled}
    (run : Trace (CappedStep sha limit) start calls answers final) :
    (∀ name account, start.db.usersHtable.get name = some account →
        final.db.usersHtable.get name = some account) ∧
      ∀ name account, start.db.usersHtable.get name = none →
        final.db.usersHtable.get name = some account → account.permission ≤ limit := by
  have grown := run.invariant
    (fun server => HashTable.GrownBy (fun account => account.permission ≤ limit)
      start.db.usersHtable server.db.usersHtable)
    (fun holds step => step.grownBy below holds) (.refl _ _)
  constructor
  · intro name account known
    have kept := grown name
    simpa only [known] using kept
  · intro name account unknown added
    have bounded := grown name
    simp only [unknown] at bounded
    exact bounded account added

theorem capped_of_authenticate {sha : Sha256} {limit : Perms} {server : Server}
    {request : WirePayload} (user : UserAccount)
    (accepted : authenticate sha server.db request = .ok (.ok user))
    (below : user.permission ≤ limit) :
    ∀ other, Authentic sha server.db.usersHtable request other → other.permission ≤ limit := by
  intro other authentic
  rw [← authenticate_ok_iff, accepted] at authentic
  cases authentic
  exact below

theorem permissions_never_escalate_create :
    ∃ first second, ctrlParseAction quietEnv passwordSha 60
        (serverOf (accountNamed "alice" Perms.readWrite))
        (createRequest "alice" "carol" Perms.readWrite) = .ok first ∧
      ctrlParseAction laterEnv passwordSha 60 first.server
        (createRequest "carol" "dave" Perms.read) = .ok second ∧
      second.server.db.usersHtable.get (CString.ofBuffer (ascii "dave")) =
        some (accountNamed "dave" Perms.read) ∧
      ∀ name account,
        (serverOf (accountNamed "alice" Perms.readWrite)).db.usersHtable.get name = none →
        second.server.db.usersHtable.get name = some account →
          account.permission ≤ Perms.readWrite := by
  refine ⟨_, _, rfl, rfl, by decide, ?_⟩
  have run : Trace (CappedStep passwordSha Perms.readWrite)
      (serverOf (accountNamed "alice" Perms.readWrite))
      [⟨quietEnv, 60, createRequest "alice" "carol" Perms.readWrite⟩,
        ⟨laterEnv, 60, createRequest "carol" "dave" Perms.read⟩] _ _ :=
    .cons ⟨⟨rfl, rfl⟩,
        capped_of_authenticate (accountNamed "alice" Perms.readWrite) rfl (by decide)⟩
      (.cons ⟨⟨rfl, rfl⟩,
        capped_of_authenticate (accountNamed "carol" Perms.readWrite) rfl (by decide)⟩ (.nil _))
  exact (permissions_never_escalate (by decide) run).2

end FileTransfer
