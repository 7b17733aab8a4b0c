import FileTransfer.Guarantees.Mediation
import FileTransfer.Server.FileChanges
import FileTransfer.Server.FirstStart
import FileTransfer.Server.Listing

/-! # The server's own files

What file requests do to the two files that the users are kept in. Only a listing
leaves something out, and only entries named `.cape`.
-/

namespace FileTransfer

open Foundation Posix

/-! ## Out of reach -/

def DatabaseDir (tree : FileTree) (homeDir : VerifiedPath) (location : Location) : Prop :=
  ∃ path, fVerValidResolve tree homeDir (some (CString.ofBuffer dbDir)) = .ok (some path) ∧
    tree.Denotes path.path location

def ServerOwned (tree : FileTree) (homeDir : VerifiedPath) (location : Location) : Prop :=
  DatabaseFile tree homeDir location ∨ DatabaseDir tree homeDir location

def HasLine (env : Env) (tree : FileTree) (content : FileContent) (location : Location) :
    Prop :=
  ∃ directory name, location = name :: directory ∧ content.path = render directory ∧
    content.stream = (listedEntries env tree directory).flatMap Shown.line ∧
    ∃ shown ∈ listedEntries env tree directory, shown.name = name.bytes

/-- The two files are what they were, no response carries the content of one, and no
listing has a line for one or for their directory. -/
structure OutOfReach (env : Env) (server : Server) (request : WirePayload)
    (handled : Handled) : Prop where
  kept : ∀ location, DatabaseFile server.tree server.db.homeDir location →
    handled.server.tree.get location = server.tree.get location
  unread : request.optCode = Act.getRemoteFile.toByte →
    ∀ content, handled.response.content = some content →
    ∀ location, DatabaseFile server.tree server.db.homeDir location →
      ¬ (content.path = render location ∧
        server.tree.get location = some (.file content.stream))
  unlisted : request.optCode = Act.listRemoteDirectory.toByte →
    ∀ content, handled.response.content = some content →
    ∀ location, ServerOwned server.tree server.db.homeDir location →
      ¬ HasLine env server.tree content location

/-! ## Requests that reach them -/

structure Admitted (env : Env) (sha : Sha256) (timeout : Int) (server : Server)
    (request : WirePayload) (user : UserAccount) : Prop where
  authentic : Authentic sha server.db.usersHtable request user
  valid : SessionValid env timeout server.db.seshHtable request.sessionId

/-- The request is admitted and acts on the server's own files. -/
inductive Reaches (env : Env) (sha : Sha256) (timeout : Int) (server : Server)
    (request : WirePayload) : Prop
  /-- A GET that leads to one of the files. -/
  | reads (user : UserAccount) (admitted : Admitted env sha timeout server request user)
      (child : CString) (location : Location) (content : Bytes)
      (asks : Asks request .getRemoteFile child)
      (resolved : fPathResolve server.tree server.db.homeDir.path child =
        .ok (some ⟨render location⟩))
      (found : server.tree.get location = some (.file content)) (nonempty : content ≠ [])
      (reads : env.read.Reads content)
      (owned : DatabaseFile server.tree server.db.homeDir location)
  /-- A LIST that leads to a directory in which one of them is visible. -/
  | lists (user : UserAccount) (admitted : Admitted env sha timeout server request user)
      (child : CString) (location : Location) (name : Name)
      (asks : Asks request .listRemoteDirectory child)
      (resolved : fPathResolve server.tree server.db.homeDir.path child =
        .ok (some ⟨render location⟩))
      (isDir : server.tree.get location = some .dir) (opens : env.opendir = true)
      (visible : Visible server.tree location name)
      (owned : ServerOwned server.tree server.db.homeDir (name :: location))
  /-- A DELETE, MKDIR or PUT that makes a difference to one of the files. -/
  | changes (user : UserAccount) (admitted : Admitted env sha timeout server request user)
      (permitted : Perms.readWrite ≤ user.permission) (location : Location)
      (node : Option Node) (change : FileChange env server request location node)
      (differs : server.tree.get location ≠ node)
      (owned : DatabaseFile server.tree server.db.homeDir location)

/-! ## What reaches them -/

section

variable {env : Env} {sha : Sha256} {timeout : Int} {server : Server}
  {request : WirePayload} {handled : Handled} {user : UserAccount}

theorem Admitted.performed (admitted : Admitted env sha timeout server request user)
    (done : ctrlParseAction env sha timeout server request = .ok handled) :
    ∃ table, performAction env sha user (server.setSessions table) request =
      .ok (handled.response, handled.server) := by
  cases ctrlParseAction_effect done with
  | refused code failed stranger result => exact absurd admitted.authentic (stranger user)
  | expired user' check authentic checked failed result =>
      exact absurd ((checkSession_success_iff checked).mpr admitted.valid) failed
  | performed user' check response after authentic checked passed action result =>
      rw [authentic.unique admitted.authentic] at action
      rw [result]
      exact ⟨check.table, action⟩

theorem not_admitted (stranger : ∀ user, ¬ Admitted env sha timeout server request user)
    (done : ctrlParseAction env sha timeout server request = .ok handled) :
    handled.response.content = none ∧ handled.server.tree = server.tree := by
  cases ctrlParseAction_effect done with
  | refused code failed stranger result =>
      rw [result]
      exact ⟨rfl, rfl⟩
  | expired user check authentic checked failed result =>
      rw [result]
      exact ⟨rfl, rfl⟩
  | performed user check response after authentic checked passed action result =>
      exact absurd ⟨authentic, (checkSession_success_iff checked).mp passed⟩ (stranger user)

theorem verified_of_resolved {payload : StdPayload} {child : CString} {location : Location}
    (given : payload.cPath = some child)
    (resolved : fPathResolve server.tree server.db.homeDir.path child =
      .ok (some ⟨render location⟩)) :
    fVerPathResolve server.tree server.db.homeDir payload.cPath =
        .ok (some ⟨render location⟩) ∧ (render location).length < pathMax := by
  rcases fPathResolve_place resolved with ⟨place, samePath, short, _, _⟩
  cases render_injective (congrArg VerifiedPath.path samePath)
  rw [given]
  exact ⟨resolved, short⟩

theorem Admitted.get (admitted : Admitted env sha timeout server request user)
    (done : ctrlParseAction env sha timeout server request = .ok handled)
    {child : CString} {location : Location} {content : Bytes}
    (asks : Asks request .getRemoteFile child)
    (resolved : fPathResolve server.tree server.db.homeDir.path child =
      .ok (some ⟨render location⟩))
    (found : server.tree.get location = some (.file content)) (nonempty : content ≠ [])
    (reads : env.read.Reads content) :
    handled.response.content = some ⟨sha.digest content, content, render location⟩ := by
  rcases admitted.performed done with ⟨table, action⟩
  rcases asks with ⟨opcode, payload, carried, given⟩
  rcases verified_of_resolved given resolved with ⟨verified, short⟩
  have got : doGetFile env sha (server.setSessions table) payload =
      .ok (contentResp ⟨sha.digest content, content, render location⟩) := by
    simp only [doGetFile, Server.setSessions_tree, Server.setSessions_homeDir, verified,
      Fallible.ok_bind, fReadFile_file short found reads, if_neg nonempty,
      Fallible.pure_eq_ok]
  rw [performAction, opcode, Act.ofByte_toByte] at action
  simp only [WirePayload.stdPayload, carried, Fallible.ok_bind, got, Fallible.pure_eq_ok]
    at action
  rw [← (Prod.mk.inj (Except.ok.inj action)).1]
  rfl

theorem Admitted.list (admitted : Admitted env sha timeout server request user)
    (done : ctrlParseAction env sha timeout server request = .ok handled)
    {child : CString} {location : Location} {name : Name}
    (asks : Asks request .listRemoteDirectory child)
    (resolved : fPathResolve server.tree server.db.homeDir.path child =
      .ok (some ⟨render location⟩))
    (isDir : server.tree.get location = some .dir) (opens : env.opendir = true)
    (visible : Visible server.tree location name) :
    ∃ content, handled.response.content = some content ∧
      HasLine env server.tree content (name :: location) := by
  rcases admitted.performed done with ⟨table, action⟩
  rcases asks with ⟨opcode, payload, carried, given⟩
  rcases verified_of_resolved given resolved with ⟨verified, short⟩
  rw [performAction, opcode, Act.ofByte_toByte] at action
  simp only [WirePayload.stdPayload, carried, Fallible.ok_bind] at action
  rcases Fallible.ok_of_bind_ok action with ⟨response, listed, final⟩
  simp only [doListDir, Server.setSessions_tree, Server.setSessions_homeDir, verified,
    Fallible.ok_bind, fListDir_dir sha isDir short opens] at listed
  rcases Fallible.ok_of_bind_ok listed with ⟨outcome, read, listed⟩
  rcases Fallible.ok_of_bind_ok read with ⟨text, printed, isText⟩
  cases isText
  rcases (listEntries_dir_ok_iff isDir).mp printed with ⟨_, _, rfl⟩
  have lines := (mem_listedEntries_iff env server.tree location name).mpr visible
  -- The line of the visible entry is there, so the listing is not empty.
  have nonempty : (listedEntries env server.tree location).flatMap Shown.line ≠ [] := by
    rcases lines with ⟨shown, member, _⟩
    intro empty
    have noLine := List.flatMap_eq_nil_iff.mp empty shown member
    have length := Shown.line_length shown
    rw [noLine, List.length_nil] at length
    omega
  simp only [if_neg nonempty] at listed
  cases listed
  rw [← (Prod.mk.inj (Except.ok.inj final)).1]
  exact ⟨_, rfl, location, name, rfl, rfl, rfl, lines⟩

theorem doGetFile_opened {payload : StdPayload} {response : ActResp} {content : FileContent}
    (done : doGetFile env sha server payload = .ok response)
    (carries : response.content = some content) :
    env.read.Reads content.stream ∧ content.stream ≠ [] := by
  rcases doGetFile_cases done with ⟨code, rfl⟩ | ⟨path, code, sent, _, read, nonempty, rfl⟩
  · cases carries
  · cases carries
    rcases fReadFile_ok read with ⟨_, _, _, permitted, _⟩
    exact ⟨permitted, nonempty⟩

theorem doListDir_opened {payload : StdPayload} {response : ActResp} {content : FileContent}
    (done : doListDir env sha server payload = .ok response)
    (carries : response.content = some content) : env.opendir = true := by
  rcases doListDir_cases done with ⟨code, rfl⟩ | ⟨path, code, sent, _, read, _, rfl⟩
  · cases carries
  · rcases fListDir_ok read with ⟨_, _, _, permitted, _⟩
    exact permitted

theorem Admitted.sent (admitted : Admitted env sha timeout server request user)
    (done : ctrlParseAction env sha timeout server request = .ok handled)
    (opcode : request.optCode = Act.getRemoteFile.toByte) {content : FileContent}
    (sent : handled.response.content = some content) :
    ∃ child location, Asks request .getRemoteFile child ∧
      fPathResolve server.tree server.db.homeDir.path child = .ok (some ⟨render location⟩) ∧
      content.path = render location ∧ env.read.Reads content.stream ∧
      content.stream ≠ [] := by
  rcases admitted.performed done with ⟨table, action⟩
  rw [performAction, opcode, Act.ofByte_toByte] at action
  rcases Fallible.ok_of_bind_ok action with ⟨payload, carried, action⟩
  rcases Fallible.ok_of_bind_ok action with ⟨response, got, final⟩
  have same := (Prod.mk.inj (Except.ok.inj final)).1
  rw [← same] at sent
  rcases doGetFile_content got sent with ⟨child, location, given, resolved, path, _⟩
  exact ⟨child, location, ⟨opcode, payload, stdPayload_ok carried, given⟩, resolved, path,
    doGetFile_opened got sent⟩

theorem Admitted.listed (admitted : Admitted env sha timeout server request user)
    (done : ctrlParseAction env sha timeout server request = .ok handled)
    (opcode : request.optCode = Act.listRemoteDirectory.toByte) {content : FileContent}
    (sent : handled.response.content = some content) :
    ∃ child location, Asks request .listRemoteDirectory child ∧
      fPathResolve server.tree server.db.homeDir.path child = .ok (some ⟨render location⟩) ∧
      content.path = render location ∧ server.tree.get location = some .dir ∧
      env.opendir = true := by
  rcases admitted.performed done with ⟨table, action⟩
  rw [performAction, opcode, Act.ofByte_toByte] at action
  rcases Fallible.ok_of_bind_ok action with ⟨payload, carried, action⟩
  rcases Fallible.ok_of_bind_ok action with ⟨response, listed, final⟩
  have same := (Prod.mk.inj (Except.ok.inj final)).1
  rw [← same] at sent
  rcases doListDir_content listed sent with ⟨child, location, given, resolved, path, source⟩
  cases source with
  | listing isDir text =>
      exact ⟨child, location, ⟨opcode, payload, stdPayload_ok carried, given⟩, resolved, path,
        isDir, doListDir_opened listed sent⟩

theorem Admitted.changes (admitted : Admitted env sha timeout server request user)
    (done : ctrlParseAction env sha timeout server request = .ok handled)
    (notUser : request.optCode ≠ Act.userOperation.toByte) :
    (Perms.readWrite ≤ user.permission ∧ MadeExactly env server request handled.server.tree) ∨
      (¬ Perms.readWrite ≤ user.permission ∧ handled.server.tree = server.tree) := by
  rcases admitted.performed done with ⟨table, action⟩
  by_cases permitted : Perms.readWrite ≤ user.permission
  · refine .inl ⟨permitted, ?_⟩
    rcases performAction_exactly permitted notUser action with
      ⟨location, node, change, made⟩ | ⟨noChange, kept⟩
    · exact .inl ⟨location, node, change.of_setSessions, made⟩
    · exact .inr ⟨fun location node change => noChange location node (change.setSessions table),
        kept⟩
  · have kept := performAction_reader permitted notUser action
    exact .inr ⟨permitted, kept⟩

/-- The server's files are out of reach of a request, unless it acts on one of them. -/
theorem outOfReach_iff (done : ctrlParseAction env sha timeout server request = .ok handled)
    (notUser : request.optCode ≠ Act.userOperation.toByte) :
    OutOfReach env server request handled ↔ ¬ Reaches env sha timeout server request := by
  constructor
  · rintro outOfReach reaches
    cases reaches with
    | reads user admitted child location content asks resolved found nonempty opens owned =>
        have sent := admitted.get done asks resolved found nonempty opens
        exact outOfReach.unread asks.opcode _ sent location owned ⟨rfl, found⟩
    | lists user admitted child location name asks resolved isDir opens visible owned =>
        rcases admitted.list done asks resolved isDir opens visible with
          ⟨content, sent, hasLine⟩
        exact outOfReach.unlisted asks.opcode content sent _ owned hasLine
    | changes user admitted permitted location node change differs owned =>
        have kept := outOfReach.kept location owned
        rcases admitted.changes done notUser with
          ⟨_, ⟨location', node', change', made⟩ | ⟨noChange, _⟩⟩ | ⟨notPermitted, _⟩
        · rcases change.unique change' with ⟨rfl, rfl⟩
          exact differs (kept.symm.trans made.there)
        · exact noChange location node change
        · exact notPermitted permitted
  · intro spared
    by_cases stranger : ∀ user, ¬ Admitted env sha timeout server request user
    · rcases not_admitted stranger done with ⟨noContent, kept⟩
      refine ⟨fun location _ => by rw [kept], ?_, ?_⟩
      · intro _ content sent
        rw [noContent] at sent
        cases sent
      · intro _ content sent
        rw [noContent] at sent
        cases sent
    · rw [not_forall_not] at stranger
      rcases stranger with ⟨user, admitted⟩
      refine ⟨?_, ?_, ?_⟩
      · intro location owned
        rcases admitted.changes done notUser with
          ⟨permitted, ⟨location', node, change, made⟩ | ⟨_, kept⟩⟩ | ⟨_, kept⟩
        · by_cases here : location = location'
          · subst here
            by_contra differs
            rw [made.there] at differs
            exact spared (.changes user admitted permitted location node change
              (Ne.symm differs) owned)
          · exact made.elsewhere location here
        · rw [kept]
        · rw [kept]
      · rintro opcode content sent location owned ⟨samePath, found⟩
        rcases admitted.sent done opcode sent with
          ⟨child, place, asks, resolved, path, opens, nonempty⟩
        cases render_injective (samePath.symm.trans path)
        exact spared (.reads user admitted child location content.stream asks resolved found
          nonempty opens owned)
      · rintro opcode content sent location owned ⟨directory, name, rfl, path, _, line⟩
        rcases admitted.listed done opcode sent with
          ⟨child, place, asks, resolved, path', isDir, opens⟩
        cases render_injective (path.symm.trans path')
        exact spared (.lists user admitted child directory name asks resolved isDir opens
          ((mem_listedEntries_iff env server.tree directory name).mp line) owned)

end

/-! A server in `/home`, and a user who may only read. -/

theorem homeEntryName_valid : NameValid (ascii "home") := by decide

def homeEntryName : Name := ⟨ascii "home", homeEntryName_valid⟩

def guardedServer : Server where
  db :=
    { (serverOf (accountNamed "alice" Perms.read)).db with
      homeDir := ⟨render [homeEntryName]⟩ }
  tree :=
    ((FileTree.bare.put [homeEntryName] .dir).put [dbDirName, homeEntryName] .dir).put
      [dbFileName, dbDirName, homeEntryName] (.file (ascii "users"))

def readerRequest (act : Act) (path : String) : WirePayload where
  optCode := act.toByte
  username := some (ascii "alice")
  passwd := some (ascii "password")
  payload := .std { path := some (ascii path) }

theorem database_is_sent :
    ∃ handled, ctrlParseAction quietEnv passwordSha 60 guardedServer
        (readerRequest .getRemoteFile ".cape/.cape.db") = .ok handled ∧
      ¬ OutOfReach quietEnv guardedServer (readerRequest .getRemoteFile ".cape/.cape.db")
        handled := by
  have seen : ∃ handled, ctrlParseAction quietEnv passwordSha 60 guardedServer
        (readerRequest .getRemoteFile ".cape/.cape.db") = .ok handled ∧
      handled.response.content.map (fun content => (content.path, content.stream)) =
        some (ascii "/home/.cape/.cape.db", ascii "users") := by
    apply Fallible.exists_ok_of_seen
    decide +kernel
  rcases seen with ⟨handled, done, sent⟩
  refine ⟨handled, done, fun outOfReach => ?_⟩
  rcases Option.map_eq_some_iff.mp sent with ⟨content, carries, shown⟩
  rcases Prod.mk.inj shown with ⟨path, stream⟩
  have owned : DatabaseFile guardedServer.tree guardedServer.db.homeDir
      [dbFileName, dbDirName, homeEntryName] := by
    refine ⟨dbName, .inl rfl, ⟨ascii "/home/.cape/.cape.db"⟩, by decide +kernel, ?_⟩
    exact ⟨.node [dbFileName, dbDirName, homeEntryName], by decide +kernel, rfl⟩
  apply outOfReach.unread rfl content carries _ owned
  rw [path, stream]
  exact ⟨by decide +kernel, by decide +kernel⟩

theorem outOfReach_iff_home_listing :
    ∃ handled, ctrlParseAction quietEnv passwordSha 60 guardedServer
        (readerRequest .listRemoteDirectory "/") = .ok handled ∧
      (OutOfReach quietEnv guardedServer (readerRequest .listRemoteDirectory "/") handled ↔
        ¬ Reaches quietEnv passwordSha 60 guardedServer
          (readerRequest .listRemoteDirectory "/")) := by
  have seen : ∃ handled, ctrlParseAction quietEnv passwordSha 60 guardedServer
        (readerRequest .listRemoteDirectory "/") = .ok handled ∧
      handled.response.result = .opDirEmpty := by
    apply Fallible.exists_ok_of_seen
    decide +kernel
  rcases seen with ⟨handled, done, _⟩
  exact ⟨handled, done, outOfReach_iff done (by decide)⟩

end FileTransfer
