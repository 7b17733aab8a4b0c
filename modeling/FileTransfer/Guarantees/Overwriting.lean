import FileTransfer.Guarantees.Mediation
import FileTransfer.Server.FileRequests

/-! # Uploads to files that exist

Whether a file exists is asked of the resolver that takes the whole path, and the
file is written through the one that takes it apart. A path that the two read
differently lets an upload replace a file.
-/

namespace FileTransfer

open Foundation Posix

/-! ## The two readings of a path -/

def WritesAt (server : Server) (child : Option CString) (place : Location) : Prop :=
  ∃ path, fVerValidResolve server.tree server.db.homeDir child = .ok (some path) ∧
    server.tree.Denotes path.path place

theorem WritesAt.unique {server : Server} {child : Option CString} {place other : Location}
    (writesAt : WritesAt server child place) (writesAt' : WritesAt server child other) :
    place = other := by
  rcases writesAt with ⟨path, verified, denotes⟩
  rcases writesAt' with ⟨path', verified', denotes'⟩
  rw [verified] at verified'
  cases verified'
  exact FileTree.denotes_unique denotes denotes'

/-- Looking the whole path up under the home directory finds nothing there. -/
inductive Missed (tree : FileTree) (homeDir : Bytes) (child : CString) : Prop
  /-- The two paths together are over the limit. -/
  | tooLong (long : pathMax < homeDir.length + child.length + slashPlusNull)
  /-- A slash behind a file, a missing entry, too many links. -/
  | unresolved (missing : tree.realpath (joined homeDir child.bytes) = none)
  | outside (path : Bytes) (found : tree.realpath (joined homeDir child.bytes) = some path)
      (stray : ¬ homeDir <+: path)

theorem fPathResolve_none_iff {tree : FileTree} {homeDir : Bytes} {child : CString} :
    fPathResolve tree homeDir child = .ok none ↔ Missed tree homeDir child := by
  have found : fPathResolve tree homeDir child ≠ .ok none ↔
      ∃ path, fPathResolve tree homeDir child = .ok (some path) := by
    rw [fPathResolve_eq, ne_eq, Except.ok.injEq, ← ne_eq, Option.ne_none_iff_exists']
    simp only [Except.ok.injEq]
  constructor
  · intro none
    by_cases long : pathMax < homeDir.length + child.length + slashPlusNull
    · exact .tooLong long
    · cases resolved : tree.realpath (joined homeDir child.bytes) with
      | none => exact .unresolved resolved
      | some path =>
          refine .outside path resolved fun within => ?_
          have some := fPathResolve_some_iff.mpr
            ⟨not_lt.mp long, show _ = some (VerifiedPath.mk path).path from resolved, within⟩
          rw [none] at some
          cases some
  · intro missed
    by_contra notNone
    rcases found.mp notNone with ⟨path, resolved⟩
    rcases fPathResolve_some_iff.mp resolved with ⟨fits, found, within⟩
    cases missed with
    | tooLong long => exact absurd fits (not_le.mpr long)
    | unresolved missing =>
        rw [missing] at found
        cases found
    | outside other found' stray =>
        rw [found'] at found
        cases found
        exact stray within

/-! ## What becomes of the files -/

/-- No file that exists is changed, and an upload is acknowledged only where no file
was. -/
structure Spares (server : Server) (child : Option CString) (code : RetCode)
    (after : FileTree) : Prop where
  kept : ∀ location content, server.tree.get location = some (.file content) →
    after.get location = some (.file content)
  fresh : code = .opSuccess → ∀ place, WritesAt server child place →
    ∀ content, server.tree.get place ≠ some (.file content)

/-- The upload is written to a file that the lookup missed, and the write is either
accepted in full or leaves another content behind. -/
structure Overwrites (env : Env) (server : Server) (payload : StdPayload)
    (child : CString) (place : Location) (content bytes : Bytes) : Prop where
  given : payload.cPath = some child
  missed : Missed server.tree server.db.homeDir.path child
  writesAt : WritesAt server payload.cPath place
  existing : server.tree.get place = some (.file content)
  carried : payload.byteStream = some bytes
  opens : env.write.opens = true
  shows : env.write.accepted bytes = bytes ∨ env.write.kept bytes ≠ content

/-- An upload spares the files that exist, unless it overwrites one that the lookup
missed. -/
theorem spares_iff {env : Env} {server : Server} {payload : StdPayload} {code : RetCode}
    {after : FileTree} (done : doPutFile env server payload = .ok (code, after)) :
    Spares server payload.cPath code after ↔
      ¬ ∃ child place content bytes,
        Overwrites env server payload child place content bytes := by
  rcases doPutFile_cases done with ⟨path, bytes, puts, written⟩ | ⟨idle, failed, rfl⟩
  · rcases fVerValidResolve_some puts.verified with ⟨child, given, _⟩
    have missed : Missed server.tree server.db.homeDir.path child := by
      have absent := puts.absent
      rw [given] at absent
      exact fPathResolve_none_iff.mp absent
    rcases fWriteFile_cases env.write server.tree path bytes with
      ⟨target, located, opens, notDir, result⟩ | ⟨unready, code', failed, result⟩
    · rw [written, Prod.mk.injEq] at result
      rcases result with ⟨rfl, rfl⟩
      have writesAt : WritesAt server payload.cPath target.location :=
        ⟨path, puts.verified, target, located, rfl⟩
      have holds := FileTree.canHold_of_located located notDir
      constructor
      · rintro ⟨kept, fresh⟩ ⟨_, place, content, bytes', overwrites⟩
        have bytesSame : bytes = bytes' :=
          Option.some.inj (puts.carried.symm.trans overwrites.carried)
        subst bytesSame
        have placeSame := overwrites.writesAt.unique writesAt
        subst placeSame
        rcases overwrites.shows with whole | differs
        · exact fresh (if_pos whole) _ overwrites.writesAt content overwrites.existing
        · have now := kept _ _ overwrites.existing
          rw [if_neg (by simp [overwrites.existing]), FileTree.get_put_self _ holds] at now
          cases now
          exact differs rfl
      · intro spared
        have shows : ∀ content, server.tree.get target.location = some (.file content) →
            env.write.accepted bytes ≠ bytes ∧ env.write.kept bytes = content := by
          intro content existing
          by_contra shown
          rw [not_and_or, ne_eq, not_not] at shown
          exact spared ⟨child, target.location, content, bytes, given, missed, writesAt,
            existing, puts.carried, opens, shown⟩
        constructor
        · intro location content existing
          split
          · exact existing
          · by_cases here : location = target.location
            · subst here
              rw [FileTree.get_put_self _ holds, (shows content existing).2]
            · rw [FileTree.get_put_ne _ _ here]
              exact existing
        · intro acknowledged place at' content existing
          have placeSame := at'.unique writesAt
          subst placeSame
          rw [if_neg (shows content existing).1] at acknowledged
          cases acknowledged
    · rw [written, Prod.mk.injEq] at result
      rcases result with ⟨rfl, rfl⟩
      refine iff_of_true ⟨fun _ _ => id, fun acknowledged => absurd acknowledged failed⟩ ?_
      rintro ⟨_, place, content, _, overwrites⟩
      rcases overwrites.writesAt with ⟨path', verified, target, located, rfl⟩
      rw [puts.verified] at verified
      cases verified
      exact unready ⟨target, located, overwrites.opens, by simp [overwrites.existing]⟩
  · refine iff_of_true ⟨fun _ _ => id, fun acknowledged => absurd acknowledged failed⟩ ?_
    rintro ⟨child, place, content, bytes, overwrites⟩
    rcases overwrites.writesAt with ⟨path, verified, _⟩
    have missed := fPathResolve_none_iff.mpr overwrites.missed
    refine idle ⟨path, bytes, ?_, verified, overwrites.carried⟩
    rw [overwrites.given]
    exact missed

/-! A server with one file, and uploads to its name with and without a slash. -/

theorem homeEntry_valid : NameValid (ascii "home") := by decide

theorem notesName_valid : NameValid (ascii "notes") := by decide

def homeEntry : Name := ⟨ascii "home", homeEntry_valid⟩
def notesName : Name := ⟨ascii "notes", notesName_valid⟩

def notesServer : Server where
  db := { (serverOf (accountNamed "alice" Perms.readWrite)).db with homeDir := ⟨ascii "/home"⟩ }
  tree := (FileTree.bare.put [homeEntry] .dir).put [notesName, homeEntry] (.file (ascii "old"))

def uploadTo (path : String) : StdPayload where
  path := some (ascii path)
  byteStream := some (ascii "new")

theorem trailing_slash_overwrites :
    ∃ code after, doPutFile quietEnv notesServer (uploadTo "notes/") = .ok (code, after) ∧
      ¬ Spares notesServer (uploadTo "notes/").cPath code after := by
  have seen : ∃ done, doPutFile quietEnv notesServer (uploadTo "notes/") = .ok done ∧
      done.2.get [notesName, homeEntry] = some (.file (ascii "new")) := by
    apply Fallible.exists_ok_of_seen
    decide +kernel
  rcases seen with ⟨⟨code, after⟩, done, changed⟩
  refine ⟨code, after, done, fun spares => ?_⟩
  have kept := spares.kept [notesName, homeEntry] (ascii "old") (by decide +kernel)
  rw [changed] at kept
  revert kept
  decide

theorem spares_iff_plain_name :
    ∃ code after, doPutFile quietEnv notesServer (uploadTo "notes") = .ok (code, after) ∧
      (Spares notesServer (uploadTo "notes").cPath code after ↔
        ¬ ∃ child place content bytes,
          Overwrites quietEnv notesServer (uploadTo "notes") child place content bytes) := by
  have seen : ∃ done, doPutFile quietEnv notesServer (uploadTo "notes") = .ok done ∧
      done.1 = .opFileExists := by
    apply Fallible.exists_ok_of_seen
    decide +kernel
  rcases seen with ⟨⟨code, after⟩, done, _⟩
  exact ⟨code, after, done, spares_iff done⟩

end FileTransfer
