import FileTransfer.Guarantees.RoundTrips
import FileTransfer.Server.FileChanges
import FileTransfer.Server.FileWorkers
import FileTransfer.Server.Workers

/-! # Files that workers share
Workers have no lock around the files, so that what one has looked up another may have changed
before it is used. Without links they stay at home all the same.
-/

namespace FileTransfer

open Foundation Posix

/-! ## Staying at home -/

structure Tame (home : Location) (before after : FileTree) : Prop where
  outside : FileTree.AgreeOff (HomeAdmits home) before after
  unlinked : Unlinked home after

section Steps

variable {env : Env} {sha : Sha256} {server after : Server} {tree : FileTree}
  {home location : Location} {path : VerifiedPath}

theorem Tame.refl (unlinked : Unlinked home tree) : Tame home tree tree :=
  ⟨.refl _ _, unlinked⟩

theorem Tame.put (unlinked : Unlinked home tree) (admitted : HomeAdmits home location)
    {node : Node} (plain : ∀ text, node ≠ .link text) :
    Tame home tree (tree.put location node) where
  outside := by
    apply (FileTree.agreeOff_put tree location node).mono
    rintro _ rfl
    exact admitted
  unlinked := by
    intro other text admitted'
    by_cases same : other = location
    · subst same
      by_cases holds : tree.CanHold other
      · rw [FileTree.get_put_self node holds]
        intro isLink
        exact plain text (Option.some.inj isLink)
      · rw [FileTree.put, dif_neg holds]
        exact unlinked other text admitted'
    · rw [FileTree.get_put_ne _ _ same]
      exact unlinked other text admitted'

theorem Tame.remove (unlinked : Unlinked home tree) (admitted : HomeAdmits home location) :
    Tame home tree (tree.remove location) where
  outside := by
    apply (FileTree.agreeOff_remove tree location).mono
    rintro _ rfl
    exact admitted
  unlinked := by
    intro other text admitted'
    by_cases same : other = location
    · subst same
      by_cases removable : tree.Removable other
      · simp [FileTree.get_remove_self removable]
      · rw [FileTree.remove, dif_neg removable]
        exact unlinked other text admitted'
    · rw [FileTree.get_remove_ne _ same]
      exact unlinked other text admitted'

section Calls

variable {directory : Location} {last : Bytes}

theorem Creatable.writeFile_tame (creatable : Creatable home tree path directory last)
    (unlinked : Unlinked home tree) {outcome : WriteOutcome} {stream : Bytes} {count : Nat}
    {after : FileTree} (wrote : tree.writeFile outcome path.path stream = .ok (count, after)) :
    Tame home tree after := by
  rcases FileTree.writeFile_ok wrote with
    ⟨target, located, _, _, notDir, ⟨_, rfl⟩ | ⟨_, rfl⟩⟩
  · exact .refl unlinked
  · rcases creatable.leads unlinked located with admitted | isDir
    · exact .put unlinked admitted (by simp)
    · exact absurd isDir notDir

theorem Creatable.fWriteFile_tame (creatable : Creatable home tree path directory last)
    (unlinked : Unlinked home tree) (outcome : WriteOutcome) (stream : Option Bytes) :
    Tame home tree (fWriteFile outcome tree path stream).2 := by
  cases stream with
  | none => exact .refl unlinked
  | some stream =>
      rw [fWriteFile]
      cases wrote : tree.writeFile outcome path.path stream with
      | error code => exact .refl unlinked
      | ok result =>
          have tame := creatable.writeFile_tame unlinked wrote
          simp only
          split <;> exact tame

theorem Creatable.fCreateDir_tame (creatable : Creatable home tree path directory last)
    (unlinked : Unlinked home tree) : Tame home tree (fCreateDir env tree path).2 := by
  rcases fCreateDir_exactly env tree path with ⟨place, located, _, made⟩ | ⟨_, same⟩
  · rw [made]
    rcases creatable.leads unlinked located with admitted | isDir
    · exact .put unlinked admitted (by simp)
    · have free := (FileTree.locate_delivered located).1
      cases free.symm.trans isDir
  · rw [same]
    exact .refl unlinked

end Calls

def FileWorker.Checked (home : Location) (tree : FileTree) : FileWorker → Prop
  | writing path _ | making path => ∃ directory last, Creatable home tree path directory last
  | deleting path | unlinking path | opening path | removing path
  | examining path | reading path => ∃ location, Resolved home tree path location
  | _ => True

theorem FileWorker.Checked.stays {worker : FileWorker} {after : FileTree}
    (checked : worker.Checked home tree) (agree : FileTree.AgreeOff (HomeAdmits home) tree after) :
    worker.Checked home after := by
  cases worker with
  | writing path stream =>
      rcases checked with ⟨directory, last, creatable⟩
      exact ⟨directory, last, creatable.stays agree⟩
  | making path =>
      rcases checked with ⟨directory, last, creatable⟩
      exact ⟨directory, last, creatable.stays agree⟩
  | ready job => trivial
  | absent payload => trivial
  | done response => trivial
  | _ =>
      rcases checked with ⟨location, resolved⟩
      exact ⟨location, resolved.stays agree⟩

theorem resolved_of_ver {child : Option CString} (serves : server.db.homeDir = ⟨render home⟩)
    (found : fVerPathResolve server.tree server.db.homeDir child = .ok (some path)) :
    ∃ location, Resolved home server.tree path location := by
  rw [serves] at found
  rcases fVerPathResolve_some found with ⟨_, _, resolved⟩
  exact resolved_of_path_resolve resolved

theorem creatable_of_ver {child : Option CString} (serves : server.db.homeDir = ⟨render home⟩)
    (found : fVerValidResolve server.tree server.db.homeDir child = .ok (some path)) :
    ∃ directory last, Creatable home server.tree path directory last := by
  rw [serves] at found
  rcases fVerValidResolve_some found with ⟨_, _, verified⟩
  exact creatable_of_valid_resolve verified

theorem Resolved.remove_tame (resolved : Resolved home server.tree path location)
    (unlinked : Unlinked home server.tree) {target : Target} {follow : Bool}
    (located : server.tree.locate follow path.path = .ok target) :
    Tame home server.tree (server.tree.remove target.location) := by
  rw [resolved.leads unlinked located]
  exact .remove unlinked resolved.admitted

theorem FileWorker.step_tame {worker next : FileWorker}
    (serves : server.db.homeDir = ⟨render home⟩) (unlinked : Unlinked home server.tree)
    (checked : worker.Checked home server.tree)
    (stepped : worker.step env sha server = .ok (after, next)) :
    after.db = server.db ∧ Tame home server.tree after.tree ∧ next.Checked home after.tree := by
  have still := Tame.refl unlinked
  cases moves_of_step stepped with
  | answers _ code => exact ⟨rfl, still, trivial⟩
  | examines payload path found => exact ⟨rfl, still, resolved_of_ver serves found⟩
  | misses payload => exact ⟨rfl, still, trivial⟩
  | makes payload path found => exact ⟨rfl, still, creatable_of_ver serves found⟩
  | deletes payload path found => exact ⟨rfl, still, resolved_of_ver serves found⟩
  | writes payload path found => exact ⟨rfl, still, creatable_of_ver serves found⟩
  | wrote path stream code =>
      rcases checked with ⟨directory, last, creatable⟩
      exact ⟨rfl, creatable.fWriteFile_tame unlinked env.write stream, trivial⟩
  | made path code =>
      rcases checked with ⟨directory, last, creatable⟩
      exact ⟨rfl, creatable.fCreateDir_tame unlinked, trivial⟩
  | unlinks path => exact ⟨rfl, still, checked⟩
  | opens path => exact ⟨rfl, still, checked⟩
  | removes path => exact ⟨rfl, still, checked⟩
  | unlinked path tree removed =>
      rcases checked with ⟨location, resolved⟩
      rcases FileTree.unlink_ok removed with ⟨target, located, _, _, rfl⟩
      exact ⟨rfl, resolved.remove_tame unlinked located, trivial⟩
  | removed path tree removed =>
      rcases checked with ⟨location, resolved⟩
      rcases FileTree.rmdir_ok removed with ⟨target, located, _, _, _, rfl⟩
      exact ⟨rfl, resolved.remove_tame unlinked located, trivial⟩
  | reads path => exact ⟨rfl, still, checked⟩
  | sends path stream nonempty read => exact ⟨rfl, still, trivial⟩
  | rests response => exact ⟨rfl, still, trivial⟩

theorem FileWorker.step_content {worker : FileWorker} {response : ActResp}
    {content : FileContent} (stepped : worker.step env sha server = .ok (after, .done response))
    (different : worker ≠ .done response) (carries : response.content = some content) :
    ∃ path location, worker = .reading path ∧ server.tree.Denotes path.path location ∧
      server.tree.get location = some (.file content.stream) := by
  generalize final : FileWorker.done response = next at stepped
  cases moves_of_step stepped with
  | sends path stream nonempty read =>
      cases final
      cases carries
      rcases readOpened_ok read with ⟨location, node, leads, found, ⟨rfl, _⟩ | ⟨_, empty⟩⟩
      · exact ⟨path, location, rfl, leads, found⟩
      · exact absurd empty nonempty
  | rests other =>
      cases final
      exact absurd rfl different
  | answers | wrote | made | unlinked | removed =>
      cases final
      cases carries
  | _ => cases final

theorem Worker.step_tame {Iter : Type} {iteration : HtableIter Iter env.users}
    {worker next : Worker Iter} (serves : server.db.homeDir = ⟨render home⟩)
    (unlinked : Unlinked home server.tree)
    (stepped : worker.step env iteration sha server = .ok (after, next)) :
    after.db.homeDir = server.db.homeDir ∧ Tame home server.tree after.tree := by
  cases moves_of_step stepped with
  | writes buffer verified wrote =>
      rcases creatable_of_ver serves verified with ⟨directory, last, creatable⟩
      have tame := creatable.fWriteFile_tame unlinked env.dbWrite (some buffer)
      rw [wrote] at tame
      exact ⟨rfl, tame⟩
  | hashes byteArray wrote =>
      rcases writeHash_ok wrote with ⟨verified, count, written⟩
      rcases creatable_of_ver serves verified with ⟨directory, last, creatable⟩
      exact ⟨rfl, creatable.writeFile_tame unlinked written⟩
  | _ => exact ⟨rfl, .refl unlinked⟩

end Steps

/-! ## All the workers -/

abbrev AnyWorker (Iter : Type) := Worker Iter ⊕ FileWorker

def AnyWorker.step {Iter : Type} (env : Env) (iteration : HtableIter Iter env.users)
    (sha : Sha256) (server : Server) :
    AnyWorker Iter → Except Fault (Server × AnyWorker Iter)
  | .inl worker => do
      let (server, worker) ← worker.step env iteration sha server
      return (server, .inl worker)
  | .inr worker => do
      let (server, worker) ← worker.step env sha server
      return (server, .inr worker)

def AnyWorker.Fresh {Iter : Type} (worker : AnyWorker Iter) : Prop :=
  (∃ call, worker = .inl (.ready call)) ∨ ∃ job, worker = .inr (.ready job)

section Pools

variable {Thread Iter : Type} {env : Env}
  {iteration : HtableIter Iter env.users} {sha : Sha256} {home : Location} {tree : FileTree}
  {start pool next final : Pool Thread Server (AnyWorker Iter)} {thread : Thread}
  {schedule : List Thread}

structure Guarded (home : Location) (tree : FileTree)
    (pool : Pool Thread Server (AnyWorker Iter)) : Prop where
  serves : pool.shared.db.homeDir = ⟨render home⟩
  tame : Tame home tree pool.shared.tree
  checked : ∀ thread worker, pool.locals thread = .inr worker →
    worker.Checked home pool.shared.tree

theorem Guarded.of_start (serves : start.shared.db.homeDir = ⟨render home⟩)
    (unlinked : Unlinked home start.shared.tree)
    (fresh : ∀ thread, (start.locals thread).Fresh) :
    Guarded home start.shared.tree start := by
  refine ⟨serves, .refl unlinked, ?_⟩
  intro thread worker stands
  rcases fresh thread with ⟨call, isUser⟩ | ⟨job, isJob⟩
  · cases stands.symm.trans isUser
  · cases stands.symm.trans isJob
    trivial

variable [DecidableEq Thread]

theorem Guarded.move (guarded : Guarded home tree pool)
    (moved : pool.move (AnyWorker.step env iteration sha) thread = .ok next) :
    Guarded home tree next := by
  rcases Pool.move_ok moved with ⟨stepped, others⟩
  have turn : next.shared.db.homeDir = pool.shared.db.homeDir ∧
      Tame home pool.shared.tree next.shared.tree ∧
      ∀ worker, next.locals thread = .inr worker → worker.Checked home next.shared.tree := by
    cases stands : pool.locals thread with
    | inl worker =>
        rw [stands] at stepped
        rcases Fallible.ok_of_bind_ok stepped with ⟨⟨server, worker'⟩, stepped', rest⟩
        have after := Prod.mk.inj (Except.ok.inj rest)
        rcases worker.step_tame guarded.serves guarded.tame.unlinked stepped' with
          ⟨serves, tame⟩
        rw [← after.1, ← after.2]
        refine ⟨serves, tame, ?_⟩
        intro worker impossible
        cases impossible
    | inr worker =>
        rw [stands] at stepped
        rcases Fallible.ok_of_bind_ok stepped with ⟨⟨server, worker'⟩, stepped', rest⟩
        have after := Prod.mk.inj (Except.ok.inj rest)
        rcases worker.step_tame guarded.serves guarded.tame.unlinked
          (guarded.checked thread worker stands) stepped' with ⟨database, tame, checked⟩
        rw [← after.1, ← after.2]
        refine ⟨congrArg Db.homeDir database, tame, ?_⟩
        rintro _ ⟨⟩
        exact checked
  rcases turn with ⟨serves, tame, checked⟩
  refine ⟨serves.trans guarded.serves, ⟨guarded.tame.outside.trans tame.outside,
    tame.unlinked⟩, ?_⟩
  intro other worker stands
  by_cases same : other = thread
  · rw [same] at stands
    exact checked worker stands
  · rw [others other same] at stands
    exact (guarded.checked other worker stands).stays tame.outside

/-- Whatever the workers are asked for and in whatever order they take their turns, they
change nothing away from home, and what they send was in a file at home while they read it. -/
theorem workers_stay_at_home (serves : start.shared.db.homeDir = ⟨render home⟩)
    (unlinked : Unlinked home start.shared.tree)
    (fresh : ∀ thread, (start.locals thread).Fresh)
    (ran : start.run (AnyWorker.step env iteration sha) schedule = .ok final) :
    FileTree.AgreeOff (HomeAdmits home) start.shared.tree final.shared.tree ∧
      Unlinked home final.shared.tree ∧
      ∀ thread response content, final.locals thread = .inr (.done response) →
        response.content = some content →
        ∃ early late before location, schedule = early ++ thread :: late ∧
          start.run (AnyWorker.step env iteration sha) early = .ok before ∧
          HomeAdmits home location ∧
          before.shared.tree.get location = some (.file content.stream) := by
  have atStart := Guarded.of_start serves unlinked fresh
  have guarded : Guarded home start.shared.tree final :=
    Pool.run_preserves Guarded.move ran atStart
  refine ⟨guarded.tame.outside, guarded.tame.unlinked, ?_⟩
  intro thread response content isDone carries
  have unmet : start.locals thread ≠ .inr (.done response) := by
    rcases fresh thread with ⟨call, isUser⟩ | ⟨job, isJob⟩
    · rw [isUser]
      exact Sum.inl_ne_inr
    · rw [isJob]
      intro same
      cases Sum.inr.inj same
  rcases Pool.run_reaches (fun stands => stands = .inr (.done response)) ran unmet isDone with
    ⟨early, late, before, after, rfl, reached, moved, notYet, now⟩
  have guarded' : Guarded home start.shared.tree before :=
    Pool.run_preserves Guarded.move reached atStart
  have stepped := (Pool.move_ok moved).1
  rw [now] at stepped
  cases stands : before.locals thread with
  | inl worker =>
      rw [stands] at stepped
      rcases Fallible.ok_of_bind_ok stepped with ⟨_, _, rest⟩
      cases (Prod.mk.inj (Except.ok.inj rest)).2
  | inr worker =>
      rw [stands] at stepped notYet
      rcases Fallible.ok_of_bind_ok stepped with ⟨⟨server, worker'⟩, stepped', rest⟩
      cases Sum.inr.inj (Prod.mk.inj (Except.ok.inj rest)).2
      rcases worker.step_content stepped' (fun same => notYet (congrArg _ same)) carries with
        ⟨path, target, isReading, leads, found⟩
      have checked := guarded'.checked thread worker stands
      rw [isReading] at checked
      rcases checked with ⟨location, resolved⟩
      rcases leads with ⟨target, located, rfl⟩
      rw [resolved.leads guarded'.tame.unlinked located] at found
      exact ⟨early, late, before, location, rfl, reached, resolved.admitted, found⟩

end Pools

/-! One worker deletes `/home/notes` while another reads it, in turns. -/

theorem uploadServer_unlinked : Unlinked homeDirectory uploadServer.tree := by
  intro location text _
  change (FileTree.bare.put homeDirectory .dir).get location ≠ _
  by_cases same : location = homeDirectory
  · rw [same, FileTree.get_put_self .dir (by decide)]
    simp
  · rw [FileTree.get_put_ne _ _ same]
    cases location with
    | nil =>
        intro isLink
        cases isLink
    | cons name above =>
        intro isLink
        cases isLink

def noteServer : Server :=
  uploadServer.setTree (uploadServer.tree.put (notesEntry :: homeDirectory) (.file (ascii "note")))

theorem noteServer_unlinked : Unlinked homeDirectory noteServer.tree :=
  (Tame.put uploadServer_unlinked (by decide) (by simp)).unlinked

def notePool : Pool Bool Server (AnyWorker (List UserAccount)) where
  shared := noteServer
  locals
    | true => .inr (.ready (.del (requestOf notesPath)))
    | false => .inr (.ready (.get (requestOf notesPath)))

theorem workers_stay_at_home_note :
    ∃ final early late before location response content,
      notePool.run (AnyWorker.step quietEnv (.snapshot quietEnv.users) passwordSha)
        [false, true, false, true, false, true] = .ok final ∧
      FileTree.AgreeOff (HomeAdmits homeDirectory) noteServer.tree final.shared.tree ∧
      final.shared.tree.get (notesEntry :: homeDirectory) = none ∧
      final.locals false = .inr (.done response) ∧ response.content = some content ∧
      content.stream = ascii "note" ∧
      [false, true, false, true, false, true] = early ++ false :: late ∧
      notePool.run (AnyWorker.step quietEnv (.snapshot quietEnv.users) passwordSha) early =
        .ok before ∧
      HomeAdmits homeDirectory location ∧
      before.shared.tree.get location = some (.file (ascii "note")) := by
  have seen : ∃ final, notePool.run
        (AnyWorker.step quietEnv (.snapshot quietEnv.users) passwordSha)
        [false, true, false, true, false, true] = .ok final ∧
      (decide (final.locals false = .inr (.done (contentResp
          ⟨passwordSha.digest (ascii "note"), ascii "note", ascii "/home/notes"⟩))),
        decide (final.shared.tree.get (notesEntry :: homeDirectory) = none)) = (true, true) := by
    apply Fallible.exists_ok_of_seen
    decide +kernel
  rcases seen with ⟨final, ran, view⟩
  rw [Prod.mk.injEq, decide_eq_true_eq, decide_eq_true_eq] at view
  rcases view with ⟨isDone, gone⟩
  have fresh : ∀ thread, (notePool.locals thread).Fresh := by
    intro thread
    cases thread <;> exact .inr ⟨_, rfl⟩
  rcases workers_stay_at_home (by decide) noteServer_unlinked fresh ran with
    ⟨outside, _, content⟩
  rcases content false _ _ isDone rfl with
    ⟨early, late, before, location, order, reached, admitted, found⟩
  exact ⟨final, early, late, before, location, _, _, ran, outside, gone, isDone, rfl, rfl, order,
    reached, admitted, found⟩

end FileTransfer
