import FileTransfer.Guarantees.FileSteps

/-! # File requests in turn
Workers that share the files serve them as from a shelf, one request after another, unless
two of the requests may change the same entry.
-/

namespace FileTransfer

open Foundation Posix

/-! ## Stored twice -/

section Twice

variable {Thread : Type} {sha : Sha256} {shelf final after : Shelf Name Bytes} {name : Name}
  {parent : Location} {asks : Thread → Ask Name Bytes} {thread : Thread} {content : Bytes}
  {response : ActResp} {log : List (Thread × ActResp)}

theorem ShelfAnswers.stored {ask : Ask Name Bytes}
    (answers : ShelfAnswers sha shelf ask response after) (put : ask = .put name parent content)
    (success : response.result = .opSuccess) :
    shelf.entry (name :: parent) = none ∧ after.entry (name :: parent) ≠ none := by
  subst put
  rcases answers with ⟨reply, step, replied⟩
  cases step with
  | put _ _ _ free folder some =>
      refine ⟨free, ?_⟩
      rw [Shelf.entry_store_self]
      exact Option.some_ne_none _
  | notPut _ _ _ hindered =>
      cases replied with
      | refused _ failed => exact absurd success failed

theorem ShelfAnswers.present {ask : Ask Name Bytes}
    (answers : ShelfAnswers sha shelf ask response after)
    (present : shelf.entry (name :: parent) ≠ none)
    (spared : ¬ (ask = .delete name parent ∧ response.result = .opSuccess)) :
    after.entry (name :: parent) ≠ none := by
  rcases answers with ⟨reply, step, replied⟩
  rw [step.frame id present]
  · exact present
  · rintro other above ⟨⟩ rfl isDelete
    cases replied with
    | done _ success => exact spared ⟨isDelete, success⟩

theorem deleted_of_present
    (trace : Trace (ShelfAnswers sha) shelf (log.map fun entry => asks entry.1)
      (log.map Prod.snd) final)
    (present : shelf.entry (name :: parent) ≠ none) (listed : (thread, response) ∈ log)
    (success : response.result = .opSuccess) (put : asks thread = .put name parent content) :
    ∃ third told, (third, told) ∈ log ∧ told.result = .opSuccess ∧
      asks third = .delete name parent := by
  induction log generalizing shelf with
  | nil => cases listed
  | cons entry log induction =>
      rcases trace with _ | ⟨answers, rest⟩
      by_cases deletes : asks entry.1 = .delete name parent ∧ entry.2.result = .opSuccess
      · exact ⟨entry.1, entry.2, List.mem_cons_self, deletes.2, deletes.1⟩
      · have still := ShelfAnswers.present answers present deletes
        rcases List.mem_cons.mp listed with rfl | later
        · exact absurd (ShelfAnswers.stored answers put success).1 present
        · rcases induction rest still later with ⟨third, told, listed', deleted⟩
          exact ⟨third, told, List.mem_cons_of_mem _ listed', deleted⟩

theorem deleted_of_stored_twice {second : Thread} {response' : ActResp} {content' : Bytes}
    (trace : Trace (ShelfAnswers sha) shelf (log.map fun entry => asks entry.1)
      (log.map Prod.snd) final)
    (different : thread ≠ second) (listed : (thread, response) ∈ log)
    (listed' : (second, response') ∈ log) (success : response.result = .opSuccess)
    (success' : response'.result = .opSuccess) (put : asks thread = .put name parent content)
    (put' : asks second = .put name parent content') :
    ∃ third told, (third, told) ∈ log ∧ told.result = .opSuccess ∧
      asks third = .delete name parent := by
  induction log generalizing shelf with
  | nil => cases listed
  | cons entry log induction =>
      rcases trace with _ | ⟨answers, rest⟩
      have onwards : (∃ third told, (third, told) ∈ log ∧ told.result = .opSuccess ∧
            asks third = .delete name parent) →
          ∃ third told, (third, told) ∈ entry :: log ∧ told.result = .opSuccess ∧
            asks third = .delete name parent := by
        rintro ⟨third, told, deleted, rest⟩
        exact ⟨third, told, List.mem_cons_of_mem _ deleted, rest⟩
      apply onwards
      -- The first of the two uploads takes the entry.
      rcases List.mem_cons.mp listed with rfl | later
      · rcases List.mem_cons.mp listed' with same | later'
        · exact absurd (congrArg Prod.fst same).symm different
        · have taken := (ShelfAnswers.stored answers put success).2
          exact deleted_of_present rest taken later' success' put'
      · rcases List.mem_cons.mp listed' with rfl | later'
        · have taken := (ShelfAnswers.stored answers put' success').2
          exact deleted_of_present rest taken later success put
        · exact induction rest later later'

end Twice

/-! ## All the workers -/

section Pools

variable {Thread : Type} {env : Env} {sha : Sha256} {home : Location}
  {shelf now : Shelf Name Bytes} {asks : Thread → Ask Name Bytes}
  {start pool : Pool Thread Server FileWorker} {thread : Thread} {schedule : List Thread}
  {log : List (Thread × ActResp)}

def Begin (home : Location) (asks : Thread → Ask Name Bytes)
    (pool : Pool Thread Server FileWorker) : Prop :=
  ∀ thread, ∃ job, pool.locals thread = .ready job ∧ JobAsks home job (asks thread)

def Apart (asks : Thread → Ask Name Bytes) : Prop :=
  ∀ first second, first ≠ second → ∀ path, (asks first).place = some path →
    (asks second).place ≠ some path

def MadeBy (asks : Thread → Ask Name Bytes) (path : Location) : Prop :=
  ∃ thread, (asks thread).makes = some path

theorem Apart.unmade (apart : Apart asks) {path : Location}
    (place : (asks thread).place = some path) (unmaking : (asks thread).makes = none) :
    ¬ MadeBy asks path := by
  rintro ⟨other, makes⟩
  by_cases same : other = thread
  · rw [same, unmaking] at makes
    cases makes
  · exact apart thread other (Ne.symm same) path place (Ask.place_of_makes makes)

def fileAnswers (pool : Pool Thread Server FileWorker) (thread : Thread) : Option ActResp :=
  (pool.locals thread).answer

structure ServedInTurn (sha : Sha256) (home : Location) (asks : Thread → Ask Name Bytes)
    (shelf : Shelf Name Bytes) (log : List (Thread × ActResp)) (now : Shelf Name Bytes)
    (pool : Pool Thread Server FileWorker) : Prop where
  pursues : ∀ thread, Pursues home (pool.locals thread) (asks thread)
  keeps : KeepsShelf pool.shared home now
  inTurn : InTurn (ShelfAnswers sha) asks (fileAnswers pool) log shelf now

theorem Begin.pursues (begin : Begin home asks start) (thread : Thread) :
    Pursues home (start.locals thread) (asks thread) := by
  rcases begin thread with ⟨job, ready, asks'⟩
  rw [ready]
  exact .ready asks'

theorem Begin.served (begin : Begin home asks start)
    (keeps : KeepsShelf start.shared home shelf) :
    ServedInTurn sha home asks shelf [] shelf start := by
  refine ⟨begin.pursues, keeps, InTurn.nobody ?_ shelf⟩
  intro thread
  rcases begin thread with ⟨job, ready, _⟩
  rw [fileAnswers, ready]
  rfl

theorem Begin.relies (begin : Begin home asks start) (makes : Location → Prop)
    (thread : Thread) : Relies makes shelf (start.locals thread) (asks thread) := by
  rcases begin thread with ⟨job, ready, _⟩
  rw [ready]
  cases asks thread <;> trivial

variable [DecidableEq Thread]

theorem pursues_update (pursues : ∀ thread, Pursues home (pool.locals thread) (asks thread))
    {worker : FileWorker} (turn : Pursues home worker (asks thread)) (other : Thread) :
    Pursues home (Function.update pool.locals thread worker other) (asks other) := by
  by_cases same : other = thread
  · subst same
    simpa only [Function.update_self] using turn
  · simpa only [Function.update_of_ne same] using pursues other

theorem Progress.inTurn {server : Server} {worker : FileWorker} {after : Shelf Name Bytes}
    (progress : Progress sha now (asks thread) worker after)
    (inTurn : InTurn (ShelfAnswers sha) asks (fileAnswers pool) log shelf now)
    (unanswered : (pool.locals thread).answer = none) {next : Pool Thread Server FileWorker}
    (moved : next = ⟨server, Function.update pool.locals thread worker⟩) :
    InTurn (ShelfAnswers sha) asks (fileAnswers next)
      (log ++ pool.arrival FileWorker.answer next thread) shelf after := by
  have turn : fileAnswers next thread = worker.answer := by
    simp only [moved, fileAnswers, Function.update_self]
  have others : ∀ other, other ≠ thread → fileAnswers next other = fileAnswers pool other := by
    intro other different
    simp only [moved, fileAnswers, Function.update_of_ne different]
  cases progress with
  | onward _ silent =>
      have same : fileAnswers next = fileAnswers pool := by
        funext other
        by_cases isThread : other = thread
        · rw [isThread, turn, silent]
          exact unanswered.symm
        · exact others other isThread
      rw [same, Pool.arrival_silent (congrFun same thread), List.append_nil]
      exact inTurn
  | answered response _ answers =>
      rw [Pool.arrival_told unanswered turn]
      exact inTurn.answer unanswered answers turn others

theorem ServedInTurn.move (served : ServedInTurn sha home asks shelf log now pool)
    (smooth : env.Smooth)
    (undisturbed : (pool.locals thread).undisturbed pool.shared.tree = true) :
    ∃ next after, pool.move (FileWorker.step env sha) thread = .ok next ∧
      ServedInTurn sha home asks shelf (log ++ pool.arrival FileWorker.answer next thread) after
        next ∧
      (∀ path, (asks thread).place ≠ some path → after.entry path = now.entry path) ∧
      (Relies (MadeBy asks) now (pool.locals thread) (asks thread) →
        Relies (MadeBy asks) after (next.locals thread) (asks thread)) ∧
      ((∀ path, (asks thread).place = some path → (asks thread).makes = none →
          ¬ MadeBy asks path) →
        ∀ path, Shelf.NoFolder (MadeBy asks) now path →
          Shelf.NoFolder (MadeBy asks) after path) := by
  cases unanswered : (pool.locals thread).answer with
  | some response =>
      have isDone : pool.locals thread = .done response := by
        cases stands : pool.locals thread <;> rw [stands] at unanswered <;> cases unanswered
        rfl
      refine ⟨pool, now, ?_, ?_, fun _ _ => rfl, id, fun _ _ => id⟩
      · rw [Pool.move, isDone]
        simp only [FileWorker.step, Fallible.ok_bind, Fallible.pure_eq_ok]
        rw [← isDone, Function.update_eq_self]
      · rw [Pool.arrival_silent rfl, List.append_nil]
        exact served
  | none =>
      rcases step_advances served.keeps smooth (served.pursues thread) undisturbed unanswered with
        ⟨server, worker, after, stepped, keeps, pursues, progress, relies⟩
      have moved : pool.move (FileWorker.step env sha) thread =
          .ok ⟨server, Function.update pool.locals thread worker⟩ := by
        rw [Pool.move, stepped]
        rfl
      refine ⟨_, after, moved, ⟨pursues_update served.pursues pursues, keeps,
        progress.inTurn served.inTurn unanswered rfl⟩, fun _ => progress.elsewhere, ?_,
        fun alone path => progress.noFolder (fun makes => ⟨thread, makes⟩) (alone path)⟩
      simpa only [Function.update_self] using relies

/-- As long as nobody is disturbed in between, workers share the files as if each request
were carried out in one go, in the order of their answers. -/
theorem served_throughout (smooth : env.Smooth)
    (served : ServedInTurn sha home asks shelf log now pool)
    (undisturbed : pool.Throughout (FileWorker.step env sha)
      (fun pool thread => (pool.locals thread).undisturbed pool.shared.tree = true) schedule) :
    ∃ final after, pool.run (FileWorker.step env sha) schedule = .ok final ∧
      ServedInTurn sha home asks shelf
        (log ++ pool.arrivals (FileWorker.step env sha) FileWorker.answer schedule) after
        final := by
  induction schedule generalizing pool now log with
  | nil =>
      refine ⟨pool, now, rfl, ?_⟩
      rw [Pool.arrivals, List.append_nil]
      exact served
  | cons thread schedule induction =>
      rcases served.move smooth undisturbed.1 with ⟨next, middle, moved, served', _⟩
      rcases induction served' (undisturbed.2 next moved) with ⟨final, after, ran, atEnd⟩
      refine ⟨final, after, ?_, ?_⟩
      · rw [Pool.run, moved]
        exact ran
      · rw [Pool.arrivals, moved, ← List.append_assoc]
        exact atEnd

theorem undisturbed_of_relies {server : Server} {worker : FileWorker} {ask : Ask Name Bytes}
    {makes : Location → Prop} (keeps : KeepsShelf server home shelf)
    (pursues : Pursues home worker ask) (relies : Relies makes shelf worker ask) :
    worker.undisturbed server.tree = true := by
  cases pursues with
  | writing content fits =>
      have missing := kindAt_newMissing keeps relies
      simp [FileWorker.undisturbed, missing]
  | unlinking short =>
      rcases relies with ⟨content, isFile⟩
      simp [FileWorker.undisturbed, kindAt_file keeps isFile short]
  | opening short => simp [FileWorker.undisturbed, kindAt_folder keeps relies short]
  | removing short => simp [FileWorker.undisturbed, kindAt_folder keeps relies short]
  | @reading name parent short =>
      cases present : shelf.entry (name :: parent) with
      | none => simp [FileWorker.undisturbed, kindAt_missing keeps present]
      | some entry =>
          cases entry with
          | folder => exact absurd present relies.1
          | file content => simp [FileWorker.undisturbed, kindAt_file keeps present short]
  | _ => rfl

theorem undisturbed_of_apart (smooth : env.Smooth) (apart : Apart asks)
    (served : ServedInTurn sha home asks shelf log now pool)
    (relies : ∀ thread, Relies (MadeBy asks) now (pool.locals thread) (asks thread)) :
    pool.Throughout (FileWorker.step env sha)
      (fun pool thread => (pool.locals thread).undisturbed pool.shared.tree = true) schedule := by
  induction schedule generalizing pool now log with
  | nil => trivial
  | cons thread schedule induction =>
      have undisturbed := undisturbed_of_relies served.keeps (served.pursues thread)
        (relies thread)
      refine ⟨undisturbed, ?_⟩
      intro next moved
      rcases served.move smooth undisturbed with
        ⟨_, after, moved', served', elsewhere, turn, noFolder⟩
      cases moved'.symm.trans moved
      apply induction served'
      intro other
      by_cases same : other = thread
      · subst same
        exact turn (relies other)
      · rw [(Pool.move_ok moved).2 other same]
        apply (relies other).of_same
        · intro path place
          exact elsewhere path (apart other thread same path place)
        · exact noFolder fun path place unmaking => apart.unmade place unmaking

/-- Unless two requests may change the same entry, workers share the files as if each request
were carried out in one go, in the order of their answers, however they take their turns. -/
theorem files_served_in_turn (smooth : env.Smooth) (apart : Apart asks)
    (keeps : KeepsShelf start.shared home shelf) (begin : Begin home asks start)
    (schedule : List Thread) :
    ∃ final after, start.run (FileWorker.step env sha) schedule = .ok final ∧
      InTurn (ShelfAnswers sha) asks (fileAnswers final)
        (start.arrivals (FileWorker.step env sha) FileWorker.answer schedule) shelf after ∧
      KeepsShelf final.shared home after := by
  have served : ServedInTurn sha home asks shelf [] shelf start := begin.served keeps
  rcases served_throughout smooth served
    (undisturbed_of_apart smooth apart served (begin.relies _)) with ⟨final, after, ran, atEnd⟩
  exact ⟨final, after, ran, atEnd.inTurn, atEnd.keeps⟩

end Pools

/-! One worker uploads `note` to `/home/notes`, and another looks for it too early. -/

def notesAsks : Bool → Ask Name Bytes
  | true => .put notesEntry [] (ascii "note")
  | false => .get [notesEntry]

def noteWorkers : Pool Bool Server FileWorker where
  shared := uploadServer
  locals
    | true => .ready (.put (uploadOf passwordSha notesPath (ascii "note")))
    | false => .ready (.get (requestOf notesPath))

theorem noteWorkers_begin : Begin homeDirectory notesAsks noteWorkers := by
  intro thread
  cases thread with
  | true => exact ⟨_, rfl, .put (ascii "note") rfl rfl notes_spelled⟩
  | false => exact ⟨_, rfl, .get rfl notes_spelled⟩

theorem notesAsks_apart : Apart notesAsks := by
  intro first second different path place
  cases first with
  | true =>
      cases second with
      | true => exact absurd rfl different
      | false => simp [notesAsks, Ask.place]
  | false => cases place

theorem files_served_in_turn_notes :
    ∃ final after, noteWorkers.run (FileWorker.step quietEnv passwordSha)
        [true, true, false, true, false, false] = .ok final ∧
      InTurn (ShelfAnswers passwordSha) notesAsks (fileAnswers final)
        (noteWorkers.arrivals (FileWorker.step quietEnv passwordSha) FileWorker.answer
          [true, true, false, true, false, false])
        (shelfAt uploadServer.tree homeDirectory home_exists) after ∧
      KeepsShelf final.shared homeDirectory after :=
  files_served_in_turn quietEnv_smooth notesAsks_apart uploadServer_keeps noteWorkers_begin
    [true, true, false, true, false, false]

/-! Two workers upload to `/home/notes`, and both have looked before either writes. -/

def twiceAsks (first : Bool) : Ask Name Bytes :=
  .put notesEntry [] (if first then ascii "note" else ascii "other")

def twiceWorkers : Pool Bool Server FileWorker where
  shared := uploadServer
  locals first := .ready
    (.put (uploadOf passwordSha notesPath (if first then ascii "note" else ascii "other")))

theorem uploads_interfere :
    Begin homeDirectory twiceAsks twiceWorkers ∧
      ∃ final, twiceWorkers.run (FileWorker.step quietEnv passwordSha)
          [true, true, false, false, true, false] = .ok final ∧
        ¬ ∃ log after, InTurn (ShelfAnswers passwordSha) twiceAsks (fileAnswers final) log
          (shelfAt uploadServer.tree homeDirectory home_exists) after := by
  have seen : ∃ final, twiceWorkers.run (FileWorker.step quietEnv passwordSha)
        [true, true, false, false, true, false] = .ok final ∧
      decide (final.locals = fun _ => .answered .opSuccess) = true := by
    apply Fallible.exists_ok_of_seen
    decide +kernel
  rcases seen with ⟨final, ran, returned⟩
  rw [decide_eq_true_eq] at returned
  have success : ∀ thread, fileAnswers final thread = some (ctrlPopulateResp .opSuccess) := by
    intro thread
    rw [fileAnswers, returned]
    rfl
  refine ⟨?_, final, ran, ?_⟩
  · intro first
    exact ⟨_, rfl, .put (if first then ascii "note" else ascii "other") rfl rfl notes_spelled⟩
  · rintro ⟨log, after, inTurn⟩
    rcases deleted_of_stored_twice inTurn.trace (Bool.noConfusion : true ≠ false)
        ((inTurn.answered _ _).mpr (success true)) ((inTurn.answered _ _).mpr (success false))
        rfl rfl rfl rfl with ⟨third, _, _, _, deletes⟩
    cases deletes

/-! ## Crashes -/

section Crashes

variable {Thread : Type} [DecidableEq Thread] {env : Env} {sha : Sha256} {home : Location}
  {shelf : Shelf Name Bytes} {asks : Thread → Ask Name Bytes}
  {start pool next : Pool Thread Server FileWorker} {thread : Thread}

structure Underway (home : Location) (asks : Thread → Ask Name Bytes)
    (pool : Pool Thread Server FileWorker) : Prop where
  pursues : ∀ thread, Pursues home (pool.locals thread) (asks thread)
  keeps : ∃ shelf, KeepsShelf pool.shared home shelf

theorem Underway.move (smooth : env.Smooth) (underway : Underway home asks pool)
    (moved : pool.move (FileWorker.step env sha) thread = .ok next) :
    Underway home asks next := by
  rcases underway.keeps with ⟨shelf, keeps⟩
  rcases Fallible.ok_of_bind_ok moved with ⟨⟨server, worker⟩, stepped, rest⟩
  cases rest
  rcases goesOn_or_gone keeps smooth (underway.pursues thread) with
    ⟨_, _, shelf', stepped', keeps', pursues⟩ | ⟨_, crashed, _⟩
  · cases stepped.symm.trans stepped'
    exact ⟨pursues_update underway.pursues pursues, shelf', keeps'⟩
  · cases stepped.symm.trans crashed

theorem Underway.move_error_iff (smooth : env.Smooth) (underway : Underway home asks pool)
    {fault : Fault} :
    pool.move (FileWorker.step env sha) thread = .error fault ↔
      Gone env pool.shared.tree home (pool.locals thread) fault := by
  rcases underway.keeps with ⟨shelf, keeps⟩
  constructor
  · intro failed
    rcases goesOn_or_gone keeps smooth (underway.pursues thread) with
      ⟨_, _, _, stepped, _, _⟩ | ⟨_, crashed, gone⟩
    · rw [Pool.move, stepped] at failed
      cases failed
    · rw [Pool.move, crashed] at failed
      cases failed
      exact gone
  · intro gone
    rw [Pool.move, gone.crashes keeps smooth (underway.pursues thread)]
    rfl

/-- The workers crash exactly when one of them is to open the directory that it deletes and
there is no directory any more, or to read a file in whose place a directory tells a size. -/
theorem workers_crash_iff (smooth : env.Smooth) (keeps : KeepsShelf start.shared home shelf)
    (begin : Begin home asks start) (schedule : List Thread) (fault : Fault) :
    start.run (FileWorker.step env sha) schedule = .error fault ↔
      ∃ early thread late before, schedule = early ++ thread :: late ∧
        start.run (FileWorker.step env sha) early = .ok before ∧
        Gone env before.shared.tree home (before.locals thread) fault := by
  have atStart : Underway home asks start := ⟨begin.pursues, shelf, keeps⟩
  rw [Pool.run_error_iff]
  constructor
  · rintro ⟨early, thread, late, before, same, reached, failed⟩
    have underway : Underway home asks before :=
      Pool.run_preserves (fun underway moved => underway.move smooth moved) reached atStart
    exact ⟨early, thread, late, before, same, reached,
      (underway.move_error_iff smooth).mp failed⟩
  · rintro ⟨early, thread, late, before, same, reached, gone⟩
    have underway : Underway home asks before :=
      Pool.run_preserves (fun underway moved => underway.move smooth moved) reached atStart
    exact ⟨early, thread, late, before, same, reached,
      (underway.move_error_iff smooth).mpr gone⟩

end Crashes

/-! Two workers delete `/home/box`, and one has done so when the other opens it. -/

theorem boxEntry_valid : NameValid (ascii "box") := by decide

def boxEntry : Name := ⟨ascii "box", boxEntry_valid⟩

def boxServer : Server :=
  uploadServer.setTree (uploadServer.tree.put (boxEntry :: homeDirectory) .dir)

def boxRequest : StdPayload where
  pathLen := 3
  path := some (ascii "box")

def boxWorkers : Pool Bool Server FileWorker where
  shared := boxServer
  locals _ := .ready (.del boxRequest)

theorem box_spelled : Spells homeDirectory (CString.ofBuffer (ascii "box")) boxEntry [] where
  last := by decide
  ends := by decide
  above := by decide
  permitted := by decide
  fits := by decide

theorem boxWorkers_begin :
    Begin homeDirectory (fun _ => .delete boxEntry []) boxWorkers :=
  fun _ => ⟨_, rfl, .del rfl box_spelled⟩

theorem box_free : (shelfAt uploadServer.tree homeDirectory home_exists).entry [boxEntry] = none :=
  by decide

theorem boxServer_keeps : KeepsShelf boxServer homeDirectory
    ((shelfAt uploadServer.tree homeDirectory home_exists).store boxEntry [] .folder box_free
      (uploadServer_keeps.folder_iff.mp home_exists)) :=
  uploadServer_keeps.put .folder box_free (uploadServer_keeps.folder_iff.mp home_exists)

/-! Of three workers one has looked at the file `notes` when the second deletes it and the third
makes a directory there, which tells a size. -/

def sizedEnv : Env := { quietEnv with read := { special := fun _ => { tells := some 4096 } } }

theorem sizedEnv_smooth : sizedEnv.Smooth := { quietEnv_smooth with read := ⟨rfl, rfl, rfl⟩ }

theorem notes_free :
    (shelfAt uploadServer.tree homeDirectory home_exists).entry [notesEntry] = none := by decide

def replacedWorkers : Pool (Fin 3) Server FileWorker where
  shared := uploadServer.setTree
    (uploadServer.tree.put (notesEntry :: homeDirectory) (entryNode (.file (ascii "note"))))
  locals
    | 0 => .ready (.get (requestOf notesPath))
    | 1 => .ready (.del (requestOf notesPath))
    | 2 => .ready (.makeDir (requestOf notesPath))

def replacedAsks : Fin 3 → Ask Name Bytes
  | 0 => .get [notesEntry]
  | 1 => .delete notesEntry []
  | 2 => .mkdir notesEntry []

theorem replacedWorkers_begin : Begin homeDirectory replacedAsks replacedWorkers
  | 0 => ⟨_, rfl, .get rfl notes_spelled⟩
  | 1 => ⟨_, rfl, .del rfl notes_spelled⟩
  | 2 => ⟨_, rfl, .makeDir rfl notes_spelled⟩

theorem replacedWorkers_keeps : KeepsShelf replacedWorkers.shared homeDirectory
    ((shelfAt uploadServer.tree homeDirectory home_exists).store notesEntry []
      (.file (ascii "note")) notes_free (uploadServer_keeps.folder_iff.mp home_exists)) :=
  uploadServer_keeps.put (.file (ascii "note")) notes_free
    (uploadServer_keeps.folder_iff.mp home_exists)

theorem workers_crash_iff_replaced :
    boxWorkers.run (FileWorker.step quietEnv passwordSha)
        [true, true, false, false, false, false, true] = .error .badPointer ∧
      replacedWorkers.run (FileWorker.step sizedEnv passwordSha)
        [0, 1, 0, 1, 1, 2, 2, 0] = .error .doubleClose := by
  constructor
  · have before : ∃ before, boxWorkers.run (FileWorker.step quietEnv passwordSha)
          [true, true, false, false, false, false] = .ok before ∧
        (decide (before.locals true = .opening (entryPath homeDirectory boxEntry [])),
          decide (before.shared.tree.get (boxEntry :: homeDirectory) ≠ some .dir)) =
            (true, true) := by
      apply Fallible.exists_ok_of_seen
      decide +kernel
    rcases before with ⟨before, reached, view⟩
    rw [Prod.mk.injEq, decide_eq_true_eq, decide_eq_true_eq] at view
    refine (workers_crash_iff quietEnv_smooth boxServer_keeps boxWorkers_begin _ _).mpr
      ⟨_, true, [], before, rfl, reached, ?_⟩
    rw [view.1]
    exact .opening boxEntry [] view.2
  · have before : ∃ before, replacedWorkers.run (FileWorker.step sizedEnv passwordSha)
          [0, 1, 0, 1, 1, 2, 2] = .ok before ∧
        (decide (before.locals 0 = .reading (entryPath homeDirectory notesEntry [])),
          decide (before.shared.tree.get (notesEntry :: homeDirectory) = some .dir)) =
            (true, true) := by
      apply Fallible.exists_ok_of_seen
      decide +kernel
    rcases before with ⟨before, reached, view⟩
    rw [Prod.mk.injEq, decide_eq_true_eq, decide_eq_true_eq] at view
    refine (workers_crash_iff sizedEnv_smooth replacedWorkers_keeps replacedWorkers_begin _ _).mpr
      ⟨_, 0, [], before, rfl, reached, ?_⟩
    rw [view.1]
    exact .reading notesEntry [] view.2 (by decide)

end FileTransfer
