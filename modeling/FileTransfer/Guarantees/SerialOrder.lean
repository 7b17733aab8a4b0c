import FileTransfer.Foundation.Interleaving
import FileTransfer.Guarantees.Durability
import FileTransfer.Guarantees.SerialCalls
import FileTransfer.Server.Workers

/-! # Workers one after another

Whether workers that create and delete users at the same time leave behind what they would
leave behind one after another. The table goes wrong where a name is taken between its
lookup and the store, and the database file where an older image is written over a newer
one. Where neither happens, nothing else goes wrong.
-/

namespace FileTransfer

open Foundation Posix

abbrev WorkerPool (Thread Iter : Type) := Pool Thread Server (Worker Iter)

namespace WorkerPool

variable {Thread Iter : Type}

def starting (server : Server) (calls : Thread → UserCall) : WorkerPool Thread Iter :=
  ⟨server, fun thread => .ready (calls thread)⟩

def Finished (pool : WorkerPool Thread Iter) : Prop :=
  ∀ thread, ∃ code, pool.locals thread = .done code

/-- A create stores its account only while the name is still free. -/
def StoresFree (pool : WorkerPool Thread Iter) (thread : Thread) : Prop :=
  (pool.locals thread).storesFree pool.shared.db.usersHtable = true

/-- The table changes only while no worker is between a change of its own and the write of
the database file. -/
def ChangesSaved (pool : WorkerPool Thread Iter) (thread : Thread) : Prop :=
  (pool.locals thread).changes pool.shared.db.usersHtable = true →
    ∀ other, (pool.locals other).saving = false

abbrev users (pool : WorkerPool Thread Iter) : HashTable CString UserAccount :=
  pool.shared.db.usersHtable

abbrev answers (pool : WorkerPool Thread Iter) (thread : Thread) : Option RetCode :=
  (pool.locals thread).answer

end WorkerPool

section Serial

variable {Thread Iter : Type} (env : Env) (sha : Sha256) (home : Location)
  (calls : Thread → UserCall) (start : Server) (pool : WorkerPool Thread Iter)

def TableSerial : Prop :=
  ∃ log, InTurn (UserCall.Answers sha) calls pool.answers log start.db.usersHtable pool.users

def Serial : Prop :=
  ∃ log after, InTurn (UserCall.Runs env sha) calls pool.answers log start after ∧
    after.db.usersHtable = pool.users ∧
    after.tree.get (dbFileName :: dbDirName :: home) =
      pool.shared.tree.get (dbFileName :: dbDirName :: home)

def CreatedOnce : Prop :=
  ∀ first second name passwd permission passwd' permission', first ≠ second →
    calls first = .create (some name) passwd permission →
    calls second = .create (some name) passwd' permission' →
    pool.answers first = some .opSuccess → pool.answers second = some .opSuccess →
    ∃ third, calls third = .remove (some name) ∧ pool.answers third = some .opSuccess

def FileCurrent : Prop :=
  (∃ thread, pool.answers thread = some .opSuccess) →
    ∃ image, dbImage (env.users.arrange pool.users.values) = .ok image ∧
      pool.shared.tree.get (dbFileName :: dbDirName :: home) =
        some (.file (env.dbWrite.kept image))

end Serial

section Serial

variable {Thread Iter : Type} {env : Env} {sha : Sha256} {home : Location} {text : Bytes}
  {calls : Thread → UserCall} {start : Server} {pool : WorkerPool Thread Iter}

theorem Serial.table (serial : Serial env sha home calls start pool) :
    TableSerial sha calls start pool := by
  rcases serial with ⟨log, after, inTurn, sameUsers, _⟩
  refine ⟨log, inTurn.once, inTurn.answered, ?_⟩
  rw [← sameUsers]
  exact inTurn.trace.view (fun server => server.db.usersHtable) UserCall.answers_of_runs

theorem TableSerial.createdOnce (serial : TableSerial sha calls start pool) :
    CreatedOnce calls pool := by
  rcases serial with ⟨log, inTurn⟩
  intro first second name passwd permission passwd' permission' different create create'
    success success'
  rcases removed_of_created_twice inTurn.trace different
      ((inTurn.answered _ _).mpr success) ((inTurn.answered _ _).mpr success') create create' with
    ⟨third, listed, remove⟩
  exact ⟨third, remove, (inTurn.answered _ _).mp listed⟩

theorem Serial.fileCurrent (opens : env.dbWrite.opens = true)
    (keeps : Keeps start home text) (serial : Serial env sha home calls start pool) :
    FileCurrent env home pool := by
  rcases serial with ⟨log, after, inTurn, sameUsers, sameFile⟩
  rintro ⟨thread, success⟩
  have listed : .opSuccess ∈ log.map Prod.snd :=
    List.mem_map.mpr ⟨_, (inTurn.answered thread _).mpr success, rfl⟩
  rcases trace_current opens keeps inTurn.trace listed with ⟨image, written, keeps'⟩
  rcases keeps'.disk with ⟨stored, disk⟩
  rw [sameUsers] at written
  exact ⟨image, written, sameFile ▸ disk.file⟩

end Serial

/-! ## The table -/

section Invariants

variable {Thread Iter : Type} {env : Env}
  {iteration : HtableIter Iter env.users} {sha : Sha256} {home : Location} {text : Bytes}
  {calls : Thread → UserCall} {start : Server} {pool next : WorkerPool Thread Iter}
  {log : List (Thread × RetCode)} {thread : Thread}

structure Logged (sha : Sha256) (calls : Thread → UserCall) (start : Server)
    (pool : WorkerPool Thread Iter) (log : List (Thread × RetCode)) : Prop where
  inTurn : InTurn (UserCall.Answers sha) calls pool.answers log start.db.usersHtable pool.users
  inCall : ∀ thread, pool.answers thread = none → (pool.locals thread).InCall (calls thread)

theorem Logged.starting (sha : Sha256) (calls : Thread → UserCall) (start : Server) :
    Logged sha calls start (WorkerPool.starting start calls : WorkerPool Thread Iter) [] where
  inTurn := InTurn.nobody (fun _ => rfl) _
  inCall _ _ := rfl

theorem Logged.look (logged : Logged sha calls start pool log)
    (sameUsers : next.users = pool.users)
    (others : ∀ other, other ≠ thread → next.locals other = pool.locals other)
    (sameAnswer : next.answers thread = pool.answers thread)
    (inCall : next.answers thread = none → (next.locals thread).InCall (calls thread)) :
    Logged sha calls start next log := by
  have sameAnswers : next.answers = pool.answers := by
    funext other
    by_cases same : other = thread
    · rw [same, sameAnswer]
    · exact congrArg Worker.answer (others other same)
  constructor
  · rw [sameAnswers, sameUsers]
    exact logged.inTurn
  · intro other unanswered
    by_cases same : other = thread
    · subst same
      exact inCall unanswered
    · have sameLocal := others other same
      rw [WorkerPool.answers, sameLocal] at unanswered
      rw [sameLocal]
      exact logged.inCall other unanswered

theorem Logged.answer {code : RetCode} (logged : Logged sha calls start pool log)
    (others : ∀ other, other ≠ thread → next.locals other = pool.locals other)
    (silent : pool.answers thread = none) (told : next.answers thread = some code)
    (answers : (calls thread).Answers sha pool.users code next.users) :
    Logged sha calls start next (log ++ [(thread, code)]) where
  inTurn := logged.inTurn.answer silent answers told fun other different =>
    congrArg Worker.answer (others other different)
  inCall other unanswered := by
    have different : other ≠ thread := by
      intro same
      rw [same, told] at unanswered
      cases unanswered
    have sameLocal := others other different
    rw [WorkerPool.answers, sameLocal] at unanswered
    rw [sameLocal]
    exact logged.inCall other unanswered

/-- What one turn of a worker comes to, for the log and for the server. -/
inductive Turn (iteration : HtableIter Iter env.users) (sha : Sha256)
    (calls : Thread → UserCall) (start : Server) (pool : WorkerPool Thread Iter)
    (log : List (Thread × RetCode)) (thread : Thread) (next : WorkerPool Thread Iter) : Prop
  | looks (silent : pool.answers thread = none) (stays : next.shared = pool.shared)
      (silent' : next.answers thread = none)
      (free : (next.locals thread).storesFree next.users = true)
      (logged : Logged sha calls start next log)
  | refuses (code : RetCode) (silent : pool.answers thread = none)
      (verdict : (calls thread).verdict sha pool.users = .error code)
      (stays : next.shared = pool.shared) (answered : next.locals thread = .done code)
      (logged : Logged sha calls start next (log ++ [(thread, code)]))
  | changes (table : HashTable CString UserAccount) (silent : pool.answers thread = none)
      (verdict : (calls thread).verdict sha pool.users = .ok table)
      (change : (pool.locals thread).changes pool.users = true)
      (changed : next.shared = ⟨pool.shared.db.setUsers table, pool.shared.tree⟩)
      (answered : next.locals thread = .update pool.shared.db)
      (logged : Logged sha calls start next (log ++ [(thread, .opSuccess)]))
  | goesOn (code : RetCode) (answered : pool.answers thread = some code)
      (sameDb : next.shared.db = pool.shared.db)
      (logged : Logged sha calls start next log)

theorem Worker.update_answer (db : Db) :
    (Worker.update db : Worker Iter).answer = some .opSuccess := by
  rw [update]
  split <;> rfl

section Turns

variable [DecidableEq Thread]

theorem Logged.turn (logged : Logged sha calls start pool log)
    (free : pool.StoresFree thread)
    (moved : pool.move (Worker.step env iteration sha) thread = .ok next) :
    Turn iteration sha calls start pool log thread next := by
  rcases Pool.move_ok moved with ⟨stepped, others⟩
  cases answered : pool.answers thread with
  | some code =>
      rcases Worker.step_answered stepped answered with ⟨sameDb, answered'⟩
      refine .goesOn code answered sameDb ?_
      apply logged.look (congrArg Db.usersHtable sameDb) others (answered'.trans answered.symm)
      intro unanswered
      rw [WorkerPool.answers, answered'] at unanswered
      cases unanswered
  | none =>
      rcases Worker.step_unanswered stepped answered (logged.inCall thread answered) free with
        ⟨stays, silent, inCall, free'⟩ | ⟨code, refused, stays, final⟩ | ⟨table, accepted, change,
          changed, final⟩
      · refine .looks answered stays silent (by rw [WorkerPool.users, stays]; exact free') ?_
        exact logged.look (congrArg (fun server => server.db.usersHtable) stays) others
          (silent.trans answered.symm) fun _ => inCall
      · refine .refuses code answered refused stays final ?_
        apply logged.answer others answered (congrArg Worker.answer final)
        rw [UserCall.Answers, refused]
        exact ⟨rfl, congrArg (fun server => server.db.usersHtable) stays⟩
      · refine .changes table answered accepted change changed final ?_
        apply logged.answer others answered
          ((congrArg Worker.answer final).trans (Worker.update_answer _))
        rw [UserCall.Answers, accepted]
        exact ⟨rfl, congrArg (fun server => server.db.usersHtable) changed⟩

theorem run_tableSerial {schedule : List Thread}
    (free : (WorkerPool.starting start calls).Throughout (Worker.step env iteration sha)
      WorkerPool.StoresFree schedule)
    (ran : (WorkerPool.starting start calls).run (Worker.step env iteration sha) schedule =
      .ok pool) : TableSerial sha calls start pool := by
  have preserved : ∀ {pool next : WorkerPool Thread Iter} {thread : Thread},
      (∃ log, Logged sha calls start pool log) → pool.StoresFree thread →
        pool.move (Worker.step env iteration sha) thread = .ok next →
          ∃ log, Logged sha calls start next log := by
    rintro pool next thread ⟨log, logged⟩ free moved
    cases logged.turn free moved with
    | looks _ _ _ _ logged => exact ⟨_, logged⟩
    | refuses _ _ _ _ _ logged => exact ⟨_, logged⟩
    | changes _ _ _ _ _ _ logged => exact ⟨_, logged⟩
    | goesOn _ _ _ logged => exact ⟨_, logged⟩
  rcases Pool.run_invariant preserved free ran ⟨[], Logged.starting sha calls start⟩ with
    ⟨log, logged⟩
  exact ⟨log, logged.inTurn⟩

theorem Turn.storesFree (turn : Turn iteration sha calls start pool log thread next)
    (moved : pool.move (Worker.step env iteration sha) thread = .ok next) :
    next.StoresFree thread := by
  cases turn with
  | looks _ _ _ free _ => exact free
  | refuses code _ _ _ answered _ =>
      exact Worker.storesFree_of_answer _ (congrArg Worker.answer answered)
  | changes table _ _ _ _ answered _ =>
      have settled : next.answers thread = some .opSuccess :=
        (congrArg Worker.answer answered).trans (Worker.update_answer _)
      exact Worker.storesFree_of_answer _ settled
  | goesOn code answered _ _ =>
      have stepped := (Pool.move_ok moved).1
      exact Worker.storesFree_of_answer _ (Worker.step_answered stepped answered).2

theorem storesFree_alone [Subsingleton Thread] {schedule : List Thread}
    (logged : Logged sha calls start pool log) (free : ∀ thread, pool.StoresFree thread) :
    pool.Throughout (Worker.step env iteration sha) WorkerPool.StoresFree schedule := by
  induction schedule generalizing pool log with
  | nil => trivial
  | cons thread schedule induction =>
      refine ⟨free thread, fun next moved => ?_⟩
      have turn := logged.turn (free thread) moved
      have free' : ∀ other, WorkerPool.StoresFree next other := fun other =>
        Subsingleton.elim thread other ▸ turn.storesFree moved
      cases turn with
      | looks _ _ _ _ logged => exact induction logged free'
      | refuses _ _ _ _ _ logged => exact induction logged free'
      | changes _ _ _ _ _ _ logged => exact induction logged free'
      | goesOn _ _ _ logged => exact induction logged free'

theorem changesSaved_alone [Subsingleton Thread] (schedule : List Thread) :
    pool.Throughout (Worker.step env iteration sha) WorkerPool.ChangesSaved schedule := by
  induction schedule generalizing pool with
  | nil => trivial
  | cons thread schedule induction =>
      refine ⟨fun change other => ?_, fun next _ => induction⟩
      rw [Subsingleton.elim other thread]
      exact Worker.saving_of_changes change

end Turns

/-! ## The file -/

abbrev CarriedOut (env : Env) (sha : Sha256) (calls : Thread → UserCall) (start : Server)
    (log : List (Thread × RetCode)) (server : Server) : Prop :=
  Trace (UserCall.Runs env sha) start (log.map fun entry => calls entry.1) (log.map Prod.snd)
    server

structure Settled (env : Env) (sha : Sha256) (calls : Thread → UserCall) (start : Server)
    (pool : WorkerPool Thread Iter) (log : List (Thread × RetCode)) (server : Server) : Prop
    where
  trace : CarriedOut env sha calls start log server
  sameDb : pool.shared.db = server.db
  nobody : ∀ thread, (pool.locals thread).saving = false

structure Unsaved (iteration : HtableIter Iter env.users) (sha : Sha256)
    (calls : Thread → UserCall) (start : Server) (pool : WorkerPool Thread Iter)
    (log : List (Thread × RetCode)) (server : Server) (saver : Thread) : Prop where
  trace : ∀ after, saveUsers env sha server pool.users = .ok (.opSuccess, after) →
    CarriedOut env sha calls start log after
  changed : pool.shared.db = server.db.setUsers pool.users
  course : (pool.locals saver).OnCourse iteration pool.users
  alone : ∀ other, other ≠ saver → (pool.locals other).saving = false

/-- The workers beside a server that carries out their calls one after another, with the
same text in the database file. -/
structure Mirrored (iteration : HtableIter Iter env.users) (sha : Sha256) (home : Location)
    (calls : Thread → UserCall) (start : Server) (pool : WorkerPool Thread Iter)
    (log : List (Thread × RetCode)) (server : Server) (text : Bytes) : Prop where
  keeps : Keeps pool.shared home text
  mirrors : Keeps server home text
  phase : Settled env sha calls start pool log server ∨
    ∃ saver, Unsaved iteration sha calls start pool log server saver

/-- A worker that is never going to return: what it is to read back, or its hash file, makes it
close the database file twice. -/
structure Stuck (env : Env) (home : Location) (pool : WorkerPool Thread Iter) : Prop where
  serves : pool.shared.db.homeDir = ⟨render home⟩
  prints : ∀ thread, (pool.locals thread).Prints
  doomed : ∀ buffer, buffer ≠ [] → ClosesTwice env (env.dbWrite.kept buffer)
  disk : ∃ text stored, OnDisk pool.shared.tree home text stored ∧ ClosesTwice env text
  waits : ∃ thread, pool.locals thread = .reading ⟨render (dbFileName :: dbDirName :: home)⟩ ∨
    env.hashWrite.opens = false ∧ ∃ byteArray, pool.locals thread = .hashing byteArray

theorem Stuck.unfinished (stuck : Stuck env home pool) : ¬ pool.Finished := by
  intro finished
  rcases stuck.waits with ⟨thread, waits⟩
  rcases finished thread with ⟨code, final⟩
  rw [final] at waits
  rcases waits with reading | ⟨_, byteArray, hashing⟩
  · cases reading
  · cases hashing

theorem prints_move [DecidableEq Thread] (prints : ∀ thread, (pool.locals thread).Prints)
    (moved : pool.move (Worker.step env iteration sha) thread = .ok next) :
    ∀ other, (next.locals other).Prints := by
  intro other
  rcases Pool.move_ok moved with ⟨stepped, others⟩
  by_cases same : other = thread
  · rw [same]
    exact Worker.step_prints stepped (prints thread)
  · rw [others other same]
    exact prints other

theorem Stuck.move [DecidableEq Thread] (stuck : Stuck env home pool)
    (moved : pool.move (Worker.step env iteration sha) thread = .ok next) :
    Stuck env home next := by
  rcases Pool.move_ok moved with ⟨stepped, others⟩
  rcases stuck.disk with ⟨text, stored, disk, twice⟩
  rcases Worker.step_disk stepped (stuck.prints thread) disk stuck.serves with
    ⟨sameHome, text', stored', disk', written⟩
  refine ⟨sameHome.trans stuck.serves, prints_move stuck.prints moved, stuck.doomed,
    ⟨text', stored', disk', ?_⟩, ?_⟩
  · rcases written with rfl | ⟨buffer, nonempty, rfl⟩
    · exact twice
    · exact stuck.doomed buffer nonempty
  · rcases stuck.waits with ⟨waiting, waits⟩
    by_cases same : waiting = thread
    · subst same
      rcases waits with reading | ⟨closed, byteArray, hashing⟩
      · rw [reading] at stepped
        rcases Fallible.ok_of_bind_ok stepped with ⟨byteArray, read, rest⟩
        rw [disk.readBack_eq, if_neg (by simp [twice.1]), if_neg (by simp [twice.2.1])] at read
        split at read <;> cases read
        rename_i whole
        have after := (Prod.mk.inj (Except.ok.inj rest)).2
        exact ⟨waiting, .inr ⟨twice.2.2.resolve_left (not_not.mpr whole), text, after.symm⟩⟩
      · rw [hashing] at stepped
        rcases Fallible.ok_of_bind_ok stepped with ⟨_, wrote, _⟩
        rw [stuck.serves, disk.writeHash_eq, if_neg (by simp [closed])] at wrote
        cases wrote
    · rw [← others waiting same] at waits
      exact ⟨waiting, waits⟩

theorem Worker.saving_eq_false {worker : Worker Iter} (silent : worker.answer = none) :
    worker.saving = false := by
  cases saves : worker.saving with
  | false => rfl
  | true =>
      rw [Worker.answer_of_saving saves] at silent
      cases silent

section Turns

variable {server : Server}

theorem Settled.carry {later : List (Thread × RetCode)}
    (settled : Settled env sha calls start pool log server)
    (sameDb : next.shared.db = pool.shared.db)
    (others : ∀ other, other ≠ thread → next.locals other = pool.locals other)
    (quiet : (next.locals thread).saving = false)
    (trace : CarriedOut env sha calls start later server) :
    Settled env sha calls start next later server where
  trace := trace
  sameDb := sameDb.trans settled.sameDb
  nobody other := by
    by_cases same : other = thread
    · rw [same, quiet]
    · rw [others other same, settled.nobody]

theorem Unsaved.carry {saver : Thread} {later : List (Thread × RetCode)}
    (unsaved : Unsaved iteration sha calls start pool log server saver)
    (sameDb : next.shared.db = pool.shared.db)
    (others : ∀ other, other ≠ thread → next.locals other = pool.locals other)
    (quiet : (next.locals thread).saving = false) (idle : (pool.locals thread).saving = false)
    (trace : ∀ after, saveUsers env sha server pool.users = .ok (.opSuccess, after) →
      CarriedOut env sha calls start later after) :
    Unsaved iteration sha calls start next later server saver := by
  have sameUsers : next.users = pool.users := congrArg Db.usersHtable sameDb
  have different : saver ≠ thread := by
    intro same
    rw [← same, unsaved.course.saving] at idle
    cases idle
  constructor
  · rw [sameUsers]
    exact trace
  · rw [sameDb, sameUsers]
    exact unsaved.changed
  · rw [others saver different, sameUsers]
    exact unsaved.course
  · intro other notSaver
    by_cases same : other = thread
    · rw [same, quiet]
    · rw [others other same, unsaved.alone other notSaver]

theorem Mirrored.looks (mirrored : Mirrored iteration sha home calls start pool log server text)
    (stays : next.shared = pool.shared)
    (others : ∀ other, other ≠ thread → next.locals other = pool.locals other)
    (silent : pool.answers thread = none) (silent' : next.answers thread = none) :
    Mirrored iteration sha home calls start next log server text where
  keeps := stays ▸ mirrored.keeps
  mirrors := mirrored.mirrors
  phase := by
    have sameDb := congrArg Server.db stays
    have quiet := Worker.saving_eq_false silent'
    rcases mirrored.phase with settled | ⟨saver, unsaved⟩
    · exact .inl (settled.carry sameDb others quiet settled.trace)
    · have idle := Worker.saving_eq_false silent
      exact .inr ⟨saver, unsaved.carry sameDb others quiet idle unsaved.trace⟩

theorem Mirrored.refuses {code : RetCode}
    (mirrored : Mirrored iteration sha home calls start pool log server text)
    (stays : next.shared = pool.shared)
    (others : ∀ other, other ≠ thread → next.locals other = pool.locals other)
    (silent : pool.answers thread = none) (answered : next.locals thread = .done code)
    (refused : (calls thread).verdict sha pool.users = .error code) :
    Mirrored iteration sha home calls start next (log ++ [(thread, code)]) server text where
  keeps := stays ▸ mirrored.keeps
  mirrors := mirrored.mirrors
  phase := by
    have sameDb := congrArg Server.db stays
    have quiet : (next.locals thread).saving = false := by rw [answered]; rfl
    rcases mirrored.phase with settled | ⟨saver, unsaved⟩
    · refine .inl (settled.carry sameDb others quiet (settled.trace.snoc ?_))
      apply UserCall.runs_of_refused
      rw [← settled.sameDb]
      exact refused
    · have idle := Worker.saving_eq_false silent
      refine .inr ⟨saver, unsaved.carry sameDb others quiet idle ?_⟩
      intro after saved
      apply (unsaved.trace after saved).snoc
      apply UserCall.runs_of_refused
      rw [(saveUsers_ok saved).2.1, Db.setUsers_usersHtable]
      exact refused

theorem Mirrored.changes {table : HashTable CString UserAccount}
    (mirrored : Mirrored iteration sha home calls start pool log server text)
    (nobody : ∀ other, (pool.locals other).saving = false)
    (others : ∀ other, other ≠ thread → next.locals other = pool.locals other)
    (accepted : (calls thread).verdict sha pool.users = .ok table)
    (changed : next.shared = ⟨pool.shared.db.setUsers table, pool.shared.tree⟩)
    (answered : next.locals thread = .update pool.shared.db) :
    Mirrored iteration sha home calls start next (log ++ [(thread, .opSuccess)]) server text where
  keeps := by
    rw [changed]
    exact ⟨mirrored.keeps.serves, mirrored.keeps.saves, mirrored.keeps.disk⟩
  mirrors := mirrored.mirrors
  phase := by
    have table' : next.users = table := congrArg (fun server => server.db.usersHtable) changed
    rcases mirrored.phase with settled | ⟨saver, unsaved⟩
    · refine .inr ⟨thread, ?_, ?_, ?_, ?_⟩
      · intro after saved
        apply settled.trace.snoc
        have accepted' : (calls thread).verdict sha server.db.usersHtable = .ok table := by
          rw [← settled.sameDb]
          exact accepted
        rw [UserCall.Runs, UserCall.run_eq, accepted', ← table']
        exact saved
      · rw [table', changed, settled.sameDb]
      · rw [answered]
        exact Worker.update_onCourse _ mirrored.keeps.saves
      · intro other different
        rw [others other different, nobody]
    · have saves := nobody saver
      rw [unsaved.course.saving] at saves
      cases saves

/-- A worker that saves the last change gets nearer to writing it, or writes it. A save that
does not return one after another does not return here. -/
theorem Mirrored.saves [DecidableEq Thread] {code : RetCode}
    (prints : ∀ thread, (pool.locals thread).Prints)
    (mirrored : Mirrored iteration sha home calls start pool log server text)
    (moved : pool.move (Worker.step env iteration sha) thread = .ok next)
    (answered : pool.answers thread = some code) (saves : (pool.locals thread).saving = true) :
    (∃ server' text', Mirrored iteration sha home calls start next log server' text') ∨
      Stuck env home next := by
  rcases Pool.move_ok moved with ⟨stepped, others⟩
  have sameDb := (Worker.step_answered stepped answered).1
  rcases mirrored.keeps.disk with ⟨stored, disk⟩
  rcases mirrored.phase with settled | ⟨saver, unsaved⟩
  · rw [settled.nobody] at saves
    cases saves
  · have same : saver = thread := by
      by_contra different
      rw [unsaved.alone thread (Ne.symm different)] at saves
      cases saves
    subst same
    rcases Worker.step_saving stepped unsaved.course disk mirrored.keeps.serves with
      ⟨stays, course⟩ | ⟨image, written, disk', quiet, reads⟩
    · refine .inl ⟨server, text, stays ▸ mirrored.keeps, mirrored.mirrors, .inr ⟨saver, ?_⟩⟩
      have sameUsers : next.users = pool.users := congrArg Db.usersHtable sameDb
      refine ⟨sameUsers ▸ unsaved.trace, ?_, sameUsers ▸ course, ?_⟩
      · rw [sameDb, sameUsers]
        exact unsaved.changed
      · intro other different
        rw [others other different, unsaved.alone other different]
    · by_cases crashes : SaveCrashes env image
      · right
        rw [textAfter, if_pos crashes.1] at disk'
        refine ⟨?_, prints_move prints moved, crashes.dooms, ⟨_, _, disk', crashes.2.2⟩, saver,
          .inl (reads crashes)⟩
        rw [sameDb]
        exact mirrored.keeps.serves
      left
      rcases mirrored.mirrors.disk with ⟨stored', mirrorDisk⟩
      rcases saveUsers_written sha mirrorDisk mirrored.mirrors.serves mirrored.mirrors.saves
        written crashes with ⟨tree, saved, mirrorDisk'⟩
      refine ⟨⟨server.db.setUsers pool.users, tree⟩, textAfter env text image, ⟨?_, ?_, _, disk'⟩,
        ⟨mirrored.mirrors.serves, mirrored.mirrors.saves, _, mirrorDisk'⟩, .inl ⟨?_, ?_, ?_⟩⟩
      · rw [sameDb]
        exact mirrored.keeps.serves
      · rw [sameDb]
        exact mirrored.keeps.saves
      · exact unsaved.trace _ saved
      · rw [sameDb]
        exact unsaved.changed
      · intro other
        by_cases same : other = saver
        · rw [same, quiet]
        · rw [others other same, unsaved.alone other same]

/-- What a worker does after its answer: it saves the last change, or it touches neither
the table nor the database file. -/
theorem Mirrored.goesOn [DecidableEq Thread] {code : RetCode}
    (prints : ∀ thread, (pool.locals thread).Prints)
    (mirrored : Mirrored iteration sha home calls start pool log server text)
    (moved : pool.move (Worker.step env iteration sha) thread = .ok next)
    (answered : pool.answers thread = some code) :
    (∃ server' text', Mirrored iteration sha home calls start next log server' text') ∨
      Stuck env home next := by
  by_cases saves : (pool.locals thread).saving = true
  · exact mirrored.saves prints moved answered saves
  · rcases Pool.move_ok moved with ⟨stepped, others⟩
    have sameDb := (Worker.step_answered stepped answered).1
    rcases mirrored.keeps.disk with ⟨stored, disk⟩
    rw [Bool.not_eq_true] at saves
    rcases Worker.step_written stepped answered saves disk mirrored.keeps.serves with
      ⟨disk', quiet⟩
    refine .inl ⟨server, text, ⟨?_, ?_, disk'⟩, mirrored.mirrors, ?_⟩
    · rw [sameDb]
      exact mirrored.keeps.serves
    · rw [sameDb]
      exact mirrored.keeps.saves
    · rcases mirrored.phase with settled | ⟨saver, unsaved⟩
      · exact .inl (settled.carry sameDb others quiet settled.trace)
      · exact .inr ⟨saver, unsaved.carry sameDb others quiet saves unsaved.trace⟩

theorem Mirrored.turn [DecidableEq Thread] (prints : ∀ thread, (pool.locals thread).Prints)
    (logged : Logged sha calls start pool log)
    (mirrored : Mirrored iteration sha home calls start pool log server text)
    (free : pool.StoresFree thread) (saved : pool.ChangesSaved thread)
    (moved : pool.move (Worker.step env iteration sha) thread = .ok next) :
    (∃ log server text, Logged sha calls start next log ∧
        Mirrored iteration sha home calls start next log server text) ∨ Stuck env home next := by
  rcases Pool.move_ok moved with ⟨_, others⟩
  cases logged.turn free moved with
  | looks silent stays silent' _ logged =>
      exact .inl ⟨_, _, _, logged, mirrored.looks stays others silent silent'⟩
  | refuses code silent verdict stays answered logged =>
      exact .inl ⟨_, _, _, logged, mirrored.refuses stays others silent answered verdict⟩
  | changes table silent verdict change changed answered logged =>
      exact .inl ⟨_, _, _, logged,
        mirrored.changes (saved change) others verdict changed answered⟩
  | goesOn code answered sameDb logged =>
      rcases mirrored.goesOn prints moved answered with ⟨server', text', mirrored'⟩ | stuck
      · exact .inl ⟨_, _, _, logged, mirrored'⟩
      · exact .inr stuck

theorem run_serial [DecidableEq Thread] {schedule : List Thread} (keeps : Keeps start home text)
    (free : (WorkerPool.starting start calls).Throughout (Worker.step env iteration sha)
      WorkerPool.StoresFree schedule)
    (saved : (WorkerPool.starting start calls).Throughout (Worker.step env iteration sha)
      WorkerPool.ChangesSaved schedule)
    (ran : (WorkerPool.starting start calls).run (Worker.step env iteration sha) schedule =
      .ok pool) (finished : pool.Finished) : Serial env sha home calls start pool := by
  have preserved : ∀ {pool next : WorkerPool Thread Iter} {thread : Thread},
      ((∀ thread, (pool.locals thread).Prints) ∧
        ((∃ log server text, Logged sha calls start pool log ∧
          Mirrored iteration sha home calls start pool log server text) ∨ Stuck env home pool)) →
      pool.StoresFree thread ∧ pool.ChangesSaved thread →
        pool.move (Worker.step env iteration sha) thread = .ok next →
          (∀ thread, (next.locals thread).Prints) ∧
            ((∃ log server text, Logged sha calls start next log ∧
              Mirrored iteration sha home calls start next log server text) ∨
                Stuck env home next) := by
    rintro pool next thread ⟨prints, now⟩ ⟨free, saved⟩ moved
    refine ⟨prints_move prints moved, ?_⟩
    rcases now with ⟨log, server, text, logged, mirrored⟩ | stuck
    · exact mirrored.turn prints logged free saved moved
    · exact .inr (stuck.move moved)
  have settled : Settled env sha calls start
      (WorkerPool.starting start calls : WorkerPool Thread Iter) [] start :=
    ⟨.nil start, rfl, fun _ => rfl⟩
  have atEnd := Pool.run_invariant preserved (free.and saved) ran ⟨fun _ => trivial,
    .inl ⟨[], start, text, Logged.starting sha calls start, keeps, keeps, .inl settled⟩⟩
  rcases atEnd.2 with ⟨log, server, text', logged, mirrored⟩ | stuck
  swap
  · exact absurd finished stuck.unfinished
  rcases mirrored.phase with settled | ⟨saver, unsaved⟩
  · rcases mirrored.keeps.disk with ⟨stored, disk⟩
    rcases mirrored.mirrors.disk with ⟨stored', disk'⟩
    refine ⟨log, server, ⟨logged.inTurn.once, logged.inTurn.answered, settled.trace⟩, ?_, ?_⟩
    · rw [WorkerPool.users, settled.sameDb]
    · rw [disk.file, disk'.file]
  · rcases finished saver with ⟨code, final⟩
    have saves := unsaved.course.saving
    rw [final] at saves
    cases saves

end Turns

theorem run_alone [DecidableEq Thread] [Subsingleton Thread] {schedule : List Thread}
    (keeps : Keeps start home text)
    (ran : (WorkerPool.starting start calls).run (Worker.step env iteration sha) schedule =
      .ok pool) (finished : pool.Finished) : Serial env sha home calls start pool :=
  run_serial keeps (storesFree_alone (Logged.starting sha calls start) fun _ => rfl)
    (changesSaved_alone schedule) ran finished

/-- Workers that return leave the codes and the table of their calls one after another if
every create stores its account under a name that is free, and the file too if the table
changes only while every change before is written. -/
theorem workers_one_after_another [DecidableEq Thread] {schedule : List Thread}
    (keeps : Keeps start home text)
    (ran : (WorkerPool.starting start calls).run (Worker.step env iteration sha) schedule =
      .ok pool)
    (finished : pool.Finished)
    (free : (WorkerPool.starting start calls).Throughout (Worker.step env iteration sha)
      WorkerPool.StoresFree schedule) :
    TableSerial sha calls start pool ∧ CreatedOnce calls pool ∧
      ((WorkerPool.starting start calls).Throughout (Worker.step env iteration sha)
          WorkerPool.ChangesSaved schedule →
        Serial env sha home calls start pool ∧
          (env.dbWrite.opens = true → FileCurrent env home pool)) := by
  have table := run_tableSerial free ran
  refine ⟨table, table.createdOnce, fun saved => ?_⟩
  have serial := run_serial keeps free saved ran finished
  exact ⟨serial, fun opens => serial.fileCurrent opens keeps⟩

end Invariants

instance {Thread Iter : Type} (pool : WorkerPool Thread Iter) (thread : Thread) :
    Decidable (pool.StoresFree thread) :=
  inferInstanceAs (Decidable (_ = true))

instance {Thread Iter : Type} [Fintype Thread] (pool : WorkerPool Thread Iter)
    (thread : Thread) : Decidable (pool.ChangesSaved thread) :=
  inferInstanceAs (Decidable (_ = true → ∀ _, _ = false))

/-! Two workers on a server that holds the default account. -/

theorem storedServer_keeps : Keeps storedServer serverHome defaultImage where
  serves := storedServer_synced.serves
  saves := storedServer_synced.saving
  disk := ⟨_, storedServer_synced.disk⟩

def createDave : UserCall :=
  .create (some (CString.ofBuffer (ascii "dave"))) (some (CString.ofBuffer (ascii "password")))
    Perms.read

def carolTwice : Bool → UserCall := fun _ => createCarol

def carolAndDave : Bool → UserCall
  | true => createCarol
  | false => createDave

abbrev runWorkers (calls : Bool → UserCall) (schedule : List Bool) :
    Except Fault (WorkerPool Bool (List UserAccount)) :=
  (WorkerPool.starting storedServer calls).run
    (Worker.step {} (.snapshot (.stored UserAccount)) firstSha) schedule

def bothLook : List Bool :=
  [true, false, true, false] ++ List.replicate 11 true ++ List.replicate 11 false

def olderImage : List Bool :=
  List.replicate 10 true ++ List.replicate 15 false ++ List.replicate 3 true

def inOrder : List Bool :=
  [true, true, false] ++ List.replicate 11 true

theorem workers_interfere :
    (∃ pool, runWorkers carolTwice bothLook = .ok pool ∧ pool.Finished ∧
      ¬ CreatedOnce carolTwice pool ∧
      ¬ TableSerial firstSha carolTwice storedServer pool) ∧
    ∃ pool, runWorkers carolAndDave olderImage = .ok pool ∧ pool.Finished ∧
      ¬ FileCurrent {} serverHome pool ∧
      ¬ Serial {} firstSha serverHome carolAndDave storedServer pool := by
  constructor
  · have seen : ∃ pool, runWorkers carolTwice bothLook = .ok pool ∧
        decide (pool.locals = fun _ => .done .opSuccess) = true := by
      apply Fallible.exists_ok_of_seen
      decide +kernel
    rcases seen with ⟨pool, ran, returned⟩
    rw [decide_eq_true_eq] at returned
    have success : ∀ thread, pool.answers thread = some .opSuccess := by
      intro thread
      rw [WorkerPool.answers, returned]
      rfl
    have twice : ¬ CreatedOnce carolTwice pool := by
      intro once
      rcases once true false _ _ _ _ _ (by decide) rfl rfl (success true) (success false) with
        ⟨third, remove, _⟩
      cases remove
    exact ⟨pool, ran, fun thread => ⟨_, congrFun returned thread⟩, twice,
      fun serial => twice serial.createdOnce⟩
  · have seen : ∃ pool, runWorkers carolAndDave olderImage = .ok pool ∧
        (decide (pool.locals = fun _ => .done .opSuccess),
          (dbImage pool.users.values).toOption.map fun image =>
            decide (pool.shared.tree.get (dbFileName :: dbDirName :: serverHome) =
              some (.file image))) = (true, some false) := by
      apply Fallible.exists_ok_of_seen
      decide +kernel
    rcases seen with ⟨pool, ran, view⟩
    rw [Prod.mk.injEq, decide_eq_true_eq] at view
    rcases view with ⟨returned, older⟩
    have stale : ¬ FileCurrent {} serverHome pool := by
      intro current
      rcases current ⟨true, congrArg Worker.answer (congrFun returned true)⟩ with
        ⟨image, written, file⟩
      have written' : dbImage pool.users.values = .ok image := written
      rw [written'] at older
      have whole : (({} : Env).dbWrite.kept image) = image := WriteOutcome.kept_smooth image
      rw [whole] at file
      simp [Except.toOption, file] at older
    exact ⟨pool, ran, fun thread => ⟨_, congrFun returned thread⟩, stale,
      fun serial => stale (serial.fileCurrent rfl storedServer_keeps)⟩

theorem workers_one_after_another_refused :
    ∃ pool, runWorkers carolTwice inOrder = .ok pool ∧
      Serial {} firstSha serverHome carolTwice storedServer pool ∧
      FileCurrent {} serverHome pool := by
  have seen : ∃ pool, runWorkers carolTwice inOrder = .ok pool ∧
      decide (pool.locals = fun first => .done (if first then .opSuccess else .opUserExists)) =
        true := by
    apply Fallible.exists_ok_of_seen
    decide +kernel
  rcases seen with ⟨pool, ran, returned⟩
  rw [decide_eq_true_eq] at returned
  have orderly := (workers_one_after_another storedServer_keeps ran
    (fun thread => ⟨_, congrFun returned thread⟩) (by decide +kernel)).2.2 (by decide +kernel)
  exact ⟨pool, ran, orderly.1, orderly.2 rfl⟩

end FileTransfer
