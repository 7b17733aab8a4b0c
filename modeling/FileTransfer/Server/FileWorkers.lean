import FileTransfer.Foundation.Interleaving
import FileTransfer.Server.Admitted
import FileTransfer.Server.FileRequests

/-! # File requests of several workers
`do_get_file`, `do_put_file`, `do_make_dir` and `do_del_file` as the workers of the pool carry
them out, with no lock around the files: each look at the files and each change to them is a
step, and other workers take theirs in between. From its opening to its closing, a file is
read or written in one step, and a directory is read in one step.
-/

namespace FileTransfer

open Foundation Posix

inductive FileJob
  | get (payload : StdPayload)
  | put (payload : StdPayload)
  | makeDir (payload : StdPayload)
  | del (payload : StdPayload)
deriving DecidableEq

def FileJob.perform (env : Env) (sha : Sha256) (server : Server) :
    FileJob → Except Fault (ActResp × FileTree)
  | get payload => do
      return (← doGetFile env sha server payload, server.tree)
  | put payload => do
      let (code, tree) ← doPutFile env server payload
      return (ctrlPopulateResp code, tree)
  | makeDir payload => do
      let (code, tree) ← doMakeDir env server payload
      return (ctrlPopulateResp code, tree)
  | del payload => do
      let (code, tree) ← doDelFile env server payload
      return (ctrlPopulateResp code, tree)

inductive FileWorker
  | ready (job : FileJob)
  /-- In `do_put_file`, past the lookup of the file. -/
  | absent (payload : StdPayload)
  | writing (path : VerifiedPath) (stream : Option Bytes)
  | making (path : VerifiedPath)
  /-- In `f_del_file`, and further on by the kind of node that `stat` has found. -/
  | deleting (path : VerifiedPath)
  | unlinking (path : VerifiedPath)
  | opening (path : VerifiedPath)
  | removing (path : VerifiedPath)
  /-- In `f_read_file`, before and behind its `stat`. -/
  | examining (path : VerifiedPath)
  | reading (path : VerifiedPath)
  | done (response : ActResp)
deriving DecidableEq

namespace FileWorker

def answered (code : RetCode) : FileWorker := done (ctrlPopulateResp code)

/-- One step of a worker: its next access to the files. -/
def step (env : Env) (sha : Sha256) (server : Server) :
    FileWorker → Except Fault (Server × FileWorker)
  | ready (.get payload) => do
      match ← fVerPathResolve server.tree server.db.homeDir payload.cPath with
      | none => return (server, answered .opResolveError)
      | some path => return (server, examining path)
  | ready (.put payload) => do
      match ← fVerPathResolve server.tree server.db.homeDir payload.cPath with
      | some _ => return (server, answered .opFileExists)
      | none => return (server, absent payload)
  | ready (.makeDir payload) => do
      match ← fVerValidResolve server.tree server.db.homeDir payload.cPath with
      | none => return (server, answered .opResolveError)
      | some path => return (server, making path)
  | ready (.del payload) => do
      match ← fVerPathResolve server.tree server.db.homeDir payload.cPath with
      | none => return (server, answered .opResolveError)
      | some path => return (server, deleting path)
  | absent payload => do
      match ← fVerValidResolve server.tree server.db.homeDir payload.cPath with
      | none => return (server, answered .opResolveError)
      | some path => return (server, writing path payload.byteStream)
  | writing path stream =>
      let (code, tree) := fWriteFile env.write server.tree path stream
      .ok (server.setTree tree, answered code)
  | making path =>
      let (code, tree) := fCreateDir env server.tree path
      .ok (server.setTree tree, answered code)
  | deleting path =>
      match server.tree.stat env.dirSize path.path with
      | .error _ => .ok (server, answered .opFailure)
      | .ok stat =>
          match stat.kind with
          | .regular => .ok (server, unlinking path)
          | .directory => .ok (server, opening path)
          | _ => .ok (server, answered .opFailure)
  | unlinking path =>
      match server.tree.unlink env.unlink path.path with
      | .ok tree => .ok (server.setTree tree, answered .opSuccess)
      | .error _ => .ok (server, answered .opFailure)
  | opening path =>
      match server.tree.readDirectory env.opendir env.entries path.path with
      | .error _ => .error .badPointer
      | .ok entries =>
          if countFiles entries 0 > 2 then .ok (server, answered .opDirNotEmpty)
          else .ok (server, removing path)
  | removing path =>
      match server.tree.rmdir env.rmdir path.path with
      | .ok tree => .ok (server.setTree tree, answered .opSuccess)
      | .error _ => .ok (server, answered .opFailure)
  | examining path =>
      match server.tree.stat env.dirSize path.path with
      | .error _ => .ok (server, answered .opIoError)
      | .ok stat =>
          if stat.kind ≠ .regular then .ok (server, answered .opPathNotFile)
          else .ok (server, reading path)
  | reading path => do
      match ← readOpened env.read server.tree path with
      | .error code => return (server, answered code)
      | .ok stream =>
          if stream = [] then return (server, answered .opFileEmpty)
          else return (server, done (contentResp ⟨sha.digest stream, stream, path.path⟩))
  | done response => .ok (server, done response)

inductive Moves (env : Env) (sha : Sha256) (server : Server) :
    FileWorker → Server → FileWorker → Prop
  | answers (worker : FileWorker) (code : RetCode) :
      Moves env sha server worker server (answered code)
  | examines (payload : StdPayload) (path : VerifiedPath)
      (found : fVerPathResolve server.tree server.db.homeDir payload.cPath = .ok (some path)) :
      Moves env sha server (ready (.get payload)) server (examining path)
  | misses (payload : StdPayload) :
      Moves env sha server (ready (.put payload)) server (absent payload)
  | makes (payload : StdPayload) (path : VerifiedPath)
      (found : fVerValidResolve server.tree server.db.homeDir payload.cPath = .ok (some path)) :
      Moves env sha server (ready (.makeDir payload)) server (making path)
  | deletes (payload : StdPayload) (path : VerifiedPath)
      (found : fVerPathResolve server.tree server.db.homeDir payload.cPath = .ok (some path)) :
      Moves env sha server (ready (.del payload)) server (deleting path)
  | writes (payload : StdPayload) (path : VerifiedPath)
      (found : fVerValidResolve server.tree server.db.homeDir payload.cPath = .ok (some path)) :
      Moves env sha server (absent payload) server (writing path payload.byteStream)
  | wrote (path : VerifiedPath) (stream : Option Bytes) (code : RetCode) :
      Moves env sha server (writing path stream)
        (server.setTree (fWriteFile env.write server.tree path stream).2) (answered code)
  | made (path : VerifiedPath) (code : RetCode) :
      Moves env sha server (making path)
        (server.setTree (fCreateDir env server.tree path).2) (answered code)
  | unlinks (path : VerifiedPath) : Moves env sha server (deleting path) server (unlinking path)
  | opens (path : VerifiedPath) : Moves env sha server (deleting path) server (opening path)
  | removes (path : VerifiedPath) : Moves env sha server (opening path) server (removing path)
  | unlinked (path : VerifiedPath) (tree : FileTree)
      (removed : server.tree.unlink env.unlink path.path = .ok tree) :
      Moves env sha server (unlinking path) (server.setTree tree) (answered .opSuccess)
  | removed (path : VerifiedPath) (tree : FileTree)
      (removed : server.tree.rmdir env.rmdir path.path = .ok tree) :
      Moves env sha server (removing path) (server.setTree tree) (answered .opSuccess)
  | reads (path : VerifiedPath) : Moves env sha server (examining path) server (reading path)
  | sends (path : VerifiedPath) (stream : Bytes) (nonempty : stream ≠ [])
      (read : readOpened env.read server.tree path = .ok (.ok stream)) :
      Moves env sha server (reading path) server
        (done (contentResp ⟨sha.digest stream, stream, path.path⟩))
  | rests (response : ActResp) :
      Moves env sha server (done response) server (done response)

section Inversion

variable {env : Env} {sha : Sha256} {server after : Server} {next : FileWorker}

theorem ready_moves {job : FileJob}
    (stepped : (ready job).step env sha server = .ok (after, next)) :
    Moves env sha server (ready job) after next := by
  cases job with
  | get payload =>
      rcases Fallible.ok_of_bind_ok stepped with ⟨found, resolved, rest⟩
      cases found with
      | none =>
          cases rest
          exact .answers _ _
      | some path =>
          cases rest
          exact .examines payload path resolved
  | put payload =>
      rcases Fallible.ok_of_bind_ok stepped with ⟨found, _, rest⟩
      cases found with
      | none =>
          cases rest
          exact .misses payload
      | some path =>
          cases rest
          exact .answers _ _
  | makeDir payload =>
      rcases Fallible.ok_of_bind_ok stepped with ⟨found, verified, rest⟩
      cases found with
      | none =>
          cases rest
          exact .answers _ _
      | some path =>
          cases rest
          exact .makes payload path verified
  | del payload =>
      rcases Fallible.ok_of_bind_ok stepped with ⟨found, resolved, rest⟩
      cases found with
      | none =>
          cases rest
          exact .answers _ _
      | some path =>
          cases rest
          exact .deletes payload path resolved

theorem absent_moves {payload : StdPayload}
    (stepped : (absent payload).step env sha server = .ok (after, next)) :
    Moves env sha server (absent payload) after next := by
  rcases Fallible.ok_of_bind_ok stepped with ⟨found, verified, rest⟩
  cases found with
  | none =>
      cases rest
      exact .answers _ _
  | some path =>
      cases rest
      exact .writes payload path verified

theorem deleting_moves {path : VerifiedPath}
    (stepped : (deleting path).step env sha server = .ok (after, next)) :
    Moves env sha server (deleting path) after next := by
  simp only [step] at stepped
  split at stepped
  · cases stepped
    exact .answers _ _
  · split at stepped <;> cases stepped
    · exact .unlinks path
    · exact .opens path
    · exact .answers _ _

theorem unlinking_moves {path : VerifiedPath}
    (stepped : (unlinking path).step env sha server = .ok (after, next)) :
    Moves env sha server (unlinking path) after next := by
  simp only [step] at stepped
  split at stepped
  · rename_i tree removed
    cases stepped
    exact .unlinked path tree removed
  · cases stepped
    exact .answers _ _

theorem opening_moves {path : VerifiedPath}
    (stepped : (opening path).step env sha server = .ok (after, next)) :
    Moves env sha server (opening path) after next := by
  simp only [step] at stepped
  split at stepped
  · cases stepped
  · split at stepped <;> cases stepped
    · exact .answers _ _
    · exact .removes path

theorem removing_moves {path : VerifiedPath}
    (stepped : (removing path).step env sha server = .ok (after, next)) :
    Moves env sha server (removing path) after next := by
  simp only [step] at stepped
  split at stepped
  · rename_i tree removed
    cases stepped
    exact .removed path tree removed
  · cases stepped
    exact .answers _ _

theorem examining_moves {path : VerifiedPath}
    (stepped : (examining path).step env sha server = .ok (after, next)) :
    Moves env sha server (examining path) after next := by
  simp only [step] at stepped
  split at stepped
  · cases stepped
    exact .answers _ _
  · split at stepped <;> cases stepped
    · exact .answers _ _
    · exact .reads path

theorem reading_moves {path : VerifiedPath}
    (stepped : (reading path).step env sha server = .ok (after, next)) :
    Moves env sha server (reading path) after next := by
  rcases Fallible.ok_of_bind_ok stepped with ⟨outcome, read, rest⟩
  cases outcome with
  | error code =>
      cases rest
      exact .answers _ _
  | ok stream =>
      simp only at rest
      split at rest <;> cases rest
      · exact .answers _ _
      · exact .sends path stream ‹_› read

theorem moves_of_step {worker : FileWorker}
    (stepped : worker.step env sha server = .ok (after, next)) :
    Moves env sha server worker after next := by
  cases worker with
  | ready job => exact ready_moves stepped
  | absent payload => exact absent_moves stepped
  | writing path stream =>
      cases stepped
      exact .wrote path stream _
  | making path =>
      cases stepped
      exact .made path _
  | deleting path => exact deleting_moves stepped
  | unlinking path => exact unlinking_moves stepped
  | opening path => exact opening_moves stepped
  | removing path => exact removing_moves stepped
  | examining path => exact examining_moves stepped
  | reading path => exact reading_moves stepped
  | done response =>
      cases stepped
      exact .rests response

end Inversion

end FileWorker

/-! ## A worker alone -/

section Alone

variable {env : Env} {sha : Sha256} {server : Server}

theorem FileWorker.get_alone (payload : StdPayload) :
    Pool.alone (step env sha) 4 server (.ready (.get payload)) =
      ((FileJob.get payload).perform env sha server).map fun result =>
        (server.setTree result.2, .done result.1) := by
  simp only [Pool.alone, step, FileJob.perform, doGetFile]
  cases fVerPathResolve server.tree server.db.homeDir payload.cPath with
  | error fault => rfl
  | ok found =>
      cases found with
      | none => rfl
      | some path =>
          simp only [Fallible.ok_bind, Fallible.pure_eq_ok, fReadFile]
          cases server.tree.stat env.dirSize path.path with
          | error code => rfl
          | ok stat =>
              simp only
              split
              · rfl
              · simp only [Fallible.ok_bind]
                cases readOpened env.read server.tree path with
                | error fault => rfl
                | ok outcome =>
                    cases outcome with
                    | error code => rfl
                    | ok stream =>
                        simp only [Fallible.ok_bind]
                        split <;> rfl

theorem FileWorker.del_alone (payload : StdPayload) :
    Pool.alone (step env sha) 4 server (.ready (.del payload)) =
      ((FileJob.del payload).perform env sha server).map fun result =>
        (server.setTree result.2, .done result.1) := by
  simp only [Pool.alone, step, FileJob.perform, doDelFile]
  cases fVerPathResolve server.tree server.db.homeDir payload.cPath with
  | error fault => rfl
  | ok found =>
      cases found with
      | none => rfl
      | some path =>
          simp only [Fallible.ok_bind, Fallible.pure_eq_ok, fDelFile]
          cases server.tree.stat env.dirSize path.path with
          | error code => rfl
          | ok stat =>
              rcases stat with ⟨kind, size⟩
              cases kind with
              | regular =>
                  simp only [Fallible.ok_bind]
                  cases server.tree.unlink env.unlink path.path <;> rfl
              | directory =>
                  simp only [Fallible.ok_bind]
                  cases server.tree.readDirectory env.opendir env.entries path.path with
                  | error code => rfl
                  | ok entries =>
                      simp only
                      split
                      · rfl
                      · simp only [Fallible.ok_bind]
                        cases server.tree.rmdir env.rmdir path.path <;> rfl
              | link => rfl
              | other => rfl

/-- A worker that nobody comes in between does its job in one go, whatever comes of it. -/
theorem FileJob.alone (job : FileJob) :
    Pool.alone (FileWorker.step env sha) 4 server (.ready job) =
      (job.perform env sha server).map fun result =>
        (server.setTree result.2, .done result.1) := by
  cases job with
  | get payload => exact FileWorker.get_alone payload
  | put payload =>
      simp only [Pool.alone, FileWorker.step, FileJob.perform, doPutFile]
      cases fVerPathResolve server.tree server.db.homeDir payload.cPath with
      | error fault => rfl
      | ok found =>
          cases found with
          | some path => rfl
          | none =>
              simp only [Fallible.ok_bind, Fallible.pure_eq_ok]
              cases fVerValidResolve server.tree server.db.homeDir payload.cPath with
              | error fault => rfl
              | ok verified => cases verified <;> rfl
  | makeDir payload =>
      simp only [Pool.alone, FileWorker.step, FileJob.perform, doMakeDir]
      cases fVerValidResolve server.tree server.db.homeDir payload.cPath with
      | error fault => rfl
      | ok verified => cases verified <;> rfl
  | del payload => exact FileWorker.del_alone payload

theorem FileJob.run_alone {Thread : Type} [DecidableEq Thread] {job : FileJob}
    {pool : Pool Thread Server FileWorker} {thread : Thread}
    (ready : pool.locals thread = .ready job) :
    pool.run (FileWorker.step env sha) (List.replicate 4 thread) =
      (job.perform env sha pool.shared).map fun result =>
        ⟨pool.shared.setTree result.2, Function.update pool.locals thread (.done result.1)⟩ := by
  rw [Pool.run_replicate, ready, FileJob.alone]
  cases job.perform env sha pool.shared <;> rfl

end Alone

end FileTransfer
