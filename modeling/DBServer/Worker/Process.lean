import DBServer.Worker.Server
import DBServer.Worker.UploadWorkers

/-!
# The whole process

`server_run`: the server's threads, the upload pool's if there is one, and `DB_app` under
both. One listener thread feeds the operators and the pool, so while it is in
`upload_worker_dispatch` it does not accept for the operators; and one main thread waits for
the drain, shuts the pool down, then the operators, then `DB_app`.
-/

namespace DBServer

open Lib

variable {H : DbHttp}

/-- The descriptor is in the pool's hands. -/
def UploadPool.Holds (p : UploadPool) (fd : Int) : Prop :=
  p.dispatch = .locking fd ∨ p.dispatch = .holding fd ∨ fd ∈ p.queue.contents uploadQueueMax ∨
    .driving fd ∈ p.workers

instance (p : UploadPool) (fd : Int) : Decidable (p.Holds fd) := by
  unfold UploadPool.Holds; infer_instance

/-- The server, the upload pool unless there is no socket for uploads, and `DB_app`. -/
structure Process (H : DbHttp) where
  server : Server H
  uploads : Option (UploadWorkers H)
  /-- `db_app_shutdown` has been called. -/
  appDown : Bool

/-- A step of one of the threads. -/
inductive ProcessAct (H : DbHttp) where
  | server (a : ServerAct H)
  | uploads (b : UploadWorkersAct)
  /-- The main thread calls `db_app_shutdown`. -/
  | appShutdown

namespace Process

/-- The listener is in `upload_worker_dispatch`. -/
def Dispatching (s : Process H) : Prop := s.uploads.any fun u => u.pool.dispatch ≠ .idle

instance (s : Process H) : Decidable s.Dispatching := by unfold Dispatching; infer_instance

/-- `upload_workers_shutdown` has returned, or has nothing to shut down. -/
def UploadsDown (s : Process H) : Prop := s.uploads.all fun u => u.pool.control = .returned

instance (s : Process H) : Decidable s.UploadsDown := by unfold UploadsDown; infer_instance

/-- The kernel hands out a descriptor that is not open. -/
def Fresh (s : Process H) (fd : Int) : Prop :=
  s.server.Fresh fd ∧ s.uploads.all fun u => ¬ u.pool.Holds fd

instance (s : Process H) (fd : Int) : Decidable (s.Fresh fd) := by unfold Fresh; infer_instance

/-- The thread that takes the step is not busy with the pool. -/
def Ready (s : Process H) : ServerAct H → Prop
  | .accept fd => ¬ s.Dispatching ∧ s.Fresh fd
  | .listener | .stop => ¬ s.Dispatching
  | .main _ => s.server.main = .destroy .inactive true → s.UploadsDown
  | .operator _ _ | .tick _ | .requestStore _ | .requestWrite _ => True

instance (s : Process H) : ∀ a, Decidable (s.Ready a)
  | .accept _ => inferInstanceAs (Decidable (_ ∧ _))
  | .listener | .stop => inferInstanceAs (Decidable (¬ _))
  | .main _ => inferInstanceAs (Decidable (_ → _))
  | .operator _ _ | .tick _ | .requestStore _ | .requestWrite _ =>
      inferInstanceAs (Decidable True)

/-- The listener calls the pool between two events, the main thread behind the drain. -/
def Admits (s : Process H) : UploadWorkersAct → Prop
  | .pool (.call fd) _ _ => s.server.listener = .waiting ∧ s.Fresh fd
  | .pool .shutdown _ _ => s.server.main = .destroy .inactive true
  | _ => True

instance (s : Process H) : ∀ b, Decidable (s.Admits b)
  | .pool (.call _) _ _ => inferInstanceAs (Decidable (_ ∧ _))
  | .pool .shutdown _ _ => inferInstanceAs (Decidable (_ = _))
  | .pool (.worker _ _) _ _ | .pool (.spurious _) _ _ | .pool (.dispatch _) _ _
  | .pool (.control _) _ _ | .round _ => inferInstanceAs (Decidable True)

/-- One step; the pool's threads are `base` and up to `DB_app`. -/
def step (base : Nat) (s : Process H) : ProcessAct H → Option (Process H)
  | .server a =>
      if s.Ready a then (s.server.step a).map fun t => { s with server := t } else none
  | .uploads b =>
      if s.Admits b then
        s.uploads.bind fun u => (u.step base b).map fun v => { s with uploads := some v }
      else none
  | .appShutdown =>
      if s.server.main = .done ∧ s.appDown = false then some { s with appDown := true } else none

/-- Behind `server_init`: the pool serves, and nobody has called it yet. -/
structure Init (base : Nat) (s : Process H) : Prop where
  server : ServerInit s.server
  uploads : ∀ u, s.uploads = some u → (uploadWorkers H base).Reachable u ∧
    u.pool.control = .serving ∧ u.pool.log = [] ∧ u.pool.dispatch = .idle
  appDown : s.appDown = false

end Process

/-- The process, from `server_run` on. -/
def process (H : DbHttp) (base : Nat) : Machine (Process H) (ProcessAct H) where
  init := Process.Init base
  step := Process.step base

end DBServer
