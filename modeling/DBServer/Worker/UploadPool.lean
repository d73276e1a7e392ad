import DBServer.Lib.Run
import DBServer.Lib.RingQueue

/-!
# The upload pool

`upload_worker.c`: a fixed pool of threads on one queue under one mutex and one condition
variable, fed by the listener. Taking the mutex is a step, and so is what a thread does
while it has it, up to where it lets go or goes to sleep. `upload_workers_init` is in the
model from `pthread_create` on, since the threads run as soon as they are created; of
`_drive_upload` only its end shows here, when `client_release_fd` closes the descriptor.
-/

namespace DBServer

open Lib

/-- `UPLOAD_MAX_WORKERS`. -/
def uploadMaxWorkers : Nat := 16

/-- `UPLOAD_QUEUE_MAX`. -/
def uploadQueueMax : Nat := 32

/-- Where `_worker_main` stands. -/
inductive UploadWorker where
  /-- Before `db_http_parser_init`. -/
  | starting
  /-- Before `pthread_mutex_lock`. -/
  | locking
  /-- With the mutex, before the tests. -/
  | testing
  /-- In `pthread_cond_wait`, without the mutex. -/
  | sleeping
  /-- In `pthread_cond_wait`, woken up, before it has the mutex again. -/
  | woken
  /-- In `_drive_upload`. -/
  | driving (fd : Int)
  | exited
deriving DecidableEq, Repr

/-- Where the listener stands in `upload_worker_dispatch`. -/
inductive UploadDispatch where
  | idle
  | locking (fd : Int)
  | holding (fd : Int)
deriving DecidableEq, Repr

/-- Where `upload_workers_init` or `upload_workers_shutdown` stands. -/
inductive UploadControl where
  /-- Before `pthread_create` of a worker. -/
  | create (idx : Nat)
  /-- `upload_workers_init` has returned 0. -/
  | serving
  /-- `upload_workers_shutdown`, before `pthread_mutex_lock`. -/
  | locking
  /-- Before a round of its loop, `running` cleared. -/
  | closing
  /-- Before `pthread_join` of a worker. -/
  | joining (idx : Nat)
  | returned
deriving DecidableEq, Repr

/-- Who has the mutex. -/
inductive Holder where
  | worker (idx : Nat)
  | dispatch
  | shutdown
deriving DecidableEq, Repr

/-- What a run shows. -/
inductive UploadEvent where
  /-- `upload_worker_dispatch` returns 0. -/
  | dispatched (fd : Int)
  /-- It returns -1. -/
  | rejected (fd : Int)
  /-- A worker takes the descriptor off the queue. -/
  | taken (idx : Nat) (fd : Int)
  /-- A worker is through with it and closes it. -/
  | released (idx : Nat) (fd : Int)
  /-- `upload_workers_shutdown` closes it. -/
  | closed (fd : Int)
deriving DecidableEq, Repr

/-- `upload_pool_t`, its threads, and the two threads that call into it. -/
structure UploadPool where
  workers : List UploadWorker
  nWorkers : Nat
  queue : RingQueue Int
  qMax : Nat
  running : Bool
  lock : Option Holder
  dispatch : UploadDispatch
  control : UploadControl
  log : List UploadEvent

/-- A step of one of the threads. -/
inductive UploadAct where
  /-- A worker; `parser` is whether `db_http_parser_init` and its gate succeed. -/
  | worker (idx : Nat) (parser : Bool)
  /-- `pthread_cond_wait` returns for no reason. -/
  | spurious (idx : Nat)
  /-- The listener calls `upload_worker_dispatch`. -/
  | call (fd : Int)
  /-- The listener goes on in it; `wake` is whom `pthread_cond_signal` wakes. -/
  | dispatch (wake : Nat)
  /-- Somebody calls `upload_workers_shutdown`. -/
  | shutdown
  /-- `upload_workers_init` or `upload_workers_shutdown` goes on. -/
  | control (created : Bool)

namespace UploadWorker

/-- `pthread_cond_broadcast`. -/
def awake : UploadWorker → UploadWorker
  | .sleeping => .woken
  | w => w

end UploadWorker

namespace UploadPool

/-- A worker goes on. -/
def setWorker (idx : Nat) (w : UploadWorker) (s : UploadPool) : UploadPool :=
  { s with workers := s.workers.set idx w }

/-- `pthread_mutex_lock`. -/
def hold (h : Holder) (s : UploadPool) : UploadPool := { s with lock := some h }

/-- `pthread_mutex_unlock`. -/
def unlock (s : UploadPool) : UploadPool := { s with lock := none }

/-- Note down what happened. -/
def note (e : UploadEvent) (s : UploadPool) : UploadPool := { s with log := s.log ++ [e] }

/-- Take the head of the queue. -/
def pop (s : UploadPool) : UploadPool := { s with queue := s.queue.pop uploadQueueMax }

/-- One step of `_worker_main`. -/
def stepWorker (idx : Nat) (parser : Bool) (s : UploadPool) : UploadWorker → Option UploadPool
  | .starting => some (s.setWorker idx (if parser then .locking else .exited))
  | .locking | .woken =>
      if s.lock = none then some ((s.setWorker idx .testing).hold (.worker idx)) else none
  | .testing =>
      some (if s.queue.count = 0 then
        (s.setWorker idx (if s.running then .sleeping else .exited)).unlock
      else
        (s.pop.setWorker idx
          (if 0 ≤ s.queue.front then .driving s.queue.front else .locking)).unlock.note
            (.taken idx s.queue.front))
  | .driving fd => some ((s.setWorker idx .locking).note (.released idx fd))
  | .sleeping | .exited => none

/-- `pthread_cond_signal`: it wakes a worker that sleeps, if there is one. -/
def signal (wake : Nat) (s : UploadPool) : Option UploadPool :=
  if s.workers[wake]? = some .sleeping then some (s.setWorker wake .woken)
  else if .sleeping ∈ s.workers then none
  else some s

/-- `upload_worker_dispatch` behind its first test. -/
def stepDispatch (wake : Nat) (s : UploadPool) : Option UploadPool :=
  match s.dispatch with
  | .idle => none
  | .locking fd =>
      if s.lock = none then some { s.hold .dispatch with dispatch := .holding fd } else none
  | .holding fd =>
      if s.qMax ≤ s.queue.count then some ({ s.unlock with dispatch := .idle }.note (.rejected fd))
      else
        ({ s with queue := s.queue.push uploadQueueMax fd }.signal wake).map fun (s : UploadPool) =>
          { s.unlock with dispatch := .idle }.note (.dispatched fd)

/-- `upload_workers_init` from its loop on, and `upload_workers_shutdown`. -/
def stepControl (created : Bool) (s : UploadPool) : Option UploadPool :=
  match s.control with
  | .create idx =>
      some (if idx < s.nWorkers then
        if created then { s with workers := s.workers ++ [.starting], control := .create (idx + 1) }
        else { s with nWorkers := idx, control := .locking }
      else { s with control := .serving })
  | .serving => none
  | .locking =>
      if s.lock = none then some { s.hold .shutdown with running := false, control := .closing }
      else none
  | .closing =>
      some (if 0 < s.queue.count then
        if 0 ≤ s.queue.front then s.pop.note (.closed s.queue.front) else s.pop
      else { s.unlock with workers := s.workers.map UploadWorker.awake, control := .joining 0 })
  | .joining idx =>
      if idx < s.nWorkers then
        if s.workers[idx]? = some .exited then some { s with control := .joining (idx + 1) } else none
      else some { s with nWorkers := 0, control := .returned }
  | .returned => none

/-- One step. -/
def step (s : UploadPool) : UploadAct → Option UploadPool
  | .worker idx parser => s.workers[idx]?.bind (s.stepWorker idx parser)
  | .spurious idx =>
      if s.workers[idx]? = some .sleeping then some (s.setWorker idx .woken) else none
  | .call fd =>
      if s.dispatch = .idle ∧ s.control = .serving then
        some (if fd < 0 ∨ s.running = false then s.note (.rejected fd)
          else { s with dispatch := .locking fd })
      else none
  | .dispatch wake => s.stepDispatch wake
  | .shutdown =>
      if s.dispatch = .idle ∧ s.control = .serving then some { s with control := .locking } else none
  | .control created => s.stepControl created

/-- `upload_workers_init` before its loop; the array is still as an earlier run left it. -/
structure Init (s : UploadPool) : Prop where
  workers : s.workers = []
  nWorkers : 1 ≤ s.nWorkers ∧ s.nWorkers ≤ uploadMaxWorkers
  cells : s.queue.cells.length = uploadQueueMax
  queue : s.queue.head = 0 ∧ s.queue.tail = 0 ∧ s.queue.count = 0
  qMax : 1 ≤ s.qMax ∧ s.qMax ≤ uploadQueueMax
  running : s.running = true
  lock : s.lock = none
  dispatch : s.dispatch = .idle
  control : s.control = .create 0
  log : s.log = []

end UploadPool

/-- The upload pool from its creation on. -/
def uploadPool : Machine UploadPool UploadAct where
  init := UploadPool.Init
  step := UploadPool.step

/-- A pool with one worker and one queue entry, as `upload_workers_init` sets it up. -/
def UploadPool.small : UploadPool where
  workers := []
  nWorkers := 1
  queue := RingQueue.empty uploadQueueMax 0
  qMax := 1
  running := true
  lock := none
  dispatch := .idle
  control := .create 0
  log := []

theorem init_small : UploadPool.small.Init :=
  ⟨rfl, ⟨Nat.le_refl 1, (by decide : 1 ≤ uploadMaxWorkers)⟩, List.length_replicate,
    ⟨rfl, rfl, rfl⟩, ⟨Nat.le_refl 1, (by decide : 1 ≤ uploadQueueMax)⟩, rfl, rfl, rfl, rfl, rfl⟩

end DBServer
