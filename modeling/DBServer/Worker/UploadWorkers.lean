import DBServer.Worker.Drive
import DBServer.Worker.UploadPool

/-!
# The upload pool with its connections

The pool's threads and what they do to their connections, put together. While a worker is in
`_drive_upload` it neither has the mutex nor looks at the pool: it goes on with its
connection, round by round, and comes back to the pool when the call comes back. Nothing in
`upload_workers_shutdown` reaches into that.
-/

namespace DBServer

open Lib

variable {H : DbHttp}

/-- A connection in a worker's hands: what the world answers, and the rounds it has had. -/
structure Drive where
  world : Env
  fd : Int
  peer : Nat × Nat
  rounds : Nat

/-- `_drive_upload` of that connection, as far as its rounds go. -/
def Drive.outcome (threadId : Nat) (cli : Client H) (d : Drive) :
    Option (List Status) × Conn H :=
  driveUpload d.world threadId d.rounds d.fd d.peer cli

/-- The pool, its workers' clients, and the connections in their hands. -/
structure UploadWorkers (H : DbHttp) where
  pool : UploadPool
  clients : Nat → Client H
  drives : Nat → Option Drive

/-- A step of the pool, with the world of a connection taken in it, or a round of a worker's. -/
inductive UploadWorkersAct where
  | pool (a : UploadAct) (world : Env) (peer : Nat × Nat)
  | round (idx : Nat)

/-- A worker that has just taken a connection has it before it. -/
def UploadWorker.inHand (world : Env) (peer : Nat × Nat) : UploadWorker → Option Drive
  | .driving fd => some ⟨world, fd, peer, 0⟩
  | _ => none

namespace UploadWorkers

/-- The worker is in `_drive_upload`, and the call has not come back. -/
def atWork (base idx : Nat) (s : UploadWorkers H) : Bool :=
  (s.drives idx).any fun d => (d.outcome (base + idx) (s.clients idx)).1.isNone

/-- The worker's client behind what it had in hand. -/
def clientAfter (base idx : Nat) (s : UploadWorkers H) : Client H :=
  ((s.drives idx).map fun d =>
    (clientReleaseFd (d.outcome (base + idx) (s.clients idx)).2.cli).1).getD (s.clients idx)

/-- A worker has gone on in the pool. -/
def follow (base idx : Nat) (world : Env) (peer : Nat × Nat) (s : UploadWorkers H)
    (p : UploadPool) : UploadWorkers H where
  pool := p
  clients := Function.update s.clients idx (s.clientAfter base idx)
  drives := Function.update s.drives idx (p.workers[idx]?.bind (UploadWorker.inHand world peer))

/-- One step; the worker `idx` is thread `base + idx` to `DB_app`. -/
def step (base : Nat) (s : UploadWorkers H) : UploadWorkersAct → Option (UploadWorkers H)
  | .pool (.worker idx parser) world peer =>
      if s.atWork base idx then none
      else (s.pool.step (.worker idx parser)).map (s.follow base idx world peer)
  | .pool a _ _ => (s.pool.step a).map fun p => { s with pool := p }
  | .round idx => (s.drives idx).map fun d =>
      { s with drives := Function.update s.drives idx (some { d with rounds := d.rounds + 1 }) }

end UploadWorkers

/-- The upload pool with its connections, from its creation on. -/
def uploadWorkers (H : DbHttp) (base : Nat) : Machine (UploadWorkers H) UploadWorkersAct where
  init s := s.pool.Init ∧ (∀ idx, s.drives idx = none) ∧
    ∀ idx, ∃ p, s.clients idx =
      { Client.zeroed H with ctx := ⟨-1, none, none⟩, httpParser := some p }
  step := UploadWorkers.step base

end DBServer
