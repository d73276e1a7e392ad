import DBServer.Client.Handle

/-!
# One connection of an upload worker

`_drive_upload`: adopt the descriptor, call `client_handle` whenever there is something to
read, until it fails, the peer stays silent for too long, or the connection is too old.
What the loop does with a verdict is to go on or not; the verdicts themselves are
collected here so that two connections can be compared by them.
-/

namespace DBServer

open Lib

variable {H : DbHttp}

/-- The loop; `verdicts` are the results of `client_handle` so far. -/
def driveLoop (E : Env) (threadId deadline : Nat) :
    Nat → List Status → Conn H → Option (List Status) × Conn H
  | 0, _, c => (none, c)
  | fuel + 1, verdicts, c =>
      if deadline ≤ E.mono c.tick then (some verdicts, c.next)
      else
        match E.pollIn c.tick with
        | .timeout | .error => (some verdicts, c.next)
        | .eintr => driveLoop E threadId deadline fuel verdicts c.next
        | .ready =>
            andThen (clientHandle E fuel threadId c.next) fun
              | .failure, c => (some (verdicts ++ [.failure]), c)
              | .success, c => driveLoop E threadId deadline fuel (verdicts ++ [.success]) c

/-- A worker's client once `client_adopt_fd` is through, on a connection with that peer. -/
def adoptedFd (E : Env) (fd : Int) (peer : Nat × Nat) (cli : Client H) : Conn H :=
  (Conn.fresh (clientAdoptFd fd peer (timeHelperGetNow (E.wall 0)) cli)).next

/-- `_drive_upload`, up to its `client_release_fd`. -/
def driveUpload (E : Env) (threadId fuel : Nat) (fd : Int) (peer : Nat × Nat) (cli : Client H) :
    Option (List Status) × Conn H :=
  let c := adoptedFd E fd peer cli
  driveLoop E threadId (E.mono c.tick + workerUploadMaxWallS * 1000) fuel [] c.next

/-- The client of an upload worker: set up by `_worker_main`, then one connection after another. -/
inductive WorkerClient (threadId : Nat) : Client H → Prop where
  | start {p : H.Parser} :
      WorkerClient threadId { Client.zeroed H with ctx := ⟨-1, none, none⟩, httpParser := some p }
  | served {E : Env} {fuel : Nat} {fd : Int} {peer : Nat × Nat} {cli : Client H}
      {verdicts : List Status} {c : Conn H} : WorkerClient threadId cli → 0 ≤ fd →
      driveUpload E threadId fuel fd peer cli = (some verdicts, c) →
      WorkerClient threadId (clientReleaseFd c.cli).1

end DBServer
