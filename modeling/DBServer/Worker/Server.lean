import DBServer.Worker.Dispatcher
import DBServer.Operator.Mailbox

/-!
# The server's threads together

`server_run` from the creation of the listener thread on: the listener accepting and
dispatching, every operator's thread, and the main thread in `worker_run`, in
`_server_wait_clients_drain` and in `worker_destroy`. A step makes at most one access
to what another thread touches, and the steps come in any order. What the outside can
observe of a run is written down in a log.
-/

namespace DBServer

open Lib

variable {H : DbHttp}

/-- `WORKER_OPERATOR_INIT_TIMEOUT_S`, in nanoseconds. -/
def workerOperatorInitTimeout : Nat := 2 * 10 ^ 9

/-- `SERVER_SHUTDOWN_GRACE_S`, in nanoseconds. -/
def serverShutdownGrace : Nat := 10 * 10 ^ 9

/-- Where the listener thread stands. -/
inductive Listening where
  /-- In `reactor_run`. -/
  | waiting
  /-- `_handle_listen_event` behind `accept`. -/
  | accepted (clientFd : Int)
  /-- Before a round's test of the loop condition and of the status. -/
  | testing (clientFd : Int) (scan : Scan)
  /-- Before the load of `active_clients`. -/
  | weighing (clientFd : Int) (scan : Scan)
  /-- Before the load of `queued_clients`. -/
  | comparing (clientFd : Int) (scan : Scan) (active : Nat)
  /-- Before the health test. -/
  | chosen (clientFd : Int) (idx : Nat)
  /-- Before `spsc_ring_push`. -/
  | pushing (clientFd : Int) (idx : Nat)
  /-- Before the increment of `queued_clients`. -/
  | pushed (idx : Nat)
  /-- Before the write of the wakeup. -/
  | counted (idx : Nat)
  /-- At `fail` of `_handle_listen_event`. -/
  | refused (clientFd : Int)
  /-- Behind an access to a destroyed operator. -/
  | crashed
  /-- `listener_run` has returned. -/
  | stopped
deriving DecidableEq, Repr

/-- Where `worker_destroy` stands. -/
inductive Destroying where
  | inactive
  | store (idx : Nat)
  | write (idx : Nat)
  | join (idx : Nat)
  | free
deriving DecidableEq, Repr

/-- Where the main thread stands. -/
inductive Running where
  /-- `worker_run`, before `pthread_create` of an operator. -/
  | create (idx : Nat)
  /-- Behind the failure of operator `upTo`: `operator_request_shutdown` and `pthread_join`. -/
  | undoStore (idx upTo : Nat)
  | undoWrite (idx upTo : Nat)
  | undoJoin (idx upTo : Nat)
  /-- The gate, before the deadline for an operator is taken. -/
  | gate (idx : Nat)
  /-- Before the load of its status. -/
  | poll (idx deadline : Nat)
  /-- Behind a status of `INITIALIZING`, before the clock is read. -/
  | late (idx deadline : Nat)
  /-- `worker_destroy`, at the end of `worker_run` or (`last`) of `server_run`. -/
  | destroy (stage : Destroying) (last : Bool)
  /-- `worker_run` has returned. -/
  | returned (rc : Status)
  /-- `_server_wait_clients_drain`, before an operator's load of `worker_active_clients_total`. -/
  | total (deadline idx sum : Nat)
  /-- Behind a total that is not zero, before the clock is read. -/
  | waiting (deadline : Nat)
  | done
deriving DecidableEq, Repr

/-- What a run shows. -/
inductive ServerEvent where
  /-- `accept` returned the descriptor. -/
  | accepted (fd : Int)
  | closed (fd : Int)
  /-- The descriptor was pushed onto the ring of an operator that had this status. -/
  | pushed (fd : Int) (idx : Nat) (status : OperatorStatus)
  | createFailed (idx : Nat)
  /-- An operator's thread published how its initialization went, and when. -/
  | reported (idx : Nat) (initFailed : Bool) (time : Nat)
  /-- The gate began to wait for the operator. -/
  | awaited (idx : Nat) (time : Nat)
  /-- Someone other than `worker_run` and `worker_destroy` requested a shutdown. -/
  | requested (idx : Nat)
  /-- `worker_run` returned. -/
  | returned (rc : Status)
  /-- `_server_wait_clients_drain` returned before its deadline. -/
  | drained
deriving DecidableEq, Repr

/-- The process. -/
structure Server (H : DbHttp) where
  worker : Worker H
  listener : Listening
  main : Running
  /-- `CLOCK_MONOTONIC`, in nanoseconds. -/
  clock : Nat
  log : List ServerEvent

/-- A step of one of the threads, or of what surrounds them. -/
inductive ServerAct (H : DbHttp) where
  | accept (fd : Int)
  | listener
  /-- The listener leaves its loop, on a signal. -/
  | stop
  | operator (idx : Nat) (w : Answers H)
  /-- The main thread; `created` is what `pthread_create` answers. -/
  | main (created : Bool)
  /-- Time passes. -/
  | tick (n : Nat)
  /-- `operator_request_shutdown`, called by someone else. -/
  | requestStore (idx : Nat)
  | requestWrite (idx : Nat)

/-- The store of `operator_request_shutdown`. -/
def Operator.shutdownRequested (op : Operator H) : Operator H := { op with status := .shutdown }

/-- The descriptors `operator_shutdown` closes for its clients. -/
def Operator.leftOpen (op : Operator H) : List Int :=
  op.clients.flatMap fun c => (clientShutdown c.cli).2

namespace Server

/-- The operators with their threads. -/
def operators (s : Server H) : List (OperatorThread H) := s.worker.operators

/-- Change one operator. -/
def update (idx : Nat) (f : Operator H → Operator H) (s : Server H) : Server H :=
  { s with worker := s.worker.update idx f }

/-- Replace an operator and its thread. -/
def setThread (idx : Nat) (t : OperatorThread H) (s : Server H) : Server H :=
  { s with worker := { s.worker with operators := s.worker.operators.set idx t } }

/-- Note down what happened. -/
def note (es : List ServerEvent) (s : Server H) : Server H := { s with log := s.log ++ es }

/-- What `operator_shutdown` closes, operator by operator. -/
def leftOpen (s : Server H) : List Int := s.operators.flatMap fun t => t.state.leftOpen

/-- The listener goes on. -/
def listen (l : Listening) (s : Server H) : Server H := { s with listener := l }

/-- The main thread goes on. -/
def goTo (m : Running) (s : Server H) : Server H := { s with main := m }

/-- The kernel hands out a descriptor that is not open. -/
def Fresh (s : Server H) (fd : Int) : Prop :=
  s.log.count (.accepted fd) = s.log.count (.closed fd) ∧
    ∀ t ∈ s.operators, t.state.wakeupCtx.fd ≠ fd ∧ t.state.timerCtx.fd ≠ fd

instance (s : Server H) (fd : Int) : Decidable (s.Fresh fd) := by
  unfold Fresh; infer_instance

/-- The listener thread between `accept` and the end of `_handle_listen_event`. -/
def stepListener (s : Server H) : Option (Server H) :=
  match s.listener with
  | .waiting | .crashed | .stopped => none
  | .accepted fd =>
      some (s.listen (if s.worker.status = .active then .testing fd Scan.start else .refused fd))
  | .testing fd scan =>
      match s.operators[scan.idx]? with
      | none =>
          some (s.listen (match scan.result with
            | some idx => .chosen fd idx
            | none => .refused fd))
      | some t =>
          some (s.listen
            (if t.state.status = .full then .testing fd scan.next else .weighing fd scan))
  | .weighing fd scan =>
      match s.operators[scan.idx]? with
      | none => some (s.listen .crashed)
      | some t => some (s.listen (.comparing fd scan t.state.activeClients))
  | .comparing fd scan active =>
      match s.operators[scan.idx]? with
      | none => some (s.listen .crashed)
      | some t =>
          match scan.compare s.worker.maxClients active t.state.queuedClients with
          | .inl idx => some (s.listen (.chosen fd idx))
          | .inr scan =>
              some { s.listen (.testing fd scan) with
                worker := if scan.saturated s.operators.length then { s.worker with status := .full }
                  else s.worker }
  | .chosen fd idx =>
      match s.operators[idx]? with
      | none => some (s.listen .crashed)
      | some t => some (s.listen (if t.state.healthy then .pushing fd idx else .refused fd))
  | .pushing fd idx =>
      match s.operators[idx]? with
      | none => some (s.listen .crashed)
      | some t =>
          match t.state.push fd with
          | none => some (s.listen (.refused fd))
          | some op =>
              some (((s.update idx fun _ => op).listen (.pushed idx)).note
                [.pushed fd idx t.state.status])
  | .pushed idx =>
      match s.operators[idx]? with
      | none => some (s.listen .crashed)
      | some _ => some ((s.update idx Operator.enqueued).listen (.counted idx))
  | .counted idx =>
      match s.operators[idx]? with
      | none => some (s.listen .crashed)
      | some _ => some ((s.update idx Operator.wake).listen .waiting)
  | .refused fd => some ((s.listen .waiting).note [.closed fd])

/-- `worker_run` returns. -/
def runReturns (rc : Status) (s : Server H) : Server H := (s.goTo (.returned rc)).note [.returned rc]

/-- `operator_shutdown` of every operator, and the two arrays freed. -/
def freed (s : Server H) : Server H :=
  { s with worker := ⟨s.worker.status, 0, false, []⟩ }.note (s.leftOpen.map .closed)

/--
`worker_destroy`. What is behind the last join is one step: no operator's thread is left,
and whatever a dispatch in flight did to an operator from there on would go to destroyed
memory.
-/
def stepDestroy (last : Bool) (s : Server H) : Destroying → Option (Server H)
  | .inactive =>
      some ({ s with worker := { s.worker with status := .inactive } }.goTo
        (.destroy (if s.worker.threadsStarted then .store 0 else .free) last))
  | .store idx =>
      some (match s.operators[idx]? with
        | none => s.goTo (.destroy (.join 0) last)
        | some _ => (s.update idx Operator.shutdownRequested).goTo (.destroy (.write idx) last))
  | .write idx => some ((s.update idx Operator.wake).goTo (.destroy (.store (idx + 1)) last))
  | .join idx =>
      match s.operators[idx]? with
      | none => some (s.goTo (.destroy .free last))
      | some t => if t.code = [] then some (s.goTo (.destroy (.join (idx + 1)) last)) else none
  | .free => some (if last then s.freed.goTo .done else s.freed.runReturns .failure)

/-- The main thread. -/
def stepMain (created : Bool) (s : Server H) : Option (Server H) :=
  match s.main with
  | .create idx =>
      some (match s.operators[idx]? with
        | none => { s with worker := { s.worker with threadsStarted := true } }.goTo (.gate 0)
        | some t =>
            if created then (s.setThread idx ⟨t.state, [.initParsers]⟩).goTo (.create (idx + 1))
            else (s.goTo (.undoStore 0 idx)).note [.createFailed idx])
  | .undoStore idx upTo =>
      some (if idx < upTo then
        (s.update idx Operator.shutdownRequested).goTo (.undoWrite idx upTo)
      else s.runReturns .failure)
  | .undoWrite idx upTo => some ((s.update idx Operator.wake).goTo (.undoJoin idx upTo))
  | .undoJoin idx upTo =>
      if (s.operators[idx]?.map fun t => t.code).getD [] = [] then
        some (s.goTo (.undoStore (idx + 1) upTo))
      else none
  | .gate idx =>
      some (match s.operators[idx]? with
        | none => s.runReturns .success
        | some _ =>
            (s.goTo (.poll idx (s.clock + workerOperatorInitTimeout))).note [.awaited idx s.clock])
  | .poll idx deadline =>
      match s.operators[idx]? with
      | none => none
      | some t =>
          some (s.goTo (
            if t.state.status = .initializing then .late idx deadline
            else if t.state.status = .active then .gate (idx + 1)
            else .destroy .inactive false))
  | .late idx deadline =>
      some (s.goTo (if deadline ≤ s.clock then .destroy .inactive false else .poll idx deadline))
  | .destroy stage last => s.stepDestroy last stage
  | .returned _ =>
      if s.listener = .stopped then some (s.goTo (.total (s.clock + serverShutdownGrace) 0 0))
      else none
  | .total deadline idx sum =>
      some (match s.operators[idx]? with
        | some t => s.goTo (.total deadline (idx + 1) ((sum + t.state.activeClients) % 2 ^ 32))
        | none =>
            if sum = 0 then (s.goTo (.destroy .inactive true)).note [.drained]
            else s.goTo (.waiting deadline))
  | .waiting deadline =>
      some (s.goTo (
        if deadline ≤ s.clock then .destroy .inactive true else .total deadline 0 0))
  | .done => none

/-- The descriptors a step of an operator's thread passed to `close`. -/
def closedBy (t t' : OperatorThread H) : List Int := t'.state.closed.drop t.state.closed.length

/-- What a step of an operator's thread shows. -/
def shown (idx clock : Nat) (t t' : OperatorThread H) : List ServerEvent :=
  (match t.code with
    | .publish initFailed :: _ =>
        if t.state.status = .initializing then [.reported idx initFailed clock] else []
    | _ => []) ++ (closedBy t t').map .closed

/-- One step. -/
def step (s : Server H) : ServerAct H → Option (Server H)
  | .accept fd =>
      if s.listener = .waiting ∧ 0 ≤ fd ∧ s.Fresh fd then
        some ((s.listen (.accepted fd)).note [.accepted fd])
      else none
  | .listener => s.stepListener
  | .stop => if s.listener = .waiting then some (s.listen .stopped) else none
  | .operator idx w =>
      s.operators[idx]?.bind fun t =>
        (t.step Operator.exec w).map fun t' => (s.setThread idx t').note (shown idx s.clock t t')
  | .main created => s.stepMain created
  | .tick n => some { s with clock := s.clock + n }
  | .requestStore idx =>
      if idx < s.operators.length then
        some ((s.update idx Operator.shutdownRequested).note [.requested idx])
      else none
  | .requestWrite idx =>
      if idx < s.operators.length then some (s.update idx Operator.wake) else none

end Server

/-- A server behind a successful `worker_init`, its listener thread just created. -/
structure ServerInit (s : Server H) : Prop where
  status : s.worker.status = .active
  maxClients : MaxClients s.worker.maxClients
  threadsStarted : s.worker.threadsStarted = false
  count : 1 ≤ s.operators.length ∧ s.operators.length ≤ 255
  operators : ∀ t ∈ s.operators, OperatorInit t.state ∧ t.code = [] ∧
    t.state.maxClients = s.worker.maxClients ∧ RingCapacity t.state.ringCapacity
  /-- No two of the operators' own descriptors are the same. -/
  fds : (s.operators.flatMap fun t => [t.state.timerCtx.fd, t.state.wakeupCtx.fd]).Nodup
  listener : s.listener = .waiting
  main : s.main = .create 0
  log : s.log = []

/-- `server_run`. -/
def server (H : DbHttp) : Machine (Server H) (ServerAct H) where
  init := ServerInit
  step := Server.step

/-! ## A small server -/

/-- An operator with descriptors of its own. -/
def Operator.numbered (slots id : Nat) : Operator DbHttp.small :=
  { Operator.small slots with
    id := id
    wakeupCtx := ⟨2 * id + 5, some id, some .operatorWakeup⟩
    timerCtx := ⟨2 * id + 4, some id, some .operatorTimer⟩
    interest := [⟨2 * id + 4, .timer, 0⟩, ⟨2 * id + 5, .wakeup, 1⟩] }

theorem operatorInit_numbered (id : Nat) : OperatorInit (Operator.numbered 8 id) := by
  refine ⟨rfl, ⟨Nat.succ_pos 7, (by decide : 8 < 2 ^ 32)⟩, rfl, rfl, rfl, rfl, rfl, ⟨rfl, rfl⟩,
    ⟨rfl, rfl⟩, ?_,
    rfl, rfl, rfl, rfl⟩
  simp only [Operator.numbered]
  omega

/-- A server with as many operators of eight slots. -/
def Server.small (n : Nat) : Server DbHttp.small where
  worker := ⟨.active, 8, false, (List.range n).map fun id => ⟨Operator.numbered 8 id, []⟩⟩
  listener := .waiting
  main := .create 0
  clock := 0
  log := []

theorem serverInit_small {n : Nat} (h : n = 1 ∨ n = 2) : ServerInit (Server.small n) := by
  refine ⟨rfl, ⟨le_rfl, (by decide : 8 ≤ 255)⟩, rfl, ?_, ?_, ?_, rfl, rfl, rfl⟩
  · simp only [Server.operators, Server.small, List.length_map, List.length_range]
    omega
  · intro t ht
    obtain ⟨id, _, rfl⟩ := List.mem_map.mp ht
    exact ⟨operatorInit_numbered id, rfl, rfl, (by decide : RingCapacity 8)⟩
  · rcases h with rfl | rfl <;> decide

/-- The main thread creates `n` threads and moves on. -/
def Server.creates (n : Nat) : List (ServerAct DbHttp.small) :=
  List.replicate (n + 1) (.main true)

/-- As many steps of the listener. -/
def Server.listens (n : Nat) : List (ServerAct DbHttp.small) := List.replicate n .listener

/-- As many steps of an operator's thread, `epoll_wait` having a batch to report. -/
def Server.operates (idx n : Nat) (batch : List Event) : List (ServerAct DbHttp.small) :=
  List.replicate n (.operator idx (Answers.smooth batch 0))

end DBServer
