import DBServer.Operator.Thread

/-!
# Choosing an operator

`_least_loaded_operator` and `worker_dispatch_to_operator` of `worker.c`, as they run
while nobody else touches the operators. The rounds of the scan are functions of what
they read, so that `Worker.Server` can take them one load at a time.
-/

namespace DBServer

open Lib

variable {H : DbHttp}

/-- `UINT_MAX`, and with it "no candidate yet". -/
def uintMax : Nat := 2 ^ 32 - 1

/-- `_worker`, each operator together with its thread. -/
structure Worker (H : DbHttp) where
  status : WorkerStatus
  maxClients : Nat
  threadsStarted : Bool
  operators : List (OperatorThread H)

/-- Change one operator, under its thread. -/
def Worker.update (idx : Nat) (f : Operator H → Operator H) (w : Worker H) : Worker H :=
  { w with operators := w.operators.modify idx fun t => ⟨f t.state, t.code⟩ }

/-! ## `_least_loaded_operator` -/

/-- `i`, `best_idx` and `best_load`. -/
structure Scan where
  idx : Nat
  bestIdx : Nat
  bestLoad : Nat
deriving DecidableEq, Repr

namespace Scan

/-- Before the first round. -/
def start : Scan := ⟨0, 0, uintMax⟩

/-- `continue`. -/
def next (s : Scan) : Scan := { s with idx := s.idx + 1 }

/-- A round behind the status test: the operator is chosen blindly, or it is compared. -/
def compare (maxClients active queued : Nat) (s : Scan) : Nat ⊕ Scan :=
  let load := (active + queued) % 2 ^ 32
  if load < maxClients / 10 then .inl s.idx
  else if load < s.bestLoad then .inr ⟨s.idx + 1, s.idx, load⟩
  else .inr s.next

/-- The test at the end of a round, `count` being the number of operators. -/
def saturated (count : Nat) (s : Scan) : Bool := s.idx == count && s.bestLoad == uintMax

/-- What is returned behind the loop. -/
def result (s : Scan) : Option Nat := if s.bestLoad = uintMax then none else some s.bestIdx

end Scan

/-- The rounds for the operators that are left: the choice, and whether all were found to be full. -/
def scanOperators (maxClients count : Nat) :
    List (OperatorThread H) → Bool → Scan → Option Nat × Bool
  | [], full, s => (s.result, full)
  | t :: ts, full, s =>
      if t.state.status = .full then scanOperators maxClients count ts full s.next
      else
        match s.compare maxClients t.state.activeClients t.state.queuedClients with
        | .inl idx => (some idx, full)
        | .inr s => scanOperators maxClients count ts (full || s.saturated count) s

/-- `_least_loaded_operator`. -/
def leastLoadedOperator (w : Worker H) : Option Nat × Worker H :=
  let out := scanOperators w.maxClients w.operators.length w.operators false Scan.start
  (out.1, if out.2 then { w with status := .full } else w)

/-! ## `worker_dispatch_to_operator` -/

/-- Its test of the chosen operator; an operator has its ring as long as it has its wakeup. -/
def Operator.healthy (op : Operator H) : Bool := op.wakeupCtx.fd != -1

/-- `spsc_ring_push`; `none` is a full ring. -/
def Operator.push (fd : Int) (op : Operator H) : Option (Operator H) :=
  if op.ring.length < op.ringCapacity then some { op with ring := op.ring ++ [fd] } else none

/-- `atomic_fetch_add(&op->queued_clients, 1)`. -/
def Operator.enqueued (op : Operator H) : Operator H :=
  { op with queuedClients := incr32 op.queuedClients }

/-- `write` to the wakeup eventfd. -/
def Operator.wake (op : Operator H) : Operator H := { op with wakeups := op.wakeups + 1 }

/-- `worker_dispatch_to_operator`. -/
def workerDispatchToOperator (clientFd : Int) (w : Worker H) : Status × Worker H :=
  if clientFd < 0 ∨ w.status ≠ .active then (.failure, w)
  else
    match leastLoadedOperator w with
    | (none, w) => (.failure, w)
    | (some idx, w) =>
        match w.operators[idx]? with
        | none => (.failure, w)
        | some t =>
            if !t.state.healthy then (.failure, w)
            else
              match t.state.push clientFd with
              | none => (.failure, w)
              | some op => (.success, w.update idx fun _ => op.enqueued.wake)

/-- How many of the descriptors are dispatched before the first refusal, nobody draining. -/
def dispatchedBeforeRefusal : List Int → Worker H → Nat
  | [], _ => 0
  | fd :: fds, w =>
      match workerDispatchToOperator fd w with
      | (.failure, _) => 0
      | (.success, w) => dispatchedBeforeRefusal fds w + 1

/-! ## The configuration -/

/-- `_compute_ring_capacity`: what it lets through, and its default. -/
def RingCapacity (n : Nat) : Prop := 8 ≤ n ∧ n ≤ 1024 ∧ n &&& (n - 1) = 0

instance (n : Nat) : Decidable (RingCapacity n) := by unfold RingCapacity; infer_instance

/-- `_compute_max_clients`. -/
def MaxClients (n : Nat) : Prop := 8 ≤ n ∧ n ≤ 255

end DBServer
