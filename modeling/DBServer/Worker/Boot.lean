import DBServer.Config
import DBServer.Lib.Ledger

/-!
# `worker_init` and what it acquires

`worker_init`, `operator_init`, `reactor_init` and the clean-up behind them
(`worker_destroy`, `operator_shutdown`, `reactor_shutdown`), seen from the descriptors
they open and the blocks they allocate. The calls that can fail are answered by a
`BootAnswers`; each function returns, beside the fields it leaves behind, the ledger of
what it acquired and released, in order. Everything in `operator_t` that owns nothing is
left out.
-/

namespace DBServer.Boot

open Lib

/-- What has to be given back: a descriptor to `close`, a block of the heap to `free`. -/
inductive Resource where
  | fd (n : Int)
  | block (id : Nat)
deriving DecidableEq, Repr

abbrev Uses := List (Use Resource)

/-- `errno` after a failed call. -/
structure Errno where
  code : Nat
  positive : 0 < code

/-- The answers to the calls of `operator_init`, in their order. -/
structure OperatorAnswers where
  clients : Option Nat
  ring : Option Nat
  epollCreate : Except Errno Nat
  events : Option Nat
  timerfdCreate : Option Nat
  timerfdSettime : Bool
  timerAdd : Bool
  eventfd : Option Nat
  wakeupAdd : Bool

/-- The answers to the calls of `worker_init`. -/
structure BootAnswers where
  operators : Option Nat
  threads : Option Nat
  operator : Nat → OperatorAnswers

/-- The part of a `client_t` that owns something. -/
structure SlotHandles where
  isBusy : Bool
  fd : Int
  httpParser : Option Nat

/-- `reactor_t`. -/
structure ReactorHandles where
  epollFd : Int
  events : Option Nat

/-- The part of an `operator_t` that owns something, its `status` and its `id`. -/
structure OperatorHandles where
  id : Nat
  status : OperatorStatus
  ring : Option Nat
  wakeupFd : Int
  timerFd : Int
  clients : Option (Nat × List SlotHandles)
  maxClients : Nat
  reactor : ReactorHandles

/-- `_worker`. -/
structure WorkerHandles where
  status : WorkerStatus
  operators : Option (Nat × List OperatorHandles)
  operatorsThreads : Option Nat
  operatorsCount : Nat
  maxClients : Nat
  threadsStarted : Bool

/-- A `client_t` from `calloc`. -/
def SlotHandles.zeroed : SlotHandles := ⟨false, 0, none⟩

/-- An `operator_t` from `calloc`. -/
def OperatorHandles.zeroed : OperatorHandles :=
  ⟨0, .uninitialized, none, 0, 0, none, 0, ⟨0, none⟩⟩

/-- The static `_worker` before anything has run. -/
def WorkerHandles.zeroed : WorkerHandles := ⟨.inactive, none, none, 0, 0, false⟩

/-! ## Clean-up -/

/-- `free`, of a pointer that may be null. -/
def free (p : Option Nat) : Uses := p.toList.map fun b => .release (.block b)

/-- `spsc_ring_destroy`: what it frees, and the pointer it leaves. -/
def spscRingDestroy (ring : Option Nat) : Option Nat × Uses := (none, free ring)

/-- `if(fd != -1) { socket_shutdown_and_close(fd); fd = -1; }`. -/
def closeOnce (fd : Int) : Int × Uses :=
  if fd ≠ -1 then (-1, [.release (.fd fd)]) else (fd, [])

/-- `client_shutdown` and `db_http_parser_kill` on one slot. -/
def slotShutdown (c : SlotHandles) : Uses :=
  (if c.isBusy then [.release (.fd c.fd)] else []) ++ free c.httpParser

/-- `epoller_shutdown`. -/
def epollerShutdown (epollFd : Int) : Uses :=
  if epollFd < 0 then [] else [.release (.fd epollFd)]

/-- `reactor_shutdown`, which changes neither field. -/
def reactorShutdown (r : ReactorHandles) : Uses := epollerShutdown r.epollFd ++ free r.events

/-- The clean-up of the slot array in `operator_shutdown`. -/
def clientsShutdown (clients : Option (Nat × List SlotHandles)) : Uses :=
  match clients with
  | none => []
  | some (array, slots) => slots.flatMap slotShutdown ++ free (some array)

/-- `operator_shutdown`. -/
def operatorShutdown (op : OperatorHandles) : OperatorHandles × Uses :=
  let ring := spscRingDestroy op.ring
  let wakeup := closeOnce op.wakeupFd
  let timer := closeOnce op.timerFd
  ({ op with
      id := 0
      status := .shutdown
      ring := ring.1
      wakeupFd := wakeup.1
      timerFd := timer.1
      clients := none
      maxClients := 0 },
    ring.2 ++ wakeup.2 ++ timer.2 ++ clientsShutdown op.clients ++ reactorShutdown op.reactor)

/--
`worker_destroy`. `operator_request_shutdown` and `pthread_join`, for threads that have
been started, neither acquire nor release anything.
-/
def workerDestroy (w : WorkerHandles) : WorkerHandles × Uses :=
  let operators := match w.operators with
    | none => []
    | some (_, ops) => ops.flatMap fun op => (operatorShutdown op).2
  ({ w with
      status := .inactive
      operators := none
      operatorsThreads := none
      operatorsCount := 0
      maxClients := 0
      threadsStarted := false },
    operators ++ free (w.operators.map Prod.fst) ++ free w.operatorsThreads)

/-! ## Initialization -/

/-- What a step leaves behind: whether it succeeded, the operator, what it used. -/
abbrev Stage := OperatorHandles → Status × OperatorHandles × Uses

/-- Go on with `g` unless `f` has failed. -/
def Stage.andThen (f g : Stage) : Stage := fun op =>
  match f op with
  | (.success, op', l) => ((g op').1, (g op').2.1, l ++ (g op').2.2)
  | (.failure, op', l) => (.failure, op', l)

/-- The slot array of `operator_init`. -/
def clientsInit (a : OperatorAnswers) (maxClients : Nat) : Stage := fun op =>
  match a.clients with
  | none => (.failure, { op with clients := none }, [])
  | some p =>
    (.success, { op with clients := some (p, List.replicate maxClients .zeroed) },
      [.acquire (.block p)])

/-- The ring of `operator_init`. -/
def ringInit (a : OperatorAnswers) : Stage := fun op =>
  match a.ring with
  | none => (.failure, { op with ring := none }, [])
  | some p => (.success, { op with ring := some p }, [.acquire (.block p)])

/-- `epoller_new`: the descriptor, or `-errno`. -/
def epollerNew : Except Errno Nat → Int × Uses
  | .ok fd => (fd, [.acquire (.fd fd)])
  | .error e => (-e.code, [])

/-- `reactor_init`. -/
def reactorInit (a : OperatorAnswers) : Stage := fun op =>
  let new := epollerNew a.epollCreate
  let r := { op.reactor with epollFd := new.1 }
  if new.1 ≤ 0 then (.failure, { op with reactor := r }, new.2)
  else match a.events with
    | none => (.failure, { op with reactor := { r with events := none } },
        new.2 ++ epollerShutdown new.1)
    | some p => (.success, { op with reactor := { r with events := some p } },
        new.2 ++ [.acquire (.block p)])

/-- `_operator_timer_init`. -/
def timerInit (a : OperatorAnswers) : Stage := fun op =>
  match a.timerfdCreate with
  | none => (.failure, { op with timerFd := -1 }, [])
  | some fd =>
    (if a.timerfdSettime && a.timerAdd then .success else .failure, { op with timerFd := fd },
      [.acquire (.fd fd)])

/-- `_operator_wakeup_init`. -/
def wakeupInit (a : OperatorAnswers) : Stage := fun op =>
  match a.eventfd with
  | none => (.failure, { op with wakeupFd := -1 }, [])
  | some fd =>
    (if a.wakeupAdd then .success else .failure, { op with wakeupFd := fd }, [.acquire (.fd fd)])

/-- The body of `operator_init`, up to its label `fail`. -/
def operatorStages (a : OperatorAnswers) (maxClients : Nat) : Stage :=
  (clientsInit a maxClients).andThen <| (ringInit a).andThen <| (reactorInit a).andThen <|
    (timerInit a).andThen (wakeupInit a)

/-- `operator_init`. -/
def operatorInit (a : OperatorAnswers) (id maxClients : Nat) : Stage := fun op =>
  let body : Status × OperatorHandles × Uses :=
    if maxClients = 0 then (.failure, op, [])
    else operatorStages a maxClients { op with id, maxClients, wakeupFd := -1, timerFd := -1 }
  match body with
  | (.success, op', l) => (.success, { op' with status := .initializing }, l)
  | (.failure, op', l) => (.failure, (operatorShutdown op').1, l ++ (operatorShutdown op').2)

/-- The loop of `worker_init` over the operators from index `idx` on. -/
def initOperators (answers : Nat → OperatorAnswers) (maxClients idx : Nat) :
    List OperatorHandles → Status × List OperatorHandles × Uses
  | [] => (.success, [], [])
  | op :: ops =>
    match operatorInit (answers idx) idx maxClients op with
    | (.failure, op', l) => (.failure, op' :: ops, l)
    | (.success, op', l) =>
      if op'.status ≠ .initializing then (.failure, op' :: ops, l)
      else
        let rest := initOperators answers maxClients (idx + 1) ops
        (rest.1, op' :: rest.2.1, l ++ rest.2.2)

/-- `worker_init`, from what `_compute_operator_count` and `_compute_max_clients` return. -/
def workerInit (a : BootAnswers) (count maxClients : Nat) (w : WorkerHandles) :
    Status × WorkerHandles × Uses :=
  let w := { w with operatorsCount := count }
  if count = 0 then (.failure, w, [])
  else
    let w := { w with maxClients }
    match a.operators with
    | none => (.failure, { w with operators := none }, [])
    | some p =>
      let zeroed := List.replicate count OperatorHandles.zeroed
      match a.threads with
      | none =>
        let w := { w with operators := some (p, zeroed), operatorsThreads := none }
        (.failure, (workerDestroy w).1, .acquire (.block p) :: (workerDestroy w).2)
      | some q =>
        let loop := initOperators a.operator maxClients 0 zeroed
        let w := { w with operators := some (p, loop.2.1), operatorsThreads := some q }
        let used := [.acquire (.block p), .acquire (.block q)] ++ loop.2.2
        match loop.1 with
        | .success => (.success, { w with status := .active }, used)
        | .failure => (.failure, (workerDestroy w).1, used ++ (workerDestroy w).2)

end DBServer.Boot
