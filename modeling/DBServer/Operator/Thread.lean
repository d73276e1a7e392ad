import DBServer.Operator.Operator
import DBServer.Lib.Stack

/-!
# The thread of an operator

`operator_thread`, `reactor_run` and the reactor callbacks of `operator.c`, cut into
instructions. An instruction makes at most one access to what other threads touch
(the status, a counter, the ring, the wakeup eventfd) and does the thread's own work
up to the next one. Within a handler the next access is pushed in front of the rest
of the batch, and the rest of the batch in front of the next check of the loop
condition.

The results of the callbacks are left out: `reactor_run` hands on the last one, and
the loop only logs it.
-/

namespace DBServer

open Lib

variable {H : DbHttp}

/-- Where an operator's thread can be interrupted, under the name of what comes next. -/
inductive Instr where
  /-- The loop over `db_http_parser_init`. -/
  | initParsers
  /-- The compare-and-swap behind it. -/
  | publish (initFailed : Bool)
  /-- `op->status == OPERATOR_STATUS_ACTIVE` of the loop condition. -/
  | loopActive
  /-- `op->status == OPERATOR_STATUS_FULL` of the loop condition. -/
  | loopFull
  /-- `epoller_wait`. -/
  | wait
  /-- What is left of the batch. -/
  | events (es : List Event)
  /-- `socket_drain` of the wakeup handler. -/
  | drainWakeup
  /-- `spsc_ring_pop`; `first` before the handler's first pop. -/
  | pop (first : Bool)
  /-- `atomic_fetch_sub(&op->queued_clients, 1)`. -/
  | dequeued (fd : Int)
  /-- `op->status != OPERATOR_STATUS_ACTIVE` of the wakeup handler. -/
  | gate (fd : Int)
  /-- `_operator_add_client`. -/
  | addClient (fd : Int)
  /-- The tests of `_operator_status_update`. -/
  | statusUpdate
  /-- Its store. -/
  | storeStatus (status : OperatorStatus)
  /-- `_operator_remove_client_by_fd`. -/
  | removeByFd (fd : Int)
  /-- `_clean_clients`, from a slot on. -/
  | cleanClients (idx now : Nat)
  /-- A store through a `NULL` pointer, or the call of one. -/
  | crash
deriving DecidableEq

/-- What the system answers to the calls of one instruction. -/
structure Answers (H : DbHttp) where
  /-- `db_http_parser_init` and `db_http_parser_set_stream_gate`, slot by slot. -/
  parser : Nat → Option H.Parser
  /-- `epoll_wait`; no event at all is an error. -/
  batch : List Event
  /-- Whether the timerfd could be read. -/
  timerRead : Bool
  /-- `socket_client_init`. -/
  clientInit : Bool
  /-- `epoll_ctl(EPOLL_CTL_ADD)`, apart from its refusal of a descriptor it already has. -/
  epollAdd : Bool
  /-- `socket_get_peer_ipv4`. -/
  peer : Nat × Nat
  /-- `time(NULL)`. -/
  wall : Int
  /-- The world of a client's handler, and a bound on the handler's rounds. -/
  env : Env
  fuel : Nat

namespace Operator

/-- The parsers of the slots from `idx` on: whether one failed, and the slots. -/
def parserInit (parser : Nat → Option H.Parser) : Nat → List (Conn H) → Bool × List (Conn H)
  | _, [] => (false, [])
  | idx, c :: cs =>
      match parser idx with
      | none => (true, c :: cs)
      | some p =>
          let rest := parserInit parser (idx + 1) cs
          (rest.1, { c with cli := { c.cli with httpParser := some p } } :: rest.2)

/-- The kernel's side of a batch: registered descriptors, each once, and only what is ready. -/
def Reports (op : Operator H) (batch : List Event) : Prop :=
  (batch.map fun e => e.reg).Nodup ∧
    ∀ e ∈ batch, e.reg ∈ op.interest ∧ (e.reg.key = .wakeup → 0 < op.wakeups)

instance (op : Operator H) (batch : List Event) : Decidable (op.Reports batch) := by
  unfold Reports; infer_instance

/-- `_operator_add_client`. -/
def addClient (op : Operator H) (fd : Int) (w : Answers H) : Operator H × List Instr :=
  match op.getAvailableClientSlot with
  | none => (op, [.statusUpdate])
  | some idx =>
      if w.clientInit = false then (op, [])
      else
        let op := op.setSlot idx (op.aim fd)
        if w.epollAdd ∧ ∀ r ∈ op.interest, r.fd ≠ fd then
          (timerUpdate { op.setSlot idx (adopt w.peer (timeHelperGetNow w.wall)) with
            interest := op.interest ++ [⟨fd, .client idx, op.stamps⟩]
            stamps := op.stamps + 1
            activeClients := incr32 op.activeClients },
           [.statusUpdate, .pop false])
        else
          -- the slot is not busy yet, so `client_shutdown` leaves it as it is
          (op.setSlot idx shutSlot, [])

/-- `_operator_remove_client_by_fd`. -/
def removeClientByFd (op : Operator H) (fd : Int) : Operator H × List Instr :=
  match op.slotOf fd with
  | none => (op, [])
  | some idx => ((op.dropSlot idx).timerUpdate, [.statusUpdate])

/-- `_operator_handle_client_event`; `none` while the client's own handler is still running. -/
def handleClientEvent (op : Operator H) (idx : Nat) (w : Answers H) :
    Option (Operator H × List Instr) :=
  match op.clients[idx]? with
  | none => some (op, [])
  | some c =>
      if c.cli.ctx.owner.isNone ∨ c.cli.isBusy = false then some (op, [])
      else
        match if c.cli.draining then responseWriterResume w.env w.fuel c
          else clientHandle w.env w.fuel op.id c with
        | (none, _) => none
        | (some .success, c) => some (op.setSlot idx fun _ => c, [])
        | (some .failure, c) => some (op.setSlot idx fun _ => c, [.removeByFd c.cli.ctx.fd])

/-- The tests and stores of `_operator_status_update`. -/
def statusUpdate (op : Operator H) : List Instr :=
  if op.maxClients ≤ op.activeClients then
    if op.status ≠ .full then [.storeStatus .full] else []
  else if op.status ≠ .active then [.storeStatus .active] else []

/-- One event of a batch; `es` are the ones behind it. -/
def handleEvent (op : Operator H) (e : Event) (es : List Event) (w : Answers H) :
    Option (Operator H × List Instr) :=
  match reactorDispatch true (op.ctx e.reg.key) e.events with
  | .close fd => some (op, if fd = -1 then [] else [.removeByFd fd])
  | .crash => some (op, [.crash])
  | .call .operatorWakeup _ => some (op, [.drainWakeup, .events es])
  | .call .operatorTimer _ =>
      if w.timerRead then
        some (op.timerUpdate, [.cleanClients 0 (timeHelperGetNow w.wall), .events es])
      else some (op, [.events es])
  | .call .operatorClient _ =>
      match e.reg.key with
      | .client idx =>
          (op.handleClientEvent idx w).map fun r => (r.1, r.2 ++ [.events es])
      | _ => none
  | .call _ _ => none

/-- One slot of `_clean_clients`. -/
def cleanClients (op : Operator H) (idx now : Nat) : Operator H × List Instr :=
  if idx < op.maxClients then
    if (op.clients[idx]?.map (expired now)).getD false then
      (op.dropSlot idx, [.cleanClients (idx + 1) now])
    else (op, [.cleanClients (idx + 1) now])
  else (op, [])

/-- One instruction of `operator_thread`. -/
def exec (op : Operator H) : Instr → Answers H → Option (Operator H × List Instr)
  | .initParsers, w =>
      let slots := parserInit w.parser 0 op.clients
      some ({ op with clients := slots.2 }, [.publish slots.1])
  | .publish initFailed, _ =>
      some <|
        if op.status = .initializing then
          if initFailed then ({ op with status := .initFailed }, [])
          else ({ op with status := .active }, [.loopActive])
        else (op, [])
  | .loopActive, _ => some (op, if op.status = .active then [.wait] else [.loopFull])
  | .loopFull, _ => some (op, if op.status = .full then [.wait] else [])
  | .wait, w =>
      if op.Reports w.batch then some (op, [.events w.batch, .loopActive]) else none
  | .events [], _ => some (op, [])
  | .events (e :: es), w => op.handleEvent e es w
  | .drainWakeup, _ => some ({ op with wakeups := op.wakeups - 1 }, [.pop true])
  | .pop _, _ =>
      match op.ring with
      | [] => some (op, [])
      | fd :: ring => some ({ op with ring := ring }, [.dequeued fd])
  | .dequeued fd, _ => some ({ op with queuedClients := decr32 op.queuedClients }, [.gate fd])
  | .gate fd, _ => some (op, if op.status = .active then [.addClient fd] else [])
  | .addClient fd, w => some (op.addClient fd w)
  | .statusUpdate, _ => some (op, op.statusUpdate)
  | .storeStatus status, _ => some ({ op with status := status }, [])
  | .removeByFd fd, _ => some (op.removeClientByFd fd)
  | .cleanClients idx now, _ => some (op.cleanClients idx now)
  | .crash, _ => none

end Operator

/-- An operator's thread. -/
abbrev OperatorThread (H : DbHttp) := Thread (Operator H) Instr

/-- `operator_thread` at its start. -/
def operatorThread (op : Operator H) : OperatorThread H := ⟨op, [.initParsers]⟩

end DBServer
