import DBServer.Client.Handle
import DBServer.Reactor

/-!
# An operator and its slots

`operator_t` and the functions of `operator.c` that stay on the operator's own
thread: finding a slot, filling and freeing one, and the housekeeping timer. What
other threads read or write as well (`status`, the two counters, the ring and the
wakeup counter) is stepped through one access at a time in `Operator.Thread`.
-/

namespace DBServer

open Lib

variable {H : DbHttp}

/-- The contexts registered with an operator's reactor, by where they are embedded. -/
inductive CtxKey where
  | wakeup
  | timer
  | client (idx : Nat)
deriving DecidableEq, Repr

/-- One entry of the interest list of the operator's `epoll`; `stamp` tells a reused one apart. -/
structure Registration where
  fd : Int
  key : CtxKey
  stamp : Nat
deriving DecidableEq, Repr

/-- One entry of a batch, with the registration it was reported for. -/
structure Event where
  reg : Registration
  events : Nat
deriving DecidableEq, Repr

/-- `operator_t`. -/
structure Operator (H : DbHttp) where
  id : Nat
  status : OperatorStatus
  maxClients : Nat
  clients : List (Conn H)
  activeClients : Nat
  queuedClients : Nat
  /-- The mailbox, the oldest descriptor first. -/
  ring : List Int
  ringCapacity : Nat
  wakeupCtx : FdCtx
  /-- The counter of the wakeup eventfd. -/
  wakeups : Nat
  timerCtx : FdCtx
  timerPeriod : Nat
  /-- The interest list of the reactor's `epoll`. -/
  interest : List Registration
  /-- How many registrations there have been. -/
  stamps : Nat
  /-- The client descriptors passed to `close`, in order. -/
  closed : List Int

namespace Operator

/-- The context behind a key. A slot's context is part of the slot. -/
def ctx (op : Operator H) : CtxKey → FdCtx
  | .wakeup => op.wakeupCtx
  | .timer => op.timerCtx
  | .client idx => (op.clients[idx]?.map fun c => c.cli.ctx).getD ⟨0, none, none⟩

/-- `_get_available_client_slot`. -/
def getAvailableClientSlot (op : Operator H) : Option Nat :=
  op.clients.findIdx? fun c => !c.cli.isBusy

/-- The search of `_operator_remove_client_by_fd`. -/
def slotOf (op : Operator H) (fd : Int) : Option Nat :=
  op.clients.findIdx? fun c => c.cli.isBusy && c.cli.ctx.fd == fd

/-- Change one slot. -/
def setSlot (op : Operator H) (idx : Nat) (f : Conn H → Conn H) : Operator H :=
  { op with clients := op.clients.modify idx f }

/-- `_operator_set_timer`. -/
def setTimer (op : Operator H) (period : Nat) : Operator H :=
  if op.timerCtx.fd < 0 ∨ op.timerPeriod = period then op else { op with timerPeriod := period }

/-- `_operator_timer_update`. -/
def timerUpdate (op : Operator H) : Operator H :=
  if 0 < op.activeClients ∧ op.timerPeriod ≠ operatorTimerPeriodShort then
    op.setTimer operatorTimerPeriodShort
  else if op.activeClients = 0 ∧ op.timerPeriod ≠ operatorTimerPeriodLong then
    op.setTimer operatorTimerPeriodLong
  else op

/-- The test of `_clean_clients` on one slot. -/
def expired (now : Nat) (c : Conn H) : Bool :=
  c.cli.isBusy && decide ((if c.cli.requestCount = 0 then workerClientTimeoutShort
    else workerClientTimeoutLong) < sub64 now c.cli.lastActivity)

/-- `client_shutdown` of a slot. -/
def shutSlot (c : Conn H) : Conn H := { c with cli := (clientShutdown c.cli).1 }

/--
What `_operator_remove_client_by_idx` and `_operator_remove_client_by_fd` both do to a
busy slot: unregister, `client_shutdown`, one client less. A `reactor_del` that fails
for good changes nothing, since closing a descriptor unregisters it as well.
-/
def dropSlot (op : Operator H) (idx : Nat) : Operator H :=
  { op.setSlot idx shutSlot with
    interest := op.interest.filter fun r => r.fd != (op.ctx (.client idx)).fd
    closed := op.closed ++ (op.clients[idx]?.map fun c => (clientShutdown c.cli).2).getD []
    activeClients := decr32 op.activeClients }

/-- A slot whose context `_operator_add_client` has filled in. -/
def aim (op : Operator H) (fd : Int) (c : Conn H) : Conn H :=
  { c with cli := { c.cli with ctx := ⟨fd, some op.id, some .operatorClient⟩ } }

/-- The rest of a slot, as `_operator_add_client` leaves it. -/
def adopt (peer : Nat × Nat) (now : Nat) (c : Conn H) : Conn H :=
  Conn.fresh { c.cli with
    buf := Buf.zero
    httpRequest := {}
    bufIdx := 0
    connectionPolicy := 0
    remoteIpBe := peer.1
    remotePortBe := peer.2
    lastActivity := now
    requestCount := 0
    isBusy := true }

end Operator

/-- An operator as a successful `operator_init` leaves it. -/
structure OperatorInit (op : Operator H) : Prop where
  status : op.status = .initializing
  /-- `max_clients` is a positive `uint32_t`. -/
  maxClients : 0 < op.maxClients ∧ op.maxClients < 2 ^ 32
  /-- `calloc`. -/
  clients : op.clients = List.replicate op.maxClients (Conn.fresh (Client.zeroed H))
  activeClients : op.activeClients = 0
  queuedClients : op.queuedClients = 0
  ring : op.ring = []
  wakeups : op.wakeups = 0
  wakeupCtx : op.wakeupCtx.handler = some .operatorWakeup ∧ op.wakeupCtx.owner = some op.id
  timerCtx : op.timerCtx.handler = some .operatorTimer ∧ op.timerCtx.owner = some op.id
  fds : 0 ≤ op.timerCtx.fd ∧ 0 ≤ op.wakeupCtx.fd ∧ op.timerCtx.fd ≠ op.wakeupCtx.fd
  timerPeriod : op.timerPeriod = operatorTimerPeriodLong
  interest : op.interest = [⟨op.timerCtx.fd, .timer, 0⟩, ⟨op.wakeupCtx.fd, .wakeup, 1⟩]
  stamps : op.stamps = 2
  closed : op.closed = []

end DBServer
