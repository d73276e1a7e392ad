import DBServer.Operator.Thread
import DBServer.Lib.Run

/-!
# One operator and the threads around it

The operator's thread, the dispatcher as far as it works on this operator
(`worker_dispatch_to_operator` behind the choice of it), and one call of
`operator_request_shutdown`. Every access to what they share is a step of its own,
and the steps of the three come in any order.
-/

namespace DBServer

open Lib

variable {H : DbHttp}

/-- Where the dispatcher stands with this operator. -/
inductive Dispatching where
  | idle
  /-- Behind `spsc_ring_push`. -/
  | pushed
  /-- Behind the increment of `queued_clients`. -/
  | counted
deriving DecidableEq, Repr

/-- How many dispatches have pushed a descriptor and not yet written the wakeup. -/
def Dispatching.unwritten : Dispatching → Nat
  | .idle => 0
  | .pushed | .counted => 1

/-- Where `operator_request_shutdown` stands. -/
inductive Request where
  | notCalled
  /-- `SHUTDOWN` is stored. -/
  | stored
  /-- The wakeup is written. -/
  | written
deriving DecidableEq, Repr

/-- An operator with its thread, the dispatcher and the shutdown request. -/
structure Mailbox (H : DbHttp) where
  thread : OperatorThread H
  dispatching : Dispatching
  request : Request

/-- A step of one of the three. -/
inductive MailboxAct (H : DbHttp) where
  | thread (w : Answers H)
  | push (fd : Int)
  | count
  | write
  | requestStore
  | requestWrite

/-- Change the operator under its thread. -/
def Mailbox.setOperator (s : Mailbox H) (op : Operator H) : Mailbox H :=
  { s with thread := ⟨op, s.thread.code⟩ }

/-- The operator. -/
def Mailbox.op (s : Mailbox H) : Operator H := s.thread.state

/-- The instructions ahead of its thread. -/
def Mailbox.code (s : Mailbox H) : List Instr := s.thread.code

/-- One step of the dispatcher or of the shutdown request; a full ring refuses a push. -/
def Mailbox.stepOther (s : Mailbox H) : MailboxAct H → Option (Mailbox H)
  | .thread _ => none
  | .push fd =>
      if s.dispatching = .idle ∧ 0 ≤ fd ∧ s.op.ring.length < s.op.ringCapacity then
        some { s.setOperator { s.op with ring := s.op.ring ++ [fd] } with dispatching := .pushed }
      else none
  | .count =>
      if s.dispatching = .pushed then
        some { s.setOperator { s.op with queuedClients := incr32 s.op.queuedClients } with
          dispatching := .counted }
      else none
  | .write =>
      if s.dispatching = .counted then
        some { s.setOperator { s.op with wakeups := s.op.wakeups + 1 } with dispatching := .idle }
      else none
  | .requestStore =>
      if s.request = .notCalled then
        some { s.setOperator { s.op with status := .shutdown } with request := .stored }
      else none
  | .requestWrite =>
      if s.request = .stored then
        some { s.setOperator { s.op with wakeups := s.op.wakeups + 1 } with request := .written }
      else none

/-- An operator from the start of its thread on. -/
def mailbox (H : DbHttp) : Machine (Mailbox H) (MailboxAct H) where
  init s := OperatorInit s.op ∧ s.code = [.initParsers] ∧ s.dispatching = .idle ∧
    s.request = .notCalled
  step s a :=
    match a with
    | .thread w => (s.thread.step Operator.exec w).map fun t => { s with thread := t }
    | a => s.stepOther a

/-! ## A small operator -/

/-- An operator behind a successful `operator_init`, with the smallest parser library. -/
def Operator.small (maxClients : Nat) : Operator DbHttp.small where
  id := 0
  status := .initializing
  maxClients := maxClients
  clients := List.replicate maxClients (Conn.fresh (Client.zeroed DbHttp.small))
  activeClients := 0
  queuedClients := 0
  ring := []
  ringCapacity := 8
  wakeupCtx := ⟨5, some 0, some .operatorWakeup⟩
  wakeups := 0
  timerCtx := ⟨4, some 0, some .operatorTimer⟩
  timerPeriod := operatorTimerPeriodLong
  interest := [⟨4, .timer, 0⟩, ⟨5, .wakeup, 1⟩]
  stamps := 2
  closed := []

theorem operatorInit_small {n : Nat} (h : 0 < n ∧ n < 2 ^ 32) : OperatorInit (Operator.small n) :=
  ⟨rfl, h, rfl, rfl, rfl, rfl, rfl, ⟨rfl, rfl⟩, ⟨rfl, rfl⟩,
    ⟨Int.le.intro 4 rfl, Int.le.intro 5 rfl, fun h => absurd h (by decide : (4 : Int) ≠ 5)⟩,
    rfl, rfl, rfl, rfl⟩

/-- Its thread at the start. -/
def Mailbox.small (maxClients : Nat) : Mailbox DbHttp.small :=
  ⟨operatorThread (Operator.small maxClients), .idle, .notCalled⟩

theorem small_reachable {n : Nat} (h : 0 < n ∧ n < 2 ^ 32) :
    (mailbox DbHttp.small).Reachable (Mailbox.small n) :=
  .init ⟨operatorInit_small h, rfl, rfl, rfl⟩

/-- Answers to every call but `epoll_wait` that let it succeed. -/
def Answers.smooth (batch : List Event) (wall : Int) : Answers DbHttp.small where
  parser := fun _ => some ()
  batch := batch
  timerRead := true
  clientInit := true
  epollAdd := true
  peer := (0, 0)
  wall := wall
  env := Env.smooth { status := 200 }
  fuel := 1

/-- The wakeup of the small operator, as `epoll` reports it. -/
def wakeupEvent : Event := ⟨⟨5, .wakeup, 1⟩, epollIn⟩

/-- Its timer. -/
def timerEvent : Event := ⟨⟨4, .timer, 0⟩, epollIn⟩

/-- As many steps of the thread, with nothing for `epoll_wait` to report. -/
def threadSteps (n : Nat) (wall : Int) : List (MailboxAct DbHttp.small) :=
  List.replicate n (.thread (Answers.smooth [] wall))

/-- It adopts a first client, of descriptor 7. -/
def adoptFirst : List (MailboxAct DbHttp.small) :=
  [.push 7, .count, .write] ++ threadSteps 3 0 ++
    [.thread (Answers.smooth [wakeupEvent] 0)] ++ threadSteps 12 0

/-- With slots to spare, it adopts a further one. -/
def adoptNext (fd wall : Int) : List (MailboxAct DbHttp.small) :=
  [.push fd, .count, .write, .thread (Answers.smooth [wakeupEvent] wall)] ++ threadSteps 10 wall

/-- An event of the first client. -/
def firstEvent (events : Nat) : Event := ⟨⟨7, .client 0, 2⟩, events⟩

/-- A peer takes the first ten bytes it is sent, and no more for a while. -/
def slowAnswers (batch : List Event) : Answers DbHttp.small :=
  { Answers.smooth batch 0 with
    env := { Env.smooth { status := 200 } with
      write := fun t => if t = 1 then .wrote 9 else .eagain }
    fuel := 4 }

end DBServer
