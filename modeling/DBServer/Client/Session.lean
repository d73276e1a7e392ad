import DBServer.Client.Handle
import DBServer.Lib.Run

/-!
# One client of an operator, event by event

What an operator's reactor does with one client between its adoption and its
removal: a parked client is resumed, any other is handled, and either call may end
in the client's removal. Housekeeping and a hang-up remove it at any time. The
discarding of a rejected body is a run of steps of its own, one for each `read`.
-/

namespace DBServer

open Lib

variable {H : DbHttp}

/-- Where the operator's thread stands with the client. -/
inductive Phase where
  | idle
  /-- Inside `_drain_rejected_body`, with its deadline and count. -/
  | rejecting (deadline drained : Nat)
  /-- Inside a call whose bound ran out. -/
  | running
  | removed
deriving DecidableEq, Repr

/-- A client and the thread's place. -/
structure Session (H : DbHttp) where
  conn : Conn H
  phase : Phase

/-- What can happen next. -/
inductive SessionAct where
  /-- An event for the client, its handler bounded by `fuel` rounds. -/
  | event (fuel : Nat)
  /-- The next round of the drain. -/
  | round
  /-- A timer tick or a closing event removes the client. -/
  | remove
deriving DecidableEq, Repr

/-- `client_shutdown` of the client. -/
def remove (c : Conn H) : Session H := ⟨{ c with cli := (clientShutdown c.cli).1 }, .removed⟩

/-- The end of `_operator_handle_client_event`: a handler that did not succeed removes the client. -/
def conclude : Option Status × Conn H → Session H
  | (none, c) => ⟨c, .running⟩
  | (some .success, c) => ⟨c, .idle⟩
  | (some .failure, c) => remove c

/-- `_operator_handle_client_event`, up to the drain of a rejected upload. -/
def handleEvent (E : Env) (threadId fuel : Nat) (c : Conn H) : Session H :=
  if c.cli.draining then conclude (responseWriterResume E fuel c)
  else if c.cli.httpParser.isNone ∨ c.cli.ctx.fd < 0 then remove c
  else
    match clientHandleToDrain E threadId fuel c with
    | (none, c) => ⟨c, .running⟩
    | (some (.returned rc), c) => conclude (some rc, c)
    | (some (.atDrain _), c) => ⟨c.next, .rejecting (E.mono c.tick + uploadRejectDrainMs) 0⟩

/-- One round of the drain, and the rest of `client_handle` behind the last one. -/
def handleRound (E : Env) (deadline drained : Nat) (c : Conn H) : Session H :=
  match drainRound E deadline drained c with
  | (some drained, c) => ⟨c, .rejecting deadline drained⟩
  | (none, c) => conclude (some (afterAnswer c).1, (afterAnswer c).2)

/-- The client of operator thread `threadId`, from its adoption on. -/
def session (E : Env) (threadId : Nat) : Machine (Session H) SessionAct where
  init s := s.phase = .idle ∧ s.conn.overwrote = false ∧ s.conn.cli.ctx.owner.isSome ∧
    s.conn.cli.draining = false ∧ s.conn.cli.sendOff = 0 ∧ s.conn.cli.sendLen = 0
  step s a :=
    match s.phase, a with
    | .idle, .event fuel => some (handleEvent E threadId fuel s.conn)
    | .rejecting deadline drained, .round => some (handleRound E deadline drained s.conn)
    | .idle, .remove => some (remove s.conn)
    | _, _ => none

end DBServer
