import DBServer.Client.FolderZip

/-!
# Pumping a request body into the application

`upload_pump.c`. The stream gate hands a request over with its body still on the
socket; the pump asks `DB_app` for a ticket, feeds it the body slice by slice
through `cli->buf`, and settles the ticket.

A refused ticket is the one way out that does not end the call at once: the answer
is sent and then the body still on its way is read and thrown away. The pump is
therefore cut in two at that point (`Exit.atDrain`), so that a statement can speak
of the state in which the discarding starts.
-/

namespace DBServer

open Lib

variable {H : DbHttp}

/-- `UPLOAD_REJECT_DRAIN_MS`. -/
def uploadRejectDrainMs : Nat := 2000

/-- `UPLOAD_REJECT_DRAIN_BYTES`. -/
def uploadRejectDrainBytes : Nat := 4 * 1024 * 1024

/-! ## Discarding a rejected body -/

/-- One round of the loop of `_drain_rejected_body`: the new count, or `none` to leave it. -/
def drainRound (E : Env) (deadline drained : Nat) (c : Conn H) : Option Nat × Conn H :=
  if drained < uploadRejectDrainBytes ∧ E.mono c.tick < deadline ∧ E.pollIn c.tick = .ready then
    match E.read c.tick with
    | .data n =>
        let got := min (n + 1) H.maxBufferLen
        (some (drained + got), (c.receive E 0 got).next)
    | .eintr | .eagain => (some drained, c.next)
    | .eof | .error => (none, c.next)
  else (none, c.next)

/-- The loop. -/
def drainLoop (E : Env) (deadline : Nat) : Nat → Nat → Conn H → Option Unit × Conn H
  | 0, _, c => (none, c)
  | fuel + 1, drained, c =>
      match drainRound E deadline drained c with
      | (none, c) => (some (), c)
      | (some drained, c) => drainLoop E deadline fuel drained c

/-- `_drain_rejected_body`. -/
def drainRejectedBody (E : Env) (fuel : Nat) (c : Conn H) : Option Unit × Conn H :=
  drainLoop E (E.mono c.tick + uploadRejectDrainMs) fuel 0 c.next

/-! ## The body pump -/

/-- `pump_result_t`. -/
inductive PumpResult where
  | ok
  | answered
  | gone
deriving DecidableEq, Repr

/-- `chunk(sink, …)`. -/
def offer (E : Env) (bs : Bytes) (c : Conn H) : Conn H :=
  (c.call (.chunk bs (E.chunk c.tick bs))).next

/-- `cli->last_activity = time_helper_get_now()`. -/
def touch (E : Env) (c : Conn H) : Conn H :=
  { c with cli := { c.cli with lastActivity := timeHelperGetNow (E.wall c.tick) } }

/-- `*out_rc = …; return PUMP_ANSWERED`. -/
def pumpAnswered (o : Option Status × Conn H) : Option (PumpResult × Status) × Conn H :=
  andThen o fun rc c => (some (.answered, rc), c)

/-- The loop of `_pump_body`. -/
def pumpLoop (E : Env) (deadline : Nat) :
    Nat → Nat → Conn H → Option (PumpResult × Status) × Conn H
  | 0, _, c => (none, c)
  | fuel + 1, remaining, c =>
      if 0 < remaining then
        if deadline ≤ E.mono c.tick then pumpAnswered (responseWriterError E fuel 408 c.next)
        else
          match E.pollIn c.tick with
          | .timeout => pumpAnswered (responseWriterError E fuel 400 c.next)
          | .eintr => pumpLoop E deadline fuel remaining c.next
          | .error => pumpAnswered (responseWriterError E fuel 500 c.next)
          | .ready =>
              match E.read c.tick with
              | .eof => (some (.gone, .failure), (c.call .peerClosed).next)
              | .eintr | .eagain => pumpLoop E deadline fuel remaining c.next
              | .error => pumpAnswered (responseWriterError E fuel 500 c.next)
              | .data n =>
                  let got := min (n + 1) (min remaining H.maxBufferLen)
                  let c := c.receive E 0 got
                  let bs := c.cli.buf.slice 0 got
                  if E.chunk c.tick bs then
                    pumpLoop E deadline fuel (remaining - got) (touch E (offer E bs c))
                  else pumpAnswered (responseWriterError E fuel 400 (offer E bs c))
      else (some (.ok, .failure), c)

/-- `_pump_body`. -/
def pumpBody (E : Env) (fuel : Nat) (leftover : Bytes) (total : Nat) (c : Conn H) :
    Option (PumpResult × Status) × Conn H :=
  if 0 < leftover.length ∧ E.chunk c.tick leftover = false then
    pumpAnswered (responseWriterError E fuel 400 (offer E leftover c))
  else
    let c := if 0 < leftover.length then offer E leftover c else c
    pumpLoop E (E.mono c.tick + workerUploadMaxWallS * 1000) fuel (total - leftover.length) c.next

/-! ## The pumps -/

/-- How far a call got: back, or to the call of `_drain_rejected_body`, with what it will return. -/
inductive Exit where
  | returned (rc : Status)
  | atDrain (rc : Status)
deriving DecidableEq, Repr

/-- What becomes of the ticket after `_pump_body`: commit and answer, or abort. -/
def settleTicket (E : Env) (fuel : Nat) : PumpResult × Status → Conn H → Option Exit × Conn H
  | (.ok, _), c =>
      andThen (responseWriterSend E fuel (E.uploadCommit c.tick) (c.call .commit).next) fun rc c =>
        (some (.returned rc), c)
  | (_, rc), c => (some (.returned rc), c.call .abort)

/--
What `_client_upload_data_pump` and the second half of `client_upload_pump` do under
different names: ask for a ticket, pump the body into it, settle it.
-/
def ticketPump (E : Env) (fuel : Nat) (req : AppRequest) (c : Conn H) : Option Exit × Conn H :=
  match E.uploadBegin c.tick req with
  | some res =>
      andThen (responseWriterSend E fuel res (c.call (.begin false)).next) fun rc c =>
        (some (.atDrain rc), c)
  | none =>
      let c := (c.call (.begin true)).next
      match c.cli.httpParser.bind fun p => H.streamInfo p c.cli.buf with
      | none =>
          andThen (responseWriterError E fuel 500 (c.call .abort)) fun rc c =>
            (some (.returned rc), c)
      | some info =>
          if info.total < info.leftover.length then
            andThen (responseWriterError E fuel 500 (c.call .abort)) fun rc c =>
              (some (.returned rc), c)
          else
            andThen (pumpBody E fuel info.leftover info.total c) (settleTicket E fuel)

/-- `_client_upload_data_pump`, up to its drain. -/
def clientUploadDataPump (E : Env) (fuel : Nat) (req : AppRequest) (c : Conn H) :
    Option Exit × Conn H :=
  ticketPump E fuel req c

/-- `client_upload_pump`, up to its drain. -/
def clientUploadPumpToDrain (E : Env) (fuel threadId : Nat) (parsedReq : Option HttpRequest)
    (c : Conn H) : Option Exit × Conn H :=
  match parsedReq with
  | none => (some (.returned .failure), c)
  | some parsedReq =>
      let c := c.call (.adapt parsedReq)
      match E.adaptHeaders parsedReq with
      | none =>
          andThen (responseWriterError E fuel 500 c) fun rc c => (some (.returned rc), c)
      | some req =>
          let req := { req with
            threadId := threadId
            nowUnix := timeHelperGetNow (E.wall c.tick) }
          let c := c.next
          if req.method = H.methodPut then clientUploadDataPump E fuel req c
          else if req.method = H.methodGet ∧ folderZipIsZipPath req.path then
            andThen (clientFolderZipPump E fuel req c) fun rc c => (some (.returned rc), c)
          else ticketPump E fuel req c

/-- `client_upload_pump`. -/
def clientUploadPump (E : Env) (fuel threadId : Nat) (parsedReq : Option HttpRequest)
    (c : Conn H) : Option Status × Conn H :=
  andThen (clientUploadPumpToDrain E fuel threadId parsedReq c) fun
    | .returned rc, c => (some rc, c)
    | .atDrain rc, c => andThen (drainRejectedBody E fuel c) fun _ c => (some rc, c)

end DBServer
