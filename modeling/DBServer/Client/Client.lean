import DBServer.External

/-!
# The per-connection state

`client_t`, the functions of `client.c` that reset it (`_client_reset_message`,
`client_adopt_fd`, `client_release_fd`, `client_shutdown`), and `_client_store_request`.

`Conn` is a client together with what the rest of this layer does to the world on
its behalf: the bytes the kernel took on its socket, the `epoll` mask of its
registration, the calls into `DB_app`. Every write into `cli->buf` goes through
`Conn.writeBuf`, which also records whether it hit the unsent tail of a parked
response.
-/

namespace DBServer

open Lib

/-- The callbacks of the repository that are ever stored in an `fd_ctx_t`. -/
inductive Handler where
  | operatorWakeup
  | operatorTimer
  | operatorClient
  | listen
  | uploadListen
  | listenerShutdown
deriving DecidableEq, Repr

/--
`fd_ctx_t`. A pointer is `none` when it is `NULL`. An owner is the operator's id; the
listener's callbacks ignore theirs, which is left out.
-/
structure FdCtx where
  fd : Int
  owner : Option Nat
  handler : Option Handler
deriving DecidableEq

/-- `client_t`. -/
structure Client (H : DbHttp) where
  isBusy : Bool
  connectionPolicy : Nat
  lastActivity : Nat
  requestCount : Nat
  ctx : FdCtx
  buf : Buf
  bufIdx : Nat
  remoteIpBe : Nat
  remotePortBe : Nat
  httpRequest : HttpRequest
  httpParser : Option H.Parser
  draining : Bool
  sendOff : Nat
  sendLen : Nat

variable {H : DbHttp}

/-- A slot as `calloc` leaves it. -/
def Client.zeroed (H : DbHttp) : Client H where
  isBusy := false
  connectionPolicy := 0
  lastActivity := 0
  requestCount := 0
  ctx := ⟨0, none, none⟩
  buf := Buf.zero
  bufIdx := 0
  remoteIpBe := 0
  remotePortBe := 0
  httpRequest := {}
  httpParser := none
  draining := false
  sendOff := 0
  sendLen := 0

/-- `_client_reset_message(cli, 1)`: parser, buffer, parking state and stored request. -/
def clientResetMessage (cli : Client H) : Client H :=
  { cli with
    httpParser := cli.httpParser.map H.clear
    bufIdx := 0
    buf := Buf.zero
    draining := false
    sendOff := 0
    sendLen := 0
    httpRequest := {} }

/-- `client_shutdown`, and the descriptor it passed to `close(2)`. -/
def clientShutdown (cli : Client H) : Client H × List Int :=
  if cli.isBusy then
    ({ clientResetMessage cli with
        ctx := ⟨-1, none, none⟩
        isBusy := false
        connectionPolicy := 0
        lastActivity := 0
        requestCount := 0
        remoteIpBe := 0
        remotePortBe := 0 },
     [cli.ctx.fd])
  else (cli, [])

/-- `db_http_parser_clear` of a client that has a parser. -/
def clearParser (cli : Client H) : Client H := { cli with httpParser := cli.httpParser.map H.clear }

/-- `client_adopt_fd`: a client of the upload pool takes on a connection. -/
def clientAdoptFd (fd : Int) (peer : Nat × Nat) (now : Nat) (cli : Client H) : Client H :=
  { clearParser (clientResetMessage cli) with
    bufIdx := 0
    connectionPolicy := 0
    requestCount := 0
    isBusy := true
    ctx := ⟨fd, none, none⟩
    lastActivity := now
    remoteIpBe := peer.1
    remotePortBe := peer.2 }

/-- `client_release_fd`, and the descriptor it passed to `close(2)`. -/
def clientReleaseFd (cli : Client H) : Client H × List Int :=
  ({ clientResetMessage (clearParser cli) with
      ctx := ⟨-1, none, none⟩
      isBusy := false
      connectionPolicy := 0
      lastActivity := 0
      requestCount := 0
      remoteIpBe := 0
      remotePortBe := 0 },
   if 0 ≤ cli.ctx.fd then [cli.ctx.fd] else [])

/-- `_client_store_request`. -/
def clientStoreRequest (cli : Client H) (req : HttpRequest) (threadId : Nat) : Status × Client H :=
  if !req.messageComplete then (.failure, cli)
  else
    (.success,
      { cli with
        httpRequest := { req with
          threadId := threadId
          timestamp := cli.lastActivity
          remoteIpBe := cli.remoteIpBe
          remotePortBe := cli.remotePortBe }
        connectionPolicy := req.connectionPolicy
        requestCount := cli.requestCount + 1 })

@[simp] theorem clientResetMessage_isBusy (cli : Client H) :
    (clientResetMessage cli).isBusy = cli.isBusy := rfl

@[simp] theorem clientResetMessage_ctx (cli : Client H) :
    (clientResetMessage cli).ctx = cli.ctx := rfl

/-- Whatever a slot was, shutting it down leaves it free. -/
@[simp] theorem clientShutdown_isBusy (cli : Client H) : (clientShutdown cli).1.isBusy = false := by
  unfold clientShutdown
  split
  · rfl
  · rename_i h; simpa using h

/-- A free slot is left exactly as it is, and nothing is closed. -/
theorem clientShutdown_of_free {cli : Client H} (h : cli.isBusy = false) :
    clientShutdown cli = (cli, []) := by
  rw [clientShutdown, h]; rfl

/-- A busy slot gives up exactly its own descriptor. -/
theorem clientShutdown_closes {cli : Client H} (h : cli.isBusy = true) :
    (clientShutdown cli).2 = [cli.ctx.fd] := by
  rw [clientShutdown, if_pos h]

/-! ## A client and its surroundings -/

/-- Calls into `DB_app`, responses handed to the socket, and closed peers, in program order. -/
inductive Call where
  /-- A request record given to one of `DB_app`'s adapters. -/
  | adapt (req : HttpRequest)
  | run (req : AppRequest)
  /-- `db_app_upload_begin` or `db_app_upload_data_begin`, and whether it opened a ticket. -/
  | begin (opened : Bool)
  /-- A slice offered to the sink, and whether the sink took it. -/
  | chunk (bs : Bytes) (taken : Bool)
  /-- `db_app_upload_commit` or `db_app_upload_data_end`. -/
  | commit
  /-- `db_app_upload_abort` or `db_app_upload_data_abort`. -/
  | abort
  /-- A serialized response handed to the socket. -/
  | respond (bs : Bytes)
  /-- A `read` of the body that found the peer gone. -/
  | peerClosed
  | zipBegin (opened : Bool)
  | zipOpen (index : Nat) (opened : Bool)
  | zipClose (index : Nat)
  | zipRelease
deriving DecidableEq

/-- A client while one of its handlers runs. -/
structure Conn (H : DbHttp) where
  cli : Client H
  /-- System and library calls answered so far: the index into the environment's streams. -/
  tick : Nat
  /-- The bytes the kernel took on the client's socket, in order. -/
  wire : Bytes
  /-- How many of the peer's bytes have been read. -/
  received : Nat
  /-- The `epoll` mask of the client's registration. -/
  mask : Nat
  /-- Calls made so far. -/
  log : List Call
  /-- Failed writes, failed waits for room, and refused re-arms. -/
  faults : Nat
  /-- Whether a write into `cli->buf` ever hit `[send_off, send_len)` of a parked response. -/
  overwrote : Bool

namespace Conn

/-- Store into `cli->buf`. -/
def writeBuf (c : Conn H) (off : Nat) (bs : Bytes) : Conn H :=
  { c with
    cli := { c.cli with buf := c.cli.buf.write off bs }
    overwrote := c.overwrote ||
      (c.cli.draining && decide (off < c.cli.sendLen ∧ c.cli.sendOff < off + bs.length)) }

/-- A `read` into `cli->buf + off` that delivers the next `k` bytes of the peer. -/
def receive (E : Env) (off k : Nat) (c : Conn H) : Conn H :=
  { c.writeBuf off (Buf.slice E.peer c.received k) with received := c.received + k }

/-- Append to the call log. -/
def call (c : Conn H) (e : Call) : Conn H := { c with log := c.log ++ [e] }

/-- One more call answered. -/
def next (c : Conn H) : Conn H := { c with tick := c.tick + 1 }

/-- A handler's own `_client_reset_message(cli, 1)`; its `memset` covers the whole of `cli->buf`. -/
def reset (c : Conn H) : Conn H :=
  { c with
    cli := clientResetMessage c.cli
    overwrote := c.overwrote || (c.cli.draining && decide (c.cli.sendOff < c.cli.sendLen)) }

/-- A client at the start of a connection's life, before its first call. -/
def fresh (cli : Client H) : Conn H where
  cli := cli
  tick := 0
  wire := []
  received := 0
  mask := clientEventsIn
  log := []
  faults := 0
  overwrote := false

end Conn

end DBServer
