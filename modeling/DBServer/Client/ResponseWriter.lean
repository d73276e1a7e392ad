import DBServer.Client.Client
import DBServer.Lib.Fuel

/-!
# Serializing a response and getting it out

`response_writer.c`. A response is first laid out in `cli->buf` and then written
to the socket. When the kernel has no room, an operator's client is parked: the
unsent tail stays in the buffer, the descriptor is re-armed for `EPOLLOUT`, and
`response_writer_resume` picks the send up when the reactor calls again. A client
of the upload pool has no reactor and waits in `poll` instead.

The loops take a bound on their number of rounds. A function returns `none` for
its status when the bound ran out before it came back, together with the state it
had reached by then.
-/

namespace DBServer

open Lib

variable {H : DbHttp}

/-- `_reason_phrase`. -/
def reasonPhrase : Nat → String
  | 200 => "OK"
  | 201 => "Created"
  | 400 => "Bad Request"
  | 401 => "Unauthorized"
  | 403 => "Forbidden"
  | 404 => "Not Found"
  | 409 => "Conflict"
  | 413 => "Content Too Large"
  | 500 => "Internal Server Error"
  | 507 => "Insufficient Storage"
  | _ => "Status"

/-! ## Sending -/

/-- All three parking fields back to zero. -/
def clearSend (cli : Client H) : Client H :=
  { cli with draining := false, sendOff := 0, sendLen := 0 }

/-- `_park`. -/
def park (E : Env) (totalLen : Nat) (c : Conn H) : Status × Conn H :=
  if E.reactorMod c.tick then
    (.success,
      { c.next with
        cli := { c.cli with draining := true, sendLen := totalLen }
        mask := clientEventsOut })
  else
    (.failure, { c.next with cli := clearSend c.cli, faults := c.faults + 1 })

/-- The bytes one `write` call gets rid of, and the client after it. -/
def wrote (E : Env) (n totalLen : Nat) (c : Conn H) : Conn H :=
  let k := min (n + 1) (totalLen - c.cli.sendOff)
  { c.next with
    cli := { c.cli with
      sendOff := c.cli.sendOff + k
      lastActivity := timeHelperGetNow (E.wall c.tick) }
    wire := c.wire ++ c.cli.buf.slice c.cli.sendOff k }

/-- `_try_send`: write `cli->buf[send_off, total_len)`. -/
def trySend (E : Env) (totalLen : Nat) : Nat → Conn H → Option Status × Conn H
  | 0, c => (none, c)
  | fuel + 1, c =>
      if c.cli.sendOff < totalLen then
        match E.write c.tick with
        | .wrote n => trySend E totalLen fuel (wrote E n totalLen c)
        | .eintr => trySend E totalLen fuel c.next
        | .eagain =>
            if c.cli.ctx.owner.isSome then (some (park E totalLen c).1, (park E totalLen c).2)
            else if E.pollOut c.tick = .ready then trySend E totalLen fuel c.next
            else
              (some .failure,
                { c.next with cli := { c.cli with sendOff := 0 }, faults := c.faults + 1 })
        | .error =>
            (some .failure, { c.next with cli := clearSend c.cli, faults := c.faults + 1 })
      else (some .success, { c with cli := clearSend c.cli })

/-- The first `totalLen` bytes of `cli->buf` become the response to send. -/
def started (totalLen : Nat) (c : Conn H) : Conn H :=
  { c.call (.respond (c.cli.buf.slice 0 totalLen)) with cli := { c.cli with sendOff := 0 } }

/-- `cli->send_off = 0; return _try_send(cli, total_len)`. -/
def startSend (E : Env) (fuel totalLen : Nat) (c : Conn H) : Option Status × Conn H :=
  trySend E totalLen fuel (started totalLen c)

/-! ## Serializing -/

/--
One `snprintf` at the current end of the message: what fits is stored with its
terminator, and the message goes on only if all of it fit. `none` is the jump to
`too_large`.
-/
def appendFmt (bs : Bytes) : Option Nat × Conn H → Option Nat × Conn H
  | (none, c) => (none, c)
  | (some off, c) =>
      let c' := c.writeBuf off (bs.take (H.maxBufferLen - off - 1) ++ [0])
      if H.maxBufferLen - off ≤ bs.length then (none, c') else (some (off + bs.length), c')

/-- The status line, `Content-Length` and `Connection`. -/
def statusHead (res : AppResponse) (keepAlive : Bool) : Bytes :=
  ascii "HTTP/1.1 " ++ decimal res.status ++ ascii " " ++ ascii (reasonPhrase res.status) ++
    ascii "\r\nContent-Length: " ++ decimal res.body.length ++ ascii "\r\nConnection: " ++
    ascii (if keepAlive then "keep-alive" else "close") ++ ascii "\r\n"

/-- `Content-Type`, present when there is a body and a type for it. -/
def contentTypeLine (res : AppResponse) : Option Bytes :=
  if 0 < res.body.length then
    res.contentType.map fun t => ascii "Content-Type: " ++ t ++ ascii "\r\n"
  else none

/-- One extra header. -/
def headerLine (h : Bytes × Bytes) : Bytes := h.1 ++ ascii ": " ++ h.2 ++ ascii "\r\n"

/-- The blank line and the body. -/
def appendBody (body : Bytes) : Option Nat × Conn H → Option Nat × Conn H
  | (none, c) => (none, c)
  | (some off, c) =>
      if H.maxBufferLen - off < 2 + body.length then (none, c)
      else
        let c' := c.writeBuf off (ascii "\r\n")
        let c'' := if 0 < body.length then c'.writeBuf (off + 2) body else c'
        (some (off + 2 + body.length), c'')

/-- The formatting half of `response_writer_send`: the length of the message, if it fits. -/
def serialize (E : Env) (res : AppResponse) (c : Conn H) : Option Nat × Conn H :=
  let head := appendFmt (statusHead res (c.cli.connectionPolicy == H.keepAlive)) (some 0, c)
  let typed := match contentTypeLine res with
    | some line => appendFmt line head
    | none => head
  appendBody res.body
    ((res.headers.take E.headersMax).foldl (fun s h => appendFmt (headerLine h) s) typed)

/-- A one-field JSON object naming the error. -/
def jsonError (code : String) : Bytes :=
  ascii "\x7b\"error\":\"" ++ ascii code ++ ascii "\"\x7d"

/-- The status `response_writer_error` answers with, and its body. -/
def errorBody : Nat → Nat × Bytes
  | 404 => (404, jsonError "not_found")
  | 400 => (400, jsonError "bad_body")
  | 413 => (413, jsonError "body_too_large")
  | _ => (500, jsonError "server_error")

/-- The fixed answer of `response_writer_error`. -/
def errorMessage (status : Nat) : Bytes :=
  let (status, body) := errorBody status
  ascii "HTTP/1.1 " ++ decimal status ++ ascii " " ++ ascii (reasonPhrase status) ++
    ascii "\r\nContent-Length: " ++ decimal body.length ++
    ascii "\r\nContent-Type: application/json\r\nConnection: close\r\n\r\n" ++ body

/-! ## The three entry points -/

/-- The connection is to be closed once its answer is out. -/
def closing (c : Conn H) : Conn H := { c with cli := { c.cli with connectionPolicy := H.close } }

/-- `response_writer_error`. -/
def responseWriterError (E : Env) (fuel status : Nat) (c : Conn H) : Option Status × Conn H :=
  if c.cli.ctx.fd < 0 then (some .failure, c)
  else
    match appendFmt (errorMessage status) (some 0, closing c) with
    | (none, c) => (some .failure, c)
    | (some n, c) => startSend E fuel n c

/-- `response_writer_send`. -/
def responseWriterSend (E : Env) (fuel : Nat) (res : AppResponse) (c : Conn H) :
    Option Status × Conn H :=
  if c.cli.ctx.fd < 0 ∨ res.status < 100 ∨ 599 < res.status then (some .failure, c)
  else
    match serialize E res c with
    | (none, c) => responseWriterError E fuel 500 c
    | (some n, c) => startSend E fuel n c

/-- The rest of `response_writer_resume` once the last byte is out. -/
def resumeDone (E : Env) (c : Conn H) : Status × Conn H :=
  if c.cli.ctx.owner.isSome ∧ E.reactorMod c.tick then
    (if c.cli.connectionPolicy = H.close then .failure else .success,
      { c.next with mask := clientEventsIn })
  else (.failure, { c.next with faults := c.faults + 1 })

/-- What `response_writer_resume` makes of the outcome of `_try_send`. -/
def resumeRest (E : Env) : Status → Conn H → Option Status × Conn H
  | .failure, c => (some .failure, c)
  | .success, c =>
      if c.cli.draining then (some .success, c)
      else (some (resumeDone E c).1, (resumeDone E c).2)

/-- `response_writer_resume`. -/
def responseWriterResume (E : Env) (fuel : Nat) (c : Conn H) : Option Status × Conn H :=
  if c.cli.ctx.fd < 0 ∨ c.cli.draining = false then (some .failure, c)
  else andThen (trySend E c.cli.sendLen fuel c) (resumeRest E)

end DBServer
