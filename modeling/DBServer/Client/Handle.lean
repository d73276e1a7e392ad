import DBServer.Client.UploadPump

/-!
# Handling a readable client

`router.c`, `handler_db_app.c` and `client_handle`: read until the parser has a
whole message, answer it through the route table, and leave the client ready for
the next message, parked, or finished.
-/

namespace DBServer

open Lib

variable {H : DbHttp}

/-! ## Routing -/

/-- `srv_route_match_t`. -/
inductive RouteMatch where
  | matchExact
  | matchPrefix
deriving DecidableEq, Repr

/-- `srv_route_t`; every route of the table goes to `handler_db_app`. -/
structure Route where
  path : Bytes
  kind : RouteMatch

/-- `g_routes`. -/
def gRoutes : List Route := [⟨ascii "/api/app", .matchPrefix⟩]

/-- `_route_matches`: a prefix must be followed by the end of the path, `/` or `?`. -/
def routeMatches (route : Route) (path : Bytes) : Bool :=
  path.take route.path.length == route.path &&
    match route.kind with
    | .matchExact => path.length == route.path.length
    | .matchPrefix =>
        match path[route.path.length]? with
        | none => true
        | some b => b == 47 || b == 63

/-- `handler_db_app`. -/
def handlerDbApp (E : Env) (fuel : Nat) (c : Conn H) : Option Status × Conn H :=
  let c := c.call (.adapt c.cli.httpRequest)
  match E.adapt c.cli.httpRequest with
  | none => responseWriterError E fuel 500 c
  | some req => responseWriterSend E fuel (E.run c.tick req) (c.call (.run req)).next

/-- `srv_router_dispatch`. -/
def srvRouterDispatch (E : Env) (fuel : Nat) (c : Conn H) : Option Status × Conn H :=
  if !c.cli.httpRequest.messageComplete then (some .failure, c)
  else if c.cli.httpRequest.path = [] then responseWriterError E fuel 404 c
  else if gRoutes.any (routeMatches · c.cli.httpRequest.path) then handlerDbApp E fuel c
  else responseWriterError E fuel 404 c

/-! ## `client_handle` -/

/-- After an answer that ends the exchange: wait for it if it is parked, else fail. -/
def afterAnswer (c : Conn H) : Status × Conn H :=
  if c.cli.draining then (.success, c) else (.failure, c.reset)

/-- After `srv_router_dispatch`. -/
def afterDispatch (rc : Status) (c : Conn H) : Status × Conn H :=
  let c := { c with cli := { c.cli with
    httpParser := c.cli.httpParser.map H.clear
    bufIdx := 0
    httpRequest := {} } }
  if rc ≠ .success then (.failure, c.reset)
  else if c.cli.draining then (.success, c)
  else if c.cli.connectionPolicy = H.close then (.failure, c.reset)
  else (.success, c)

/-- One successful `read` of the loop, up to the call of the parser. -/
def readRequest (E : Env) (n : Nat) (c : Conn H) : Nat × Conn H :=
  let k := min (n + 1) (H.maxBufferLen - c.cli.bufIdx)
  let c := c.receive E c.cli.bufIdx k
  (k, { c.next with cli := { c.cli with
    lastActivity := timeHelperGetNow (E.wall c.tick)
    bufIdx := c.cli.bufIdx + k } })

/-- What the loop does with the parser's verdict; `none` is `continue`. -/
def afterParse (E : Env) (fuel threadId : Nat) (status : HttpStatus) (req : Option HttpRequest)
    (c : Conn H) : Option (Option Exit × Conn H) :=
  match status, req with
  | .headersCompleteStream, req =>
      some <| andThen (clientUploadPumpToDrain E fuel threadId req (closing c)) fun
        | .returned _, c => (some (.returned (afterAnswer c).1), (afterAnswer c).2)
        | .atDrain rc, c => (some (.atDrain rc), c)
  | .contentTooLarge, _ =>
      some <| andThen (responseWriterError E fuel 413 c) fun _ c =>
        (some (.returned (afterAnswer c).1), (afterAnswer c).2)
  | .other, _ =>
      some <| andThen (responseWriterError E fuel 400 c) fun _ c =>
        (some (.returned (afterAnswer c).1), (afterAnswer c).2)
  | .ok, none => some (some (.returned .failure), c.reset)
  | .ok, some req =>
      if req.messageComplete then
        let c := { c with cli := (clientStoreRequest c.cli req threadId).2 }
        some <| andThen (srvRouterDispatch E fuel c) fun rc c =>
          (some (.returned (afterDispatch rc c).1), (afterDispatch rc c).2)
      else none

/-- The loop of `client_handle`, up to the drain of a rejected upload. -/
def clientHandleToDrain (E : Env) (threadId : Nat) : Nat → Conn H → Option Exit × Conn H
  | 0, c => (none, c)
  | fuel + 1, c =>
      match c.cli.httpParser with
      | none => (some (.returned .failure), c)
      | some parser =>
          if H.maxBufferLen ≤ c.cli.bufIdx then (some (.returned .failure), c.reset)
          else
            match E.read c.tick with
            | .data n =>
                let (k, c) := readRequest E n c
                let (status, req, parser) := H.exec parser c.cli.buf k
                let c := { c with cli := { c.cli with httpParser := some parser } }
                match afterParse E fuel threadId status req c with
                | some out => out
                | none => clientHandleToDrain E threadId fuel c
            | .eof | .error => (some (.returned .failure), c.reset)
            | .eintr => clientHandleToDrain E threadId fuel c.next
            | .eagain => (some (.returned .success), c.next)

/-- A client whose parser has been given what was just read. -/
def parserFed (parser : H.Parser) (r : Nat × Conn H) : Conn H :=
  { r.2 with cli := { r.2.cli with httpParser := some (H.exec parser r.2.cli.buf r.1).2.2 } }

/-- A round that reads something: it ends in an answer, or the loop goes on. -/
theorem clientHandleToDrain_data {E : Env} {threadId fuel n : Nat} {c : Conn H}
    {parser : H.Parser} (hparser : c.cli.httpParser = some parser)
    (hroom : c.cli.bufIdx < H.maxBufferLen) (hread : E.read c.tick = .data n) :
    clientHandleToDrain E threadId (fuel + 1) c =
      (afterParse E fuel threadId
        (H.exec parser (readRequest E n c).2.cli.buf (readRequest E n c).1).1
        (H.exec parser (readRequest E n c).2.cli.buf (readRequest E n c).1).2.1
        (parserFed parser (readRequest E n c))).getD
      (clientHandleToDrain E threadId fuel (parserFed parser (readRequest E n c))) := by
  rw [clientHandleToDrain, hparser]
  simp only [if_neg (Nat.not_le.mpr hroom), hread]
  split
  · rename_i out hout
    exact (congrArg (fun o => Option.getD o _) hout).symm
  · rename_i hnone
    exact (congrArg (fun o => Option.getD o _) hnone).symm

/-- `client_handle`. -/
def clientHandle (E : Env) (fuel threadId : Nat) (c : Conn H) : Option Status × Conn H :=
  if c.cli.httpParser.isNone ∨ c.cli.ctx.fd < 0 then (some .failure, c)
  else
    andThen (clientHandleToDrain E threadId fuel c) fun
      | .returned rc, c => (some rc, c)
      | .atDrain _, c =>
          andThen (drainRejectedBody E fuel c) fun _ c => (some (afterAnswer c).1, (afterAnswer c).2)

end DBServer
