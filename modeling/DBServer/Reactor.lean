import DBServer.Client.Client

/-!
# What the reactor does with one event

`reactor.c`. `epoll` hands back the data pointer stored when a descriptor was
registered. The pointer leads to a context, a struct that lives in the listener or
in an operator, and `reactor_run` acts on what the context says by then: it reports
the context's descriptor for closing, or calls the context's handler.
-/

namespace DBServer

/-- What `reactor_run` does with an event. -/
inductive Dispatch where
  /-- `*out_fd = fd`, and the rest of the batch is given up. -/
  | close (fd : Int)
  | call (handler : Handler) (fd : Int)
  /-- A store through a `NULL` `out_fd`, or a call of a `NULL` handler. -/
  | crash
deriving DecidableEq

/-- One round of the loop of `reactor_run`; `hasOut` is whether the caller passed an `out_fd`. -/
def reactorDispatch (hasOut : Bool) (ctx : FdCtx) (events : Nat) : Dispatch :=
  if epollerCheckIfToClose events then
    if hasOut then .close ctx.fd else .crash
  else
    match ctx.handler with
    | some handler => .call handler ctx.fd
    | none => .crash

/-- The loop of `reactor_run` over a batch whose handlers leave every context alone. -/
def reactorRun {κ : Type} (hasOut : Bool) (ctx : κ → FdCtx) : List (κ × Nat) → List Dispatch
  | [] => []
  | (key, events) :: es =>
      match reactorDispatch hasOut (ctx key) events with
      | .call handler fd => .call handler fd :: reactorRun hasOut ctx es
      | last => [last]

/-! ## The listener's contexts -/

/-- `listener_t`: its sockets, each flagged if it takes uploads, and the shutdown eventfd. -/
structure Listener where
  sockets : List (Int × Bool)
  shutdownFd : Int

/-- What the listener registers. -/
inductive ListenKey (l : Listener) where
  | socket (idx : Fin l.sockets.length)
  | shutdown

/-- The contexts of `_register_listening_sockets` and `_install_shutdown_signal_handler`. -/
def Listener.ctx (l : Listener) : ListenKey l → FdCtx
  | .socket idx =>
      ⟨l.sockets[idx].1, none, some (if l.sockets[idx].2 then .uploadListen else .listen)⟩
  | .shutdown => ⟨l.shutdownFd, none, some .listenerShutdown⟩

/-- `listener_run` passes no `out_fd`; its handlers do not touch the contexts. -/
def listenerRun (l : Listener) (batch : List (ListenKey l × Nat)) : List Dispatch :=
  reactorRun false l.ctx batch

end DBServer
