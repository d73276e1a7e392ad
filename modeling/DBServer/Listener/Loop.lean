import DBServer.Lib.Run
import DBServer.Listener.Listener
import DBServer.Reactor

/-!
# The listener's thread

`listener_run` and what it calls: the reactor hands it batches of events, a socket's event
accepts one connection and hands it on, the shutdown eventfd's ends the loop. The signal
handler runs whenever a signal comes, and all it does is write the eventfd. Behind the loop
`_stop_listener` winds up call by call, the signals' default dispositions first, so that a
signal that comes then ends the process wherever that stands. Which operator a connection goes
to, and what the upload pool does with it, is the concern of others; here they take a connection
or refuse it.
-/

namespace DBServer

open Lib

/-- `MAX_FAN_OUT_SOCKETS`. -/
def maxFanOutSockets : Nat := 64

/-- `listener_init_activated`: systemd's sockets are taken on as they are. -/
def listenerInitActivated (a : ListenerAnswers) (fds : Option SdListenSet) (l : ListenerState) :
    Status × ListenerState :=
  match fds with
  | none => (.failure, l)
  | some fds =>
      if fds.apiFd < 0 then (.failure, l)
      else if !a.reactorInit then (.failure, l)
      else
        let l := l.record ⟨fds.apiFd.toNat, true, true, true⟩ false
        let l :=
          if 0 ≤ fds.uploadFd then l.record ⟨fds.uploadFd.toNat, true, true, true⟩ true else l
        if registerListeningSockets a 0 l.sockets ≠ .success then (.failure, l.stop)
        else (.success, { installShutdownSignalHandler a l with status := .active })

/-- `listener_upload_active`. -/
def listenerUploadActive (l : ListenerState) : Bool := l.sockets.any fun s => s.2

/-! ## The loop -/

/-- What is registered with the listener's reactor. -/
inductive LoopKey where
  | socket (idx : Nat)
  | shutdown
deriving DecidableEq, Repr

/-- `accept`, and `accept4`. -/
inductive AcceptReply where
  | connection (fd : Nat)
  /-- `EMFILE` or `ENFILE`. -/
  | exhausted
  | eagain
  | error
deriving DecidableEq, Repr

/-- The signals that ask for a shutdown. -/
inductive StopSignal where
  | sigterm
  | sigint
deriving DecidableEq, Repr

/-- Where `_stop_listener` stands. -/
inductive StopPoint where
  /-- Before the `sigaction` that restores the default disposition of a signal. -/
  | restoring (sig : StopSignal)
  /-- Before the shutdown eventfd is closed. -/
  | closingEventfd
  /-- Before a round of the loop over the sockets. -/
  | closing (i : Nat)
  /-- Before a round of the loop over the paths. -/
  | unlinking (i : Nat)
deriving DecidableEq, Repr

/-- Where `listener_run` stands. -/
inductive LoopStage where
  /-- Before the loop condition. -/
  | checking
  /-- In `epoll_wait`. -/
  | waiting
  /-- With so much of a batch left. -/
  | events (es : List (LoopKey × Nat))
  /-- Behind the loop, in `_stop_listener`. -/
  | stopping (point : StopPoint)
  | returned
  /-- Behind a store through a `NULL` pointer. -/
  | crashed
  /-- Behind a signal nobody handled. -/
  | killed
deriving DecidableEq, Repr

/-- What a run shows. -/
inductive LoopEvent where
  /-- `_sigterm_handler` wrote the eventfd. -/
  | signalled
  | accepted (fd : Nat)
  /-- The dispatcher, or the upload pool, took the connection. -/
  | dispatched (fd : Nat)
  /-- The fixed 503 was sent. -/
  | busy (fd : Nat)
  | closed (fd : Nat)
  /-- The one warning of a streak. -/
  | warned
  /-- The sleep of `_backoff_on_fd_exhaustion`. -/
  | slept
  | unlinked (path : Bytes)
deriving DecidableEq, Repr

/-- `listener_t`, the eventfd's counter, the latch of the warning, and the thread. -/
structure ListenLoop where
  listener : ListenerState
  /-- Whether a signal goes to `_sigterm_handler`. -/
  handled : StopSignal → Bool
  counter : Nat
  /-- `_fd_exhaustion_warned`. -/
  warned : Bool
  stage : LoopStage
  log : List LoopEvent

/-- What the system answers to one step. -/
structure LoopAnswers where
  /-- `epoll_wait`; no event at all is an error, `EINTR` among them. -/
  batch : List (LoopKey × Nat)
  accept : AcceptReply
  /-- `worker_dispatch_to_operator`, or `upload_worker_dispatch`. -/
  dispatched : Bool

inductive LoopAct where
  | thread (w : LoopAnswers)
  | signal (sig : StopSignal)

namespace ListenLoop

/-- Note down what happened. -/
def note (es : List LoopEvent) (s : ListenLoop) : ListenLoop := { s with log := s.log ++ es }

/-- The thread goes on. -/
def goTo (stage : LoopStage) (s : ListenLoop) : ListenLoop := { s with stage := stage }

/-- The contexts of `_register_listening_sockets` and `_install_shutdown_signal_handler`. -/
def ctx (s : ListenLoop) : LoopKey → FdCtx
  | .socket idx =>
      match s.listener.sockets[idx]? with
      | none => ⟨-1, none, none⟩
      | some sock => ⟨sock.1.fd, none, some (if sock.2 then .uploadListen else .listen)⟩
  | .shutdown =>
      match s.listener.shutdownEfd with
      | none => ⟨-1, none, none⟩
      | some efd => ⟨efd, none, some .listenerShutdown⟩

/-- Whether the shutdown eventfd is registered and readable. -/
def Summoned (s : ListenLoop) : Prop := s.listener.shutdownEfd.isSome ∧ 0 < s.counter

instance (s : ListenLoop) : Decidable s.Summoned := by unfold Summoned; infer_instance

/-- The kernel's side of a batch: each registration once, and every ready one if there is room. -/
def Reports (s : ListenLoop) (batch : List (LoopKey × Nat)) : Prop :=
  (batch.map Prod.fst).Nodup ∧
    (∀ e ∈ batch, match e.1 with
      | .socket idx => idx < s.listener.sockets.length
      | .shutdown => s.Summoned) ∧
    (batch ≠ [] → batch.length < maxFanOutSockets → s.Summoned →
      .shutdown ∈ batch.map Prod.fst)

instance (s : ListenLoop) (batch : List (LoopKey × Nat)) : Decidable (s.Reports batch) := by
  unfold Reports
  have : ∀ e : LoopKey × Nat, Decidable (match e.1 with
      | .socket idx => idx < s.listener.sockets.length
      | .shutdown => s.Summoned) := fun e => by
    cases e.1 <;> infer_instance
  infer_instance

/-- `_backoff_on_fd_exhaustion`. -/
def backoffOnFdExhaustion (s : ListenLoop) : ListenLoop :=
  (if s.warned then s else { s with warned := true }.note [.warned]).note [.slept]

/-- `_handle_listen_event`. -/
def handleListenEvent (w : LoopAnswers) (s : ListenLoop) : ListenLoop :=
  match w.accept with
  | .exhausted => s.backoffOnFdExhaustion
  | .eagain | .error => s
  | .connection fd =>
      { s with warned := false }.note
        [.accepted fd, if w.dispatched then .dispatched fd else .closed fd]

/-- `_handle_upload_listen_event`. -/
def handleUploadListenEvent (w : LoopAnswers) (s : ListenLoop) : ListenLoop :=
  match w.accept with
  | .eagain => s
  | .exhausted => s.backoffOnFdExhaustion
  | .error => s
  | .connection fd =>
      { s with warned := false }.note
        (.accepted fd :: if w.dispatched then [.dispatched fd] else [.busy fd, .closed fd])

/-- `_handle_shutdown_event`. -/
def handleShutdownEvent (s : ListenLoop) : ListenLoop :=
  { s with counter := 0, listener := { s.listener with status := .shutdown } }

/-- `_sigterm_handler`. -/
def sigtermHandler (s : ListenLoop) : ListenLoop :=
  { s with counter := s.counter + 1 }.note [.signalled]

/-- A round of the loop over the sockets: `socket_shutdown_and_close`. -/
def closeSocket (sock : ListenSocket × Bool) (s : ListenLoop) : ListenLoop :=
  if 0 < sock.1.fd then
    { s with listener := { s.listener with closed := s.listener.closed ++ [sock.1.fd] } }
  else s

/-- A round of the loop over the paths: `unlink`. -/
def unlinkPath (path : Bytes) (s : ListenLoop) : ListenLoop :=
  if path ≠ [] then s.note [.unlinked path] else s

/-- `_stop_listener`, call by call. -/
def stopListener (s : ListenLoop) : StopPoint → ListenLoop
  | .restoring .sigterm =>
      { s with handled := Function.update s.handled .sigterm false }.goTo
        (.stopping (.restoring .sigint))
  | .restoring .sigint =>
      { s with handled := Function.update s.handled .sigint false }.goTo (.stopping .closingEventfd)
  | .closingEventfd =>
      { s with listener := { s.listener with shutdownEfd := none } }.goTo (.stopping (.closing 0))
  | .closing i =>
      match s.listener.sockets[i]? with
      | some sock => (s.closeSocket sock).goTo (.stopping (.closing (i + 1)))
      | none =>
          { s with listener := { s.listener with sockets := [] } }.goTo (.stopping (.unlinking 0))
  | .unlinking i =>
      match s.listener.unixPaths[i]? with
      | some path => (s.unlinkPath path).goTo (.stopping (.unlinking (i + 1)))
      | none => { s with listener := { s.listener with unixPaths := [] } }.goTo .returned

/-- One event of a batch, its context and its handler. -/
def handleEvent (e : LoopKey × Nat) (es : List (LoopKey × Nat)) (w : LoopAnswers)
    (s : ListenLoop) : ListenLoop :=
  match reactorDispatch false (s.ctx e.1) e.2 with
  | .call .listen _ => (s.handleListenEvent w).goTo (.events es)
  | .call .uploadListen _ => (s.handleUploadListenEvent w).goTo (.events es)
  | .call .listenerShutdown _ => s.handleShutdownEvent.goTo (.events es)
  | _ => s.goTo .crashed

/-- A step of `listener_run`. -/
def stepThread (s : ListenLoop) (w : LoopAnswers) : Option ListenLoop :=
  match s.stage with
  | .checking =>
      some (s.goTo (if s.listener.status = .active then .waiting
        else .stopping (.restoring .sigterm)))
  | .waiting => if s.Reports w.batch then some (s.goTo (.events w.batch)) else none
  | .events [] => some (s.goTo .checking)
  | .events (e :: es) => some (s.handleEvent e es w)
  | .stopping point => some (s.stopListener point)
  | .returned | .crashed | .killed => none

/-- A step; a signal that is not handled ends the process. -/
def step (s : ListenLoop) : LoopAct → Option ListenLoop
  | .thread w => s.stepThread w
  | .signal sig =>
      if s.stage = .crashed ∨ s.stage = .killed then none
      else some (if s.handled sig then s.sigtermHandler else s.goTo .killed)

/-- A thread about to start, behind a successful initialization of the listener. -/
structure Init (s : ListenLoop) : Prop where
  status : s.listener.status = .active
  room : s.listener.sockets.length + 1 < maxFanOutSockets
  handled : ∀ sig, s.handled sig = s.listener.shutdownEfd.isSome
  counter : s.counter = 0
  warned : s.warned = false
  stage : s.stage = .checking
  log : s.log = []

end ListenLoop

/-- `listener_run`, and the signals around it. -/
def listenLoop : Machine ListenLoop LoopAct where
  init := ListenLoop.Init
  step := ListenLoop.step

end DBServer
