import DBServer.Listener.SdActivation

/-!
# Opening the listening sockets

`listener_init` and what it calls in `listener.c` and `socket_helper.c`: the API's spec and
the upload pool's are gone through by the same code, one after the other, and both add to
the same arrays. A socket carries along what the kernel knows of it.

An entry of the arrays is appended whatever their size, as the code stores it; `peak` is how
many there were at most. The host that `DB_SERVER_BIND` names shows only in what
`getaddrinfo` answers, and which paths are unlinked is left out.
-/

namespace DBServer

/-- `AF_INET6`. -/
def afInet6 : Int := 10

/-- The size of `spec`, of `upload_spec` and of `sun_path`. -/
def specSize : Nat := 108

/-- `listener_status_t`. -/
inductive ListenerStatus where
  | inactive
  | active
  | paused
  | shutdown
  | invalid
deriving DecidableEq, Repr

/-- A socket on its way to listening. -/
structure ListenSocket where
  fd : Nat
  nonBlocking : Bool
  bound : Bool
  listening : Bool
deriving DecidableEq, Repr

/-! ## What the system answers -/

/-- One address of `getaddrinfo`, and the calls made for it; `none` is an error of `socket`. -/
structure AddressAnswers where
  family : Int
  socket : Option Nat
  reuseAddr : Bool
  linger : Bool
  getFl : Bool
  setFl : Bool
  v6Only : Bool
  bind : Bool
  listen : Bool

/-- The calls of `_init_unix_socket`. -/
structure UnixAnswers where
  socket : Option Nat
  bind : Bool
  chmod : Bool
  listen : Bool
  getFl : Bool
  setFl : Bool

/-- One call of `_init_listening_sockets`; no list is an error of `getaddrinfo`. -/
structure SpecAnswers where
  unixSocket : UnixAnswers
  addresses : Option (List AddressAnswers)

/-- The calls of `listener_init`. -/
structure ListenerAnswers where
  reactorInit : Bool
  api : SpecAnswers
  upload : SpecAnswers
  /-- `calloc` and `reactor_add_in`, socket by socket. -/
  ctxAlloc : Nat → Bool
  reactorAdd : Nat → Bool
  /-- The calls of `_install_shutdown_signal_handler`. -/
  eventfd : Option Nat
  shutdownAlloc : Bool
  shutdownAdd : Bool

/-! ## The listener -/

/-- `listener_t` and `_shutdown_efd`, with the sockets opened and closed so far. -/
structure ListenerState where
  status : ListenerStatus
  spec : Bytes
  uploadSpec : Bytes
  unixPaths : List Bytes
  /-- `sockets_fds` and `socket_is_upload`, up to `active_sockets_no`. -/
  sockets : List (ListenSocket × Bool)
  shutdownEfd : Option Nat
  peak : Nat
  opened : List Nat
  closed : List Nat

namespace ListenerState

/-- The static object before its first use. -/
def zeroed : ListenerState := ⟨.inactive, [], [], [], [], none, 0, [], []⟩

/-- `socket` returned a descriptor. -/
def opening (fd : Nat) (l : ListenerState) : ListenerState := { l with opened := l.opened ++ [fd] }

/-- `close`. -/
def closing (fd : Nat) (l : ListenerState) : ListenerState := { l with closed := l.closed ++ [fd] }

/-- The stores into the two arrays, and `active_sockets_no++`. -/
def record (s : ListenSocket) (isUpload : Bool) (l : ListenerState) : ListenerState :=
  { l with
    sockets := l.sockets ++ [(s, isUpload)]
    peak := max l.peak (l.sockets.length + 1) }

/-- One more entry of `unix_paths`, if there is room. -/
def keepPath (path : Bytes) (l : ListenerState) : ListenerState :=
  if l.unixPaths.length < 2 then { l with unixPaths := l.unixPaths ++ [path.take (specSize - 1)] }
  else l

/-- `_stop_listener`. -/
def stop (l : ListenerState) : ListenerState :=
  { l with
    shutdownEfd := none
    closed := l.closed ++ (l.sockets.map fun s => s.1.fd).filter (0 < ·)
    sockets := []
    unixPaths := [] }

end ListenerState

/-- `socket_set_non_blocking`. -/
def socketSetNonBlocking (getFl setFl : Bool) (s : ListenSocket) : Status × ListenSocket :=
  if !getFl then (.failure, s)
  else if !setFl then (.failure, s)
  else (.success, { s with nonBlocking := true })

/-- `socket_listener_init`: `res` is `STATUS_SUCCESS` behind the chain, however that ended. -/
def socketListenerInit (a : AddressAnswers) (s : ListenSocket) : Status × ListenSocket :=
  let s :=
    if !a.reuseAddr then s
    else if !a.linger then s
    else (socketSetNonBlocking a.getFl a.setFl s).2
  (if a.family = afInet6 ∧ !a.v6Only then .failure else .success, s)

/-- One round of the loop of `_init_listening_sockets`. -/
def tryAddress (isUpload : Bool) (a : AddressAnswers) (l : ListenerState) : ListenerState :=
  match a.socket with
  | none => l
  | some fd =>
      let l := l.opening fd
      let r := socketListenerInit a ⟨fd, false, false, false⟩
      if r.1 ≠ .success then l.closing fd
      else if !a.bind then l.closing fd
      else if !a.listen then l.closing fd
      else l.record { r.2 with bound := true, listening := true } isUpload

/-- The loop. -/
def addressLoop (isUpload : Bool) : List AddressAnswers → ListenerState → ListenerState
  | [], l => l
  | a :: as, l =>
      if serverCoreMaxListeningSockets ≤ l.sockets.length then l
      else addressLoop isUpload as (tryAddress isUpload a l)

/-- `_init_unix_socket`. -/
def initUnixSocket (a : UnixAnswers) (path : Bytes) (isUpload : Bool) (l : ListenerState) :
    Status × ListenerState :=
  match a.socket with
  | none => (.failure, l)
  | some fd =>
      let l := l.opening fd
      if specSize ≤ path.length then (.failure, l.closing fd)
      else if !a.bind then (.failure, l.closing fd)
      else if !a.chmod then (.failure, l.closing fd)
      else if !a.listen then (.failure, l.closing fd)
      else
        let r := socketSetNonBlocking a.getFl a.setFl ⟨fd, false, true, true⟩
        if r.1 ≠ .success then (.failure, l.closing fd)
        else (.success, (l.record r.2 isUpload).keepPath path)

/-- `_init_listening_sockets`. -/
def initListeningSockets (a : SpecAnswers) (port : Bytes) (isUpload : Bool) (l : ListenerState) :
    Status × ListenerState :=
  if port.head? = some 47 then initUnixSocket a.unixSocket port isUpload l
  else
    match a.addresses with
    | none => (.failure, l)
    | some as =>
        let l := addressLoop isUpload as l
        (if 0 < l.sockets.length then .success else .failure, l)

/-- `_register_listening_sockets`, from a socket on. -/
def registerListeningSockets (a : ListenerAnswers) : Nat → List (ListenSocket × Bool) → Status
  | _, [] => .success
  | i, _ :: ss =>
      if !a.ctxAlloc i then .failure
      else if !a.reactorAdd i then .failure
      else registerListeningSockets a (i + 1) ss

/-- `_install_shutdown_signal_handler`. -/
def installShutdownSignalHandler (a : ListenerAnswers) (l : ListenerState) : ListenerState :=
  match a.eventfd with
  | none => l
  | some efd => if a.shutdownAlloc && a.shutdownAdd then { l with shutdownEfd := some efd } else l

/-- The part of `listener_init` for the upload pool's spec. -/
def initUploadSockets (a : ListenerAnswers) (l : ListenerState) : Status × ListenerState :=
  if l.uploadSpec ≠ [] then initListeningSockets a.upload l.uploadSpec true l else (.success, l)

/-- The end of `listener_init`, once it has the API's sockets. -/
def listenerInitRest (a : ListenerAnswers) (l : ListenerState) : Status × ListenerState :=
  let r := initUploadSockets a l
  if r.1 ≠ .success then (.failure, r.2.stop)
  else if registerListeningSockets a 0 r.2.sockets ≠ .success then (.failure, r.2.stop)
  else (.success, { installShutdownSignalHandler a r.2 with status := .active })

/-- `listener_init`; `none` is a `NULL` spec. -/
def listenerInit (a : ListenerAnswers) (apiSpec uploadSpec : Option Bytes) (l : ListenerState) :
    Status × ListenerState :=
  if apiSpec.getD [] = [] then (.failure, l)
  else
    let l := { l with spec := (apiSpec.getD []).take (specSize - 1) }
    let l :=
      if uploadSpec.getD [] = [] then l
      else { l with uploadSpec := (uploadSpec.getD []).take (specSize - 1) }
    if !a.reactorInit then (.failure, l)
    else
      let r := initListeningSockets a.api l.spec false l
      if r.1 ≠ .success then (.failure, r.2) else listenerInitRest a r.2

end DBServer
