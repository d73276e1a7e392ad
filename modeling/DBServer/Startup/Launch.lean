import DBServer.Startup.Sizing
import DBServer.Startup.Validate
import DBServer.Listener.Loop
import DBServer.Worker.Boot
import DBServer.Worker.Process

/-!
# From `main` to `server_run`

`server_init`: the configuration is checked, the CPUs are counted, the listening sockets are
taken over from systemd or opened, the operators are initialized, `DB_app` is told how many
threads will call it, and the upload pool is set up. The functions it calls are those of the
other modules; here is what it passes from one to the next, and what is there when it returns.

Where it fails it returns at once, and `main` ends the process: what is still open then is
left out. So is the logger, which comes up before anything else.
-/

namespace DBServer

open Lib Boot

/-! ## The CPUs -/

/-- `CPU_SETSIZE`. -/
def cpuSetSize : Nat := 1024

/-- `_allowed_cpus`; `none` is an error of `sched_getaffinity`. -/
def allowedCpus (mask : Option (Nat → Bool)) : List Nat :=
  match mask with
  | none => []
  | some set => (List.range cpuSetSize).filter set

/-- `srv_affinity_online_cpus`; `onln` is the answer of `sysconf`, which is cast to an `int`. -/
def srvAffinityOnlineCpus (mask : Option (Nat → Bool)) (onln : Int) : Int :=
  if 0 < (allowedCpus mask).length then (allowedCpus mask).length
  else if 0 < onln then onln.bmod (2 ^ 32) else 1

/-- `srv_affinity_pin_self`: the CPU the thread asks to be pinned to, if it can. -/
def srvAffinityPinSelf (mask : Option (Nat → Bool)) (slot : Int) : Option Nat :=
  (allowedCpus mask)[slot.toNat % (allowedCpus mask).length]?

/-! ## The upload pool -/

/-- The static `_pool` before its first use. -/
def UploadPool.zeroed : UploadPool where
  workers := []
  nWorkers := 0
  queue := RingQueue.empty uploadQueueMax 0
  qMax := 0
  running := false
  lock := none
  dispatch := .idle
  control := .returned
  log := []

/-- `upload_workers_init`, up to its loop; `sync` is whether mutex and condition come up. -/
def uploadWorkersInit (sync : Bool) (nWorkers queueDepth : Nat) (p : UploadPool) :
    Status × UploadPool :=
  if nWorkers = 0 ∨ uploadMaxWorkers < nWorkers then (.failure, p)
  else if queueDepth = 0 ∨ uploadQueueMax < queueDepth then (.failure, p)
  else if p.running then (.failure, p)
  else
    let p := { p with
      nWorkers
      queue := { p.queue with head := 0, tail := 0, count := 0 }
      qMax := queueDepth
      running := true }
    if !sync then (.failure, { p with running := false })
    else (.success, { p with control := .create 0 })

/-! ## `server_init` -/

/-- What the system, `DB_app` among it, answers to the calls of `server_init`. -/
structure InitAnswers where
  isDir : Bytes → Bool
  mask : Option (Nat → Bool)
  onln : Int
  getpid : Int
  inherited : Nat → InheritedFd
  listener : ListenerAnswers
  boot : BootAnswers
  dbAppInit : Nat → Bool
  poolSync : Bool

/-- What `server_init` logs where it fails. -/
inductive InitError where
  | config
  | activation
  | activatedListener
  | noListenSpec
  | listener
  | worker
  | slotSizing
  | dbApp
  | uploadPool
deriving DecidableEq, Repr

/-- What `server_init` leaves behind when it succeeds. -/
structure Launch where
  cpuCount : Nat
  listener : ListenerState
  worker : WorkerHandles
  ringCapacity : Nat
  /-- What `DB_app` was initialized with. -/
  slots : Nat
  /-- `worker_no_base`. -/
  base : Nat
  uploads : Option UploadPool

/-- The variables of systemd's protocol. -/
def activationEnv (getenv : Getenv) : ActivationEnv where
  listenPid := (getenv "LISTEN_PID").map CString.bytes
  listenFds := (getenv "LISTEN_FDS").map CString.bytes
  listenFdNames := (getenv "LISTEN_FDNAMES").map CString.bytes
  listenFdsStart := (getenv "LISTEN_FDS_START").map CString.bytes

/-- Neither `NULL` nor empty. -/
def given (spec : Option CString) : Bool := spec.any fun s => s.get 0 != 0

/-- The part of `server_init` for the listening sockets. -/
def initListener (x : InitAnswers) (getenv : Getenv) (apiSpec uploadSpec : Option CString) :
    Except InitError ListenerState :=
  let sd := sdTakeListenFds x.getpid x.inherited (some .unset) (activationEnv getenv)
  if sd.rc < 0 then .error .activation
  else if sd.rc ≠ 0 then
    let r := listenerInitActivated x.listener sd.out .zeroed
    if r.1 ≠ .success then .error .activatedListener else .ok r.2
  else if !given apiSpec then .error .noListenSpec
  else
    let wanted := if given uploadSpec then uploadSpec.map CString.bytes else none
    let r := listenerInit x.listener (apiSpec.map CString.bytes) wanted .zeroed
    if r.1 ≠ .success then .error .listener else .ok r.2

/-- The part of `server_init` behind `worker_init`. -/
def initSlots (x : InitAnswers) (getenv : Getenv) (uploadEnabled : Bool) (la : Launch) :
    Except InitError Launch :=
  let operators := la.worker.operatorsCount
  let uploadWorkers := if uploadEnabled then (computeUploadWorkerCount getenv).value else 0
  let totalSlots := operators + uploadWorkers
  if operators = 0 ∨ 255 < totalSlots then .error .slotSizing
  else if !x.dbAppInit (totalSlots % 2 ^ 8) then .error .dbApp
  else
    let la := { la with slots := totalSlots % 2 ^ 8 }
    if uploadEnabled then
      let r := uploadWorkersInit x.poolSync (uploadWorkers % 2 ^ 8)
        ((computeUploadQueueDepth getenv).value % 2 ^ 16) .zeroed
      if r.1 ≠ .success then .error .uploadPool
      else .ok { la with base := operators % 2 ^ 8, uploads := some r.2 }
    else .ok la

/-- `server_init`. -/
def serverInit (x : InitAnswers) (getenv : Getenv) (apiSpec uploadSpec : Option CString) :
    Except InitError Launch :=
  if configValidateStartup x.isDir getenv apiSpec uploadSpec ≠ .success then .error .config
  else
    let cpuCount := coreDetectCpuCount (srvAffinityOnlineCpus x.mask x.onln)
    (initListener x getenv apiSpec uploadSpec).bind fun listener =>
      let r := workerInit x.boot (computeOperatorCount cpuCount getenv).value
        (computeMaxClients getenv).value .zeroed
      if r.1 ≠ .success then .error .worker
      else initSlots x getenv (listenerUploadActive listener)
        ⟨cpuCount, listener, r.2.1, (computeRingCapacity getenv).value, 0, 0, none⟩

/-! ## What `server_run` finds -/

variable {H : DbHttp}

/-- The operator whose resources these are. -/
def Boot.OperatorHandles.booted (H : DbHttp) (ringCapacity : Nat) (op : OperatorHandles) :
    Operator H where
  id := op.id
  status := op.status
  maxClients := op.maxClients
  clients := List.replicate op.maxClients (Conn.fresh (Client.zeroed H))
  activeClients := 0
  queuedClients := 0
  ring := []
  ringCapacity := ringCapacity
  wakeupCtx := ⟨op.wakeupFd, some op.id, some .operatorWakeup⟩
  wakeups := 0
  timerCtx := ⟨op.timerFd, some op.id, some .operatorTimer⟩
  timerPeriod := operatorTimerPeriodLong
  interest := [⟨op.timerFd, .timer, 0⟩, ⟨op.wakeupFd, .wakeup, 1⟩]
  stamps := 2
  closed := []

/-- The pool's threads to come, each with the client on its stack and the parser it will have. -/
def UploadWorkers.around (parsers : Nat → H.Parser) (p : UploadPool) : UploadWorkers H where
  pool := p
  clients idx :=
    { Client.zeroed H with ctx := ⟨-1, none, none⟩, httpParser := some (parsers idx) }
  drives _ := none

/-- The listener thread, which calls the pool, does not exist yet. -/
def Uncalled (_ : UploadWorkers H) : UploadWorkersAct → Prop
  | .pool (.call _) _ _ => False
  | _ => True

namespace Launch

/-- The operators that `worker_init` has initialized. -/
def operators (la : Launch) : List OperatorHandles := (la.worker.operators.map Prod.snd).getD []

/-- The operators' own descriptors. -/
def descriptors (la : Launch) : List Int := la.operators.flatMap fun op => [op.timerFd, op.wakeupFd]

/-- `_worker`, before any of its threads is created. -/
def booted (H : DbHttp) (la : Launch) : Worker H where
  status := la.worker.status
  maxClients := la.worker.maxClients
  threadsStarted := la.worker.threadsStarted
  operators := la.operators.map fun op => ⟨op.booted H la.ringCapacity, []⟩

/-- The listener's thread, to be created next. -/
def listening (la : Launch) : ListenLoop where
  listener := la.listener
  handled _ := la.listener.shutdownEfd.isSome
  counter := 0
  warned := false
  stage := .checking
  log := []

/-- The process at the start of `server_run`, the pool's threads running already. -/
structure Hands (la : Launch) (s : Process H) : Prop where
  worker : s.server.worker = la.booted H
  listener : s.server.listener = .waiting
  main : s.server.main = .create 0
  log : s.server.log = []
  uploads : s.uploads.isSome = la.uploads.isSome
  pool : ∀ p u, la.uploads = some p → s.uploads = some u → u.pool.control = .serving ∧
    ∃ parsers, ((uploadWorkers H la.base).startingAt (.around parsers p)).ReachableBy Uncalled u
  appDown : s.appDown = false

end Launch

end DBServer
