import DBServer.Proof.Sizing
import DBServer.Proof.Boot
import DBServer.Proof.Listening
import DBServer.Proof.Loop
import DBServer.Proof.Process
import DBServer.Lib.RoundRobin
import DBServer.Startup.Launch

/-!
# A launch hands over what the threads start from

Whatever the system answers, a `server_init` that succeeds leaves behind what the other
results take for granted: a state that the process, the listener's thread and the upload
pool can be started in. The numbers it passes on are cast to narrower types on the way, and
none of the casts loses anything.
-/

namespace DBServer.Proof

open DBServer Lib Boot

variable {H : DbHttp} {base : Nat}

/-! ## The operators -/

/-- What `operator_init` leaves of an operator. -/
structure Up (maxClients id : Nat) (op : OperatorHandles) : Prop where
  id : op.id = id
  status : op.status = .initializing
  maxClients : op.maxClients = maxClients
  timer : 0 ≤ op.timerFd
  wakeup : 0 ≤ op.wakeupFd

theorem operatorInit_up {a : OperatorAnswers} {maxClients id : Nat}
    (h : (operatorInit a id maxClients .zeroed).1 = .success) :
    Up maxClients id (operatorInit a id maxClients .zeroed).2.1 := by
  by_cases hup : Complete a ∧ maxClients ≠ 0
  · obtain ⟨hc, hmax⟩ := hup
    obtain ⟨slots, hslots⟩ := Option.ne_none_iff_exists'.mp hc.clients
    obtain ⟨ring, hring⟩ := Option.ne_none_iff_exists'.mp hc.ring
    obtain ⟨fd, hepoll, hfd⟩ := hc.epoll
    obtain ⟨events, hevents⟩ := Option.ne_none_iff_exists'.mp hc.events
    obtain ⟨timer, htimer⟩ := Option.ne_none_iff_exists'.mp hc.timerfd
    obtain ⟨wakeup, hwakeup⟩ := Option.ne_none_iff_exists'.mp hc.eventfd
    have hop : (operatorInit a id maxClients .zeroed).2.1 = ⟨id, .initializing, some ring, wakeup,
        timer, some (slots, List.replicate maxClients .zeroed), maxClients,
        ⟨fd, some events⟩⟩ := by
      simp [operatorInit, operatorStages, Stage.andThen, clientsInit, ringInit, reactorInit,
        epollerNew, timerInit, wakeupInit, hmax, hslots, hring, hepoll, hfd, hevents, htimer,
        hwakeup, hc.timer.1, hc.timer.2, hc.wakeup]
    rw [hop]
    exact ⟨rfl, rfl, rfl, Int.natCast_nonneg _, Int.natCast_nonneg _⟩
  · obtain ⟨op', l, hfailed, -⟩ := operatorInit_incomplete id hup
    rw [hfailed] at h
    exact absurd h (by simp)

/-- The loop of `worker_init`, when it gets through: operator after operator, each with its id. -/
theorem initOperators_up {answers : Nat → OperatorAnswers} {maxClients : Nat} : ∀ n idx,
    (initOperators answers maxClients idx (List.replicate n .zeroed)).1 = .success →
    (initOperators answers maxClients idx (List.replicate n .zeroed)).2.1.length = n ∧
      ∀ i op, (initOperators answers maxClients idx (List.replicate n .zeroed)).2.1[i]? = some op →
        Up maxClients (idx + i) op := by
  intro n
  induction n with
  | zero =>
      intro idx _
      exact ⟨rfl, fun i op hi => absurd hi (by simp [initOperators])⟩
  | succ n ih =>
      intro idx h
      have hup : (operatorInit (answers idx) idx maxClients .zeroed).1 = .success →
          Up maxClients idx (operatorInit (answers idx) idx maxClients .zeroed).2.1 :=
        operatorInit_up
      rw [List.replicate_succ, initOperators] at h ⊢
      obtain ⟨⟨st, op', l⟩, hinit⟩ : ∃ r, operatorInit (answers idx) idx maxClients .zeroed = r :=
        ⟨_, rfl⟩
      rw [hinit] at h hup ⊢
      cases st with
      | failure => exact absurd h (by simp)
      | success =>
          have hop : Up maxClients idx op' := hup rfl
          simp only [hop.status, ne_eq, not_true_eq_false, if_false] at h ⊢
          obtain ⟨hlength, hrest⟩ := ih (idx + 1) h
          refine ⟨by rw [List.length_cons, hlength], ?_⟩
          intro i op hi
          cases i with
          | zero =>
              obtain rfl := Option.some.inj hi
              exact hop
          | succ i =>
              rw [← Nat.succ_add_eq_add_succ]
              exact hrest i op hi

/-- `_worker` behind a `worker_init` that succeeds. -/
structure WorkerUp (n slots : Nat) (w : WorkerHandles) : Prop where
  status : w.status = .active
  count : w.operatorsCount = n
  maxClients : w.maxClients = slots
  threadsStarted : w.threadsStarted = false
  operators : ∃ array ops, w.operators = some (array, ops) ∧ ops.length = n ∧
    ∀ i op, ops[i]? = some op → Up slots i op

theorem workerInit_up {boot : BootAnswers} {count maxClients : Nat}
    (h : (workerInit boot count maxClients .zeroed).1 = .success) :
    WorkerUp count maxClients (workerInit boot count maxClients .zeroed).2.1 := by
  unfold workerInit at h ⊢
  dsimp only at h ⊢
  split at h
  · exact absurd h (by simp)
  · rename_i hcount
    rw [if_neg hcount]
    cases hoperators : boot.operators with
    | none =>
        rw [hoperators] at h
        exact absurd h (by simp)
    | some array =>
        cases hthreads : boot.threads with
        | none =>
            rw [hoperators, hthreads] at h
            exact absurd h (by simp)
        | some threads =>
            rw [hoperators, hthreads] at h
            dsimp only at h ⊢
            cases hloop : (initOperators boot.operator maxClients 0
                (List.replicate count .zeroed)).1 with
            | failure =>
                rw [hloop] at h
                exact absurd h (by simp)
            | success =>
                obtain ⟨hlength, hup⟩ := initOperators_up count 0 hloop
                simp only [Nat.zero_add] at hup
                exact ⟨rfl, rfl, rfl, rfl, array, _, rfl, hlength, hup⟩

/-! ## The upload pool -/

/-- `upload_workers_init` refuses nothing that it is given here. -/
theorem uploadWorkersInit_init {sync : Bool} {n depth : Nat} (hn : 1 ≤ n ∧ n ≤ uploadMaxWorkers)
    (hdepth : 1 ≤ depth ∧ depth ≤ uploadQueueMax)
    (h : (uploadWorkersInit sync n depth .zeroed).1 = .success) :
    (uploadWorkersInit sync n depth .zeroed).2.Init ∧
      (uploadWorkersInit sync n depth .zeroed).2.nWorkers = n ∧
      (uploadWorkersInit sync n depth .zeroed).2.qMax = depth := by
  unfold uploadWorkersInit at h ⊢
  rw [if_neg (by omega), if_neg (by omega), if_neg (by simp [UploadPool.zeroed])] at h ⊢
  cases sync with
  | false => exact absurd h (by simp)
  | true =>
      exact ⟨⟨rfl, hn, List.length_replicate, ⟨rfl, rfl, rfl⟩, hdepth, rfl, rfl, rfl, rfl, rfl⟩,
        rfl, rfl⟩

/-- What the pool's threads come to as long as the listener does not call. -/
structure Unfed (start p : UploadPool) : Prop where
  log : p.log = []
  dispatch : p.dispatch = .idle
  empty : p.queue.count = 0
  workers : ∀ w ∈ p.workers, ∀ fd, w ≠ .driving fd
  qMax : p.qMax = start.qMax
  /-- Unless a thread could not be created. -/
  nWorkers : (∃ idx, p.control = .create idx) ∨ p.control = .serving → p.nWorkers = start.nWorkers

theorem unfed_init {p : UploadPool} (h : p.Init) : Unfed p p where
  log := h.log
  dispatch := h.dispatch
  empty := h.queue.2.2
  workers w hw := by
    rw [h.workers] at hw
    exact absurd hw List.not_mem_nil
  qMax := rfl
  nWorkers _ := rfl

/-- A worker goes on, to anywhere but a connection. -/
theorem Unfed.works {idx : Nat} {start p q : UploadPool} {w : UploadWorker} (hp : Unfed start p)
    (hw : ∀ fd, w ≠ .driving fd) (hlog : q.log = p.log) (hdispatch : q.dispatch = p.dispatch)
    (hqueue : q.queue = p.queue) (hworkers : q.workers = p.workers.set idx w)
    (hcontrol : q.control = p.control) (hn : q.nWorkers = p.nWorkers) (hmax : q.qMax = p.qMax) :
    Unfed start q where
  log := hlog.trans hp.log
  dispatch := hdispatch.trans hp.dispatch
  empty := by rw [hqueue]; exact hp.empty
  workers v hv := by
    rw [hworkers] at hv
    rcases List.mem_or_eq_of_mem_set hv with hmem | rfl
    · exact hp.workers v hmem
    · exact hw
  qMax := hmax.trans hp.qMax
  nWorkers h := by rw [hn]; exact hp.nWorkers (by rwa [hcontrol] at h)

theorem Unfed.step {start p q : UploadPool} {a : UploadAct} (hp : Unfed start p)
    (ha : ∀ fd, a ≠ .call fd) (h : PoolStep p a q) : Unfed start q := by
  have hidle := hp.dispatch
  have hempty := hp.empty
  cases h with
  | parserReady hw => exact hp.works (by simp) rfl rfl rfl rfl rfl rfl rfl
  | parserFailed hw => exact hp.works (by simp) rfl rfl rfl rfl rfl rfl rfl
  | acquired hw _ _ => exact hp.works (by simp) rfl rfl rfl rfl rfl rfl rfl
  | sleeps hw _ _ => exact hp.works (by simp) rfl rfl rfl rfl rfl rfl rfl
  | exits hw _ _ => exact hp.works (by simp) rfl rfl rfl rfl rfl rfl rfl
  | takes hw hsome => exact absurd hempty (Nat.ne_of_gt hsome)
  | releases hw => exact absurd rfl (hp.workers _ (List.mem_of_getElem? hw) _)
  | spurious hw => exact hp.works (by simp) rfl rfl rfl rfl rfl rfl rfl
  | refused _ _ _ => exact absurd rfl (ha _)
  | called _ _ _ _ => exact absurd rfl (ha _)
  | dispatchLocks hd _ => exact absurd (hidle.symm.trans hd) (by simp)
  | rejects hd _ => exact absurd (hidle.symm.trans hd) (by simp)
  | wakes hd _ _ => exact absurd (hidle.symm.trans hd) (by simp)
  | wakesNobody hd _ _ => exact absurd (hidle.symm.trans hd) (by simp)
  | shutdown hc _ => exact ⟨hp.log, hp.dispatch, hp.empty, hp.workers, hp.qMax, fun h => by simp at h⟩
  | created hc _ =>
      refine ⟨hp.log, hp.dispatch, hp.empty, ?_, hp.qMax, fun _ => hp.nWorkers (.inl ⟨_, hc⟩)⟩
      intro w hw fd
      rcases List.mem_append.mp hw with hold | hnew
      · exact hp.workers w hold fd
      · rw [List.mem_singleton.mp hnew]
        simp
  | createFailed hc _ => exact ⟨hp.log, hp.dispatch, hp.empty, hp.workers, hp.qMax, fun h => by simp at h⟩
  | serves hc _ =>
      exact ⟨hp.log, hp.dispatch, hp.empty, hp.workers, hp.qMax, fun _ => hp.nWorkers (.inl ⟨_, hc⟩)⟩
  | shutdownLocks hc _ => exact ⟨hp.log, hp.dispatch, hp.empty, hp.workers, hp.qMax, fun h => by simp at h⟩
  | closes _ hsome _ => exact absurd hempty (Nat.ne_of_gt hsome)
  | skips _ hsome _ => exact absurd hempty (Nat.ne_of_gt hsome)
  | broadcasts hc _ =>
      refine ⟨hp.log, hp.dispatch, hp.empty, ?_, hp.qMax, fun h => by simp at h⟩
      intro w hw fd
      obtain ⟨v, hv, rfl⟩ := List.mem_map.mp hw
      have hdriving := hp.workers v hv fd
      cases v <;> simp_all [UploadWorker.awake]
  | joins hc _ => exact ⟨hp.log, hp.dispatch, hp.empty, hp.workers, hp.qMax, fun h => by simp at h⟩
  | returns hc _ => exact ⟨hp.log, hp.dispatch, hp.empty, hp.workers, hp.qMax, fun h => by simp at h⟩

/-- **A pool nobody has called is as it was set up**, whatever its threads have done since. -/
theorem unfed_reachable {parsers : Nat → H.Parser} {p : UploadPool} {u : UploadWorkers H}
    (hinit : p.Init)
    (h : ((uploadWorkers H base).startingAt (.around parsers p)).ReachableBy Uncalled u) :
    (uploadWorkers H base).Reachable u ∧ Unfed p u.pool := by
  have hstart : (uploadWorkers H base).Reachable (.around parsers p) :=
    .init ⟨hinit, fun _ => rfl, fun idx => ⟨parsers idx, rfl⟩⟩
  refine ⟨.of_startingAt hstart h, ?_⟩
  refine h.invariant (P := fun u => Unfed p u.pool) ?_ ?_
  · intro s hs
    obtain rfl : s = .around parsers p := hs
    exact unfed_init hinit
  · intro s b t _ hs hb hstep
    cases workers_step hstep with
    | worker _ hpool => exact hs.step (by simp) hpool
    | @other a _ _ _ _ hpool =>
        refine hs.step ?_ hpool
        intro fd ha
        subst ha
        exact hb
    | round _ => exact hs

theorem around_creates {parsers : Nat → H.Parser} {start : UploadWorkers H} {p q : UploadPool}
    (h : ((uploadWorkers H base).startingAt start).ReachableBy Uncalled (.around parsers p))
    (hstep : p.stepControl true = some q) :
    ((uploadWorkers H base).startingAt start).ReachableBy Uncalled (.around parsers q) := by
  let act : UploadWorkersAct := .pool (.control true) (Env.smooth { status := 200 }) (0, 0)
  have hact : UploadWorkers.step base (.around parsers p) act =
      (p.stepControl true).map fun q => .around parsers q := rfl
  rw [hstep] at hact
  exact h.tail (a := act) trivial hact

/-- A pool all of whose threads can be created comes to serve. -/
theorem exists_serving {p : UploadPool} (hinit : p.Init) (base : Nat)
    (parsers : Nat → H.Parser) :
    ∃ u, ((uploadWorkers H base).startingAt (.around parsers p)).ReachableBy Uncalled u ∧
      u.pool.control = .serving := by
  have hcreates : ∀ k ≤ p.nWorkers,
      ((uploadWorkers H base).startingAt (.around parsers p)).ReachableBy Uncalled (.around parsers
        { p with workers := List.replicate k .starting, control := .create k }) := by
    intro k
    induction k with
    | zero =>
        intro _
        have hsame : { p with workers := [], control := .create 0 } = p := by
          rw [← hinit.workers, ← hinit.control]
        rw [List.replicate_zero, hsame]
        exact .init rfl
    | succ k ih =>
        intro hk
        have hlt : k < p.nWorkers := hk
        refine around_creates (ih (by omega)) ?_
        simp [UploadPool.stepControl, hlt, List.replicate_succ']
  refine ⟨_, around_creates (q := { p with
    workers := List.replicate p.nWorkers .starting, control := .serving })
    (hcreates p.nWorkers le_rfl) ?_, rfl⟩
  simp [UploadPool.stepControl]

/-! ## The listener -/

/-- What `listener_run` starts from. -/
structure ListenerUp (l : ListenerState) : Prop where
  status : l.status = .active
  sockets : l.sockets.length ≤ serverCoreMaxListeningSockets + 1

theorem listenerInitRest_active {a : ListenerAnswers} {l : ListenerState}
    (h : (listenerInitRest a l).1 = .success) : (listenerInitRest a l).2.status = .active := by
  unfold listenerInitRest at h ⊢
  dsimp only at h ⊢
  split at h
  · exact absurd h (by simp)
  · rw [if_neg (by assumption)]
    split at h
    · exact absurd h (by simp)
    · rw [if_neg (by assumption)]

theorem listenerInit_active {a : ListenerAnswers} {apiSpec uploadSpec : Option Bytes}
    {l : ListenerState} (h : (listenerInit a apiSpec uploadSpec l).1 = .success) :
    (listenerInit a apiSpec uploadSpec l).2.status = .active := by
  unfold listenerInit at h ⊢
  split at h
  · exact absurd h (by simp)
  · rw [if_neg (by assumption)]
    dsimp only at h ⊢
    by_cases hupload : uploadSpec.getD [] = []
    all_goals
      simp only [hupload, if_true, if_false] at h ⊢
      split at h
      · exact absurd h (by simp)
      · rw [if_neg (by assumption)]
        split at h
        · exact absurd h (by simp)
        · rw [if_neg (by assumption)]
          exact listenerInitRest_active h

theorem length_specSockets (sa : SpecAnswers) (port : Bytes) (room : Nat) :
    (specSockets sa port room).length ≤ max 1 room := by
  by_cases hunix : port.head? = some 47
  · rw [specSockets, if_pos hunix]
    split
    · exact le_max_left 1 room
    · exact Nat.zero_le _
  · exact (length_specSockets_le sa room hunix).trans (le_max_right 1 room)

theorem listenerInit_up {a : ListenerAnswers} {apiSpec uploadSpec : Option Bytes}
    (h : (listenerInit a apiSpec uploadSpec .zeroed).1 = .success) :
    ListenerUp (listenerInit a apiSpec uploadSpec .zeroed).2 := by
  refine ⟨listenerInit_active h, ?_⟩
  rcases listenerInit_ended a apiSpec uploadSpec with ⟨-, hended⟩ | ⟨-, hfailed, -⟩
  · rw [hended.sockets h, bothSockets, List.length_append, flagged, flagged, List.length_map,
      List.length_map]
    have hapi : (apiSockets a apiSpec).length ≤ max 1 serverCoreMaxListeningSockets :=
      length_specSockets _ _ _
    unfold uploadSockets
    split
    · rw [List.length_nil]
      exact hapi.trans (by decide)
    · have hupload := length_specSockets a.upload (stored uploadSpec)
        (serverCoreMaxListeningSockets - (apiSockets a apiSpec).length)
      unfold serverCoreMaxListeningSockets at *
      omega
  · exact absurd (h.symm.trans hfailed) (by simp)

theorem listenerInitActivated_up {a : ListenerAnswers} {fds : Option SdListenSet}
    (h : (listenerInitActivated a fds .zeroed).1 = .success) :
    ListenerUp (listenerInitActivated a fds .zeroed).2 := by
  unfold listenerInitActivated at h ⊢
  cases fds with
  | none => exact absurd h (by simp)
  | some fds =>
      dsimp only at h ⊢
      split at h
      · exact absurd h (by simp)
      · rw [if_neg (by assumption)]
        split at h
        · exact absurd h (by simp)
        · rw [if_neg (by assumption)]
          by_cases hupload : 0 ≤ fds.uploadFd
          all_goals
            simp only [hupload, if_true, if_false] at h ⊢
            split at h
            · exact absurd h (by simp)
            · rw [if_neg (by assumption)]
              refine ⟨rfl, ?_⟩
              show (installShutdownSignalHandler _ _).sockets.length ≤ _
              rw [(install_sockets _ _).1]
              simp [ListenerState.record, ListenerState.zeroed, serverCoreMaxListeningSockets]

/-! ## `server_init` -/

variable {x : InitAnswers} {getenv : Getenv} {apiSpec uploadSpec : Option CString} {la : Launch}

theorem initListener_up {l : ListenerState}
    (h : initListener x getenv apiSpec uploadSpec = .ok l) : ListenerUp l := by
  unfold initListener at h
  dsimp only at h
  split at h
  · exact absurd h (by simp)
  · split at h
    · split at h
      · exact absurd h (by simp)
      · next hok =>
          obtain rfl := Except.ok.inj h
          exact listenerInitActivated_up (not_not.mp hok)
    · split at h
      · exact absurd h (by simp)
      · generalize hwanted : (if given uploadSpec then uploadSpec.map CString.bytes else none) =
          wanted at h
        split at h
        · exact absurd h (by simp)
        · next hok =>
            obtain rfl := Except.ok.inj h
            exact listenerInit_up (not_not.mp hok)

/-- How many threads of the upload pool call `DB_app`. -/
def uploadThreads (la : Launch) : Nat := (la.uploads.map UploadPool.nWorkers).getD 0

/-- What `server_init` has settled before it counts the slots. -/
structure Launching (x : InitAnswers) (getenv : Getenv) (la : Launch) : Prop where
  cpuCount : la.cpuCount = coreDetectCpuCount (srvAffinityOnlineCpus x.mask x.onln)
  listener : ListenerUp la.listener
  worker : WorkerUp (computeOperatorCount la.cpuCount getenv).value
    (computeMaxClients getenv).value la.worker
  ringCapacity : la.ringCapacity = (computeRingCapacity getenv).value

/-- What it has settled when it succeeds. -/
structure Launched (x : InitAnswers) (getenv : Getenv) (la : Launch) : Prop
    extends Launching x getenv la where
  uploads : la.uploads.isSome = listenerUploadActive la.listener
  pool : ∀ p, la.uploads = some p → p.Init ∧
    p.nWorkers = (computeUploadWorkerCount getenv).value ∧
    p.qMax = (computeUploadQueueDepth getenv).value
  base : ∀ p, la.uploads = some p → la.base = la.worker.operatorsCount
  slots : la.slots = la.worker.operatorsCount + uploadThreads la ∧ la.slots ≤ 255

/-- The numbers it has taken from the environment can be used. -/
theorem Launching.admits (hla : Launching x getenv la) (var : EnvVar) :
    var.Admits (var.resolve la.cpuCount getenv).value := by
  rw [hla.cpuCount]
  exact EnvVar.resolve_admits (coreDetectCpuCount_admits _) var getenv

theorem initSlots_without (hla : Launching x getenv la) (hnone : la.uploads = none)
    (hoff : listenerUploadActive la.listener = false) {la' : Launch}
    (h : initSlots x getenv false la = .ok la') : Launched x getenv la' := by
  unfold initSlots at h
  simp only [Bool.false_eq_true, if_false, Nat.add_zero] at h
  split at h
  · exact absurd h (by simp)
  · next hsizing =>
      split at h
      · exact absurd h (by simp)
      · obtain rfl := Except.ok.inj h
        refine ⟨⟨hla.cpuCount, hla.listener, hla.worker, hla.ringCapacity⟩, ?_, ?_, ?_, ?_⟩
        · show la.uploads.isSome = listenerUploadActive la.listener
          rw [hnone, hoff]
          rfl
        · intro p hp
          exact absurd (hnone.symm.trans hp) (by simp)
        · intro p hp
          exact absurd (hnone.symm.trans hp) (by simp)
        · simp only [uploadThreads, hnone, Option.map_none, Option.getD_none]
          omega

theorem initSlots_with (hla : Launching x getenv la)
    (hon : listenerUploadActive la.listener = true) {la' : Launch}
    (h : initSlots x getenv true la = .ok la') : Launched x getenv la' := by
  -- the numbers of the environment fit the types they are cast to
  have hn : EnvVar.uploadWorkers.Admits (computeUploadWorkerCount getenv).value :=
    hla.admits .uploadWorkers
  have hdepth : EnvVar.uploadQueueDepth.Admits (computeUploadQueueDepth getenv).value :=
    hla.admits .uploadQueueDepth
  unfold initSlots at h
  generalize hworkers : (computeUploadWorkerCount getenv).value = n at hn h
  generalize hqueue : (computeUploadQueueDepth getenv).value = depth at hdepth h
  dsimp only [EnvVar.Admits, uploadMaxWorkers, uploadQueueMax] at hn hdepth
  have hnarrow : n % 2 ^ 8 = n := Nat.mod_eq_of_lt (by omega)
  have hnarrowDepth : depth % 2 ^ 16 = depth := Nat.mod_eq_of_lt (by omega)
  simp only [if_true] at h
  rw [hnarrow, hnarrowDepth] at h
  split at h
  · exact absurd h (by simp)
  · next hsizing =>
      rw [not_or, not_lt] at hsizing
      obtain ⟨_, htotal⟩ := hsizing
      split at h
      · exact absurd h (by simp)
      · split at h
        · exact absurd h (by simp)
        · next hok =>
            obtain rfl := Except.ok.inj h
            obtain ⟨hinit, hcount, hmax⟩ := uploadWorkersInit_init hn hdepth (not_not.mp hok)
            refine ⟨⟨hla.cpuCount, hla.listener, hla.worker, hla.ringCapacity⟩, ?_, ?_, ?_, ?_⟩
            · show true = listenerUploadActive la.listener
              rw [hon]
            · intro p hp
              obtain rfl := Option.some.inj hp
              exact ⟨hinit, hcount.trans hworkers.symm, hmax.trans hqueue.symm⟩
            · intro p _
              show la.worker.operatorsCount % 2 ^ 8 = la.worker.operatorsCount
              exact Nat.mod_eq_of_lt (by omega)
            · simp only [uploadThreads, Option.map_some, Option.getD_some, hcount]
              omega

theorem serverInit_launched (h : serverInit x getenv apiSpec uploadSpec = .ok la) :
    Launched x getenv la := by
  unfold serverInit at h
  split at h
  · exact absurd h (by simp)
  · dsimp only at h
    generalize hcpu : coreDetectCpuCount (srvAffinityOnlineCpus x.mask x.onln) = cpuCount at h
    cases hlisten : initListener x getenv apiSpec uploadSpec with
    | error e =>
        rw [hlisten] at h
        exact absurd h (by simp [Except.bind])
    | ok l =>
        rw [hlisten] at h
        simp only [Except.bind] at h
        split at h
        · exact absurd h (by simp)
        · next hok =>
            have hla : Launching x getenv ⟨cpuCount, l,
                (workerInit x.boot (computeOperatorCount cpuCount getenv).value
                  (computeMaxClients getenv).value .zeroed).2.1,
                (computeRingCapacity getenv).value, 0, 0, none⟩ :=
              ⟨hcpu.symm, initListener_up hlisten, workerInit_up (not_not.mp hok), rfl⟩
            cases hactive : listenerUploadActive l with
            | false =>
                rw [hactive] at h
                exact initSlots_without hla rfl hactive h
            | true =>
                rw [hactive] at h
                exact initSlots_with hla hactive h

/-! ## What is handed over -/

/-- Who calls `DB_app`, by the numbers they pass: the operators, then the pool's workers. -/
def callers (base : Nat) (s : Process H) : List Nat :=
  s.server.operators.map (fun t => t.state.id) ++
    (List.range ((s.uploads.map fun u => u.pool.workers.length).getD 0)).map (base + ·)

theorem Up.booted {slots id : Nat} {op : OperatorHandles} (hop : Up slots id op)
    (hslots : MaxClients slots) (hne : op.timerFd ≠ op.wakeupFd) (ringCapacity : Nat) :
    OperatorInit (op.booted H ringCapacity) := by
  obtain ⟨hlow, hhigh⟩ := hslots
  have hmax : op.maxClients = slots := hop.maxClients
  refine ⟨hop.status, ?_, rfl, rfl, rfl, rfl, rfl, ⟨rfl, rfl⟩, ⟨rfl, rfl⟩,
    ⟨hop.timer, hop.wakeup, hne⟩, rfl, rfl, rfl, rfl⟩
  show 0 < op.maxClients ∧ op.maxClients < 2 ^ 32
  omega

theorem Launched.server {s : Process H} (hla : Launched x getenv la)
    (hfds : la.descriptors.Nodup) (hs : la.Hands s) : ServerInit s.server := by
  have hworker := hla.worker
  have hn : EnvVar.workers.Admits (computeOperatorCount la.cpuCount getenv).value :=
    hla.admits .workers
  have hslots : MaxClients (computeMaxClients getenv).value := hla.admits .maxClients
  have hring : RingCapacity la.ringCapacity := hla.ringCapacity ▸ hla.admits .ringCapacity
  obtain ⟨array, ops, hops, hlength, hup⟩ := hworker.operators
  have hoperators : la.operators = ops := by rw [Launch.operators, hops]; rfl
  have hthreads : s.server.operators =
      ops.map fun op => ⟨op.booted H la.ringCapacity, []⟩ := by
    rw [Server.operators, hs.worker, Launch.booted, hoperators]
  have hdescriptors : (ops.flatMap fun op => [op.timerFd, op.wakeupFd]).Nodup := by
    rw [← hoperators]
    exact hfds
  refine ⟨?_, ?_, ?_, ?_, ?_, ?_, hs.listener, hs.main, hs.log⟩
  · rw [hs.worker]
    exact hworker.status
  · rw [hs.worker]
    show MaxClients la.worker.maxClients
    rw [hworker.maxClients]
    exact hslots
  · rw [hs.worker]
    exact hworker.threadsStarted
  · rw [hthreads, List.length_map, hlength]
    exact hn
  · intro t ht
    rw [hthreads] at ht
    obtain ⟨op, hop, rfl⟩ := List.mem_map.mp ht
    obtain ⟨i, hi⟩ := List.getElem?_of_mem hop
    have hready := hup i op hi
    have hpair : [op.timerFd, op.wakeupFd].Nodup := (List.nodup_flatMap.mp hdescriptors).1 op hop
    refine ⟨hready.booted hslots (by simpa using hpair) _, rfl, ?_, hring⟩
    rw [hs.worker]
    exact hready.maxClients.trans hworker.maxClients.symm
  · rw [hthreads, List.flatMap_map]
    exact hdescriptors

/-- The operators' ids are their indices. -/
theorem Launched.ids {s : Process H} (hla : Launched x getenv la) (hs : la.Hands s) :
    s.server.operators.map (fun t => t.state.id) = List.range la.worker.operatorsCount := by
  obtain ⟨array, ops, hops, hlength, hup⟩ := hla.worker.operators
  rw [Server.operators, hs.worker, Launch.booted, Launch.operators, hops, hla.worker.count]
  refine List.ext_getElem? ?_
  intro i
  simp only [Option.map_some, Option.getD_some, List.getElem?_map, Option.map_map]
  cases hi : ops[i]? with
  | none =>
      rw [List.getElem?_eq_none_iff, hlength] at hi
      rw [List.getElem?_eq_none (by rwa [List.length_range])]
      rfl
  | some op =>
      obtain ⟨hlt, -⟩ := List.getElem?_eq_some_iff.mp hi
      rw [List.getElem?_range (by rwa [← hlength])]
      exact congrArg some (hup i op hi).id

theorem Launched.callers {s : Process H} (hla : Launched x getenv la) (hs : la.Hands s) :
    callers la.base s = List.range la.slots := by
  have hslots := hla.slots.1
  rw [DBServer.Proof.callers, hla.ids hs]
  cases huploads : s.uploads with
  | none =>
      have hnone : la.uploads = none := by
        have hsome := hs.uploads
        rw [huploads] at hsome
        exact Option.not_isSome_iff_eq_none.mp (by simp [← hsome])
      rw [uploadThreads, hnone] at hslots
      simp [hslots]
  | some u =>
      have hsome := hs.uploads
      rw [huploads] at hsome
      obtain ⟨p, hp⟩ := Option.isSome_iff_exists.mp hsome.symm
      obtain ⟨hserving, parsers, hreach⟩ := hs.pool p u hp huploads
      obtain ⟨hreach, hunfed⟩ := unfed_reachable (hla.pool p hp).1 hreach
      have hthreads := (pool_reachable (workers_pool_reachable hreach)).staged.threads
      rw [hserving] at hthreads
      have hworkers : u.pool.workers.length = p.nWorkers :=
        hthreads.trans (hunfed.nWorkers (.inr hserving))
      rw [uploadThreads, hp] at hslots
      rw [hla.base p hp, hslots]
      simp only [Option.map_some, Option.getD_some, hworkers]
      exact List.range_add.symm

theorem Launched.process {s : Process H} (hla : Launched x getenv la)
    (hfds : la.descriptors.Nodup) (hs : la.Hands s) : Process.Init la.base s where
  server := hla.server hfds hs
  uploads := by
    intro u hu
    have hsome := hs.uploads
    rw [hu] at hsome
    obtain ⟨p, hp⟩ := Option.isSome_iff_exists.mp hsome.symm
    obtain ⟨hserving, parsers, hreach⟩ := hs.pool p u hp hu
    obtain ⟨hreach, hunfed⟩ := unfed_reachable (hla.pool p hp).1 hreach
    exact ⟨hreach, hserving, hunfed.log, hunfed.dispatch⟩
  appDown := hs.appDown

/-- There is something to hand over: the pool's threads can all be created. -/
theorem Launched.hands (hla : Launched x getenv la) (parsers : Nat → H.Parser) :
    ∃ s : Process H, la.Hands s := by
  let server : Server H := ⟨la.booted H, .waiting, .create 0, 0, []⟩
  cases hp : la.uploads with
  | none =>
      refine ⟨⟨server, none, false⟩, rfl, rfl, rfl, rfl, ?_, ?_, rfl⟩
      · rw [hp]
        rfl
      · intro p u h
        exact absurd (hp.symm.trans h) (by simp)
  | some p =>
      obtain ⟨u, hreach, hserving⟩ := exists_serving (hla.pool p hp).1 la.base parsers
      refine ⟨⟨server, some u, false⟩, rfl, rfl, rfl, rfl, ?_, ?_, rfl⟩
      · rw [hp]
        rfl
      · intro p' u' hp' hu'
        obtain rfl := Option.some.inj (hp.symm.trans hp')
        obtain rfl := Option.some.inj hu'
        exact ⟨hserving, parsers, hreach⟩

/-- What is handed over is as large as the environment says: no narrowing to 8 or 16 bits has
changed it. -/
structure AsConfigured (x : InitAnswers) (getenv : Getenv) (s : Process H) : Prop where
  operators : s.server.operators.length = (computeOperatorCount
    (coreDetectCpuCount (srvAffinityOnlineCpus x.mask x.onln)) getenv).value
  maxClients : ∀ t ∈ s.server.operators, t.state.maxClients = (computeMaxClients getenv).value
  ringCapacity : ∀ t ∈ s.server.operators,
    t.state.ringCapacity = (computeRingCapacity getenv).value
  workers : ∀ u, s.uploads = some u → u.pool.nWorkers = (computeUploadWorkerCount getenv).value
  queueDepth : ∀ u, s.uploads = some u → u.pool.qMax = (computeUploadQueueDepth getenv).value

theorem Launched.asConfigured {s : Process H} (hla : Launched x getenv la) (hs : la.Hands s) :
    AsConfigured x getenv s := by
  obtain ⟨array, ops, hops, hlength, hup⟩ := hla.worker.operators
  have hthreads : s.server.operators = ops.map fun op => ⟨op.booted H la.ringCapacity, []⟩ := by
    rw [Server.operators, hs.worker, Launch.booted, Launch.operators, hops]
    rfl
  have hpool : ∀ u, s.uploads = some u →
      u.pool.nWorkers = (computeUploadWorkerCount getenv).value ∧
        u.pool.qMax = (computeUploadQueueDepth getenv).value := by
    intro u hu
    have hsome := hs.uploads
    rw [hu] at hsome
    obtain ⟨p, hp⟩ := Option.isSome_iff_exists.mp hsome.symm
    obtain ⟨hserving, parsers, hreach⟩ := hs.pool p u hp hu
    obtain ⟨hinit, hworkers, hdepth⟩ := hla.pool p hp
    obtain ⟨_, hunfed⟩ := unfed_reachable hinit hreach
    exact ⟨(hunfed.nWorkers (.inr hserving)).trans hworkers, hunfed.qMax.trans hdepth⟩
  refine ⟨?_, ?_, ?_, fun u hu => (hpool u hu).1, fun u hu => (hpool u hu).2⟩
  · rw [hthreads, List.length_map, hlength, hla.cpuCount]
  · intro t ht
    rw [hthreads] at ht
    obtain ⟨op, hop, rfl⟩ := List.mem_map.mp ht
    obtain ⟨i, hi⟩ := List.getElem?_of_mem hop
    exact (hup i op hi).maxClients
  · intro t ht
    rw [hthreads] at ht
    obtain ⟨op, _, rfl⟩ := List.mem_map.mp ht
    exact hla.ringCapacity

/-- **A `server_init` that succeeds hands over what the threads start from.** Whatever the
environment and the system say, the process and the listener's thread are then in the state
their runs begin with; there is an upload pool exactly if there is a socket for uploads; the
threads that will call `DB_app` pass it just the numbers it has been given slots for, each its
own; and no narrowing to 8 or 16 bits has changed what the environment says. -/
theorem server_init_hands_over (H : DbHttp)
    (h : serverInit x getenv apiSpec uploadSpec = .ok la) (hfds : la.descriptors.Nodup) :
    listenLoop.init la.listening ∧ la.slots ≤ 255 ∧
      (Nonempty H.Parser → ∃ s : Process H, la.Hands s) ∧
      ∀ s : Process H, la.Hands s → (process H la.base).init s ∧
        s.uploads.isSome = listenerUploadActive la.listener ∧
        callers la.base s = List.range la.slots ∧ AsConfigured x getenv s := by
  have hla := serverInit_launched h
  have hsockets : la.listener.sockets.length ≤ serverCoreMaxListeningSockets + 1 :=
    hla.listener.sockets
  have hroom : serverCoreMaxListeningSockets + 2 < maxFanOutSockets := by decide
  refine ⟨⟨hla.listener.status, ?_, fun _ => rfl, rfl, rfl, rfl, rfl⟩, hla.slots.2, ?_, ?_⟩
  · show la.listener.sockets.length + 1 < maxFanOutSockets
    omega
  · intro ⟨parser⟩
    exact hla.hands fun _ => parser
  · intro s hs
    exact ⟨hla.process hfds hs, hs.uploads.trans hla.uploads, hla.callers hs, hla.asConfigured hs⟩

/-- systemd hands over two sockets, and the thread may run on two CPUs. -/
def handedInit : InitAnswers where
  isDir _ := false
  mask := some (· < 2)
  onln := 2
  getpid := 42
  inherited _ := ⟨some 1, some afUnix, some sockStream, true, true, true, true⟩
  listener := handedAnswers
  boot := ⟨some 0, some 1, goodAnswers⟩
  dbAppInit _ := true
  poolSync := true

/-- What it says of them, and that one worker suffices for uploads. -/
def handedEnv : Getenv := fun var =>
  if var = "LISTEN_PID" then some ⟨ascii "42", by decide⟩
  else if var = "LISTEN_FDS" then some ⟨ascii "2", by decide⟩
  else if var = "LISTEN_FDNAMES" then some ⟨ascii "api:upload", by decide⟩
  else if var = "DB_SERVER_UPLOAD_WORKERS" then some ⟨ascii "1", by decide⟩
  else none

theorem serverInit_handed : ∃ la, serverInit handedInit handedEnv none none = .ok la ∧
    la.descriptors = [4, 5] ∧ la.slots = 2 := by
  have hran : ((serverInit handedInit handedEnv none none).toOption.map fun la =>
      (la.descriptors, la.slots)) = some ([4, 5], 2) := by decide +kernel
  cases h : serverInit handedInit handedEnv none none with
  | ok la =>
      rw [h] at hran
      exact ⟨la, rfl, congrArg Prod.fst (Option.some.inj hran),
        congrArg Prod.snd (Option.some.inj hran)⟩
  | error e =>
      rw [h] at hran
      exact absurd hran (by simp [Except.toOption])

theorem server_init_hands_over_two : ∃ la : Launch, la.slots = 2 ∧ ∃ s : Process DbHttp.small,
    la.Hands s ∧ (process DbHttp.small la.base).init s ∧ callers la.base s = [0, 1] ∧
      ∀ u, s.uploads = some u → u.pool.nWorkers = 1 ∧ u.pool.qMax = 32 := by
  obtain ⟨la, hla, hfds, hslots⟩ := serverInit_handed
  obtain ⟨-, -, hexists, hall⟩ :=
    server_init_hands_over DbHttp.small hla (by rw [hfds]; decide)
  obtain ⟨s, hs⟩ := hexists ⟨()⟩
  obtain ⟨hinit, -, hcallers, hconfigured⟩ := hall s hs
  refine ⟨la, hslots, s, hs, hinit, ?_, fun u hu => ⟨?_, ?_⟩⟩
  · rw [hcallers, hslots]
    rfl
  · rw [hconfigured.workers u hu]
    decide +kernel
  · rw [hconfigured.queueDepth u hu]
    decide +kernel

/-! ## Who runs where -/

/-- The CPUs that the listener's thread and then the operators' ask for. -/
def pins (mask : Option (Nat → Bool)) (s : Process H) : List (Option Nat) :=
  srvAffinityPinSelf mask 0 ::
    s.server.operators.map fun t => srvAffinityPinSelf mask (t.state.id + 1)

theorem nodup_allowedCpus (mask : Option (Nat → Bool)) : (allowedCpus mask).Nodup := by
  unfold allowedCpus
  split
  · exact List.nodup_nil
  · exact List.nodup_range.filter _

theorem Launched.pins {s : Process H} (hla : Launched x getenv la) (hs : la.Hands s)
    (mask : Option (Nat → Bool)) :
    pins mask s = roundRobin (allowedCpus mask) (la.worker.operatorsCount + 1) := by
  have hthreads : (s.server.operators.map fun t => srvAffinityPinSelf mask (t.state.id + 1)) =
      (List.range la.worker.operatorsCount).map fun i : Nat =>
        srvAffinityPinSelf mask (↑i + 1) := by
    rw [← hla.ids hs, List.map_map]
    rfl
  rw [DBServer.Proof.pins, hthreads, roundRobin, List.range_succ_eq_map, List.map_cons,
    List.map_map]
  rfl

/-- **The threads are spread over the CPUs the process may use**, if these are known and not none.
Each of the pinned threads asks for one of them, none of them is asked for twice more often than
another, and no two threads ask for the same exactly if there are fewer operators than CPUs; unless
the environment says how many operators there are, that is whenever there are two CPUs. -/
theorem threads_are_spread (h : serverInit x getenv apiSpec uploadSpec = .ok la) {s : Process H}
    (hs : la.Hands s) (hmask : allowedCpus x.mask ≠ []) :
    (∀ p ∈ pins x.mask s, ∃ cpu ∈ allowedCpus x.mask, p = some cpu) ∧
      (∀ cpu ∈ allowedCpus x.mask, ∀ cpu' ∈ allowedCpus x.mask,
        (pins x.mask s).count (some cpu) ≤ (pins x.mask s).count (some cpu') + 1) ∧
      ((pins x.mask s).Nodup ↔ s.server.operators.length < (allowedCpus x.mask).length) ∧
      (getenv "DB_SERVER_WORKERS" = none →
        ((pins x.mask s).Nodup ↔ 1 < (allowedCpus x.mask).length)) := by
  have hla := serverInit_launched h
  have hnd := nodup_allowedCpus x.mask
  have hcount : s.server.operators.length = la.worker.operatorsCount := by
    rw [← List.length_map, hla.ids hs, List.length_range]
  have hpos : 0 < (allowedCpus x.mask).length := List.length_pos_iff.mpr hmask
  have hspread : (pins x.mask s).Nodup ↔
      s.server.operators.length < (allowedCpus x.mask).length := by
    rw [hla.pins hs, nodup_roundRobin_iff hnd hmask, hcount]
    exact Nat.succ_le_iff
  refine ⟨?_, ?_, hspread, ?_⟩
  · intro p hp
    rw [hla.pins hs] at hp
    exact exists_of_mem_roundRobin hmask hp
  · intro cpu hcpu cpu' hcpu'
    obtain ⟨i, hi⟩ := List.getElem?_of_mem hcpu
    obtain ⟨j, hj⟩ := List.getElem?_of_mem hcpu'
    rw [hla.pins hs, count_roundRobin hnd hi, count_roundRobin hnd hj]
    split <;> omega
  · intro hnone
    -- an operator for each CPU but the listener's, and 255 CPUs at most are counted
    have hcpus : srvAffinityOnlineCpus x.mask x.onln = (allowedCpus x.mask).length :=
      if_pos hpos
    have hworkers : la.worker.operatorsCount =
        if la.cpuCount ≤ 2 then 1 else la.cpuCount - 1 := by
      rw [hla.worker.count, computeOperatorCount, hnone]
      rfl
    have hcpuCount := hla.cpuCount
    rw [hcpus, coreDetectCpuCount] at hcpuCount
    rw [hspread, hcount, hworkers]
    split at hcpuCount
    · omega
    · split at hcpuCount
      · rw [hcpuCount]
        simp only [Nat.reduceLeDiff, if_false]
        omega
      · rw [Int.toNat_natCast] at hcpuCount
        rw [hcpuCount]
        split <;> omega

theorem threads_are_spread_two : ∃ (la : Launch) (s : Process DbHttp.small), la.Hands s ∧
    (pins handedInit.mask s).Nodup := by
  obtain ⟨la, hla, -⟩ := serverInit_handed
  have hmask : allowedCpus handedInit.mask ≠ [] := by decide +kernel
  obtain ⟨s, hs⟩ := (serverInit_launched hla).hands (H := DbHttp.small) fun _ => ()
  refine ⟨la, s, hs, ((threads_are_spread hla hs hmask).2.2.2 rfl).mpr ?_⟩
  decide +kernel

end DBServer.Proof
