import DBServer.Worker.UploadPool

/-!
# The upload pool keeps what it is given

`PoolStep` lists every outcome of every step. What enters the queue and what leaves it is
read off the log; that the one is the other followed by what the queue still holds is
kept by every step, and with it the order, the conservation and the bound. The shutdown
empties the queue before it waits for the workers, and the listener is gone by then.
-/

namespace DBServer.Proof

open DBServer Lib UploadPool

variable {s t : UploadPool} {a : UploadAct} {idx : Nat} {fd : Int} {w : UploadWorker}

/-- Every outcome of a step of the pool. -/
inductive PoolStep (s : UploadPool) : UploadAct → UploadPool → Prop where
  | parserReady {idx : Nat} : s.workers[idx]? = some .starting →
      PoolStep s (.worker idx true) (s.setWorker idx .locking)
  | parserFailed {idx : Nat} : s.workers[idx]? = some .starting →
      PoolStep s (.worker idx false) (s.setWorker idx .exited)
  | acquired {idx : Nat} {w : UploadWorker} {parser : Bool} : s.workers[idx]? = some w →
      (w = .locking ∨ w = .woken) → s.lock = none →
      PoolStep s (.worker idx parser) ((s.setWorker idx .testing).hold (.worker idx))
  | sleeps {idx : Nat} {parser : Bool} : s.workers[idx]? = some .testing → s.queue.count = 0 →
      s.running = true → PoolStep s (.worker idx parser) (s.setWorker idx .sleeping).unlock
  | exits {idx : Nat} {parser : Bool} : s.workers[idx]? = some .testing → s.queue.count = 0 →
      s.running = false → PoolStep s (.worker idx parser) (s.setWorker idx .exited).unlock
  | takes {idx : Nat} {parser : Bool} : s.workers[idx]? = some .testing → 0 < s.queue.count →
      PoolStep s (.worker idx parser) ((s.pop.setWorker idx
        (if 0 ≤ s.queue.front then .driving s.queue.front else .locking)).unlock.note
          (.taken idx s.queue.front))
  | releases {idx : Nat} {parser : Bool} {fd : Int} : s.workers[idx]? = some (.driving fd) →
      PoolStep s (.worker idx parser) ((s.setWorker idx .locking).note (.released idx fd))
  | spurious {idx : Nat} : s.workers[idx]? = some .sleeping →
      PoolStep s (.spurious idx) (s.setWorker idx .woken)
  | refused {fd : Int} : s.control = .serving → s.dispatch = .idle →
      fd < 0 ∨ s.running = false → PoolStep s (.call fd) (s.note (.rejected fd))
  | called {fd : Int} : s.control = .serving → s.dispatch = .idle → 0 ≤ fd → s.running = true →
      PoolStep s (.call fd) { s with dispatch := .locking fd }
  | dispatchLocks {wake : Nat} {fd : Int} : s.dispatch = .locking fd → s.lock = none →
      PoolStep s (.dispatch wake) { s.hold .dispatch with dispatch := .holding fd }
  | rejects {wake : Nat} {fd : Int} : s.dispatch = .holding fd → s.qMax ≤ s.queue.count →
      PoolStep s (.dispatch wake) ({ s.unlock with dispatch := .idle }.note (.rejected fd))
  | wakes {wake : Nat} {fd : Int} : s.dispatch = .holding fd → s.queue.count < s.qMax →
      s.workers[wake]? = some .sleeping → PoolStep s (.dispatch wake)
        ({ ({ s with queue := s.queue.push uploadQueueMax fd }.setWorker wake .woken).unlock with
          dispatch := .idle }.note (.dispatched fd))
  | wakesNobody {wake : Nat} {fd : Int} : s.dispatch = .holding fd → s.queue.count < s.qMax →
      .sleeping ∉ s.workers → PoolStep s (.dispatch wake)
        ({ { s with queue := s.queue.push uploadQueueMax fd }.unlock with
          dispatch := .idle }.note (.dispatched fd))
  | shutdown : s.control = .serving → s.dispatch = .idle →
      PoolStep s .shutdown { s with control := .locking }
  | created {idx : Nat} : s.control = .create idx → idx < s.nWorkers →
      PoolStep s (.control true)
        { s with workers := s.workers ++ [.starting], control := .create (idx + 1) }
  | createFailed {idx : Nat} : s.control = .create idx → idx < s.nWorkers →
      PoolStep s (.control false) { s with nWorkers := idx, control := .locking }
  | serves {idx : Nat} {created : Bool} : s.control = .create idx → s.nWorkers ≤ idx →
      PoolStep s (.control created) { s with control := .serving }
  | shutdownLocks {created : Bool} : s.control = .locking → s.lock = none →
      PoolStep s (.control created)
        { s.hold .shutdown with running := false, control := .closing }
  | closes {created : Bool} : s.control = .closing → 0 < s.queue.count → 0 ≤ s.queue.front →
      PoolStep s (.control created) (s.pop.note (.closed s.queue.front))
  | skips {created : Bool} : s.control = .closing → 0 < s.queue.count → s.queue.front < 0 →
      PoolStep s (.control created) s.pop
  | broadcasts {created : Bool} : s.control = .closing → s.queue.count = 0 →
      PoolStep s (.control created)
        { s.unlock with workers := s.workers.map UploadWorker.awake, control := .joining 0 }
  | joins {created : Bool} {idx : Nat} : s.control = .joining idx →
      s.workers[idx]? = some .exited →
      PoolStep s (.control created) { s with control := .joining (idx + 1) }
  | returns {created : Bool} {idx : Nat} : s.control = .joining idx → s.nWorkers ≤ idx →
      PoolStep s (.control created) { s with nWorkers := 0, control := .returned }

theorem stepWorker_step {parser : Bool} (hw : s.workers[idx]? = some w)
    (h : s.stepWorker idx parser w = some t) : PoolStep s (.worker idx parser) t := by
  unfold stepWorker at h
  split at h
  · obtain rfl := Option.some.inj h
    cases parser with
    | true => exact .parserReady hw
    | false => exact .parserFailed hw
  · obtain ⟨hlock, ht⟩ := Option.ite_none_right_eq_some.mp h
    exact Option.some.inj ht ▸ .acquired hw (.inl rfl) hlock
  · obtain ⟨hlock, ht⟩ := Option.ite_none_right_eq_some.mp h
    exact Option.some.inj ht ▸ .acquired hw (.inr rfl) hlock
  · obtain rfl := Option.some.inj h
    split
    · cases hrunning : s.running with
      | true => exact .sleeps hw ‹_› hrunning
      | false => exact .exits hw ‹_› hrunning
    · exact .takes hw (Nat.pos_of_ne_zero ‹_›)
  · exact Option.some.inj h ▸ .releases hw
  · exact absurd h (by simp)
  · exact absurd h (by simp)

theorem stepDispatch_step {wake : Nat} (h : s.stepDispatch wake = some t) :
    PoolStep s (.dispatch wake) t := by
  unfold stepDispatch at h
  split at h
  · exact absurd h (by simp)
  · obtain ⟨hlock, ht⟩ := Option.ite_none_right_eq_some.mp h
    exact Option.some.inj ht ▸ .dispatchLocks ‹_› hlock
  · rename_i fd hd
    split at h
    · exact Option.some.inj h ▸ .rejects hd ‹_›
    · rename_i hroom
      obtain ⟨u, hu, rfl⟩ := Option.map_eq_some_iff.mp h
      unfold signal at hu
      split at hu
      · exact Option.some.inj hu ▸ .wakes hd (Nat.lt_of_not_le hroom) ‹_›
      · obtain ⟨hnone, hu⟩ := Option.ite_none_left_eq_some.mp hu
        exact Option.some.inj hu ▸ .wakesNobody hd (Nat.lt_of_not_le hroom) hnone

theorem stepControl_step {created : Bool} (h : s.stepControl created = some t) :
    PoolStep s (.control created) t := by
  unfold stepControl at h
  split at h
  · rename_i idx hc
    obtain rfl := Option.some.inj h
    split
    · cases created with
      | true => exact .created hc ‹_›
      | false => exact .createFailed hc ‹_›
    · exact .serves hc (Nat.le_of_not_lt ‹_›)
  · exact absurd h (by simp)
  · obtain ⟨hlock, ht⟩ := Option.ite_none_right_eq_some.mp h
    exact Option.some.inj ht ▸ .shutdownLocks ‹_› hlock
  · obtain rfl := Option.some.inj h
    split
    · split
      · exact .closes ‹_› ‹_› ‹_›
      · exact .skips ‹_› ‹_› (Int.lt_of_not_ge ‹_›)
    · exact .broadcasts ‹_› (Nat.eq_zero_of_not_pos ‹_›)
  · rename_i idx hc
    split at h
    · obtain ⟨hexited, ht⟩ := Option.ite_none_right_eq_some.mp h
      exact Option.some.inj ht ▸ .joins hc hexited
    · exact Option.some.inj h ▸ .returns hc (Nat.le_of_not_lt ‹_›)
  · exact absurd h (by simp)

theorem pool_step (h : uploadPool.step s a = some t) : PoolStep s a t := by
  cases a with
  | worker idx parser =>
      obtain ⟨w, hw, hstep⟩ := Option.bind_eq_some_iff.mp h
      exact stepWorker_step hw hstep
  | spurious idx =>
      obtain ⟨hw, ht⟩ := Option.ite_none_right_eq_some.mp h
      exact Option.some.inj ht ▸ .spurious hw
  | call fd =>
      obtain ⟨⟨hd, hc⟩, ht⟩ := Option.ite_none_right_eq_some.mp h
      obtain rfl := Option.some.inj ht
      split
      · exact .refused hc hd ‹_›
      · rename_i hvalid
        obtain ⟨hfd, hrunning⟩ := not_or.mp hvalid
        exact .called hc hd (Int.not_lt.mp hfd) ((Bool.not_eq_false _).mp hrunning)
  | dispatch wake => exact stepDispatch_step h
  | shutdown =>
      obtain ⟨⟨hd, hc⟩, ht⟩ := Option.ite_none_right_eq_some.mp h
      exact Option.some.inj ht ▸ .shutdown hc hd
  | control created => exact stepControl_step h

/-! ## The queue -/

/-- The descriptors for which `upload_worker_dispatch` returned 0. -/
def entered (l : List UploadEvent) : List Int :=
  l.filterMap fun e => match e with
    | .dispatched fd => some fd
    | _ => none

/-- The descriptors that a worker took or the shutdown closed. -/
def departed (l : List UploadEvent) : List Int :=
  l.filterMap fun e => match e with
    | .taken _ fd | .closed fd => some fd
    | _ => none

/-- The queue is what entered and has not departed. -/
structure Fifo (s : UploadPool) : Prop where
  wrapped : s.queue.Wrapped uploadQueueMax
  depth : s.queue.count ≤ s.qMax ∧ s.qMax ≤ uploadQueueMax
  order : entered s.log = departed s.log ++ s.queue.contents uploadQueueMax
  valid : ∀ fd ∈ s.queue.contents uploadQueueMax, 0 ≤ fd
  /-- What the listener dispatches passed its test. -/
  held : ∀ fd, s.dispatch = .locking fd ∨ s.dispatch = .holding fd → 0 ≤ fd

theorem fifo_init (h : UploadPool.Init s) : Fifo s := by
  obtain ⟨hhead, htail, hcount⟩ := h.queue
  have hcontents : s.queue.contents uploadQueueMax = [] :=
    RingQueue.contents_of_count_eq_zero hcount
  refine ⟨⟨h.cells, ?_, ?_, ?_⟩, ⟨?_, h.qMax.2⟩, ?_, ?_, ?_⟩
  · rw [hhead]
    decide
  · rw [hcount]
    exact Nat.zero_le _
  · rw [hhead, htail, hcount]
    rfl
  · rw [hcount]
    exact Nat.zero_le _
  · rw [h.log, hcontents]
    rfl
  · simp [hcontents]
  · simp [h.dispatch]

/-- A step that leaves the queue alone. -/
theorem Fifo.same (hs : Fifo s) (hqueue : t.queue = s.queue) (hqMax : t.qMax = s.qMax)
    (hlog : entered t.log = entered s.log ∧ departed t.log = departed s.log)
    (hheld : ∀ fd, t.dispatch = .locking fd ∨ t.dispatch = .holding fd → 0 ≤ fd) : Fifo t := by
  refine ⟨?_, ?_, ?_, ?_, hheld⟩
  · rw [hqueue]
    exact hs.wrapped
  · rw [hqueue, hqMax]
    exact hs.depth
  · rw [hlog.1, hlog.2, hqueue]
    exact hs.order
  · rw [hqueue]
    exact hs.valid

/-- The listener puts a descriptor on the queue. -/
theorem Fifo.pushes (hs : Fifo s) (hd : s.dispatch = .holding fd) (hroom : s.queue.count < s.qMax)
    (hqueue : t.queue = s.queue.push uploadQueueMax fd) (hqMax : t.qMax = s.qMax)
    (hlog : t.log = s.log ++ [.dispatched fd]) (hidle : t.dispatch = .idle) : Fifo t := by
  have hsize : s.queue.count < uploadQueueMax := Nat.lt_of_lt_of_le hroom hs.depth.2
  have hcontents := RingQueue.contents_push (x := fd) hs.wrapped hsize
  refine ⟨?_, ?_, ?_, ?_, ?_⟩
  · rw [hqueue]
    exact hs.wrapped.push fd hsize
  · rw [hqueue, hqMax]
    exact ⟨hroom, hs.depth.2⟩
  · rw [hqueue, hcontents, hlog, ← List.append_assoc]
    have horder := hs.order
    simp only [entered, departed, List.filterMap_append, List.filterMap_cons,
      List.filterMap_nil, List.append_nil] at horder ⊢
    rw [horder]
  · rw [hqueue, hcontents]
    intro x hx
    rcases List.mem_append.mp hx with hx | hx
    · exact hs.valid x hx
    · obtain rfl := List.mem_singleton.mp hx
      exact hs.held x (.inr hd)
  · simp [hidle]

/-- Somebody takes the head of the queue. -/
theorem Fifo.pops (hs : Fifo s) (hsome : 0 < s.queue.count)
    (hqueue : t.queue = s.queue.pop uploadQueueMax) (hqMax : t.qMax = s.qMax)
    (hlog : entered t.log = entered s.log ∧ departed t.log = departed s.log ++ [s.queue.front])
    (hdispatch : t.dispatch = s.dispatch) : Fifo t := by
  have hcontents := RingQueue.contents_pop hs.wrapped hsome
  refine ⟨?_, ?_, ?_, ?_, ?_⟩
  · rw [hqueue]
    exact hs.wrapped.pop hsome
  · rw [hqueue, hqMax]
    exact ⟨Nat.le_trans (Nat.sub_le ..) hs.depth.1, hs.depth.2⟩
  · rw [hqueue, hlog.1, hlog.2, hs.order, hcontents, List.append_assoc]
    rfl
  · intro x hx
    rw [hqueue] at hx
    exact hs.valid x (by rw [hcontents]; exact .tail _ hx)
  · rw [hdispatch]
    exact hs.held

theorem Fifo.front_valid (hs : Fifo s) (hsome : 0 < s.queue.count) : 0 ≤ s.queue.front := by
  refine hs.valid _ ?_
  rw [RingQueue.contents_pop hs.wrapped hsome]
  exact .head _

theorem Fifo.step (hs : Fifo s) (h : PoolStep s a t) : Fifo t := by
  have hnote : ∀ e : UploadEvent, entered (s.log ++ [e]) = entered s.log ++ entered [e] ∧
      departed (s.log ++ [e]) = departed s.log ++ departed [e] :=
    fun e => ⟨List.filterMap_append .., List.filterMap_append ..⟩
  -- an event that neither enters nor departs
  have hneither : ∀ e : UploadEvent, entered [e] = [] → departed [e] = [] →
      entered (s.log ++ [e]) = entered s.log ∧ departed (s.log ++ [e]) = departed s.log := by
    intro e hent hdep
    rw [(hnote e).1, (hnote e).2, hent, hdep, List.append_nil, List.append_nil]
    exact ⟨rfl, rfl⟩
  cases h with
  | takes hw hsome =>
      exact hs.pops hsome rfl rfl ⟨(hnote _).1.trans (List.append_nil _), (hnote _).2⟩ rfl
  | releases hw => exact hs.same rfl rfl (hneither _ rfl rfl) hs.held
  | refused hc hd hnot => exact hs.same rfl rfl (hneither _ rfl rfl) hs.held
  | called hc hd hfd hrunning =>
      refine hs.same rfl rfl ⟨rfl, rfl⟩ fun x hx => ?_
      rcases hx with hx | hx
      · exact UploadDispatch.locking.inj hx ▸ hfd
      · exact absurd hx (by simp)
  | @dispatchLocks wake fd hd hlock =>
      refine hs.same rfl rfl ⟨rfl, rfl⟩ fun x hx => ?_
      rcases hx with hx | hx
      · exact absurd hx (by simp)
      · exact UploadDispatch.holding.inj hx ▸ hs.held fd (.inl hd)
  | rejects hd hfull =>
      exact hs.same rfl rfl (hneither _ rfl rfl) fun x hx => absurd hx (by simp [note])
  | wakes hd hroom hw => exact hs.pushes hd hroom rfl rfl rfl rfl
  | wakesNobody hd hroom hnone => exact hs.pushes hd hroom rfl rfl rfl rfl
  | closes hc hsome hfront =>
      exact hs.pops hsome rfl rfl ⟨(hnote _).1.trans (List.append_nil _), (hnote _).2⟩ rfl
  | skips hc hsome hfront => exact absurd (hs.front_valid hsome) (Int.not_le.mpr hfront)
  | _ => exact hs.same rfl rfl ⟨rfl, rfl⟩ hs.held

/-! ## The workers -/

/-- The descriptors the worker took. -/
def takenBy (idx : Nat) (l : List UploadEvent) : List Int :=
  l.filterMap fun e => match e with
    | .taken i fd => if i = idx then some fd else none
    | _ => none

/-- The descriptors the worker closed. -/
def releasedBy (idx : Nat) (l : List UploadEvent) : List Int :=
  l.filterMap fun e => match e with
    | .released i fd => if i = idx then some fd else none
    | _ => none

/-- What the worker is at work on. -/
def drives : UploadWorker → List Int
  | .driving fd => [fd]
  | _ => []

/-- The same for the worker at an index, if there is one. -/
def drivenBy (idx : Nat) (ws : List UploadWorker) : List Int := (ws[idx]?.map drives).getD []

theorem drivenBy_set {i : Nat} (w' : UploadWorker) (hw : s.workers[i]? = some w) (j : Nat) :
    drivenBy j (s.workers.set i w') = if i = j then drives w' else drivenBy j s.workers := by
  obtain ⟨hlt, _⟩ := List.getElem?_eq_some_iff.mp hw
  unfold drivenBy
  rw [List.getElem?_set, if_pos hlt]
  split <;> rfl

/-- Every worker has closed all it took, but for what it is at work on. -/
def Settled (s : UploadPool) : Prop :=
  ∀ j, takenBy j s.log = releasedBy j s.log ++ drivenBy j s.workers

/-- A step that neither takes nor closes for a worker. -/
theorem Settled.same (hs : Settled s)
    (hlog : ∀ j, takenBy j t.log = takenBy j s.log ∧ releasedBy j t.log = releasedBy j s.log)
    (hworkers : ∀ j, drivenBy j t.workers = drivenBy j s.workers) : Settled t := by
  intro j
  rw [(hlog j).1, (hlog j).2, hworkers j]
  exact hs j

theorem Settled.step (hs : Settled s) (hfifo : Fifo s) (h : PoolStep s a t) : Settled t := by
  have hnote : ∀ (e : UploadEvent) (j : Nat),
      takenBy j (s.log ++ [e]) = takenBy j s.log ++ takenBy j [e] ∧
      releasedBy j (s.log ++ [e]) = releasedBy j s.log ++ releasedBy j [e] :=
    fun e j => ⟨List.filterMap_append .., List.filterMap_append ..⟩
  have hneither : ∀ e : UploadEvent, (∀ j, takenBy j [e] = [] ∧ releasedBy j [e] = []) → ∀ j,
      takenBy j (s.log ++ [e]) = takenBy j s.log ∧
        releasedBy j (s.log ++ [e]) = releasedBy j s.log := by
    intro e he j
    rw [(hnote e j).1, (hnote e j).2, (he j).1, (he j).2, List.append_nil, List.append_nil]
    exact ⟨rfl, rfl⟩
  have hsilent : ∀ j, takenBy j s.log = takenBy j s.log ∧ releasedBy j s.log = releasedBy j s.log :=
    fun j => ⟨rfl, rfl⟩
  -- a worker that goes on without a descriptor before and after
  have hset : ∀ {i : Nat} {w w' : UploadWorker}, s.workers[i]? = some w → drives w = drives w' →
      ∀ j, drivenBy j (s.workers.set i w') = drivenBy j s.workers := by
    intro i w w' hw hsame j
    rw [drivenBy_set w' hw]
    split
    · rename_i heq
      subst heq
      rw [← hsame, drivenBy, hw]
      rfl
    · rfl
  cases h with
  | parserReady hw => exact hs.same hsilent (hset hw rfl)
  | parserFailed hw => exact hs.same hsilent (hset hw rfl)
  | acquired hw hwaits hlock =>
      refine hs.same hsilent (hset hw ?_)
      rcases hwaits with rfl | rfl
      · rfl
      · rfl
  | sleeps hw hcount hrunning => exact hs.same hsilent (hset hw rfl)
  | exits hw hcount hrunning => exact hs.same hsilent (hset hw rfl)
  | @takes i parser hw hsome =>
      intro j
      have hold := hs j
      have hfront := hfifo.front_valid hsome
      have hdriven := drivenBy_set
        (if 0 ≤ s.queue.front then .driving s.queue.front else .locking) hw j
      obtain ⟨htaken, hreleased⟩ := hnote (.taken i s.queue.front) j
      simp only [note, unlock, setWorker, UploadPool.pop]
      rw [htaken, hreleased, hdriven, hold]
      by_cases hj : i = j
      · subst hj
        simp [takenBy, releasedBy, drives, hfront, drivenBy, hw]
      · simp [takenBy, releasedBy, hj]
  | @releases i parser fd hw =>
      intro j
      have hold := hs j
      have hdriven := drivenBy_set .locking hw j
      obtain ⟨htaken, hreleased⟩ := hnote (.released i fd) j
      simp only [note, setWorker]
      rw [htaken, hreleased, hdriven, hold]
      by_cases hj : i = j
      · subst hj
        simp [takenBy, releasedBy, drives, drivenBy, hw]
      · simp [takenBy, releasedBy, hj]
  | spurious hw => exact hs.same hsilent (hset hw rfl)
  | refused hc hd hnot => exact hs.same (hneither _ fun j => ⟨rfl, rfl⟩) fun j => rfl
  | rejects hd hfull => exact hs.same (hneither _ fun j => ⟨rfl, rfl⟩) fun j => rfl
  | wakes hd hroom hw => exact hs.same (hneither _ fun j => ⟨rfl, rfl⟩) (hset hw rfl)
  | wakesNobody hd hroom hnone => exact hs.same (hneither _ fun j => ⟨rfl, rfl⟩) fun j => rfl
  | created hc hlt =>
      refine hs.same hsilent fun j => ?_
      unfold drivenBy
      rw [List.getElem?_append]
      split
      · rfl
      · rename_i hge
        rw [List.getElem?_eq_none (Nat.le_of_not_lt hge)]
        cases j - s.workers.length <;> rfl
  | closes hc hsome hfront => exact hs.same (hneither _ fun j => ⟨rfl, rfl⟩) fun j => rfl
  | broadcasts hc hcount =>
      refine hs.same hsilent fun j => ?_
      unfold drivenBy
      rw [List.getElem?_map, Option.map_map]
      congr 2
      funext w
      cases w <;> rfl
  | _ => exact hs.same hsilent fun j => rfl

/-! ## The shutdown -/

/-- `running`, by how far the shutdown has come. -/
def runs : UploadControl → Bool
  | .create _ | .serving | .locking => true
  | _ => false

/-- Which threads exist, by how far `upload_workers_init` has come. -/
def Threads (s : UploadPool) : UploadControl → Prop
  | .create idx => s.workers.length = idx ∧ idx ≤ s.nWorkers
  | .returned => True
  | _ => s.workers.length = s.nWorkers

/-- What the shutdown has achieved. -/
def Stopped (s : UploadPool) : UploadControl → Prop
  | .joining idx => s.queue.count = 0 ∧ .sleeping ∉ s.workers ∧
      ∀ j < idx, s.workers[j]? = some .exited
  | .returned => s.queue.count = 0 ∧ ∀ w ∈ s.workers, w = .exited
  | _ => True

/-- How far `upload_workers_init` or `upload_workers_shutdown` has come tells the rest. -/
structure Staged (s : UploadPool) : Prop where
  running : s.running = runs s.control
  /-- Nobody dispatches but while the pool serves. -/
  quiet : s.dispatch ≠ .idle → s.control = .serving
  threads : Threads s s.control
  stopped : Stopped s s.control

theorem staged_init (h : UploadPool.Init s) : Staged s := by
  refine ⟨?_, ?_, ?_, ?_⟩
  · rw [h.running, h.control]
    rfl
  · exact fun hd => absurd h.dispatch hd
  · rw [h.control]
    exact ⟨by rw [h.workers]; rfl, Nat.zero_le _⟩
  · rw [h.control]
    trivial

/-- A worker goes on. -/
theorem Staged.works {w' : UploadWorker} (hs : Staged s) (hw : s.workers[idx]? = some w)
    (hlive : w ≠ .exited) (hasleep : w' = .sleeping → s.running = true)
    (hworkers : t.workers = s.workers.set idx w') (hcount : t.queue.count ≤ s.queue.count)
    (hrest : t.control = s.control ∧ t.running = s.running ∧ t.dispatch = s.dispatch ∧
      t.nWorkers = s.nWorkers) : Staged t := by
  obtain ⟨hcontrol, hrunning, hdispatch, hn⟩ := hrest
  have hlength : t.workers.length = s.workers.length := by rw [hworkers, List.length_set]
  refine ⟨?_, ?_, ?_, ?_⟩
  · rw [hrunning, hcontrol]
    exact hs.running
  · rw [hdispatch, hcontrol]
    exact hs.quiet
  · have hold := hs.threads
    rw [hcontrol]
    generalize s.control = c at hold ⊢
    cases c with
    | create k => exact ⟨hlength.trans hold.1, hn ▸ hold.2⟩
    | returned => trivial
    | serving => exact hlength.trans (hold.trans hn.symm)
    | locking => exact hlength.trans (hold.trans hn.symm)
    | closing => exact hlength.trans (hold.trans hn.symm)
    | joining k => exact hlength.trans (hold.trans hn.symm)
  · -- once the pool is joining, a worker may still end, but not fall asleep again
    have hold := hs.stopped
    have hsame := hs.running
    rw [hcontrol]
    generalize s.control = c at hold hsame ⊢
    cases c with
    | joining k =>
        obtain ⟨hempty, hawake, hexited⟩ := hold
        refine ⟨Nat.eq_zero_of_le_zero (hempty ▸ hcount), ?_, ?_⟩
        · rw [hworkers]
          intro hmem
          rcases List.mem_or_eq_of_mem_set hmem with hmem | heq
          · exact hawake hmem
          · -- it fell asleep, but `running` is cleared
            rw [hasleep heq.symm] at hsame
            exact absurd hsame (by simp [runs])
        · intro j hj
          rw [hworkers, List.getElem?_set_ne ?_]
          · exact hexited j hj
          · rintro rfl
            rw [hexited _ hj] at hw
            exact hlive (Option.some.inj hw).symm
    | returned => exact absurd (hold.2 w (List.mem_of_getElem? hw)) hlive
    | create k => trivial
    | serving => trivial
    | locking => trivial
    | closing => trivial

/-- The listener goes on while the pool serves. -/
theorem Staged.dispatches (hs : Staged s) (hserving : s.control = .serving)
    (hlength : t.workers.length = s.workers.length)
    (hrest : t.control = s.control ∧ t.running = s.running ∧ t.nWorkers = s.nWorkers) :
    Staged t := by
  obtain ⟨hcontrol, hrunning, hn⟩ := hrest
  refine ⟨?_, fun _ => hcontrol.trans hserving, ?_, ?_⟩
  · rw [hrunning, hcontrol]
    exact hs.running
  · have hold := hs.threads
    rw [hserving] at hold
    rw [hcontrol, hserving]
    exact hlength.trans (hold.trans hn.symm)
  · rw [hcontrol, hserving]
    trivial

/-- A round of the shutdown's loop. -/
theorem Staged.closing (hs : Staged s) (hc : s.control = .closing)
    (hworkers : t.workers = s.workers)
    (hrest : t.control = s.control ∧ t.running = s.running ∧ t.dispatch = s.dispatch ∧
      t.nWorkers = s.nWorkers) : Staged t := by
  obtain ⟨hcontrol, hrunning, hdispatch, hn⟩ := hrest
  have hthreads := hs.threads
  rw [hc] at hthreads
  refine ⟨?_, ?_, ?_, ?_⟩
  · rw [hrunning, hcontrol]
    exact hs.running
  · rw [hdispatch, hcontrol]
    exact hs.quiet
  · rw [hcontrol, hc]
    exact (congrArg List.length hworkers).trans (hthreads.trans hn.symm)
  · rw [hcontrol, hc]
    trivial

theorem Staged.step (hs : Staged s) (h : PoolStep s a t) : Staged t := by
  have hserving : ∀ {d : UploadDispatch}, s.dispatch = d → d ≠ .idle → s.control = .serving :=
    fun hd hne => hs.quiet (hd ▸ hne)
  cases h with
  | parserReady hw => exact hs.works hw (by simp) (by simp) rfl (Nat.le_refl _) ⟨rfl, rfl, rfl, rfl⟩
  | parserFailed hw => exact hs.works hw (by simp) (by simp) rfl (Nat.le_refl _) ⟨rfl, rfl, rfl, rfl⟩
  | acquired hw hwaits hlock =>
      refine hs.works hw ?_ (by simp) rfl (Nat.le_refl _) ⟨rfl, rfl, rfl, rfl⟩
      rcases hwaits with rfl | rfl
      · simp
      · simp
  | sleeps hw hcount hrunning =>
      exact hs.works hw (by simp) (fun _ => hrunning) rfl (Nat.le_refl _) ⟨rfl, rfl, rfl, rfl⟩
  | exits hw hcount hrunning =>
      exact hs.works hw (by simp) (by simp) rfl (Nat.le_refl _) ⟨rfl, rfl, rfl, rfl⟩
  | takes hw hsome =>
      refine hs.works hw (by simp) ?_ rfl (Nat.sub_le ..) ⟨rfl, rfl, rfl, rfl⟩
      split <;> simp
  | releases hw => exact hs.works hw (by simp) (by simp) rfl (Nat.le_refl _) ⟨rfl, rfl, rfl, rfl⟩
  | spurious hw => exact hs.works hw (by simp) (by simp) rfl (Nat.le_refl _) ⟨rfl, rfl, rfl, rfl⟩
  | refused hc hd hnot => exact hs.dispatches hc rfl ⟨rfl, rfl, rfl⟩
  | called hc hd hfd hrunning => exact hs.dispatches hc rfl ⟨rfl, rfl, rfl⟩
  | dispatchLocks hd hlock => exact hs.dispatches (hserving hd (by simp)) rfl ⟨rfl, rfl, rfl⟩
  | rejects hd hfull => exact hs.dispatches (hserving hd (by simp)) rfl ⟨rfl, rfl, rfl⟩
  | wakes hd hroom hw =>
      exact hs.dispatches (hserving hd (by simp)) (List.length_set ..) ⟨rfl, rfl, rfl⟩
  | wakesNobody hd hroom hnone =>
      exact hs.dispatches (hserving hd (by simp)) rfl ⟨rfl, rfl, rfl⟩
  -- a dispatch is in flight only while the pool serves, so none is behind this point
  | shutdown hc hd =>
      have hthreads := hs.threads
      have hrunning := hs.running
      rw [hc] at hthreads hrunning
      exact ⟨hrunning, fun hne => absurd hd hne, hthreads, trivial⟩
  | created hc hlt =>
      have hthreads := hs.threads
      have hrunning := hs.running
      rw [hc] at hthreads hrunning
      refine ⟨hrunning, fun hne => absurd (hs.quiet hne) (by simp [hc]), ⟨?_, hlt⟩, trivial⟩
      rw [List.length_append, hthreads.1]
      rfl
  | createFailed hc hlt =>
      have hthreads := hs.threads
      have hrunning := hs.running
      rw [hc] at hthreads hrunning
      exact ⟨hrunning, fun hne => absurd (hs.quiet hne) (by simp [hc]), hthreads.1, trivial⟩
  | serves hc hle =>
      have hthreads := hs.threads
      have hrunning := hs.running
      rw [hc] at hthreads hrunning
      exact ⟨hrunning, fun _ => rfl,
        hthreads.1.trans (Nat.le_antisymm hthreads.2 hle), trivial⟩
  | shutdownLocks hc hlock =>
      have hthreads := hs.threads
      rw [hc] at hthreads
      exact ⟨rfl, fun hne => absurd (hs.quiet hne) (by simp [hc]), hthreads, trivial⟩
  | closes hc hsome hfront => exact hs.closing hc rfl ⟨rfl, rfl, rfl, rfl⟩
  | skips hc hsome hfront => exact hs.closing hc rfl ⟨rfl, rfl, rfl, rfl⟩
  -- everybody is woken, and `running` is cleared: nobody goes back to sleep
  | broadcasts hc hcount =>
      have hthreads := hs.threads
      have hrunning := hs.running
      rw [hc] at hthreads hrunning
      refine ⟨hrunning, fun hne => absurd (hs.quiet hne) (by simp [hc]), ?_, hcount, ?_, ?_⟩
      · exact (List.length_map ..).trans hthreads
      · intro hmem
        obtain ⟨w, _, hw⟩ := List.mem_map.mp hmem
        cases w <;> exact absurd hw (by simp [UploadWorker.awake])
      · exact fun j hj => absurd hj (Nat.not_lt_zero j)
  | @joins created idx hc hexited =>
      have hthreads := hs.threads
      have hrunning := hs.running
      have hstopped := hs.stopped
      rw [hc] at hthreads hrunning hstopped
      obtain ⟨hempty, hawake, hjoined⟩ := hstopped
      refine ⟨hrunning, fun hne => absurd (hs.quiet hne) (by simp [hc]), hthreads, hempty, hawake,
        fun j hj => ?_⟩
      rcases Nat.lt_succ_iff_lt_or_eq.mp hj with hj | rfl
      · exact hjoined j hj
      · exact hexited
  | @returns created idx hc hle =>
      have hthreads := hs.threads
      have hrunning := hs.running
      have hstopped := hs.stopped
      rw [hc] at hthreads hrunning hstopped
      obtain ⟨hempty, _, hjoined⟩ := hstopped
      refine ⟨hrunning, fun hne => absurd (hs.quiet hne) (by simp [hc]), trivial, hempty,
        fun w hw => ?_⟩
      obtain ⟨j, hj⟩ := List.getElem?_of_mem hw
      have hlt : j < s.workers.length := (List.getElem?_eq_some_iff.mp hj).1
      have hexited := hjoined j (Nat.lt_of_lt_of_le (hthreads ▸ hlt) hle)
      exact (Option.some.inj (hexited.symm.trans hj)).symm

/-! ## Every run -/

/-- Everything about a run in one. -/
structure PoolOk (s : UploadPool) : Prop where
  fifo : Fifo s
  settled : Settled s
  staged : Staged s

theorem pool_reachable (h : uploadPool.Reachable s) : PoolOk s := by
  refine h.invariant ?_ ?_
  · intro s hs
    refine ⟨fifo_init hs, fun j => ?_, staged_init hs⟩
    rw [(show s.log = [] from hs.log), drivenBy, (show s.workers = [] from hs.workers)]
    rfl
  · intro s a t _ hs _ hstep
    have h := pool_step hstep
    exact ⟨hs.fifo.step h, hs.settled.step hs.fifo h, hs.staged.step h⟩

/-- How many connections the workers are at work on. -/
def driving (ws : List UploadWorker) : Nat := (ws.map fun w => (drives w).length).sum

theorem driving_le (ws : List UploadWorker) : driving ws ≤ ws.length := by
  unfold driving
  induction ws with
  | nil => exact Nat.le_refl _
  | cons w ws ih =>
      have hone : (drives w).length ≤ 1 := by cases w <;> simp [drives]
      simp only [List.map_cons, List.sum_cons, List.length_cons]
      omega

theorem driving_exited {ws : List UploadWorker} (h : ∀ w ∈ ws, w = .exited) : driving ws = 0 := by
  unfold driving
  induction ws with
  | nil => rfl
  | cons w ws ih =>
      obtain rfl := h w (.head _)
      rw [List.map_cons, List.sum_cons, ih fun w hw => h w (.tail _ hw)]
      rfl

/-- Never more connections than workers and queue entries. -/
theorem PoolOk.owned_le (hs : PoolOk s) :
    s.queue.count + driving s.workers ≤ s.nWorkers + s.qMax := by
  have hdriving := driving_le s.workers
  have hdepth := hs.fifo.depth.1
  have hthreads := hs.staged.threads
  have hstopped := hs.staged.stopped
  generalize s.control = c at hthreads hstopped
  cases c with
  | create idx =>
      obtain ⟨hlength, hle⟩ := hthreads
      omega
  | returned =>
      rw [driving_exited hstopped.2]
      omega
  | _ =>
      have hlength : s.workers.length = s.nWorkers := hthreads
      omega

/-- What a refused dispatch leaves untouched, and when a dispatch is refused. -/
structure Refuses (s : UploadPool) : Prop where
  untouched : ∀ a t fd, uploadPool.step s a = some t → t.log = s.log ++ [.rejected fd] →
    t.queue = s.queue ∧ t.workers = s.workers
  /-- A valid descriptor passes the first test of a pool that runs. -/
  admitted : ∀ fd t, 0 ≤ fd → uploadPool.step s (.call fd) = some t → t.log = s.log
  exactly : ∀ fd wake t, s.dispatch = .holding fd →
    uploadPool.step s (.dispatch wake) = some t →
      t.log = s.log ++ [if s.queue.count = s.qMax then .rejected fd else .dispatched fd]

theorem PoolOk.refuses (hs : PoolOk s) : Refuses s := by
  refine ⟨?_, ?_, ?_⟩
  · intro a t fd hstep hlog
    -- these are the steps that log something else, or nothing
    cases pool_step hstep with
    | refused hc hd hnot => exact ⟨rfl, rfl⟩
    | rejects hd hfull => exact ⟨rfl, rfl⟩
    | takes hw hsome => exact absurd (List.append_cancel_left hlog) (by simp)
    | releases hw => exact absurd (List.append_cancel_left hlog) (by simp)
    | wakes hd hroom hw => exact absurd (List.append_cancel_left hlog) (by simp)
    | wakesNobody hd hroom hnone => exact absurd (List.append_cancel_left hlog) (by simp)
    | closes hc hsome hfront => exact absurd (List.append_cancel_left hlog) (by simp)
    | _ => exact absurd (List.append_cancel_left ((List.append_nil _).trans hlog)) (by simp)
  · intro fd t hfd hstep
    cases pool_step hstep with
    | refused hc hd hnot =>
        have hrunning := hs.staged.running
        rw [hc] at hrunning
        rcases hnot with hneg | hstopped
        · omega
        · exact absurd (hstopped.symm.trans hrunning) (by simp [runs])
    | called hc hd hfd hrunning => rfl
  · intro fd wake t hd hstep
    have hdepth := hs.fifo.depth.1
    cases pool_step hstep with
    | dispatchLocks hd' hlock => exact absurd (hd.symm.trans hd') (by simp)
    | rejects hd' hfull =>
        obtain rfl := UploadDispatch.holding.inj (hd.symm.trans hd')
        rw [if_pos (Nat.le_antisymm hdepth hfull)]
        rfl
    | wakes hd' hroom hw =>
        obtain rfl := UploadDispatch.holding.inj (hd.symm.trans hd')
        rw [if_neg (Nat.ne_of_lt hroom)]
        rfl
    | wakesNobody hd' hroom hnone =>
        obtain rfl := UploadDispatch.holding.inj (hd.symm.trans hd')
        rw [if_neg (Nat.ne_of_lt hroom)]
        rfl

/--
**The upload pool neither loses nor duplicates a connection.** What entered the queue is
what departed from it followed by what it holds, in order; each departure is one worker's
or the shutdown's, and a worker has closed all it took but for what it is at work on.
-/
theorem upload_pool_conserves (h : uploadPool.Reachable s) :
    (s.queue.tail = (s.queue.head + s.queue.count) % uploadQueueMax ∧
      s.queue.count ≤ s.qMax ∧ (s.queue.contents uploadQueueMax).length = s.queue.count) ∧
    entered s.log = departed s.log ++ s.queue.contents uploadQueueMax ∧
    (∀ j, takenBy j s.log = releasedBy j s.log ++ drivenBy j s.workers) ∧
    Refuses s ∧
    s.queue.count + driving s.workers ≤ s.nWorkers + s.qMax ∧
    (s.control = .returned → s.queue.count = 0 ∧ (∀ w ∈ s.workers, w = .exited) ∧
      entered s.log = departed s.log) := by
  have hs := pool_reachable h
  refine ⟨⟨hs.fifo.wrapped.tail, hs.fifo.depth.1, ?_⟩, hs.fifo.order, hs.settled, hs.refuses,
    hs.owned_le, ?_⟩
  · exact RingQueue.length_contents hs.fifo.wrapped
  · intro hc
    have hstopped := hs.staged.stopped
    rw [hc] at hstopped
    have horder := hs.fifo.order
    rw [RingQueue.contents_of_count_eq_zero hstopped.1, List.append_nil] at horder
    exact ⟨hstopped.1, hstopped.2, horder⟩

/-- One descriptor goes to the worker, one is refused, one is closed by the shutdown. -/
theorem upload_pool_conserves_three : ∃ s : UploadPool, s.control = .returned ∧
    entered s.log = [7, 9] ∧ departed s.log = [7, 9] := by
  have hinit : uploadPool.Reachable UploadPool.small := .init init_small
  obtain ⟨t, ht, hreturned⟩ := hinit.exists_of_run
    [.control true, .control true, .call 7, .dispatch 0, .dispatch 0, .call 8, .dispatch 0,
      .dispatch 0, .worker 0 true, .worker 0 true, .worker 0 true, .call 9, .dispatch 0,
      .dispatch 0, .shutdown, .control true, .control true, .control true, .worker 0 true,
      .worker 0 true, .worker 0 true, .control true, .control true]
    (fun s => s.control == .returned && entered s.log == [7, 9]) (by decide +kernel)
  simp only [Bool.and_eq_true, beq_iff_eq] at hreturned
  obtain ⟨hc, hentered⟩ := hreturned
  obtain ⟨_, _, _, _, _, hlast⟩ := upload_pool_conserves ht
  exact ⟨t, hc, hentered, (hlast hc).2.2 ▸ hentered⟩

/-! ## The mutex -/

/-- Whoever is between its lock and its unlock has the mutex. -/
structure Mutex (s : UploadPool) : Prop where
  worker : ∀ j, s.workers[j]? = some .testing → s.lock = some (.worker j)
  dispatch : ∀ fd, s.dispatch = .holding fd → s.lock = some .dispatch
  shutdown : s.control = .closing → s.lock = some .shutdown

/-- A worker goes on without the mutex, before and after. -/
theorem Mutex.works {w' : UploadWorker} (hs : Mutex s) (hw : s.workers[idx]? = some w)
    (hw' : w' ≠ .testing) (hworkers : t.workers = s.workers.set idx w')
    (hrest : t.lock = s.lock ∧ t.dispatch = s.dispatch ∧ t.control = s.control) : Mutex t := by
  obtain ⟨hlock, hdispatch, hcontrol⟩ := hrest
  refine ⟨?_, ?_, ?_⟩
  · intro j hj
    rw [hworkers] at hj
    by_cases hne : idx = j
    · subst hne
      obtain ⟨hlt, _⟩ := List.getElem?_eq_some_iff.mp hw
      rw [List.getElem?_set_self hlt] at hj
      exact absurd (Option.some.inj hj) hw'
    · rw [List.getElem?_set_ne hne] at hj
      exact hlock.trans (hs.worker j hj)
  · rw [hlock, hdispatch]
    exact hs.dispatch
  · rw [hlock, hcontrol]
    exact hs.shutdown

/-- A worker lets go of the mutex. -/
theorem Mutex.unlocks {w' : UploadWorker} (hs : Mutex s)
    (hw : s.workers[idx]? = some .testing) (hw' : w' ≠ .testing)
    (hworkers : t.workers = s.workers.set idx w')
    (hrest : t.dispatch = s.dispatch ∧ t.control = s.control) : Mutex t := by
  obtain ⟨hdispatch, hcontrol⟩ := hrest
  have hlock := hs.worker idx hw
  refine ⟨?_, ?_, ?_⟩
  · intro j hj
    rw [hworkers] at hj
    by_cases hne : idx = j
    · subst hne
      obtain ⟨hlt, _⟩ := List.getElem?_eq_some_iff.mp hw
      rw [List.getElem?_set_self hlt] at hj
      exact absurd (Option.some.inj hj) hw'
    · rw [List.getElem?_set_ne hne] at hj
      have hother := hs.worker j hj
      rw [hlock] at hother
      exact absurd (Holder.worker.inj (Option.some.inj hother)) hne
  · intro fd hd
    have hother := hs.dispatch fd (hdispatch ▸ hd)
    exact absurd (hlock.symm.trans hother) (by simp)
  · intro hc
    have hother := hs.shutdown (hcontrol ▸ hc)
    exact absurd (hlock.symm.trans hother) (by simp)

theorem Mutex.step (hs : Mutex s) (h : PoolStep s a t) : Mutex t := by
  -- nobody is inside while the mutex is free, and nobody else while somebody has it
  have hworker : ∀ {j : Nat} {l : Option Holder}, s.lock = l → l ≠ some (.worker j) →
      s.workers[j]? ≠ some .testing :=
    fun hl hne hj => hne (hl.symm.trans (hs.worker _ hj))
  have hdispatch : ∀ {fd : Int} {l : Option Holder}, s.lock = l → l ≠ some .dispatch →
      s.dispatch ≠ .holding fd := fun hl hne hd => hne (hl.symm.trans (hs.dispatch _ hd))
  have hshutdown : ∀ {l : Option Holder}, s.lock = l → l ≠ some .shutdown →
      s.control ≠ .closing := fun hl hne hc => hne (hl.symm.trans (hs.shutdown hc))
  -- the listener lets go of the mutex
  have hlistener : ∀ {fd : Int} {u : UploadPool}, s.dispatch = .holding fd → u.dispatch = .idle →
      u.control = s.control → (∀ j : Nat, u.workers[j]? = some UploadWorker.testing →
        s.workers[j]? = some UploadWorker.testing) →
      Mutex u := by
    intro fd u hd hidle hcontrol hworkers
    have hlock := hs.dispatch fd hd
    refine ⟨fun j hj => ?_, fun fd' hd' => ?_, fun hc => ?_⟩
    · exact absurd (hworkers j hj) (hworker hlock (by simp))
    · exact absurd (hidle.symm.trans hd') (by simp)
    · exact absurd (hcontrol ▸ hc) (hshutdown hlock (by simp))
  cases h with
  | parserReady hw => exact hs.works hw (by simp) rfl ⟨rfl, rfl, rfl⟩
  | parserFailed hw => exact hs.works hw (by simp) rfl ⟨rfl, rfl, rfl⟩
  | @acquired idx w parser hw hwaits hlock =>
      refine ⟨fun j hj => ?_, fun fd hd => ?_, fun hc => ?_⟩
      · by_cases hne : idx = j
        · rw [hne]
          rfl
        · have hold : s.workers[j]? = some .testing := (List.getElem?_set_ne hne).symm.trans hj
          exact absurd hold (hworker hlock (by simp))
      · exact absurd hd (hdispatch hlock (by simp))
      · exact absurd hc (hshutdown hlock (by simp))
  | sleeps hw hcount hrunning => exact hs.unlocks hw (by simp) rfl ⟨rfl, rfl⟩
  | exits hw hcount hrunning => exact hs.unlocks hw (by simp) rfl ⟨rfl, rfl⟩
  | takes hw hsome =>
      refine hs.unlocks hw ?_ rfl ⟨rfl, rfl⟩
      split <;> simp
  | releases hw => exact hs.works hw (by simp) rfl ⟨rfl, rfl, rfl⟩
  | spurious hw => exact hs.works hw (by simp) rfl ⟨rfl, rfl, rfl⟩
  | refused hc hd hnot => exact ⟨hs.worker, hs.dispatch, hs.shutdown⟩
  | called hc hd hfd hrunning =>
      exact ⟨hs.worker, fun fd' hd' => absurd hd' (by simp), hs.shutdown⟩
  | dispatchLocks hd hlock =>
      refine ⟨fun j hj => ?_, fun _ _ => rfl, fun hc => ?_⟩
      · exact absurd hj (hworker hlock (by simp))
      · exact absurd hc (hshutdown hlock (by simp))
  | rejects hd hfull => exact hlistener hd rfl rfl fun j => id
  | @wakes wake fd hd hroom hw =>
      refine hlistener hd rfl rfl fun j hj => ?_
      by_cases hne : wake = j
      · subst hne
        obtain ⟨hlt, _⟩ := List.getElem?_eq_some_iff.mp hw
        have hwoken := (List.getElem?_set_self hlt).symm.trans hj
        exact absurd (Option.some.inj hwoken) (by simp)
      · exact (List.getElem?_set_ne hne).symm.trans hj
  | wakesNobody hd hroom hnone => exact hlistener hd rfl rfl fun j => id
  | shutdown hc hd => exact ⟨hs.worker, hs.dispatch, fun hc' => absurd hc' (by simp)⟩
  | created hc hlt =>
      refine ⟨fun j hj => hs.worker j ?_, hs.dispatch, fun hc' => absurd hc' (by simp)⟩
      rw [List.getElem?_append] at hj
      split at hj
      · exact hj
      · obtain ⟨_, heq⟩ := List.getElem?_eq_some_iff.mp hj
        exact absurd heq (by simp)
  | createFailed hc hlt => exact ⟨hs.worker, hs.dispatch, fun hc' => absurd hc' (by simp)⟩
  | serves hc hle => exact ⟨hs.worker, hs.dispatch, fun hc' => absurd hc' (by simp)⟩
  | shutdownLocks hc hlock =>
      refine ⟨fun j hj => ?_, fun fd hd => ?_, fun _ => rfl⟩
      · exact absurd hj (hworker hlock (by simp))
      · exact absurd hd (hdispatch hlock (by simp))
  | closes hc hsome hfront => exact ⟨hs.worker, hs.dispatch, hs.shutdown⟩
  | skips hc hsome hfront => exact ⟨hs.worker, hs.dispatch, hs.shutdown⟩
  | broadcasts hc hcount =>
      have hlock := hs.shutdown hc
      refine ⟨fun j hj => ?_, fun fd hd => ?_, fun hc' => absurd hc' (by simp)⟩
      · rw [List.getElem?_map] at hj
        obtain ⟨w, hw, hawake⟩ := Option.map_eq_some_iff.mp hj
        have htesting : w = .testing := by
          cases w <;> first | exact hawake | exact absurd hawake (by simp [UploadWorker.awake])
        exact absurd (htesting ▸ hw) (hworker hlock (by simp))
      · exact absurd hd (hdispatch hlock (by simp))
  | joins hc hexited => exact ⟨hs.worker, hs.dispatch, fun hc' => absurd hc' (by simp)⟩
  | returns hc hle => exact ⟨hs.worker, hs.dispatch, fun hc' => absurd hc' (by simp)⟩

/-- **No two threads are inside at once**, so what each does there is one step. -/
theorem mutex_reachable (h : uploadPool.Reachable s) : Mutex s := by
  refine h.invariant ?_ ?_
  · intro s hs
    refine ⟨fun j hj => ?_, fun fd hd => ?_, fun hc => ?_⟩
    · rw [(show s.workers = [] from hs.workers)] at hj
      exact absurd hj (by simp)
    · exact absurd ((show s.dispatch = .idle from hs.dispatch).symm.trans hd) (by simp)
    · exact absurd ((show s.control = .create 0 from hs.control).symm.trans hc) (by simp)
  · intro s a t _ hs _ hstep
    exact hs.step (pool_step hstep)

end DBServer.Proof
