import DBServer.Worker.Server
import DBServer.Proof.Table

/-!
# What one step of the server can do

`ServerStep` lists every outcome of every step. The listener and the main thread mostly
move on after having read something (`ListenerMove`, `MainMove`); the rest of their
steps, and every step of an operator's thread, change one operator. What is settled
about a single operator carries over to all of them by `operators_reachable`.
-/

namespace DBServer.Proof

open DBServer Lib Operator Server

variable {H : DbHttp} {s t : Server H} {th th' : OperatorThread H} {idx j : Nat}

/-! ## Reading and moving on -/

/-- The operator the listener is about to access. -/
def target : Listening → Option Nat
  | .weighing _ scan | .comparing _ scan _ => some scan.idx
  | .chosen _ idx | .pushing _ idx | .pushed idx | .counted idx => some idx
  | _ => none

/-- The listener moves on without a change to anything else. -/
inductive ListenerMove (s : Server H) : Listening → Listening → Prop where
  | admitted {fd : Int} : s.worker.status = .active →
      ListenerMove s (.accepted fd) (.testing fd Scan.start)
  | rejected {fd : Int} : s.worker.status ≠ .active → ListenerMove s (.accepted fd) (.refused fd)
  | best {fd : Int} {scan : Scan} {idx : Nat} : s.operators[scan.idx]? = none →
      scan.result = some idx → ListenerMove s (.testing fd scan) (.chosen fd idx)
  | noCandidate {fd : Int} {scan : Scan} : s.operators[scan.idx]? = none → scan.result = none →
      ListenerMove s (.testing fd scan) (.refused fd)
  | skipped {fd : Int} {scan : Scan} {th : OperatorThread H} : s.operators[scan.idx]? = some th →
      th.state.status = .full → ListenerMove s (.testing fd scan) (.testing fd scan.next)
  | tested {fd : Int} {scan : Scan} {th : OperatorThread H} : s.operators[scan.idx]? = some th →
      th.state.status ≠ .full → ListenerMove s (.testing fd scan) (.weighing fd scan)
  | weighed {fd : Int} {scan : Scan} {th : OperatorThread H} : s.operators[scan.idx]? = some th →
      ListenerMove s (.weighing fd scan) (.comparing fd scan th.state.activeClients)
  | blind {fd : Int} {scan : Scan} {active idx : Nat} {th : OperatorThread H} :
      s.operators[scan.idx]? = some th →
      scan.compare s.worker.maxClients active th.state.queuedClients = .inl idx →
      ListenerMove s (.comparing fd scan active) (.chosen fd idx)
  | healthy {fd : Int} {idx : Nat} {th : OperatorThread H} : s.operators[idx]? = some th →
      th.state.healthy = true → ListenerMove s (.chosen fd idx) (.pushing fd idx)
  | unhealthy {fd : Int} {idx : Nat} {th : OperatorThread H} : s.operators[idx]? = some th →
      th.state.healthy = false → ListenerMove s (.chosen fd idx) (.refused fd)
  | ringFull {fd : Int} {idx : Nat} {th : OperatorThread H} : s.operators[idx]? = some th →
      th.state.ringCapacity ≤ th.state.ring.length →
      ListenerMove s (.pushing fd idx) (.refused fd)
  | crashed {l : Listening} {idx : Nat} : target l = some idx → s.operators[idx]? = none →
      ListenerMove s l .crashed

/-- The main thread moves on without a change to the worker. -/
inductive MainMove (s : Server H) : Running → Running → List ServerEvent → Prop where
  | createFailed {idx : Nat} {th : OperatorThread H} : s.operators[idx]? = some th →
      MainMove s (.create idx) (.undoStore 0 idx) [.createFailed idx]
  | undone {idx upTo : Nat} : upTo ≤ idx →
      MainMove s (.undoStore idx upTo) (.returned .failure) [.returned .failure]
  | undoJoined {idx upTo : Nat} : (s.operators[idx]?.map fun th => th.code).getD [] = [] →
      MainMove s (.undoJoin idx upTo) (.undoStore (idx + 1) upTo) []
  | opened {idx : Nat} : s.operators[idx]? = none →
      MainMove s (.gate idx) (.returned .success) [.returned .success]
  | awaits {idx : Nat} {th : OperatorThread H} : s.operators[idx]? = some th →
      MainMove s (.gate idx) (.poll idx (s.clock + workerOperatorInitTimeout))
        [.awaited idx s.clock]
  | early {idx deadline : Nat} {th : OperatorThread H} : s.operators[idx]? = some th →
      th.state.status = .initializing → MainMove s (.poll idx deadline) (.late idx deadline) []
  | passed {idx deadline : Nat} {th : OperatorThread H} : s.operators[idx]? = some th →
      th.state.status = .active → MainMove s (.poll idx deadline) (.gate (idx + 1)) []
  | failed {idx deadline : Nat} {th : OperatorThread H} : s.operators[idx]? = some th →
      th.state.status ≠ .initializing → th.state.status ≠ .active →
      MainMove s (.poll idx deadline) (.destroy .inactive false) []
  | timedOut {idx deadline : Nat} : deadline ≤ s.clock →
      MainMove s (.late idx deadline) (.destroy .inactive false) []
  | retried {idx deadline : Nat} : s.clock < deadline →
      MainMove s (.late idx deadline) (.poll idx deadline) []
  | allStored {idx : Nat} {last : Bool} : s.operators[idx]? = none →
      MainMove s (.destroy (.store idx) last) (.destroy (.join 0) last) []
  | joined {idx : Nat} {last : Bool} {th : OperatorThread H} : s.operators[idx]? = some th →
      th.code = [] → MainMove s (.destroy (.join idx) last) (.destroy (.join (idx + 1)) last) []
  | allJoined {idx : Nat} {last : Bool} : s.operators[idx]? = none →
      MainMove s (.destroy (.join idx) last) (.destroy .free last) []
  | stopped {rc : Status} : s.listener = .stopped →
      MainMove s (.returned rc) (.total (s.clock + serverShutdownGrace) 0 0) []
  | added {deadline idx sum : Nat} {th : OperatorThread H} : s.operators[idx]? = some th →
      MainMove s (.total deadline idx sum)
        (.total deadline (idx + 1) ((sum + th.state.activeClients) % 2 ^ 32)) []
  | drained {deadline idx : Nat} : s.operators[idx]? = none →
      MainMove s (.total deadline idx 0) (.destroy .inactive true) [.drained]
  | busy {deadline idx sum : Nat} : s.operators[idx]? = none → sum ≠ 0 →
      MainMove s (.total deadline idx sum) (.waiting deadline) []
  | graceOver {deadline : Nat} : deadline ≤ s.clock →
      MainMove s (.waiting deadline) (.destroy .inactive true) []
  | again {deadline : Nat} : s.clock < deadline →
      MainMove s (.waiting deadline) (.total deadline 0 0) []

/-- The main thread changes one operator and moves on. -/
inductive MainTouch : Running → Nat → (Operator H → Operator H) → Running → Prop where
  | undoStore {idx upTo : Nat} : idx < upTo →
      MainTouch (.undoStore idx upTo) idx shutdownRequested (.undoWrite idx upTo)
  | undoWrite {idx upTo : Nat} : MainTouch (.undoWrite idx upTo) idx wake (.undoJoin idx upTo)
  | store {idx : Nat} {last : Bool} : MainTouch (.destroy (.store idx) last) idx shutdownRequested
      (.destroy (.write idx) last)
  | write {idx : Nat} {last : Bool} :
      MainTouch (.destroy (.write idx) last) idx wake (.destroy (.store (idx + 1)) last)

/-- Every outcome of a step of the server. -/
inductive ServerStep (s : Server H) : ServerAct H → Server H → Prop where
  | accepted {fd : Int} : s.listener = .waiting → 0 ≤ fd → s.Fresh fd →
      ServerStep s (.accept fd) ((s.listen (.accepted fd)).note [.accepted fd])
  | listens {l : Listening} : ListenerMove s s.listener l → ServerStep s .listener (s.listen l)
  | compared {fd : Int} {scan scan' : Scan} {active : Nat} {th : OperatorThread H} :
      s.listener = .comparing fd scan active → s.operators[scan.idx]? = some th →
      scan.compare s.worker.maxClients active th.state.queuedClients = .inr scan' →
      ServerStep s .listener { s.listen (.testing fd scan') with
        worker := if scan'.saturated s.operators.length then { s.worker with status := .full }
          else s.worker }
  | pushed {fd : Int} {idx : Nat} {th : OperatorThread H} : s.listener = .pushing fd idx →
      s.operators[idx]? = some th → th.state.ring.length < th.state.ringCapacity →
      ServerStep s .listener (((s.setThread idx
        ⟨{ th.state with ring := th.state.ring ++ [fd] }, th.code⟩).listen (.pushed idx)).note
          [.pushed fd idx th.state.status])
  | counted {idx : Nat} {th : OperatorThread H} : s.listener = .pushed idx →
      s.operators[idx]? = some th →
      ServerStep s .listener ((s.update idx enqueued).listen (.counted idx))
  | woken {idx : Nat} {th : OperatorThread H} : s.listener = .counted idx →
      s.operators[idx]? = some th → ServerStep s .listener ((s.update idx wake).listen .waiting)
  | refused {fd : Int} : s.listener = .refused fd →
      ServerStep s .listener ((s.listen .waiting).note [.closed fd])
  | listenerStops : s.listener = .waiting → ServerStep s .stop (s.listen .stopped)
  | executed {idx : Nat} {w : Answers H} {th : OperatorThread H} {i : Instr} {op' : Operator H}
      {new rest : List Instr} : s.operators[idx]? = some th → th.code = i :: rest →
      Executes th.state w i op' new → ServerStep s (.operator idx w)
        ((s.setThread idx ⟨op', new ++ rest⟩).note (shown idx s.clock th ⟨op', new ++ rest⟩))
  | moves {created : Bool} {m : Running} {es : List ServerEvent} : MainMove s s.main m es →
      ServerStep s (.main created) ((s.goTo m).note es)
  | allCreated {created : Bool} {idx : Nat} : s.main = .create idx → s.operators[idx]? = none →
      ServerStep s (.main created)
        ({ s with worker := { s.worker with threadsStarted := true } }.goTo (.gate 0))
  | created {idx : Nat} {th : OperatorThread H} : s.main = .create idx →
      s.operators[idx]? = some th → ServerStep s (.main true)
        ((s.setThread idx ⟨th.state, [.initParsers]⟩).goTo (.create (idx + 1)))
  | touches {created : Bool} {idx : Nat} {f : Operator H → Operator H} {m : Running} :
      MainTouch s.main idx f m → ServerStep s (.main created) ((s.update idx f).goTo m)
  | inactive {created : Bool} {last : Bool} : s.main = .destroy .inactive last →
      ServerStep s (.main created) ({ s with worker := { s.worker with status := .inactive } }.goTo
        (.destroy (if s.worker.threadsStarted then .store 0 else .free) last))
  | freed {created : Bool} : s.main = .destroy .free true →
      ServerStep s (.main created) (s.freed.goTo .done)
  | givenUp {created : Bool} : s.main = .destroy .free false →
      ServerStep s (.main created) (s.freed.runReturns .failure)
  | ticked {n : Nat} : ServerStep s (.tick n) { s with clock := s.clock + n }
  | requestStored {idx : Nat} : ServerStep s (.requestStore idx)
      ((s.update idx shutdownRequested).note [.requested idx])
  | requestWritten {idx : Nat} : ServerStep s (.requestWrite idx) (s.update idx wake)

@[simp] theorem note_nil (s : Server H) : s.note [] = s := by simp [note]

/-- Changing an operator that is there sets it. -/
theorem update_eq_setThread (f : Operator H → Operator H) (h : s.operators[idx]? = some th) :
    s.update idx f = s.setThread idx ⟨f th.state, th.code⟩ := by
  have hlist : s.operators.modify idx (fun t => ⟨f t.state, t.code⟩) =
      s.operators.set idx ⟨f th.state, th.code⟩ := by
    refine List.ext_getElem? fun j => ?_
    rw [List.getElem?_modify, List.getElem?_set]
    by_cases hj : idx = j
    · subst hj
      obtain ⟨hlt, hself⟩ := List.getElem?_eq_some_iff.mp h
      simp [hlt, ← hself]
    · simp [hj]
  exact congrArg (fun ops => { s with worker := { s.worker with operators := ops } }) hlist

theorem stepListener_step (h : s.stepListener = some t) : ServerStep s .listener t := by
  unfold stepListener at h
  split at h
  · exact absurd h (by simp)
  · exact absurd h (by simp)
  · exact absurd h (by simp)
  · rename_i fd hl
    obtain rfl := Option.some.inj h
    refine .listens ?_
    rw [hl]
    split
    · exact .admitted ‹_›
    · exact .rejected ‹_›
  · rename_i fd scan hl
    split at h
    · rename_i hnone
      obtain rfl := Option.some.inj h
      refine .listens ?_
      rw [hl]
      split
      · exact .best hnone ‹_›
      · exact .noCandidate hnone ‹_›
    · rename_i th hth
      obtain rfl := Option.some.inj h
      refine .listens ?_
      rw [hl]
      split
      · exact .skipped hth ‹_›
      · exact .tested hth ‹_›
  · rename_i fd scan hl
    split at h
    · obtain rfl := Option.some.inj h
      exact .listens (.crashed (by rw [hl]; rfl) ‹_›)
    · obtain rfl := Option.some.inj h
      refine .listens ?_
      rw [hl]
      exact .weighed ‹_›
  · rename_i fd scan active hl
    split at h
    · obtain rfl := Option.some.inj h
      exact .listens (.crashed (by rw [hl]; rfl) ‹_›)
    · rename_i th hth
      split at h
      · obtain rfl := Option.some.inj h
        refine .listens ?_
        rw [hl]
        exact .blind hth ‹_›
      · obtain rfl := Option.some.inj h
        exact .compared hl hth ‹_›
  · -- what the listener does with an operator it has chosen
    rename_i fd idx hl
    split at h
    · obtain rfl := Option.some.inj h
      exact .listens (.crashed (by rw [hl]; rfl) ‹_›)
    · rename_i th hth
      obtain rfl := Option.some.inj h
      refine .listens ?_
      rw [hl]
      split
      · exact .healthy hth ‹_›
      · exact .unhealthy hth (Bool.eq_false_of_not_eq_true ‹_›)
  · rename_i fd idx hl
    split at h
    · obtain rfl := Option.some.inj h
      exact .listens (.crashed (by rw [hl]; rfl) ‹_›)
    · rename_i th hth
      unfold Operator.push at h
      split at h
      · rename_i hpush
        obtain rfl := Option.some.inj h
        refine .listens ?_
        rw [hl]
        refine .ringFull hth ?_
        by_contra hroom
        rw [if_pos (Nat.lt_of_not_le hroom)] at hpush
        exact absurd hpush (by simp)
      · rename_i op hpush
        obtain ⟨hroom, hop⟩ := Option.ite_none_right_eq_some.mp hpush
        obtain rfl := Option.some.inj hop
        obtain rfl := Option.some.inj h
        rw [update_eq_setThread _ hth]
        exact .pushed hl hth hroom
  · rename_i idx hl
    split at h
    · obtain rfl := Option.some.inj h
      exact .listens (.crashed (by rw [hl]; rfl) ‹_›)
    · obtain rfl := Option.some.inj h
      exact .counted hl ‹_›
  · rename_i idx hl
    split at h
    · obtain rfl := Option.some.inj h
      exact .listens (.crashed (by rw [hl]; rfl) ‹_›)
    · obtain rfl := Option.some.inj h
      exact .woken hl ‹_›
  · obtain rfl := Option.some.inj h
    exact .refused ‹_›

/-- A move that shows nothing. -/
theorem ServerStep.moved {created : Bool} {m : Running} (h : MainMove s s.main m []) :
    ServerStep s (.main created) (s.goTo m) := by
  have hstep : ServerStep s (.main created) ((s.goTo m).note []) := .moves h
  rwa [note_nil] at hstep

theorem stepDestroy_step {created last : Bool} {stage : Destroying}
    (hm : s.main = .destroy stage last) (h : s.stepDestroy last stage = some t) :
    ServerStep s (.main created) t := by
  cases stage with
  | inactive =>
      obtain rfl := Option.some.inj h
      exact .inactive hm
  | store idx =>
      obtain rfl := Option.some.inj h
      split
      · refine .moved ?_
        rw [hm]
        exact .allStored ‹_›
      · refine .touches ?_
        rw [hm]
        exact .store
  | write idx =>
      obtain rfl := Option.some.inj h
      refine .touches ?_
      rw [hm]
      exact .write
  | join idx =>
      rw [stepDestroy] at h
      split at h
      · obtain rfl := Option.some.inj h
        refine .moved ?_
        rw [hm]
        exact .allJoined ‹_›
      · rename_i th hth
        obtain ⟨hcode, ht⟩ := Option.ite_none_right_eq_some.mp h
        obtain rfl := Option.some.inj ht
        refine .moved ?_
        rw [hm]
        exact .joined hth hcode
  | free =>
      cases last with
      | true => exact Option.some.inj h ▸ .freed hm
      | false => exact Option.some.inj h ▸ .givenUp hm

theorem stepMain_step {created : Bool} (h : s.stepMain created = some t) :
    ServerStep s (.main created) t := by
  unfold stepMain at h
  split at h
  · rename_i idx hm
    obtain rfl := Option.some.inj h
    split
    · exact .allCreated hm ‹_›
    · rename_i th hth
      split
      · rename_i hc
        subst hc
        exact .created hm hth
      · refine .moves ?_
        rw [hm]
        exact .createFailed hth
  · rename_i idx upTo hm
    obtain rfl := Option.some.inj h
    split
    · refine .touches ?_
      rw [hm]
      exact .undoStore ‹_›
    · refine .moves ?_
      rw [hm]
      exact .undone (Nat.le_of_not_lt ‹_›)
  · rename_i idx upTo hm
    obtain rfl := Option.some.inj h
    refine .touches ?_
    rw [hm]
    exact .undoWrite
  · rename_i idx upTo hm
    obtain ⟨hcode, ht⟩ := Option.ite_none_right_eq_some.mp h
    obtain rfl := Option.some.inj ht
    refine .moved ?_
    rw [hm]
    exact .undoJoined hcode
  · rename_i idx hm
    obtain rfl := Option.some.inj h
    split
    · refine .moves ?_
      rw [hm]
      exact .opened ‹_›
    · refine .moves ?_
      rw [hm]
      exact .awaits ‹_›
  · rename_i idx deadline hm
    split at h
    · exact absurd h (by simp)
    · rename_i th hth
      obtain rfl := Option.some.inj h
      refine .moved ?_
      rw [hm]
      split
      · exact .early hth ‹_›
      · split
        · exact .passed hth ‹_›
        · exact .failed hth ‹_› ‹_›
  · rename_i idx deadline hm
    obtain rfl := Option.some.inj h
    refine .moved ?_
    rw [hm]
    split
    · exact .timedOut ‹_›
    · exact .retried (Nat.lt_of_not_le ‹_›)
  · exact stepDestroy_step ‹_› h
  · rename_i rc hm
    obtain ⟨hl, ht⟩ := Option.ite_none_right_eq_some.mp h
    obtain rfl := Option.some.inj ht
    refine .moved ?_
    rw [hm]
    exact .stopped hl
  · rename_i deadline idx sum hm
    obtain rfl := Option.some.inj h
    split
    · refine .moved ?_
      rw [hm]
      exact .added ‹_›
    · split
      · rename_i hsum
        subst hsum
        refine .moves ?_
        rw [hm]
        exact .drained ‹_›
      · refine .moved ?_
        rw [hm]
        exact .busy ‹_› ‹_›
  · rename_i deadline hm
    obtain rfl := Option.some.inj h
    refine .moved ?_
    rw [hm]
    split
    · exact .graceOver ‹_›
    · exact .again (Nat.lt_of_not_le ‹_›)
  · exact absurd h (by simp)

theorem server_step {a : ServerAct H} (h : (server H).step s a = some t) : ServerStep s a t := by
  cases a with
  | accept fd =>
      obtain ⟨⟨hl, hfd, hfresh⟩, ht⟩ := Option.ite_none_right_eq_some.mp h
      exact Option.some.inj ht ▸ .accepted hl hfd hfresh
  | listener => exact stepListener_step h
  | stop =>
      obtain ⟨hl, ht⟩ := Option.ite_none_right_eq_some.mp h
      exact Option.some.inj ht ▸ .listenerStops hl
  | operator idx w =>
      obtain ⟨th, hth, hstep⟩ := Option.bind_eq_some_iff.mp h
      obtain ⟨th', hexec, rfl⟩ := Option.map_eq_some_iff.mp hstep
      obtain ⟨i, rest, new, hcode, hexecutes, hcode'⟩ := step_executes hexec
      obtain ⟨op', code'⟩ := th'
      obtain rfl : code' = new ++ rest := hcode'
      exact .executed hth hcode hexecutes
  | main created => exact stepMain_step h
  | tick n => exact Option.some.inj h ▸ .ticked
  | requestStore idx =>
      obtain ⟨_, ht⟩ := Option.ite_none_right_eq_some.mp h
      exact Option.some.inj ht ▸ .requestStored
  | requestWrite idx =>
      obtain ⟨_, ht⟩ := Option.ite_none_right_eq_some.mp h
      exact Option.some.inj ht ▸ .requestWritten

/-! ## One operator among them -/

/-- What can happen to an operator and its thread, whoever does it. -/
inductive Touched : OperatorThread H → OperatorThread H → Prop where
  | executed {th : OperatorThread H} {i : Instr} {w : Answers H} {op' : Operator H}
      {new rest : List Instr} : th.code = i :: rest → Executes th.state w i op' new →
      Touched th ⟨op', new ++ rest⟩
  | started {th : OperatorThread H} : Touched th ⟨th.state, [.initParsers]⟩
  | pushed {th : OperatorThread H} {fd : Int} : 0 ≤ fd →
      th.state.ring.length < th.state.ringCapacity →
      Touched th ⟨{ th.state with ring := th.state.ring ++ [fd] }, th.code⟩
  | enqueued {th : OperatorThread H} : Touched th ⟨th.state.enqueued, th.code⟩
  | woken {th : OperatorThread H} : Touched th ⟨th.state.wake, th.code⟩
  | requested {th : OperatorThread H} : Touched th ⟨th.state.shutdownRequested, th.code⟩

theorem getElem?_setThread (hth : s.operators[idx]? = some th) :
    (s.setThread idx th').operators[j]? = if idx = j then some th' else s.operators[j]? := by
  obtain ⟨hlt, _⟩ := List.getElem?_eq_some_iff.mp hth
  have hset : (s.setThread idx th').operators = s.operators.set idx th' := rfl
  rw [hset, List.getElem?_set, if_pos hlt]

/-- An operator of the server after one of them was replaced. -/
theorem setThread_cases {th'' : OperatorThread H} (hth : s.operators[idx]? = some th)
    (h : (s.setThread idx th').operators[j]? = some th'') :
    (j = idx ∧ th'' = th') ∨ (j ≠ idx ∧ s.operators[j]? = some th'') := by
  rw [getElem?_setThread hth] at h
  split at h
  · rename_i heq
    exact .inl ⟨heq.symm, (Option.some.inj h).symm⟩
  · rename_i hne
    exact .inr ⟨fun heq => hne heq.symm, h⟩

theorem update_cases {f : Operator H → Operator H} {th'' : OperatorThread H}
    (h : (s.update idx f).operators[j]? = some th'') :
    (j = idx ∧ ∃ th, s.operators[idx]? = some th ∧ th'' = ⟨f th.state, th.code⟩) ∨
      (j ≠ idx ∧ s.operators[j]? = some th'') := by
  cases hth : s.operators[idx]? with
  | none =>
      have hsame : (s.update idx f).operators = s.operators :=
        List.modify_eq_self (List.getElem?_eq_none_iff.mp hth)
      rw [hsame] at h
      refine .inr ⟨?_, h⟩
      rintro rfl
      rw [hth] at h
      exact absurd h (by simp)
  | some th =>
      rw [update_eq_setThread f hth] at h
      rcases setThread_cases hth h with ⟨rfl, rfl⟩ | hother
      · exact .inl ⟨rfl, th, rfl, rfl⟩
      · exact .inr hother

/-- What `operator_init` set up stays. -/
theorem Touched.fixed (h : Touched th th') : Fixed th.state th'.state := by
  cases h with
  | executed hcode hexec => exact hexec.fixed
  | _ => exact ⟨rfl, rfl, rfl, rfl, rfl⟩

theorem MainTouch.touched {m m' : Running} {f : Operator H → Operator H}
    (h : MainTouch m idx f m') (th : OperatorThread H) : Touched th ⟨f th.state, th.code⟩ := by
  cases h with
  | undoStore hlt => exact .requested
  | undoWrite => exact .woken
  | store => exact .requested
  | write => exact .woken

/-- The descriptor the listener is at work on is a valid one. -/
def InHand : Listening → Int → Prop
  | .accepted fd, x | .testing fd _, x | .weighing fd _, x | .comparing fd _ _, x
  | .chosen fd _, x | .pushing fd _, x | .refused fd, x => fd = x
  | _, _ => False

theorem ListenerMove.inHand {l l' : Listening} {x : Int} (h : ListenerMove s l l')
    (hx : InHand l' x) : InHand l x := by
  cases h with
  | crashed htarget hnone => exact absurd hx id
  | _ => exact hx

/-- **Every operator of the server is touched, left alone or gone.** -/
theorem ServerStep.touched {a : ServerAct H} (h : ServerStep s a t)
    (hvalid : ∀ fd, InHand s.listener fd → 0 ≤ fd) (hth : t.operators[j]? = some th') :
    ∃ th, s.operators[j]? = some th ∧ (th' = th ∨ Touched th th') := by
  have hupdate : ∀ {idx : Nat} {f : Operator H → Operator H},
      (∀ th : OperatorThread H, Touched th ⟨f th.state, th.code⟩) →
      (s.update idx f).operators[j]? = some th' →
      ∃ th, s.operators[j]? = some th ∧ (th' = th ∨ Touched th th') := by
    intro idx f hf hget
    rcases update_cases hget with ⟨rfl, th, hsome, rfl⟩ | ⟨_, hsome⟩
    · exact ⟨th, hsome, .inr (hf th)⟩
    · exact ⟨th', hsome, .inl rfl⟩
  have hset : ∀ {idx : Nat} {th new : OperatorThread H}, s.operators[idx]? = some th →
      Touched th new → (s.setThread idx new).operators[j]? = some th' →
      ∃ th, s.operators[j]? = some th ∧ (th' = th ∨ Touched th th') := by
    intro idx th new hsome hnew hget
    rcases setThread_cases hsome hget with ⟨rfl, rfl⟩ | ⟨_, hsome⟩
    · exact ⟨th, hsome, .inr hnew⟩
    · exact ⟨th', hsome, .inl rfl⟩
  cases h with
  | pushed hl hsome hroom =>
      exact hset hsome (.pushed (hvalid _ (by rw [hl]; rfl)) hroom) hth
  | counted hl hsome => exact hupdate (fun _ => .enqueued) hth
  | woken hl hsome => exact hupdate (fun _ => .woken) hth
  | executed hsome hcode hexec => exact hset hsome (.executed hcode hexec) hth
  | created hm hsome => exact hset hsome .started hth
  | touches htouch => exact hupdate htouch.touched hth
  | freed hm => exact absurd hth (by simp [Server.operators, Server.freed, note, goTo])
  | givenUp hm => exact absurd hth (by simp [Server.operators, Server.freed, note, goTo, runReturns])
  | requestStored => exact hupdate (fun _ => .requested) hth
  | requestWritten => exact hupdate (fun _ => .woken) hth
  | compared hl hsome hcompare =>
      refine ⟨th', ?_, .inl rfl⟩
      split at hth <;> exact hth
  | _ => exact ⟨th', hth, .inl rfl⟩

/-- An operator's thread shows a report or closed descriptors. -/
theorem mem_shown {clock : Nat} {e : ServerEvent} (h : e ∈ shown idx clock th th') :
    (∃ b, e = .reported idx b clock) ∨ ∃ fd, e = .closed fd := by
  rcases List.mem_append.mp h with h | h
  · split at h
    · split at h
      · exact .inl ⟨_, List.mem_singleton.mp h⟩
      · exact absurd h (by simp)
    · exact absurd h (by simp)
  · obtain ⟨fd, _, rfl⟩ := List.mem_map.mp h
    exact .inr ⟨fd, rfl⟩

/-- Operators are only taken away by `worker_destroy`, and then all of them. -/
theorem ServerStep.length {a : ServerAct H} (h : ServerStep s a t) :
    t.operators.length = s.operators.length ∨
      (∃ last, s.main = .destroy .free last) ∧ t.operators = [] := by
  have hset : ∀ idx (th : OperatorThread H),
      (s.setThread idx th).operators.length = s.operators.length :=
    fun idx th => List.length_set
  have hupdate : ∀ idx f, (s.update idx f).operators.length = s.operators.length :=
    fun idx f => List.length_modify ..
  cases h with
  | compared hl hth hcompare =>
      exact .inl (congrArg List.length ((apply_ite Worker.operators _ _ _).trans (ite_self _)))
  | pushed hl hth hroom => exact .inl (hset ..)
  | counted hl hth => exact .inl (hupdate ..)
  | woken hl hth => exact .inl (hupdate ..)
  | executed hth hcode hexec => exact .inl (hset ..)
  | created hm hth => exact .inl (hset ..)
  | touches htouch => exact .inl (hupdate ..)
  | freed hm => exact .inr ⟨⟨_, hm⟩, rfl⟩
  | givenUp hm => exact .inr ⟨⟨_, hm⟩, rfl⟩
  | requestStored => exact .inl (hupdate ..)
  | requestWritten => exact .inl (hupdate ..)
  | _ => exact .inl rfl

theorem ServerStep.length_eq {a : ServerAct H} (h : ServerStep s a t)
    (hm : ∀ last, s.main ≠ .destroy .free last) : t.operators.length = s.operators.length :=
  h.length.resolve_right fun ⟨⟨last, hfree⟩, _⟩ => hm last hfree

/-- Destroyed operators stay so. -/
theorem ServerStep.operators_nil {a : ServerAct H} (h : ServerStep s a t)
    (hs : s.operators = []) : t.operators = [] := by
  rcases h.length with hlength | ⟨_, hnil⟩
  · rw [hs] at hlength
    exact List.eq_nil_of_length_eq_zero hlength
  · exact hnil

/-- Only `pthread_create` gives an operator something to execute. -/
theorem ServerStep.code_nil {a : ServerAct H} (h : ServerStep s a t)
    (hth : t.operators[j]? = some th') :
    (s.main = .create j ∧ t.main = .create (j + 1)) ∨
      ∃ th, s.operators[j]? = some th ∧ (th.code = [] → th'.code = []) := by
  have hkeep : s.operators[j]? = some th' →
      ∃ th, s.operators[j]? = some th ∧ (th.code = [] → th'.code = []) :=
    fun hget => ⟨th', hget, id⟩
  have hupdate : ∀ {idx : Nat} {f : Operator H → Operator H},
      (s.update idx f).operators[j]? = some th' →
      ∃ th, s.operators[j]? = some th ∧ (th.code = [] → th'.code = []) := by
    intro idx f hget
    rcases update_cases hget with ⟨rfl, th, hsome, rfl⟩ | ⟨_, hsome⟩
    · exact ⟨th, hsome, id⟩
    · exact hkeep hsome
  cases h with
  | compared hl hsome hcompare => exact .inr (hkeep (by split at hth <;> exact hth))
  | pushed hl hsome hroom =>
      rcases setThread_cases hsome hth with ⟨rfl, rfl⟩ | ⟨_, hget⟩
      · exact .inr ⟨_, hsome, id⟩
      · exact .inr (hkeep hget)
  | counted hl hsome => exact .inr (hupdate hth)
  | woken hl hsome => exact .inr (hupdate hth)
  | executed hsome hcode hexec =>
      rcases setThread_cases hsome hth with ⟨rfl, rfl⟩ | ⟨_, hget⟩
      · exact .inr ⟨_, hsome, fun hnil => absurd (hcode.symm.trans hnil) (by simp)⟩
      · exact .inr (hkeep hget)
  | created hm hsome =>
      rcases setThread_cases hsome hth with ⟨rfl, _⟩ | ⟨_, hget⟩
      · exact .inl ⟨hm, rfl⟩
      · exact .inr (hkeep hget)
  | touches htouch => exact .inr (hupdate hth)
  | freed hm => exact absurd hth (by simp [Server.operators, Server.freed, note, goTo])
  | givenUp hm => exact absurd hth (by simp [Server.operators, Server.freed, note, goTo, runReturns])
  | requestStored => exact .inr (hupdate hth)
  | requestWritten => exact .inr (hupdate hth)
  | _ => exact .inr (hkeep hth)

/-- Which operators have no thread under way, by where the main thread stands. -/
def Through (started : Bool) : Running → Nat → Prop
  | .create idx, j => idx ≤ j
  | .undoStore idx upTo, j | .undoWrite idx upTo, j => j < idx ∨ upTo ≤ j
  | .undoJoin idx upTo, j => j < idx ∨ upTo ≤ j
  | .destroy (.join idx) _, j => j < idx ∨ started = false
  | .destroy .free _, _ => True
  | _, _ => started = false

theorem MainMove.through {m m' : Running} {es : List ServerEvent} {started : Bool}
    (h : MainMove s m m' es) (hthrough : Through started m' j) :
    Through started m j ∨ ∀ th, s.operators[j]? = some th → th.code = [] := by
  cases h with
  | createFailed hth => exact .inl (hthrough.resolve_left (Nat.not_lt_zero j))
  | undone hle => exact .inl ((Nat.lt_or_ge j _).imp_right hle.trans)
  | @undoJoined idx upTo hcode =>
      rcases hthrough with hlt | hle
      · rcases Nat.lt_succ_iff_lt_or_eq.mp hlt with hlt | rfl
        · exact .inl (.inl hlt)
        · refine .inr fun th hth => ?_
          rw [hth] at hcode
          exact hcode
      · exact .inl (.inr hle)
  | allStored hnone => exact .inl (hthrough.resolve_left (Nat.not_lt_zero j))
  | @joined idx last th hth hcode =>
      rcases hthrough with hlt | hnot
      · rcases Nat.lt_succ_iff_lt_or_eq.mp hlt with hlt | rfl
        · exact .inl (.inl hlt)
        · refine .inr fun th' hth' => ?_
          rw [hth] at hth'
          exact Option.some.inj hth' ▸ hcode
      · exact .inl (.inr hnot)
  | @allJoined idx last hnone =>
      by_cases hlt : j < idx
      · exact .inl (.inl hlt)
      · -- there is no operator from `idx` on
        refine .inr fun th hth => ?_
        have hle := List.getElem?_eq_none_iff.mp hnone
        obtain ⟨hj, _⟩ := List.getElem?_eq_some_iff.mp hth
        omega
  | _ => exact .inl hthrough

section Reachable

variable {ok : Server H → ServerAct H → Prop}

theorem valid_reachable (h : (server H).ReachableBy ok s) :
    ∀ fd, InHand s.listener fd → 0 ≤ fd := by
  refine h.invariant (P := fun s => ∀ fd, InHand s.listener fd → 0 ≤ fd) ?_ ?_
  · intro s hs fd hin
    rw [hs.listener] at hin
    exact absurd hin id
  · intro s a t _ hs _ hstep fd hin
    cases server_step hstep with
    | accepted hl hfd hfresh => exact hin ▸ hfd
    | listens hmove => exact hs fd (hmove.inHand hin)
    | compared hl hth hcompare => exact hs fd (by rw [hl]; exact hin)
    | pushed hl hth hroom => exact absurd hin id
    | counted hl hth => exact absurd hin id
    | woken hl hth => exact absurd hin id
    | refused hl => exact absurd hin id
    | listenerStops hl => exact absurd hin id
    | _ => exact hs fd hin

/-- **What every touch keeps holds of every operator of the server.** -/
theorem operators_reachable {P : OperatorThread H → Prop}
    (hinit : ∀ s : Server H, ServerInit s → ∀ th ∈ s.operators, P th)
    (htouch : ∀ th th', Touched th th' → P th → P th') (h : (server H).ReachableBy ok s) :
    ∀ (j : Nat) (th : OperatorThread H), s.operators[j]? = some th → P th := by
  refine h.invariant
    (P := fun s => ∀ (j : Nat) (th : OperatorThread H), s.operators[j]? = some th → P th) ?_ ?_
  · intro s hs j th hth
    exact hinit s hs th (List.mem_of_getElem? hth)
  · intro s a t hr hs _ hstep j th' hth'
    obtain ⟨th, hth, rfl | htouched⟩ := (server_step hstep).touched (valid_reachable hr) hth'
    · exact hs j _ hth
    · exact htouch th th' htouched (hs j th hth)

/-- Operators without a thread under way have nothing to execute. -/
theorem quiet_reachable (h : (server H).ReachableBy ok s) :
    ∀ j, Through s.worker.threadsStarted s.main j → ∀ th, s.operators[j]? = some th →
      th.code = [] := by
  refine h.invariant (P := fun s => ∀ j, Through s.worker.threadsStarted s.main j → ∀ th,
    s.operators[j]? = some th → th.code = []) ?_ ?_
  · intro s hs j _ th hth
    exact (hs.operators th (List.mem_of_getElem? hth)).2.1
  · intro s a t _ hs _ hstep j hthrough th' hth'
    have h := server_step hstep
    -- no step starts a thread again that was joined
    have hkeep : Through s.worker.threadsStarted s.main j → th'.code = [] := by
      intro hold
      rcases h.code_nil hth' with ⟨_, hm⟩ | ⟨th, hth, hcode⟩
      · rw [hm] at hthrough
        exact absurd hthrough (Nat.not_succ_le_self j)
      · exact hcode (hs j hold th hth)
    cases h with
    | compared hl hth hcompare =>
        refine hkeep ?_
        split at hthrough <;> exact hthrough
    | moves hmove =>
        rcases hmove.through hthrough with hold | hnil
        · exact hs j hold th' hth'
        · exact hnil th' hth'
    | allCreated hm hnone => exact absurd hthrough (by simp [Through, goTo])
    | created hm hth => exact hkeep (by rw [hm]; exact Nat.le_of_succ_le hthrough)
    | @touches _ idx f m htouch =>
        refine hkeep ?_
        generalize s.main = m₀ at htouch ⊢
        cases htouch <;> exact hthrough
    | inactive hm =>
        refine hkeep ?_
        rw [hm]
        cases hstarted : s.worker.threadsStarted with
        | false => rfl
        | true => exact absurd hthrough (by simp [Through, goTo, hstarted])
    | freed hm => exact absurd hth' (by simp [Server.operators, Server.freed, note, goTo])
    | givenUp hm =>
        exact absurd hth' (by simp [Server.operators, Server.freed, note, goTo, runReturns])
    | _ => exact hkeep hthrough

theorem server_sound (h : (server H).ReachableBy ok s) (hth : s.operators[j]? = some th) :
    Sound th.state := by
  refine operators_reachable (P := fun th => Sound th.state) ?_ ?_ h j th hth
  · intro s hs th hth
    exact sound_init (hs.operators th hth).1
  · intro th th' htouched hs
    cases htouched with
    | executed hcode hexec => exact hexec.sound hs
    | _ => exact ⟨hs.maxClients, hs.table, hs.wakeupHandler, hs.timerHandler⟩

theorem server_stacked (h : (server H).ReachableBy ok s) (hth : s.operators[j]? = some th) :
    Stacked th.code := by
  refine operators_reachable (P := fun th => Stacked th.code) ?_ ?_ h j th hth
  · intro s hs th hth i hi
    rw [(hs.operators th hth).2.1] at hi
    exact absurd hi (by simp)
  · intro th th' htouched hs
    cases htouched with
    | executed hcode hexec =>
        rw [hcode] at hs
        exact hexec.stacked.append hs
    | started => exact fun i hi => absurd hi (by simp)
    | _ => exact hs

theorem storesServing_reachable (h : (server H).ReachableBy ok s)
    (hth : s.operators[j]? = some th) : StoresServing th.code := by
  refine operators_reachable (P := fun th => StoresServing th.code) ?_ ?_ h j th hth
  · intro s hs th hth status hmem
    rw [(hs.operators th hth).2.1] at hmem
    exact absurd hmem (by simp)
  · intro th th' htouched hs
    cases htouched with
    | executed hcode hexec =>
        intro status hmem
        rcases List.mem_append.mp hmem with hmem | hmem
        · exact hexec.storesServing status hmem
        · exact hs status (by rw [hcode]; exact .tail _ hmem)
    | started => simp [StoresServing]
    | _ => exact hs

end Reachable

end DBServer.Proof
