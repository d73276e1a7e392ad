import DBServer.Proof.Pool
import DBServer.Proof.Rejected
import DBServer.Proof.Reuse
import DBServer.Worker.UploadWorkers

/-!
# What the join of the upload workers waits for

`upload_workers_shutdown` closes the connections that are still queued and wakes the workers
that sleep. It does nothing about a worker in `_drive_upload`: that one goes on waiting for
its peer, and the join for it. So the question is only who is at work at the moment the
joining starts, since nobody takes a connection after that (`Rested`). With nobody at work
what is left is bookkeeping between the workers, the mutex and the join, each step of which
can be taken at once and brings the end closer (`poolLeft`).
-/

namespace DBServer.Proof

open DBServer Lib UploadPool

variable {H : DbHttp} {base idx : Nat} {s t : UploadWorkers H} {p q : UploadPool}
  {w : UploadWorker} {a : UploadAct} {b : UploadWorkersAct}
  {ok : UploadWorkers H → UploadWorkersAct → Prop}

/-! ## Whose connection is whose -/

/-- The descriptor a worker drives. -/
def driven : UploadWorker → Option Int
  | .driving fd => some fd
  | _ => none

theorem inHand_fd (world : Env) (peer : Nat × Nat) (w : UploadWorker) :
    (w.inHand world peer).map Drive.fd = driven w := by
  cases w <;> rfl

theorem driven_set {i : Nat} (w' : UploadWorker) (hne : idx ≠ i) :
    (p.workers.set i w')[idx]? = p.workers[idx]? :=
  List.getElem?_set_ne hne.symm

/-- Waking a sleeper makes no difference to what is driven. -/
theorem driven_woken (hw : p.workers[idx]? = some .sleeping) (j : Nat) :
    (p.workers.set idx .woken)[j]?.bind driven = p.workers[j]?.bind driven := by
  by_cases hj : j = idx
  · subst hj
    have hlt : j < p.workers.length := (List.getElem?_eq_some_iff.mp hw).1
    rw [List.getElem?_set_self hlt, hw]
    rfl
  · rw [driven_set _ hj]

/-- Only a worker's own step changes what it drives. -/
theorem PoolStep.driven_other (h : PoolStep p a q) (ha : ∀ i parser, a ≠ .worker i parser)
    (j : Nat) : q.workers[j]?.bind driven = p.workers[j]?.bind driven := by
  cases h with
  | parserReady => exact absurd rfl (ha _ _)
  | parserFailed => exact absurd rfl (ha _ _)
  | acquired => exact absurd rfl (ha _ _)
  | sleeps => exact absurd rfl (ha _ _)
  | exits => exact absurd rfl (ha _ _)
  | takes => exact absurd rfl (ha _ _)
  | releases => exact absurd rfl (ha _ _)
  | spurious hw => exact driven_woken hw j
  | wakes _ _ hw => exact driven_woken hw j
  | created =>
      show (p.workers ++ [UploadWorker.starting])[j]?.bind driven = _
      rcases Nat.lt_or_ge j p.workers.length with hlt | hge
      · rw [List.getElem?_append_left hlt]
      · rw [List.getElem?_append_right hge, List.getElem?_eq_none hge]
        cases j - p.workers.length <;> rfl
  | broadcasts =>
      show (p.workers.map UploadWorker.awake)[j]?.bind driven = _
      rw [List.getElem?_map]
      cases p.workers[j]? with
      | none => rfl
      | some w => cases w <;> rfl
  | _ => rfl

/-- A worker's step leaves the other workers as they are. -/
theorem PoolStep.driven_worker {parser : Bool} (h : PoolStep p (.worker idx parser) q) {j : Nat}
    (hj : j ≠ idx) : q.workers[j]? = p.workers[j]? := by
  cases h with
  | _ => exact driven_set _ hj

/-- The connections in hand are those of the workers that drive one. -/
structure InHands (s : UploadWorkers H) : Prop where
  fds : ∀ idx, (s.drives idx).map Drive.fd = s.pool.workers[idx]?.bind driven
  valid : ∀ idx d, s.drives idx = some d → 0 ≤ d.fd

/-- **Every step of the whole**: a step of the pool, or a round that leaves the pool alone. -/
inductive WorkersStep (base : Nat) (s : UploadWorkers H) :
    UploadWorkersAct → UploadWorkers H → Prop where
  | worker {idx : Nat} {parser : Bool} {world : Env} {peer : Nat × Nat} {p : UploadPool} :
      s.atWork base idx = false → PoolStep s.pool (.worker idx parser) p →
      WorkersStep base s (.pool (.worker idx parser) world peer) (s.follow base idx world peer p)
  | other {a : UploadAct} {world : Env} {peer : Nat × Nat} {p : UploadPool} :
      (∀ idx parser, a ≠ .worker idx parser) → PoolStep s.pool a p →
      WorkersStep base s (.pool a world peer) { s with pool := p }
  | round {idx : Nat} {d : Drive} : s.drives idx = some d →
      WorkersStep base s (.round idx)
        { s with drives := Function.update s.drives idx (some { d with rounds := d.rounds + 1 }) }

theorem workers_step (h : (uploadWorkers H base).step s b = some t) : WorkersStep base s b t := by
  have h' : UploadWorkers.step base s b = some t := h
  cases b with
  | round idx =>
      obtain ⟨d, hd, rfl⟩ := Option.map_eq_some_iff.mp h'
      exact .round hd
  | pool a world peer =>
      have hother : (∀ i parser, a ≠ .worker i parser) →
          (s.pool.step a).map (fun p => { s with pool := p }) = some t →
          WorkersStep base s (.pool a world peer) t := by
        intro ha hmap
        obtain ⟨p, hp, rfl⟩ := Option.map_eq_some_iff.mp hmap
        exact .other ha (pool_step hp)
      cases a with
      | worker idx parser =>
          rw [UploadWorkers.step] at h'
          split at h'
          · exact absurd h' (by simp)
          · rename_i hidle
            obtain ⟨p, hp, rfl⟩ := Option.map_eq_some_iff.mp h'
            exact .worker (by simpa using hidle) (pool_step hp)
      | _ => exact hother (by simp) h'

theorem workers_pool_reachable (h : (uploadWorkers H base).ReachableBy ok s) :
    uploadPool.Reachable s.pool := by
  induction h with
  | init hs => exact .init hs.1
  | @tail s t b _ _ hstep ih =>
      have h' : UploadWorkers.step base s b = some t := hstep
      cases b with
      | round idx =>
          obtain ⟨d, _, rfl⟩ := Option.map_eq_some_iff.mp h'
          exact ih
      | pool a world peer =>
          have hother : (s.pool.step a).map (fun p => { s with pool := p }) = some t →
              uploadPool.Reachable t.pool := by
            intro hmap
            obtain ⟨p, hp, rfl⟩ := Option.map_eq_some_iff.mp hmap
            exact ih.tail trivial hp
          cases a with
          | worker idx parser =>
              rw [UploadWorkers.step] at h'
              split at h'
              · exact absurd h' (by simp)
              · obtain ⟨p, hp, rfl⟩ := Option.map_eq_some_iff.mp h'
                exact Machine.ReachableBy.tail (a := .worker idx parser) ih trivial hp
          | _ => exact hother h'

/-- What a worker has in hand when it has gone on: a connection it has just taken, or nothing. -/
theorem PoolStep.inHand_valid {parser : Bool} {world : Env} {peer : Nat × Nat} {d : Drive}
    (h : PoolStep p (.worker idx parser) q)
    (hd : q.workers[idx]?.bind (UploadWorker.inHand world peer) = some d) :
    0 < p.queue.count ∧ 0 ≤ d.fd := by
  obtain ⟨w, hw, hin⟩ := Option.bind_eq_some_iff.mp hd
  have hnew : ∀ {w' : UploadWorker}, q.workers = p.workers.set idx w' → w = w' := by
    intro w' hq
    rw [hq] at hw
    have hlt : idx < p.workers.length := by
      have hlt' := (List.getElem?_eq_some_iff.mp hw).1
      rwa [List.length_set] at hlt'
    rw [List.getElem?_set_self hlt] at hw
    exact (Option.some.inj hw).symm
  cases h with
  | takes hw' hsome =>
      refine ⟨hsome, ?_⟩
      obtain rfl := hnew rfl
      by_cases hfront : 0 ≤ p.queue.front
      · rw [if_pos hfront] at hin
        obtain rfl := Option.some.inj hin
        exact hfront
      · rw [if_neg hfront] at hin
        exact absurd hin (by simp [UploadWorker.inHand])
  | _ =>
      obtain rfl := hnew rfl
      exact absurd hin (by simp [UploadWorker.inHand])

theorem InHands.step (hs : InHands s) (h : WorkersStep base s b t) : InHands t := by
  cases h with
  | @worker idx parser world peer p hidle hpool =>
      refine ⟨fun j => ?_, fun j d hd => ?_⟩
      · show (Function.update s.drives idx _ j).map Drive.fd = p.workers[j]?.bind driven
        by_cases hj : j = idx
        · subst hj
          rw [Function.update_self]
          cases p.workers[j]? with
          | none => rfl
          | some w => exact inHand_fd world peer w
        · rw [Function.update_of_ne hj, hs.fds, hpool.driven_worker hj]
      · have hd' : Function.update s.drives idx
            (p.workers[idx]?.bind (UploadWorker.inHand world peer)) j = some d := hd
        by_cases hj : j = idx
        · subst hj
          rw [Function.update_self] at hd'
          exact (hpool.inHand_valid hd').2
        · rw [Function.update_of_ne hj] at hd'
          exact hs.valid j d hd'
  | other ha hpool => exact ⟨fun j => (hs.fds j).trans (hpool.driven_other ha j).symm, hs.valid⟩
  -- one more round of a drive, on the descriptor it has
  | @round idx d hd =>
      refine ⟨fun j => ?_, fun j d' hd' => ?_⟩
      · show (Function.update s.drives idx _ j).map Drive.fd = _
        by_cases hj : j = idx
        · subst hj
          rw [Function.update_self, ← hs.fds, hd]
          rfl
        · rw [Function.update_of_ne hj, hs.fds]
      · have hd'' : Function.update s.drives idx (some { d with rounds := d.rounds + 1 }) j =
            some d' := hd'
        by_cases hj : j = idx
        · subst hj
          rw [Function.update_self] at hd''
          obtain rfl := Option.some.inj hd''
          exact hs.valid j d hd
        · rw [Function.update_of_ne hj] at hd''
          exact hs.valid j d' hd''

theorem inHands_reachable (h : (uploadWorkers H base).ReachableBy ok s) : InHands s := by
  refine h.invariant ?_ fun s b t _ hs _ hstep => hs.step (workers_step hstep)
  rintro s ⟨hpool, hnone, _⟩
  refine ⟨fun idx => ?_, fun idx d hd => absurd ((hnone idx).symm.trans hd) (by simp)⟩
  rw [hnone, (show s.pool.workers = [] from hpool.workers)]
  rfl

/-! ## Who is at work -/

/-- `upload_workers_shutdown` has started to join. -/
def Joins (p : UploadPool) : Prop := (∃ k, p.control = .joining k) ∨ p.control = .returned

/-- A call that has come back stays back, and nothing more happens in it. -/
theorem outcome_back {threadId : Nat} {cli : Client H} {d : Drive} (n : Nat) (hfd : 0 ≤ d.fd)
    (h : (d.outcome threadId cli).1.isSome) :
    ({ d with rounds := d.rounds + n }.outcome threadId cli).1.isSome ∧
      ({ d with rounds := d.rounds + n }.outcome threadId cli).2.log =
        (d.outcome threadId cli).2.log := by
  obtain ⟨verdicts, hverdicts⟩ := Option.isSome_iff_exists.mp h
  have hnonneg : 0 ≤ (adoptedFd d.world d.fd d.peer cli).next.cli.ctx.fd := hfd
  have hwatched : Carries Alike (d.outcome threadId cli)
      ({ d with rounds := d.rounds + n }.outcome threadId cli) :=
    driveLoop_alike d.world threadId _ (Nat.le_add_right d.rounds n) (.refl hnonneg)
  obtain ⟨c, hc, halike⟩ := hwatched verdicts _ (Prod.fst_eq_iff.mp hverdicts)
  rw [hc]
  exact ⟨rfl, halike.observed.1⟩

/-- Once the joining has started nobody is at work. -/
def Rested (base : Nat) (s : UploadWorkers H) : Prop :=
  Joins s.pool → ∀ idx, s.atWork base idx = false

/-- The joining starts with nobody at work. -/
def JoinsAtRest (base : Nat) (s : UploadWorkers H) : UploadWorkersAct → Prop
  | .pool (.control _) _ _ => s.pool.control = .closing → s.pool.queue.count = 0 →
      ∀ idx, s.atWork base idx = false
  | _ => True

theorem atWork_eq_false {s : UploadWorkers H} : s.atWork base idx = false ↔
    ∀ d, s.drives idx = some d → (d.outcome (base + idx) (s.clients idx)).1.isSome := by
  unfold UploadWorkers.atWork
  cases s.drives idx with
  | none => simp
  | some d => simp [Option.isSome_iff_ne_none]

/-- Where the shutdown stands is no business of a worker's. -/
theorem PoolStep.control_worker {parser : Bool} (h : PoolStep p (.worker idx parser) q) :
    q.control = p.control := by
  cases h <;> rfl

/-- A step that is not a worker's gets to the joining from the last round of the closing. -/
theorem PoolStep.joins_from (h : PoolStep p a q) (hj : Joins q) :
    Joins p ∨ (∃ created, a = .control created) ∧ p.control = .closing ∧ p.queue.count = 0 := by
  have hsame : q.control = p.control → Joins p := by
    intro heq
    rcases hj with ⟨k, hk⟩ | hk
    · exact .inl ⟨k, heq ▸ hk⟩
    · exact .inr (heq ▸ hk)
  have hnot : ∀ c : UploadControl, q.control = c → (∀ k, c ≠ .joining k) → c ≠ .returned →
      False := by
    intro c hc hjoining hreturned
    rcases hj with ⟨k, hk⟩ | hk
    · exact hjoining k (hc.symm.trans hk)
    · exact hreturned (hc.symm.trans hk)
  cases h with
  | broadcasts hc hempty => exact .inr ⟨⟨_, rfl⟩, hc, hempty⟩
  | joins hc => exact .inl (.inl ⟨_, hc⟩)
  | returns hc => exact .inl (.inl ⟨_, hc⟩)
  | shutdown => exact (hnot _ rfl (by simp) (by simp)).elim
  | created => exact (hnot _ rfl (by simp) (by simp)).elim
  | createFailed => exact (hnot _ rfl (by simp) (by simp)).elim
  | serves => exact (hnot _ rfl (by simp) (by simp)).elim
  | shutdownLocks => exact (hnot _ rfl (by simp) (by simp)).elim
  | _ => exact .inl (hsame rfl)

/-- Nothing is queued while the shutdown joins. -/
theorem Staged.empty (h : Staged p) (hj : Joins p) : p.queue.count = 0 := by
  have hstopped := h.stopped
  rcases hj with ⟨k, hk⟩ | hk
  · rw [hk] at hstopped
    exact hstopped.1
  · rw [hk] at hstopped
    exact hstopped.1

theorem Rested.step (hs : Rested base s) (hands : InHands s) (hstaged : Staged s.pool)
    (hok : JoinsAtRest base s b) (h : WorkersStep base s b t) : Rested base t := by
  intro hj idx
  cases h with
  | @worker i parser world peer p hidle hpool =>
      have hj' : Joins s.pool := by
        have hsame := hpool.control_worker
        rcases hj with ⟨k, hk⟩ | hk
        · exact .inl ⟨k, hsame ▸ hk⟩
        · exact .inr (hsame ▸ hk)
      by_cases hi : idx = i
      · subst hi
        -- there is nothing left to take
        refine atWork_eq_false.mpr fun d hd => ?_
        have hd' : Function.update s.drives idx
            (p.workers[idx]?.bind (UploadWorker.inHand world peer)) idx = some d := hd
        rw [Function.update_self] at hd'
        have hsome := (hpool.inHand_valid hd').1
        rw [hstaged.empty hj'] at hsome
        exact absurd hsome (Nat.lt_irrefl 0)
      · have hsame : (s.follow base i world peer p).atWork base idx = s.atWork base idx := by
          simp only [UploadWorkers.atWork, UploadWorkers.follow, Function.update_of_ne hi]
        rw [hsame]
        exact hs hj' idx
  | @other a world peer p ha hpool =>
      rcases hpool.joins_from hj with hj' | ⟨⟨created, rfl⟩, hclosing, hempty⟩
      · exact hs hj' idx
      · exact hok hclosing hempty idx
  | @round i d hd =>
      have hrest := hs hj idx
      by_cases hi : idx = i
      · subst hi
        refine atWork_eq_false.mpr fun d' hd' => ?_
        have hd'' : Function.update s.drives idx (some { d with rounds := d.rounds + 1 }) idx =
            some d' := hd'
        rw [Function.update_self] at hd''
        obtain rfl := Option.some.inj hd''
        exact (outcome_back 1 (hands.valid idx d hd) (atWork_eq_false.mp hrest d hd)).1
      · refine atWork_eq_false.mpr fun d' hd' => ?_
        have hd'' : Function.update s.drives i (some { d with rounds := d.rounds + 1 }) idx =
            some d' := hd'
        rw [Function.update_of_ne hi] at hd''
        exact atWork_eq_false.mp hrest d' hd''

theorem rested_reachable (h : (uploadWorkers H base).ReachableBy (JoinsAtRest base) s) :
    Rested base s := by
  refine h.invariant ?_ ?_
  · rintro s ⟨hpool, hnone, _⟩ _ idx
    exact atWork_eq_false.mpr fun d hd => absurd ((hnone idx).symm.trans hd) (by simp)
  · intro s b t hr hs hok hstep
    exact hs.step (inHands_reachable hr) (pool_reachable (workers_pool_reachable hr)).staged hok
      (workers_step hstep)

/-! ## The end of the joining -/

/-- Whoever has the mutex is between its lock and its unlock. -/
structure Held (p : UploadPool) : Prop where
  worker : ∀ j, p.lock = some (.worker j) → p.workers[j]? = some .testing
  dispatch : p.lock = some .dispatch → ∃ fd, p.dispatch = .holding fd
  shutdown : p.lock = some .shutdown → p.control = .closing

/-- A worker goes on without the mutex, before and after. -/
theorem Held.works {w' : UploadWorker} (hs : Held p) (hw : p.workers[idx]? = some w)
    (hw' : w ≠ .testing) (hworkers : q.workers = p.workers.set idx w')
    (hrest : q.lock = p.lock ∧ q.dispatch = p.dispatch ∧ q.control = p.control) : Held q := by
  obtain ⟨hlock, hdispatch, hcontrol⟩ := hrest
  refine ⟨fun j hj => ?_, by rw [hlock, hdispatch]; exact hs.dispatch,
    by rw [hlock, hcontrol]; exact hs.shutdown⟩
  have htesting := hs.worker j (hlock ▸ hj)
  have hne : idx ≠ j := by
    rintro rfl
    exact hw' (Option.some.inj (hw.symm.trans htesting))
  rw [hworkers, List.getElem?_set_ne hne]
  exact htesting

theorem Held.free (h : p.lock = none) : Held p :=
  ⟨fun j hj => absurd (h.symm.trans hj) (by simp), fun hl => absurd (h.symm.trans hl) (by simp),
    fun hl => absurd (h.symm.trans hl) (by simp)⟩

theorem Held.step (hs : Held p) (h : PoolStep p a q) : Held q := by
  -- the mutex is with somebody who does not move, or with nobody
  have hsame : q.lock = p.lock → q.workers = p.workers →
      (p.dispatch ≠ .idle → q.dispatch = p.dispatch) →
      (p.control = .closing → q.control = p.control) → Held q := by
    intro hlock hworkers hdispatch hcontrol
    refine ⟨fun j hj => ?_, fun hl => ?_, fun hl => ?_⟩
    · rw [hworkers]
      exact hs.worker j (hlock ▸ hj)
    · obtain ⟨fd, hfd⟩ := hs.dispatch (hlock ▸ hl)
      exact ⟨fd, (hdispatch (by simp [hfd])).trans hfd⟩
    · have hclosing := hs.shutdown (hlock ▸ hl)
      exact (hcontrol hclosing).trans hclosing
  cases h with
  | parserReady hw => exact hs.works hw (by simp) rfl ⟨rfl, rfl, rfl⟩
  | parserFailed hw => exact hs.works hw (by simp) rfl ⟨rfl, rfl, rfl⟩
  | @acquired idx w parser hw hwaits hlock =>
      refine ⟨fun j hj => ?_, fun hl => absurd hl (by simp [hold]),
        fun hl => absurd hl (by simp [hold])⟩
      obtain rfl : idx = j := Holder.worker.inj (Option.some.inj hj)
      exact List.getElem?_set_self (List.getElem?_eq_some_iff.mp hw).1
  | releases hw => exact hs.works hw (by simp) rfl ⟨rfl, rfl, rfl⟩
  | spurious hw => exact hs.works hw (by simp) rfl ⟨rfl, rfl, rfl⟩
  | refused => exact hsame rfl rfl (fun _ => rfl) fun _ => rfl
  | called hc hidle => exact hsame rfl rfl (fun hne => absurd hidle hne) fun _ => rfl
  | @dispatchLocks wake fd hd hlock =>
      exact ⟨fun j hj => absurd hj (by simp [hold]), fun _ => ⟨fd, rfl⟩,
        fun hl => absurd hl (by simp [hold])⟩
  | shutdown hc => exact hsame rfl rfl (fun _ => rfl) fun h => absurd (hc.symm.trans h) (by simp)
  | @created idx hc hlt =>
      refine ⟨fun j hj => ?_, hs.dispatch, fun hl => ?_⟩
      · have htesting := hs.worker j hj
        have hlt' := (List.getElem?_eq_some_iff.mp htesting).1
        exact (List.getElem?_append_left hlt').trans htesting
      · exact absurd (hc.symm.trans (hs.shutdown hl)) (by simp)
  | createFailed hc =>
      exact hsame rfl rfl (fun _ => rfl) fun h => absurd (hc.symm.trans h) (by simp)
  | serves hc => exact hsame rfl rfl (fun _ => rfl) fun h => absurd (hc.symm.trans h) (by simp)
  | shutdownLocks hc hlock =>
      exact ⟨fun j hj => absurd hj (by simp [hold]), fun hl => absurd hl (by simp [hold]),
        fun _ => rfl⟩
  | closes hc => exact hsame rfl rfl (fun _ => rfl) fun _ => rfl
  | skips hc => exact hsame rfl rfl (fun _ => rfl) fun _ => rfl
  | joins hc => exact hsame rfl rfl (fun _ => rfl) fun h => absurd (hc.symm.trans h) (by simp)
  | returns hc => exact hsame rfl rfl (fun _ => rfl) fun h => absurd (hc.symm.trans h) (by simp)
  | _ => exact .free rfl

theorem held_reachable (h : uploadPool.Reachable p) : Held p :=
  h.invariant (fun _ hs => .free hs.lock) fun _ _ _ _ hs _ hstep => hs.step (pool_step hstep)

/-- How many steps a worker may still take once nothing is queued. -/
def workerLeft : UploadWorker → Nat
  | .exited => 0
  | .testing => 1
  | .locking | .woken | .sleeping => 2
  | .starting | .driving _ => 3

/-- How many joins are still to come. -/
def joinsLeft (p : UploadPool) : UploadControl → Nat
  | .joining k => p.nWorkers + 1 - k
  | _ => 0

/-- How many steps the pool is from the end of its shutdown, at most. -/
def poolLeft (p : UploadPool) : Nat := (p.workers.map workerLeft).sum + joinsLeft p p.control

theorem workerLeft_set {ws : List UploadWorker} {w' : UploadWorker} (hw : ws[idx]? = some w)
    (hlt : workerLeft w' < workerLeft w) :
    ((ws.set idx w').map workerLeft).sum < (ws.map workerLeft).sum := by
  induction ws generalizing idx with
  | nil => exact absurd hw (by simp)
  | cons v ws ih =>
      cases idx with
      | zero =>
          obtain rfl := Option.some.inj hw
          simp only [List.set_cons_zero, List.map_cons, List.sum_cons]
          omega
      | succ idx =>
          have htail := ih hw
          simp only [List.set_cons_succ, List.map_cons, List.sum_cons]
          omega

/-- **Every step of the pool while it joins brings the end closer.** -/
theorem Staged.closer {k : Nat} (hs : Staged p) (hj : p.control = .joining k)
    (h : PoolStep p a q) : poolLeft q < poolLeft p := by
  have hstopped := hs.stopped
  have hrunning := hs.running
  have hthreads := hs.threads
  -- a pool that is joining takes no descriptors any more
  have hidle : p.dispatch = .idle := by
    by_contra hne
    exact absurd (hj.symm.trans (hs.quiet hne)) (by simp)
  rw [hj] at hstopped hrunning hthreads
  obtain ⟨hempty, hawake, hjoined⟩ := hstopped
  have hlength : p.workers.length = p.nWorkers := hthreads
  have hworker : ∀ {i : Nat} {w w' : UploadWorker}, p.workers[i]? = some w →
      workerLeft w' < workerLeft w → q.workers = p.workers.set i w' → q.control = p.control →
      q.nWorkers = p.nWorkers → poolLeft q < poolLeft p := by
    intro i w w' hw hlt hq hc hn
    have hset := workerLeft_set hw hlt
    have hsame : joinsLeft q q.control = joinsLeft p p.control := by
      rw [hc, hj]
      simp only [joinsLeft, hn]
    unfold poolLeft
    rw [hq, hsame]
    omega
  have hserving : p.control ≠ .serving := by simp [hj]
  cases h with
  | parserReady hw => exact hworker hw (by decide) rfl rfl rfl
  | parserFailed hw => exact hworker hw (by decide) rfl rfl rfl
  | acquired hw hwaits =>
      refine hworker hw ?_ rfl rfl rfl
      rcases hwaits with rfl | rfl <;> decide
  -- nobody goes back to sleep, and nobody is asleep
  | sleeps hw hcount hrun => exact absurd (hrun.symm.trans hrunning) (by simp [runs])
  | exits hw => exact hworker hw (by decide) rfl rfl rfl
  | takes hw hsome => omega
  | releases hw =>
      refine hworker hw ?_ rfl rfl rfl
      exact Nat.lt_succ_self 2
  | spurious hw => exact absurd (List.mem_of_getElem? hw) hawake
  | joins hc hexited =>
      obtain rfl := UploadControl.joining.inj (hj.symm.trans hc)
      have hlt := (List.getElem?_eq_some_iff.mp hexited).1
      unfold poolLeft
      rw [hj]
      show (p.workers.map workerLeft).sum + (p.nWorkers + 1 - (k + 1)) <
        (p.workers.map workerLeft).sum + (p.nWorkers + 1 - k)
      omega
  | returns hc hle =>
      obtain rfl := UploadControl.joining.inj (hj.symm.trans hc)
      have hk : k ≤ p.nWorkers := by
        by_contra hgt
        have hlt := (List.getElem?_eq_some_iff.mp (hjoined p.nWorkers (by omega))).1
        omega
      unfold poolLeft
      rw [hj]
      show (p.workers.map workerLeft).sum + 0 <
        (p.workers.map workerLeft).sum + (p.nWorkers + 1 - k)
      omega
  -- the others are steps of a pool that is not joining yet
  | refused hc => exact absurd hc hserving
  | called hc => exact absurd hc hserving
  | shutdown hc => exact absurd hc hserving
  | dispatchLocks hd => exact absurd (hidle.symm.trans hd) (by simp)
  | rejects hd => exact absurd (hidle.symm.trans hd) (by simp)
  | wakes hd => exact absurd (hidle.symm.trans hd) (by simp)
  | wakesNobody hd => exact absurd (hidle.symm.trans hd) (by simp)
  | created hc => exact absurd (hj.symm.trans hc) (by simp)
  | createFailed hc => exact absurd (hj.symm.trans hc) (by simp)
  | serves hc => exact absurd (hj.symm.trans hc) (by simp)
  | shutdownLocks hc => exact absurd (hj.symm.trans hc) (by simp)
  | closes hc => exact absurd (hj.symm.trans hc) (by simp)
  | skips hc => exact absurd (hj.symm.trans hc) (by simp)
  | broadcasts hc => exact absurd (hj.symm.trans hc) (by simp)

/-- **Somebody can go on as long as the pool joins**: the join, or a worker. -/
theorem Staged.proceeds {k : Nat} (hs : Staged p) (hheld : Held p) (hj : p.control = .joining k) :
    (p.stepControl true).isSome ∨ ∃ idx, (p.step (.worker idx true)).isSome := by
  have hstopped := hs.stopped
  have hthreads := hs.threads
  rw [hj] at hstopped hthreads
  obtain ⟨hempty, hawake, hjoined⟩ := hstopped
  have hlength : p.workers.length = p.nWorkers := hthreads
  have hgoes : ∀ {i : Nat} {w : UploadWorker}, p.workers[i]? = some w →
      (p.stepWorker i true w).isSome → ∃ idx, (p.step (.worker idx true)).isSome := by
    intro i w hw hsome
    refine ⟨i, ?_⟩
    show (p.workers[i]?.bind (p.stepWorker i true)).isSome
    rw [hw]
    exact hsome
  -- a worker that waits for the mutex gets it, or whoever has it goes on
  have hmutex : ∀ {i : Nat} {w : UploadWorker}, p.workers[i]? = some w →
      (p.lock = none → (p.stepWorker i true w).isSome) →
      ∃ idx, (p.step (.worker idx true)).isSome := by
    intro i w hw hfree
    cases hlock : p.lock with
    | none => exact hgoes hw (hfree hlock)
    | some holder =>
        cases holder with
        | worker j => exact hgoes (hheld.worker j hlock) rfl
        | dispatch =>
            obtain ⟨fd, hfd⟩ := hheld.dispatch hlock
            exact absurd (hj.symm.trans (hs.quiet (by simp [hfd]))) (by simp)
        | shutdown => exact absurd (hj.symm.trans (hheld.shutdown hlock)) (by simp)
  rcases Nat.lt_or_ge k p.nWorkers with hk | hk
  · obtain ⟨w, hw⟩ : ∃ w, p.workers[k]? = some w :=
      ⟨_, List.getElem?_eq_getElem (Nat.lt_of_lt_of_eq hk hlength.symm)⟩
    cases w with
    | starting => exact .inr (hgoes hw rfl)
    | locking => exact .inr (hmutex hw fun hlock => by simp [stepWorker, hlock])
    | woken => exact .inr (hmutex hw fun hlock => by simp [stepWorker, hlock])
    | testing => exact .inr (hgoes hw rfl)
    | driving fd => exact .inr (hgoes hw rfl)
    | sleeping => exact absurd (List.mem_of_getElem? hw) hawake
    | exited =>
        left
        simp only [stepControl, hj, if_pos hk, if_pos hw, Option.isSome_some]
  · left
    simp only [stepControl, hj, if_neg (Nat.not_lt.mpr hk), Option.isSome_some]

/-- What the join still needs is the pool's own. -/
structure JoinsAlone (base : Nat) (s : UploadWorkers H) : Prop where
  rested : ∀ idx, s.atWork base idx = false
  /-- No connection gets any further, however long it is watched. -/
  ended : ∀ idx d n, s.drives idx = some d →
    ({ d with rounds := d.rounds + n }.outcome (base + idx) (s.clients idx)).2.log =
      (d.outcome (base + idx) (s.clients idx)).2.log
  /-- Somebody can go on, whatever the world answers. -/
  proceeds : ∃ a, ∀ world peer, ((uploadWorkers H base).step s (.pool a world peer)).isSome
  closer : ∀ a world peer t, (uploadWorkers H base).step s (.pool a world peer) = some t →
    poolLeft t.pool < poolLeft s.pool

/--
**A shutdown that starts to join with nobody at work waits for no peer.** From then on every
call of `_drive_upload` has come back and nothing more happens on its connection; some step of
the pool can be taken in every world, and there are only so many of them before it returns.
-/
theorem upload_join_waits_for_no_peer {k : Nat}
    (h : (uploadWorkers H base).ReachableBy (JoinsAtRest base) s)
    (hj : s.pool.control = .joining k) : JoinsAlone base s := by
  have hrested := rested_reachable h (.inl ⟨k, hj⟩)
  have hpool := workers_pool_reachable h
  have hstaged := (pool_reachable hpool).staged
  refine ⟨hrested, fun idx d n hd => ?_, ?_, fun a world peer t hstep => ?_⟩
  · have hback := atWork_eq_false.mp (hrested idx) d hd
    exact (outcome_back n ((inHands_reachable h).valid idx d hd) hback).2
  · rcases hstaged.proceeds (held_reachable hpool) hj with hcontrol | ⟨idx, hworker⟩
    · refine ⟨.control true, fun world peer => ?_⟩
      exact (Option.isSome_map ..).trans hcontrol
    · refine ⟨.worker idx true, fun world peer => ?_⟩
      show (UploadWorkers.step base s (.pool (.worker idx true) world peer)).isSome
      rw [UploadWorkers.step, if_neg (by simp [hrested idx])]
      exact (Option.isSome_map ..).trans hworker
  · cases workers_step hstep with
    | worker _ hpool' => exact hstaged.closer hj hpool'
    | other _ hpool' => exact hstaged.closer hj hpool'

/-- The workers there are are at rest when the joining starts. -/
def WorkersAtRest (base : Nat) (s : UploadWorkers H) (_ : UploadWorkersAct) : Prop :=
  s.pool.control = .closing → ∀ idx < s.pool.workers.length, s.atWork base idx = false

instance (base : Nat) (s : UploadWorkers H) (b : UploadWorkersAct) :
    Decidable (WorkersAtRest base s b) := by
  unfold WorkersAtRest
  infer_instance

/-- Nobody else can be at work. -/
theorem joinsAtRest_reachable (h : (uploadWorkers H base).ReachableBy (WorkersAtRest base) s) :
    (uploadWorkers H base).ReachableBy (JoinsAtRest base) s := by
  induction h with
  | init hs => exact .init hs
  | @tail s t b _ hok hstep ih =>
      refine .tail ih ?_ hstep
      cases b with
      | round => trivial
      | pool a =>
          cases a with
          | control =>
              intro hclosing _ idx
              rcases Nat.lt_or_ge idx s.pool.workers.length with hlt | hge
              · exact hok hclosing idx hlt
              · refine atWork_eq_false.mpr fun d hd => ?_
                have hfd := (inHands_reachable ih).fds idx
                rw [hd, List.getElem?_eq_none hge] at hfd
                exact absurd hfd (by simp)
          | _ => trivial

/-- A pool with one worker, whose parser claims every request as an upload of five bytes. -/
def smallWorkers : UploadWorkers DbHttp.streaming where
  pool := .small
  clients _ :=
    { Client.zeroed DbHttp.streaming with ctx := ⟨-1, none, none⟩, httpParser := some () }
  drives _ := none

theorem init_smallWorkers : (uploadWorkers DbHttp.streaming 0).init smallWorkers :=
  ⟨init_small, fun _ => rfl, fun _ => ⟨(), rfl⟩⟩

/-- A step of the pool; a connection taken in it gets one byte with every read. -/
def slowly (a : UploadAct) : UploadWorkersAct :=
  .pool a { Env.smooth { status := 200 } with read := fun _ => .data 0 } (0, 0)

/-- The pool is created and its worker takes connection 7. -/
def takesSeven : List UploadWorkersAct :=
  [slowly (.control true), slowly (.control true), slowly (.worker 0 true), slowly (.call 7),
    slowly (.dispatch 0), slowly (.dispatch 0), slowly (.worker 0 true), slowly (.worker 0 true)]

/-- `upload_workers_shutdown`, up to its first join. -/
def shutsDown : List UploadWorkersAct :=
  [slowly .shutdown, slowly (.control true), slowly (.control true)]

/-- The calls a worker has made on the connection it has in hand. -/
def callsOf (base idx : Nat) (s : UploadWorkers H) : List Call :=
  ((s.drives idx).map fun d => (d.outcome (base + idx) (s.clients idx)).2.log).getD []

/-- The upload is over before the shutdown starts. -/
theorem upload_join_waits_for_no_peer_over : ∃ s : UploadWorkers DbHttp.streaming,
    s.pool.control = .joining 0 ∧ Call.commit ∈ callsOf 0 0 s ∧ JoinsAlone 0 s := by
  have hinit : (uploadWorkers DbHttp.streaming 0).ReachableBy (WorkersAtRest 0) smallWorkers :=
    .init init_smallWorkers
  obtain ⟨s, hs, hjoining⟩ := hinit.exists_of_run
    (takesSeven ++ List.replicate 8 (.round 0) ++ shutsDown)
    (fun s => s.pool.control == .joining 0 && decide (Call.commit ∈ callsOf 0 0 s))
    (by decide +kernel)
  simp only [Bool.and_eq_true, beq_iff_eq, decide_eq_true_eq] at hjoining
  exact ⟨s, hjoining.1, hjoining.2,
    upload_join_waits_for_no_peer (joinsAtRest_reachable hs) hjoining.1⟩

/--
The joining starts while the worker is in the body of its upload. Nobody shuts the socket
down, the peer goes on sending, and the upload is committed while the join waits for it.
-/
theorem upload_join_waits_for_a_peer : ∃ s t : UploadWorkers DbHttp.streaming,
    (uploadWorkers DbHttp.streaming 0).Reachable s ∧ s.pool.control = .joining 0 ∧
      s.atWork 0 0 = true ∧ Call.begin true ∈ callsOf 0 0 s ∧ Call.commit ∉ callsOf 0 0 s ∧
      ((uploadWorkers DbHttp.streaming 0).startingAt s).Reachable t ∧
      t.pool.control = .joining 0 ∧ Call.commit ∈ callsOf 0 0 t := by
  have hinit : (uploadWorkers DbHttp.streaming 0).Reachable smallWorkers :=
    .init init_smallWorkers
  obtain ⟨s, hs, hjoining⟩ := hinit.exists_of_run
    (takesSeven ++ List.replicate 4 (.round 0) ++ shutsDown)
    (fun s => s.pool.control == .joining 0 && s.atWork 0 0 &&
      decide (Call.begin true ∈ callsOf 0 0 s) && decide (Call.commit ∉ callsOf 0 0 s) &&
      (((uploadWorkers DbHttp.streaming 0).startingAt s).run (fun _ _ => True) s
        (List.replicate 4 (.round 0))).any fun t =>
          t.pool.control == .joining 0 && decide (Call.commit ∈ callsOf 0 0 t))
    (by decide +kernel)
  simp only [Bool.and_eq_true, beq_iff_eq, decide_eq_true_eq] at hjoining
  obtain ⟨⟨⟨⟨hcontrol, hwork⟩, hbegun⟩, hopen⟩, hlater⟩ := hjoining
  obtain ⟨t, ht, hcommitted⟩ := (Machine.ReachableBy.init rfl).exists_of_run _ _ hlater
  simp only [Bool.and_eq_true, beq_iff_eq, decide_eq_true_eq] at hcommitted
  exact ⟨s, t, hs, hcontrol, hwork, hbegun, hopen, ht, hcommitted.1, hcommitted.2⟩

end DBServer.Proof
