import DBServer.Lib.Steps
import DBServer.Worker.Process
import DBServer.Proof.Descriptors
import DBServer.Proof.Joining

/-!
# The application is shut down last

Seen from the server's threads the process is a run of the server, and seen from the pool's
it is a run of the pool, so everything proved of either holds in the whole. What is new is
the order of the teardown: the pool's join stands between the drain and the operators' own,
and `db_app_shutdown` behind both, when no thread is left that could call `DB_app`.
-/

namespace DBServer.Proof

open DBServer Lib Operator Server Process

variable {H : DbHttp} {base idx : Nat} {s t : Process H} {u v : UploadWorkers H} {a : ServerAct H}
  {b : UploadWorkersAct} {c : ProcessAct H} {x fd : Int} {ok : Process H → ProcessAct H → Prop}

/-! ## The two parts -/

/-- Every step of the process. -/
inductive ProcessStep (base : Nat) (s : Process H) : ProcessAct H → Process H → Prop where
  | server {a : ServerAct H} {t : Server H} : s.Ready a →
      (DBServer.server H).step s.server a = some t →
      ProcessStep base s (.server a) { s with server := t }
  | uploads {b : UploadWorkersAct} {u v : UploadWorkers H} : s.Admits b → s.uploads = some u →
      (uploadWorkers H base).step u b = some v →
      ProcessStep base s (.uploads b) { s with uploads := some v }
  | appShutdown : s.server.main = .done → s.appDown = false →
      ProcessStep base s .appShutdown { s with appDown := true }

theorem process_step (h : (process H base).step s c = some t) : ProcessStep base s c t := by
  cases c with
  | server a =>
      obtain ⟨hready, hmap⟩ := Option.ite_none_right_eq_some.mp h
      obtain ⟨t', ht, rfl⟩ := Option.map_eq_some_iff.mp hmap
      exact .server hready ht
  | uploads b =>
      obtain ⟨hadmits, hbind⟩ := Option.ite_none_right_eq_some.mp h
      obtain ⟨u, hu, hmap⟩ := Option.bind_eq_some_iff.mp hbind
      obtain ⟨v, hv, rfl⟩ := Option.map_eq_some_iff.mp hmap
      exact .uploads hadmits hu hv
  | appShutdown =>
      obtain ⟨⟨hdone, hup⟩, ht⟩ := Option.ite_none_right_eq_some.mp h
      exact Option.some.inj ht ▸ .appShutdown hdone hup

/-- Seen from the server's threads, the process is a run of the server. -/
theorem server_of_process {ok' : Server H → ServerAct H → Prop}
    (hok : ∀ s a, ok s (.server a) → ok' s.server a) (h : (process H base).ReachableBy ok s) :
    (server H).ReachableBy ok' s.server := by
  refine h.project (fun s hs => .init (Process.Init.server hs)) fun s c t _ hc hstep => ?_
  cases process_step hstep with
  | server _ ht => exact .inr ⟨_, hok _ _ hc, ht⟩
  | uploads _ _ _ | appShutdown _ _ => exact .inl rfl

/-- Seen from the pool's, it is a run of the pool. -/
theorem uploads_of_process (h : (process H base).ReachableBy ok s) :
    ∀ u, s.uploads = some u → (uploadWorkers H base).Reachable u := by
  refine h.invariant (P := fun s => ∀ u, s.uploads = some u → (uploadWorkers H base).Reachable u)
    (fun s hs u hu => (hs.uploads u hu).1) ?_
  intro s c t _ hs _ hstep u hu
  cases process_step hstep with
  | server _ _ | appShutdown _ _ => exact hs u hu
  | uploads _ hu' hv =>
      obtain rfl := Option.some.inj hu
      exact (hs _ hu').tail trivial hv

/-! ## The teardown -/

/-- The main thread is behind the drain. -/
def Tearing : Running → Prop
  | .destroy _ last => last = true
  | .done => True
  | _ => False

/-- It is in the last `worker_destroy`, or behind it. -/
def Torn : Running → Prop
  | .destroy .inactive _ => False
  | .destroy _ last => last = true
  | .done => True
  | _ => False

/-- Nothing leads back in front of the drain. -/
theorem tearing_step {s t : Server H} (h : ServerStep s a t) (htearing : Tearing s.main) :
    Tearing t.main := by
  cases h with
  | @moves _ m es hmove =>
      show Tearing m
      generalize s.main = m₀ at hmove htearing
      cases hmove <;> first | exact htearing | exact htearing.elim
  | @touches _ i f m htouch =>
      show Tearing m
      generalize s.main = m₀ at htouch htearing
      cases htouch <;> exact htearing
  | allCreated hm _ | created hm _ => rw [hm] at htearing; exact htearing.elim
  | inactive hm => rw [hm] at htearing; exact htearing
  | freed _ => trivial
  | givenUp hm => rw [hm] at htearing; exact absurd htearing (by simp [Tearing])
  | _ => exact htearing

/-- The way into the last `worker_destroy` is its first step. -/
theorem torn_step {s t : Server H} (h : ServerStep s a t) (htorn : Torn t.main) :
    Torn s.main ∨ s.main = .destroy .inactive true ∧ ∃ created, a = .main created := by
  cases h with
  | @moves _ m es hmove =>
      replace htorn : Torn m := htorn
      generalize s.main = m₀ at hmove ⊢
      cases hmove <;> exact .inl htorn
  | @touches _ i f m htouch =>
      replace htorn : Torn m := htorn
      generalize s.main = m₀ at htouch ⊢
      cases htouch <;> exact .inl htorn
  | allCreated _ _ | created _ _ | givenUp _ => exact htorn.elim
  | @inactive created last hm =>
      obtain rfl : last = true := by
        have hout : Torn (.destroy (if s.worker.threadsStarted then .store 0 else .free) last) :=
          htorn
        split at hout <;> exact hout
      exact .inr ⟨hm, _, rfl⟩
  | freed hm => rw [hm]; exact .inl rfl
  | _ => exact .inl htorn

/-- A pool stops serving when it is shut down. -/
theorem PoolStep.serving {p q : UploadPool} {d : UploadAct} (h : PoolStep p d q)
    (hserving : p.control = .serving) : q.control = .serving ∨ d = .shutdown := by
  cases h with
  | shutdown _ _ => exact .inr rfl
  | created hc _ | createFailed hc _ | serves hc _ | shutdownLocks hc _ | closes hc _ _
  | skips hc _ _ | broadcasts hc _ | joins hc _ | returns hc _ =>
      exact absurd (hserving.symm.trans hc) (by simp)
  | _ => exact .inl hserving

/-- The end of `upload_workers_shutdown` is the end. -/
theorem PoolStep.returned {p q : UploadPool} {d : UploadAct} (h : PoolStep p d q)
    (hreturned : p.control = .returned) : q.control = .returned := by
  cases h with
  | shutdown hc _ | created hc _ | createFailed hc _ | serves hc _ | shutdownLocks hc _
  | closes hc _ _ | skips hc _ _ | broadcasts hc _ | joins hc _ | returns hc _ =>
      exact absurd (hreturned.symm.trans hc) (by simp)
  | _ => exact hreturned

theorem WorkersStep.serving (h : WorkersStep base u b v) (hserving : u.pool.control = .serving) :
    v.pool.control = .serving ∨ ∃ world peer, b = .pool .shutdown world peer := by
  cases h with
  | worker _ hpool => exact .inl ((hpool.serving hserving).resolve_right (by simp))
  | other _ hpool =>
      refine (hpool.serving hserving).imp_right ?_
      rintro rfl
      exact ⟨_, _, rfl⟩
  | round _ => exact .inl hserving

theorem WorkersStep.returned (h : WorkersStep base u b v) (hreturned : u.pool.control = .returned) :
    v.pool.control = .returned := by
  cases h with
  | worker _ hpool | other _ hpool => exact hpool.returned hreturned
  | round _ => exact hreturned

/-- How far the teardown is: the pool comes before the operators, and both before `DB_app`. -/
structure InTurn (s : Process H) : Prop where
  begun : ∀ u, s.uploads = some u → u.pool.control ≠ .serving → Tearing s.server.main
  joined : Torn s.server.main → ∀ u, s.uploads = some u → u.pool.control = .returned
  last : s.appDown = true → s.server.main = .done

theorem InTurn.step (hs : InTurn s) (h : ProcessStep base s c t) : InTurn t := by
  cases h with
  | @server a t hready hstep =>
      have hserver := server_step hstep
      refine ⟨fun u hu hc => tearing_step hserver (hs.begun u hu hc), fun htorn u hu => ?_,
        fun hdown => ?_⟩
      · rcases torn_step hserver htorn with hbefore | ⟨hm, created, rfl⟩
        · exact hs.joined hbefore u hu
        · -- the first step of `worker_destroy` is only taken behind the pool's shutdown
          have hready' : s.UploadsDown := hready hm
          have hu' : s.uploads = some u := hu
          simpa [UploadsDown, hu'] using hready'
      · have hdone := hs.last hdown
        cases hserver with
        | @moves _ m es hmove => rw [hdone] at hmove; cases hmove
        | @touches _ i f m htouch => rw [hdone] at htouch; cases htouch
        | allCreated hm _ | created hm _ | inactive hm | freed hm | givenUp hm =>
            exact absurd (hdone.symm.trans hm) (by simp)
        | _ => exact hdone
  | @uploads b u v hadmits hu hstep =>
      have hworkers := workers_step hstep
      refine ⟨fun v' hv' hc => ?_, fun htorn v' hv' => ?_, hs.last⟩
      · obtain rfl := Option.some.inj hv'
        by_cases hserving : u.pool.control = .serving
        · obtain ⟨world, peer, rfl⟩ := (hworkers.serving hserving).resolve_left hc
          have hm : s.server.main = .destroy .inactive true := hadmits
          show Tearing s.server.main
          rw [hm]
          exact rfl
        · exact hs.begun u hu hserving
      · obtain rfl := Option.some.inj hv'
        exact hworkers.returned (hs.joined htorn u hu)
  | appShutdown hdone _ => exact ⟨hs.begun, hs.joined, fun _ => hdone⟩

theorem inTurn_reachable (h : (process H base).ReachableBy ok s) : InTurn s := by
  refine h.invariant ?_ fun s c t _ hs _ hstep => hs.step (process_step hstep)
  intro s hs
  refine ⟨fun u hu hc => absurd (hs.uploads u hu).2.1 hc, fun htorn => ?_, fun hdown => ?_⟩
  · rw [hs.server.main] at htorn
    exact htorn.elim
  · exact absurd (hdown.symm.trans hs.appDown) (by simp)

/-! ## What is left behind it -/

/-- A pool that has returned takes no step. -/
theorem uploads_over (h : (uploadWorkers H base).Reachable u)
    (hreturned : u.pool.control = .returned) :
    (∀ w ∈ u.pool.workers, w = .exited) ∧ (∀ idx, u.drives idx = none) ∧
      (uploadWorkers H base).step u b = none := by
  have hok := pool_reachable (workers_pool_reachable h)
  have hexited : ∀ w ∈ u.pool.workers, w = .exited := by
    have hstopped := hok.staged.stopped
    rw [hreturned] at hstopped
    exact hstopped.2
  have hat : ∀ {i : Nat} {w : UploadWorker}, u.pool.workers[i]? = some w → w = .exited :=
    fun hw => hexited _ (List.mem_of_getElem? hw)
  have hidle : u.pool.dispatch = .idle := by
    by_contra hbusy
    exact absurd ((hok.staged.quiet hbusy).symm.trans hreturned) (by simp)
  have hnone : ∀ i, u.drives i = none := by
    intro i
    have hfd := (inHands_reachable h).fds i
    cases hw : u.pool.workers[i]? with
    | none =>
        rw [hw] at hfd
        exact Option.map_eq_none_iff.mp hfd
    | some w =>
        rw [hw, hat hw] at hfd
        exact Option.map_eq_none_iff.mp hfd
  have hpool : ∀ d q, ¬ PoolStep u.pool d q := by
    intro d q hstep
    cases hstep with
    | parserReady hw | parserFailed hw | sleeps hw _ _ | exits hw _ _ | takes hw _ | releases hw
    | spurious hw => exact absurd (hat hw) (by simp)
    | acquired hw hor _ => rcases hor with rfl | rfl <;> exact absurd (hat hw) (by simp)
    | dispatchLocks hd _ | rejects hd _ | wakes hd _ _ | wakesNobody hd _ _ =>
        exact absurd (hidle.symm.trans hd) (by simp)
    | refused hc _ _ | called hc _ _ _ | shutdown hc _ | created hc _ | createFailed hc _
    | serves hc _ | shutdownLocks hc _ | closes hc _ _ | skips hc _ _ | broadcasts hc _
    | joins hc _ | returns hc _ => exact absurd (hreturned.symm.trans hc) (by simp)
  refine ⟨hexited, hnone, ?_⟩
  cases hstep : (uploadWorkers H base).step u b with
  | none => rfl
  | some v =>
      cases workers_step hstep with
      | worker _ hp | other _ hp => exact absurd hp (hpool _ _)
      | round hd => exact absurd ((hnone _).symm.trans hd) (by simp)

/-- A server that is done only lets time pass. -/
theorem server_over {s t : Server H} (hdone : s.main = .done) (hstopped : s.listener = .stopped)
    (hnone : s.operators = []) (h : (server H).step s a = some t) : ∃ n, a = .tick n := by
  have h' : s.step a = some t := h
  cases a with
  | tick n => exact ⟨n, rfl⟩
  | accept fd | stop => simp [Server.step, hstopped] at h'
  | listener => simp [Server.step, stepListener, hstopped] at h'
  | operator i w => simp [Server.step, hnone] at h'
  | main created => simp [Server.step, stepMain, hdone] at h'
  | requestStore i | requestWrite i => simp [Server.step, hnone] at h'

/-! ## A small process -/

/-- One operator, and one worker of the pool about to start. -/
def smallProcess : Process DbHttp.small where
  server := Server.small 1
  uploads := some
    { pool := { UploadPool.small with workers := [.starting], control := .serving }
      clients := fun _ =>
        { Client.zeroed DbHttp.small with ctx := ⟨-1, none, none⟩, httpParser := some () }
      drives := fun _ => none }
  appDown := false

/-- A step of the pool, in a world where every call succeeds. -/
def smoothly (a : UploadAct) : ProcessAct DbHttp.small :=
  .uploads (.pool a (Env.smooth { status := 200 }) (0, 0))

theorem init_smallProcess : Process.Init 1 smallProcess where
  server := serverInit_small (.inl rfl)
  uploads := by
    intro u hu
    obtain rfl := Option.some.inj hu
    refine ⟨?_, rfl, rfl, rfl⟩
    have hinit : (uploadWorkers DbHttp.small 1).Reachable
        { pool := .small
          clients := fun _ =>
            { Client.zeroed DbHttp.small with ctx := ⟨-1, none, none⟩, httpParser := some () }
          drives := fun _ => none } := .init ⟨init_small, fun _ => rfl, fun _ => ⟨(), rfl⟩⟩
    have hcreated := hinit.tail (a := .pool (.control true) (Env.smooth { status := 200 }) (0, 0))
      trivial rfl
    exact hcreated.tail (a := .pool (.control true) (Env.smooth { status := 200 }) (0, 0))
      trivial rfl
  appDown := rfl

/-- The operator takes connection 7 and the pool's worker connection 8. -/
def takesBoth : List (ProcessAct DbHttp.small) :=
  List.map ProcessAct.server (creates 1 ++ operates 0 3 [] ++ List.replicate 3 (.main true) ++
      [.accept 7] ++ listens 9 ++ operates 0 11 [wakeupEvent]) ++
    [smoothly (.worker 0 true), smoothly (.call 8), smoothly (.dispatch 0), smoothly (.dispatch 0),
      smoothly (.worker 0 true), smoothly (.worker 0 true)]

/-- The listener leaves its loop, and everything is torn down in its turn. -/
def tearsDown : List (ProcessAct DbHttp.small) :=
  List.map ProcessAct.server ([.stop] ++ List.replicate 3 (.main true) ++
      [.tick serverShutdownGrace, .main true]) ++
    [smoothly .shutdown, smoothly (.control true), smoothly (.control true)] ++
    List.replicate 8 (.uploads (.round 0)) ++
    [smoothly (.worker 0 true), smoothly (.worker 0 true), smoothly (.worker 0 true),
      smoothly (.control true), smoothly (.control true)] ++
    List.map ProcessAct.server (List.replicate 4 (.main true) ++ operates 0 7 [wakeupEvent] ++
      List.replicate 3 (.main true)) ++
    [.appShutdown]

/-- **`DB_app` is shut down when nobody is left to call it.** However the threads interleave and
whether or not there is an upload pool: `worker_destroy` only starts to ask the operators to stop
when every thread of the pool has exited and none has a connection in hand; `db_app_shutdown` is
called behind the last join of either kind, and from then on no thread takes a step. -/
theorem app_is_shut_down_last (h : (process H base).ReachableBy ok s) :
    (Torn s.server.main → ∀ u, s.uploads = some u → u.pool.control = .returned ∧
      (∀ w ∈ u.pool.workers, w = .exited) ∧ ∀ idx, u.drives idx = none) ∧
    (s.appDown = true → s.server.listener = .stopped ∧ s.server.operators = [] ∧
      (∀ u, s.uploads = some u → ∀ w ∈ u.pool.workers, w = .exited) ∧
      ∀ c t, (process H base).step s c = some t → ∃ n, c = .server (.tick n)) := by
  have hturn := inTurn_reachable h
  have huploads := uploads_of_process h
  have hserver : (server H).Reachable s.server := server_of_process (fun _ _ _ => trivial) h
  refine ⟨fun htorn u hu => ?_, fun hdown => ?_⟩
  · have hreturned := hturn.joined htorn u hu
    obtain ⟨hexited, hnone, _⟩ := uploads_over (b := .round 0) (huploads u hu) hreturned
    exact ⟨hreturned, hexited, hnone⟩
  · have hdone := hturn.last hdown
    have hjoined := hturn.joined (by rw [hdone]; trivial)
    have hstopped := stopped_reachable hserver (by rw [hdone]; trivial)
    have hnone := done_reachable hserver hdone
    refine ⟨hstopped, hnone, fun u hu => (uploads_over (b := .round 0) (huploads u hu)
      (hjoined u hu)).1, fun c t hstep => ?_⟩
    cases process_step hstep with
    | server _ ht =>
        obtain ⟨n, rfl⟩ := server_over hdone hstopped hnone ht
        exact ⟨n, rfl⟩
    | uploads _ hu hv =>
        exact absurd ((uploads_over (huploads _ hu) (hjoined _ hu)).2.2.symm.trans hv) (by simp)
    | appShutdown _ hup => exact absurd (hdown.symm.trans hup) (by simp)

/-- The operator is stopped with its client, behind the pool's worker with its own. -/
theorem app_is_shut_down_last_small : ∃ s t : Process DbHttp.small,
    (process DbHttp.small 1).Reachable s ∧ Torn s.server.main ∧
      (∀ u, s.uploads = some u → ∀ w ∈ u.pool.workers, w = .exited) ∧
      (process DbHttp.small 1).Reachable t ∧ t.appDown = true ∧ t.uploads.isSome = true ∧
      t.server.operators = [] ∧
      ∀ c v, (process DbHttp.small 1).step t c = some v → ∃ n, c = .server (.tick n) := by
  have hinit : (process DbHttp.small 1).Reachable smallProcess := .init init_smallProcess
  obtain ⟨s, hs, htorn⟩ := hinit.exists_of_run ((takesBoth ++ tearsDown).take 58)
    (fun s => decide (s.server.main = .destroy (.store 0) true)) (by decide +kernel)
  obtain ⟨t, ht, hdown⟩ := hinit.exists_of_run (takesBoth ++ tearsDown)
    (fun s => s.appDown && s.uploads.isSome) (by decide +kernel)
  simp only [decide_eq_true_eq, Bool.and_eq_true] at htorn hdown
  have htorn' : Torn s.server.main := by
    rw [htorn]
    exact rfl
  obtain ⟨_, hnone, _, hover⟩ := (app_is_shut_down_last ht).2 hdown.1
  exact ⟨s, t, hs, htorn', fun u hu => ((app_is_shut_down_last hs).1 htorn' u hu).2.1, ht, hdown.1,
    hdown.2, hnone, hover⟩

/-! ## One descriptor, one holder -/

theorem sum_map_set {α : Type} {f : α → Nat} {w w' : α} : ∀ {ws : List α} {i : Nat},
    ws[i]? = some w → ((ws.set i w').map f).sum + f w = (ws.map f).sum + f w'
  | [], _, h => absurd h (by simp)
  | v :: ws, 0, h => by
      obtain rfl := Option.some.inj h
      simp only [List.set_cons_zero, List.map_cons, List.sum_cons]
      omega
  | v :: ws, i + 1, h => by
      have ih : ((ws.set i w').map f).sum + f w = (ws.map f).sum + f w' := sum_map_set h
      simp only [List.set_cons_succ, List.map_cons, List.sum_cons]
      omega

/-- Whether the listener has the descriptor in its hand for the pool. -/
def dispatchHeld (x : Int) : UploadDispatch → Nat
  | .locking fd | .holding fd => if fd = x then 1 else 0
  | .idle => 0

/-- How many places of the pool hold the descriptor. -/
def uploadHeld (x : Int) (p : UploadPool) : Nat :=
  dispatchHeld x p.dispatch + (p.queue.contents uploadQueueMax).count x +
    (p.workers.map fun w => (drives w).count x).sum

/-- What the listener brings in. -/
def broughtIn (x : Int) : UploadAct → Nat
  | .call fd => if fd = x then 1 else 0
  | _ => 0

theorem uploadHeld_eq_zero {p : UploadPool} (h : ¬ p.Holds x) : uploadHeld x p = 0 := by
  obtain ⟨hlocking, hholding, hqueue, hdriving⟩ : p.dispatch ≠ .locking x ∧
      p.dispatch ≠ .holding x ∧ x ∉ p.queue.contents uploadQueueMax ∧ .driving x ∉ p.workers := by
    simpa [UploadPool.Holds] using h
  have hdispatch : dispatchHeld x p.dispatch = 0 := by
    cases hd : p.dispatch with
    | idle => rfl
    | locking fd =>
        refine if_neg fun heq => hlocking ?_
        rw [hd, heq]
    | holding fd =>
        refine if_neg fun heq => hholding ?_
        rw [hd, heq]
  have hworkers : (p.workers.map fun w => (drives w).count x).sum = 0 := by
    refine List.sum_eq_zero fun n hn => ?_
    obtain ⟨w, hw, rfl⟩ := List.mem_map.mp hn
    refine List.count_eq_zero.mpr fun hx => hdriving ?_
    cases w with
    | driving fd => exact List.mem_singleton.mp hx ▸ hw
    | _ => exact absurd hx List.not_mem_nil
  rw [uploadHeld, hdispatch, hworkers, List.count_eq_zero.mpr hqueue]

/-- A pool that has not been called holds nothing. -/
theorem not_holds_of_log {p : UploadPool} (hok : PoolOk p) (hlog : p.log = [])
    (hidle : p.dispatch = .idle) : ¬ p.Holds x := by
  have hqueue : p.queue.contents uploadQueueMax = [] := by
    have horder := hok.fifo.order
    rw [hlog] at horder
    exact (List.append_eq_nil_iff.mp horder.symm).2
  have hdriving : .driving x ∉ p.workers := by
    intro hmem
    obtain ⟨j, hj⟩ := List.getElem?_of_mem hmem
    have hsettled := hok.settled j
    rw [hlog, drivenBy, hj] at hsettled
    exact absurd hsettled (by simp [takenBy, releasedBy, drives])
  simp [UploadPool.Holds, hidle, hqueue, hdriving]

/-- Nor does one that has been shut down. -/
theorem not_holds_of_returned (h : (uploadWorkers H base).Reachable u)
    (hreturned : u.pool.control = .returned) : ¬ u.pool.Holds x := by
  have hok := pool_reachable (workers_pool_reachable h)
  have hstopped := hok.staged.stopped
  rw [hreturned] at hstopped
  have hidle : u.pool.dispatch = .idle := by
    by_contra hbusy
    exact absurd ((hok.staged.quiet hbusy).symm.trans hreturned) (by simp)
  have hqueue : u.pool.queue.contents uploadQueueMax = [] :=
    RingQueue.contents_of_count_eq_zero hstopped.1
  have hdriving : .driving x ∉ u.pool.workers := fun hmem => absurd (hstopped.2 _ hmem) (by simp)
  simp [UploadPool.Holds, hidle, hqueue, hdriving]

/-- A worker goes on: what it has in hand comes off the queue. -/
theorem uploadHeld_works {p q : UploadPool} {i : Nat} {w w' : UploadWorker}
    (hw : p.workers[i]? = some w) (hworkers : q.workers = p.workers.set i w')
    (hdispatch : q.dispatch = p.dispatch)
    (hcount : (q.queue.contents uploadQueueMax).count x + (drives w').count x ≤
      (p.queue.contents uploadQueueMax).count x + (drives w).count x) :
    uploadHeld x q ≤ uploadHeld x p := by
  have hsum : ((p.workers.set i w').map fun w => (drives w).count x).sum + (drives w).count x =
      (p.workers.map fun w => (drives w).count x).sum + (drives w').count x := sum_map_set hw
  unfold uploadHeld
  rw [hworkers, hdispatch]
  omega

/-- The workers keep what they have, and the listener or the main thread goes on. -/
theorem uploadHeld_same {p q : UploadPool} {n : Nat}
    (hworkers : (q.workers.map fun w => (drives w).count x).sum =
      (p.workers.map fun w => (drives w).count x).sum)
    (hcount : dispatchHeld x q.dispatch + (q.queue.contents uploadQueueMax).count x ≤
      dispatchHeld x p.dispatch + (p.queue.contents uploadQueueMax).count x + n) :
    uploadHeld x q ≤ uploadHeld x p + n := by
  unfold uploadHeld
  rw [hworkers]
  omega

/-- The descriptor at the head leaves the queue. -/
theorem count_contents_pop (x : Int) {p : UploadPool} (hfifo : Fifo p) (hsome : 0 < p.queue.count) :
    (p.queue.contents uploadQueueMax).count x =
      (p.pop.queue.contents uploadQueueMax).count x + if p.queue.front = x then 1 else 0 := by
  rw [RingQueue.contents_pop hfifo.wrapped hsome, List.count_cons]
  simp only [beq_iff_eq]
  rfl

/-- The descriptor in the listener's hand goes to the tail. -/
theorem count_contents_push (fd x : Int) {p : UploadPool} (hfifo : Fifo p)
    (hroom : p.queue.count < p.qMax) :
    ((p.queue.push uploadQueueMax fd).contents uploadQueueMax).count x =
      (p.queue.contents uploadQueueMax).count x + if fd = x then 1 else 0 := by
  rw [RingQueue.contents_push hfifo.wrapped (Nat.lt_of_lt_of_le hroom hfifo.depth.2),
    List.count_append, List.count_singleton]
  simp only [beq_iff_eq]

/-- **Only the listener brings a descriptor in**, and nobody doubles one. -/
theorem PoolStep.uploadHeld_le {p q : UploadPool} {d : UploadAct} (h : PoolStep p d q)
    (hfifo : Fifo p) (x : Int) : uploadHeld x q ≤ uploadHeld x p + broughtIn x d := by
  -- a worker that does not take one has nothing new
  have hworks : ∀ {i : Nat} {w w' : UploadWorker}, p.workers[i]? = some w → drives w' = [] →
      q.workers = p.workers.set i w' → q.dispatch = p.dispatch → q.queue = p.queue →
      uploadHeld x q ≤ uploadHeld x p + broughtIn x d := by
    intro i w w' hw hnone hworkers hdispatch hqueue
    refine Nat.le_add_right_of_le (uploadHeld_works hw hworkers hdispatch ?_)
    rw [hqueue, hnone]
    exact Nat.add_le_add_left (Nat.zero_le _) _
  cases h with
  | parserReady hw | parserFailed hw | acquired hw _ _ | sleeps hw _ _ | exits hw _ _
  | releases hw | spurious hw => exact hworks hw rfl rfl rfl rfl
  | @takes idx _ hw hsome =>
      have hpop := count_contents_pop x hfifo hsome
      refine uploadHeld_works hw rfl rfl ?_
      show (p.pop.queue.contents uploadQueueMax).count x + _ ≤ _
      rw [hpop, if_pos (hfifo.front_valid hsome)]
      simp only [drives, List.count_singleton, List.count_nil, beq_iff_eq]
      omega
  | refused _ _ _ | shutdown _ _ | createFailed _ _ | serves _ _ | shutdownLocks _ _
  | joins _ _ | returns _ _ => exact uploadHeld_same rfl (Nat.le_add_right _ _)
  | @called fd _ hd _ _ =>
      refine uploadHeld_same rfl ?_
      rw [hd]
      show (if fd = x then 1 else 0) + (p.queue.contents uploadQueueMax).count x ≤
        0 + (p.queue.contents uploadQueueMax).count x + if fd = x then 1 else 0
      omega
  | dispatchLocks hd _ =>
      refine uploadHeld_same rfl (Nat.le_add_right_of_le ?_)
      rw [hd]
      exact Nat.le_refl _
  | rejects hd _ =>
      exact uploadHeld_same rfl (Nat.le_add_right_of_le (Nat.add_le_add_right (Nat.zero_le _) _))
  | @wakes wake fd hd hroom hw =>
      have hpush := count_contents_push fd x hfifo hroom
      have hsum : ((p.workers.set wake .woken).map fun w => (drives w).count x).sum + 0 =
          (p.workers.map fun w => (drives w).count x).sum + 0 := sum_map_set hw
      refine uploadHeld_same hsum ?_
      show 0 + ((p.queue.push uploadQueueMax fd).contents uploadQueueMax).count x ≤ _
      rw [hpush, hd]
      show _ ≤ (if fd = x then 1 else 0) + _ + _
      omega
  | @wakesNobody wake fd hd hroom _ =>
      have hpush := count_contents_push fd x hfifo hroom
      refine uploadHeld_same rfl ?_
      show 0 + ((p.queue.push uploadQueueMax fd).contents uploadQueueMax).count x ≤ _
      rw [hpush, hd]
      show _ ≤ (if fd = x then 1 else 0) + _ + _
      omega
  | created _ _ =>
      refine uploadHeld_same ?_ (Nat.le_add_right _ _)
      show ((p.workers ++ [UploadWorker.starting]).map _).sum = _
      rw [List.map_append, List.sum_append]
      rfl
  | closes _ hsome _ | skips _ hsome _ =>
      have hpop := count_contents_pop x hfifo hsome
      refine uploadHeld_same rfl ?_
      show dispatchHeld x p.dispatch + (p.pop.queue.contents uploadQueueMax).count x ≤ _
      omega
  | broadcasts _ _ =>
      refine uploadHeld_same ?_ (Nat.le_add_right _ _)
      show ((p.workers.map UploadWorker.awake).map _).sum = _
      rw [List.map_map]
      congr 2
      funext w
      cases w <;> rfl

/-- The server's threads keep their descriptors. -/
def KeepsServer (s : Process H) : ProcessAct H → Prop
  | .server a => KeepsDescriptors s.server a
  | _ => True

instance (s : Process H) : ∀ c, Decidable (KeepsServer s c)
  | .server a => inferInstanceAs (Decidable (KeepsDescriptors s.server a))
  | .uploads _ | .appShutdown => inferInstanceAs (Decidable True)

/-- How many places hold the descriptor, on either side. -/
def heldInAll (x : Int) (s : Process H) : Nat :=
  held x s.server + (s.uploads.map fun u => uploadHeld x u.pool).getD 0

/-- A descriptor the kernel hands out is in nobody's hands. -/
theorem heldInAll_fresh (h : (process H base).ReachableBy KeepsServer s) (hfresh : s.Fresh fd) :
    heldInAll fd s = 0 := by
  have hbalance := (conserved_reachable (server_of_process (fun _ _ hk => hk) h)).balance fd
  have hcount := hfresh.1.1
  have hpool : (s.uploads.map fun u => uploadHeld fd u.pool).getD 0 = 0 := by
    cases hu : s.uploads with
    | none => rfl
    | some u =>
        have hnot : ¬ u.pool.Holds fd := by simpa [hu] using hfresh.2
        exact uploadHeld_eq_zero hnot
  unfold heldInAll
  omega

/-- Nothing but `accept` accepts. -/
theorem ServerStep.accepts_none {s t : Server H} (h : ServerStep s a t) (ha : ∀ fd, a ≠ .accept fd)
    (x : Int) : t.log.count (.accepted x) = s.log.count (.accepted x) := by
  have hsilent : ∀ {es : List ServerEvent}, .accepted x ∉ es →
      (s.log ++ es).count (.accepted x) = s.log.count (.accepted x) := by
    intro es hes
    rw [List.count_append, List.count_eq_zero.mpr hes, Nat.add_zero]
  cases h with
  | accepted _ _ _ => exact absurd rfl (ha _)
  | pushed _ _ _ | refused _ | requestStored => exact hsilent (by simp)
  | executed _ _ _ =>
      refine hsilent fun hmem => ?_
      rcases mem_shown hmem with ⟨_, heq⟩ | ⟨_, heq⟩ <;> exact ServerEvent.noConfusion heq
  | moves hmove => exact hsilent (List.count_eq_zero.mp (hmove.count_eq_zero x).1)
  | freed _ => exact hsilent (by simp)
  | givenUp _ =>
      have hlog : (s.freed.runReturns .failure).log =
          s.log ++ (s.leftOpen.map ServerEvent.closed ++ [.returned .failure]) :=
        List.append_assoc ..
      rw [hlog]
      exact hsilent (by simp)
  | _ => rfl

/-- What the server's threads hold only grows with `accept`. -/
theorem held_le {s t : Server H} (h : ServerStep s a t) (hs : Conserved s) (ht : Conserved t)
    (ha : ∀ fd, a ≠ .accept fd) (hok : KeepsDescriptors s a)
    (hquiet : ∀ j, Through s.worker.threadsStarted s.main j → ∀ th, s.operators[j]? = some th →
      th.code = []) (x : Int) : held x t ≤ held x s := by
  obtain ⟨es, hlog, _⟩ := h.held hok hquiet
  have hsame := h.accepts_none ha x
  have hbefore := hs.balance x
  have hafter := ht.balance x
  have hclosed : s.log.count (.closed x) ≤ t.log.count (.closed x) := by
    rw [hlog, List.count_append]
    exact Nat.le_add_right ..
  omega

/-- **No descriptor is in two hands**, be they an operator's, a worker's of the pool, the
listener's or a queue's; and none is left in any behind `db_app_shutdown`. -/
theorem one_holder_in_the_process (h : (process H base).ReachableBy KeepsServer s) :
    (∀ x, held x s.server + (s.uploads.map fun u => uploadHeld x u.pool).getD 0 ≤ 1) ∧
      (s.appDown = true → ∀ x, held x s.server = 0 ∧
        ∀ u, s.uploads = some u → uploadHeld x u.pool = 0) := by
  have honce : ∀ x, heldInAll x s ≤ 1 := by
    induction h with
    | @init s hs =>
        intro x
        have hserver := (conserved_reachable (.init hs.server)).once x
        have hpool : (s.uploads.map fun u => uploadHeld x u.pool).getD 0 = 0 := by
          cases hu : s.uploads with
          | none => rfl
          | some u =>
              obtain ⟨hreach, _, hlog, hidle⟩ := hs.uploads u hu
              exact uploadHeld_eq_zero (not_holds_of_log (pool_reachable
                (workers_pool_reachable hreach)) hlog hidle)
        unfold heldInAll
        omega
    | @tail s t c hreach hkeeps hstep ih =>
        intro x
        have hbefore := ih x
        cases process_step hstep with
        | @server a t' hready ht =>
            have hserver := server_step ht
            have hs : (server H).ReachableBy KeepsDescriptors s.server :=
              server_of_process (fun _ _ hk => hk) hreach
            by_cases ha : ∃ fd, a = .accept fd
            · obtain ⟨fd, rfl⟩ := ha
              cases hserver with
              | accepted hl hfd hfresh =>
                  have hgrown : held x ((s.server.listen (.accepted fd)).note [.accepted fd]) =
                      held x s.server + if fd = x then 1 else 0 := by
                    unfold held
                    rw [hl]
                    show (if fd = x then 1 else 0) + _ = 0 + _ + _
                    rw [Nat.zero_add, Nat.add_comm]
                    rfl
                  show held x ((s.server.listen (.accepted fd)).note [.accepted fd]) + _ ≤ 1
                  rw [hgrown]
                  by_cases hx : fd = x
                  · subst hx
                    have hnone := heldInAll_fresh hreach hready.2
                    unfold heldInAll at hnone
                    rw [if_pos rfl]
                    show _ + 1 + (s.uploads.map fun u => uploadHeld fd u.pool).getD 0 ≤ 1
                    omega
                  · rw [if_neg hx]
                    exact hbefore
            · have hle := held_le hserver (conserved_reachable hs)
                (conserved_reachable (hs.tail hkeeps ht)) (fun fd heq => ha ⟨fd, heq⟩) hkeeps
                (quiet_reachable hs) x
              unfold heldInAll at hbefore ⊢
              show held x t' + (s.uploads.map fun u => uploadHeld x u.pool).getD 0 ≤ 1
              omega
        | @uploads b u v hadmits hu hv =>
            unfold heldInAll at hbefore ⊢
            rw [hu] at hbefore
            replace hbefore : held x s.server + uploadHeld x u.pool ≤ 1 := hbefore
            show held x s.server + uploadHeld x v.pool ≤ 1
            have hfifo := (pool_reachable (workers_pool_reachable
              (uploads_of_process hreach u hu))).fifo
            cases workers_step hv with
            | worker _ hp =>
                have hle : uploadHeld x _ ≤ uploadHeld x u.pool + 0 := hp.uploadHeld_le hfifo x
                exact Nat.le_trans (Nat.add_le_add_left hle _) hbefore
            | @other d world peer p _ hp =>
                have hle := hp.uploadHeld_le hfifo x
                by_cases hcall : d = .call x
                · -- what the kernel has just handed out was nowhere
                  subst hcall
                  have hadmits' : s.server.listener = .waiting ∧ s.Fresh x := hadmits
                  have hnone := heldInAll_fresh hreach hadmits'.2
                  unfold heldInAll at hnone
                  rw [hu] at hnone
                  replace hnone : held x s.server + uploadHeld x u.pool = 0 := hnone
                  rw [show broughtIn x (.call x) = 1 from if_pos rfl] at hle
                  show held x s.server + uploadHeld x p ≤ 1
                  omega
                · have hnothing : broughtIn x d = 0 := by
                    cases d with
                    | call fd => exact if_neg fun heq => hcall (by rw [heq])
                    | _ => rfl
                  rw [hnothing] at hle
                  exact Nat.le_trans (Nat.add_le_add_left hle _) hbefore
            | round _ => exact hbefore
        | appShutdown _ _ => exact hbefore
  refine ⟨honce, fun hdown x => ?_⟩
  have hturn := inTurn_reachable h
  have hserver : (server H).Reachable s.server := server_of_process (fun _ _ _ => trivial) h
  have hdone := hturn.last hdown
  refine ⟨?_, fun u hu => uploadHeld_eq_zero (not_holds_of_returned
    (uploads_of_process h u hu) (hturn.joined (by rw [hdone]; trivial) u hu))⟩
  unfold held
  rw [stopped_reachable hserver (by rw [hdone]; trivial), done_reachable hserver hdone]
  rfl

/-- Connection 7 in a slot and connection 8 with a worker, and in the end neither anywhere. -/
theorem one_holder_in_the_process_both : ∃ s t : Process DbHttp.small,
    held 7 s.server = 1 ∧ (s.uploads.map fun u => uploadHeld 8 u.pool) = some 1 ∧
      (∀ x, held x s.server + (s.uploads.map fun u => uploadHeld x u.pool).getD 0 ≤ 1) ∧
      t.appDown = true ∧ held 7 t.server = 0 ∧
      ∀ u, t.uploads = some u → uploadHeld 8 u.pool = 0 := by
  have hinit : (process DbHttp.small 1).ReachableBy KeepsServer smallProcess :=
    .init init_smallProcess
  obtain ⟨s, hs, hboth⟩ := hinit.exists_of_run takesBoth
    (fun s => decide (held 7 s.server = 1) &&
      decide ((s.uploads.map fun u => uploadHeld 8 u.pool) = some 1)) (by decide +kernel)
  obtain ⟨t, ht, hdown⟩ := hinit.exists_of_run (takesBoth ++ tearsDown)
    (fun s => s.appDown) (by decide +kernel)
  simp only [decide_eq_true_eq, Bool.and_eq_true] at hboth
  have hnone := (one_holder_in_the_process ht).2 hdown
  exact ⟨s, t, hboth.1, hboth.2, (one_holder_in_the_process hs).1, hdown, (hnone 7).1,
    (hnone 8).2⟩

end DBServer.Proof
