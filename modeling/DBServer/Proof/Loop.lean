import DBServer.Lib.Steps
import DBServer.Listener.Loop

/-!
# The course of the listener's thread

A signal that finds the handler installed leaves the eventfd readable. Level-triggered
`epoll` puts the eventfd into the next batch, whatever else is in it, and the batch that
has it is the last one. So a signal can come at any moment: at most the rest of the batch
under way and one more batch of connections are accepted behind it (`Underway`), and the
thread is on its way out.

Winding up starts with the default dispositions of the signals. From there on a further signal
ends the process at once, with some of the sockets closed and some of the paths removed: what
can be said of every moment is which (`stoppedAt`).
-/

namespace DBServer.Proof

open DBServer Lib ListenLoop

variable {s₀ s t : ListenLoop} {a : LoopAct} {w : LoopAnswers} {e : LoopKey × Nat}
  {es batch : List (LoopKey × Nat)} {evs log : List LoopEvent} {handler : Handler} {fd : Int}
  {n m p : Nat}

/-! ## What an event does -/

/-- The event is a socket's. -/
def ofSocket (e : LoopKey × Nat) : Bool :=
  match e.1 with
  | .socket _ => true
  | .shutdown => false

/-- A connection was accepted. -/
def isAccept : LoopEvent → Bool
  | .accepted _ => true
  | _ => false

/-- What the handling of a socket's event shows, and what it does to the latch of the warning. -/
inductive Accepting : Bool → List LoopEvent → Bool → Prop where
  | nothing {b : Bool} : Accepting b [] b
  | exhausted : Accepting true [.slept] true
  | warned : Accepting false [.warned, .slept] true
  | handedOn {b : Bool} (fd : Nat) : Accepting b [.accepted fd, .dispatched fd] false
  | refused {b : Bool} (fd : Nat) : Accepting b [.accepted fd, .closed fd] false
  | busy {b : Bool} (fd : Nat) : Accepting b [.accepted fd, .busy fd, .closed fd] false

/-- What the handling of an event comes to. -/
inductive Handles (s : ListenLoop) (e : LoopKey × Nat) (es : List (LoopKey × Nat)) :
    ListenLoop → Prop where
  | crashed : Handles s e es (s.goTo .crashed)
  | connection {b : Bool} {evs : List LoopEvent} : ofSocket e = true → Accepting s.warned evs b →
      Handles s e es (({ s with warned := b }.note evs).goTo (.events es))
  | shutdown : e.1 = .shutdown → Handles s e es (s.handleShutdownEvent.goTo (.events es))

theorem same_handles (h : ofSocket e = true) : Handles s e es (s.goTo (.events es)) := by
  have hout : Handles s e es (({ s with warned := s.warned }.note []).goTo (.events es)) :=
    .connection h .nothing
  simpa only [ListenLoop.note, List.append_nil] using hout

theorem backoff_handles (h : ofSocket e = true) :
    Handles s e es (s.backoffOnFdExhaustion.goTo (.events es)) := by
  cases hw : s.warned with
  | true =>
      have hout : Handles s e es
          (({ s with warned := s.warned }.note [.slept]).goTo (.events es)) :=
        .connection h (by rw [hw]; exact .exhausted)
      simpa [backoffOnFdExhaustion, hw] using hout
  | false =>
      have hout : Handles s e es
          (({ s with warned := true }.note [.warned, .slept]).goTo (.events es)) :=
        .connection h (by rw [hw]; exact .warned)
      simpa [backoffOnFdExhaustion, hw, ListenLoop.note] using hout

theorem handleListenEvent_handles (h : ofSocket e = true) :
    Handles s e es ((s.handleListenEvent w).goTo (.events es)) := by
  unfold handleListenEvent
  split
  · exact backoff_handles h
  · exact same_handles h
  · exact same_handles h
  · rename_i fd _
    cases w.dispatched
    · exact .connection h (.refused fd)
    · exact .connection h (.handedOn fd)

theorem handleUploadListenEvent_handles (h : ofSocket e = true) :
    Handles s e es ((s.handleUploadListenEvent w).goTo (.events es)) := by
  unfold handleUploadListenEvent
  split
  · exact same_handles h
  · exact backoff_handles h
  · exact same_handles h
  · rename_i fd _
    cases w.dispatched
    · exact .connection h (.busy fd)
    · exact .connection h (.handedOn fd)

/-- The handler that is called is the context's. -/
theorem handler_of_dispatch {ctx : FdCtx} {events : Nat}
    (h : reactorDispatch false ctx events = .call handler fd) : ctx.handler = some handler := by
  unfold reactorDispatch at h
  split at h
  · exact absurd h (by simp)
  · split at h
    · rename_i heq
      rw [heq, (Dispatch.call.inj h).1]
    · exact absurd h (by simp)

/-- A socket's handler accepts, the eventfd's ends the loop. -/
theorem ofSocket_iff_handler {key : LoopKey} {events : Nat}
    (h : reactorDispatch false (s.ctx key) events = .call handler fd) :
    (ofSocket (key, events) = true ∧ (handler = .listen ∨ handler = .uploadListen)) ∨
      (key = .shutdown ∧ handler = .listenerShutdown) := by
  have hctx := handler_of_dispatch h
  cases key with
  | socket idx =>
      refine .inl ⟨rfl, ?_⟩
      cases hsock : s.listener.sockets[idx]? with
      | none => simp [ListenLoop.ctx, hsock] at hctx
      | some sock =>
          simp only [ListenLoop.ctx, hsock, Option.some.injEq] at hctx
          split at hctx
          · exact .inr hctx.symm
          · exact .inl hctx.symm
  | shutdown =>
      refine .inr ⟨rfl, ?_⟩
      cases hefd : s.listener.shutdownEfd with
      | none => simp [ListenLoop.ctx, hefd] at hctx
      | some efd =>
          simp only [ListenLoop.ctx, hefd, Option.some.injEq] at hctx
          exact hctx.symm

/-- **Every event does one of three things.** -/
theorem handleEvent_handles (s : ListenLoop) (e : LoopKey × Nat) (es : List (LoopKey × Nat))
    (w : LoopAnswers) : Handles s e es (s.handleEvent e es w) := by
  unfold ListenLoop.handleEvent
  split
  · rename_i hcall
    rcases ofSocket_iff_handler hcall with ⟨hsock, _⟩ | ⟨_, hother⟩
    · exact handleListenEvent_handles hsock
    · exact absurd hother (by simp)
  · rename_i hcall
    rcases ofSocket_iff_handler hcall with ⟨hsock, _⟩ | ⟨_, hother⟩
    · exact handleUploadListenEvent_handles hsock
    · exact absurd hother (by simp)
  · rename_i hcall
    rcases ofSocket_iff_handler hcall with ⟨_, hother⟩ | ⟨hkey, _⟩
    · rcases hother with hother | hother <;> exact absurd hother (by simp)
    · exact .shutdown hkey
  · exact .crashed

/-! ## What can be read off a log -/

/-- The path that was removed. -/
def unlinkedPath : LoopEvent → Option Bytes
  | .unlinked path => some path
  | _ => none

/-- The connections accepted behind the first signal. -/
def late (log : List LoopEvent) : Nat := (log.dropWhile (· ≠ .signalled)).countP isAccept

theorem Accepting.accepts {b b' : Bool} (h : Accepting b evs b') : evs.countP isAccept ≤ 1 := by
  cases h <;> simp [List.countP_cons, isAccept]

theorem Accepting.unsignalled {b b' : Bool} (h : Accepting b evs b') : .signalled ∉ evs := by
  cases h <;> simp

theorem Accepting.linked {b b' : Bool} (h : Accepting b evs b') :
    evs.filterMap unlinkedPath = [] := by
  cases h <;> simp [unlinkedPath]

theorem late_eq_zero (h : .signalled ∉ log) : late log = 0 := by
  have hall : ∀ ev ∈ log, decide (ev ≠ .signalled) = true := fun ev hev =>
    decide_eq_true fun heq => h (heq ▸ hev)
  unfold late
  rw [List.dropWhile_eq_nil_iff.mpr hall, List.countP_nil]

/-- What comes behind a log is late if the log has a signal. -/
theorem late_append_le : late (log ++ evs) ≤ late log + evs.countP isAccept := by
  unfold late
  rw [List.dropWhile_append]
  split
  · have hle : (evs.dropWhile (· ≠ .signalled)).countP isAccept ≤ evs.countP isAccept :=
      (List.dropWhile_sublist _).countP_le
    omega
  · rw [List.countP_append]

/-- What shows no connection is not late. -/
theorem late_quiet (h : evs.countP isAccept = 0) : late (log ++ evs) ≤ late log :=
  le_trans late_append_le (by rw [h]; exact le_rfl)

/-! ## While the loop is under way -/

/-- The loop has not been left. -/
def Looping (s : ListenLoop) : Prop :=
  match s.stage with
  | .checking | .waiting | .events _ => True
  | _ => False

instance (s : ListenLoop) : Decidable (Looping s) := by
  unfold Looping
  split <;> infer_instance

theorem looping_cases (h : Looping s) :
    s.stage = .checking ∨ s.stage = .waiting ∨ ∃ es, s.stage = .events es := by
  unfold Looping at h
  split at h
  · rename_i hs
    exact .inl hs
  · rename_i hs
    exact .inr (.inl hs)
  · rename_i es hs
    exact .inr (.inr ⟨es, hs⟩)
  · exact h.elim

/-- What is left of the batch under way. -/
def pendingEvents (s : ListenLoop) : List (LoopKey × Nat) :=
  match s.stage with
  | .events es => es
  | _ => []

/-- The loop will not go round again. -/
def Ending (s : ListenLoop) : Prop :=
  s.listener.status = .shutdown ∨ .shutdown ∈ (pendingEvents s).map Prod.fst

instance : Decidable (Ending s) := by unfold Ending; infer_instance

/-- What holds of a loop under way. -/
structure Underway (s₀ s : ListenLoop) : Prop where
  listener : s.listener = { s₀.listener with status := s.listener.status }
  handled : s.handled = s₀.handled
  status : s.listener.status = .active ∨ s.listener.status = .shutdown
  waiting : s.stage = .waiting → s.listener.status = .active
  sockets : (pendingEvents s).countP ofSocket ≤ s₀.listener.sockets.length
  length : (pendingEvents s).length ≤ s₀.listener.sockets.length + 1
  installed : .signalled ∈ s.log → s₀.listener.shutdownEfd.isSome
  heard : .signalled ∈ s.log → s.Summoned ∨ s.listener.status = .shutdown
  unheard : .signalled ∉ s.log → s.counter = 0 ∧ ¬ Ending s
  late : late s.log + (pendingEvents s).countP ofSocket ≤
    if Ending s then 2 * s₀.listener.sockets.length else s₀.listener.sockets.length
  linked : s.log.filterMap unlinkedPath = []

/-! ### Winding up -/

/-- What `_stop_listener` has made of a listener by the time it comes to a point. -/
def stoppedAt (l : ListenerState) : StopPoint → ListenerState
  | .restoring _ | .closingEventfd => { l with status := .shutdown }
  | .closing i =>
      { l with
        status := .shutdown
        shutdownEfd := none
        closed := l.closed ++ ((l.sockets.take i).map fun sock => sock.1.fd).filter (0 < ·) }
  | .unlinking _ =>
      { l with
        status := .shutdown
        shutdownEfd := none
        closed := l.closed ++ (l.sockets.map fun sock => sock.1.fd).filter (0 < ·)
        sockets := [] }

/-- Whether a signal has its default disposition back. -/
def restored : StopPoint → StopSignal → Bool
  | .restoring .sigterm, _ => false
  | .restoring .sigint, sig => sig == .sigterm
  | _, _ => true

/-- How many of the paths are dealt with. -/
def pathsDone : StopPoint → Nat
  | .unlinking i => i
  | _ => 0

/-- What the listener has done by a point of its winding up. -/
structure Stopping (s₀ : ListenLoop) (point : StopPoint) (s : ListenLoop) : Prop where
  listener : s.listener = stoppedAt s₀.listener point
  handled : ∀ sig, s.handled sig = !restored point sig
  signalled : .signalled ∈ s.log
  installed : s₀.listener.shutdownEfd.isSome
  late : late s.log ≤ 2 * s₀.listener.sockets.length
  unlinked : s.log.filterMap unlinkedPath =
    (s₀.listener.unixPaths.take (pathsDone point)).filter (· ≠ [])

/-- What it has done by the time it is wound up. -/
structure WoundUp (s₀ s : ListenLoop) : Prop where
  stopped : s.listener = { s₀.listener.stop with status := .shutdown }
  unhandled : ∀ sig, s.handled sig = false
  signalled : .signalled ∈ s.log
  installed : s₀.listener.shutdownEfd.isSome
  late : late s.log ≤ 2 * s₀.listener.sockets.length
  unlinked : s.log.filterMap unlinkedPath = s₀.listener.unixPaths.filter (· ≠ [])

/-- Where a run stands. -/
inductive LoopCourse (s₀ s : ListenLoop) : Prop where
  | looping : Looping s → Underway s₀ s → LoopCourse s₀ s
  | crashed : s.stage = .crashed → late s.log ≤ 2 * s₀.listener.sockets.length →
      s.listener.closed = s₀.listener.closed → s.log.filterMap unlinkedPath = [] →
      LoopCourse s₀ s
  | stopping {point : StopPoint} : s.stage = .stopping point → Stopping s₀ point s →
      LoopCourse s₀ s
  | returned : s.stage = .returned → WoundUp s₀ s → LoopCourse s₀ s
  | killed : s.stage = .killed → (∃ point, Stopping s₀ point s) ∨ WoundUp s₀ s →
      LoopCourse s₀ s
  | unhandled : s.stage = .killed → s₀.listener.shutdownEfd = none → .signalled ∉ s.log →
      s.listener.closed = s₀.listener.closed → s.log.filterMap unlinkedPath = [] →
      LoopCourse s₀ s

/-! ## One step -/

/-- A step of the thread. -/
inductive Goes (s : ListenLoop) (w : LoopAnswers) : ListenLoop → Prop where
  | enters : s.stage = .checking → s.listener.status = .active → Goes s w (s.goTo .waiting)
  | leaves : s.stage = .checking → s.listener.status ≠ .active →
      Goes s w (s.goTo (.stopping (.restoring .sigterm)))
  | hears : s.stage = .waiting → s.Reports w.batch → Goes s w (s.goTo (.events w.batch))
  | rounds : s.stage = .events [] → Goes s w (s.goTo .checking)
  | handles {e : LoopKey × Nat} {es : List (LoopKey × Nat)} {t : ListenLoop} :
      s.stage = .events (e :: es) → Handles s e es t → Goes s w t
  | stops {point : StopPoint} : s.stage = .stopping point → Goes s w (s.stopListener point)

theorem goes_of_stepThread (h : s.stepThread w = some t) : Goes s w t := by
  unfold ListenLoop.stepThread at h
  split at h
  · rename_i hstage
    obtain rfl := Option.some.inj h
    by_cases hactive : s.listener.status = .active
    · rw [if_pos hactive]
      exact .enters hstage hactive
    · rw [if_neg hactive]
      exact .leaves hstage hactive
  · rename_i hstage
    obtain ⟨hreports, ⟨⟩⟩ := Option.ite_none_right_eq_some.mp h
    exact .hears hstage hreports
  · rename_i hstage
    obtain rfl := Option.some.inj h
    exact .rounds hstage
  · rename_i e es hstage
    obtain rfl := Option.some.inj h
    exact .handles hstage (handleEvent_handles s e es w)
  · rename_i hstage
    obtain rfl := Option.some.inj h
    exact .stops hstage
  all_goals exact absurd h (by simp)

/-- What a signal does. -/
theorem signal_cases {sig : StopSignal} (h : listenLoop.step s (.signal sig) = some t) :
    s.stage ≠ .crashed ∧ s.stage ≠ .killed ∧
      (s.handled sig = true ∧ t = s.sigtermHandler ∨
        s.handled sig = false ∧ t = s.goTo .killed) := by
  change (if s.stage = .crashed ∨ s.stage = .killed then none
    else some (if s.handled sig then s.sigtermHandler else s.goTo .killed)) = some t at h
  obtain ⟨hlives, ht⟩ := Option.ite_none_left_eq_some.mp h
  obtain rfl := Option.some.inj ht
  refine ⟨fun hs => hlives (.inl hs), fun hs => hlives (.inr hs), ?_⟩
  cases hh : s.handled sig with
  | true => exact .inl ⟨rfl, rfl⟩
  | false => exact .inr ⟨rfl, rfl⟩

theorem ne_shutdown_of_ofSocket (h : ofSocket e = true) : e.1 ≠ .shutdown := by
  intro he
  rw [ofSocket, he] at h
  exact absurd h (by simp)

theorem not_ofSocket_of_shutdown (h : e.1 = .shutdown) : ofSocket e = false := by
  rw [ofSocket, h]

/-- A batch has a registration once, so it has no more sockets than there are. -/
theorem Reports.sockets (h : s.Reports batch) :
    batch.countP ofSocket ≤ s.listener.sockets.length := by
  obtain ⟨hnodup, hregistered, _⟩ := h
  have hkeys : ((batch.filter ofSocket).map Prod.fst).Nodup :=
    hnodup.sublist ((List.filter_sublist).map _)
  have hsub : (batch.filter ofSocket).map Prod.fst ⊆
      (List.range s.listener.sockets.length).map .socket := by
    intro key hkey
    obtain ⟨e, he, rfl⟩ := List.mem_map.mp hkey
    obtain ⟨hmem, hsocket⟩ := List.mem_filter.mp he
    have hreg := hregistered e hmem
    cases hk : e.1 with
    | socket idx =>
        rw [hk] at hreg
        exact List.mem_map.mpr ⟨idx, List.mem_range.mpr hreg, rfl⟩
    | shutdown => exact absurd hk (ne_shutdown_of_ofSocket hsocket)
  have hle := (List.subperm_of_subset hkeys hsub).length_le
  rwa [List.length_map, List.length_map, List.length_range, ← List.countP_eq_length_filter] at hle

theorem Reports.length (h : s.Reports batch) : batch.length ≤ s.listener.sockets.length + 1 := by
  obtain ⟨hnodup, hregistered, _⟩ := h
  have hsub : batch.map Prod.fst ⊆
      .shutdown :: (List.range s.listener.sockets.length).map .socket := by
    intro key hkey
    obtain ⟨e, he, rfl⟩ := List.mem_map.mp hkey
    have hreg := hregistered e he
    cases hk : e.1 with
    | socket idx =>
        rw [hk] at hreg
        exact List.mem_cons_of_mem _ (List.mem_map.mpr ⟨idx, List.mem_range.mpr hreg, rfl⟩)
    | shutdown => exact List.mem_cons_self
  have hle := (List.subperm_of_subset hnodup hsub).length_le
  rwa [List.length_map, List.length_cons, List.length_map, List.length_range] at hle

/-! ### The invariant -/

theorem underway_init (hinit : s₀.Init) : Underway s₀ s₀ where
  listener := rfl
  handled := rfl
  status := .inl hinit.status
  waiting := fun _ => hinit.status
  sockets := by simp [pendingEvents, hinit.stage]
  length := by simp [pendingEvents, hinit.stage]
  installed := by simp [hinit.log]
  heard := by simp [hinit.log]
  unheard := fun _ => ⟨hinit.counter, by simp [Ending, pendingEvents, hinit.stage, hinit.status]⟩
  late := by simp [DBServer.Proof.late, pendingEvents, hinit.stage, hinit.log]
  linked := by simp [hinit.log]

/-- Nothing of the batch is left: whether the loop ends hangs on the status. -/
theorem underway_idle {stage : LoopStage} (hu : Underway s₀ s)
    (hnow : pendingEvents s = []) (hnext : pendingEvents (s.goTo stage) = [])
    (hactive : stage = .waiting → s.listener.status = .active) : Underway s₀ (s.goTo stage) := by
  have hending : Ending (s.goTo stage) ↔ Ending s := by
    unfold Ending
    rw [hnow, hnext]
    exact Iff.rfl
  refine { hu with
    waiting := hactive
    sockets := by rw [hnext]; exact Nat.zero_le _
    length := by rw [hnext]; exact Nat.zero_le _
    unheard := fun hno => ⟨(hu.unheard hno).1, fun h => (hu.unheard hno).2 (hending.mp h)⟩
    late := ?_ }
  have hlate := hu.late
  rw [hnow] at hlate
  rw [hnext]
  show DBServer.Proof.late s.log + _ ≤ _
  simpa only [hending] using hlate

/-- A batch that tells of the shutdown is the last; one that does not comes before any signal. -/
theorem underway_hears (hinit : s₀.Init) (hu : Underway s₀ s) (hstage : s.stage = .waiting)
    (hreports : s.Reports w.batch) : Underway s₀ (s.goTo (.events w.batch)) := by
  have hsame : s.listener.sockets = s₀.listener.sockets := by rw [hu.listener]
  have hsockets := Reports.sockets hreports
  have hlength := Reports.length hreports
  rw [hsame] at hsockets hlength
  have hactive := hu.waiting hstage
  have hquiet : ¬ Ending s := by simp [Ending, pendingEvents, hstage, hactive]
  obtain ⟨_, hregistered, hroom⟩ := hreports
  have hlate := hu.late
  rw [if_neg hquiet] at hlate
  refine { hu with
    waiting := fun h => absurd h (by simp [ListenLoop.goTo])
    sockets := hsockets
    length := hlength
    unheard := fun hno => ?_
    late := ?_ }
  · obtain ⟨hcounter, _⟩ := hu.unheard hno
    refine ⟨hcounter, fun hending => ?_⟩
    rcases hending with hstatus | hmem
    · exact absurd (hstatus.symm.trans hactive) (by simp)
    · obtain ⟨e, he, hkey⟩ := List.mem_map.mp hmem
      have hsummoned := hregistered e he
      rw [hkey] at hsummoned
      have hpos : 0 < s.counter := hsummoned.2
      omega
  · show DBServer.Proof.late s.log + w.batch.countP ofSocket ≤ _
    by_cases hsig : .signalled ∈ s.log
    · rcases hu.heard hsig with hsummoned | hstatus
      · by_cases hempty : w.batch = []
        · rw [hempty, List.countP_nil]
          split <;> omega
        · have hlt : w.batch.length < maxFanOutSockets := by
            have := hinit.room
            omega
          rw [if_pos (.inr (hroom hempty hlt hsummoned))]
          omega
      · exact absurd (hstatus.symm.trans hactive) (by simp)
    · rw [late_eq_zero hsig]
      split <;> omega

/-- A connection more or less does not end the loop. -/
theorem ending_connection (b : Bool) (evs : List LoopEvent)
    (hstage : s.stage = .events (e :: es)) (hsocket : ofSocket e = true) :
    Ending (({ s with warned := b }.note evs).goTo (.events es)) ↔ Ending s := by
  have hpending : pendingEvents s = e :: es := by rw [pendingEvents, hstage]
  unfold Ending
  rw [hpending, List.map_cons, List.mem_cons]
  exact or_congr_right ⟨.inr, fun h => h.resolve_left fun hkey =>
    ne_shutdown_of_ofSocket hsocket hkey.symm⟩

theorem underway_connection {b : Bool} (hu : Underway s₀ s) (hstage : s.stage = .events (e :: es))
    (hsocket : ofSocket e = true) (hacc : Accepting s.warned evs b) :
    Underway s₀ (({ s with warned := b }.note evs).goTo (.events es)) := by
  have hpending : pendingEvents s = e :: es := by rw [pendingEvents, hstage]
  have hending := ending_connection b evs hstage hsocket
  have hsig : .signalled ∈ s.log ++ evs ↔ .signalled ∈ s.log := by
    rw [List.mem_append]
    exact ⟨fun h => h.resolve_right hacc.unsignalled, .inl⟩
  have hsockets := hu.sockets
  have hlength := hu.length
  rw [hpending, List.countP_cons_of_pos hsocket] at hsockets
  rw [hpending, List.length_cons] at hlength
  refine
    { listener := hu.listener
      handled := hu.handled
      status := hu.status
      waiting := fun h => absurd h (by simp [ListenLoop.goTo])
      sockets := Nat.le_of_succ_le hsockets
      length := Nat.le_of_succ_le hlength
      installed := fun h => hu.installed (hsig.mp h)
      heard := fun h => hu.heard (hsig.mp h)
      unheard := fun h => ?_
      late := ?_
      linked := ?_ }
  · obtain ⟨hcounter, hquiet⟩ := hu.unheard fun hmem => h (hsig.mpr hmem)
    exact ⟨hcounter, fun hend => hquiet (hending.mp hend)⟩
  · have hlate := hu.late
    rw [hpending, List.countP_cons_of_pos hsocket] at hlate
    have hgrown : DBServer.Proof.late (s.log ++ evs) ≤ DBServer.Proof.late s.log + 1 :=
      le_trans late_append_le (Nat.add_le_add_left hacc.accepts _)
    show DBServer.Proof.late (s.log ++ evs) + es.countP ofSocket ≤ _
    simp only [hending]
    omega
  · show (s.log ++ evs).filterMap unlinkedPath = []
    rw [List.filterMap_append, hu.linked, hacc.linked, List.append_nil]

theorem underway_shutdown (hu : Underway s₀ s) (hstage : s.stage = .events (e :: es))
    (hkey : e.1 = .shutdown) : Underway s₀ (s.handleShutdownEvent.goTo (.events es)) := by
  have hpending : pendingEvents s = e :: es := by rw [pendingEvents, hstage]
  have hnow : Ending s := .inr (by rw [hpending, List.map_cons, hkey]; exact List.mem_cons_self)
  have hthen : Ending (s.handleShutdownEvent.goTo (.events es)) := .inl rfl
  have hsockets := hu.sockets
  have hlength := hu.length
  have hlate := hu.late
  rw [hpending, List.countP_cons_of_neg (by rw [not_ofSocket_of_shutdown hkey]; simp)] at hsockets
  rw [hpending, List.length_cons] at hlength
  rw [hpending, List.countP_cons_of_neg (by rw [not_ofSocket_of_shutdown hkey]; simp),
    if_pos hnow] at hlate
  exact
    { listener := by
        show { s.listener with status := .shutdown } = _
        rw [hu.listener]
        rfl
      handled := hu.handled
      status := .inr rfl
      waiting := fun h => absurd h (by simp [ListenLoop.goTo])
      sockets := hsockets
      length := Nat.le_of_succ_le hlength
      installed := hu.installed
      heard := fun _ => .inr rfl
      unheard := fun h => absurd hnow (hu.unheard h).2
      late := by rw [if_pos hthen]; exact hlate
      linked := hu.linked }

theorem underway_sigterm {sig : StopSignal} (hinit : s₀.Init) (hu : Underway s₀ s)
    (hhandled : s.handled sig = true) : Underway s₀ s.sigtermHandler where
  listener := hu.listener
  handled := hu.handled
  status := hu.status
  waiting := hu.waiting
  sockets := hu.sockets
  length := hu.length
  installed := fun _ => by rw [← hinit.handled sig, ← hu.handled, hhandled]
  heard := fun _ => by
    have hefd : s.listener.shutdownEfd = s₀.listener.shutdownEfd := by rw [hu.listener]
    refine .inl ⟨?_, Nat.succ_pos _⟩
    show s.listener.shutdownEfd.isSome = true
    rw [hefd, ← hinit.handled sig, ← hu.handled, hhandled]
  unheard := fun h => absurd (List.mem_append_right _ List.mem_cons_self) h
  late := by
    have hending : Ending s.sigtermHandler ↔ Ending s := Iff.rfl
    simp only [hending]
    exact le_trans (Nat.add_le_add_right (late_quiet rfl) _) hu.late
  linked := by
    show (s.log ++ [LoopEvent.signalled]).filterMap unlinkedPath = []
    rw [List.filterMap_append, hu.linked]
    rfl

theorem Underway.late_le (hu : Underway s₀ s) :
    DBServer.Proof.late s.log ≤ 2 * s₀.listener.sockets.length := by
  have hlate := hu.late
  split at hlate <;> omega

theorem Underway.closes_nothing (hu : Underway s₀ s) :
    s.listener.sockets = s₀.listener.sockets ∧ s.listener.closed = s₀.listener.closed := by
  rw [hu.listener]
  exact ⟨rfl, rfl⟩

theorem LoopCourse.underway (hc : LoopCourse s₀ s) (hloop : Looping s) : Underway s₀ s := by
  cases hc with
  | looping _ hu => exact hu
  | crashed h _ _ _ | stopping h _ | returned h _ | killed h _ | unhandled h _ _ _ _ =>
      simp [Looping, h] at hloop

theorem LoopCourse.stopping_at {point : StopPoint} (hc : LoopCourse s₀ s)
    (hs : s.stage = .stopping point) : Stopping s₀ point s := by
  cases hc with
  | stopping hs' hw =>
      obtain rfl := LoopStage.stopping.inj (hs.symm.trans hs')
      exact hw
  | looping hloop _ => exact absurd hloop (by simp [Looping, hs])
  | crashed h _ _ _ | returned h _ | killed h _ | unhandled h _ _ _ _ =>
      exact absurd (hs.symm.trans h) (by simp)

/-- The loop is left: winding up begins. -/
theorem stopping_leaves (hinit : s₀.Init) (hu : Underway s₀ s)
    (hleft : s.listener.status ≠ .active) :
    Stopping s₀ (.restoring .sigterm) (s.goTo (.stopping (.restoring .sigterm))) := by
  have hstatus := hu.status.resolve_left hleft
  have hsig : .signalled ∈ s.log := by
    by_contra hno
    exact (hu.unheard hno).2 (.inl hstatus)
  have hinstalled := hu.installed hsig
  exact
    { listener := by
        show s.listener = _
        rw [hu.listener, hstatus]
        rfl
      handled := fun sig => by
        show s.handled sig = true
        rw [hu.handled, hinit.handled, hinstalled]
      signalled := hsig
      installed := hinstalled
      late := hu.late_le
      unlinked := hu.linked }

theorem closeSocket_eq (sock : ListenSocket × Bool) (s : ListenLoop) :
    s.closeSocket sock = { s with
      listener := { s.listener with
        closed := s.listener.closed ++ [sock.1.fd].filter (0 < ·) } } := by
  unfold closeSocket
  by_cases hfd : 0 < sock.1.fd
  · simp [hfd]
  · simp [hfd]

theorem unlinkPath_eq (path : Bytes) (s : ListenLoop) :
    s.unlinkPath path = s.note (([path].filter (· ≠ [])).map .unlinked) := by
  unfold unlinkPath
  by_cases hpath : path = []
  · simp [hpath, ListenLoop.note]
  · simp [hpath]

/-- Winding up shows the paths that are removed, and nothing else. -/
theorem stopListener_shows (s : ListenLoop) (point : StopPoint) :
    ∃ paths : List Bytes, (s.stopListener point).log = s.log ++ paths.map .unlinked ∧
      (s.stopListener point).warned = s.warned := by
  have hsame : ∃ paths : List Bytes, s.log = s.log ++ paths.map .unlinked ∧ s.warned = s.warned :=
    ⟨[], (List.append_nil _).symm, rfl⟩
  cases point with
  | restoring sig => cases sig <;> exact hsame
  | closingEventfd => exact hsame
  | closing i =>
      rw [ListenLoop.stopListener]
      split
      · rw [closeSocket_eq]
        exact hsame
      · exact hsame
  | unlinking i =>
      rw [ListenLoop.stopListener]
      split
      · rename_i path _
        rw [unlinkPath_eq]
        exact ⟨[path].filter (· ≠ []), rfl, rfl⟩
      · exact hsame

/-- One round of the loop over the sockets. -/
theorem Stopping.closes {i : Nat} {sock : ListenSocket × Bool} (h : Stopping s₀ (.closing i) s)
    (hsock : s.listener.sockets[i]? = some sock) :
    Stopping s₀ (.closing (i + 1)) ((s.closeSocket sock).goTo (.stopping (.closing (i + 1)))) := by
  have hsame : s.listener.sockets = s₀.listener.sockets := by rw [h.listener]; rfl
  rw [hsame] at hsock
  rw [closeSocket_eq]
  refine { h with listener := ?_ }
  show { s.listener with closed := s.listener.closed ++ [sock.1.fd].filter (0 < ·) } = _
  rw [h.listener]
  simp only [stoppedAt, List.take_add_one, hsock, Option.toList_some, List.map_append,
    List.map_cons, List.map_nil, List.filter_append, List.append_assoc]

/-- One round of the loop over the paths. -/
theorem Stopping.unlinks {i : Nat} {path : Bytes} (h : Stopping s₀ (.unlinking i) s)
    (hpath : s.listener.unixPaths[i]? = some path) :
    Stopping s₀ (.unlinking (i + 1))
      ((s.unlinkPath path).goTo (.stopping (.unlinking (i + 1)))) := by
  have hsame : s.listener.unixPaths = s₀.listener.unixPaths := by rw [h.listener]; rfl
  rw [hsame] at hpath
  rw [unlinkPath_eq]
  refine
    { listener := h.listener
      handled := h.handled
      signalled := List.mem_append_left _ h.signalled
      installed := h.installed
      late := le_trans (late_quiet ?_) h.late
      unlinked := ?_ }
  · rw [List.countP_map]
    exact List.countP_eq_zero.mpr fun path _ => by simp [isAccept]
  · show (s.log ++ ([path].filter (· ≠ [])).map LoopEvent.unlinked).filterMap unlinkedPath = _
    rw [List.filterMap_append, h.unlinked, List.filterMap_map]
    simp only [pathsDone, List.take_add_one, hpath, Option.toList_some, List.filter_append]
    exact congrArg _ List.filterMap_some

/-- **A step of `_stop_listener`.** -/
theorem Stopping.step {point : StopPoint} (h : Stopping s₀ point s) :
    LoopCourse s₀ (s.stopListener point) := by
  cases point with
  | restoring sig =>
      cases sig with
      | sigterm =>
          refine .stopping rfl { h with handled := fun sig => ?_ }
          show Function.update s.handled .sigterm false sig = _
          cases sig with
          | sigterm => rfl
          | sigint => exact h.handled .sigint
      | sigint =>
          refine .stopping rfl { h with handled := fun sig => ?_ }
          show Function.update s.handled .sigint false sig = _
          cases sig with
          | sigterm => exact h.handled .sigterm
          | sigint => rfl
  | closingEventfd =>
      refine .stopping rfl { h with listener := ?_ }
      show { s.listener with shutdownEfd := none } = _
      rw [h.listener]
      simp [stoppedAt]
  | closing i =>
      have hsame : s.listener.sockets = s₀.listener.sockets := by rw [h.listener]; rfl
      rw [ListenLoop.stopListener]
      split
      · rename_i sock hsock
        exact .stopping rfl (h.closes hsock)
      · -- every socket has had its round
        rename_i hnone
        rw [hsame, List.getElem?_eq_none_iff] at hnone
        refine .stopping rfl { h with listener := ?_ }
        show { s.listener with sockets := [] } = _
        rw [h.listener]
        simp only [stoppedAt, List.take_of_length_le hnone]
  | unlinking i =>
      have hsame : s.listener.unixPaths = s₀.listener.unixPaths := by rw [h.listener]; rfl
      rw [ListenLoop.stopListener]
      split
      · rename_i path hpath
        exact .stopping rfl (h.unlinks hpath)
      · rename_i hnone
        rw [hsame, List.getElem?_eq_none_iff] at hnone
        refine .returned rfl
          { stopped := ?_
            unhandled := h.handled
            signalled := h.signalled
            installed := h.installed
            late := h.late
            unlinked := ?_ }
        · show { s.listener with unixPaths := [] } = _
          rw [h.listener]
          rfl
        · show s.log.filterMap unlinkedPath = _
          rw [h.unlinked, pathsDone, List.take_of_length_le hnone]

/-- A signal that is still handled shows in the log, and in the counter. -/
theorem Stopping.sigterm {point : StopPoint} (h : Stopping s₀ point s) :
    Stopping s₀ point s.sigtermHandler where
  listener := h.listener
  handled := h.handled
  signalled := List.mem_append_left _ h.signalled
  installed := h.installed
  late := le_trans (late_quiet rfl) h.late
  unlinked := by
    show (s.log ++ [LoopEvent.signalled]).filterMap unlinkedPath = _
    rw [List.filterMap_append, h.unlinked]
    exact List.append_nil _

/-- A run stands where it stands by the steps of the thread and the signals between them. -/
theorem loopCourse_step (hinit : s₀.Init) (hc : LoopCourse s₀ s)
    (hstep : listenLoop.step s a = some t) : LoopCourse s₀ t := by
  cases a with
  | thread w =>
      cases goes_of_stepThread hstep with
      | stops hs => exact (hc.stopping_at hs).step
      | enters hs hactive =>
          exact .looping (by simp [Looping, ListenLoop.goTo])
            (underway_idle (hc.underway (by simp [Looping, hs])) (by simp [pendingEvents, hs]) rfl
              fun _ => hactive)
      | leaves hs hleft =>
          exact .stopping rfl (stopping_leaves hinit (hc.underway (by simp [Looping, hs])) hleft)
      | hears hs hreports =>
          exact .looping (by simp [Looping, ListenLoop.goTo])
            (underway_hears hinit (hc.underway (by simp [Looping, hs])) hs hreports)
      | rounds hs =>
          exact .looping (by simp [Looping, ListenLoop.goTo])
            (underway_idle (hc.underway (by simp [Looping, hs])) (by simp [pendingEvents, hs]) rfl
              fun h => absurd h (by simp))
      | handles hs hhandles =>
          have hu := hc.underway (by simp [Looping, hs])
          cases hhandles with
          | crashed => exact .crashed rfl hu.late_le hu.closes_nothing.2 hu.linked
          | connection hsocket hacc =>
              exact .looping (by simp [Looping, ListenLoop.goTo])
                (underway_connection hu hs hsocket hacc)
          | shutdown hkey =>
              exact .looping (by simp [Looping, ListenLoop.goTo]) (underway_shutdown hu hs hkey)
  | signal sig =>
      obtain ⟨hcrashed, hkilled, hout⟩ := signal_cases hstep
      cases hc with
      | crashed h _ _ _ => exact absurd h hcrashed
      | killed h _ | unhandled h _ _ _ _ => exact absurd h hkilled
      | stopping hs hw =>
          rcases hout with ⟨_, rfl⟩ | ⟨_, rfl⟩
          · exact .stopping hs hw.sigterm
          · exact .killed rfl (.inl ⟨_, { hw with }⟩)
      | returned _ hw =>
          rcases hout with ⟨hhandled, _⟩ | ⟨_, rfl⟩
          · exact absurd (hhandled.symm.trans (hw.unhandled sig)) (by simp)
          · exact .killed rfl (.inr { hw with })
      | looping hloop hu =>
          rcases hout with ⟨hhandled, rfl⟩ | ⟨hhandled, rfl⟩
          · exact .looping hloop (underway_sigterm hinit hu hhandled)
          · have hnot : s₀.listener.shutdownEfd = none := by
              rw [hu.handled, hinit.handled] at hhandled
              simpa using hhandled
            have hno : .signalled ∉ s.log := fun hsig =>
              absurd (hu.installed hsig) (by simp [hnot])
            exact .unhandled rfl hnot hno hu.closes_nothing.2 hu.linked

theorem loopCourse_reachable (hinit : s₀.Init) (h : (listenLoop.startingAt s₀).Reachable s) :
    LoopCourse s₀ s := by
  induction h with
  | init heq =>
      obtain rfl := heq
      exact .looping (by simp [Looping, hinit.stage]) (underway_init hinit)
  | tail _ _ hstep ih => exact loopCourse_step hinit ih hstep

/-! ## A small listener -/

/-- What systemd's one socket and a system that refuses nothing make of the listener. -/
def handedAnswers : ListenerAnswers :=
  let none : SpecAnswers := ⟨⟨.none, false, false, false, false, false⟩, .none⟩
  ⟨true, none, none, fun _ => true, fun _ => true, some 10, true, true⟩

/-- A thread about to wait on it. -/
def handedLoop : ListenLoop :=
  ⟨(listenerInitActivated handedAnswers (some ⟨3, -1⟩) .zeroed).2, fun _ => true, 0, false,
    .checking, []⟩

theorem handedLoop_init : handedLoop.Init where
  status := by decide
  room := by decide
  handled _ := rfl
  counter := rfl
  warned := rfl
  stage := rfl
  log := rfl

end DBServer.Proof
