import DBServer.Proof.Loop

/-!
# A shutdown signal is heeded

Behind a signal every move of the thread brings its end nearer: the loop has only so many left,
since the next batch that is not empty has the eventfd in it (`loopLeft`), and `_stop_listener` a
call for each socket and each path (`stopsLeft`). An interruption of `epoll_wait` costs two moves
more.
-/

namespace DBServer.Proof

open DBServer Lib ListenLoop

variable {s₀ s t : ListenLoop} {a : LoopAct} {w : LoopAnswers} {e : LoopKey × Nat}
  {es : List (LoopKey × Nat)} {n p : Nat}

/-! ## How far it is to the end -/

/-- The thread has not come to its end. -/
def Unfinished (s : ListenLoop) : Prop :=
  s.stage ≠ .returned ∧ s.stage ≠ .crashed ∧ s.stage ≠ .killed

/-- The thread moves, unless it is interrupted in `epoll_wait`. -/
def Advances (s : ListenLoop) : LoopAct → Prop
  | .thread w => s.stage = .waiting → w.batch ≠ []
  | .signal _ => False

instance : ∀ (s : ListenLoop) (a : LoopAct), Decidable (Advances s a)
  | s, .thread w => inferInstanceAs (Decidable (s.stage = .waiting → w.batch ≠ []))
  | _, .signal _ => inferInstanceAs (Decidable False)

/-- The moves the loop has left, with `n` sockets to look after. -/
def loopLeft (n : Nat) (s : ListenLoop) : Nat :=
  match s.stage with
  | .events es => es.length + if Ending s then 2 else n + 6
  | .checking => if s.listener.status = .active then n + 5 else 1
  | .waiting => n + 4
  | .stopping _ | .returned | .crashed | .killed => 0

/-- The calls `_stop_listener` has left, with `n` sockets to close and `p` paths to remove. -/
def stopsLeft (n p : Nat) : StopPoint → Nat
  | .restoring .sigterm => n + p + 5
  | .restoring .sigint => n + p + 4
  | .closingEventfd => n + p + 3
  | .closing i => n - i + p + 2
  | .unlinking i => p - i + 1

/-- What is left of winding up. -/
def windLeft (n p : Nat) (s : ListenLoop) : Nat :=
  match s.stage with
  | .checking | .waiting | .events _ => n + p + 5
  | .stopping point => stopsLeft n p point
  | .returned | .crashed | .killed => 0

theorem loopLeft_events (es : List (LoopKey × Nat)) (h : s.stage = .events es) :
    loopLeft n s = es.length + if Ending s then 2 else n + 6 := by
  rw [loopLeft, h]

theorem loopLeft_pos (h : Looping s) : 0 < loopLeft n s := by
  rcases looping_cases h with hs | hs | ⟨es, hs⟩
  · rw [loopLeft, hs]
    dsimp only
    split <;> omega
  · rw [loopLeft, hs]
    exact Nat.succ_pos _
  · rw [loopLeft_events es hs]
    split <;> omega

theorem windLeft_of_looping (h : Looping s) : windLeft n p s = n + p + 5 := by
  rcases looping_cases h with hs | hs | ⟨es, hs⟩ <;> rw [windLeft, hs]

theorem windLeft_le (n p : Nat) (s : ListenLoop) : windLeft n p s ≤ n + p + 5 := by
  unfold windLeft
  split
  case h_4 point _ =>
    unfold stopsLeft
    split <;> omega
  all_goals omega

theorem loopLeft_handled (hstage : s.stage = .events (e :: es))
    (h : Handles s e es t) : loopLeft n t < loopLeft n s := by
  rw [loopLeft_events _ hstage, List.length_cons]
  have hpending : pendingEvents s = e :: es := by rw [pendingEvents, hstage]
  cases h with
  | crashed =>
      show 0 < _
      omega
  | @connection b evs hsocket _ =>
      have hending := ending_connection b evs hstage hsocket
      rw [loopLeft_events es rfl]
      simp only [hending]
      omega
  | shutdown hkey =>
      have hnow : Ending s := .inr (by rw [hpending, List.map_cons, hkey]; exact List.mem_cons_self)
      have hthen : Ending (s.handleShutdownEvent.goTo (.events es)) := .inl rfl
      rw [loopLeft_events es rfl, if_pos hnow, if_pos hthen]
      omega

/-- Behind a signal, every move in the loop brings its end nearer. -/
theorem loopLeft_lt (hinit : s₀.Init) (hu : Underway s₀ s) (hloop : Looping s)
    (hsig : .signalled ∈ s.log) (hmoves : Advances s a) (hstep : listenLoop.step s a = some t) :
    loopLeft s₀.listener.sockets.length t < loopLeft s₀.listener.sockets.length s := by
  cases a with
  | signal => exact hmoves.elim
  | thread w =>
      cases goes_of_stepThread hstep with
      | stops hs => simp [Looping, hs] at hloop
      | enters hs hactive => simp [loopLeft, hs, hactive, ListenLoop.goTo]
      | leaves hs hleft => simp [loopLeft, hs, hleft, ListenLoop.goTo]
      | hears hs hreports =>
          have hsummoned := (hu.heard hsig).resolve_right (by rw [hu.waiting hs]; simp)
          have hlength := Reports.length hreports
          rw [show s.listener.sockets = s₀.listener.sockets by rw [hu.listener]] at hlength
          have hlt : w.batch.length < maxFanOutSockets := by
            have := hinit.room
            omega
          have hending : Ending (s.goTo (.events w.batch)) :=
            .inr (hreports.2.2 (hmoves hs) hlt hsummoned)
          rw [loopLeft_events w.batch rfl, if_pos hending,
            show loopLeft _ s = _ + 4 by rw [loopLeft, hs]]
          omega
      | rounds hs =>
          rw [loopLeft_events _ hs, List.length_nil]
          show (if s.listener.status = .active then _ else 1) < _
          rcases hu.status with hstatus | hstatus
          · have hquiet : ¬ Ending s := by simp [Ending, pendingEvents, hs, hstatus]
            rw [if_pos hstatus, if_neg hquiet]
            omega
          · rw [if_neg (by rw [hstatus]; simp), if_pos (.inl hstatus)]
            omega
      | handles hs hhandles => exact loopLeft_handled hs hhandles

/-- A round of winding up is one call less. -/
theorem stopsLeft_lt {point : StopPoint} (hw : Stopping s₀ point s) :
    windLeft s₀.listener.sockets.length s₀.listener.unixPaths.length (s.stopListener point) <
      stopsLeft s₀.listener.sockets.length s₀.listener.unixPaths.length point := by
  cases point with
  | restoring sig => cases sig <;> exact Nat.lt_succ_self _
  | closingEventfd => exact Nat.lt_succ_self _
  | closing i =>
      have hsame : s.listener.sockets = s₀.listener.sockets := by rw [hw.listener]; rfl
      rw [ListenLoop.stopListener, hsame]
      split
      · rename_i sock hsock
        have hlt := (List.getElem?_eq_some_iff.mp hsock).1
        show _ - (i + 1) + _ + 2 < _ - i + _ + 2
        omega
      · show _ - 0 + 1 < _ - i + _ + 2
        omega
  | unlinking i =>
      have hsame : s.listener.unixPaths = s₀.listener.unixPaths := by rw [hw.listener]; rfl
      rw [ListenLoop.stopListener, hsame]
      split
      · rename_i path hpath
        have hlt := (List.getElem?_eq_some_iff.mp hpath).1
        show _ - (i + 1) + 1 < _ - i + 1
        omega
      · exact Nat.succ_pos _

theorem loopLeft_stopListener (s : ListenLoop) (point : StopPoint) :
    loopLeft n (s.stopListener point) = 0 := by
  cases point with
  | restoring sig => cases sig <;> rfl
  | closingEventfd => rfl
  | closing i | unlinking i =>
      rw [ListenLoop.stopListener]
      split <;> rfl

/-- The moves left altogether. -/
def movesLeft (n p : Nat) (s : ListenLoop) : Nat := loopLeft n s + windLeft n p s

/-- **Behind a signal, every move brings the end nearer.** -/
theorem movesLeft_lt (hinit : s₀.Init) (hc : LoopCourse s₀ s) (hsig : .signalled ∈ s.log)
    (hmoves : Advances s a) (hstep : listenLoop.step s a = some t) :
    movesLeft s₀.listener.sockets.length s₀.listener.unixPaths.length t <
      movesLeft s₀.listener.sockets.length s₀.listener.unixPaths.length s := by
  by_cases hloop : Looping s
  · have hlt := loopLeft_lt hinit (hc.underway hloop) hloop hsig hmoves hstep
    have hwind := windLeft_of_looping (n := s₀.listener.sockets.length)
      (p := s₀.listener.unixPaths.length) hloop
    have hle := windLeft_le s₀.listener.sockets.length s₀.listener.unixPaths.length t
    unfold movesLeft
    omega
  · cases a with
    | signal => exact hmoves.elim
    | thread w =>
        cases goes_of_stepThread hstep with
        | enters hs _ | leaves hs _ | hears hs _ | rounds hs | handles hs _ =>
            exact absurd (by simp [Looping, hs]) hloop
        | @stops point hs =>
            have hlt := stopsLeft_lt (hc.stopping_at hs)
            have hdone : loopLeft s₀.listener.sockets.length (s.stopListener point) = 0 :=
              loopLeft_stopListener s point
            rw [movesLeft, movesLeft, hdone, Nat.zero_add,
              show windLeft _ _ s = stopsLeft _ _ point by rw [windLeft, hs]]
            omega

/-- An interruption sets the thread back by two. -/
theorem movesLeft_le (hmoves : ¬ Advances s a) (hstep : listenLoop.step s a = some t) :
    movesLeft n p t ≤ movesLeft n p s + 2 := by
  cases a with
  | thread w =>
      obtain ⟨hs, hempty⟩ := not_forall.mp hmoves
      cases goes_of_stepThread hstep with
      | enters h _ | leaves h _ | rounds h | handles h _ | stops h =>
          exact absurd (hs.symm.trans h) (by simp)
      | hears _ _ =>
          have hloop : loopLeft n s = n + 4 := by rw [loopLeft, hs]
          have hwind : windLeft n p s = n + p + 5 := by rw [windLeft, hs]
          rw [not_not.mp hempty, movesLeft, movesLeft, loopLeft_events [] rfl, List.length_nil,
            hloop, hwind, show windLeft n p (s.goTo (.events [])) = n + p + 5 from rfl]
          split <;> omega
  | signal sig =>
      obtain ⟨_, _, ⟨_, rfl⟩ | ⟨_, rfl⟩⟩ := signal_cases hstep
      · exact Nat.le_add_right _ 2
      · exact Nat.zero_le _

/-- The log grows at its end. -/
theorem log_grows (hstep : listenLoop.step s a = some t) : ∃ evs, t.log = s.log ++ evs := by
  have hsame : ∃ evs, s.log = s.log ++ evs := ⟨[], (List.append_nil _).symm⟩
  cases a with
  | thread w =>
      cases goes_of_stepThread hstep with
      | enters _ _ | leaves _ _ | hears _ _ | rounds _ => exact hsame
      | handles _ hhandles =>
          cases hhandles with
          | crashed | shutdown _ => exact hsame
          | connection _ _ => exact ⟨_, rfl⟩
      | @stops point _ =>
          obtain ⟨paths, hlog, _⟩ := stopListener_shows s point
          exact ⟨paths.map .unlinked, hlog⟩
  | signal sig =>
      obtain ⟨_, _, ⟨_, rfl⟩ | ⟨_, rfl⟩⟩ := signal_cases hstep
      · exact ⟨_, rfl⟩
      · exact hsame

theorem signalled_kept (hstep : listenLoop.step s a = some t) (hsig : .signalled ∈ s.log) :
    .signalled ∈ t.log := by
  obtain ⟨evs, hlog⟩ := log_grows hstep
  rw [hlog]
  exact List.mem_append_left _ hsig

theorem LoopCourse.late_le (hc : LoopCourse s₀ s) (hsig : .signalled ∈ s.log) :
    late s.log ≤ 2 * s₀.listener.sockets.length := by
  cases hc with
  | looping _ hu => exact hu.late_le
  | crashed _ hlate _ _ => exact hlate
  | stopping _ hw => exact hw.late
  | returned _ hw => exact hw.late
  | killed _ hw =>
      rcases hw with ⟨_, hw⟩ | hw
      · exact hw.late
      · exact hw.late
  | unhandled _ _ hno _ _ => exact absurd hsig hno

theorem loopLeft_bound (hc : LoopCourse s₀ s) :
    loopLeft s₀.listener.sockets.length s ≤ 2 * s₀.listener.sockets.length + 6 := by
  unfold loopLeft
  split
  · rename_i es hs
    have hu := hc.underway (by simp [Looping, hs])
    have hpending : pendingEvents s = es := by rw [pendingEvents, hs]
    have hlength := hu.length
    have hsockets := hu.sockets
    rw [hpending] at hlength hsockets
    split
    · omega
    · rename_i hquiet
      -- without the shutdown's, the events left are all of sockets
      have hall : es.countP ofSocket = es.length := List.countP_eq_length.mpr fun e he => by
        cases hk : e.1 with
        | socket idx => simp [ofSocket, hk]
        | shutdown =>
            exact absurd (.inr (hpending ▸ List.mem_map.mpr ⟨e, he, hk⟩)) hquiet
      omega
  · split <;> omega
  all_goals omega

/-- Until its end the thread has a next move, and a batch to report if it waits. -/
theorem moves_of_unfinished (hc : LoopCourse s₀ s) (hgoing : Unfinished s)
    (hsig : .signalled ∈ s.log) : ∃ a t, Advances s a ∧ listenLoop.step s a = some t := by
  refine ⟨.thread ⟨[(.shutdown, 1)], .eagain, false⟩, ?_⟩
  suffices h : ∃ t, s.stepThread ⟨[(.shutdown, 1)], .eagain, false⟩ = some t by
    obtain ⟨t, ht⟩ := h
    exact ⟨t, fun _ => by simp, ht⟩
  obtain ⟨hreturned, hcrashed, hkilled⟩ := hgoing
  unfold ListenLoop.stepThread
  split
  · exact ⟨_, rfl⟩
  · rename_i hs
    have hu := hc.underway (by simp [Looping, hs])
    have hsummoned := (hu.heard hsig).resolve_right (by rw [hu.waiting hs]; simp)
    have hreports : s.Reports [(.shutdown, 1)] :=
      ⟨by simp, fun e he => by rw [List.mem_singleton.mp he]; exact hsummoned, fun _ _ _ => by simp⟩
    exact ⟨_, if_pos hreports⟩
  · exact ⟨_, rfl⟩
  · exact ⟨_, rfl⟩
  · exact ⟨_, rfl⟩
  · contradiction
  · contradiction
  · contradiction

/-! ## In time -/

/-- **A shutdown signal is heeded.** Whatever is ready meanwhile, at most two connections for each
socket are accepted behind it, and the thread is never stuck: it moves at most so often before the
loop is left, and at most so often before everything is wound up. -/
theorem shutdown_signal_is_heeded (hinit : s₀.Init) (h : (listenLoop.startingAt s₀).Reachable s)
    (hsig : .signalled ∈ s.log) :
    late s.log ≤ 2 * s₀.listener.sockets.length ∧
      (Unfinished s → ∃ a t, Advances s a ∧ listenLoop.step s a = some t) ∧
      ∀ n m t, listenLoop.Takes Advances s n m t →
        (Looping t → n < 2 * s₀.listener.sockets.length + 6 + 2 * m) ∧
        n ≤ 3 * s₀.listener.sockets.length + s₀.listener.unixPaths.length + 11 + 2 * m := by
  have hcourse := loopCourse_reachable hinit h
  refine ⟨hcourse.late_le hsig, fun hgoing => moves_of_unfinished hcourse hgoing hsig,
    fun n m t htakes => ?_⟩
  have hrank := htakes.rank (P := fun s => LoopCourse s₀ s ∧ .signalled ∈ s.log)
    (movesLeft s₀.listener.sockets.length s₀.listener.unixPaths.length) 2
    (fun s a t hp hmoves hstep =>
      ⟨⟨loopCourse_step hinit hp.1 hstep, signalled_kept hstep hp.2⟩,
        movesLeft_lt hinit hp.1 hp.2 hmoves hstep⟩)
    (fun s a t hp hmoves hstep =>
      ⟨⟨loopCourse_step hinit hp.1 hstep, signalled_kept hstep hp.2⟩, movesLeft_le hmoves hstep⟩)
    ⟨hcourse, hsig⟩
  have hloop := loopLeft_bound hcourse
  have hwind := windLeft_le s₀.listener.sockets.length s₀.listener.unixPaths.length s
  unfold movesLeft at hrank
  refine ⟨fun hlooping => ?_, by omega⟩
  have hpos := loopLeft_pos (n := s₀.listener.sockets.length) hlooping
  have hall := windLeft_of_looping (n := s₀.listener.sockets.length)
    (p := s₀.listener.unixPaths.length) hlooping
  omega

/-- With one socket, two connections and fourteen moves are what there can be, seven of them in
the loop. -/
theorem shutdown_signal_is_heeded_last : ∃ s t u : ListenLoop,
    (listenLoop.startingAt handedLoop).Reachable s ∧ late s.log ≤ 2 ∧
      (∃ a t, Advances s a ∧ listenLoop.step s a = some t) ∧
      listenLoop.Takes Advances s 7 0 t ∧ Looping t ∧
      7 < 2 * handedLoop.listener.sockets.length + 6 + 2 * 0 ∧
      listenLoop.Takes Advances s 14 0 u ∧ u.stage = .returned ∧ late u.log = 2 ∧
      14 ≤ 3 * handedLoop.listener.sockets.length + handedLoop.listener.unixPaths.length +
        11 + 2 * 0 := by
  let go (batch : List (LoopKey × Nat)) (accept : AcceptReply) : LoopAct :=
    .thread ⟨batch, accept, true⟩
  let late₁ : List LoopAct := [go [] (.connection 7), go [] .eagain, go [] .eagain,
    go [(.socket 0, 1), (.shutdown, 1)] .eagain, go [] (.connection 8), go [] .eagain,
    go [] .eagain]
  obtain ⟨s, hs, hout⟩ := (Machine.ReachableBy.init rfl :
      (listenLoop.startingAt handedLoop).Reachable handedLoop).exists_of_run
    [go [] .eagain, go [(.socket 0, 1)] .eagain, .signal .sigterm]
    (fun s : ListenLoop => decide (LoopEvent.signalled ∈ s.log) &&
      decide (s.stage = .events [(.socket 0, 1)]) &&
      (listenLoop.run Advances s late₁).any fun t : ListenLoop =>
        decide (Looping t) &&
        (listenLoop.run Advances t (List.replicate 7 (go [] .eagain))).any fun u : ListenLoop =>
          decide (u.stage = .returned) && decide (late u.log = 2))
    (by decide +kernel)
  simp only [Bool.and_eq_true, decide_eq_true_eq] at hout
  obtain ⟨⟨hsig, hstage⟩, hlater⟩ := hout
  obtain ⟨t, htakes, hlast⟩ :=
    (Machine.Takes.zero : listenLoop.Takes Advances s 0 0 s).exists_of_run _ _ hlater
  simp only [Bool.and_eq_true, decide_eq_true_eq] at hlast
  obtain ⟨hlooping, hwinds⟩ := hlast
  obtain ⟨u, hall, hend⟩ := htakes.exists_of_run _ _ hwinds
  simp only [Bool.and_eq_true, decide_eq_true_eq] at hend
  obtain ⟨hlate, hmoves, hbound⟩ := shutdown_signal_is_heeded handedLoop_init hs hsig
  exact ⟨s, t, u, hs, hlate, hmoves (by simp [Unfinished, hstage]), htakes, hlooping,
    (hbound 7 0 t htakes).1 hlooping, hall, hend.1, hend.2, (hbound 14 0 u hall).2⟩

end DBServer.Proof
