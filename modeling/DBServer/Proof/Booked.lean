import DBServer.Proof.Loop

/-!
# No connection is lost on the way, and no warning repeated

The log is the books: a descriptor goes in with `accept` and out to whoever takes it, or is
closed, in the step that accepted it. The latch of the warning is the last entry that is a warning
or a connection.
-/

namespace DBServer.Proof

open DBServer Lib ListenLoop

variable {s₀ s t : ListenLoop} {evs log : List LoopEvent} {fd : Int}

/-- The warning of a streak. -/
def isWarning : LoopEvent → Bool
  | .warned => true
  | _ => false

/-- The warnings and the connections, in their order. -/
def streaks (log : List LoopEvent) : List LoopEvent :=
  log.filter fun ev => isWarning ev || isAccept ev

/-- Every fixed 503 goes out behind the accepting of its connection and before the closing, with
nothing between. -/
def BusyBetween (log : List LoopEvent) : Prop :=
  ∀ l₁ l₂ fd, log = l₁ ++ .busy fd :: l₂ → [.accepted fd] <:+ l₁ ∧ [.closed fd] <+: l₂

theorem BusyBetween.append (h : BusyBetween log) (h' : BusyBetween evs) :
    BusyBetween (log ++ evs) := by
  intro l₁ l₂ fd heq
  rcases List.append_eq_append_iff.mp heq with ⟨mid, rfl, hevs⟩ | ⟨mid, hlog, hrest⟩
  · obtain ⟨hbefore, hbehind⟩ := h' mid l₂ fd hevs
    exact ⟨hbefore.trans (List.suffix_append _ _), hbehind⟩
  · cases mid with
    | nil =>
        -- the 503 would be the first of what was appended
        have hfirst := (h' [] l₂ fd hrest.symm).1
        exact absurd (List.suffix_nil.mp hfirst) (by simp)
    | cons ev mid =>
        obtain ⟨rfl, rfl⟩ := List.cons.inj hrest
        obtain ⟨hbefore, hbehind⟩ := h l₁ mid fd hlog
        exact ⟨hbefore, hbehind.trans (List.prefix_append _ _)⟩

theorem busyBetween_of_not_mem (h : ∀ fd, .busy fd ∉ log) : BusyBetween log := fun l₁ _ fd heq =>
  absurd (heq ▸ List.mem_append_right l₁ List.mem_cons_self) (h fd)

/-- What the handling of an event shows of a 503 is all of it. -/
theorem Accepting.busyBetween {b b' : Bool} (h : Accepting b evs b') : BusyBetween evs := by
  cases h with
  | nothing | exhausted | warned | handedOn _ | refused _ =>
      exact busyBetween_of_not_mem fun fd hmem => by simp at hmem
  | busy fd =>
      intro l₁ l₂ fd' heq
      match l₁ with
      | [] | [_, _] | _ :: _ :: _ :: _ => simp at heq
      | [ev] =>
          obtain ⟨rfl, hrest⟩ := List.cons.inj heq
          obtain ⟨hfd, rfl⟩ := List.cons.inj hrest
          obtain rfl := LoopEvent.busy.inj hfd
          exact ⟨List.suffix_rfl, List.prefix_rfl⟩

/-- What the log says of the connections and the warnings. -/
structure Booked (s : ListenLoop) : Prop where
  kept : ∀ fd, s.log.count (.accepted fd) = s.log.count (.dispatched fd) + s.log.count (.closed fd)
  busy : BusyBetween s.log
  once : (streaks s.log).IsChain fun ev ev' => isWarning ev → isAccept ev'
  latched : s.warned = false → ∀ ev ∈ (streaks s.log).getLast?, isWarning ev = false

theorem streaks_append : streaks (log ++ evs) = streaks log ++ streaks evs := List.filter_append ..

/-- What tells of no connection and warns of nothing changes nothing. -/
theorem Booked.silent (hb : Booked s) (hlog : t.log = s.log ++ evs) (hwarned : t.warned = s.warned)
    (hsilent : ∀ ev ∈ evs, ev = .signalled ∨ ev = .slept ∨ ∃ path, ev = .unlinked path) :
    Booked t := by
  have hnone : ∀ ev, ev ≠ .signalled → ev ≠ .slept → (∀ path, ev ≠ .unlinked path) →
      ev ∉ evs := fun ev h h' h'' hmem => by
    rcases hsilent ev hmem with heq | heq | ⟨path, heq⟩
    exacts [h heq, h' heq, h'' path heq]
  have hquiet : streaks evs = [] := List.filter_eq_nil_iff.mpr fun ev hev => by
    rcases hsilent ev hev with rfl | rfl | ⟨path, rfl⟩ <;> simp [isWarning, isAccept]
  refine ⟨fun fd => ?_, ?_, ?_, ?_⟩
  · rw [hlog, List.count_append, List.count_append, List.count_append,
      List.count_eq_zero.mpr (hnone _ ?_ ?_ ?_), List.count_eq_zero.mpr (hnone _ ?_ ?_ ?_),
      List.count_eq_zero.mpr (hnone _ ?_ ?_ ?_)]
    · exact hb.kept fd
    all_goals simp
  · rw [hlog]
    exact hb.busy.append (busyBetween_of_not_mem fun fd => hnone _ (by simp) (by simp) (by simp))
  · rw [hlog, streaks_append, hquiet, List.append_nil]
    exact hb.once
  · rw [hlog, streaks_append, hquiet, List.append_nil, hwarned]
    exact hb.latched

/-- A connection is booked in and out, and ends the streak. -/
theorem Booked.accept (hb : Booked s) {fd : Nat} (hlog : t.log = s.log ++ .accepted fd :: evs)
    (hquiet : streaks evs = []) (hbusy : BusyBetween (.accepted fd :: evs))
    (hout : ∀ n, evs.count (.accepted n) = 0 ∧
      evs.count (.dispatched n) + evs.count (.closed n) = if fd = n then 1 else 0) : Booked t := by
  have hstreaks : streaks t.log = streaks s.log ++ [.accepted fd] := by
    rw [hlog, streaks_append]
    show _ ++ .accepted fd :: streaks evs = _
    rw [hquiet]
  refine ⟨fun n => ?_, ?_, ?_, fun _ ev hev => ?_⟩
  · obtain ⟨hnone, hone⟩ := hout n
    have hkept := hb.kept n
    simp only [hlog, List.count_append, List.count_cons, hnone, beq_iff_eq,
      LoopEvent.accepted.injEq, reduceCtorEq, if_false, Nat.add_zero]
    omega
  · rw [hlog]
    exact hb.busy.append hbusy
  · rw [hstreaks, List.isChain_append]
    refine ⟨hb.once, List.isChain_singleton _, fun ev _ ev' hev' _ => ?_⟩
    obtain rfl := Option.some.inj hev'
    rfl
  · rw [hstreaks, List.getLast?_append_of_ne_nil _ (by simp)] at hev
    obtain rfl := Option.some.inj hev
    rfl

theorem booked_connection {b : Bool} (hb : Booked s) (hacc : Accepting s.warned evs b) :
    Booked ({ s with warned := b }.note evs) := by
  have hbusy := hacc.busyBetween
  generalize hw : s.warned = latch at hacc
  cases hacc with
  | nothing => exact hb.silent rfl hw.symm (by simp)
  | exhausted => exact hb.silent rfl hw.symm (by simp)
  | warned =>
      have hnone : ∀ ev, ev ≠ .warned → ev ≠ .slept →
          ([.warned, .slept] : List LoopEvent).count ev = 0 := fun ev h h' =>
        List.count_eq_zero.mpr (by simp [h, h'])
      refine ⟨fun fd => ?_, hb.busy.append hbusy, ?_, fun h => absurd h (by simp [ListenLoop.note])⟩
      · simp only [ListenLoop.note, List.count_append]
        rw [hnone, hnone, hnone]
        · exact hb.kept fd
        all_goals simp
      · show (streaks (s.log ++ [.warned, .slept])).IsChain _
        rw [streaks_append, List.isChain_append]
        refine ⟨hb.once, List.isChain_singleton _, fun ev hev ev' _ hwarns => ?_⟩
        exact absurd (hwarns.symm.trans (hb.latched hw ev hev)) (by simp)
  | handedOn fd => exact hb.accept rfl rfl hbusy fun n => by simp [List.count_cons]
  | refused fd => exact hb.accept rfl rfl hbusy fun n => by simp [List.count_cons]
  | busy fd => exact hb.accept rfl rfl hbusy fun n => by simp [List.count_cons]

/-- **Every connection is kept or closed, and a streak is warned of once.** In every run, and at
every step of it, a descriptor was handed on or closed as often as it was accepted; a fixed 503
stands between the accepting of its connection and the closing; between two warnings there is a
connection. -/
theorem every_connection_is_booked (hinit : s₀.Init)
    (h : (listenLoop.startingAt s₀).Reachable s) :
    (∀ fd, s.log.count (.accepted fd) =
      s.log.count (.dispatched fd) + s.log.count (.closed fd)) ∧
    (∀ l₁ l₂ fd, s.log = l₁ ++ .busy fd :: l₂ → [.accepted fd] <:+ l₁ ∧ [.closed fd] <+: l₂) ∧
    (streaks s.log).IsChain fun ev ev' => isWarning ev → isAccept ev' := by
  have hbooked : Booked s := by
    induction h with
    | init heq =>
        obtain rfl := heq
        exact ⟨by simp [hinit.log], by simp [BusyBetween, hinit.log],
          by simp [hinit.log, streaks], by simp [hinit.log, streaks]⟩
    | @tail s t a _ _ hstep ih =>
        cases a with
        | signal sig =>
            obtain ⟨_, _, ⟨_, rfl⟩ | ⟨_, rfl⟩⟩ := signal_cases hstep
            · exact ih.silent rfl rfl (by simp)
            · exact ih.silent (List.append_nil _).symm rfl (by simp)
        | thread w =>
            cases goes_of_stepThread hstep with
            | enters _ _ | leaves _ _ | hears _ _ | rounds _ =>
                exact ih.silent (List.append_nil _).symm rfl (by simp)
            | @stops point _ =>
                obtain ⟨paths, hlog, hwarned⟩ := stopListener_shows s point
                refine ih.silent hlog hwarned fun ev hev => ?_
                obtain ⟨path, _, rfl⟩ := List.mem_map.mp hev
                exact .inr (.inr ⟨path, rfl⟩)
            | handles _ hhandles =>
                cases hhandles with
                | crashed | shutdown _ => exact ih.silent (List.append_nil _).symm rfl (by simp)
                | connection _ hacc =>
                    have hb := booked_connection ih hacc
                    exact ⟨hb.kept, hb.busy, hb.once, hb.latched⟩
  exact ⟨hbooked.kept, hbooked.busy, hbooked.once⟩

/-- What systemd's upload socket beside it makes of the listener. -/
def uploadLoop : ListenLoop :=
  { handedLoop with
    listener := (listenerInitActivated handedAnswers (some ⟨3, 4⟩) .zeroed).2 }

/-- Two streaks, one connection between them, and a 503 behind them. -/
theorem every_connection_is_booked_twice : ∃ (s : ListenLoop) (before : List LoopEvent),
    (listenLoop.startingAt uploadLoop).Reachable s ∧
      before = [.warned, .slept, .slept, .accepted 7, .closed 7, .warned, .slept, .accepted 8] ∧
      s.log = before ++ .busy 8 :: [.closed 8] ∧
      (streaks s.log).IsChain (fun ev ev' => isWarning ev → isAccept ev') ∧
      s.log.count (.accepted 7) = s.log.count (.dispatched 7) + s.log.count (.closed 7) ∧
      [.accepted 8] <:+ before ∧ [LoopEvent.closed 8] <+: [.closed 8] := by
  let go (idx : Nat) (accept : AcceptReply) : LoopAct := .thread ⟨[(.socket idx, 1)], accept, false⟩
  let before : List LoopEvent :=
    [.warned, .slept, .slept, .accepted 7, .closed 7, .warned, .slept, .accepted 8]
  have hinit : uploadLoop.Init := ⟨by decide, by decide, fun _ => rfl, rfl, rfl, rfl, rfl⟩
  obtain ⟨s, hs, hout⟩ := (Machine.ReachableBy.init rfl :
      (listenLoop.startingAt uploadLoop).Reachable uploadLoop).exists_of_run
    ([(0, .exhausted), (1, .exhausted), (0, .connection 7), (0, .exhausted),
        (1, .connection 8)].flatMap fun (idx, accept) =>
      [go idx .eagain, go idx .eagain, go idx accept, go idx .eagain])
    (fun s : ListenLoop => decide (s.log = before ++ .busy 8 :: [.closed 8]))
    (by decide +kernel)
  have hlog := of_decide_eq_true hout
  obtain ⟨hkept, hbusy, honce⟩ := every_connection_is_booked hinit hs
  obtain ⟨hbefore, hbehind⟩ := hbusy _ _ 8 hlog
  exact ⟨s, before, hs, rfl, hlog, honce, hkept 7, hbefore, hbehind⟩

end DBServer.Proof
