import DBServer.Proof.Descriptors
import DBServer.Proof.Load

/-!
# The drain

`_server_wait_clients_drain` adds up the client counters of the operators, one load at a
time, while connections still go from the rings into slots. With the listener joined
nothing new comes in, so an operator that holds nothing holds nothing any more, and what
is left to ask for is that a counter of zero means just that: the probe must not look
while something is in the operator's ring or between its pop and its registration.
-/

namespace DBServer.Proof

open DBServer Lib Operator Server

variable {H : DbHttp} {s t : Server H} {a : ServerAct H} {th th' : OperatorThread H} {j : Nat}

/-- The thread has a popped descriptor in its hands. -/
def carrying : Instr → Bool
  | .dequeued _ | .gate _ | .addClient _ => true
  | _ => false

/-- An operator found without clients has nothing in its ring or in its hands either. -/
def ProbeSees (s : Server H) (a : ServerAct H) : Prop :=
  KeepsDescriptors s a ∧ match a, s.main with
    | .main _, .total _ idx _ => ∀ th ∈ s.operators[idx]?, th.state.activeClients = 0 →
        th.state.ring = [] ∧ th.code.all (!carrying ·) = true
    | _, _ => True

instance (s : Server H) : (a : ServerAct H) → Decidable (ProbeSees s a)
  | .main b => by
      unfold ProbeSees
      refine @instDecidableAnd _ _ (inferInstanceAs (Decidable (KeepsDescriptors s (.main b)))) ?_
      exact match s.main with
        | .total _ _ _ => inferInstance
        | .create _ | .undoStore _ _ | .undoWrite _ _ | .undoJoin _ _ | .gate _ | .poll _ _
        | .late _ _ | .destroy _ _ | .returned _ | .waiting _ | .done => inferInstance
  | .accept fd => inferInstanceAs (Decidable (KeepsDescriptors s (.accept fd) ∧ True))
  | .listener => inferInstanceAs (Decidable (KeepsDescriptors s .listener ∧ True))
  | .stop => inferInstanceAs (Decidable (KeepsDescriptors s .stop ∧ True))
  | .operator idx w => inferInstanceAs (Decidable (KeepsDescriptors s (.operator idx w) ∧ True))
  | .tick n => inferInstanceAs (Decidable (KeepsDescriptors s (.tick n) ∧ True))
  | .requestStore idx => inferInstanceAs (Decidable (KeepsDescriptors s (.requestStore idx) ∧ True))
  | .requestWrite idx => inferInstanceAs (Decidable (KeepsDescriptors s (.requestWrite idx) ∧ True))

/-- An operator that holds no descriptor at all. -/
def Vacant (th : OperatorThread H) : Prop := ∀ x, places x th = 0

/-- Without clients, ring entries and descriptors in its hands, an operator is vacant. -/
theorem vacant_of_idle (hsound : Sound th.state) (hactive : th.state.activeClients = 0)
    (hring : th.state.ring = []) (hcode : th.code.all (!carrying ·) = true) : Vacant th := by
  intro x
  have hslots : (table th.state).slots.countP (Slot.holds x) = 0 := by
    have hbusy : (table th.state).slots.countP Slot.busy = 0 :=
      hsound.table.active.symm.trans hactive
    rw [List.countP_eq_zero] at hbusy ⊢
    intro c hc hholds
    simp only [Slot.holds, Bool.and_eq_true] at hholds
    exact hbusy c hc hholds.1
  have hweigh : weigh (carries x) th.code = 0 := by
    refine weigh_eq_zero fun i hi => ?_
    have hnot := List.all_eq_true.mp hcode i hi
    cases i <;> first | rfl | exact absurd hnot (by simp [carrying])
  rw [places, hring, hslots, hweigh]
  rfl

theorem MainTouch.places {m m' : Running} {idx : Nat} {f : Operator H → Operator H}
    (h : MainTouch m idx f m') (x : Int) (th : OperatorThread H) :
    Proof.places x ⟨f th.state, th.code⟩ = Proof.places x th := by
  obtain ⟨hring, hclients⟩ := h.keeps th.state
  simp only [Proof.places, table, hring, hclients]

/-- **Without a listener a vacant operator stays vacant.** -/
theorem ServerStep.vacant (h : ServerStep s a t) (hok : KeepsDescriptors s a)
    (hl : s.listener = .stopped) (hm : ListenerJoined s.main) (hth' : t.operators[j]? = some th')
    (hvacant : ∀ th, s.operators[j]? = some th → Vacant th) : Vacant th' := by
  have hupdate : ∀ {idx : Nat} (f : Operator H → Operator H),
      (∀ (x : Int) (th : OperatorThread H), Proof.places x ⟨f th.state, th.code⟩ =
        Proof.places x th) → (s.update idx f).operators[j]? = some th' → Vacant th' := by
    intro idx f hf hget x
    rcases update_cases hget with ⟨rfl, th, hsome, rfl⟩ | ⟨_, hsome⟩
    · rw [hf]
      exact hvacant th hsome x
    · exact hvacant th' hsome x
  cases h with
  | compared hl' hsome hcompare => exact absurd (hl.symm.trans hl') (by simp)
  | pushed hl' hsome hroom => exact absurd (hl.symm.trans hl') (by simp)
  | counted hl' hsome => exact absurd (hl.symm.trans hl') (by simp)
  | woken hl' hsome => exact absurd (hl.symm.trans hl') (by simp)
  | @executed idx w th i op' new rest hsome hcode hexec =>
      rcases setThread_cases hsome hth' with ⟨rfl, rfl⟩ | ⟨_, hget⟩
      · intro x
        have hold := hvacant th hsome x
        obtain ⟨cs, _, hmoved⟩ := hexec.places (hok th hsome i (by simp [hcode])) x
        simp only [Proof.places, hcode, weigh_cons, weigh_append] at hold ⊢
        omega
      · exact hvacant th' hget
  | created hmain hsome =>
      rw [hmain] at hm
      exact absurd hm id
  | touches htouch => exact hupdate _ htouch.places hth'
  | freed hmain => exact absurd hth' (by simp [Server.operators, Server.freed, note, goTo])
  | givenUp hmain =>
      exact absurd hth' (by simp [Server.operators, Server.freed, note, goTo, runReturns])
  | requestStored => exact hupdate _ (fun x th => rfl) hth'
  | requestWritten => exact hupdate _ (fun x th => rfl) hth'
  | _ => exact hvacant th' hth'

theorem length_le_reachable {ok : Server H → ServerAct H → Prop}
    (h : (server H).ReachableBy ok s) : s.operators.length ≤ 255 := by
  refine h.invariant (P := fun s => s.operators.length ≤ 255)
    (fun s hs => (show ServerInit s from hs).count.2) ?_
  intro s a t _ hs _ hstep
  rcases (server_step hstep).length with hlength | ⟨_, hnil⟩
  · rw [hlength]
    exact hs
  · rw [hnil]
    exact Nat.zero_le _

/-- What the probe has found out so far, and that it stays so. -/
structure Probed (s : Server H) : Prop where
  sum : ∀ deadline idx sum, s.main = .total deadline idx sum → sum ≤ 255 * idx ∧
    (sum = 0 → ∀ j < idx, ∀ th, s.operators[j]? = some th → Vacant th)
  drained : .drained ∈ s.log → s.listener = .stopped ∧ ∀ x, held x s = 0

theorem Probed.moves {created : Bool} {m : Running} {es : List ServerEvent}
    (hs : Probed s) (hr : (server H).ReachableBy ProbeSees s) (hmove : MainMove s s.main m es)
    (hok : ProbeSees s (.main created)) : Probed ((s.goTo m).note es) := by
  have hstopped := stopped_reachable hr
  refine ⟨?_, ?_⟩
  · intro deadline idx sum hm
    obtain rfl : m = .total deadline idx sum := hm
    generalize hm₀ : s.main = m₀ at hmove
    cases hmove with
    | stopped hl => exact ⟨le_rfl, fun _ j hj => absurd hj (Nat.not_lt_zero j)⟩
    | again hlt => exact ⟨le_rfl, fun _ j hj => absurd hj (Nat.not_lt_zero j)⟩
    | @added deadline k total th hth =>
        obtain ⟨hle, hvacant⟩ := hs.sum deadline k total hm₀
        obtain ⟨hk, _⟩ := List.getElem?_eq_some_iff.mp hth
        have hlength := length_le_reachable hr
        have hsound := server_sound hr hth
        have hactive : th.state.activeClients ≤ 255 :=
          (activeClients_le hsound).trans (configured_reachable hr hth).maxClients.2
        -- a sum of at most 255 counters of at most 255 does not wrap
        have hsum : (total + th.state.activeClients) % 2 ^ 32 = total + th.state.activeClients :=
          Nat.mod_eq_of_lt (by omega)
        rw [hsum]
        refine ⟨by omega, fun hzero j hj th' hth' => ?_⟩
        rcases Nat.lt_succ_iff_lt_or_eq.mp hj with hj | rfl
        · exact hvacant (by omega) j hj th' hth'
        · obtain rfl : th = th' := Option.some.inj (hth.symm.trans hth')
          have hidle := hok.2
          simp only [hm₀] at hidle
          obtain ⟨hring, hcode⟩ := hidle th hth (by omega)
          exact vacant_of_idle hsound (by omega) hring hcode
  · intro hmem
    rcases List.mem_append.mp hmem with hold | hnew
    · exact hs.drained hold
    · generalize hm₀ : s.main = m₀ at hmove
      cases hmove with
      | @drained deadline idx hnone =>
          have hl := hstopped (by rw [hm₀]; trivial)
          have hvacant := (hs.sum deadline idx 0 hm₀).2 rfl
          have hzero : ∀ th ∈ s.operators, Vacant th := by
            intro th hth
            obtain ⟨j, hj⟩ := List.getElem?_of_mem hth
            obtain ⟨hlt, _⟩ := List.getElem?_eq_some_iff.mp hj
            exact hvacant j (hlt.trans_le (List.getElem?_eq_none_iff.mp hnone)) th hj
          refine ⟨hl, fun x => ?_⟩
          have hheld : held x s = 0 := by
            unfold held
            rw [hl]
            refine Nat.add_eq_zero_iff.mpr ⟨rfl, List.sum_eq_zero fun n hn => ?_⟩
            obtain ⟨th, hth, rfl⟩ := List.mem_map.mp hn
            exact hzero th hth x
          exact hheld
      | _ => exact absurd hnew (by simp)

/-- Nobody else adds to what the probe has found. -/
theorem Probed.other (hs : Probed s) (hr : (server H).ReachableBy ProbeSees s)
    (h : ServerStep s a t) (hok : ProbeSees s a)
    (hmain : ∀ deadline idx sum, t.main = .total deadline idx sum →
      s.main = .total deadline idx sum)
    (hlog : .drained ∈ t.log → .drained ∈ s.log) : Probed t := by
  refine ⟨?_, ?_⟩
  · intro deadline idx sum hm
    have hold := hmain deadline idx sum hm
    obtain ⟨hle, hvacant⟩ := hs.sum deadline idx sum hold
    have hjoined : ListenerJoined s.main := by rw [hold]; trivial
    refine ⟨hle, fun hzero j hj th hth => ?_⟩
    exact h.vacant hok.1 (stopped_reachable hr hjoined) hjoined hth (hvacant hzero j hj)
  · intro hmem
    obtain ⟨hl, hheld⟩ := hs.drained (hlog hmem)
    refine ⟨h.stopped hl, fun x => ?_⟩
    obtain ⟨es, hes, hmoved⟩ := h.held hok.1 (quiet_reachable hr)
    have hmove := hmoved x
    have hzero := hheld x
    rcases h.accepts with hsame | ⟨fd, hwaiting, _⟩
    · have hcount := hsame x
      rw [hes, List.count_append] at hcount
      omega
    · exact absurd (hl.symm.trans hwaiting) (by simp)

theorem probed_reachable (h : (server H).ReachableBy ProbeSees s) : Probed s := by
  refine h.invariant ?_ ?_
  · intro s hs
    refine ⟨fun deadline idx sum hm => ?_, fun hmem => ?_⟩
    · rw [hs.main] at hm
      exact absurd hm (by simp)
    · rw [hs.log] at hmem
      exact absurd hmem (by simp)
  · intro s a t hr hs hok hstep
    have hcases := server_step hstep
    have h := hcases
    -- the probe is the main thread's; for the rest it is enough that nothing is undone
    cases hcases with
    | moves hmove => exact hs.moves hr hmove hok
    | executed hth hcode hexec =>
        refine hs.other hr h hok (fun _ _ _ => id) fun hmem => ?_
        refine (List.mem_append.mp hmem).resolve_right fun hshown => ?_
        rcases mem_shown hshown with ⟨b, heq⟩ | ⟨fd, heq⟩
        · exact ServerEvent.noConfusion heq
        · exact ServerEvent.noConfusion heq
    | accepted hl hfd hfresh =>
        exact hs.other hr h hok (fun _ _ _ => id) (by simp [note, Server.listen])
    | pushed hl hth hroom =>
        exact hs.other hr h hok (fun _ _ _ => id) (by simp [note, Server.listen, setThread])
    | refused hl => exact hs.other hr h hok (fun _ _ _ => id) (by simp [note, Server.listen])
    | requestStored => exact hs.other hr h hok (fun _ _ _ => id) (by simp [note, update])
    | allCreated hm hnone => exact hs.other hr h hok (by simp [goTo]) id
    | created hm hth => exact hs.other hr h hok (by simp [goTo]) id
    | @touches _ idx f m htouch =>
        refine hs.other hr h hok (fun deadline k sum hm => ?_) id
        obtain rfl : m = .total deadline k sum := hm
        generalize s.main = m₀ at htouch
        cases htouch
    | inactive hm => exact hs.other hr h hok (by simp [goTo]) id
    | freed hm =>
        exact hs.other hr h hok (by simp [goTo]) (by simp [Server.freed, note, goTo])
    | givenUp hm =>
        exact hs.other hr h hok (by simp [goTo, runReturns, note])
          (by simp [Server.freed, note, goTo, runReturns])
    | _ => exact hs.other hr h hok (fun _ _ _ => id) id

/--
**When the drain returns in time, every accepted descriptor has been closed**, as long as
descriptors are kept and no operator reads as idle while it still holds one.
-/
theorem drain_covers (h : (server H).ReachableBy ProbeSees s) (hdrained : .drained ∈ s.log) :
    ∀ x, held x s = 0 ∧ s.log.count (.accepted x) = s.log.count (.closed x) := by
  intro x
  have hheld := ((probed_reachable h).drained hdrained).2 x
  have hkeeps : (server H).ReachableBy KeepsDescriptors s := h.mono fun _ _ hok => hok.1
  have hbalance := (conserved_reachable hkeeps).balance x
  rw [hheld] at hbalance
  exact ⟨hheld, hbalance⟩

/-- A client that was adopted and hangs up before the signal. -/
theorem drain_covers_one : ∃ s : Server DbHttp.small, .drained ∈ s.log ∧
    s.log.count (.accepted 7) = 1 ∧ s.log.count (.closed 7) = 1 := by
  have hinit : (server DbHttp.small).ReachableBy ProbeSees (Server.small 1) :=
    .init (serverInit_small (.inl rfl))
  obtain ⟨t, ht, hdrained⟩ := hinit.exists_of_run
    (creates 1 ++ operates 0 3 [] ++ List.replicate 3 (.main true) ++ [.accept 7] ++ listens 9 ++
      operates 0 11 [wakeupEvent] ++ operates 0 3 [firstEvent epollHup] ++ [.stop] ++
      List.replicate 3 (.main true))
    (fun s => s.log.contains .drained && s.log.count (.accepted 7) == 1) (by decide +kernel)
  simp only [Bool.and_eq_true, beq_iff_eq, List.contains_iff_mem] at hdrained
  obtain ⟨hmem, haccepted⟩ := hdrained
  exact ⟨t, hmem, haccepted, (drain_covers ht hmem 7).2 ▸ haccepted⟩

/-- A connection is dispatched, the listener stops, and the probe looks before the operator pops. -/
theorem drain_not_covers : ¬∀ (H : DbHttp) (s : Server H), (server H).Reachable s →
    .drained ∈ s.log → ∀ x, s.log.count (.accepted x) = s.log.count (.closed x) := by
  intro hall
  have hinit : (server DbHttp.small).Reachable (Server.small 1) :=
    .init (serverInit_small (.inl rfl))
  obtain ⟨t, ht, hdrained⟩ := hinit.exists_of_run
    (creates 1 ++ operates 0 3 [] ++ List.replicate 3 (.main true) ++ [.accept 7] ++ listens 9 ++
      [.stop] ++ List.replicate 3 (.main true))
    (fun s => s.log.contains .drained && s.log.count (.accepted 7) == 1 &&
      s.log.count (.closed 7) == 0)
    (by decide +kernel)
  simp only [Bool.and_eq_true, beq_iff_eq, List.contains_iff_mem] at hdrained
  obtain ⟨⟨hmem, haccepted⟩, hclosed⟩ := hdrained
  have hcount := hall _ t ht hmem 7
  omega

end DBServer.Proof
