import DBServer.Proof.Table

/-!
# One housekeeping tick

`_clean_clients` removes clients while it walks over them, and every removal takes one
off the counter the operator is asked for its load by. `Swept` is where the walk stands:
the slots below its index are as they should be, the others as they were, and the counter
is behind by what the walk has freed so far. The walk is not atomic. The dispatcher and a
shutdown request may come between any two slots, and find nothing there to change.
-/

namespace DBServer.Proof

open DBServer Lib Operator

variable {H : DbHttp} {op op' : Operator H} {w : Answers H} {s t : Mailbox H} {now idx : Nat}
  {c : Conn H}

/-- Idle for longer than its timeout, which is short until its first request. -/
def Overdue (now : Nat) (c : Conn H) : Prop :=
  c.cli.isBusy = true ∧
    (if c.cli.requestCount = 0 then workerClientTimeoutShort else workerClientTimeoutLong) <
      now - c.cli.lastActivity

instance (now : Nat) (c : Conn H) : Decidable (Overdue now c) :=
  inferInstanceAs (Decidable (_ ∧ _))

/-- The test of the walk is the one it should be, if no activity lies in the future. -/
theorem expired_iff (hnow : now < 2 ^ 64)
    (hclock : c.cli.isBusy = true → c.cli.lastActivity ≤ now) :
    expired now c = true ↔ Overdue now c := by
  simp only [expired, Overdue, Bool.and_eq_true, decide_eq_true_eq]
  refine and_congr_right fun hbusy => ?_
  have hpast := hclock hbusy
  have hsub : sub64 now c.cli.lastActivity = now - c.cli.lastActivity := by
    unfold sub64
    omega
  rw [hsub]

theorem timeHelperGetNow_lt (wall : Int) : timeHelperGetNow wall < 2 ^ 64 := by
  unfold timeHelperGetNow
  omega

/-! ## The walk -/

/-- A slot behind the walk. -/
def sweep (now : Nat) (c : Conn H) : Conn H := if expired now c then shutSlot c else c

/-- The walk over the slots of `op` has come to slot `idx`. -/
structure Swept (now : Nat) (op : Operator H) (idx : Nat) (op' : Operator H) : Prop where
  maxClients : op'.maxClients = op.maxClients
  clients : ∀ j, op'.clients[j]? =
    op.clients[j]?.map fun c => if j < idx then sweep now c else c
  closed : op'.closed =
    op.closed ++ ((op.clients.take idx).filter (expired now)).map fun c => c.cli.ctx.fd
  active : op'.activeClients + (op.clients.take idx).countP (expired now) = op.activeClients

theorem Swept.start (hmax : op'.maxClients = op.maxClients) (hclients : op'.clients = op.clients)
    (hclosed : op'.closed = op.closed) (hactive : op'.activeClients = op.activeClients) :
    Swept now op 0 op' := by
  refine ⟨hmax, fun j => ?_, by simp [hclosed], by simp [hactive]⟩
  rw [hclients]
  simp

/-- What the walk and the slots do not depend on may change. -/
theorem Swept.congr (h : Swept now op idx op') {op'' : Operator H}
    (hmax : op''.maxClients = op'.maxClients) (hclients : op''.clients = op'.clients)
    (hclosed : op''.closed = op'.closed) (hactive : op''.activeClients = op'.activeClients) :
    Swept now op idx op'' :=
  ⟨hmax.trans h.maxClients, fun j => by rw [hclients]; exact h.clients j,
    hclosed.trans h.closed, by rw [hactive]; exact h.active⟩

/-- **One slot.** -/
theorem Swept.step (h : Swept now op idx op') (hget : op.clients[idx]? = some c)
    (hcounted : op.clients.countP (expired now) ≤ op.activeClients)
    (hwidth : op.activeClients < 2 ^ 32) (hlt : idx < op.maxClients) :
    ∃ op'', op'.cleanClients idx now = (op'', [.cleanClients (idx + 1) now]) ∧
      Swept now op (idx + 1) op'' := by
  have hget' : op'.clients[idx]? = some c := by
    rw [h.clients, hget]
    simp
  have htake : op.clients.take (idx + 1) = op.clients.take idx ++ [c] := by
    rw [List.take_add_one, hget]
    rfl
  unfold cleanClients
  rw [h.maxClients, if_pos hlt, hget', Option.map_some, Option.getD_some]
  by_cases hexp : expired now c = true
  · rw [if_pos hexp]
    refine ⟨_, rfl, h.maxClients, fun j => ?_, ?_, ?_⟩
    · show (op'.clients.modify idx shutSlot)[j]? = _
      rw [List.getElem?_modify, h.clients]
      by_cases hj : idx = j
      · subst hj
        simp [hget, sweep, hexp]
      · have hiff : j < idx ↔ j < idx + 1 := by omega
        simp [hj, hiff]
    · show op'.closed ++ _ = _
      have hfd : (clientShutdown c.cli).2 = [c.cli.ctx.fd] :=
        clientShutdown_closes (expired_busy hexp)
      rw [hget', htake, h.closed]
      simp [hexp, hfd]
    · show decr32 op'.activeClients + _ = _
      -- the slots the walk has freed and this one are among those it will free
      have hle : (op.clients.take (idx + 1)).countP (expired now) ≤
          op.clients.countP (expired now) :=
        (List.take_sublist _ _).countP_le
      have hactive := h.active
      rw [htake, List.countP_append, List.countP_singleton, if_pos hexp] at hle ⊢
      rw [decr32_of_pos (by omega) (by omega)]
      omega
  · rw [if_neg hexp]
    refine ⟨_, rfl, h.maxClients, fun j => ?_, ?_, ?_⟩
    · rw [h.clients]
      by_cases hj : idx = j
      · subst hj
        simp [hget, sweep, hexp]
      · have hiff : j < idx ↔ j < idx + 1 := by omega
        simp [hiff]
    · rw [htake, h.closed]
      simp [hexp]
    · have hactive := h.active
      rw [htake, List.countP_append, List.countP_singleton, if_neg hexp]
      exact hactive

/-! ## The tick -/

/-- The thread is in the walk; what the others do does not matter. -/
def Walking (s : Mailbox H) : MailboxAct H → Prop
  | .thread _ => ∃ idx now, s.code.head? = some (.cleanClients idx now)
  | _ => True

/-- What a tick makes of an operator's slots. -/
structure Evicted (now : Nat) (op op' : Operator H) : Prop where
  overdue : ∀ (idx : Nat) (c : Conn H), op.clients[idx]? = some c → Overdue now c →
    op'.clients[idx]? = some (shutSlot c) ∧ (shutSlot c).cli.isBusy = false
  others : ∀ (idx : Nat) (c : Conn H), op.clients[idx]? = some c → ¬Overdue now c →
    op'.clients[idx]? = some c
  closed : op'.closed =
    op.closed ++ (op.clients.filter fun c => Overdue now c).map fun c => c.cli.ctx.fd
  active : op'.activeClients + op.clients.countP (fun c => Overdue now c) = op.activeClients

/-- Behind the last slot. -/
theorem Swept.evicted (h : Swept now op op.maxClients op')
    (htable : op.clients.length = op.maxClients)
    (hexpired : ∀ c ∈ op.clients, expired now c = true ↔ Overdue now c) : Evicted now op op' := by
  have hsame : ∀ c ∈ op.clients, expired now c = decide (Overdue now c) := fun c hc =>
    Bool.eq_iff_iff.mpr ((hexpired c hc).trans decide_eq_true_iff.symm)
  have hslot : ∀ {idx : Nat} {c : Conn H}, op.clients[idx]? = some c →
      op'.clients[idx]? = some (sweep now c) := by
    intro idx c hget
    have hlt : idx < op.maxClients := htable ▸ (List.getElem?_eq_some_iff.mp hget).1
    rw [h.clients, hget, Option.map_some, if_pos hlt]
  have hall : op.clients.take op.maxClients = op.clients := List.take_of_length_le (by omega)
  refine ⟨fun idx c hget hdue => ?_, fun idx c hget hdue => ?_, ?_, ?_⟩
  · have hexp := (hexpired c (List.mem_of_getElem? hget)).mpr hdue
    rw [hslot hget, sweep, if_pos hexp]
    exact ⟨rfl, clientShutdown_isBusy c.cli⟩
  · have hexp := mt (hexpired c (List.mem_of_getElem? hget)).mp hdue
    rw [hslot hget, sweep, if_neg hexp]
  · rw [h.closed, hall, List.filter_congr hsame]
  · have hcount : op.clients.countP (expired now) = op.clients.countP fun c => Overdue now c :=
      List.countP_congr fun c hc => by rw [hsame c hc]
    rw [← h.active, hall, hcount]

/-- Where the tick stands that found the operator as `op`. -/
inductive Ticking (now : Nat) (op : Operator H) (after : List Instr) (s : Mailbox H) : Prop where
  | walking {idx : Nat} : idx ≤ op.maxClients → Swept now op idx s.op →
      s.code = .cleanClients idx now :: after → Ticking now op after s
  | done : Swept now op op.maxClients s.op → s.code = after → Ticking now op after s

section

variable {after : List Instr} (htable : op.clients.length = op.maxClients)
  (hcounted : op.clients.countP (expired now) ≤ op.activeClients)
  (hwidth : op.activeClients < 2 ^ 32)
include htable hcounted hwidth

/-- The walk's next step cannot be refused, and it gets the walk on. -/
theorem Swept.goes_on (hswept : Swept now op idx s.op) (hle : idx ≤ op.maxClients)
    (hcode : s.code = .cleanClients idx now :: after) (w : Answers H) :
    ∃ t, (mailbox H).step s (.thread w) = some t ∧ Ticking now op after t ∧
      t.code = if idx = op.maxClients then after else .cleanClients (idx + 1) now :: after := by
  have hstep : ∀ op' new, s.op.cleanClients idx now = (op', new) →
      (mailbox H).step s (.thread w) = some { s with thread := ⟨op', new ++ after⟩ } := by
    intro op' new heq
    have hexec : Operator.exec s.op (.cleanClients idx now) w = some (op', new) :=
      congrArg some heq
    exact congrArg (Option.map _) (Thread.step_eq_some.mpr ⟨_, after, _, _, hcode, hexec, rfl⟩)
  by_cases hend : idx = op.maxClients
  · have hover : s.op.cleanClients idx now = (s.op, []) := by
      rw [cleanClients, hswept.maxClients, if_neg (by omega)]
    refine ⟨_, hstep _ _ hover, .done (hend ▸ hswept) rfl, ?_⟩
    rw [if_pos hend]
    rfl
  · have hlt : idx < op.maxClients := by omega
    obtain ⟨c, hget⟩ : ∃ c, op.clients[idx]? = some c :=
      ⟨_, List.getElem?_eq_getElem (htable ▸ hlt)⟩
    obtain ⟨op', heq, hnext⟩ := hswept.step hget hcounted hwidth hlt
    refine ⟨_, hstep _ _ heq, .walking hlt hnext rfl, ?_⟩
    rw [if_neg hend]
    rfl

/-- **Whatever happens around it, the walk stays on its way.** -/
theorem ticking_reachable {es : List Event} {rest : List Instr} {s₁ : Mailbox H}
    (hstart : Ticking now op (.events es :: rest) s₁)
    (h : ((mailbox H).startingAt s₁).ReachableBy Walking t) :
    Ticking now op (.events es :: rest) t := by
  refine h.invariant (P := Ticking now op (.events es :: rest)) ?_ ?_
  · rintro s rfl
    exact hstart
  · intro s a t _ hs hwalking (hstep : (mailbox H).step s a = some t)
    have hsame : t.op.maxClients = s.op.maxClients → t.op.clients = s.op.clients →
        t.op.closed = s.op.closed → t.op.activeClients = s.op.activeClients →
        t.code = s.code → Ticking now op (.events es :: rest) t := by
      intro hmax hclients hclosed hactive hcode
      cases hs with
      | walking hle hswept hwalk =>
          exact .walking hle (hswept.congr hmax hclients hclosed hactive) (hcode.trans hwalk)
      | done hswept hdone =>
          exact .done (hswept.congr hmax hclients hclosed hactive) (hcode.trans hdone)
    cases a with
    | thread w =>
        cases hs with
        | walking hle hswept hwalk =>
            obtain ⟨u, hu, hticking, -⟩ :=
              hswept.goes_on htable hcounted hwidth hle hwalk w
            obtain rfl := Option.some.inj (hstep.symm.trans hu)
            exact hticking
        | done hswept hdone =>
            obtain ⟨idx, now', hhead⟩ := hwalking
            rw [hdone] at hhead
            exact absurd hhead (by simp)
    | _ =>
        cases mailbox_step hstep
        exact hsame rfl rfl rfl rfl rfl

end

/--
**One tick evicts exactly the expired clients.** From the moment a timer event has read
its timer, whatever the dispatcher and a shutdown request do meanwhile: each step of the
thread brings the walk one slot further, and when it is through the expired clients are
closed, their slots are free, the other slots are as they were, and the client count is
down by the number of the former.
-/
theorem tick_evicts_expired {e : Event} {es : List Event} {rest : List Instr} {fd : Int}
    (hcode : s.code = .events (e :: es) :: rest)
    (htimer : reactorDispatch true (s.op.ctx e.reg.key) e.events = .call .operatorTimer fd)
    (hread : w.timerRead = true) (htable : s.op.clients.length = s.op.maxClients)
    (hcounted : s.op.clients.countP (fun c => c.cli.isBusy) ≤ s.op.activeClients)
    (hwidth : s.op.activeClients < 2 ^ 32)
    (hclock : ∀ c ∈ s.op.clients, c.cli.isBusy = true →
      c.cli.lastActivity ≤ timeHelperGetNow w.wall) :
    ∃ s₁, (mailbox H).step s (.thread w) = some s₁ ∧
      ∀ t, ((mailbox H).startingAt s₁).ReachableBy Walking t →
        (t.code = .events es :: rest ∧ Evicted (timeHelperGetNow w.wall) s.op t.op) ∨
        ∃ idx ≤ s.op.maxClients,
          t.code = .cleanClients idx (timeHelperGetNow w.wall) :: .events es :: rest ∧
          ∀ w', ∃ u, (mailbox H).step t (.thread w') = some u ∧
            u.code = if idx = s.op.maxClients then .events es :: rest
              else .cleanClients (idx + 1) (timeHelperGetNow w.wall) :: .events es :: rest := by
  -- below 2^32 the subtraction of the code is the one of the statement
  have hexpired : ∀ c ∈ s.op.clients,
      expired (timeHelperGetNow w.wall) c = true ↔ Overdue (timeHelperGetNow w.wall) c :=
    fun c hc => expired_iff (timeHelperGetNow_lt w.wall) (hclock c hc)
  have hle : s.op.clients.countP (expired (timeHelperGetNow w.wall)) ≤ s.op.activeClients :=
    (List.countP_mono_left fun c _ hexp => expired_busy hexp).trans hcounted
  have hexec : Operator.exec s.op (.events (e :: es)) w = some (s.op.timerUpdate,
      [.cleanClients 0 (timeHelperGetNow w.wall), .events es]) := by
    show Operator.handleEvent s.op e es w = _
    rw [Operator.handleEvent, htimer]
    simp only [hread, if_true]
  refine ⟨_, congrArg (Option.map _) (Thread.step_eq_some.mpr ⟨_, rest, _, _, hcode, hexec, rfl⟩),
    fun t ht => ?_⟩
  -- the walk starts at the first slot, with the table as the tick found it
  have hstart : Ticking (timeHelperGetNow w.wall) s.op (.events es :: rest)
      { s with thread := ⟨s.op.timerUpdate,
        [.cleanClients 0 (timeHelperGetNow w.wall), .events es] ++ rest⟩ } := by
    obtain ⟨p, hp⟩ := timerUpdate_eq s.op
    rw [hp]
    exact .walking (Nat.zero_le _) (.start rfl rfl rfl rfl) rfl
  have hticking := ticking_reachable htable hle hwidth hstart ht
  cases hticking with
  | walking hidx hswept hwalk =>
      refine .inr ⟨_, hidx, hwalk, fun w' => ?_⟩
      obtain ⟨u, hu, -, hnext⟩ := hswept.goes_on htable hle hwidth hidx hwalk w'
      exact ⟨u, hu, hnext⟩
  | done hswept hdone => exact .inl ⟨hdone, hswept.evicted htable hexpired⟩

/-- A minute after their last bytes two clients are overdue, one behind the other, and go; the
third's came later, and it stays. -/
theorem tick_evicts_expired_two : ∃ (s s₁ : Mailbox DbHttp.small) (c d e : Conn DbHttp.small),
    s.op.clients[0]? = some c ∧ s.op.clients[1]? = some d ∧ s.op.clients[2]? = some e ∧
    Overdue 60 c ∧ Overdue 60 d ∧ ¬ Overdue 60 e ∧
    (mailbox DbHttp.small).step s (.thread (Answers.smooth [] 60)) = some s₁ ∧
    ∀ t, ((mailbox DbHttp.small).startingAt s₁).ReachableBy Walking t →
      t.code.head? = some (.events []) →
      t.op.clients[0]? = some (shutSlot c) ∧ t.op.clients[1]? = some (shutSlot d) ∧
        t.op.clients[2]? = some e ∧ t.op.closed = [7, 8] ∧ t.op.activeClients = 1 := by
  let shows (c : Conn DbHttp.small) := (c.cli.isBusy, c.cli.requestCount, c.cli.lastActivity)
  obtain ⟨s, -, hready⟩ := (small_reachable (n := 4) (by decide)).exists_of_run
    (threadSteps 3 0 ++ adoptNext 7 0 ++ adoptNext 8 0 ++ adoptNext 9 50 ++
      [.thread (Answers.smooth [timerEvent] 60)])
    (fun s => s.code == [.events [timerEvent], .loopActive] &&
      s.op.timerCtx == ⟨4, some 0, some .operatorTimer⟩ && s.op.maxClients == 4 &&
      s.op.activeClients == 3 && s.op.clients.map shows ==
        [(true, 0, 0), (true, 0, 0), (true, 0, 50), (false, 0, 0)] &&
      s.op.closed ++ (s.op.clients.filter fun c => Overdue 60 c).map (fun c => c.cli.ctx.fd) ==
        [7, 8] && s.op.clients.countP (fun c => Overdue 60 c) == 2)
    (by decide +kernel)
  simp only [Bool.and_eq_true, beq_iff_eq] at hready
  obtain ⟨⟨⟨⟨⟨⟨hcode, htimer⟩, hmax⟩, hactive⟩, hclients⟩, hclosed⟩, hgone⟩ := hready
  have hshown : ∀ idx : Nat, (s.op.clients[idx]?).map shows =
      [(true, 0, 0), (true, 0, 0), (true, 0, 50), (false, 0, 0)][idx]? := fun idx => by
    rw [← List.getElem?_map, hclients]
  obtain ⟨c, hc, hcshown⟩ := Option.map_eq_some_iff.mp (hshown 0)
  obtain ⟨d, hd, hdshown⟩ := Option.map_eq_some_iff.mp (hshown 1)
  obtain ⟨e, he, heshown⟩ := Option.map_eq_some_iff.mp (hshown 2)
  have hoverdue : ∀ c : Conn DbHttp.small, shows c = (true, 0, 0) → Overdue 60 c := by
    intro c hshow
    obtain ⟨hbusy, hcount, hlast⟩ : _ ∧ _ ∧ _ := by simpa [shows] using hshow
    simp [Overdue, hbusy, hcount, hlast, workerClientTimeoutShort]
  have hspared : ¬ Overdue 60 e := by
    obtain ⟨_, hcount, hlast⟩ : _ ∧ _ ∧ _ := by simpa [shows] using heshown
    simp [Overdue, hcount, hlast, workerClientTimeoutShort]
  have hlength : s.op.clients.length = 4 := by simpa using congrArg List.length hclients
  have hcounted : s.op.clients.countP (fun c => c.cli.isBusy) = 3 := by
    have hmap := congrArg (List.countP Prod.fst) hclients
    rwa [List.countP_map] at hmap
  have hnow : timeHelperGetNow (Answers.smooth [] 60).wall = 60 := by decide
  obtain ⟨s₁, hstep, hall⟩ := tick_evicts_expired (w := Answers.smooth [] 60) hcode
    (by simp only [timerEvent, ctx, htimer]; rfl) rfl (by omega) (by omega) (by omega)
    (by
      intro f hf _
      have hmem := List.mem_map_of_mem (f := shows) hf
      rw [hclients] at hmem
      have hlast : f.cli.lastActivity = 0 ∨ f.cli.lastActivity = 50 := by
        simp only [shows, List.mem_cons, Prod.mk.injEq, List.not_mem_nil, or_false] at hmem
        omega
      omega)
  refine ⟨s, s₁, c, d, e, hc, hd, he, hoverdue c hcshown, hoverdue d hdshown, hspared, hstep,
    fun t ht hhead => ?_⟩
  rcases hall t ht with ⟨-, hevicted⟩ | ⟨idx, -, hwalk, -⟩
  · rw [hnow] at hevicted
    have hfreed := hevicted.active
    exact ⟨(hevicted.overdue 0 c hc (hoverdue c hcshown)).1,
      (hevicted.overdue 1 d hd (hoverdue d hdshown)).1, hevicted.others 2 e he hspared,
      hevicted.closed.trans hclosed, by omega⟩
  · rw [hwalk] at hhead
    exact absurd hhead (by simp)

end DBServer.Proof
