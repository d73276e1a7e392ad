import DBServer.Worker.Server

/-!
# Which operator is chosen

`_least_loaded_operator` takes the first operator below a tenth of the client limit, or
else the first of least load. Both rules are one order on the operators that are not
`FULL` (`Before`), and `leastLoaded_chosen` says that the scan returns its first element.
Neither rule looks at the rings, which is what decides whether a dispatch can be refused
while there is room.
-/

namespace DBServer.Proof

open DBServer Lib

variable {H : DbHttp} {w w' : Worker H} {t t' : OperatorThread H}
  {ops rest : List (OperatorThread H)}
  {s : Scan} {limit R i j : Nat} {fd : Int}

/-! ## The order -/

/-- `effective_load`. -/
def load (t : OperatorThread H) : Nat := (t.state.activeClients + t.state.queuedClients) % 2 ^ 32

/-- Not skipped by the scan. -/
def Open (t : OperatorThread H) : Prop := t.state.status ≠ .full

instance (t : OperatorThread H) : Decidable (Open t) := by unfold Open; infer_instance

/-- Its ring takes no more. -/
def RingFull (t : OperatorThread H) : Prop := t.state.ringCapacity ≤ t.state.ring.length

/--
Operator `i` with load `a` is preferred to operator `j` with load `b`: loads below the
limit come first, by index; the others by load, then by index.
-/
def Before (limit a i b j : Nat) : Prop :=
  (a < limit ∧ (b < limit → i < j)) ∨ (limit ≤ a ∧ limit ≤ b ∧ (a < b ∨ a = b ∧ i < j))

theorem Before.asymm {a b : Nat} (h : Before limit a i b j) : ¬Before limit b j a i := by
  unfold Before at h ⊢
  omega

/-- The first operator in the order, among those that are not `FULL`. -/
structure Chosen (limit : Nat) (ops : List (OperatorThread H)) (i : Nat) (t : OperatorThread H) :
    Prop where
  get : ops[i]? = some t
  isOpen : Open t
  first : ∀ j t', ops[j]? = some t' → Open t' → j ≠ i → Before limit (load t) i (load t') j

/-- What the scan is to return. -/
def Picked (limit : Nat) (ops : List (OperatorThread H)) : Option Nat → Prop
  | none => ∀ t ∈ ops, ¬Open t
  | some i => ∃ t, Chosen limit ops i t

/-! ## The scan -/

/-- What the scan knows after its first rounds: nothing blind so far, and the best so far. -/
structure Scanned (limit : Nat) (ops : List (OperatorThread H)) (s : Scan) : Prop where
  notBlind : ∀ j t, j < s.idx → ops[j]? = some t → Open t → limit ≤ load t
  allFull : s.bestLoad = uintMax → ∀ j t, j < s.idx → ops[j]? = some t → ¬Open t
  best : s.bestLoad ≠ uintMax → s.bestIdx < s.idx ∧
    ∃ t, ops[s.bestIdx]? = some t ∧ Open t ∧ load t = s.bestLoad ∧
      ∀ j t', j < s.idx → ops[j]? = some t' → Open t' →
        s.bestLoad ≤ load t' ∧ (j < s.bestIdx → s.bestLoad < load t')

theorem scanned_start (limit : Nat) (ops : List (OperatorThread H)) :
    Scanned limit ops Scan.start where
  notBlind := by
    intro j t hj
    exact absurd hj (Nat.not_lt_zero j)
  allFull := by
    intro _ j t hj
    exact absurd hj (Nat.not_lt_zero j)
  best := by
    intro hne
    exact absurd rfl hne

/-- A `FULL` operator is skipped. -/
theorem Scanned.next (h : Scanned limit ops s) (hget : ops[s.idx]? = some t) (hfull : ¬Open t) :
    Scanned limit ops s.next := by
  have hlast : ∀ j t', j < s.next.idx → ops[j]? = some t' → Open t' → j < s.idx := by
    intro j t' hj hget' hopen
    rcases Nat.lt_succ_iff_lt_or_eq.mp hj with hj | rfl
    · exact hj
    · rw [hget] at hget'
      exact absurd (Option.some.inj hget' ▸ hopen) hfull
  refine ⟨?_, ?_, ?_⟩
  · intro j t' hj hget' hopen
    exact h.notBlind j t' (hlast j t' hj hget' hopen) hget' hopen
  · intro hmax j t' hj hget' hopen
    exact h.allFull hmax j t' (hlast j t' hj hget' hopen) hget' hopen
  · intro hne
    obtain ⟨hlt, t₀, hget₀, hopen₀, hload₀, hmin⟩ := h.best hne
    refine ⟨Nat.lt_succ_of_lt hlt, t₀, hget₀, hopen₀, hload₀, ?_⟩
    intro j t' hj hget' hopen
    exact hmin j t' (hlast j t' hj hget' hopen) hget' hopen

/-- A round that goes on has taken the operator into account. -/
theorem Scanned.compare {s' : Scan} {maxClients : Nat} (h : Scanned (maxClients / 10) ops s)
    (hget : ops[s.idx]? = some t) (hopen : Open t) (hload : load t < uintMax)
    (hround : s.compare maxClients t.state.activeClients t.state.queuedClients = .inr s') :
    Scanned (maxClients / 10) ops s' ∧ s'.idx = s.idx + 1 ∧ s'.bestLoad ≠ uintMax := by
  -- the operators seen so far, the one of this round among them
  have hlast : ∀ j t', j < s.idx + 1 → ops[j]? = some t' → j < s.idx ∨ j = s.idx ∧ t' = t := by
    intro j t' hj hget'
    rcases Nat.lt_succ_iff_lt_or_eq.mp hj with hj | rfl
    · exact .inl hj
    · rw [hget] at hget'
      exact .inr ⟨rfl, (Option.some.inj hget').symm⟩
  unfold Scan.compare at hround
  change (if load t < maxClients / 10 then _ else if load t < s.bestLoad then _ else _) = _ at hround
  split at hround
  · exact absurd hround (by simp)
  rename_i hblind
  have hnotBlind : ∀ j t', j < s.idx + 1 → ops[j]? = some t' → Open t' →
      maxClients / 10 ≤ load t' := by
    intro j t' hj hget' hopen'
    rcases hlast j t' hj hget' with hj | ⟨rfl, rfl⟩
    · exact h.notBlind j t' hj hget' hopen'
    · exact Nat.le_of_not_lt hblind
  split at hround
  · -- the operator is better than all before it
    rename_i hbetter
    obtain rfl := Sum.inr.inj hround
    refine ⟨⟨hnotBlind, fun hmax => absurd hmax (Nat.ne_of_lt hload), ?_⟩, rfl, Nat.ne_of_lt hload⟩
    intro _
    refine ⟨Nat.lt_succ_self _, t, hget, hopen, rfl, ?_⟩
    intro j t' hj hget' hopen'
    rcases hlast j t' hj hget' with hj | ⟨rfl, rfl⟩
    · by_cases hmax : s.bestLoad = uintMax
      · exact absurd hopen' (h.allFull hmax j t' hj hget')
      · obtain ⟨_, _, _, _, _, hmin⟩ := h.best hmax
        have hle := (hmin j t' hj hget' hopen').1
        have hlt : load t < load t' := by
          have hbest : load t < s.bestLoad := hbetter
          omega
        exact ⟨hlt.le, fun _ => hlt⟩
    · exact ⟨le_rfl, fun hlt => absurd hlt (Nat.lt_irrefl _)⟩
  · -- an earlier operator stays the best one, ties included
    rename_i hworse
    obtain rfl := Sum.inr.inj hround
    have hne : s.bestLoad ≠ uintMax := by omega
    refine ⟨⟨hnotBlind, fun hmax => absurd hmax hne, ?_⟩, rfl, hne⟩
    intro _
    obtain ⟨hlt, t₀, hget₀, hopen₀, hload₀, hmin⟩ := h.best hne
    refine ⟨Nat.lt_succ_of_lt hlt, t₀, hget₀, hopen₀, hload₀, ?_⟩
    intro j t' hj hget' hopen'
    rcases hlast j t' hj hget' with hj | ⟨rfl, rfl⟩
    · exact hmin j t' hj hget' hopen'
    · exact ⟨Nat.le_of_not_lt hworse, fun hlt' => absurd hlt' (by simp only [Scan.next]; omega)⟩

/-- A round that ends the scan has found the first operator below the limit. -/
theorem Scanned.blind {maxClients : Nat} (h : Scanned (maxClients / 10) ops s)
    (hget : ops[s.idx]? = some t) (hopen : Open t)
    (hround : s.compare maxClients t.state.activeClients t.state.queuedClients = .inl i) :
    Chosen (maxClients / 10) ops i t := by
  unfold Scan.compare at hround
  change (if load t < maxClients / 10 then _ else if load t < s.bestLoad then _ else _) = _ at hround
  split at hround
  · rename_i hblind
    obtain rfl := Sum.inl.inj hround
    refine ⟨hget, hopen, ?_⟩
    intro j t' hget' hopen' hne
    refine .inl ⟨hblind, ?_⟩
    intro hblind'
    by_contra hlt
    have hle := h.notBlind j t' (by omega) hget' hopen'
    omega
  · split at hround <;> exact absurd hround (by simp)

/-- What the scan returns behind its last round. -/
theorem Scanned.result (h : Scanned limit ops s) (hidx : ops.length ≤ s.idx) :
    Picked limit ops s.result := by
  have hlt : ∀ {j : Nat} {t : OperatorThread H}, ops[j]? = some t → j < s.idx := by
    intro j t hget
    exact Nat.lt_of_lt_of_le (List.getElem?_eq_some_iff.mp hget).1 hidx
  unfold Scan.result
  split
  · rename_i hmax
    intro t ht
    obtain ⟨j, hget⟩ := List.mem_iff_getElem?.mp ht
    exact h.allFull hmax j t (hlt hget) hget
  · rename_i hne
    obtain ⟨_, t, hget, hopen, hload, hmin⟩ := h.best hne
    refine ⟨t, hget, hopen, ?_⟩
    intro j t' hget' hopen' hji
    obtain ⟨hle, hfirst⟩ := hmin j t' (hlt hget') hget' hopen'
    have hblind := h.notBlind _ t (hlt hget) hget hopen
    have hblind' := h.notBlind j t' (hlt hget') hget' hopen'
    refine .inr ⟨hblind, hblind', ?_⟩
    rcases Nat.lt_trichotomy j s.bestIdx with hlt' | heq | hgt
    · exact .inl (by rw [hload]; exact hfirst hlt')
    · exact absurd heq hji
    · rcases Nat.lt_or_eq_of_le hle with hlt' | heq
      · exact .inl (by omega)
      · exact .inr ⟨by omega, hgt⟩

/-- The rounds that are left lead to the choice, and never take the worker for full. -/
theorem scanOperators_chosen (maxClients : Nat) (hload : ∀ t ∈ ops, load t < uintMax) :
    ∀ (rest : List (OperatorThread H)) (s : Scan), ops.drop s.idx = rest →
      Scanned (maxClients / 10) ops s →
      Picked (maxClients / 10) ops (scanOperators maxClients ops.length rest false s).1 ∧
      (scanOperators maxClients ops.length rest false s).2 = false := by
  intro rest
  induction rest with
  | nil =>
      intro s hrest h
      exact ⟨h.result (List.drop_eq_nil_iff.mp hrest), rfl⟩
  | cons t rest ih =>
      intro s hrest h
      have hget : ops[s.idx]? = some t := by
        rw [← List.head?_drop, hrest, List.head?_cons]
      have htail : ops.drop (s.idx + 1) = rest := by
        rw [← List.tail_drop, hrest, List.tail_cons]
      rw [scanOperators]
      split
      · rename_i hfull
        exact ih s.next htail (h.next hget (fun hopen => hopen hfull))
      · rename_i hopen
        split
        · rename_i i hround
          exact ⟨⟨t, h.blind hget hopen hround⟩, rfl⟩
        · rename_i s' hround
          obtain ⟨h', hidx, hne⟩ :=
            h.compare hget hopen (hload t (List.mem_of_getElem? hget)) hround
          have hsat : (false || s'.saturated ops.length) = false := by
            simp [Scan.saturated, hne]
          rw [hsat]
          exact ih s' (by rw [hidx]; exact htail) h'

/-- **The scan returns the first operator in the order**, and nothing if all are `FULL`. -/
theorem leastLoaded_chosen (hload : ∀ t ∈ w.operators, load t < uintMax) :
    Picked (w.maxClients / 10) w.operators (leastLoadedOperator w).1 ∧
    (leastLoadedOperator w).2 = w := by
  obtain ⟨hchosen, hfull⟩ := scanOperators_chosen w.maxClients hload w.operators Scan.start rfl
    (scanned_start _ _)
  refine ⟨hchosen, ?_⟩
  simp only [leastLoadedOperator, hfull]
  rfl

/-! ## One dispatch -/

/-- A worker as the configuration and its operators' counters admit it. -/
structure Admitted (w : Worker H) (R : Nat) : Prop where
  status : w.status = .active
  ringCapacity : RingCapacity R
  maxClients : MaxClients w.maxClients
  healthy : ∀ t ∈ w.operators, t.state.healthy = true
  capacity : ∀ t ∈ w.operators, t.state.ringCapacity = R ∧ t.state.ring.length ≤ R
  slots : ∀ t ∈ w.operators, t.state.maxClients = w.maxClients ∧
    t.state.activeClients ≤ w.maxClients
  /-- At most one descriptor is popped and not yet counted back. -/
  queued : ∀ t ∈ w.operators, t.state.ring.length ≤ t.state.queuedClients ∧
    t.state.queuedClients ≤ t.state.ring.length + 1

theorem Admitted.load_eq (h : Admitted w R) (ht : t ∈ w.operators) :
    load t = t.state.activeClients + t.state.queuedClients ∧ load t < uintMax := by
  have hring := (h.capacity t ht).2
  have hactive := (h.slots t ht).2
  have hqueued := (h.queued t ht).2
  have hR := h.ringCapacity.2.1
  have hmax := h.maxClients.2
  have heq : load t = t.state.activeClients + t.state.queuedClients := Nat.mod_eq_of_lt (by omega)
  refine ⟨heq, ?_⟩
  rw [heq, uintMax]
  omega

/-- What a dispatch comes to. -/
inductive Dispatched (fd : Int) (w : Worker H) : Status × Worker H → Prop where
  | allFull : (∀ t ∈ w.operators, ¬Open t) → Dispatched fd w (.failure, w)
  | ringFull {i : Nat} {t : OperatorThread H} : Chosen (w.maxClients / 10) w.operators i t →
      RingFull t → Dispatched fd w (.failure, w)
  | taken {i : Nat} {t : OperatorThread H} : Chosen (w.maxClients / 10) w.operators i t →
      ¬RingFull t → Dispatched fd w (.success, w.update i fun _ =>
        ({ t.state with ring := t.state.ring ++ [fd] } : Operator H).enqueued.wake)

theorem dispatch_cases (h : Admitted w R) (hfd : 0 ≤ fd) :
    Dispatched fd w (workerDispatchToOperator fd w) := by
  have hvalid : ¬(fd < 0 ∨ w.status ≠ .active) := by
    rintro (hneg | hinactive)
    · omega
    · exact hinactive h.status
  obtain ⟨hpicked, hsame⟩ := leastLoaded_chosen fun t ht => (h.load_eq ht).2
  rw [workerDispatchToOperator, if_neg hvalid]
  generalize leastLoadedOperator w = out at hpicked hsame
  obtain ⟨choice, w'⟩ := out
  obtain rfl : w' = w := hsame
  cases choice with
  | none => exact .allFull hpicked
  | some i =>
      obtain ⟨t, hchosen⟩ := hpicked
      have hhealthy := h.healthy t (List.mem_of_getElem? hchosen.get)
      simp only [hchosen.get, hhealthy, Bool.not_true, Bool.false_eq_true, if_false, Operator.push]
      by_cases hroom : t.state.ring.length < t.state.ringCapacity
      · rw [if_pos hroom]
        exact .taken hchosen (Nat.not_le.mpr hroom)
      · rw [if_neg hroom]
        exact .ringFull hchosen (Nat.le_of_not_lt hroom)

/-- A refusal means that there is no room anywhere. -/
def Conserving (fd : Int) (w : Worker H) : Prop :=
  (workerDispatchToOperator fd w).1 = .failure → ∀ t ∈ w.operators, ¬Open t ∨ RingFull t

/-- There is no room anywhere, or an operator with room comes before all that have a full ring. -/
def RoomFirst (limit : Nat) (ops : List (OperatorThread H)) : Prop :=
  (∀ t ∈ ops, ¬Open t ∨ RingFull t) ∨
    ∃ j t', ops[j]? = some t' ∧ Open t' ∧ ¬RingFull t' ∧ ∀ i t, ops[i]? = some t → Open t →
      RingFull t → Before limit (load t') j (load t) i

theorem conserving_iff (h : Admitted w R) (hfd : 0 ≤ fd) :
    Conserving fd w ↔ RoomFirst (w.maxClients / 10) w.operators := by
  have hcases := dispatch_cases h hfd
  unfold Conserving
  generalize workerDispatchToOperator fd w = out at hcases
  constructor
  · intro hconserving
    cases hcases with
    | allFull hall => exact .inl fun t ht => .inl (hall t ht)
    | ringFull hchosen hfull => exact .inl (hconserving rfl)
    | @taken i t hchosen hroom =>
        refine .inr ⟨i, t, hchosen.get, hchosen.isOpen, hroom, ?_⟩
        intro j t' hget hopen hfull
        refine hchosen.first j t' hget hopen ?_
        rintro rfl
        rw [hchosen.get] at hget
        exact hroom (Option.some.inj hget ▸ hfull)
  · intro hfirst hfailed
    rcases hfirst with hstuck | ⟨j, t', hget, hopen, hroom, hbefore⟩
    · exact hstuck
    · cases hcases with
      | allFull hall => exact absurd hopen (hall t' (List.mem_of_getElem? hget))
      | @ringFull i t hchosen hfull =>
          -- the chosen operator comes first, and so does the one with room
          have hne : j ≠ i := by
            rintro rfl
            rw [hchosen.get] at hget
            exact hroom (Option.some.inj hget ▸ hfull)
          exact absurd (hbefore i t hchosen.get hchosen.isOpen hfull)
            (hchosen.first j t' hget hopen hne).asymm
      | taken hchosen hroom => exact absurd hfailed (by simp)

/-! ## Dispatches with nobody draining -/

/-- How much lies in the rings. -/
def inRings (ops : List (OperatorThread H)) : Nat := (ops.map fun t => t.state.ring.length).sum

theorem inRings_le (h : ∀ t ∈ ops, t.state.ring.length ≤ R) : inRings ops ≤ ops.length * R := by
  induction ops with
  | nil => simp [inRings]
  | cons t ops ih =>
      have htail := ih fun t' ht' => h t' (.tail _ ht')
      have hhead := h t (.head _)
      simp only [inRings, List.map_cons, List.sum_cons, List.length_cons, Nat.succ_mul] at htail ⊢
      omega

/-- They hold as much as they can when every one of them is full. -/
theorem inRings_eq_iff (h : ∀ t ∈ ops, t.state.ring.length ≤ R) :
    inRings ops = ops.length * R ↔ ∀ t ∈ ops, t.state.ring.length = R := by
  induction ops with
  | nil => simp [inRings]
  | cons t ops ih =>
      have hrest : ∀ t' ∈ ops, t'.state.ring.length ≤ R := fun t' ht' => h t' (.tail _ ht')
      have htail := ih hrest
      have hle := inRings_le hrest
      have hhead := h t (.head _)
      simp only [inRings, List.map_cons, List.sum_cons, List.length_cons, Nat.succ_mul,
        List.forall_mem_cons] at htail hle ⊢
      rw [← htail]
      omega

theorem inRings_modify {op : Operator H} (hget : ops[i]? = some t)
    (hring : op.ring.length = t.state.ring.length + 1) :
    inRings (ops.modify i fun t => ⟨op, t.code⟩) = inRings ops + 1 := by
  induction ops generalizing i with
  | nil => exact absurd hget (by simp)
  | cons t' ops ih =>
      cases i with
      | zero =>
          obtain rfl : t' = t := by simpa using hget
          simp only [inRings, List.modify_zero_cons, List.map_cons, List.sum_cons, hring]
          omega
      | succ i =>
          have htail := ih (i := i) (by simpa using hget)
          simp only [inRings, List.modify_succ_cons, List.map_cons, List.sum_cons] at htail ⊢
          omega

/-- What an operator's load has beside its ring: its clients, and a decrement still to come. -/
def base (t : OperatorThread H) : Nat :=
  t.state.activeClients + (t.state.queuedClients - t.state.ring.length)

theorem Admitted.load_base (h : Admitted w R) (ht : t ∈ w.operators) :
    load t = base t + t.state.ring.length := by
  have hqueued := (h.queued t ht).1
  rw [(h.load_eq ht).1, base]
  omega

theorem Admitted.ringFull_iff (h : Admitted w R) (ht : t ∈ w.operators) :
    RingFull t ↔ t.state.ring.length = R := by
  obtain ⟨hcap, hle⟩ := h.capacity t ht
  unfold RingFull
  omega

/-- A lighter operator is preferred as well, and to a heavier one as well. -/
theorem Before.mono {a a' b b' : Nat} (h : Before limit a i b j) (ha : a' ≤ a) (hb : b ≤ b') :
    Before limit a' i b' j := by
  unfold Before at h ⊢
  omega

/--
Whoever has room is not `FULL`, and with one place left in its ring it is preferred to every
other operator, that one's ring being full.
-/
def FillsUp (limit R : Nat) (ops : List (OperatorThread H)) : Prop :=
  ∀ j t, ops[j]? = some t → ¬RingFull t → Open t ∧
    ∀ i t', ops[i]? = some t' → Open t' → i ≠ j → Before limit (base t + R - 1) j (base t' + R) i

/-- Without clients it comes down to the configuration: the blind limit does not exceed a ring. -/
theorem fillsUp_idle_iff (hR : 0 < R) (h : ∀ t ∈ ops, Open t ∧ ¬RingFull t ∧ base t = 0) :
    FillsUp limit R ops ↔ limit ≤ R ∨ ops.length ≤ 1 := by
  constructor
  · intro hfills
    by_contra hnot
    obtain ⟨hlimit, hmany⟩ := not_or.mp hnot
    obtain ⟨t₀, hget₀⟩ : ∃ t, ops[0]? = some t := ⟨ops[0], List.getElem?_eq_getElem (by omega)⟩
    obtain ⟨t₁, hget₁⟩ : ∃ t, ops[1]? = some t := ⟨ops[1], List.getElem?_eq_getElem (by omega)⟩
    obtain ⟨hopen₀, _, hbase₀⟩ := h t₀ (List.mem_of_getElem? hget₀)
    obtain ⟨_, hroom₁, hbase₁⟩ := h t₁ (List.mem_of_getElem? hget₁)
    -- below the limit an operator with room yields to a full one in front of it
    have hbefore := (hfills 1 t₁ hget₁ hroom₁).2 0 t₀ hget₀ hopen₀ (by decide)
    rw [hbase₀, hbase₁] at hbefore
    unfold Before at hbefore
    omega
  · intro hlimit j t hget _
    obtain ⟨hopen, _, hbase⟩ := h t (List.mem_of_getElem? hget)
    refine ⟨hopen, fun i t' hget' _ hi => ?_⟩
    obtain ⟨_, _, hbase'⟩ := h t' (List.mem_of_getElem? hget')
    have hj := (List.getElem?_eq_some_iff.mp hget).1
    have hi' := (List.getElem?_eq_some_iff.mp hget').1
    rw [hbase, hbase']
    unfold Before
    omega

/-- The operators behind a dispatch to operator `i`. -/
theorem getElem?_taken {op : Operator H} (hget : ops[i]? = some t) (j : Nat) :
    (ops.modify i fun t => ⟨op, t.code⟩)[j]? = if j = i then some ⟨op, t.code⟩ else ops[j]? := by
  rw [List.getElem?_modify]
  by_cases hj : j = i
  · subst hj
    simp [hget]
  · simp [hj, Ne.symm hj]

/-- An operator that has taken a descriptor. -/
theorem enqueued_base (h : Admitted w R) (ht : t ∈ w.operators) (fd : Int) :
    base ⟨({ t.state with ring := t.state.ring ++ [fd] } : Operator H).enqueued.wake, t.code⟩ =
        base t ∧
      incr32 t.state.queuedClients = t.state.queuedClients + 1 := by
  obtain ⟨hcap, hring⟩ := h.capacity t ht
  obtain ⟨hlow, hhigh⟩ := h.queued t ht
  have hR := h.ringCapacity.2.1
  have hcount : incr32 t.state.queuedClients = t.state.queuedClients + 1 :=
    incr32_of_lt (m := t.state.queuedClients + 1) (Nat.lt_succ_self _) (by omega)
  refine ⟨?_, hcount⟩
  simp only [base, Operator.enqueued, Operator.wake, List.length_append, List.length_singleton,
    hcount]
  omega

/-- A dispatch that succeeds leaves the worker as the configuration admits it. -/
theorem Admitted.taken (h : Admitted w R) (hchosen : Chosen limit w.operators i t)
    (hroom : ¬RingFull t) (fd : Int) :
    Admitted (w.update i fun _ =>
      ({ t.state with ring := t.state.ring ++ [fd] } : Operator H).enqueued.wake) R := by
  have ht := List.mem_of_getElem? hchosen.get
  obtain ⟨hcap, hring⟩ := h.capacity t ht
  have hqueued := h.queued t ht
  have hcount := (enqueued_base h ht fd).2
  have hlt : t.state.ring.length < R := by
    rw [h.ringFull_iff ht] at hroom
    omega
  -- only the operator that was chosen has changed
  have hmem : ∀ t' ∈ (w.update i fun _ =>
      ({ t.state with ring := t.state.ring ++ [fd] } : Operator H).enqueued.wake).operators,
      t' ∈ w.operators ∨ t'.state =
        ({ t.state with ring := t.state.ring ++ [fd] } : Operator H).enqueued.wake := by
    intro t' ht'
    obtain ⟨j, hget⟩ := List.mem_iff_getElem?.mp ht'
    simp only [Worker.update, getElem?_taken hchosen.get] at hget
    split at hget
    · exact .inr (Option.some.inj hget ▸ rfl)
    · exact .inl (List.mem_of_getElem? hget)
  refine ⟨h.status, h.ringCapacity, h.maxClients, ?_, ?_, ?_, ?_⟩
  · intro t' ht'
    rcases hmem t' ht' with hold | hnew
    · exact h.healthy t' hold
    · rw [hnew]
      exact h.healthy t ht
  · intro t' ht'
    rcases hmem t' ht' with hold | hnew
    · exact h.capacity t' hold
    · rw [hnew]
      simp only [Operator.enqueued, Operator.wake, List.length_append, List.length_singleton]
      exact ⟨hcap, hlt⟩
  · intro t' ht'
    rcases hmem t' ht' with hold | hnew
    · exact h.slots t' hold
    · rw [hnew]
      exact h.slots t ht
  · intro t' ht'
    rcases hmem t' ht' with hold | hnew
    · exact h.queued t' hold
    · rw [hnew]
      simp only [Operator.enqueued, Operator.wake, List.length_append, List.length_singleton, hcount]
      omega

/-- **A dispatch that succeeds decides nothing**: the rings are going to be filled behind it
just in case they were going to be filled before it. -/
theorem Admitted.fillsUp_taken (h : Admitted w R) (hchosen : Chosen limit w.operators i t)
    (hroom : ¬RingFull t) (fd : Int) :
    FillsUp limit R (w.update i fun _ =>
      ({ t.state with ring := t.state.ring ++ [fd] } : Operator H).enqueued.wake).operators ↔
    FillsUp limit R w.operators := by
  have ht := List.mem_of_getElem? hchosen.get
  obtain ⟨hcap, hring⟩ := h.capacity t ht
  have hbase := (enqueued_base h ht fd).1
  have hlt : t.state.ring.length < R := by
    rw [h.ringFull_iff ht] at hroom
    omega
  unfold FillsUp
  simp only [Worker.update, getElem?_taken hchosen.get]
  generalize hop : ({ t.state with ring := t.state.ring ++ [fd] } : Operator H).enqueued.wake = op
    at hbase
  have hopen : Open ⟨op, t.code⟩ ↔ Open t := by rw [← hop]; rfl
  have hfull : RingFull ⟨op, t.code⟩ ↔ R ≤ t.state.ring.length + 1 := by
    rw [← hop]
    simp [RingFull, Operator.enqueued, Operator.wake, hcap]
  constructor
  · -- before it there was one more with room perhaps, the one that was chosen
    intro hfills j t₁ hget₁ hroom₁
    by_cases hj : j = i
    · subst hj
      obtain rfl : t₁ = t := Option.some.inj (hget₁.symm.trans hchosen.get)
      refine ⟨hchosen.isOpen, fun k t' hget' hopen' hk => ?_⟩
      have ht' := List.mem_of_getElem? hget'
      have hring' := (h.capacity t' ht').2
      by_cases hlast : R ≤ t₁.state.ring.length + 1
      · -- it got its last place because it was preferred to all others
        have hfirst := hchosen.first k t' hget' hopen' hk
        rw [h.load_base ht, h.load_base ht'] at hfirst
        exact hfirst.mono (by omega) (by omega)
      · have hbefore := (hfills j ⟨op, t₁.code⟩ (if_pos rfl) (by rw [hfull]; exact hlast)).2 k t'
          (by rw [if_neg hk]; exact hget') hopen' hk
        rwa [hbase] at hbefore
    · obtain ⟨hopen₁, hpair⟩ := hfills j t₁ (by rw [if_neg hj]; exact hget₁) hroom₁
      refine ⟨hopen₁, fun k t' hget' hopen' hk => ?_⟩
      by_cases hki : k = i
      · subst hki
        obtain rfl : t' = t := Option.some.inj (hget'.symm.trans hchosen.get)
        have hbefore := hpair k ⟨op, t'.code⟩ (if_pos rfl) (hopen.mpr hopen') hk
        rwa [hbase] at hbefore
      · exact hpair k t' (by rw [if_neg hki]; exact hget') hopen' hk
  · intro hfills j t₁ hget₁ hroom₁
    -- the same operators with the same bases, and whoever has room had room
    have hback : ∀ k t', (if k = i then some ⟨op, t.code⟩ else w.operators[k]?) = some t' →
        ∃ t₀, w.operators[k]? = some t₀ ∧ base t' = base t₀ ∧ (Open t' ↔ Open t₀) ∧
          (¬RingFull t' → ¬RingFull t₀) := by
      intro k t' hget'
      by_cases hk : k = i
      · subst hk
        rw [if_pos rfl] at hget'
        obtain rfl := Option.some.inj hget'
        exact ⟨t, hchosen.get, hbase, hopen, fun _ => hroom⟩
      · rw [if_neg hk] at hget'
        exact ⟨t', hget', rfl, Iff.rfl, id⟩
    obtain ⟨t₀, hget₀, hbase₀, hopen₀, hroom₀⟩ := hback j t₁ hget₁
    obtain ⟨hopen₁, hpair⟩ := hfills j t₀ hget₀ (hroom₀ hroom₁)
    refine ⟨hopen₀.mpr hopen₁, fun k t' hget' hopen' hk => ?_⟩
    obtain ⟨t'', hget'', hbase'', hopen'', _⟩ := hback k t' hget'
    rw [hbase₀, hbase'']
    exact hpair k t'' hget'' (hopen''.mp hopen') hk

/-- With no room anywhere there is nothing to be filled. -/
theorem fillsUp_of_full (h : ∀ t ∈ ops, RingFull t) : FillsUp limit R ops :=
  fun _ _ hget hroom => absurd (h _ (List.mem_of_getElem? hget)) hroom

/-- A refusal, and the rings that were going to be filled are filled. -/
theorem Admitted.full_of_refused (h : Admitted w R) {out : Worker H}
    (hcases : Dispatched fd w (.failure, out)) (hfills : FillsUp (w.maxClients / 10) R w.operators) :
    ∀ t ∈ w.operators, RingFull t := by
  intro t ht
  by_contra hroom
  obtain ⟨j, hget⟩ := List.mem_iff_getElem?.mp ht
  obtain ⟨hopen, hpair⟩ := hfills j t hget hroom
  cases hcases with
  | allFull hall => exact hall t ht hopen
  | @ringFull i t' hchosen hfull =>
      have ht' := List.mem_of_getElem? hchosen.get
      have hne : i ≠ j := by
        rintro rfl
        exact hroom (Option.some.inj (hchosen.get.symm.trans hget) ▸ hfull)
      -- the chosen operator comes first, and so does the one with room
      have hring := (h.capacity t ht).2
      rw [h.ringFull_iff ht] at hroom
      have hbefore : Before (w.maxClients / 10) (load t) j (load t') i := by
        rw [h.load_base ht, h.load_base ht', (h.ringFull_iff ht').mp hfull]
        exact (hpair i t' hchosen.get hchosen.isOpen hne).mono (by omega) le_rfl
      exact hbefore.asymm (hchosen.first j t hget hopen hne.symm)

/-- **What is accepted before the first refusal**, by induction on the descriptors: together
with what lies in the rings it is all they hold just in case `FillsUp` says so. -/
theorem dispatched_all_iff : ∀ (fds : List Int) {w : Worker H}, Admitted w R →
    (∀ fd ∈ fds, 0 ≤ fd) → w.operators.length * R < inRings w.operators + fds.length →
    (dispatchedBeforeRefusal fds w + inRings w.operators = w.operators.length * R ↔
      FillsUp (w.maxClients / 10) R w.operators) := by
  intro fds
  induction fds with
  | nil =>
      intro w h _ hlong
      have hle := inRings_le fun t ht => (h.capacity t ht).2
      rw [List.length_nil] at hlong
      omega
  | cons fd fds ih =>
      intro w h hfds hlong
      have hcases := dispatch_cases h (hfds fd (.head _))
      rw [dispatchedBeforeRefusal]
      generalize workerDispatchToOperator fd w = out at hcases
      have hrefused : ∀ out, Dispatched fd w (.failure, out) →
          (0 + inRings w.operators = w.operators.length * R ↔
            FillsUp (w.maxClients / 10) R w.operators) := by
        intro out hrefused
        rw [Nat.zero_add, inRings_eq_iff fun t ht => (h.capacity t ht).2]
        constructor
        · intro hall
          exact fillsUp_of_full fun t ht => (h.ringFull_iff ht).mpr (hall t ht)
        · intro hfills t ht
          exact (h.ringFull_iff ht).mp (h.full_of_refused hrefused hfills t ht)
      cases hcases with
      | allFull hall => exact hrefused w (.allFull hall)
      | ringFull hchosen hfull => exact hrefused w (.ringFull hchosen hfull)
      | @taken i t hchosen hroom =>
          have hnext := ih (h.taken hchosen hroom fd) (fun fd' hfd' => hfds fd' (.tail _ hfd'))
          have hring : (({ t.state with ring := t.state.ring ++ [fd] } : Operator H).enqueued.wake
              ).ring.length = t.state.ring.length + 1 := by
            simp [Operator.enqueued, Operator.wake]
          have htotal := inRings_modify hchosen.get hring
          have hfills := h.fillsUp_taken hchosen hroom fd
          simp only [Worker.update, List.length_modify, List.length_cons] at hnext hfills hlong ⊢
          rw [htotal, hfills] at hnext
          rw [← hnext (by omega)]
          omega

/--
**When dispatching is work-conserving.** A dispatch is refused only for want of room just
in case an operator with room is preferred to all that have none. With nobody draining, all
rings are filled before the first refusal just in case whoever has room is not `FULL`, and
with one place left is preferred to every other operator with a full ring; without clients that
is when the blind limit does not exceed a ring, or there is nobody to choose from.
-/
theorem dispatch_conserving :
    (∀ (w : Worker H) (R : Nat) (fd : Int), Admitted w R → 0 ≤ fd →
      (Conserving fd w ↔ RoomFirst (w.maxClients / 10) w.operators)) ∧
    (∀ (w : Worker H) (R : Nat) (fds : List Int), Admitted w R → (∀ fd ∈ fds, 0 ≤ fd) →
      w.operators.length * R < inRings w.operators + fds.length →
      (dispatchedBeforeRefusal fds w + inRings w.operators = w.operators.length * R ↔
        FillsUp (w.maxClients / 10) R w.operators)) ∧
    (∀ (w : Worker H) (R : Nat), Admitted w R →
      (∀ t ∈ w.operators, Open t ∧ ¬RingFull t ∧ base t = 0) →
      (FillsUp (w.maxClients / 10) R w.operators ↔
        w.maxClients / 10 ≤ R ∨ w.operators.length ≤ 1)) :=
  ⟨fun _ _ _ => conserving_iff, fun _ _ fds h => dispatched_all_iff fds h,
    fun _ _ h => fillsUp_idle_iff (Nat.lt_of_lt_of_le (by decide) h.ringCapacity.1)⟩

/-! ## Two small workers -/

/-- Two operators of as many slots and rings of eight, the first with eight descriptors queued. -/
def workerOf (slots active : Nat) : Worker DbHttp.small where
  status := .active
  maxClients := slots
  threadsStarted := false
  operators :=
    [⟨{ Operator.numbered slots 0 with ring := List.replicate 8 1000, queuedClients := 8 }, []⟩,
      ⟨{ Operator.numbered slots 1 with activeClients := active }, []⟩]

theorem admitted_workerOf {slots active : Nat} (h : MaxClients slots) (hle : active ≤ slots) :
    Admitted (workerOf slots active) 8 := by
  refine ⟨rfl, by decide, h, ?_, ?_, ?_, ?_⟩
  · intro t ht
    simp only [workerOf, List.mem_cons, List.not_mem_nil, or_false] at ht
    rcases ht with rfl | rfl <;> rfl
  · intro t ht
    simp only [workerOf, List.mem_cons, List.not_mem_nil, or_false] at ht
    rcases ht with rfl | rfl <;> exact ⟨rfl, by simp [Operator.numbered, Operator.small]⟩
  · intro t ht
    simp only [workerOf, List.mem_cons, List.not_mem_nil, or_false] at ht
    rcases ht with rfl | rfl
    · exact ⟨rfl, Nat.zero_le _⟩
    · exact ⟨rfl, hle⟩
  · intro t ht
    simp only [workerOf, List.mem_cons, List.not_mem_nil, or_false] at ht
    rcases ht with rfl | rfl <;> simp [Operator.numbered, Operator.small]

/-- Both operators with nothing queued, and as many clients. -/
def idleRings (slots first second : Nat) : Worker DbHttp.small where
  status := .active
  maxClients := slots
  threadsStarted := false
  operators :=
    [⟨{ Operator.numbered slots 0 with activeClients := first }, []⟩,
      ⟨{ Operator.numbered slots 1 with activeClients := second }, []⟩]

theorem admitted_idleRings {slots first second : Nat} (h : MaxClients slots) (hfirst : first ≤ slots)
    (hsecond : second ≤ slots) : Admitted (idleRings slots first second) 8 := by
  refine ⟨rfl, by decide, h, ?_, ?_, ?_, ?_⟩ <;> intro t ht <;>
    simp only [idleRings, List.mem_cons, List.not_mem_nil, or_false] at ht
  · rcases ht with rfl | rfl <;> rfl
  · rcases ht with rfl | rfl <;> exact ⟨rfl, Nat.zero_le _⟩
  · rcases ht with rfl | rfl
    · exact ⟨rfl, hfirst⟩
    · exact ⟨rfl, hsecond⟩
  · rcases ht with rfl | rfl <;> exact ⟨le_rfl, Nat.zero_le _⟩

/-- Both operators have room: what is asked of them is a matter of their clients alone. -/
theorem fillsUp_idleRings {slots first second : Nat}
    (h : Before limit (first + 8 - 1) 0 (second + 8) 1)
    (h' : Before limit (second + 8 - 1) 1 (first + 8) 0) :
    FillsUp limit 8 (idleRings slots first second).operators := by
  intro j t hget _
  match j, hget with
  | 0, hget =>
      obtain rfl := Option.some.inj hget
      refine ⟨fun hfull => OperatorStatus.noConfusion hfull, fun i t' hget' _ hi => ?_⟩
      match i, hget' with
      | 0, _ => exact absurd rfl hi
      | 1, hget' =>
          obtain rfl := Option.some.inj hget'
          exact h
      | i + 2, hget' => exact absurd hget' (by simp [idleRings])
  | 1, hget =>
      obtain rfl := Option.some.inj hget
      refine ⟨fun hfull => OperatorStatus.noConfusion hfull, fun i t' hget' _ hi => ?_⟩
      match i, hget' with
      | 0, hget' =>
          obtain rfl := Option.some.inj hget'
          exact h'
      | 1, _ => exact absurd rfl hi
      | i + 2, hget' => exact absurd hget' (by simp [idleRings])
  | j + 2, hget => exact absurd hget (by simp [idleRings])

/-- With 64 slots the blind limit is 6: the first operator, though it has a client more than the
second, gets the last place of a ring, and all sixteen are taken; without clients likewise. -/
theorem dispatch_conserving_64 : Conserving 9 (workerOf 64 7) ∧
    dispatchedBeforeRefusal (List.replicate 17 9) (idleRings 64 1 0) = 16 ∧
    FillsUp 6 8 (idleRings 64 0 0).operators := by
  have hmax : MaxClients 64 := ⟨by decide, by decide⟩
  refine ⟨?_, ?_, ?_⟩
  · refine (dispatch_conserving.1 _ _ 9 (admitted_workerOf hmax (by decide)) (by decide)).mpr ?_
    refine .inr ⟨1, _, rfl, fun hfull => OperatorStatus.noConfusion hfull, ?_, ?_⟩
    · exact Nat.not_le.mpr (by decide)
    · intro i t hget _ hfull
      match i, hget with
      | 0, hget =>
          obtain rfl := Option.some.inj hget
          exact .inr ⟨by decide, by decide, .inl (by decide)⟩
      | 1, hget =>
          obtain rfl := Option.some.inj hget
          exact absurd hfull (Nat.not_le.mpr (by decide))
      | i + 2, hget => exact absurd hget (by simp [workerOf])
  · have hfills : FillsUp ((idleRings 64 1 0).maxClients / 10) 8 (idleRings 64 1 0).operators :=
      fillsUp_idleRings (.inr ⟨by decide, by decide, .inr ⟨by decide, by decide⟩⟩)
        (.inr ⟨by decide, by decide, .inl (by decide)⟩)
    have hsum : dispatchedBeforeRefusal (List.replicate 17 9) (idleRings 64 1 0) + 0 = 2 * 8 :=
      (dispatch_conserving.2.1 _ 8 (List.replicate 17 9)
        (admitted_idleRings hmax (by decide) (by decide)) (by simp) (by decide)).mpr hfills
    exact hsum
  · refine (dispatch_conserving.2.2 (idleRings 64 0 0) 8
      (admitted_idleRings hmax (by decide) (by decide)) fun t ht => ?_).mpr (.inl (by decide))
    simp only [idleRings, List.mem_cons, List.not_mem_nil, or_false] at ht
    rcases ht with rfl | rfl
    · exact ⟨fun hfull => OperatorStatus.noConfusion hfull, Nat.not_le.mpr (by decide), rfl⟩
    · exact ⟨fun hfull => OperatorStatus.noConfusion hfull, Nat.not_le.mpr (by decide), rfl⟩

/--
With eight descriptors in the first ring and nine clients on the second operator, the
first has the least load, and the dispatch is refused. With 255 slots and no clients it is
below the blind limit even then, and with 64 slots and nine clients on the second operator its
load is the lesser one to the end: either way the second operator is never tried.
-/
theorem dispatch_not_conserving :
    (¬∀ (H : DbHttp) (w : Worker H) (R : Nat) (fd : Int), Admitted w R → 0 ≤ fd →
      Conserving fd w) ∧
    (¬∀ (H : DbHttp) (w : Worker H) (R : Nat) (fds : List Int), Admitted w R →
      (∀ t ∈ w.operators, Open t) → inRings w.operators = 0 → (∀ fd ∈ fds, 0 ≤ fd) →
      w.operators.length * R < fds.length →
      dispatchedBeforeRefusal fds w = w.operators.length * R) ∧
    dispatchedBeforeRefusal (List.replicate 17 9) (idleRings 255 0 0) = 8 ∧
    dispatchedBeforeRefusal (List.replicate 17 9) (idleRings 64 0 9) = 8 := by
  have height : dispatchedBeforeRefusal (List.replicate 17 9) (idleRings 255 0 0) = 8 := by
    decide +kernel
  refine ⟨?_, ?_, height, by decide +kernel⟩
  · intro hall
    have hmax : MaxClients 64 := ⟨by decide, by decide⟩
    have hstuck := hall _ (workerOf 64 9) 8 9 (admitted_workerOf hmax (by decide)) (by decide)
      (by decide +kernel) _ (.tail _ (.head _))
    rcases hstuck with hclosed | hfull
    · exact hclosed fun hfull => OperatorStatus.noConfusion hfull
    · exact absurd hfull (Nat.not_le.mpr (by decide))
  · intro hall
    have hmax : MaxClients 255 := ⟨by decide, by decide⟩
    have hopen : ∀ t ∈ (idleRings 255 0 0).operators, Open t := by
      intro t ht
      simp only [idleRings, List.mem_cons, List.not_mem_nil, or_false] at ht
      rcases ht with rfl | rfl <;> exact fun hfull => OperatorStatus.noConfusion hfull
    have hcount := hall _ (idleRings 255 0 0) 8 (List.replicate 17 9)
      (admitted_idleRings hmax (by decide) (by decide)) hopen rfl (by simp) (by simp [idleRings])
    rw [height] at hcount
    exact absurd hcount (by decide)

end DBServer.Proof
