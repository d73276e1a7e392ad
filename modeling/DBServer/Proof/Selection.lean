import DBServer.Proof.Dispatch
import DBServer.Proof.Load

/-!
# What the dispatcher selects

`_least_loaded_operator` looks at one operator after the other while their threads go on.
A ghost beside the run keeps what the scan under way has seen of each of them: the status
when it was tested, the counters when they were read. On that vector the choice is the one
it should be (`Selects`). The branch that would take the whole worker for full needs a load
of `UINT_MAX`, which no operator that is looked at ever has; so the worker's status stays
what it was, and a dispatch finds an operator as soon as one is not `FULL`.
-/

namespace DBServer.Proof

open DBServer Lib Operator Server

variable {H : DbHttp} {s t : Server H} {th : OperatorThread H} {a : ServerAct H}
  {l ops : List (OperatorThread H)} {limit i j : Nat} {scan : Scan}

/-! ## The specification -/

/--
What is to be selected: nothing if every operator is `FULL`. Otherwise the first of the
others whose load is below the limit, or, if there is none, the first of least load.
-/
structure Selects (limit : Nat) (ops : List (OperatorThread H)) (o : Option Nat) : Prop where
  none_iff : o = none ↔ ∀ t ∈ ops, ¬Open t
  some : ∀ i, o = some i → ∃ t, ops[i]? = some t ∧ Open t ∧
    ((load t < limit ∧
        ∀ (j : Nat) t', j < i → ops[j]? = some t' → Open t' → limit ≤ load t') ∨
      ((∀ t' ∈ ops, Open t' → limit ≤ load t') ∧
        ∀ (j : Nat) t', ops[j]? = some t' → Open t' →
          load t ≤ load t' ∧ (j < i → load t < load t')))

/-- The first in the order of the scan is what is to be selected. -/
theorem Chosen.selects {t : OperatorThread H} (h : Chosen limit ops i t) :
    Selects limit ops (some i) := by
  have hself : ∀ {t' : OperatorThread H}, ops[i]? = some t' → t' = t := fun hget =>
    Option.some.inj (hget.symm.trans h.get)
  refine ⟨iff_of_false (by simp) fun hall => hall t (List.mem_of_getElem? h.get) h.isOpen, ?_⟩
  rintro _ ⟨⟩
  refine ⟨t, h.get, h.isOpen, ?_⟩
  rcases Nat.lt_or_ge (load t) limit with hlt | hge
  · refine .inl ⟨hlt, fun j t' hj hget hopen => ?_⟩
    have hbefore := h.first j t' hget hopen (Nat.ne_of_lt hj)
    unfold Before at hbefore
    omega
  · refine .inr ⟨fun t' ht' hopen => ?_, fun j t' hget hopen => ?_⟩
    · obtain ⟨j, hget⟩ := List.mem_iff_getElem?.mp ht'
      rcases eq_or_ne j i with rfl | hne
      · exact hself hget ▸ hge
      · have hbefore := h.first j t' hget hopen hne
        unfold Before at hbefore
        omega
    · rcases eq_or_ne j i with rfl | hne
      · rw [hself hget]
        exact ⟨le_rfl, fun hlt => absurd hlt (Nat.lt_irrefl _)⟩
      · have hbefore := h.first j t' hget hopen hne
        unfold Before at hbefore
        omega

theorem Picked.selects : ∀ {o : Option Nat}, Picked limit ops o → Selects limit ops o
  | none, h => ⟨iff_of_true rfl h, nofun⟩
  | some _, ⟨_, h⟩ => h.selects

/-! ## What a scan sees -/

/-- The operator with its counters as they were read. -/
def weighedAs (active queued : Nat) (t : OperatorThread H) : OperatorThread H :=
  ⟨{ t.state with activeClients := active, queuedClients := queued }, t.code⟩

/-- What the scan has seen behind one more step of the listener. -/
def look (s : Server H) (l : List (OperatorThread H)) : Listening → List (OperatorThread H)
  | .accepted _ => []
  | .testing _ scan => l ++ s.operators[scan.idx]?.toList
  | .comparing _ scan active =>
      match s.operators[scan.idx]? with
      | none => l
      | some t => l.modify scan.idx (weighedAs active t.state.queuedClients)
  | _ => l

/-- What the scan under way has seen, the operators in order. -/
def seen (s : Server H) (a : ServerAct H) (_ : Server H) (l : List (OperatorThread H)) :
    List (OperatorThread H) :=
  match a with
  | .listener => look s l s.listener
  | _ => l

/-- The server's run, and what the scan under way has seen. -/
abbrev scanning (H : DbHttp) : Machine (Server H × List (OperatorThread H)) (ServerAct H) :=
  (server H).ghosted [] seen

/-- More of the operators does not matter to a scan that has not come there. -/
theorem Scanned.congr {ops' : List (OperatorThread H)} (h : Scanned limit ops scan)
    (hsame : ∀ j < scan.idx, ops'[j]? = ops[j]?) : Scanned limit ops' scan where
  notBlind j t hj hget := h.notBlind j t hj (hsame j hj ▸ hget)
  allFull hmax j t hj hget := h.allFull hmax j t hj (hsame j hj ▸ hget)
  best hne := by
    obtain ⟨hlt, t, hget, hopen, hload, hmin⟩ := h.best hne
    exact ⟨hlt, t, (hsame _ hlt).trans hget, hopen, hload,
      fun j t' hj hget' => hmin j t' hj (hsame j hj ▸ hget')⟩

/-- Where the scan stands, and what it has seen by then. -/
def Looked (limit n : Nat) (l : List (OperatorThread H)) : Listening → Prop
  | .testing _ scan => l.length = scan.idx ∧ scan.idx ≤ n ∧ Scanned limit l scan
  | .weighing _ scan | .comparing _ scan _ => l.length = scan.idx + 1 ∧ scan.idx < n ∧
      Scanned limit l scan ∧ ∃ t, l[scan.idx]? = some t ∧ Open t
  | .chosen _ idx => Selects limit l (some idx)
  | _ => True

/-- One operator more. -/
theorem Scanned.concat (h : Scanned limit l scan) (hlength : l.length = scan.idx) :
    Scanned limit (l ++ [th]) scan ∧ (l ++ [th])[scan.idx]? = some th := by
  refine ⟨h.congr fun j hj => List.getElem?_append_left (hlength ▸ hj), ?_⟩
  rw [← hlength, List.getElem?_concat_length]

/-- The last operator with its counters. -/
theorem Scanned.modify {f : OperatorThread H → OperatorThread H} (h : Scanned limit l scan)
    (hget : l[scan.idx]? = some th) :
    Scanned limit (l.modify scan.idx f) scan ∧ (l.modify scan.idx f)[scan.idx]? = some (f th) := by
  refine ⟨h.congr fun j hj => ?_, ?_⟩
  · exact List.getElem?_modify_ne _ _ (Nat.ne_of_gt hj)
  · rw [List.getElem?_modify_eq, hget]
    rfl

/-- Every move of the listener takes what it has seen along. -/
theorem ListenerMove.looked {l₀ l₁ : Listening} (hmove : ListenerMove s l₀ l₁)
    (h : Looked (s.worker.maxClients / 10) s.operators.length l l₀) :
    Looked (s.worker.maxClients / 10) s.operators.length (look s l l₀) l₁ := by
  cases hmove with
  | admitted => exact ⟨rfl, Nat.zero_le _, scanned_start _ _⟩
  | @best fd scan idx hnone hresult =>
      obtain ⟨hlength, -, hscanned⟩ := h
      rw [look, hnone, Option.toList_none, List.append_nil]
      have hpicked := hscanned.result hlength.le
      rw [hresult] at hpicked
      exact hpicked.selects
  | @skipped fd scan th hth hfull =>
      obtain ⟨hlength, hle, hscanned⟩ := h
      obtain ⟨hscanned', hget⟩ : Scanned _ (l ++ [th]) scan ∧ _ := hscanned.concat hlength
      rw [look, hth, Option.toList_some]
      exact ⟨by simp [hlength, Scan.next], (List.getElem?_eq_some_iff.mp hth).1,
        hscanned'.next hget fun hopen => hopen hfull⟩
  | @tested fd scan th hth hopen =>
      obtain ⟨hlength, hle, hscanned⟩ := h
      obtain ⟨hscanned', hget⟩ : Scanned _ (l ++ [th]) scan ∧ _ := hscanned.concat hlength
      rw [look, hth, Option.toList_some]
      exact ⟨by simp [hlength], (List.getElem?_eq_some_iff.mp hth).1, hscanned', th, hget, hopen⟩
  | weighed => exact h
  | @blind fd scan active idx th hth hround =>
      obtain ⟨hlength, hlt, hscanned, t₀, hget, hopen⟩ := h
      obtain ⟨hscanned', hget'⟩ :=
        hscanned.modify hget (f := weighedAs active th.state.queuedClients)
      rw [look, hth]
      exact (hscanned'.blind hget' hopen hround).selects
  | _ => trivial

/-- So does a round that goes on, if the load it compares is one. -/
theorem Looked.compared {fd : Int} {active : Nat} {scan' : Scan}
    (h : Looked (s.worker.maxClients / 10) s.operators.length l (.comparing fd scan active))
    (hth : s.operators[scan.idx]? = some th)
    (hload : (active + th.state.queuedClients) % 2 ^ 32 < uintMax)
    (hround : scan.compare s.worker.maxClients active th.state.queuedClients = .inr scan') :
    Looked (s.worker.maxClients / 10) s.operators.length
      (look s l (.comparing fd scan active)) (.testing fd scan') := by
  obtain ⟨hlength, hlt, hscanned, t₀, hget, hopen⟩ := h
  obtain ⟨hscanned', hget'⟩ :=
    hscanned.modify hget (f := weighedAs active th.state.queuedClients)
  obtain ⟨hnext, hidx, -⟩ := hscanned'.compare hget' hopen hload hround
  rw [look, hth]
  refine ⟨?_, ?_, hnext⟩
  · rw [List.length_modify, hlength, hidx]
  · rw [hidx]
    exact hlt

/-! ## In every run -/

/-- The limit is settled as long as there are operators. -/
theorem ServerStep.maxClients (h : ServerStep s a t) (hlive : t.operators ≠ []) :
    t.worker.maxClients = s.worker.maxClients := by
  cases h with
  | compared => exact (apply_ite Worker.maxClients _ _ _).trans (ite_self _)
  | freed => exact absurd rfl hlive
  | givenUp => exact absurd rfl hlive
  | _ => rfl

theorem comparing_load (h : (server H).Reachable s) {fd : Int} {active : Nat}
    (hl : s.listener = .comparing fd scan active) (hth : s.operators[scan.idx]? = some th) :
    (active + th.state.queuedClients) % 2 ^ 32 < uintMax := by
  have hne := (load_exact h hl hth).2.2.2
  have hlt := Nat.mod_lt (active + th.state.queuedClients) (Nat.two_pow_pos 32)
  unfold uintMax at hne ⊢
  omega

theorem looked_reachable {r : Server H × List (OperatorThread H)}
    (h : (scanning H).Reachable r) : r.1.operators ≠ [] →
      Looked (r.1.worker.maxClients / 10) r.1.operators.length r.2 r.1.listener := by
  refine h.invariant (P := fun r => r.1.operators ≠ [] →
    Looked (r.1.worker.maxClients / 10) r.1.operators.length r.2 r.1.listener) ?_ ?_
  · rintro ⟨s, l⟩ ⟨hs, -⟩ -
    rw [hs.listener]
    trivial
  · rintro ⟨s, l⟩ a r' hr hs - hstep hlive
    obtain ⟨t, ht, rfl⟩ := Option.map_eq_some_iff.mp hstep
    have hreach : (server H).Reachable s := Machine.Reachable.unghosted hr
    have hserver := server_step ht
    have hmax : t.worker.maxClients = s.worker.maxClients := hserver.maxClients hlive
    have hlength : t.operators.length = s.operators.length := by
      rcases hserver.length with hlength | ⟨-, hnil⟩
      · exact hlength
      · exact absurd hnil hlive
    have hlooked := hs (mt hserver.operators_nil hlive)
    show Looked (t.worker.maxClients / 10) t.operators.length (seen s a t l) t.listener
    rw [hmax, hlength]
    cases hserver with
    | listens hmove => exact hmove.looked hlooked
    | compared hl hth hround =>
        rw [hl] at hlooked
        have hnext := hlooked.compared hth (comparing_load hreach hl hth) hround
        rw [← hl] at hnext
        exact hnext
    | accepted => trivial
    | pushed => trivial
    | counted => trivial
    | woken => trivial
    | refused => trivial
    | listenerStops => trivial
    | _ => exact hlooked

/-- A round that compares a load leaves a candidate. -/
theorem compare_bestLoad {scan' : Scan} {maxClients active queued : Nat}
    (hload : (active + queued) % 2 ^ 32 < uintMax)
    (hround : scan.compare maxClients active queued = .inr scan') :
    scan'.bestLoad ≠ uintMax := by
  simp only [Scan.compare] at hround
  split at hround
  · exact absurd hround (by simp)
  · split at hround
    · obtain rfl := Sum.inr.inj hround
      exact Nat.ne_of_lt hload
    · rename_i hworse
      obtain rfl := Sum.inr.inj hround
      show scan.bestLoad ≠ uintMax
      omega

/-- The dispatcher never changes the worker's status; only `worker_destroy` does. -/
theorem ServerStep.workerStatus (hs : (server H).Reachable s) (h : ServerStep s a t) :
    t.worker.status = s.worker.status ∨
      (∃ last, s.main = .destroy .inactive last) ∧ t.worker.status = .inactive := by
  cases h with
  | @compared fd scan scan' active th hl hth hround =>
      have hne := compare_bestLoad (comparing_load hs hl hth) hround
      have hsat : scan'.saturated s.operators.length = false := by simp [Scan.saturated, hne]
      rw [hsat]
      exact .inl rfl
  | inactive hm => exact .inr ⟨⟨_, hm⟩, rfl⟩
  | _ => exact .inl rfl

theorem workerStatus_reachable (h : (server H).Reachable s) :
    s.worker.status = .active ∨ s.worker.status = .inactive := by
  refine h.invariant (P := fun s => s.worker.status = .active ∨ s.worker.status = .inactive) ?_ ?_
  · intro s hs
    exact .inl hs.status
  · intro s a t hr hs _ hstep
    rcases (server_step hstep).workerStatus hr with hsame | ⟨-, hinactive⟩
    · rw [hsame]
      exact hs
    · exact .inr hinactive

/-! ## At once -/

/-- While the dispatcher is not between a push and its count, every counter is exact. -/
theorem load_lt (h : (server H).Reachable s) (howed : owed s.listener j = 0)
    (hth : s.operators[j]? = some th) : load th < uintMax := by
  have hexact := queued_exact h howed hth
  have hactive := activeClients_le (server_sound h hth)
  have hconf := configured_reachable h hth
  have hcap := hconf.ringCapacity.2.1
  have hmax := hconf.maxClients.2
  have hring := hconf.ring
  unfold load uintMax
  omega

/-! ## A dispatch finds an operator -/

/-- The dispatcher is looking for an operator. -/
def Selecting : Listening → Prop
  | .accepted _ | .testing _ _ | .weighing _ _ | .comparing _ _ _ => True
  | _ => False

/-- There is one that is not `FULL`, and nobody has begun to destroy the worker. -/
def Available (i : Nat) (s : Server H) : Prop :=
  s.worker.status ≠ .inactive ∧ ∃ th, s.operators[i]? = some th ∧ Open th

/-- The scan has not passed operator `i`, or has a candidate. -/
def Finding (i n : Nat) : Listening → Prop
  | .accepted _ | .chosen _ _ => True
  | .testing _ scan => scan.bestLoad ≠ uintMax ∨ scan.idx ≤ i
  | .weighing _ scan | .comparing _ scan _ => scan.idx < n
  | _ => False

theorem ListenerMove.finding {l₀ l₁ : Listening} (hmove : ListenerMove s l₀ l₁)
    (hsel : Selecting l₀) (hi : Available i s) (hactive : s.worker.status = .active)
    (h : Finding i s.operators.length l₀) : Finding i s.operators.length l₁ := by
  obtain ⟨-, th, hget, hopen⟩ := hi
  have hlt : i < s.operators.length := (List.getElem?_eq_some_iff.mp hget).1
  cases hmove with
  | admitted => exact .inr (Nat.zero_le _)
  | rejected hnot => exact absurd hactive hnot
  | best => trivial
  | noCandidate hnone hresult =>
      -- the scan has passed every operator, so it has a candidate
      have hge := List.getElem?_eq_none_iff.mp hnone
      rw [Scan.result] at hresult
      split at hresult
      · rename_i hmax
        rcases h with hne | hle
        · exact hne hmax
        · omega
      · exact absurd hresult (by simp)
  | @skipped fd scan th' hth hfull =>
      rcases h with hne | hle
      · exact .inl hne
      · have hne : scan.idx ≠ i := by
          rintro rfl
          obtain rfl := Option.some.inj (hget.symm.trans hth)
          exact hopen hfull
        exact .inr (Nat.lt_of_le_of_ne hle hne)
  | tested hth => exact (List.getElem?_eq_some_iff.mp hth).1
  | weighed hth => exact (List.getElem?_eq_some_iff.mp hth).1
  | blind => trivial
  | @crashed _ idx htarget hnone =>
      have hge := List.getElem?_eq_none_iff.mp hnone
      unfold target at htarget
      split at htarget
      · obtain rfl := Option.some.inj htarget
        exact absurd h (Nat.not_lt.mpr hge)
      · obtain rfl := Option.some.inj htarget
        exact absurd h (Nat.not_lt.mpr hge)
      · exact hsel
      · exact hsel
      · exact hsel
      · exact hsel
      · exact absurd htarget (by simp)
  | _ => exact hsel

/-- **As long as an operator is not `FULL`, a dispatch comes to one.** -/
theorem finds_operator (hs : (server H).Reachable s) {fd : Int} (hl : s.listener = .accepted fd)
    (h : ((server H).startingAt s).ReachableBy
      (fun u _ => Selecting u.listener ∧ Available i u) t) :
    Selecting t.listener ∨ ∃ fd idx, t.listener = .chosen fd idx := by
  have hfinding : Finding i s.operators.length t.listener ∧
      (t.operators.length = s.operators.length ∨ t.operators = []) := by
    -- as long as the candidate is available, the scan either has it ahead or has found a best
    refine h.invariant (P := fun t => Finding i s.operators.length t.listener ∧
      (t.operators.length = s.operators.length ∨ t.operators = [])) ?_ ?_
    · rintro u rfl
      rw [hl]
      exact ⟨trivial, .inl rfl⟩
    · rintro u a v hu ⟨hfinding, hlength⟩ ⟨hsel, havailable⟩ hstep
      have hreach := Machine.ReachableBy.of_startingAt hs hu
      have hserver := server_step hstep
      have hlength' : u.operators.length = s.operators.length := by
        rcases hlength with hlength | hnil
        · exact hlength
        · obtain ⟨-, th, hget, -⟩ := havailable
          rw [hnil] at hget
          exact absurd hget (by simp)
      have hactive : u.worker.status = .active :=
        (workerStatus_reachable hreach).resolve_right havailable.1
      refine ⟨?_, ?_⟩
      · rw [← hlength'] at hfinding ⊢
        cases hserver with
        | listens hmove => exact hmove.finding hsel havailable hactive hfinding
        | compared hl hth hround =>
            exact .inl (compare_bestLoad (comparing_load hreach hl hth) hround)
        | accepted hl => exact absurd hsel (by simp [hl, Selecting])
        | pushed hl => exact absurd hsel (by simp [hl, Selecting])
        | counted hl => exact absurd hsel (by simp [hl, Selecting])
        | woken hl => exact absurd hsel (by simp [hl, Selecting])
        | refused hl => exact absurd hsel (by simp [hl, Selecting])
        | listenerStops hl => exact absurd hsel (by simp [hl, Selecting])
        | _ => exact hfinding
      · rcases hserver.length with hsame | ⟨-, hnil⟩
        · exact .inl (hsame.trans hlength')
        · exact .inr hnil
  -- the other places of the listener lie behind the selection
  generalize t.listener = l at hfinding
  cases l with
  | accepted => exact .inl trivial
  | testing => exact .inl trivial
  | weighing => exact .inl trivial
  | comparing => exact .inl trivial
  | chosen fd idx => exact .inr ⟨fd, idx, rfl⟩
  | _ => exact absurd hfinding.1 id

/-! ## The selection -/

/-- What `_least_loaded_operator` does where the run stands. -/
structure SelectsRight (s : Server H) (l : List (OperatorThread H)) : Prop where
  /-- At the start of a dispatch, on the operators as they stand. -/
  atOnce : ∀ fd, s.listener = .accepted fd →
    Selects (s.worker.maxClients / 10) s.operators (leastLoadedOperator s.worker).1 ∧
      (leastLoadedOperator s.worker).2 = s.worker
  /-- Behind a scan with the operators' threads going on, on what it has seen of them. -/
  chosen : s.operators ≠ [] → ∀ fd idx, s.listener = .chosen fd idx →
    Selects (s.worker.maxClients / 10) l (some idx)
  passed : s.operators ≠ [] → ∀ fd scan, s.listener = .testing fd scan →
    s.operators[scan.idx]? = none →
      l.length = s.operators.length ∧ Selects (s.worker.maxClients / 10) l scan.result
  /-- Only `worker_destroy` changes the worker's status. -/
  status : s.worker.status = .active ∨ s.worker.status = .inactive
  changed : ∀ a t, (server H).step s a = some t → t.worker.status ≠ s.worker.status →
    ∃ last, s.main = .destroy .inactive last
  /-- A dispatch finds an operator if one is not `FULL`. -/
  finds : ∀ fd i t, s.listener = .accepted fd →
    ((server H).startingAt s).ReachableBy (fun u _ => Selecting u.listener ∧ Available i u) t →
      Selecting t.listener ∨ ∃ fd idx, t.listener = .chosen fd idx

/--
**The selection meets its specification, and saturation does not stick.** In every run, with
any number of operators and any limits the configuration admits.
-/
theorem selection_meets_spec {r : Server H × List (OperatorThread H)}
    (h : (scanning H).Reachable r) : SelectsRight r.1 r.2 := by
  have hs : (server H).Reachable r.1 := h.unghosted
  have hlooked := looked_reachable h
  refine ⟨fun fd hl => ?_, fun hlive fd idx hl => ?_, fun hlive fd scan hl hnone => ?_,
    workerStatus_reachable hs, fun a t hstep hchanged => ?_,
    fun fd i t hl ht => finds_operator hs hl ht⟩
  · have howed : ∀ j, owed r.1.listener j = 0 := by
      rw [hl]
      exact fun _ => rfl
    obtain ⟨hpicked, hsame⟩ := leastLoaded_chosen (w := r.1.worker) fun th hth => by
      obtain ⟨j, hget⟩ := List.mem_iff_getElem?.mp hth
      exact load_lt hs (howed j) hget
    exact ⟨hpicked.selects, hsame⟩
  · have hchosen := hlooked hlive
    rw [hl] at hchosen
    exact hchosen
  · have hover := hlooked hlive
    rw [hl] at hover
    obtain ⟨hlength, hle, hscanned⟩ := hover
    have hge := List.getElem?_eq_none_iff.mp hnone
    exact ⟨by omega, (hscanned.result hlength.le).selects⟩
  · exact (((server_step hstep).workerStatus hs).resolve_left hchanged).1

/-- The second client goes to the second operator, the first having one queued. -/
theorem selection_meets_spec_second : ∃ r : Server DbHttp.small × List (OperatorThread DbHttp.small),
    r.1.listener = .chosen 9 1 ∧ r.2.map load = [1, 0] ∧ SelectsRight r.1 r.2 := by
  have hinit : (scanning DbHttp.small).Reachable (Server.small 2, []) :=
    .init ⟨serverInit_small (.inr rfl), rfl⟩
  obtain ⟨r, hr, hchosen⟩ := hinit.exists_of_run
    (creates 2 ++ [.accept 8] ++ listens 12 ++ [.accept 9] ++ listens 8)
    (fun r => r.1.listener == .chosen 9 1 && r.2.map load == [1, 0]) (by decide +kernel)
  simp only [Bool.and_eq_true, beq_iff_eq] at hchosen
  exact ⟨r, hchosen.1, hchosen.2, selection_meets_spec hr⟩

end DBServer.Proof
