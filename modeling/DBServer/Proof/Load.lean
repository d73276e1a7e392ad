import DBServer.Proof.Server

/-!
# The dispatcher's load figure

The dispatcher pushes before it counts and an operator pops before it counts back, each
on its own thread, so `queued_clients` is off by what the two still owe, and wraps when
the operator is faster. `queued_balance` is the equation that holds all along. The
dispatcher owes nothing while it chooses, which is the only time it reads the counter.
-/

namespace DBServer.Proof

open DBServer Lib Operator Server

variable {H : DbHttp} {s t : Server H} {op op' : Operator H} {i : Instr} {w : Answers H}
  {new : List Instr} {th : OperatorThread H} {idx j : Nat}

/-- A descriptor is popping and not yet counted back. -/
def popping : Instr → Nat
  | .dequeued _ => 1
  | _ => 0

/-- The dispatcher has pushed a descriptor to the operator and not yet counted it. -/
def owed (l : Listening) (j : Nat) : Nat := if l = .pushed j then 1 else 0

/-- What is counted and what is there, one instruction later. -/
theorem Executes.balance (h : Executes op w i op' new) :
    (op'.queuedClients + op.ring.length + popping i) % 2 ^ 32 =
      (op.queuedClients + op'.ring.length + weigh popping new) % 2 ^ 32 := by
  cases h with
  | popped hring => simp [popping, hring, Nat.add_assoc]
  | popEmpty hring => simp [popping]
  | @dequeued fd =>
      simp only [popping, weigh_cons, weigh_nil, decr32]
      omega
  | _ => simp [popping, setSlot, dropSlot]

/-- At most one descriptor is popping and not yet counted back. -/
theorem popping_le {code : List Instr} (h : Stacked code) : weigh popping code ≤ 1 := by
  cases code with
  | nil => simp
  | cons i code =>
      have htail : weigh popping code = 0 := weigh_eq_zero fun j hj => by
        have hresumes := h j hj
        cases j with
        | dequeued fd => exact absurd hresumes (by simp [resumes])
        | _ => rfl
      rw [weigh_cons, htail]
      cases i <;> simp [popping]

/-- The balance of an operator's counter, in every state. -/
def Balanced (l : Listening) (j : Nat) (th : OperatorThread H) : Prop :=
  (th.state.queuedClients + owed l j) % 2 ^ 32 =
    (th.state.ring.length + weigh popping th.code) % 2 ^ 32

theorem Balanced.of_owed {l l' : Listening} (h : Balanced l j th) (howed : owed l' j = owed l j) :
    Balanced l' j th := by
  rw [Balanced, howed]
  exact h

theorem Balanced.executes {l : Listening} {rest : List Instr} (h : Balanced l j th)
    (hcode : th.code = i :: rest) (hexec : Executes th.state w i op' new) :
    Balanced l j ⟨op', new ++ rest⟩ := by
  have hqueued := hexec.balance
  simp only [Balanced, hcode, weigh_cons, weigh_append] at h ⊢
  omega

/-- The listener owes nothing behind a move, and owed nothing to an operator that is there. -/
theorem ListenerMove.owed {l l' : Listening} (h : ListenerMove s l l')
    (hth : s.operators[j]? = some th) : owed l' j = owed l j := by
  cases h with
  | @crashed _ idx htarget hnone =>
      have hne : l ≠ .pushed j := by
        rintro rfl
        obtain rfl : j = idx := Option.some.inj htarget
        rw [hth] at hnone
        exact absurd hnone (by simp)
      simp [Proof.owed, hne]
  | _ => rfl

theorem MainTouch.queued {m m' : Running} {f : Operator H → Operator H}
    (h : MainTouch m idx f m') (op : Operator H) :
    (f op).queuedClients = op.queuedClients ∧ (f op).ring = op.ring := by
  cases h <;> exact ⟨rfl, rfl⟩

/-- **The counter of every operator is off by what is owed**, in every state. -/
theorem queued_balance {ok : Server H → ServerAct H → Prop} (h : (server H).ReachableBy ok s) :
    ∀ (j : Nat) (th : OperatorThread H), s.operators[j]? = some th → Balanced s.listener j th := by
  refine h.invariant (P := fun s => ∀ (j : Nat) (th : OperatorThread H),
    s.operators[j]? = some th → Balanced s.listener j th) ?_ ?_
  · intro s hs j th hth
    obtain ⟨hop, hcode, _⟩ := hs.operators th (List.mem_of_getElem? hth)
    rw [hs.listener, Balanced, hop.queuedClients, hop.ring, hcode]
    rfl
  · intro s a t hr hs _ hstep j th hth
    -- an operator that is only woken or asked to stop keeps its balance
    have hupdate : ∀ (idx : Nat) (f : Operator H → Operator H),
        (∀ op, (f op).queuedClients = op.queuedClients ∧ (f op).ring = op.ring) →
        (s.update idx f).operators[j]? = some th → Balanced s.listener j th := by
      intro idx f hf hget
      rcases update_cases hget with ⟨rfl, th₀, hsome, rfl⟩ | ⟨_, hsome⟩
      · have hbal := hs j th₀ hsome
        obtain ⟨hqueued, hring⟩ := hf th₀.state
        simp only [Balanced] at hbal ⊢
        rw [hqueued, hring]
        exact hbal
      · exact hs j th hsome
    cases server_step hstep with
    | listens hmove =>
        have hsome : s.operators[j]? = some th := hth
        exact (hs j th hsome).of_owed (hmove.owed hsome)
    | accepted hl hfd hfresh =>
        have hbal := hs j th hth
        rw [hl] at hbal
        exact hbal
    | compared hl hsome hcompare =>
        have hget : s.operators[j]? = some th := by split at hth <;> exact hth
        have hbal := hs j th hget
        rw [hl] at hbal
        exact hbal
    | @pushed fd idx th₀ hl hsome hroom =>
        rcases setThread_cases hsome hth with ⟨rfl, rfl⟩ | ⟨hne, hget⟩
        · have hbal := hs j th₀ hsome
          rw [hl] at hbal
          have howed : owed (.pushed j) j = 1 := if_pos rfl
          have hnone : owed (.pushing fd j) j = 0 := rfl
          simp only [Balanced, Server.listen, note, howed, hnone, List.length_append,
            List.length_singleton]
            at hbal ⊢
          omega
        · have hbal := hs j th hget
          rw [hl] at hbal
          refine hbal.of_owed ?_
          simp [owed, Server.listen, note, Ne.symm hne]
    | @counted idx th₀ hl hsome =>
        rcases update_cases hth with ⟨rfl, th₁, hget, rfl⟩ | ⟨hne, hget⟩
        · have hbal := hs j th₁ hget
          rw [hl] at hbal
          have howed : owed (.pushed j) j = 1 := if_pos rfl
          have hnone : owed (.counted j) j = 0 := rfl
          simp only [Balanced, Server.listen, howed, hnone, enqueued, incr32] at hbal ⊢
          omega
        · have hbal := hs j th hget
          rw [hl] at hbal
          refine hbal.of_owed ?_
          simp [owed, Server.listen, Ne.symm hne]
    | woken hl hsome =>
        have hbal := hupdate _ wake (fun _ => ⟨rfl, rfl⟩) hth
        rw [hl] at hbal
        exact hbal
    | refused hl =>
        have hbal := hs j th hth
        rw [hl] at hbal
        exact hbal
    | listenerStops hl =>
        have hbal := hs j th hth
        rw [hl] at hbal
        exact hbal
    | @executed idx w th₀ i op' new rest hsome hcode hexec =>
        rcases setThread_cases hsome hth with ⟨rfl, rfl⟩ | ⟨_, hget⟩
        · exact (hs j th₀ hsome).executes hcode hexec
        · exact hs j th hget
    | @created idx th₀ hm hsome =>
        rcases setThread_cases hsome hth with ⟨rfl, rfl⟩ | ⟨_, hget⟩
        · have hbal := hs j th₀ hsome
          rw [Balanced, quiet_reachable hr j (by rw [hm]; exact le_rfl) th₀ hsome] at hbal
          exact hbal
        · exact hs j th hget
    | @touches _ idx f m htouch => exact hupdate _ _ htouch.queued hth
    | freed hm => exact absurd hth (by simp [Server.operators, Server.freed, note, goTo])
    | givenUp hm =>
        exact absurd hth (by simp [Server.operators, Server.freed, note, goTo, runReturns])
    | requestStored => exact hupdate _ shutdownRequested (fun _ => ⟨rfl, rfl⟩) hth
    | requestWritten => exact hupdate _ wake (fun _ => ⟨rfl, rfl⟩) hth
    | _ => exact hs j th hth

/-! ## What the dispatcher reads -/

/-- The bounds of a configured operator. -/
structure Configured (th : OperatorThread H) : Prop where
  ring : th.state.ring.length ≤ th.state.ringCapacity
  ringCapacity : RingCapacity th.state.ringCapacity
  maxClients : MaxClients th.state.maxClients
  queuedClients : th.state.queuedClients < 2 ^ 32

theorem Executes.ring_le (h : Executes op w i op' new) : op'.ring.length ≤ op.ring.length := by
  cases h with
  | popped hring => simp [hring]
  | _ => exact le_rfl

theorem Executes.queued_lt (h : Executes op w i op' new) (hlt : op.queuedClients < 2 ^ 32) :
    op'.queuedClients < 2 ^ 32 := by
  cases h with
  | dequeued => exact Nat.mod_lt _ (by decide)
  | _ => exact hlt

section Reads

variable {ok : Server H → ServerAct H → Prop}

theorem configured_reachable (h : (server H).ReachableBy ok s)
    (hth : s.operators[j]? = some th) : Configured th := by
  refine operators_reachable (P := Configured) ?_ ?_ h j th hth
  · intro s hs th hth
    obtain ⟨hop, _, hmax, hcap⟩ := hs.operators th hth
    refine ⟨?_, hcap, hmax ▸ hs.maxClients, ?_⟩
    · rw [hop.ring]
      exact Nat.zero_le _
    · rw [hop.queuedClients]
      exact Nat.two_pow_pos 32
  · intro th th' htouched hs
    have hfixed := htouched.fixed
    refine ⟨?_, hfixed.ringCapacity ▸ hs.ringCapacity, hfixed.maxClients ▸ hs.maxClients, ?_⟩
    · cases htouched with
      | executed hcode hexec =>
          rw [hfixed.ringCapacity]
          exact hexec.ring_le.trans hs.ring
      | pushed hfd hroom =>
          simp only [List.length_append, List.length_singleton]
          exact hroom
      | _ => exact hs.ring
    · cases htouched with
      | executed hcode hexec => exact hexec.queued_lt hs.queuedClients
      | enqueued => exact Nat.mod_lt _ (by decide)
      | _ => exact hs.queuedClients

/-- The client count the dispatcher holds in its hands was once the operator's. -/
theorem weighed_le (h : (server H).ReachableBy ok s) : ∀ (fd : Int) (scan : Scan) (active : Nat),
    s.listener = .comparing fd scan active → ∀ th : OperatorThread H,
      s.operators[scan.idx]? = some th → active ≤ th.state.maxClients := by
  refine h.invariant (P := fun s => ∀ (fd : Int) (scan : Scan) (active : Nat),
    s.listener = .comparing fd scan active → ∀ th : OperatorThread H,
      s.operators[scan.idx]? = some th → active ≤ th.state.maxClients) ?_ ?_
  · intro s hs fd scan active hl
    rw [hs.listener] at hl
    exact absurd hl (by simp)
  · intro s a t hr hs _ hstep fd scan active hl th' hth'
    have hserver := server_step hstep
    obtain ⟨th, hth, htouched⟩ := hserver.touched (valid_reachable hr) hth'
    have hmax : th'.state.maxClients = th.state.maxClients := by
      rcases htouched with rfl | htouched
      · rfl
      · exact htouched.fixed.maxClients
    rw [hmax]
    cases hserver with
    | @listens l hmove =>
        have hl' : l = .comparing fd scan active := hl
        subst hl'
        generalize hl₀ : s.listener = l₀ at hmove
        cases hmove with
        | weighed hsome =>
            obtain rfl := Option.some.inj (hsome.symm.trans hth)
            exact activeClients_le (server_sound hr hsome)
    | accepted => exact absurd hl (by simp [Server.listen, note])
    | compared => exact absurd hl (by simp [Server.listen])
    | pushed => exact absurd hl (by simp [Server.listen, note])
    | counted => exact absurd hl (by simp [Server.listen])
    | woken => exact absurd hl (by simp [Server.listen])
    | refused => exact absurd hl (by simp [Server.listen, note])
    | listenerStops => exact absurd hl (by simp [Server.listen])
    | _ => exact hs fd scan active hl th hth

/-- While nothing is owed to an operator, its counter is its ring's occupancy or one more. -/
theorem queued_exact (h : (server H).ReachableBy ok s) (howed : owed s.listener j = 0)
    (hth : s.operators[j]? = some th) :
    th.state.queuedClients = th.state.ring.length + weigh popping th.code ∧
      weigh popping th.code ≤ 1 := by
  have hbal := queued_balance h j th hth
  have hconf := configured_reachable h hth
  have hpending := popping_le (server_stacked h hth)
  have hcap := hconf.ringCapacity.2.1
  have hring := hconf.ring
  have hqueued := hconf.queuedClients
  rw [Balanced, howed, Nat.add_zero, Nat.mod_eq_of_lt hqueued, Nat.mod_eq_of_lt (by omega)] at hbal
  exact ⟨hbal, hpending⟩

/--
**The load the dispatcher compares is exact.** When it reads the counter, what it reads is
the ring's occupancy and at most one more, whose decrement is under way. With the client
count it read before, the load is no larger than slots, ring and one, and does not wrap.
-/
theorem load_exact (h : (server H).Reachable s) {fd : Int} {scan : Scan} {active : Nat}
    (hl : s.listener = .comparing fd scan active) (hth : s.operators[scan.idx]? = some th) :
    (th.state.queuedClients = th.state.ring.length + weigh popping th.code ∧
      weigh popping th.code ≤ 1) ∧
    active + th.state.queuedClients ≤ th.state.maxClients + th.state.ringCapacity + 1 ∧
    (active + th.state.queuedClients) % 2 ^ 32 = active + th.state.queuedClients ∧
    (active + th.state.queuedClients) % 2 ^ 32 ≠ uintMax := by
  have hconf := configured_reachable h hth
  have hactive := weighed_le h fd scan active hl th hth
  have howed : owed s.listener scan.idx = 0 := by
    rw [hl]
    rfl
  obtain ⟨hexact, hpending⟩ := queued_exact h howed hth
  obtain ⟨_, hcap, _⟩ := hconf.ringCapacity
  obtain ⟨_, hmax⟩ := hconf.maxClients
  have hring := hconf.ring
  have hsum : (active + th.state.queuedClients) % 2 ^ 32 = active + th.state.queuedClients :=
    Nat.mod_eq_of_lt (by omega)
  refine ⟨⟨hexact, hpending⟩, by omega, hsum, ?_⟩
  rw [hsum, uintMax]
  omega

end Reads

/-- An operator has popped a descriptor and not yet counted it back when the next one arrives. -/
theorem load_exact_pending : ∃ th : OperatorThread DbHttp.small, th.state.ring.length = 0 ∧
    weigh popping th.code = 1 ∧ th.state.queuedClients = 1 := by
  have hinit : (server DbHttp.small).Reachable (Server.small 1) :=
    .init (serverInit_small (.inl rfl))
  obtain ⟨t, ht, hread⟩ := hinit.exists_of_run
    (creates 1 ++ [.accept 7] ++ listens 9 ++ operates 0 7 [wakeupEvent] ++ [.accept 8] ++ listens 3)
    (fun s => s.listener == .comparing 8 Scan.start 0 &&
      (s.operators[0]?.map fun th => (th.state.ring.length, weigh popping th.code)) == some (0, 1))
    (by decide +kernel)
  simp only [Bool.and_eq_true, beq_iff_eq, Option.map_eq_some_iff, Prod.mk.injEq] at hread
  obtain ⟨hl, th, hth, hring, hpending⟩ := hread
  have hexact := (load_exact ht hl hth).1.1
  exact ⟨th, hring, hpending, by rw [hexact, hring, hpending]⟩

end DBServer.Proof
