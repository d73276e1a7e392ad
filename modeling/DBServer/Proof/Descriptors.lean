import DBServer.Proof.Server

/-!
# Where the accepted descriptors are

An accepted descriptor is in the listener's hand, in a ring, with an operator's thread
between its pop and its registration, or in a busy slot. A step moves it on or closes
it, unless the wakeup handler drops what it has popped, the operators are freed with
something left in a ring, or the listener is caught by the freeing; `KeepsDescriptors`
excludes these three. Everything is counted descriptor by descriptor.
-/

namespace DBServer.Proof

open DBServer Lib Operator Server

variable {H : DbHttp} {s t : Server H} {a : ServerAct H} {op op' : Operator H} {i : Instr}
  {w : Answers H} {new : List Instr} {th th' : OperatorThread H} {idx j : Nat}

/-! ## The places of one operator -/

/-- An instruction that has a popped descriptor in its hands. -/
def carries (x : Int) : Instr → Nat
  | .dequeued fd | .gate fd | .addClient fd => if fd = x then 1 else 0
  | _ => 0

/-- The slot holds the descriptor. -/
def Slot.holds (x : Int) (s : Slot) : Bool := s.busy && s.ctx.fd == x

/-- How many places of an operator hold the descriptor. -/
def places (x : Int) (th : OperatorThread H) : Nat :=
  th.state.ring.count x + weigh (carries x) th.code +
    (table th.state).slots.countP (Slot.holds x)

/-- The wakeup handler does not drop the descriptor it has popped. -/
def Keeps (op : Operator H) (w : Answers H) : Instr → Prop
  | .gate _ => op.status = .active
  | .addClient fd => op.getAvailableClientSlot.isSome = true ∧ w.clientInit = true ∧
      w.epollAdd = true ∧ ∀ r ∈ op.interest, r.fd ≠ fd
  | _ => True

instance (op : Operator H) (w : Answers H) : (i : Instr) → Decidable (Keeps op w i)
  | .gate _ => inferInstanceAs (Decidable (_ = _))
  | .addClient _ => inferInstanceAs (Decidable (_ ∧ _))
  | .initParsers | .publish _ | .loopActive | .loopFull | .wait | .events _ | .drainWakeup
  | .pop _ | .dequeued _ | .statusUpdate | .storeStatus _ | .removeByFd _ | .cleanClients _ _
  | .crash => inferInstanceAs (Decidable True)

theorem adopt_holds {T : Table} {c : Slot} {id : Nat} {fd : Int} (x : Int)
    (hget : T.slots[idx]? = some c) (hidle : c.busy = false) :
    (T.adopt id idx fd).slots.countP (Slot.holds x) =
      T.slots.countP (Slot.holds x) + if fd = x then 1 else 0 := by
  have hcount := countP_set_slot (Slot.holds x) ⟨true, aimedAt id fd⟩ hget
  simpa [Slot.holds, hidle, Table.adopt, aimedAt] using hcount

theorem drop_holds {T : Table} {c : Slot} (x : Int) (hget : T.slots[idx]? = some c)
    (hbusy : c.busy = true) : (T.drop idx c.ctx.fd).slots.countP (Slot.holds x) +
      [c.ctx.fd].count x = T.slots.countP (Slot.holds x) := by
  have hcount := countP_set_slot (Slot.holds x) Slot.shut hget
  simpa [Slot.holds, hbusy, Table.drop, Slot.shut, List.count_singleton] using hcount

/-- Closing the client of a slot. -/
theorem dropSlot_places {c : Conn H} (x : Int) (hget : op.clients[idx]? = some c)
    (hbusy : c.cli.isBusy = true) : (op.dropSlot idx).closed = op.closed ++ [c.cli.ctx.fd] ∧
      (table op).slots.countP (Slot.holds x) =
        (table (op.dropSlot idx)).slots.countP (Slot.holds x) + [c.cli.ctx.fd].count x := by
  have htable := table_drop hget hbusy
  refine ⟨congrArg Table.closed htable, ?_⟩
  rw [htable]
  exact (drop_holds (c := slot c) x (table_slots_getElem? hget) hbusy).symm

/-- **Every instruction moves descriptors on or closes them.** -/
theorem Executes.places (h : Executes op w i op' new) (hkeeps : Keeps op w i) (x : Int) :
    ∃ cs, op'.closed = op.closed ++ cs ∧
      op.ring.count x + carries x i + (table op).slots.countP (Slot.holds x) =
        op'.ring.count x + weigh (carries x) new + (table op').slots.countP (Slot.holds x) +
          cs.count x := by
  cases h with
  | initParsers hslots =>
      refine ⟨[], (List.append_nil _).symm, ?_⟩
      simp only [hslots, table, map_slot_parserInit, carries, weigh_cons, weigh_nil,
        List.count_nil, Nat.add_zero]
  | clientHandled hopen hh hget hbusy hkept =>
      refine ⟨[], (List.append_nil _).symm, ?_⟩
      rw [table_setSlot_kept hget hkept]
      rfl
  | clientFailed hopen hkey hh hget hbusy hkept =>
      refine ⟨[], (List.append_nil _).symm, ?_⟩
      rw [table_setSlot_kept hget hkept]
      rfl
  | popped hring =>
      refine ⟨[], (List.append_nil _).symm, ?_⟩
      simp only [hring, table, carries, weigh_cons, weigh_nil, List.count_cons, List.count_nil,
        beq_iff_eq]
      omega
  -- the ways a descriptor gets lost are what `Keeps` excludes
  | gateShut hnot => exact absurd hkeeps hnot
  | addNoSlot hnone =>
      have hslot := hkeeps.1
      rw [hnone] at hslot
      exact absurd hslot (by simp)
  | addRefused hsome hinit =>
      have hclient := hkeeps.2.1
      rw [hinit] at hclient
      exact absurd hclient (by simp)
  | addUnwatched hsome hinit hadd => exact absurd hkeeps.2.2 hadd
  | added hsome hinit hadd hfds =>
      obtain ⟨c, hget, hidle⟩ := getAvailableClientSlot_free hsome
      refine ⟨[], (List.append_nil _).symm, ?_⟩
      rw [table_adopt _ _ _ _ hget, adopt_holds (c := slot c) x (table_slots_getElem? hget) hidle]
      simp only [setSlot, carries, weigh_cons, weigh_nil, List.count_nil]
      omega
  | @removed fd idx p hfound =>
      obtain ⟨c, hget, hbusy, _⟩ := slotOf_busy hfound
      obtain ⟨hclosed, hcount⟩ := dropSlot_places x hget hbusy
      refine ⟨[c.cli.ctx.fd], hclosed, ?_⟩
      have hring : (op.dropSlot idx).ring = op.ring := rfl
      simp only [table] at hcount ⊢
      simp only [carries, weigh_cons, weigh_nil, hcount, hring]
      omega
  | @evicted idx now c hget hexp =>
      obtain ⟨hclosed, hcount⟩ := dropSlot_places x hget (expired_busy hexp)
      refine ⟨[c.cli.ctx.fd], hclosed, ?_⟩
      have hring : (op.dropSlot idx).ring = op.ring := rfl
      simp only [carries, weigh_cons, weigh_nil, hcount, hring]
      omega
  | _ => exact ⟨[], (List.append_nil _).symm, by simp [carries, table]⟩

/-! ## All places -/

/-- Whether the listener has the descriptor in its hand. -/
def inHand (x : Int) : Listening → Nat
  | .accepted fd | .testing fd _ | .weighing fd _ | .comparing fd _ _
  | .chosen fd _ | .pushing fd _ | .refused fd => if fd = x then 1 else 0
  | _ => 0

/-- How many places hold the descriptor. -/
def held (x : Int) (s : Server H) : Nat :=
  inHand x s.listener + (s.operators.map (places x)).sum

/-- Replacing an operator trades what it held for what the new one holds. -/
theorem held_setThread (x : Int) (th' : OperatorThread H) (hth : s.operators[idx]? = some th) :
    held x (s.setThread idx th') + places x th = held x s + places x th' := by
  have hsum : ∀ {ops : List (OperatorThread H)} {k : Nat}, ops[k]? = some th →
      ((ops.set k th').map (places x)).sum + places x th =
        (ops.map (places x)).sum + places x th' := by
    intro ops
    induction ops with
    | nil => intro k hk; exact absurd hk (by simp)
    | cons o ops ih =>
        intro k hk
        cases k with
        | zero =>
            obtain rfl := Option.some.inj hk
            simp only [List.set_cons_zero, List.map_cons, List.sum_cons]
            omega
        | succ k =>
            have hrest := ih hk
            simp only [List.set_cons_succ, List.map_cons, List.sum_cons]
            omega
  have hops := hsum hth
  have hlistener : (s.setThread idx th').listener = s.listener := rfl
  have hset : (s.setThread idx th').operators = s.operators.set idx th' := rfl
  unfold held
  rw [hlistener, hset]
  omega

/-- A change to an operator that moves no descriptor. -/
theorem held_update (idx : Nat) (x : Int) (f : Operator H → Operator H)
    (hf : ∀ op, (f op).ring = op.ring ∧ (f op).clients = op.clients) :
    held x (s.update idx f) = held x s := by
  cases hth : s.operators[idx]? with
  | none =>
      have hsame : (s.update idx f).operators = s.operators :=
        List.modify_eq_self (List.getElem?_eq_none_iff.mp hth)
      unfold held
      rw [hsame]
      rfl
  | some th =>
      have hplaces : places x ⟨f th.state, th.code⟩ = places x th := by
        simp only [places, table, (hf th.state).1, (hf th.state).2]
      have hset := held_setThread x ⟨f th.state, th.code⟩ hth
      rw [update_eq_setThread f hth]
      omega

/-- `operator_shutdown` closes what the slots hold. -/
theorem count_leftOpen (x : Int) (op : Operator H) :
    op.leftOpen.count x = (table op).slots.countP (Slot.holds x) := by
  unfold Operator.leftOpen table
  dsimp only
  induction op.clients with
  | nil => rfl
  | cons c cs ih =>
      have hhead : (clientShutdown c.cli).2.count x = if Slot.holds x (slot c) then 1 else 0 := by
        cases hbusy : c.cli.isBusy with
        | false => simp [clientShutdown_of_free hbusy, Slot.holds, slot, hbusy]
        | true => simp [clientShutdown_closes hbusy, Slot.holds, slot, hbusy, List.count_singleton]
      rw [List.flatMap_cons, List.count_append, ih, hhead, List.map_cons, List.countP_cons]
      omega

/-- What is freed with nothing in a ring and no thread under way is closed. -/
theorem count_freed (x : Int) (hrings : ∀ th ∈ s.operators, th.state.ring = [])
    (hcodes : ∀ th ∈ s.operators, th.code = []) :
    s.leftOpen.count x = (s.operators.map (places x)).sum := by
  unfold Server.leftOpen
  rw [List.count_flatMap]
  congr 1
  refine List.map_congr_left fun th hth => ?_
  simp only [Function.comp_apply, count_leftOpen, places, hrings th hth, hcodes th hth,
    List.count_nil, weigh_nil, Nat.zero_add]

/-! ## One step -/

/--
The wakeup handler drops nothing, the rings are empty when the operators are freed, and
the listener does not access an operator that is gone.
-/
def KeepsDescriptors (s : Server H) : ServerAct H → Prop
  | .listener => ∀ idx ∈ target s.listener, s.operators[idx]?.isSome = true
  | .operator idx w => ∀ th ∈ s.operators[idx]?, ∀ i ∈ th.code.head?, Keeps th.state w i
  | .main _ =>
      match s.main with
      | .destroy .free _ => ∀ th ∈ s.operators, th.state.ring = []
      | _ => True
  | _ => True

instance (s : Server H) (a : ServerAct H) : Decidable (KeepsDescriptors s a) := by
  unfold KeepsDescriptors
  cases a with
  | main _ =>
      cases s.main with
      | destroy d _ => cases d <;> infer_instance
      | _ => infer_instance
  | _ => infer_instance

/-- The listener keeps what it has in its hand while it moves on. -/
theorem ListenerMove.inHand_eq {l l' : Listening} (h : ListenerMove s l l')
    (hok : ∀ idx ∈ target l, s.operators[idx]?.isSome = true) (x : Int) :
    Proof.inHand x l' = Proof.inHand x l := by
  cases h with
  | crashed htarget hnone =>
      have hsome := hok _ htarget
      rw [hnone] at hsome
      exact absurd hsome (by simp)
  | _ => rfl

theorem MainMove.count_eq_zero {m m' : Running} {es : List ServerEvent} (h : MainMove s m m' es)
    (x : Int) : es.count (.accepted x) = 0 ∧ es.count (.closed x) = 0 := by
  cases h <;> exact ⟨by simp, by simp⟩

theorem MainTouch.keeps {m m' : Running} {f : Operator H → Operator H} (h : MainTouch m idx f m')
    (op : Operator H) : (f op).ring = op.ring ∧ (f op).clients = op.clients := by
  cases h <;> exact ⟨rfl, rfl⟩

theorem count_shown {cs : List Int} (idx clock : Nat) (x : Int)
    (hclosed : th'.state.closed = th.state.closed ++ cs) :
    (shown idx clock th th').count (.accepted x) = 0 ∧
      (shown idx clock th th').count (.closed x) = cs.count x := by
  have hby : closedBy th th' = cs := by
    unfold closedBy
    rw [hclosed, List.drop_left]
  have hinj : Function.Injective ServerEvent.closed := fun _ _ heq => ServerEvent.closed.inj heq
  refine ⟨List.count_eq_zero.mpr fun hmem => ?_, ?_⟩
  · rcases mem_shown hmem with ⟨b, heq⟩ | ⟨fd, heq⟩
    · exact ServerEvent.noConfusion heq
    · exact ServerEvent.noConfusion heq
  · unfold shown
    rw [List.count_append, hby, List.count_map_of_injective _ _ hinj]
    split
    · split <;> simp
    · simp

/-- A step of the listener that leaves the operators alone. -/
theorem held_listen (x : Int) (hops : t.operators = s.operators) :
    held x t + inHand x s.listener = held x s + inHand x t.listener := by
  unfold held
  rw [hops]
  omega

theorem held_congr (x : Int) (hops : t.operators = s.operators)
    (hhand : inHand x t.listener = inHand x s.listener) : held x t = held x s := by
  unfold held
  rw [hops, hhand]

/-- A step of the listener that moves no descriptor. -/
theorem held_listen_update (x : Int) {l : Listening} (f : Operator H → Operator H)
    (hf : ∀ op, (f op).ring = op.ring ∧ (f op).clients = op.clients)
    (hhand : inHand x l = inHand x s.listener) :
    held x ((s.update idx f).listen l) = held x s :=
  (held_congr (s := s.update idx f) (t := (s.update idx f).listen l) x rfl hhand).trans
    (held_update idx x f hf)

/-- **Every step moves descriptors on, accepts one or closes them.** -/
theorem ServerStep.held (h : ServerStep s a t) (hok : KeepsDescriptors s a)
    (hquiet : ∀ j, Through s.worker.threadsStarted s.main j → ∀ th, s.operators[j]? = some th →
      th.code = []) :
    ∃ es, t.log = s.log ++ es ∧ ∀ x, Proof.held x s + es.count (.accepted x) =
      Proof.held x t + es.count (.closed x) := by
  have hsilent : ∀ {u : Server H}, (∀ x, Proof.held x u = Proof.held x s) → u.log = s.log →
      ∃ es, u.log = s.log ++ es ∧ ∀ x, Proof.held x s + es.count (.accepted x) =
        Proof.held x u + es.count (.closed x) := by
    intro u hu hlog
    exact ⟨[], by rw [hlog, List.append_nil], fun x => by rw [hu x]; rfl⟩
  -- what is freed: every descriptor in a slot is closed, and there is none elsewhere
  have hfreed : ∀ {created last : Bool}, s.main = .destroy .free last →
      KeepsDescriptors s (.main created) → ∀ x,
      Proof.held x s + (s.leftOpen.map ServerEvent.closed).count (.accepted x) =
        inHand x s.listener + (s.leftOpen.map ServerEvent.closed).count (.closed x) := by
    intro created last hm hok x
    have hrings : ∀ th ∈ s.operators, th.state.ring = [] := by
      unfold KeepsDescriptors at hok
      simp only [hm] at hok
      exact hok
    have hcodes : ∀ th ∈ s.operators, th.code = [] := by
      intro th hth
      obtain ⟨j, hj⟩ := List.getElem?_of_mem hth
      exact hquiet j (by rw [hm]; trivial) th hj
    have hinj : Function.Injective ServerEvent.closed := fun _ _ heq => ServerEvent.closed.inj heq
    have hcount := count_freed x hrings hcodes
    have hnone : (s.leftOpen.map ServerEvent.closed).count (.accepted x) = 0 :=
      List.count_eq_zero.mpr (by simp)
    rw [hnone, List.count_map_of_injective _ _ hinj, hcount]
    rfl
  cases h with
  | @accepted fd hl hfd hfresh =>
      refine ⟨[.accepted fd], rfl, fun x => ?_⟩
      have hlisten := held_listen x (s := s) (t := (s.listen (.accepted fd)).note [.accepted fd]) rfl
      have hbefore : Proof.inHand x s.listener = 0 := by rw [hl]; rfl
      have hafter : Proof.inHand x (.accepted fd) = if fd = x then 1 else 0 := rfl
      simp only [Server.listen, Server.note] at hlisten ⊢
      simp [List.count_singleton]
      omega
  | listens hmove => exact hsilent (fun x => held_congr x rfl (hmove.inHand_eq hok x)) rfl
  | compared hl hth hcompare =>
      refine hsilent (fun x => held_congr x ?_ ?_) rfl
      · exact (apply_ite Worker.operators _ _ _).trans (ite_self _)
      · rw [hl]
        rfl
  | @pushed fd idx th hl hth hroom =>
      refine ⟨[.pushed fd idx th.state.status], rfl, fun x => ?_⟩
      have hplaces : Proof.places x ⟨{ th.state with ring := th.state.ring ++ [fd] }, th.code⟩ =
          Proof.places x th + if fd = x then 1 else 0 := by
        simp only [Proof.places, table, List.count_append, List.count_singleton, beq_iff_eq]
        omega
      generalize (⟨{ th.state with ring := th.state.ring ++ [fd] }, th.code⟩ :
        OperatorThread H) = th' at hplaces ⊢
      have hset := held_setThread x th' hth
      -- out of the hand, into the ring
      have hbefore : Proof.inHand x (s.setThread idx th').listener = if fd = x then 1 else 0 := by
        have hsame : (s.setThread idx th').listener = s.listener := rfl
        rw [hsame, hl]
        rfl
      have hlisten := held_listen x (s := s.setThread idx th')
        (t := ((s.setThread idx th').listen (.pushed idx)).note [.pushed fd idx th.state.status]) rfl
      have hafter : Proof.inHand x (((s.setThread idx th').listen (.pushed idx)).note
        [.pushed fd idx th.state.status]).listener = 0 := rfl
      simp only [List.count_singleton, reduceCtorEq, beq_iff_eq, if_false]
      omega
  | counted hl hth =>
      refine hsilent (fun x => held_listen_update x _ (fun op => ⟨rfl, rfl⟩) ?_) rfl
      rw [hl]
      rfl
  | woken hl hth =>
      refine hsilent (fun x => held_listen_update x _ (fun op => ⟨rfl, rfl⟩) ?_) rfl
      rw [hl]
      rfl
  | @refused fd hl =>
      refine ⟨[.closed fd], rfl, fun x => ?_⟩
      have hlisten := held_listen x (s := s) (t := (s.listen .waiting).note [.closed fd]) rfl
      have hbefore : Proof.inHand x s.listener = if fd = x then 1 else 0 := by rw [hl]; rfl
      have hafter : Proof.inHand x .waiting = 0 := rfl
      simp only [Server.listen, Server.note] at hlisten ⊢
      simp [List.count_singleton]
      omega
  | listenerStops hl =>
      refine hsilent (fun x => held_congr x rfl ?_) rfl
      rw [hl]
      rfl
  | @executed idx w th i op' new rest hth hcode hexec =>
      refine ⟨_, rfl, fun x => ?_⟩
      obtain ⟨cs, hclosed, hplaces⟩ := hexec.places (hok th hth i (by simp [hcode])) x
      obtain ⟨hzero, hcount⟩ : (shown idx s.clock th ⟨op', new ++ rest⟩).count (.accepted x) = 0 ∧
          (shown idx s.clock th ⟨op', new ++ rest⟩).count (.closed x) = cs.count x :=
        count_shown idx s.clock x hclosed
      have hset := held_setThread x ⟨op', new ++ rest⟩ hth
      have hsame := held_congr x (s := s.setThread idx ⟨op', new ++ rest⟩)
        (t := (s.setThread idx ⟨op', new ++ rest⟩).note
          (shown idx s.clock th ⟨op', new ++ rest⟩)) rfl rfl
      simp only [Proof.places, hcode, weigh_cons, weigh_append] at hset
      omega
  | moves hmove =>
      refine ⟨_, rfl, fun x => ?_⟩
      obtain ⟨haccepted, hclosed⟩ := hmove.count_eq_zero x
      rw [haccepted, hclosed]
      exact congrArg (· + 0) (held_congr x rfl rfl).symm
  | @created idx th hm hth =>
      refine hsilent (fun x => ?_) rfl
      have hset := held_setThread x ⟨th.state, [.initParsers]⟩ hth
      have hcode := hquiet idx (by rw [hm]; exact le_rfl) th hth
      have hplaces : Proof.places x ⟨th.state, [.initParsers]⟩ = Proof.places x th := by
        simp only [Proof.places, hcode, weigh_cons, weigh_nil, carries]
      have hsame := held_congr x (s := s.setThread idx ⟨th.state, [.initParsers]⟩)
        (t := (s.setThread idx ⟨th.state, [.initParsers]⟩).goTo (.create (idx + 1))) rfl rfl
      omega
  | touches htouch =>
      refine hsilent (fun x => ?_) rfl
      exact (held_congr (s := s.update _ _) x rfl rfl).trans (held_update _ x _ htouch.keeps)
  | freed hm =>
      refine ⟨s.leftOpen.map ServerEvent.closed, rfl, fun x => ?_⟩
      exact hfreed hm hok x
  | givenUp hm =>
      refine ⟨s.leftOpen.map ServerEvent.closed ++ [.returned .failure], ?_, fun x => ?_⟩
      · exact List.append_assoc ..
      · simp only [List.count_append, List.count_singleton, reduceCtorEq, beq_iff_eq, if_false,
          Nat.add_zero]
        exact hfreed hm hok x
  | @requestStored idx =>
      refine ⟨[.requested idx], rfl, fun x => ?_⟩
      have hupdate := held_update (s := s) idx x shutdownRequested fun op => ⟨rfl, rfl⟩
      have hsame := held_congr x (s := s.update idx shutdownRequested)
        (t := (s.update idx shutdownRequested).note [.requested idx]) rfl rfl
      simp only [List.count_singleton, reduceCtorEq, beq_iff_eq, if_false]
      omega
  | requestWritten => exact hsilent (fun x => held_update _ x _ fun op => ⟨rfl, rfl⟩) rfl
  | _ => exact hsilent (fun x => held_congr x rfl rfl) rfl

/-- Only `accept` accepts, and what it returns is not open. -/
theorem ServerStep.accepts (h : ServerStep s a t) :
    (∀ x, t.log.count (.accepted x) = s.log.count (.accepted x)) ∨
      ∃ fd, s.listener = .waiting ∧ s.log.count (.accepted fd) = s.log.count (.closed fd) ∧ ∀ x,
        t.log.count (.accepted x) = s.log.count (.accepted x) + if fd = x then 1 else 0 := by
  have hsilent : ∀ {es : List ServerEvent}, (∀ x, .accepted x ∉ es) → ∀ x,
      (s.log ++ es).count (.accepted x) = s.log.count (.accepted x) := by
    intro es hes x
    rw [List.count_append, List.count_eq_zero.mpr (hes x), Nat.add_zero]
  cases h with
  | @accepted fd hl hfd hfresh =>
      refine .inr ⟨fd, hl, hfresh.1, fun x => ?_⟩
      simp [Server.note, Server.listen, List.count_append, List.count_singleton]
  | pushed hl hth hroom => exact .inl (hsilent (by simp))
  | refused hl => exact .inl (hsilent (by simp))
  | executed hth hcode hexec =>
      refine .inl (hsilent fun x hmem => ?_)
      rcases mem_shown hmem with ⟨b, heq⟩ | ⟨fd, heq⟩
      · exact ServerEvent.noConfusion heq
      · exact ServerEvent.noConfusion heq
  | moves hmove =>
      exact .inl (hsilent fun x => List.count_eq_zero.mp (hmove.count_eq_zero x).1)
  | freed hm => exact .inl (hsilent (by simp))
  | givenUp hm =>
      refine .inl fun x => ?_
      have hlog : (s.freed.runReturns .failure).log =
          s.log ++ (s.leftOpen.map ServerEvent.closed ++ [.returned .failure]) :=
        List.append_assoc ..
      rw [hlog]
      exact hsilent (by simp) x
  | requestStored => exact .inl (hsilent (by simp))
  | _ => exact .inl fun x => rfl

/-! ## Every run -/

/-- Every descriptor that is open is in one place, and no other is anywhere. -/
structure Conserved (s : Server H) : Prop where
  balance : ∀ x, s.log.count (.accepted x) = s.log.count (.closed x) + held x s
  once : ∀ x, held x s ≤ 1

theorem conserved_reachable (h : (server H).ReachableBy KeepsDescriptors s) : Conserved s := by
  refine h.invariant ?_ ?_
  · intro s hs
    have hheld : ∀ x, held x s = 0 := by
      intro x
      unfold held
      rw [hs.listener]
      refine Nat.add_eq_zero_iff.mpr ⟨rfl, List.sum_eq_zero fun n hn => ?_⟩
      obtain ⟨th, hth, rfl⟩ := List.mem_map.mp hn
      obtain ⟨hop, hcode, _⟩ := hs.operators th hth
      simp [places, hop.ring, hcode, table, hop.clients, Slot.holds, slot, Conn.fresh,
        Client.zeroed]
    refine ⟨fun x => ?_, fun x => ?_⟩
    · rw [hs.log, hheld]
      rfl
    · rw [hheld]
      exact Nat.zero_le 1
  · intro s a t hr hs hok hstep
    have h := server_step hstep
    obtain ⟨es, hlog, hmoved⟩ := h.held hok (quiet_reachable hr)
    have hbalance : ∀ x, t.log.count (.accepted x) = t.log.count (.closed x) + held x t := by
      intro x
      have hold := hs.balance x
      have hmove := hmoved x
      rw [hlog, List.count_append, List.count_append]
      omega
    refine ⟨hbalance, fun x => ?_⟩
    have hold := hs.balance x
    have honce := hs.once x
    have hnew := hbalance x
    have hclosed : s.log.count (.closed x) ≤ t.log.count (.closed x) := by
      rw [hlog, List.count_append]
      exact Nat.le_add_right ..
    rcases h.accepts with hsame | ⟨fd, _, hfresh, hone⟩
    · have hcount := hsame x
      omega
    · have hcount := hone x
      by_cases hx : fd = x
      · -- it was closed as often as it was accepted, so nobody held it
        subst hx
        rw [if_pos rfl] at hcount
        omega
      · rw [if_neg hx] at hcount
        omega

/-- The main thread has joined the listener. -/
def ListenerJoined : Running → Prop
  | .total _ _ _ | .waiting _ | .done => True
  | .destroy _ last => last = true
  | _ => False

theorem MainMove.listenerJoined {m m' : Running} {es : List ServerEvent} (h : MainMove s m m' es)
    (hjoined : ListenerJoined m') : ListenerJoined m ∨ s.listener = .stopped := by
  cases h with
  | stopped hl => exact .inr hl
  | failed hth hinit hactive => exact absurd hjoined (by simp [ListenerJoined])
  | timedOut hle => exact absurd hjoined (by simp [ListenerJoined])
  | allStored hnone => exact .inl hjoined
  | joined hth hcode => exact .inl hjoined
  | allJoined hnone => exact .inl hjoined
  | added hth => exact .inl trivial
  | drained hnone => exact .inl trivial
  | busy hnone hsum => exact .inl trivial
  | graceOver hle => exact .inl trivial
  | again hlt => exact .inl trivial
  | _ => exact absurd hjoined id

theorem ServerStep.listenerJoined (h : ServerStep s a t) (hjoined : ListenerJoined t.main) :
    ListenerJoined s.main ∨ s.listener = .stopped := by
  cases h with
  | moves hmove => exact hmove.listenerJoined hjoined
  | allCreated hm hnone => exact absurd hjoined id
  | created hm hth => exact absurd hjoined id
  | @touches _ idx f m htouch =>
      refine .inl ?_
      generalize s.main = m₀ at htouch ⊢
      cases htouch <;> exact hjoined
  | inactive hm =>
      rw [hm]
      exact .inl hjoined
  | freed hm =>
      rw [hm]
      exact .inl rfl
  | givenUp hm => exact absurd hjoined id
  | _ => exact .inl hjoined

/-- A listener that has stopped does nothing any more. -/
theorem ServerStep.stopped (h : ServerStep s a t) (hl : s.listener = .stopped) :
    t.listener = .stopped := by
  cases h with
  | accepted hl' hfd hfresh => exact absurd (hl.symm.trans hl') (by simp)
  | listens hmove =>
      rw [hl] at hmove
      cases hmove with
      | crashed htarget hnone => exact absurd htarget (by simp [target])
  | compared hl' hth hcompare => exact absurd (hl.symm.trans hl') (by simp)
  | pushed hl' hth hroom => exact absurd (hl.symm.trans hl') (by simp)
  | counted hl' hth => exact absurd (hl.symm.trans hl') (by simp)
  | woken hl' hth => exact absurd (hl.symm.trans hl') (by simp)
  | refused hl' => exact absurd (hl.symm.trans hl') (by simp)
  | listenerStops hl' => rfl
  | _ => exact hl

/-- The drain and the last `worker_destroy` run without a listener. -/
theorem stopped_reachable {ok : Server H → ServerAct H → Prop}
    (h : (server H).ReachableBy ok s) : ListenerJoined s.main → s.listener = .stopped := by
  refine h.invariant (P := fun s => ListenerJoined s.main → s.listener = .stopped) ?_ ?_
  · intro s hs hjoined
    rw [hs.main] at hjoined
    exact absurd hjoined id
  · intro s a t _ hs _ hstep hjoined
    have h := server_step hstep
    exact h.stopped ((h.listenerJoined hjoined).elim hs id)

/-- The last `worker_destroy` leaves no operator. -/
theorem done_reachable {ok : Server H → ServerAct H → Prop} (h : (server H).ReachableBy ok s) :
    s.main = .done → s.operators = [] := by
  refine h.invariant (P := fun s => s.main = .done → s.operators = []) ?_ ?_
  · intro s hs hm
    rw [hs.main] at hm
    exact absurd hm (by simp)
  · intro s a t _ hs _ hstep hm
    have h := server_step hstep
    have hsame : s.main = .done → t.operators = [] := fun hdone => h.operators_nil (hs hdone)
    cases h with
    | @moves _ m es hmove =>
        obtain rfl : m = .done := hm
        generalize s.main = m₀ at hmove
        cases hmove
    | @touches _ idx f m htouch =>
        obtain rfl : m = .done := hm
        generalize s.main = m₀ at htouch
        cases htouch
    | allCreated hmain hnone => exact absurd hm (by simp [goTo])
    | created hmain hth => exact absurd hm (by simp [goTo])
    | inactive hmain => exact absurd hm (by simp [goTo])
    | freed hmain => rfl
    | givenUp hmain => rfl
    | _ => exact hsame hm

/--
**As long as descriptors are kept, an open one is in exactly one place and none is closed
twice; behind `worker_destroy` none is open.**
-/
theorem descriptors_conserved (h : (server H).ReachableBy KeepsDescriptors s) :
    (∀ x, s.log.count (.accepted x) = s.log.count (.closed x) + held x s ∧ held x s ≤ 1) ∧
      (s.operators = [] → ∀ x, held x s = inHand x s.listener) ∧
      (s.main = .done → ∀ x, s.log.count (.accepted x) = s.log.count (.closed x)) := by
  have hconserved := conserved_reachable h
  have hempty : s.operators = [] → ∀ x, held x s = inHand x s.listener := by
    intro hnil x
    unfold held
    rw [hnil]
    rfl
  refine ⟨fun x => ⟨hconserved.balance x, hconserved.once x⟩, hempty, ?_⟩
  intro hm x
  have hheld := hempty (done_reachable h hm) x
  rw [stopped_reachable h (by rw [hm]; trivial)] at hheld
  have hbalance := hconserved.balance x
  rw [hheld] at hbalance
  exact hbalance

/-- One client, from `accept` to the last `worker_destroy`. -/
theorem descriptors_conserved_one : ∃ s : Server DbHttp.small, s.main = .done ∧
    s.log.count (.accepted 7) = 1 ∧ s.log.count (.closed 7) = 1 := by
  have hinit : (server DbHttp.small).ReachableBy KeepsDescriptors (Server.small 1) :=
    .init (serverInit_small (.inl rfl))
  obtain ⟨t, ht, hdone⟩ := hinit.exists_of_run
    (creates 1 ++ operates 0 3 [] ++ List.replicate 3 (.main true) ++ [.accept 7] ++ listens 9 ++
      operates 0 11 [wakeupEvent] ++ [.stop] ++ List.replicate 3 (.main true) ++
      [.tick serverShutdownGrace] ++ List.replicate 5 (.main true) ++
      operates 0 7 [wakeupEvent] ++ List.replicate 3 (.main true))
    (fun s => s.main == .done && s.log.count (.accepted 7) == 1) (by decide +kernel)
  simp only [Bool.and_eq_true, beq_iff_eq] at hdone
  obtain ⟨hm, haccepted⟩ := hdone
  exact ⟨t, hm, haccepted, (descriptors_conserved ht).2.2 hm 7 ▸ haccepted⟩

/--
A ninth connection enters the ring as the first is popped. By the time it is popped
itself the operator is `FULL`, and the handler drops it without closing it.
-/
theorem descriptors_not_conserved : ¬∀ (H : DbHttp) (s : Server H), (server H).Reachable s →
    ∀ x, s.log.count (.accepted x) = s.log.count (.closed x) + held x s ∧ held x s ≤ 1 := by
  intro hall
  have hinit : (server DbHttp.small).Reachable (Server.small 1) :=
    .init (serverInit_small (.inl rfl))
  obtain ⟨t, ht, hlost⟩ := hinit.exists_of_run
    (creates 1 ++ (List.range 8).flatMap (fun k => .accept (20 + k) :: listens 9) ++
      operates 0 7 [wakeupEvent] ++ [.accept 28] ++ listens 9 ++ operates 0 43 [])
    (fun s => held 28 s == 0 && s.log.count (.accepted 28) == 1 && s.log.count (.closed 28) == 0)
    (by decide +kernel)
  simp only [Bool.and_eq_true, beq_iff_eq] at hlost
  obtain ⟨⟨hheld, haccepted⟩, hclosed⟩ := hlost
  have hbalance := (hall _ t ht 28).1
  omega

end DBServer.Proof
