import DBServer.Proof.Server

/-!
# The startup gate

`worker_run` polls the operators one after the other while they already serve. What it
may rely on is that an operator's status tells how its initialization went: `ACTIVE` and
`FULL` only come after a success was reported, `INIT_FAILED` after a failure, `SHUTDOWN`
after a request. The gate itself takes `FULL` for a failure, and its clock runs on
between the look at the status and the look at the deadline; `GateSees` leaves these two
out.
-/

namespace DBServer.Proof

open DBServer Lib Operator Server

variable {H : DbHttp} {s t : Server H} {a : ServerAct H} {op op' : Operator H} {i : Instr}
  {w : Answers H} {new : List Instr} {th : OperatorThread H} {idx j : Nat}

/-- The operator's thread reported the end of its initialization. -/
def Reported (l : List ServerEvent) (idx : Nat) (initFailed : Bool) : Prop :=
  ∃ time, .reported idx initFailed time ∈ l

/-- It did so before `deadline`. -/
def ReportedBefore (l : List ServerEvent) (idx deadline : Nat) : Prop :=
  ∃ e ∈ l, match e with
    | .reported j _ time => j = idx ∧ time < deadline
    | _ => False

instance (l : List ServerEvent) (idx deadline : Nat) :
    Decidable (ReportedBefore l idx deadline) := by
  unfold ReportedBefore
  refine @List.decidableBEx _ _ (fun e => ?_) l
  cases e <;> infer_instance

/-- A reason for `worker_run` to fail. -/
inductive RealFailure (s : Server H) : Prop where
  | create {idx : Nat} : .createFailed idx ∈ s.log → RealFailure s
  | init {idx : Nat} : Reported s.log idx true → RealFailure s
  /-- The operator had not reported by its deadline. -/
  | late {idx since : Nat} : .awaited idx since ∈ s.log →
      since + workerOperatorInitTimeout ≤ s.clock →
      ¬ReportedBefore s.log idx (since + workerOperatorInitTimeout) → RealFailure s
  | requested {idx : Nat} : .requested idx ∈ s.log → RealFailure s

/--
The gate does not find the operator `FULL`, and does not find its deadline passed when
the operator has reported in time but after the gate last looked.
-/
def GateSees (s : Server H) : ServerAct H → Prop
  | .main _ =>
      match s.main with
      | .poll idx _ => (s.operators[idx]?.map fun t => t.state.status) ≠ some .full
      | .late idx deadline => s.clock < deadline ∨ ¬ReportedBefore s.log idx deadline
      | _ => True
  | _ => True

instance (s : Server H) : (a : ServerAct H) → Decidable (GateSees s a)
  | .main _ => by
      unfold GateSees
      exact match s.main with
        | .poll _ _ => inferInstance
        | .late _ _ => inferInstance
        | .create _ | .undoStore _ _ | .undoWrite _ _ | .undoJoin _ _ | .gate _ | .destroy _ _
        | .returned _ | .total _ _ _ | .waiting _ | .done => inferInstance
  | .accept _ | .listener | .stop | .operator _ _ | .tick _ | .requestStore _ | .requestWrite _ =>
      inferInstanceAs (Decidable True)

/-! ## The log -/

theorem MainMove.not_reported {m m' : Running} {es : List ServerEvent} (h : MainMove s m m' es)
    (j : Nat) (b : Bool) (time : Nat) : .reported j b time ∉ es := by
  cases h <;> simp

/-- The log and the clock only grow, and only an operator's thread reports. -/
theorem ServerStep.log (h : ServerStep s a t) : s.clock ≤ t.clock ∧
    ∃ es, t.log = s.log ++ es ∧ ∀ j b time, .reported j b time ∈ es →
      time = s.clock ∧ ∃ w, a = .operator j w := by
  cases h with
  | @executed idx w th i op' new rest hth hcode hexec =>
      refine ⟨le_rfl, _, rfl, ?_⟩
      intro j b time hmem
      rcases List.mem_append.mp hmem with hmem | hmem
      · split at hmem
        · split at hmem
          · obtain ⟨rfl, rfl, rfl⟩ := ServerEvent.reported.inj (List.mem_singleton.mp hmem)
            exact ⟨rfl, w, rfl⟩
          · exact absurd hmem (by simp)
        · exact absurd hmem (by simp)
      · exact absurd hmem (by simp)
  | moves hmove =>
      refine ⟨le_rfl, _, rfl, ?_⟩
      intro j b time hmem
      exact absurd hmem (hmove.not_reported j b time)
  | ticked => exact ⟨Nat.le_add_right _ _, [], (List.append_nil _).symm, by simp⟩
  | freed hm => exact ⟨le_rfl, _, rfl, by simp⟩
  | givenUp hm =>
      refine ⟨le_rfl, s.leftOpen.map ServerEvent.closed ++ [ServerEvent.returned .failure], ?_,
        by simp⟩
      exact List.append_assoc ..
  | accepted hl hfd hfresh => exact ⟨le_rfl, _, rfl, by simp⟩
  | pushed hl hth hroom => exact ⟨le_rfl, _, rfl, by simp⟩
  | refused hl => exact ⟨le_rfl, _, rfl, by simp⟩
  | requestStored => exact ⟨le_rfl, _, rfl, by simp⟩
  | _ => exact ⟨le_rfl, [], (List.append_nil _).symm, by simp⟩

theorem ServerStep.mem_log (h : ServerStep s a t) {e : ServerEvent} (he : e ∈ s.log) :
    e ∈ t.log := by
  obtain ⟨_, es, hlog, _⟩ := h.log
  rw [hlog]
  exact List.mem_append_left _ he

theorem Reported.step {b : Bool} (hr : Reported s.log j b) (h : ServerStep s a t) :
    Reported t.log j b := by
  obtain ⟨time, hmem⟩ := hr
  exact ⟨time, h.mem_log hmem⟩

/-- Nobody reports in time any more once the deadline has passed. -/
theorem ReportedBefore.of_step {deadline : Nat} (h : ServerStep s a t) (hle : deadline ≤ s.clock)
    (hr : ReportedBefore t.log j deadline) : ReportedBefore s.log j deadline := by
  obtain ⟨_, es, hlog, hes⟩ := h.log
  obtain ⟨e, he, hmatch⟩ := hr
  rw [hlog] at he
  rcases List.mem_append.mp he with he | he
  · exact ⟨e, he, hmatch⟩
  · cases e with
    | reported k b time =>
        obtain ⟨hk, hlt⟩ := hmatch
        obtain ⟨htime, _⟩ := hes k b time he
        omega
    | _ => exact absurd hmatch id

/-- A reason stays one. -/
theorem RealFailure.step (hf : RealFailure s) (h : ServerStep s a t) : RealFailure t := by
  cases hf with
  | create hmem => exact .create (h.mem_log hmem)
  | init hr => exact .init (hr.step h)
  | late hmem hle hnot =>
      exact .late (h.mem_log hmem) (hle.trans h.log.1) fun hr => hnot (hr.of_step h hle)
  | requested hmem => exact .requested (h.mem_log hmem)

/-! ## What a status tells -/

/-- The instructions behind a reported success. -/
def serves : Instr → Bool
  | .initParsers | .publish _ => false
  | _ => true

/-- A thread serves only behind its report of a success. -/
theorem Executes.serves (h : Executes op w i op' new) :
    (∃ k ∈ new, Proof.serves k = true) → Proof.serves i = true ∨
      i = .publish false ∧ op.status = .initializing := by
  cases h with
  | published hinit => exact fun _ => .inr ⟨rfl, hinit⟩
  | initParsers hslots =>
      rintro ⟨k, hk, hserves⟩
      obtain rfl := List.mem_singleton.mp hk
      exact absurd hserves (by simp [Proof.serves])
  | initFailed hinit => exact fun ⟨k, hk, _⟩ => absurd hk (by simp)
  | overtaken hlate => exact fun ⟨k, hk, _⟩ => absurd hk (by simp)
  | _ => exact fun _ => .inl rfl

/-- The main thread has not yet given up on the operators. -/
def Starting : Running → Prop
  | .create _ | .gate _ | .poll _ _ | .late _ _ => True
  | _ => False

/-- What an operator's code and status tell about the reports so far. -/
structure Tells (l : List ServerEvent) (main : Running) (j : Nat) (th : OperatorThread H) :
    Prop where
  served : (∃ k ∈ th.code, serves k = true) → Reported l j false
  status : Starting main → match th.state.status with
    | .initializing => ∀ b, ¬Reported l j b
    | .active | .full => Reported l j false
    | .initFailed => Reported l j true
    | .shutdown => .requested j ∈ l
    | _ => False

/-- Without a new report, and with the operator's code as it was. -/
theorem Tells.mono {l l' : List ServerEvent} {main main' : Running} {es : List ServerEvent}
    (h : Tells l main j th) (hlog : l' = l ++ es)
    (hes : ∀ b time, .reported j b time ∉ es) (hmain : Starting main' → Starting main) :
    Tells l' main' j th := by
  have hmem : ∀ {e : ServerEvent}, e ∈ l → e ∈ l' := by
    intro e he
    rw [hlog]
    exact List.mem_append_left _ he
  have hrep : ∀ {b : Bool}, Reported l j b → Reported l' j b := by
    rintro b ⟨time, htime⟩
    exact ⟨time, hmem htime⟩
  refine ⟨fun hserves => hrep (h.served hserves), ?_⟩
  intro hstarting
  have hold := h.status (hmain hstarting)
  split at hold
  · rintro b ⟨time, htime⟩
    rw [hlog] at htime
    rcases List.mem_append.mp htime with htime | htime
    · exact hold b ⟨time, htime⟩
    · exact hes b time htime
  · exact hrep hold
  · exact hrep hold
  · exact hrep hold
  · exact hmem hold
  · exact absurd hold id

/-- An operator's thread keeps its code and its reports in step. -/
theorem Tells.executes {rest : List Instr} {m : Running} {clock : Nat} (h : Tells s.log m j th)
    (hstores : StoresServing th.code) (hcode : th.code = i :: rest)
    (hexec : Executes th.state w i op' new) :
    Tells (s.log ++ shown j clock th ⟨op', new ++ rest⟩) m j ⟨op', new ++ rest⟩ := by
  -- what the step reports, if it reports at all
  have hshown : ∀ b time, .reported j b time ∈ shown j clock th ⟨op', new ++ rest⟩ →
      i = .publish b ∧ th.state.status = .initializing := by
    intro b time hmem
    rcases List.mem_append.mp hmem with hmem | hmem
    · rw [hcode] at hmem
      split at hmem
      · rename_i b' rest' heq
        obtain ⟨rfl, rfl⟩ := List.cons.inj heq
        split at hmem
        · obtain ⟨_, rfl, _⟩ := ServerEvent.reported.inj (List.mem_singleton.mp hmem)
          exact ⟨rfl, ‹_›⟩
        · exact absurd hmem (by simp)
      · exact absurd hmem (by simp)
    · exact absurd hmem (by simp)
  have hnow : ∀ b, i = .publish b → th.state.status = .initializing →
      Reported (s.log ++ shown j clock th ⟨op', new ++ rest⟩) j b := by
    rintro b rfl hinit
    refine ⟨clock, List.mem_append_right _ (List.mem_append_left _ ?_)⟩
    rw [hcode]
    simp only [hinit, if_true, List.mem_singleton]
  have hold : ∀ {b : Bool}, Reported s.log j b →
      Reported (s.log ++ shown j clock th ⟨op', new ++ rest⟩) j b := by
    rintro b ⟨time, hmem⟩
    exact ⟨time, List.mem_append_left _ hmem⟩
  refine ⟨?_, ?_⟩
  · rintro ⟨k, hk, hserves⟩
    rcases List.mem_append.mp hk with hk | hk
    · rcases hexec.serves ⟨k, hk, hserves⟩ with hi | ⟨rfl, hinit⟩
      · exact hold (h.served ⟨i, by rw [hcode]; exact .head _, hi⟩)
      · exact hnow false rfl hinit
    · exact hold (h.served ⟨k, by rw [hcode]; exact .tail _ hk, hserves⟩)
  · intro hstarting
    have htold := h.status hstarting
    have hchange := hexec.statusChange
    dsimp only
    generalize hst : op'.status = st at hchange ⊢
    cases hchange with
    | same =>
        split at htold
        · rename_i hinit
          simp only [hinit] at hst ⊢
          rintro b ⟨time, hmem⟩
          rcases List.mem_append.mp hmem with hmem | hmem
          · exact htold b ⟨time, hmem⟩
          · -- a report changes the status
            obtain ⟨rfl, _⟩ := hshown b time hmem
            cases hexec with
            | published _ => exact absurd hst (by simp)
            | initFailed _ => exact absurd hst (by simp)
            | overtaken hlate => exact hlate hinit
        · exact hold htold
        · exact hold htold
        · exact hold htold
        · exact List.mem_append_left _ htold
        · exact absurd htold id
    | @published b hinit =>
        cases b with
        | true => exact hnow true rfl hinit
        | false => exact hnow false rfl hinit
    | stored =>
        have hrep := h.served ⟨.storeStatus st, by rw [hcode]; exact .head _, rfl⟩
        rcases hstores st (by rw [hcode]; exact .head _) with rfl | rfl
        · exact hold hrep
        · exact hold hrep

/-- Only the code and the status count. -/
theorem Tells.congr {l : List ServerEvent} {m : Running} {th' : OperatorThread H}
    (h : Tells l m j th) (hcode : th'.code = th.code)
    (hstatus : th'.state.status = th.state.status) : Tells l m j th' := by
  refine ⟨?_, ?_⟩
  · rw [hcode]
    exact h.served
  · rw [hstatus]
    exact h.status

/-- An operator asked to stop, by the main thread in its teardown or by somebody noted. -/
theorem Tells.requested {l : List ServerEvent} {m : Running} (h : Tells l m j th)
    (hnoted : Starting m → .requested j ∈ l) :
    Tells l m j ⟨th.state.shutdownRequested, th.code⟩ :=
  ⟨h.served, fun hstarting => hnoted hstarting⟩

theorem MainMove.starting {m m' : Running} {es : List ServerEvent} (h : MainMove s m m' es)
    (hstarting : Starting m') : Starting m := by
  cases h <;> first | exact hstarting | trivial

theorem MainTouch.not_starting {m m' : Running} {f : Operator H → Operator H}
    (h : MainTouch m idx f m') : ¬Starting m' := by
  cases h <;> exact id

theorem MainTouch.tells {l : List ServerEvent} {m m' : Running} {f : Operator H → Operator H}
    (h : MainTouch m idx f m') (ht : Tells l m' j th) : Tells l m' j ⟨f th.state, th.code⟩ :=
  ⟨ht.served, fun hstarting => absurd hstarting h.not_starting⟩

/-- What `storesServing_reachable` says of a state. -/
def EveryStores (s : Server H) : Prop :=
  ∀ (j : Nat) (th : OperatorThread H), s.operators[j]? = some th → StoresServing th.code

/-- Every step keeps what the operators tell. -/
theorem ServerStep.tells (h : ServerStep s a t)
    (hstores : EveryStores s)
    (hs : ∀ (j : Nat) (th : OperatorThread H), s.operators[j]? = some th → Tells s.log s.main j th)
    (hth : t.operators[j]? = some th) : Tells t.log t.main j th := by
  obtain ⟨_, es, hlog, hes⟩ := h.log
  -- what an operator has told stands, until a step of its own or one of the main thread's
  have hkeep : ∀ {th : OperatorThread H}, s.operators[j]? = some th → (∀ w, a ≠ .operator j w) →
      (Starting t.main → Starting s.main) → Tells t.log t.main j th := by
    intro th hsome hother hmain
    refine (hs j th hsome).mono hlog ?_ hmain
    intro b time hmem
    obtain ⟨_, w, hw⟩ := hes j b time hmem
    exact hother w hw
  have hupdate : ∀ (idx : Nat) (f : Operator H → Operator H), (∀ op, (f op).status = op.status) →
      (s.update idx f).operators[j]? = some th → (∀ w, a ≠ .operator j w) →
      (Starting t.main → Starting s.main) → Tells t.log t.main j th := by
    intro idx f hf hget hother hmain
    rcases update_cases hget with ⟨rfl, th₀, hsome, rfl⟩ | ⟨_, hsome⟩
    · exact (hkeep hsome hother hmain).congr rfl (hf th₀.state)
    · exact hkeep hsome hother hmain
  cases h with
  | pushed hl hsome hroom =>
      rcases setThread_cases hsome hth with ⟨rfl, rfl⟩ | ⟨_, hget⟩
      · exact (hkeep hsome (by simp) id).congr rfl rfl
      · exact hkeep hget (by simp) id
  | compared hl hsome hcompare =>
      have hget : s.operators[j]? = some th := by split at hth <;> exact hth
      exact hkeep hget (by simp) id
  | counted hl hsome => exact hupdate _ enqueued (fun _ => rfl) hth (by simp) id
  | woken hl hsome => exact hupdate _ wake (fun _ => rfl) hth (by simp) id
  | executed hsome hcode hexec =>
      rcases setThread_cases hsome hth with ⟨rfl, rfl⟩ | ⟨hne, hget⟩
      · exact (hs j _ hsome).executes (hstores j _ hsome) hcode hexec
      · exact hkeep hget (fun w hw => hne (ServerAct.operator.inj hw).1.symm) id
  | moves hmove => exact hkeep hth (by simp) hmove.starting
  | allCreated hm hnone => exact hkeep hth (by simp) (fun _ => by rw [hm]; trivial)
  -- a fresh thread has told nothing yet
  | @created idx th₀ hm hsome =>
      rcases setThread_cases hsome hth with ⟨rfl, rfl⟩ | ⟨_, hget⟩
      · have hold := hkeep hsome (by simp) (fun _ => by rw [hm]; trivial)
        refine ⟨?_, hold.status⟩
        rintro ⟨k, hk, hserves⟩
        obtain rfl := List.mem_singleton.mp hk
        exact absurd hserves (by simp [serves])
      · exact hkeep hget (by simp) (fun _ => by rw [hm]; trivial)
  | touches htouch =>
      have hnot := htouch.not_starting
      rcases update_cases hth with ⟨rfl, th₀, hsome, rfl⟩ | ⟨_, hsome⟩
      · exact htouch.tells (hkeep hsome (by simp) (fun hstarting => absurd hstarting hnot))
      · exact hkeep hsome (by simp) (fun hstarting => absurd hstarting hnot)
  | inactive hm => exact hkeep hth (by simp) (fun hstarting => absurd hstarting id)
  | freed hm => exact absurd hth (by simp [Server.operators, Server.freed, note, goTo])
  | givenUp hm => exact absurd hth (by simp [Server.operators, Server.freed, note, goTo, runReturns])
  | requestStored =>
      rcases update_cases hth with ⟨rfl, th₀, hsome, rfl⟩ | ⟨_, hsome⟩
      · exact (hkeep hsome (by simp) id).requested fun _ =>
          List.mem_append_right _ (List.mem_singleton.mpr rfl)
      · exact hkeep hsome (by simp) id
  | requestWritten => exact hupdate _ wake (fun _ => rfl) hth (by simp) id
  | _ => exact hkeep hth (by simp) id

/-! ## The gate -/

/-- The operator the gate is at. -/
def gateAt : Running → Option Nat
  | .gate idx | .poll idx _ | .late idx _ => some idx
  | _ => none

/-- The operator the gate waits for, and until when. -/
def awaiting : Running → Option (Nat × Nat)
  | .poll idx deadline | .late idx deadline => some (idx, deadline)
  | _ => none

/-- `worker_run` is about to fail, or has failed. -/
def GivingUp : Running → Prop
  | .undoStore _ _ | .undoWrite _ _ | .undoJoin _ _ => True
  | .destroy _ last => last = false
  | .returned rc => rc = .failure
  | _ => False

/-- Where the main thread stands tells what the gate has seen. -/
structure Gated (s : Server H) : Prop where
  tells : ∀ (j : Nat) (th : OperatorThread H), s.operators[j]? = some th →
    Tells s.log s.main j th
  passed : ∀ idx, gateAt s.main = some idx → ∀ j < idx, Reported s.log j false
  awaited : ∀ idx deadline, awaiting s.main = some (idx, deadline) →
    ∃ since, deadline = since + workerOperatorInitTimeout ∧ .awaited idx since ∈ s.log
  opened : s.main = .returned .success → ∀ j < s.operators.length, Reported s.log j false
  givenUp : GivingUp s.main ∨ .returned .failure ∈ s.log → RealFailure s

theorem gated_init (h : ServerInit s) : Gated s := by
  have hnone : ∀ e, e ∉ s.log := by simp [h.log]
  refine ⟨?_, ?_, ?_, ?_, ?_⟩
  · intro j th hth
    obtain ⟨hop, hcode, _⟩ := h.operators th (List.mem_of_getElem? hth)
    refine ⟨?_, ?_⟩
    · simp [hcode]
    · intro _
      rw [hop.status]
      exact fun b ⟨time, hmem⟩ => hnone _ hmem
  · simp [h.main, gateAt]
  · simp [h.main, awaiting]
  · simp [h.main]
  · rintro (hup | hmem)
    · rw [h.main] at hup
      exact absurd hup id
    · exact absurd hmem (hnone _)

/-- Everybody but the main thread leaves the gate where it is. -/
theorem Gated.other (hs : Gated s) (hstores : EveryStores s) (h : ServerStep s a t)
    (hmain : t.main = s.main)
    (hlog : .returned .failure ∈ t.log → .returned .failure ∈ s.log) : Gated t := by
  refine ⟨fun j th hth => h.tells hstores hs.tells hth, ?_, ?_, ?_, ?_⟩
  · intro idx hidx j hj
    rw [hmain] at hidx
    exact (hs.passed idx hidx j hj).step h
  · intro idx deadline hidx
    rw [hmain] at hidx
    obtain ⟨since, hsince, hmem⟩ := hs.awaited idx deadline hidx
    exact ⟨since, hsince, h.mem_log hmem⟩
  · intro hopened j hj
    rw [hmain] at hopened
    rw [h.length_eq (by simp [hopened])] at hj
    exact (hs.opened hopened j hj).step h
  · rintro (hup | hmem)
    · rw [hmain] at hup
      exact (hs.givenUp (.inl hup)).step h
    · exact (hs.givenUp (.inr (hlog hmem))).step h

/-- Away from the gate there is only a failure to account for. -/
theorem Gated.away (hs : Gated s) (hstores : EveryStores s) (h : ServerStep s a t)
    (hat : ∀ idx, gateAt t.main = some idx → idx = 0) (hawait : awaiting t.main = none)
    (hopened : t.main ≠ .returned .success)
    (hup : GivingUp t.main ∨ .returned .failure ∈ t.log →
      GivingUp s.main ∨ .returned .failure ∈ s.log) : Gated t := by
  refine ⟨fun j th hth => h.tells hstores hs.tells hth, ?_, ?_, ?_, ?_⟩
  · intro idx hidx j hj
    have hzero := hat idx hidx
    omega
  · intro idx deadline hidx
    rw [hawait] at hidx
    exact absurd hidx (by simp)
  · exact fun hm => absurd hm hopened
  · exact fun hfails => (hs.givenUp (hup hfails)).step h

theorem MainMove.gateAt {m m' : Running} {es : List ServerEvent} (h : MainMove s m m' es)
    (hidx : Proof.gateAt m' = some idx) : Proof.gateAt m = some idx ∨
      ∃ k th, Proof.gateAt m = some k ∧ idx = k + 1 ∧ s.operators[k]? = some th ∧
        th.state.status = .active := by
  cases h with
  | @passed k deadline th hth hactive =>
      exact .inr ⟨k, th, rfl, (Option.some.inj hidx).symm, hth, hactive⟩
  | awaits hth => exact .inl hidx
  | early hth hinit => exact .inl hidx
  | retried hlt => exact .inl hidx
  | _ => exact absurd hidx (by simp [Proof.gateAt])

theorem MainMove.awaiting {m m' : Running} {es : List ServerEvent} {deadline : Nat}
    (h : MainMove s m m' es) (hidx : Proof.awaiting m' = some (idx, deadline)) :
    Proof.awaiting m = some (idx, deadline) ∨
      deadline = s.clock + workerOperatorInitTimeout ∧ .awaited idx s.clock ∈ es := by
  cases h with
  | awaits hth =>
      obtain ⟨rfl, rfl⟩ := Prod.mk.inj (Option.some.inj hidx)
      exact .inr ⟨rfl, .head _⟩
  | early hth hinit => exact .inl hidx
  | retried hlt => exact .inl hidx
  | _ => exact absurd hidx (by simp [Proof.awaiting])

theorem MainMove.succeeds {m m' : Running} {es : List ServerEvent} (h : MainMove s m m' es)
    (hm : m' = .returned .success) : ∃ idx, m = .gate idx ∧ s.operators[idx]? = none := by
  cases h with
  | opened hnone => exact ⟨_, rfl, hnone⟩
  | _ => exact absurd hm (by simp)

/-- What leads `worker_run` to give up. -/
theorem MainMove.givingUp {m m' : Running} {es : List ServerEvent} (h : MainMove s m m' es)
    (hup : GivingUp m' ∨ .returned .failure ∈ es) :
    GivingUp m ∨ (∃ idx, .createFailed idx ∈ es) ∨
      (∃ idx deadline th, m = .poll idx deadline ∧ s.operators[idx]? = some th ∧
        th.state.status ≠ .initializing ∧ th.state.status ≠ .active) ∨
      ∃ idx deadline, m = .late idx deadline ∧ deadline ≤ s.clock := by
  cases h with
  | createFailed hth => exact .inr (.inl ⟨_, .head _⟩)
  | failed hth hinit hactive => exact .inr (.inr (.inl ⟨_, _, _, rfl, hth, hinit, hactive⟩))
  | timedOut hle => exact .inr (.inr (.inr ⟨_, _, rfl, hle⟩))
  | undone hle => exact .inl trivial
  | undoJoined hcode => exact .inl trivial
  | allStored hnone => exact .inl (hup.resolve_right (by simp))
  | joined hth hcode => exact .inl (hup.resolve_right (by simp))
  | allJoined hnone => exact .inl (hup.resolve_right (by simp))
  | _ =>
      rcases hup with hup | hup
      · exact absurd hup (by simp [GivingUp])
      · exact absurd hup (by simp)

/-- The main thread's moves keep the gate's books. -/
theorem Gated.moves {m : Running} {es : List ServerEvent} {created : Bool} (hs : Gated s)
    (hstores : EveryStores s) (hmove : MainMove s s.main m es) (hsees : GateSees s (.main created)) :
    Gated ((s.goTo m).note es) := by
  have h : ServerStep s (.main created) ((s.goTo m).note es) := .moves hmove
  refine ⟨fun j th hth => h.tells hstores hs.tells hth, ?_, ?_, ?_, ?_⟩
  · intro idx hidx j hj
    rcases hmove.gateAt hidx with hat | ⟨k, th, hat, rfl, hth, hactive⟩
    · exact (hs.passed idx hat j hj).step h
    · rcases Nat.lt_succ_iff_lt_or_eq.mp hj with hj | rfl
      · exact (hs.passed k hat j hj).step h
      · -- the gate goes past an operator it found ACTIVE
        have hstarting : Starting s.main := by
          generalize s.main = m₀ at hat
          unfold gateAt at hat
          split at hat
          · trivial
          · trivial
          · trivial
          · exact absurd hat (by simp)
        have htold := (hs.tells j th hth).status hstarting
        rw [hactive] at htold
        exact Reported.step htold h
  · intro idx deadline hidx
    rcases hmove.awaiting hidx with hat | ⟨rfl, hmem⟩
    · obtain ⟨since, hsince, hmem⟩ := hs.awaited idx deadline hat
      exact ⟨since, hsince, h.mem_log hmem⟩
    · exact ⟨s.clock, rfl, List.mem_append_right _ hmem⟩
  · intro hm j hj
    obtain ⟨idx, hgate, hnone⟩ := hmove.succeeds hm
    have hle := List.getElem?_eq_none_iff.mp hnone
    exact (hs.passed idx (by rw [hgate]; rfl) j (Nat.lt_of_lt_of_le hj hle)).step h
  · -- a start that is given up has a real failure behind it, which one depends on where
    intro hup
    have hup : GivingUp s.main ∨ .returned .failure ∈ s.log ∨ GivingUp m ∨
        .returned .failure ∈ es := by
      rcases hup with hup | hmem
      · exact .inr (.inr (.inl hup))
      · rcases List.mem_append.mp hmem with hmem | hmem
        · exact .inr (.inl hmem)
        · exact .inr (.inr (.inr hmem))
    rcases hup with hup | hmem | hup
    · exact (hs.givenUp (.inl hup)).step h
    · exact (hs.givenUp (.inr hmem)).step h
    · rcases hmove.givingUp hup with hup | ⟨idx, hmem⟩ |
        ⟨idx, deadline, th, hpoll, hth, hinit, hactive⟩ |
          ⟨idx, deadline, hlate, hle⟩
      · exact (hs.givenUp (.inl hup)).step h
      · exact .create (List.mem_append_right _ hmem)
      · have htold := (hs.tells idx th hth).status (by rw [hpoll]; trivial)
        have hfull : th.state.status ≠ .full := by
          simpa [GateSees, hpoll, hth] using hsees
        refine RealFailure.step ?_ h
        split at htold
        · exact absurd ‹_› hinit
        · exact absurd ‹_› hactive
        · exact absurd ‹_› hfull
        · exact .init htold
        · exact .requested htold
        · exact absurd htold id
      · obtain ⟨since, rfl, hmem⟩ := hs.awaited idx deadline (by rw [hlate]; rfl)
        have hguard : s.clock < since + workerOperatorInitTimeout ∨
            ¬ReportedBefore s.log idx (since + workerOperatorInitTimeout) := by
          simpa [GateSees, hlate] using hsees
        refine RealFailure.step ?_ h
        exact .late hmem hle (hguard.resolve_left (Nat.not_lt.mpr hle))

theorem MainTouch.away {m m' : Running} {f : Operator H → Operator H}
    (h : MainTouch m idx f m') : gateAt m' = none ∧ awaiting m' = none ∧
      m' ≠ .returned .success ∧ (GivingUp m' → GivingUp m) := by
  cases h <;> exact ⟨rfl, rfl, by simp, id⟩

theorem gated_reachable (h : (server H).ReachableBy GateSees s) : Gated s := by
  refine h.invariant (fun s => gated_init) ?_
  intro s a t hr hs hsees hstep
  have hstores : EveryStores s := fun j th hth => storesServing_reachable hr hth
  have hcases := server_step hstep
  have h := hcases
  -- only the main thread moves along the gate
  cases hcases with
  | moves hmove => exact hs.moves hstores hmove hsees
  | allCreated hm hnone =>
      refine hs.away hstores h ?_ rfl (by simp [goTo]) ?_
      · exact fun idx hidx => (Option.some.inj hidx).symm
      · exact fun hup => .inr (hup.resolve_left id)
  | created hm hth =>
      refine hs.away hstores h ?_ rfl (by simp [goTo]) ?_
      · exact fun idx hidx => absurd hidx (by simp [gateAt, goTo])
      · exact fun hup => .inr (hup.resolve_left id)
  | touches htouch =>
      obtain ⟨hat, hawait, hopened, hup⟩ := htouch.away
      refine hs.away hstores h ?_ hawait hopened (Or.imp_left hup)
      exact fun idx hidx => absurd (hat.symm.trans hidx) (by simp)
  | inactive hm =>
      refine hs.away hstores h ?_ rfl (by simp [goTo]) ?_
      · exact fun idx hidx => absurd hidx (by simp [gateAt, goTo])
      · refine Or.imp_left fun hlast => ?_
        rw [hm]
        exact hlast
  | freed hm =>
      refine hs.away hstores h ?_ rfl (by simp [goTo]) ?_
      · exact fun idx hidx => absurd hidx (by simp [gateAt, goTo])
      · intro hup
        refine .inr ?_
        simpa [Server.freed, note, goTo, GivingUp] using hup
  | givenUp hm =>
      refine hs.away hstores h ?_ rfl (by simp [goTo, runReturns, note]) ?_
      · exact fun idx hidx => absurd hidx (by simp [gateAt, goTo, runReturns, note])
      · intro _
        rw [hm]
        exact .inl rfl
  | executed hth hcode hexec =>
      refine hs.other hstores h rfl ?_
      intro hmem
      refine (List.mem_append.mp hmem).resolve_right fun hshown => ?_
      rcases mem_shown hshown with ⟨b, heq⟩ | ⟨fd, heq⟩
      · exact ServerEvent.noConfusion heq
      · exact ServerEvent.noConfusion heq
  | pushed hl hth hroom => exact hs.other hstores h rfl (by simp [note, Server.listen, setThread])
  | accepted hl hfd hfresh => exact hs.other hstores h rfl (by simp [note, Server.listen])
  | refused hl => exact hs.other hstores h rfl (by simp [note, Server.listen])
  | requestStored => exact hs.other hstores h rfl (by simp [note, update])
  | _ => exact hs.other hstores h rfl id

/--
**As long as the gate sees how each operator's initialization went, `worker_run` fails
only for a real failure, and succeeds only with every operator initialized.**
-/
theorem startup_gated (h : (server H).ReachableBy GateSees s) :
    (.returned .failure ∈ s.log → RealFailure s) ∧
      (s.main = .returned .success → ∀ j < s.operators.length, Reported s.log j false) :=
  ⟨fun hmem => (gated_reachable h).givenUp (.inr hmem), (gated_reachable h).opened⟩

/-- One operator, initialized before the gate looks. -/
theorem startup_gated_one : ∃ s : Server DbHttp.small, s.main = .returned .success ∧
    s.operators.length = 1 ∧ Reported s.log 0 false := by
  have hinit : (server DbHttp.small).ReachableBy GateSees (Server.small 1) :=
    .init (serverInit_small (.inl rfl))
  obtain ⟨t, ht, hreturned⟩ := hinit.exists_of_run
    (creates 1 ++ operates 0 2 [] ++ List.replicate 3 (.main true))
    (fun s => s.main == .returned .success && s.operators.length == 1) (by decide +kernel)
  simp only [Bool.and_eq_true, beq_iff_eq] at hreturned
  obtain ⟨hm, hlength⟩ := hreturned
  exact ⟨t, hm, hlength, (startup_gated ht).2 hm 0 (by omega)⟩

/-- The event is no reason for `worker_run` to fail. -/
def faultless : ServerEvent → Bool
  | .createFailed _ | .requested _ | .reported _ true _ => false
  | _ => true

/-- Eight connections served before the gate looks: the operator is `FULL`, the startup fails. -/
theorem startup_not_gated : ¬∀ (H : DbHttp) (s : Server H), (server H).Reachable s →
    (.returned .failure ∈ s.log → RealFailure s) ∧
      (s.main = .returned .success → ∀ j < s.operators.length, Reported s.log j false) := by
  intro hall
  have hinit : (server DbHttp.small).Reachable (Server.small 1) :=
    .init (serverInit_small (.inl rfl))
  obtain ⟨t, ht, hfailed⟩ := hinit.exists_of_run
    (creates 1 ++ (List.range 8).flatMap (fun k => .accept (20 + k) :: listens 9) ++
      operates 0 47 [wakeupEvent] ++ List.replicate 6 (.main true) ++ operates 0 4 [] ++
      List.replicate 3 (.main true))
    (fun s => s.log.contains (.returned .failure) && s.clock == 0 && s.log.all faultless)
    (by decide +kernel)
  simp only [Bool.and_eq_true, beq_iff_eq, List.all_eq_true, List.contains_iff_mem] at hfailed
  obtain ⟨⟨hmem, hclock⟩, hlog⟩ := hfailed
  cases (hall _ t ht).1 hmem with
  | create hcreate => exact absurd (hlog _ hcreate) (by simp [faultless])
  | init hr =>
      obtain ⟨time, hr⟩ := hr
      exact absurd (hlog _ hr) (by simp [faultless])
  | late hawaited hle hnot =>
      have hpos : 0 < workerOperatorInitTimeout := by decide
      omega
  | requested hreq => exact absurd (hlog _ hreq) (by simp [faultless])

end DBServer.Proof
