import DBServer.Operator.Mailbox
import DBServer.Proof.Kept

/-!
# What one instruction of an operator's thread can do

`Executes` lists every outcome of every instruction, with the condition under which
it comes about. All invariants of the operator are read off it, one case an
outcome; nothing else unfolds the instructions.
-/

namespace DBServer.Proof

open DBServer Lib Operator

variable {H : DbHttp} {op op' : Operator H} {i : Instr} {w : Answers H} {new : List Instr}

/-- The housekeeping timer is all that `_operator_timer_update` touches. -/
theorem timerUpdate_eq (op : Operator H) : ∃ p, op.timerUpdate = { op with timerPeriod := p } := by
  unfold timerUpdate setTimer
  split
  · split <;> exact ⟨_, rfl⟩
  · split
    · split <;> exact ⟨_, rfl⟩
    · exact ⟨_, rfl⟩

/-! ## Slots -/

theorem getAvailableClientSlot_free {idx : Nat} (h : op.getAvailableClientSlot = some idx) :
    ∃ c, op.clients[idx]? = some c ∧ c.cli.isBusy = false := by
  obtain ⟨hlt, hfree, _⟩ := List.findIdx?_eq_some_iff_getElem.mp h
  exact ⟨op.clients[idx], List.getElem?_eq_getElem hlt, by simpa using hfree⟩

theorem slotOf_busy {idx : Nat} {fd : Int} (h : op.slotOf fd = some idx) :
    ∃ c, op.clients[idx]? = some c ∧ c.cli.isBusy = true ∧ c.cli.ctx.fd = fd := by
  obtain ⟨hlt, hfound, _⟩ := List.findIdx?_eq_some_iff_getElem.mp h
  have hboth : op.clients[idx].cli.isBusy = true ∧ op.clients[idx].cli.ctx.fd = fd := by
    simpa using hfound
  exact ⟨op.clients[idx], List.getElem?_eq_getElem hlt, hboth.1, hboth.2⟩

theorem setSlot_setSlot (op : Operator H) (idx : Nat) (f g : Conn H → Conn H) :
    (op.setSlot idx f).setSlot idx g = op.setSlot idx (g ∘ f) := by
  simp only [setSlot, List.modify_modify_eq]

/-- Only what `f` does to the slot itself counts. -/
theorem setSlot_congr {idx : Nat} {f g : Conn H → Conn H} {c : Conn H}
    (hget : op.clients[idx]? = some c) (h : f c = g c) : op.setSlot idx f = op.setSlot idx g := by
  have hclients : op.clients.modify idx f = op.clients.modify idx g := by
    refine List.ext_getElem? fun j => ?_
    rw [List.getElem?_modify, List.getElem?_modify]
    by_cases hj : idx = j
    · subst hj
      simp [hget, h]
    · simp [hj]
  rw [setSlot, setSlot, hclients]

/-- A client's handler keeps the slot's flag and context. -/
theorem handleClientEvent_cases {idx : Nat} (h : op.handleClientEvent idx w = some (op', new)) :
    (op' = op ∧ new = []) ∨
    ∃ c c' : Conn H, op.clients[idx]? = some c ∧ c.cli.isBusy = true ∧ identity c' = identity c ∧
      op' = op.setSlot idx (fun _ => c') ∧ (new = [] ∨ new = [.removeByFd c.cli.ctx.fd]) := by
  unfold handleClientEvent at h
  cases hget : op.clients[idx]? with
  | none =>
      simp only [hget, Option.some.injEq, Prod.mk.injEq] at h
      exact .inl ⟨h.1.symm, h.2.symm⟩
  | some c =>
      simp only [hget] at h
      split at h
      · simp only [Option.some.injEq, Prod.mk.injEq] at h
        exact .inl ⟨h.1.symm, h.2.symm⟩
      · rename_i hready
        have hbusy : c.cli.isBusy = true := by
          by_contra hnot
          exact hready (.inr (Bool.eq_false_of_not_eq_true hnot))
        have hkept : identity (if c.cli.draining then responseWriterResume w.env w.fuel c
            else clientHandle w.env w.fuel op.id c).2 = identity c := by
          split
          · exact responseWriterResume_identity w.env w.fuel c
          · exact clientHandle_identity w.env w.fuel op.id c
        generalize (if c.cli.draining then responseWriterResume w.env w.fuel c
            else clientHandle w.env w.fuel op.id c) = out at h hkept
        obtain ⟨_ | rc, c'⟩ := out
        · exact absurd h (by simp)
        · refine .inr ⟨c, c', rfl, hbusy, hkept, ?_⟩
          cases rc with
          | success =>
              simp only [Option.some.injEq, Prod.mk.injEq] at h
              exact ⟨h.1.symm, .inl h.2.symm⟩
          | failure =>
              simp only [Option.some.injEq, Prod.mk.injEq] at h
              rw [← ctx_of_identity hkept]
              exact ⟨h.1.symm, .inr h.2.symm⟩

/-! ## Every outcome -/

/-- The status that goes with the number of clients. -/
def due (op : Operator H) : OperatorStatus :=
  if op.maxClients ≤ op.activeClients then .full else .active

/--
`Executes op w i op' new`: under the answers `w`, executing `i` on `op` leaves `op'`
and calls for `new`.
-/
inductive Executes (op : Operator H) (w : Answers H) : Instr → Operator H → List Instr → Prop where
  | initParsers {slots : Bool × List (Conn H)} : slots = parserInit w.parser 0 op.clients →
      Executes op w .initParsers { op with clients := slots.2 } [.publish slots.1]
  | published : op.status = .initializing →
      Executes op w (.publish false) { op with status := .active } [.loopActive]
  | initFailed : op.status = .initializing →
      Executes op w (.publish true) { op with status := .initFailed } []
  | overtaken {failed : Bool} : op.status ≠ .initializing → Executes op w (.publish failed) op []
  | active : op.status = .active → Executes op w .loopActive op [.wait]
  | notActive : op.status ≠ .active → Executes op w .loopActive op [.loopFull]
  | full : op.status = .full → Executes op w .loopFull op [.wait]
  | exits : op.status ≠ .full → Executes op w .loopFull op []
  | reported : op.Reports w.batch → Executes op w .wait op [.events w.batch, .loopActive]
  | handled : Executes op w (.events []) op []
  | closing {e : Event} {es : List Event} : epollerCheckIfToClose e.events = true →
      (op.ctx e.reg.key).fd ≠ -1 →
      Executes op w (.events (e :: es)) op [.removeByFd (op.ctx e.reg.key).fd]
  | closingNone {e : Event} {es : List Event} : epollerCheckIfToClose e.events = true →
      (op.ctx e.reg.key).fd = -1 → Executes op w (.events (e :: es)) op []
  | crashed {e : Event} {es : List Event} : epollerCheckIfToClose e.events = false →
      (op.ctx e.reg.key).handler = none → Executes op w (.events (e :: es)) op [.crash]
  | wakeup {e : Event} {es : List Event} : epollerCheckIfToClose e.events = false →
      (op.ctx e.reg.key).handler = some .operatorWakeup →
      Executes op w (.events (e :: es)) op [.drainWakeup, .events es]
  | timer {e : Event} {es : List Event} {p : Nat} : epollerCheckIfToClose e.events = false →
      (op.ctx e.reg.key).handler = some .operatorTimer → w.timerRead = true →
      Executes op w (.events (e :: es)) { op with timerPeriod := p }
        [.cleanClients 0 (timeHelperGetNow w.wall), .events es]
  | timerEmpty {e : Event} {es : List Event} : epollerCheckIfToClose e.events = false →
      (op.ctx e.reg.key).handler = some .operatorTimer → w.timerRead = false →
      Executes op w (.events (e :: es)) op [.events es]
  | clientIgnored {e : Event} {es : List Event} : epollerCheckIfToClose e.events = false →
      (op.ctx e.reg.key).handler = some .operatorClient →
      Executes op w (.events (e :: es)) op [.events es]
  | clientHandled {e : Event} {es : List Event} {idx : Nat} {c c' : Conn H} :
      epollerCheckIfToClose e.events = false →
      (op.ctx e.reg.key).handler = some .operatorClient → op.clients[idx]? = some c →
      c.cli.isBusy = true → identity c' = identity c →
      Executes op w (.events (e :: es)) (op.setSlot idx fun _ => c') [.events es]
  | clientFailed {e : Event} {es : List Event} {idx : Nat} {c c' : Conn H} :
      epollerCheckIfToClose e.events = false → e.reg.key = .client idx →
      (op.ctx e.reg.key).handler = some .operatorClient → op.clients[idx]? = some c →
      c.cli.isBusy = true → identity c' = identity c →
      Executes op w (.events (e :: es)) (op.setSlot idx fun _ => c')
        [.removeByFd c.cli.ctx.fd, .events es]
  | drained : Executes op w .drainWakeup { op with wakeups := op.wakeups - 1 } [.pop true]
  | popped {first : Bool} {fd : Int} {ring : List Int} : op.ring = fd :: ring →
      Executes op w (.pop first) { op with ring := ring } [.dequeued fd]
  | popEmpty {first : Bool} : op.ring = [] → Executes op w (.pop first) op []
  | dequeued {fd : Int} :
      Executes op w (.dequeued fd) { op with queuedClients := decr32 op.queuedClients } [.gate fd]
  | gateOpen {fd : Int} : op.status = .active → Executes op w (.gate fd) op [.addClient fd]
  | gateShut {fd : Int} : op.status ≠ .active → Executes op w (.gate fd) op []
  | addNoSlot {fd : Int} : op.getAvailableClientSlot = none →
      Executes op w (.addClient fd) op [.statusUpdate]
  | addRefused {fd : Int} {idx : Nat} : op.getAvailableClientSlot = some idx →
      w.clientInit = false →
      Executes op w (.addClient fd) op []
  | addUnwatched {fd : Int} {idx : Nat} : op.getAvailableClientSlot = some idx →
      w.clientInit = true → ¬(w.epollAdd = true ∧ ∀ r ∈ op.interest, r.fd ≠ fd) →
      Executes op w (.addClient fd) (op.setSlot idx (op.aim fd)) []
  | added {fd : Int} {idx p : Nat} : op.getAvailableClientSlot = some idx →
      w.clientInit = true → w.epollAdd = true → (∀ r ∈ op.interest, r.fd ≠ fd) →
      Executes op w (.addClient fd)
        { op.setSlot idx (fun c => adopt w.peer (timeHelperGetNow w.wall) (op.aim fd c)) with
          interest := op.interest ++ [⟨fd, .client idx, op.stamps⟩]
          stamps := op.stamps + 1
          activeClients := incr32 op.activeClients
          timerPeriod := p }
        [.statusUpdate, .pop false]
  | statusRight : op.status = due op → Executes op w .statusUpdate op []
  | statusStale : op.status ≠ due op → Executes op w .statusUpdate op [.storeStatus (due op)]
  | stored {status : OperatorStatus} :
      Executes op w (.storeStatus status) { op with status := status } []
  | removeMissing {fd : Int} : op.slotOf fd = none → Executes op w (.removeByFd fd) op []
  | removed {fd : Int} {idx p : Nat} : op.slotOf fd = some idx →
      Executes op w (.removeByFd fd) { op.dropSlot idx with timerPeriod := p } [.statusUpdate]
  | cleaned {idx now : Nat} : op.maxClients ≤ idx → Executes op w (.cleanClients idx now) op []
  | spared {idx now : Nat} : idx < op.maxClients →
      (op.clients[idx]?.map (expired now)).getD false = false →
      Executes op w (.cleanClients idx now) op [.cleanClients (idx + 1) now]
  | evicted {idx now : Nat} {c : Conn H} : op.clients[idx]? = some c → expired now c = true →
      Executes op w (.cleanClients idx now) (op.dropSlot idx) [.cleanClients (idx + 1) now]

theorem handleEvent_executes {e : Event} {es : List Event}
    (h : op.handleEvent e es w = some (op', new)) : Executes op w (.events (e :: es)) op' new := by
  unfold Operator.handleEvent reactorDispatch at h
  by_cases hclose : epollerCheckIfToClose e.events = true
  · simp only [hclose, if_true, Option.some.injEq, Prod.mk.injEq] at h
    obtain ⟨rfl, rfl⟩ := h
    split
    · rename_i hfd
      exact .closingNone hclose hfd
    · rename_i hfd
      exact .closing hclose hfd
  · have hopen : epollerCheckIfToClose e.events = false := Bool.eq_false_of_not_eq_true hclose
    simp only [hopen, Bool.false_eq_true, if_false] at h
    cases hh : (op.ctx e.reg.key).handler with
    | none =>
        simp only [hh, Option.some.injEq, Prod.mk.injEq] at h
        obtain ⟨rfl, rfl⟩ := h
        exact .crashed hopen hh
    | some handler =>
        cases handler with
        | operatorWakeup =>
            simp only [hh, Option.some.injEq, Prod.mk.injEq] at h
            obtain ⟨rfl, rfl⟩ := h
            exact .wakeup hopen hh
        | operatorTimer =>
            simp only [hh] at h
            split at h
            · simp only [Option.some.injEq, Prod.mk.injEq] at h
              obtain ⟨rfl, rfl⟩ := h
              obtain ⟨p, hp⟩ := timerUpdate_eq op
              rw [hp]
              exact .timer hopen hh ‹_›
            · simp only [Option.some.injEq, Prod.mk.injEq] at h
              obtain ⟨rfl, rfl⟩ := h
              exact .timerEmpty hopen hh (Bool.eq_false_of_not_eq_true ‹_›)
        | operatorClient =>
            simp only [hh] at h
            cases hkey : e.reg.key with
            -- the operator's own descriptors never carry the handler of a client
            | wakeup => simp [hkey] at h
            | timer => simp [hkey] at h
            | client idx =>
                simp only [hkey, Option.map_eq_some_iff, Prod.exists, Prod.mk.injEq] at h
                obtain ⟨op₁, new₁, hcli, rfl, rfl⟩ := h
                rw [hkey] at hh
                rcases handleClientEvent_cases hcli with
                  ⟨rfl, rfl⟩ | ⟨c, c', hget, hbusy, hkept, rfl, rfl | rfl⟩
                · exact .clientIgnored hopen (by rw [hkey]; exact hh)
                · exact .clientHandled hopen (by rw [hkey]; exact hh) hget hbusy hkept
                · exact .clientFailed hopen hkey (by rw [hkey]; exact hh) hget hbusy hkept
        | listen => simp [hh] at h
        | uploadListen => simp [hh] at h
        | listenerShutdown => simp [hh] at h

theorem addClient_executes (op : Operator H) (fd : Int) (w : Answers H) :
    Executes op w (.addClient fd) (op.addClient fd w).1 (op.addClient fd w).2 := by
  unfold addClient
  cases hfree : op.getAvailableClientSlot with
  | none => exact .addNoSlot hfree
  | some idx =>
      dsimp only
      split
      · exact .addRefused hfree ‹_›
      · rename_i hinit
        have hclient : w.clientInit = true := Bool.eq_true_of_not_eq_false hinit
        split
        · rename_i hadd
          rw [setSlot_setSlot]
          have hfds : ∀ r ∈ op.interest, r.fd ≠ fd := hadd.2
          obtain ⟨p, hp⟩ := timerUpdate_eq { op.setSlot idx
              (adopt w.peer (timeHelperGetNow w.wall) ∘ op.aim fd) with
            interest := op.interest ++ [⟨fd, .client idx, op.stamps⟩]
            stamps := op.stamps + 1
            activeClients := incr32 op.activeClients }
          exact Eq.mpr (congrArg (Executes op w _ · _) hp) (.added hfree hclient hadd.1 hfds)
        · -- the slot was not busy, so shutting it down leaves the context aimed at the descriptor
          rename_i hadd
          obtain ⟨c, hget, hidle⟩ := getAvailableClientSlot_free hfree
          have hshut : (shutSlot ∘ op.aim fd) c = op.aim fd c := by
            have hstill : (op.aim fd c).cli.isBusy = false := hidle
            simp only [Function.comp_apply, shutSlot, clientShutdown_of_free hstill]
          rw [setSlot_setSlot, setSlot_congr hget hshut]
          exact .addUnwatched hfree hclient hadd

theorem exec_executes (h : exec op i w = some (op', new)) : Executes op w i op' new := by
  cases i with
  | initParsers =>
      obtain ⟨rfl, rfl⟩ := Prod.mk.inj (Option.some.inj h)
      exact .initParsers rfl
  | publish failed =>
      replace h := Option.some.inj h
      split at h
      · rename_i hinit
        cases failed with
        | true =>
            obtain ⟨rfl, rfl⟩ := Prod.mk.inj h
            exact .initFailed hinit
        | false =>
            obtain ⟨rfl, rfl⟩ := Prod.mk.inj h
            exact .published hinit
      · rename_i hlate
        obtain ⟨rfl, rfl⟩ := Prod.mk.inj h
        exact .overtaken hlate
  | loopActive =>
      obtain ⟨rfl, rfl⟩ := Prod.mk.inj (Option.some.inj h)
      split
      · exact .active ‹_›
      · exact .notActive ‹_›
  | loopFull =>
      obtain ⟨rfl, rfl⟩ := Prod.mk.inj (Option.some.inj h)
      split
      · exact .full ‹_›
      · exact .exits ‹_›
  | wait =>
      rw [exec] at h
      split at h
      · rename_i hready
        obtain ⟨rfl, rfl⟩ := Prod.mk.inj (Option.some.inj h)
        exact .reported hready
      · exact absurd h (by simp)
  | events es =>
      cases es with
      | nil =>
          obtain ⟨rfl, rfl⟩ := Prod.mk.inj (Option.some.inj h)
          exact .handled
      | cons e es => exact handleEvent_executes h
  | drainWakeup =>
      obtain ⟨rfl, rfl⟩ := Prod.mk.inj (Option.some.inj h)
      exact .drained
  | pop first =>
      rw [exec] at h
      split at h
      · rename_i hring
        obtain ⟨rfl, rfl⟩ := Prod.mk.inj (Option.some.inj h)
        exact .popEmpty hring
      · rename_i hring
        obtain ⟨rfl, rfl⟩ := Prod.mk.inj (Option.some.inj h)
        exact .popped hring
  | dequeued fd =>
      obtain ⟨rfl, rfl⟩ := Prod.mk.inj (Option.some.inj h)
      exact .dequeued
  | gate fd =>
      obtain ⟨rfl, rfl⟩ := Prod.mk.inj (Option.some.inj h)
      split
      · exact .gateOpen ‹_›
      · exact .gateShut ‹_›
  | addClient fd =>
      obtain ⟨rfl, rfl⟩ := Prod.mk.inj (Option.some.inj h)
      exact addClient_executes op fd w
  | statusUpdate =>
      obtain ⟨rfl, rfl⟩ := Prod.mk.inj (Option.some.inj h)
      -- the store is due where the status differs from what the load asks for
      have hdue : op.statusUpdate = if op.status ≠ due op then [.storeStatus (due op)] else [] := by
        unfold statusUpdate due
        split <;> rfl
      rw [hdue]
      split
      · exact .statusStale ‹_›
      · exact .statusRight (not_not.mp ‹_›)
  | storeStatus status =>
      obtain ⟨rfl, rfl⟩ := Prod.mk.inj (Option.some.inj h)
      exact .stored
  | removeByFd fd =>
      have hout : op.removeClientByFd fd = (op', new) := Option.some.inj h
      unfold removeClientByFd at hout
      split at hout
      · rename_i hmissing
        obtain ⟨rfl, rfl⟩ := Prod.mk.inj hout
        exact .removeMissing hmissing
      · rename_i idx hfound
        obtain ⟨rfl, rfl⟩ := Prod.mk.inj hout
        obtain ⟨p, hp⟩ := timerUpdate_eq (op.dropSlot idx)
        rw [hp]
        exact .removed hfound
  | cleanClients idx now =>
      have hout : op.cleanClients idx now = (op', new) := Option.some.inj h
      unfold cleanClients at hout
      split at hout
      · rename_i hlt
        split at hout
        · rename_i hexp
          obtain ⟨rfl, rfl⟩ := Prod.mk.inj hout
          cases hget : op.clients[idx]? with
          | none => simp [hget] at hexp
          | some c => exact .evicted hget (by simpa [hget] using hexp)
        · rename_i hexp
          obtain ⟨rfl, rfl⟩ := Prod.mk.inj hout
          exact .spared hlt (Bool.eq_false_of_not_eq_true hexp)
      · rename_i hge
        obtain ⟨rfl, rfl⟩ := Prod.mk.inj hout
        exact .cleaned (Nat.not_lt.mp hge)
  | crash => exact absurd h (by simp [exec])

/-- One step of the thread executes its next instruction. -/
theorem step_executes {t t' : OperatorThread H} (h : t.step exec w = some t') :
    ∃ i rest new, t.code = i :: rest ∧ Executes t.state w i t'.state new ∧
      t'.code = new ++ rest := by
  obtain ⟨i, rest, s, new, hcode, hexec, rfl⟩ := Thread.step_eq_some.mp h
  exact ⟨i, rest, new, hcode, exec_executes hexec, rfl⟩

/-- What `operator_init` set up for good. -/
structure Fixed (op op' : Operator H) : Prop where
  id : op'.id = op.id
  maxClients : op'.maxClients = op.maxClients
  ringCapacity : op'.ringCapacity = op.ringCapacity
  wakeupCtx : op'.wakeupCtx = op.wakeupCtx
  timerCtx : op'.timerCtx = op.timerCtx

theorem Executes.fixed (h : Executes op w i op' new) : Fixed op op' := by
  cases h <;> exact ⟨rfl, rfl, rfl, rfl, rfl⟩

/-! ## The status -/

/-- How an instruction changes the status. -/
inductive StatusChange (op : Operator H) : Instr → OperatorStatus → Prop where
  | same {i : Instr} : StatusChange op i op.status
  | published {b : Bool} : op.status = .initializing →
      StatusChange op (.publish b) (if b then .initFailed else .active)
  | stored {status : OperatorStatus} : StatusChange op (.storeStatus status) status

theorem Executes.statusChange (h : Executes op w i op' new) : StatusChange op i op'.status := by
  cases h with
  | published hinit => exact .published hinit
  | initFailed hinit => exact .published hinit
  | stored => exact .stored
  | _ => exact .same

/-- The stores ahead are those of `_operator_status_update`. -/
def StoresServing (code : List Instr) : Prop :=
  ∀ status, .storeStatus status ∈ code → status = .active ∨ status = .full

theorem Executes.storesServing (h : Executes op w i op' new) : StoresServing new := by
  cases h with
  | statusStale hstale =>
      intro status hmem
      obtain rfl := Instr.storeStatus.inj (List.mem_singleton.mp hmem)
      unfold due
      split
      · exact .inr rfl
      · exact .inl rfl
  | _ => simp [StoresServing]

/-! ## What can lie further down -/

/-- The instructions that wait for others to be done: all the rest are executed as they come. -/
def resumes : Instr → Bool
  | .events _ | .loopActive | .pop false => true
  | _ => false

/-- Every instruction but the next one waits for others. -/
def Stacked (code : List Instr) : Prop := ∀ j ∈ code.tail, resumes j = true

theorem Executes.stacked (h : Executes op w i op' new) : Stacked new := by
  cases h <;> simp [Stacked, resumes]

theorem Stacked.append {rest : List Instr} (hnew : Stacked new)
    (hrest : ∀ j ∈ rest, resumes j = true) : Stacked (new ++ rest) := by
  cases new with
  | nil =>
      intro j hj
      exact hrest j (List.mem_of_mem_tail hj)
  | cons i new =>
      intro j hj
      rcases List.mem_append.mp (by simpa using hj) with hj | hj
      · exact hnew j hj
      · exact hrest j hj

/-! ## The threads around it -/

/-- Every outcome of a step of an operator and the threads around it. -/
inductive MailboxStep (s : Mailbox H) : MailboxAct H → Mailbox H → Prop where
  | executed {i : Instr} {op' : Operator H} {w : Answers H} {new rest : List Instr} :
      s.code = i :: rest → Executes s.op w i op' new →
      MailboxStep s (.thread w) { s with thread := ⟨op', new ++ rest⟩ }
  | pushed {fd : Int} : s.dispatching = .idle → 0 ≤ fd → MailboxStep s (.push fd)
      { s.setOperator { s.op with ring := s.op.ring ++ [fd] } with dispatching := .pushed }
  | counted : s.dispatching = .pushed → MailboxStep s .count
      { s.setOperator { s.op with queuedClients := incr32 s.op.queuedClients } with
        dispatching := .counted }
  | written : s.dispatching = .counted → MailboxStep s .write
      { s.setOperator { s.op with wakeups := s.op.wakeups + 1 } with dispatching := .idle }
  | requestStored : s.request = .notCalled → MailboxStep s .requestStore
      { s.setOperator { s.op with status := .shutdown } with request := .stored }
  | requestWritten : s.request = .stored → MailboxStep s .requestWrite
      { s.setOperator { s.op with wakeups := s.op.wakeups + 1 } with request := .written }

theorem mailbox_step {s t : Mailbox H} {a : MailboxAct H}
    (h : (mailbox H).step s a = some t) : MailboxStep s a t := by
  cases a with
  | thread w =>
      obtain ⟨th, hth, rfl⟩ := Option.map_eq_some_iff.mp h
      obtain ⟨i, rest, new, hcode, hexec, hcode'⟩ := step_executes hth
      obtain ⟨op', code'⟩ := th
      obtain rfl : code' = new ++ rest := hcode'
      exact .executed hcode hexec
  | push fd =>
      obtain ⟨⟨hidle, hfd, _⟩, ht⟩ := Option.ite_none_right_eq_some.mp h
      exact Option.some.inj ht ▸ .pushed hidle hfd
  | count =>
      obtain ⟨hpushed, ht⟩ := Option.ite_none_right_eq_some.mp h
      exact Option.some.inj ht ▸ .counted hpushed
  | write =>
      obtain ⟨hcounted, ht⟩ := Option.ite_none_right_eq_some.mp h
      exact Option.some.inj ht ▸ .written hcounted
  | requestStore =>
      obtain ⟨hfirst, ht⟩ := Option.ite_none_right_eq_some.mp h
      exact Option.some.inj ht ▸ .requestStored hfirst
  | requestWrite =>
      obtain ⟨hstored, ht⟩ := Option.ite_none_right_eq_some.mp h
      exact Option.some.inj ht ▸ .requestWritten hstored

theorem stacked_reachable {ok : Mailbox H → MailboxAct H → Prop} {s : Mailbox H}
    (h : (mailbox H).ReachableBy ok s) : Stacked s.code := by
  refine h.invariant (P := fun s => Stacked s.code) ?_ ?_
  · rintro s ⟨_, hcode, _⟩ j hj
    rw [hcode] at hj
    exact absurd hj (by simp)
  · intro s a t _ hs _ hstep
    cases mailbox_step hstep with
    | executed hcode hexec =>
        rw [hcode] at hs
        exact hexec.stacked.append hs
    | _ => exact hs

end DBServer.Proof
