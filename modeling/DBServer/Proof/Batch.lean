import DBServer.Proof.Table

/-!
# A batch of events and the registrations it was reported for

`epoll` reports an event by the data pointer of its registration, and the pointer is
looked into when the event's turn comes. By then an earlier event of the batch may have
cleared the context behind it, and another one refilled it for a newer connection. Two
steps can do that to an event that is still waiting: an eviction by a timer tick, and
the adoption of a connection into the slot. `Waiting` says what an event that will still
be reached may rely on as long as neither happens to it.
-/

namespace DBServer.Proof

open DBServer Lib Operator

variable {H : DbHttp} {op op' : Operator H} {i : Instr} {w : Answers H} {new rest code : List Instr}
  {s t : Mailbox H} {e : Event} {es : List Event}

/-- The event reports an error, a hang-up or a closing peer. -/
abbrev Closes (e : Event) : Prop := epollerCheckIfToClose e.events = true

/-- The events of a batch that have their turn: one that closes is the last. -/
def reached : List Event → List Event
  | [] => []
  | e :: es => if Closes e then [e] else e :: reached es

/-- The events whose turn is still to come. -/
def waiting (code : List Instr) : List Event :=
  code.flatMap fun
    | .events es => reached es
    | _ => []

/-- The callback registered for a context. -/
def callbackOf : CtxKey → Handler
  | .wakeup => .operatorWakeup
  | .timer => .operatorTimer
  | .client _ => .operatorClient

/--
The reactor acts on the registration the event was reported for: it reports that
descriptor, or none, for closing, or it calls the callback that was registered with it.
-/
def ActsOn (op : Operator H) (e : Event) : Prop :=
  match reactorDispatch true (op.ctx e.reg.key) e.events with
  | .close fd => fd = -1 ∨ e.reg ∈ op.interest ∧ fd = e.reg.fd
  | .call handler fd => e.reg ∈ op.interest ∧ fd = e.reg.fd ∧ handler = callbackOf e.reg.key
  | .crash => False

/--
The next instruction takes the context away from an event that will be reached: a tick
evicts a client with an event that does not close, or a connection is adopted into a slot
with an event.
-/
def Outdates (op : Operator H) (w : Answers H) : List Instr → Prop
  | .cleanClients idx now :: rest => (op.clients[idx]?.map (expired now)).getD false = true ∧
      ∃ e ∈ waiting rest, e.reg.key = .client idx ∧ ¬Closes e
  | .addClient _ :: rest => w.clientInit = true ∧
      ∃ e ∈ waiting rest, (op.getAvailableClientSlot.map CtxKey.client) = some e.reg.key
  | _ => False

instance (op : Operator H) (w : Answers H) (code : List Instr) : Decidable (Outdates op w code) := by
  unfold Outdates
  cases code with
  | nil => infer_instance
  | cons i rest => cases i <;> infer_instance

/-- No step outdates an event. -/
def KeepsCurrent (s : Mailbox H) : MailboxAct H → Prop
  | .thread w => ¬Outdates s.op w s.code
  | _ => True

instance (s : Mailbox H) (a : MailboxAct H) : Decidable (KeepsCurrent s a) := by
  unfold KeepsCurrent
  cases a <;> infer_instance

/-! ## The events that are waiting -/

@[simp] theorem waiting_nil : waiting [] = [] := rfl

theorem waiting_cons (i : Instr) (code : List Instr) :
    waiting (i :: code) = waiting [i] ++ waiting code := by
  simp [waiting]

theorem waiting_append (code code' : List Instr) :
    waiting (code ++ code') = waiting code ++ waiting code' := by
  simp [waiting]

theorem reached_sublist : ∀ es : List Event, (reached es).Sublist es
  | [] => .slnil
  | e :: es => by
      rw [reached]
      split
      · exact .cons_cons e (List.nil_sublist es)
      · exact .cons_cons e (reached_sublist es)

theorem head_mem_reached (e : Event) (es : List Event) : e ∈ reached (e :: es) := by
  rw [reached]
  split <;> exact .head _

/-- One batch at a time. -/
def isBatch : Instr → Nat
  | .events _ => 1
  | _ => 0

theorem waiting_eq_nil (h : weigh isBatch code = 0) : waiting code = [] := by
  induction code with
  | nil => rfl
  | cons i code ih =>
      rw [weigh_cons] at h
      rw [waiting_cons, ih (by omega), List.append_nil]
      cases i with
      | events es => exact absurd h (by simp [isBatch])
      | _ => rfl

/-- The checks of the loop condition and what comes before the loop: the bottom of the code. -/
def isBottom : Instr → Bool
  | .initParsers | .publish _ | .loopActive | .loopFull | .wait => true
  | _ => false

/-- At most one batch, and a check of the loop condition only at the very bottom. -/
structure Batched (code : List Instr) : Prop where
  single : weigh isBatch code ≤ 1
  bottom : ∀ j ∈ code.dropLast, isBottom j = false

/-- An instruction calls for a batch only if it was waiting for one or working on one. -/
theorem Executes.batch_le (h : Executes op w i op' new) :
    weigh isBatch new ≤ isBatch i ∨ i = .wait ∧ weigh isBatch new = 1 := by
  cases h with
  | reported hready => exact .inr ⟨rfl, rfl⟩
  | _ => exact .inl (by simp [isBatch])

theorem Executes.bottom (h : Executes op w i op' new) :
    (∀ j ∈ new.dropLast, isBottom j = false) ∧
      (isBottom i = false → ∀ j ∈ new, isBottom j = false) := by
  cases h <;> simp [isBottom]

/-- Nothing lies under a check of the loop condition. -/
theorem Batched.rest_eq_nil (h : Batched (i :: rest)) (hi : isBottom i = true) : rest = [] := by
  cases rest with
  | nil => rfl
  | cons j rest =>
      have hnot := h.bottom i (by simp)
      exact absurd (hnot.symm.trans hi) (by simp)

theorem Batched.executes (h : Batched (i :: rest)) (hexec : Executes op w i op' new) :
    Batched (new ++ rest) := by
  have hsingle := h.single
  have hbottom := hexec.bottom
  rw [weigh_cons] at hsingle
  refine ⟨?_, ?_⟩
  · rw [weigh_append]
    rcases hexec.batch_le with hle | ⟨rfl, hone⟩
    · omega
    · have hrest := h.rest_eq_nil rfl
      rw [hrest, hone, weigh_nil]
  · cases rest with
    | nil => simpa using hbottom.1
    | cons k rest =>
        have hi : isBottom i = false := h.bottom i (by simp)
        intro j hj
        rw [List.dropLast_append_of_ne_nil (by simp)] at hj
        rcases List.mem_append.mp hj with hj | hj
        · exact hbottom.2 hi j hj
        · exact h.bottom j (by rw [List.dropLast_cons_of_ne_nil (by simp)]; exact .tail _ hj)

/-! ## What an event can rely on until its turn -/

/-- Its registration is in place, or it closes and its slot is cleared. -/
def Live (T : Table) (e : Event) : Prop :=
  e.reg ∈ T.interest ∨
    Closes e ∧ ∃ idx, e.reg.key = .client idx ∧ T.slots[idx]? = some Slot.shut

/-- The invariant of a batch. -/
structure Waiting (op : Operator H) (code : List Instr) : Prop where
  live : ∀ e ∈ waiting code, Live (table op) e
  nodup : ((waiting code).map fun e => e.reg).Nodup
  /-- The client about to be removed has no event left. -/
  removed : ∀ fd rest, code = .removeByFd fd :: rest → ∀ e ∈ waiting rest, e.reg ∈ op.interest →
    e.reg.fd ≠ fd
  noCrash : .crash ∉ code

theorem ctx_client {idx : Nat} {sl : Slot} (h : (table op).slots[idx]? = some sl) :
    op.ctx (.client idx) = sl.ctx := by
  simp only [table, List.getElem?_map, Option.map_eq_some_iff] at h
  obtain ⟨c, hget, rfl⟩ := h
  simp [Operator.ctx, hget, slot]

/-- The context behind a registration carries its descriptor and its callback. -/
theorem Sound.ctx_of_mem (hs : Sound op) {r : Registration} (hr : r ∈ op.interest) :
    (op.ctx r.key).fd = r.fd ∧ (op.ctx r.key).handler = some (callbackOf r.key) := by
  cases hkey : r.key with
  | wakeup =>
      have hreg := hs.table.wakeup.2 r hr hkey
      rw [hreg]
      exact ⟨rfl, hs.wakeupHandler⟩
  | timer =>
      have hreg := hs.table.timer.2 r hr hkey
      rw [hreg]
      exact ⟨rfl, hs.timerHandler⟩
  | client idx =>
      rw [ctx_client (hs.table.slot r hr idx hkey)]
      exact ⟨rfl, rfl⟩

/-- **An event that can rely on its registration is acted on correctly.** -/
theorem Live.actsOn (h : Live (table op) e) (hs : Sound op) : ActsOn op e := by
  unfold ActsOn reactorDispatch
  rcases h with hmem | ⟨hclose, idx, hkey, hshut⟩
  · have hmem : e.reg ∈ op.interest := hmem
    obtain ⟨hfd, hhandler⟩ := hs.ctx_of_mem hmem
    by_cases hclose : Closes e
    · rw [if_pos hclose, if_pos rfl]
      exact .inr ⟨hmem, hfd⟩
    · rw [if_neg hclose, hhandler]
      exact ⟨hmem, hfd, rfl⟩
  · rw [if_pos hclose, if_pos rfl, hkey, ctx_client hshut]
    exact .inl rfl

/-! ## What the table does to an event -/

section Table

variable {id maxClients idx : Nat} {wakeup timer : Registration} {T : Table} {sl : Slot} {fd : Int}

/-- A slot that changes under no event that is waiting for it. -/
theorem Live.set {sl' : Slot} (h : Live T e) (hget : T.slots[idx]? = some sl)
    (hkey : e.reg.key ≠ .client idx) {T' : Table} (hslots : T'.slots = T.slots.set idx sl')
    (hinterest : ∀ r ∈ T.interest, r ∈ T'.interest) : Live T' e := by
  rcases h with hmem | ⟨hclose, j, hj, hshut⟩
  · exact .inl (hinterest _ hmem)
  · have hne : idx ≠ j := by
      rintro rfl
      exact hkey hj
    refine .inr ⟨hclose, j, hj, ?_⟩
    rw [hslots, getElem?_set_slot hget, if_neg hne]
    exact hshut

/-- A slot that is dropped under no event but one that closes. -/
theorem Live.drop (h : Live T e) (hok : TableOk id maxClients wakeup timer T)
    (hget : T.slots[idx]? = some sl) (hbusy : sl.busy = true)
    (hown : e.reg ∈ T.interest → e.reg.fd = sl.ctx.fd → e.reg.key = .client idx → Closes e) :
    Live (T.drop idx sl.ctx.fd) e := by
  have hcleared : (T.drop idx sl.ctx.fd).slots[idx]? = some Slot.shut := by
    simp only [Table.drop]
    rw [getElem?_set_slot hget, if_pos rfl]
  rcases h with hmem | ⟨hclose, j, hj, hshut⟩
  · by_cases hfd : e.reg.fd = sl.ctx.fd
    · obtain ⟨stamp, hreg⟩ := hok.registered idx sl hget hbusy
      have hkey : e.reg.key = .client idx := by rw [hok.eq_of_fd hmem hreg hfd]
      exact .inr ⟨hown hmem hfd hkey, idx, hkey, hcleared⟩
    · exact .inl (by simp [Table.drop, hmem, hfd])
  · refine .inr ⟨hclose, j, hj, ?_⟩
    by_cases hne : idx = j
    · rw [← hne]
      exact hcleared
    · simp only [Table.drop]
      rw [getElem?_set_slot hget, if_neg hne]
      exact hshut

end Table

/-! ## One instruction -/

/-- The instructions that change the table. -/
def tabulates : Instr → Bool
  | .addClient _ | .removeByFd _ | .cleanClients _ _ => true
  | _ => false

theorem Executes.table_eq (h : Executes op w i op' new) (hi : tabulates i = false) :
    (table op').slots = (table op).slots ∧ (table op').interest = (table op).interest := by
  cases h with
  | initParsers hslots =>
      subst hslots
      exact ⟨map_slot_parserInit w.parser 0 op.clients, rfl⟩
  | clientHandled hopen hh hget hbusy hkept =>
      rw [table_setSlot_kept hget hkept]
      exact ⟨rfl, rfl⟩
  | clientFailed hopen hkey hh hget hbusy hkept =>
      rw [table_setSlot_kept hget hkept]
      exact ⟨rfl, rfl⟩
  | addUnwatched => exact absurd hi (by simp [tabulates])
  | added => exact absurd hi (by simp [tabulates])
  | removed => exact absurd hi (by simp [tabulates])
  | evicted => exact absurd hi (by simp [tabulates])
  | _ => simp only [table, and_self]

/-- Events only go, unless a new batch is reported. -/
theorem Executes.waiting_sublist (h : Executes op w i op' new) :
    (waiting new).Sublist (waiting [i]) ∨ i = .wait ∧ op' = op ∧
      new = [.events w.batch, .loopActive] ∧ op.Reports w.batch := by
  cases h with
  | reported hready => exact .inr ⟨rfl, rfl, rfl, hready⟩
  | wakeup hopen hh => exact .inl (by simp [waiting, reached, Closes, hopen])
  | timer hopen hh hread => exact .inl (by simp [waiting, reached, Closes, hopen])
  | timerEmpty hopen hh hread => exact .inl (by simp [waiting, reached, Closes, hopen])
  | clientIgnored hopen hh => exact .inl (by simp [waiting, reached, Closes, hopen])
  | clientHandled hopen hh hget hbusy hkept =>
      exact .inl (by simp [waiting, reached, Closes, hopen])
  | clientFailed hopen hkey hh hget hbusy hkept =>
      exact .inl (by simp [waiting, reached, Closes, hopen])
  | _ => exact .inl (by simp [waiting])

/-- Until its turn an event stays live. -/
theorem Waiting.live_executes (h : Waiting op (i :: rest)) (hs : Sound op)
    (hok : ¬Outdates op w (i :: rest)) (hexec : Executes op w i op' new) :
    ∀ e ∈ waiting rest, Live (table op') e := by
  intro e he
  have hlive := h.live e (by rw [waiting_cons]; exact List.mem_append_right _ he)
  by_cases hi : tabulates i = false
  · obtain ⟨hslots, hinterest⟩ := hexec.table_eq hi
    rw [Live, hslots, hinterest]
    exact hlive
  · -- only these four instructions touch the table
    cases hexec with
    | @addUnwatched fd idx hfree hinit hadd =>
        obtain ⟨c, hget, hidle⟩ := getAvailableClientSlot_free hfree
        have hkey : e.reg.key ≠ .client idx := fun hkey =>
          hok ⟨hinit, e, he, by rw [hfree, hkey]; rfl⟩
        rw [table_aim fd hget hidle]
        exact hlive.set (table_slots_getElem? hget) hkey rfl fun _ hr => hr
    | @added fd idx p hfree hinit hadd hfds =>
        obtain ⟨c, hget, hidle⟩ := getAvailableClientSlot_free hfree
        have hkey : e.reg.key ≠ .client idx := fun hkey =>
          hok ⟨hinit, e, he, by rw [hfree, hkey]; rfl⟩
        rw [table_adopt fd _ _ _ hget]
        exact hlive.set (table_slots_getElem? hget) hkey rfl fun _ hr => List.mem_append_left _ hr
    | @removed fd idx p hfound =>
        obtain ⟨c, hget, hbusy, hfd⟩ := slotOf_busy hfound
        -- an eviction is dangerous to an entry of the same client, which `hok` excludes
        have hdrop := hlive.drop hs.table (table_slots_getElem? hget) hbusy
          fun hmem hsame => absurd (hsame.trans hfd) (h.removed fd rest rfl e he hmem)
        have htable := table_drop hget hbusy
        simp only [table] at htable ⊢
        rw [htable]
        exact hdrop
    | @evicted idx now c hget hexp =>
        have hbusy := expired_busy hexp
        have hdrop := hlive.drop hs.table (table_slots_getElem? hget) hbusy
        rw [table_drop hget hbusy]
        refine hdrop fun hmem hsame hkey => ?_
        by_contra hopen
        exact hok ⟨by simp [hget, hexp], e, he, hkey, hopen⟩
    | addNoSlot => exact hlive
    | addRefused => exact hlive
    | removeMissing => exact hlive
    | cleaned => exact hlive
    | spared => exact hlive
    | _ => exact absurd rfl hi

/-- What a handler's instruction leaves of its batch, or what a new batch brings, is live. -/
theorem Waiting.live_new (h : Waiting op (i :: rest)) (hexec : Executes op w i op' new) :
    ∀ e ∈ waiting new, Live (table op') e := by
  intro e he
  rcases hexec.waiting_sublist with hsub | ⟨_, rfl, rfl, hready⟩
  · have hin : e ∈ waiting [i] := hsub.subset he
    have hi : tabulates i = false := by
      cases i with
      | addClient fd => exact absurd hin (by simp [waiting])
      | removeByFd fd => exact absurd hin (by simp [waiting])
      | cleanClients idx now => exact absurd hin (by simp [waiting])
      | _ => rfl
    obtain ⟨hslots, hinterest⟩ := hexec.table_eq hi
    rw [Live, hslots, hinterest]
    exact h.live e (by rw [waiting_cons]; exact List.mem_append_left _ hin)
  · have hin : e ∈ reached w.batch := by simpa [waiting] using he
    exact .inl (hready.2 e ((reached_sublist _).subset hin)).1

theorem Waiting.nodup_executes (h : Waiting op (i :: rest)) (hb : Batched (i :: rest))
    (hexec : Executes op w i op' new) :
    ((waiting (new ++ rest)).map fun e => e.reg).Nodup := by
  rw [waiting_append]
  rcases hexec.waiting_sublist with hsub | ⟨rfl, _, rfl, hready⟩
  · have hnodup := h.nodup
    rw [waiting_cons] at hnodup
    exact hnodup.sublist ((hsub.append (List.Sublist.refl _)).map _)
  · obtain rfl := hb.rest_eq_nil rfl
    have hsub : (waiting [.events w.batch, .loopActive] ++ waiting []).Sublist w.batch := by
      simpa [waiting] using reached_sublist w.batch
    exact hready.1.sublist (hsub.map _)

/-- The client whose handler failed has no other event in the batch. -/
theorem Waiting.removed_executes (h : Waiting op (i :: rest)) (hs : Sound op)
    (hb : Batched (i :: rest)) (hrest : ∀ j ∈ rest, resumes j = true)
    (hexec : Executes op w i op' new) {fd : Int} {after : List Instr}
    (hcode : new ++ rest = .removeByFd fd :: after) :
    ∀ e ∈ waiting after, e.reg ∈ op'.interest → e.reg.fd ≠ fd := by
  cases new with
  | nil =>
      have hhead := hrest (.removeByFd fd) (by rw [← List.nil_append rest, hcode]; exact .head _)
      exact absurd hhead (by simp [resumes])
  | cons j new =>
      obtain ⟨rfl, rfl⟩ := List.cons.inj hcode
      have hsingle := hb.single
      cases hexec with
      | closing hclose hfd =>
          have hnone : waiting rest = [] := waiting_eq_nil (by
            simp only [weigh_cons, isBatch] at hsingle
            omega)
          intro e he
          have hin : e ∈ waiting rest := he
          rw [hnone] at hin
          exact absurd hin (by simp)
      | @clientFailed e es idx c c' hopen hkey hh hget hbusy hkept =>
          have hnone : waiting rest = [] := waiting_eq_nil (by
            simp only [weigh_cons, isBatch] at hsingle
            omega)
          have hopen' : ¬Closes e := by simp [Closes, hopen]
          have hwaiting : waiting (.events (e :: es) :: rest) = e :: reached es := by
            rw [waiting_cons, hnone, List.append_nil]
            simp [waiting, reached, hopen']
          -- the failed client's own event was still on its registration
          have hmem : e.reg ∈ op.interest := by
            have hlive := h.live e (by rw [hwaiting]; exact .head _)
            rcases hlive with hmem | ⟨hclose, _⟩
            · exact hmem
            · exact absurd hclose hopen'
          have hfd : e.reg.fd = c.cli.ctx.fd := by
            have hslot := hs.table.slot e.reg hmem idx hkey
            rw [table_slots_getElem? hget, Option.some.injEq] at hslot
            have hctx : c.cli.ctx = aimedAt op.id e.reg.fd := congrArg Slot.ctx hslot
            rw [hctx]
            rfl
          intro e' he' hmem' hsame
          have hin : e' ∈ reached es := by
            have hbatch : e' ∈ waiting (.events es :: rest) := he'
            rw [waiting_cons, hnone, List.append_nil] at hbatch
            simpa [waiting] using hbatch
          have hreg : e'.reg = e.reg := hs.table.eq_of_fd hmem' hmem (hsame.trans hfd.symm)
          have hnodup := h.nodup
          rw [hwaiting, List.map_cons, List.nodup_cons] at hnodup
          exact hnodup.1 (List.mem_map.mpr ⟨e', hin, hreg⟩)

theorem Waiting.noCrash_executes (h : Waiting op (i :: rest)) (hs : Sound op)
    (hexec : Executes op w i op' new) : .crash ∉ new := by
  cases hexec with
  | @crashed e es hopen hnone =>
      have hopen' : ¬Closes e := by simp [Closes, hopen]
      have hin : e ∈ waiting (.events (e :: es) :: rest) := by
        rw [waiting_cons]
        exact List.mem_append_left _ (by simp [waiting, reached, hopen'])
      rcases h.live e hin with hmem | ⟨hclose, _⟩
      · have hhandler := (hs.ctx_of_mem hmem).2
        rw [hnone] at hhandler
        exact absurd hhandler (by simp)
      · exact absurd hclose hopen'
  | _ => simp

theorem Waiting.executes (h : Waiting op (i :: rest)) (hs : Sound op) (hb : Batched (i :: rest))
    (hrest : ∀ j ∈ rest, resumes j = true) (hok : ¬Outdates op w (i :: rest))
    (hexec : Executes op w i op' new) : Waiting op' (new ++ rest) := by
  refine ⟨?_, h.nodup_executes hb hexec, ?_, ?_⟩
  · intro e he
    rw [waiting_append] at he
    rcases List.mem_append.mp he with he | he
    · exact h.live_new hexec e he
    · exact h.live_executes hs hok hexec e he
  · intro fd after hcode
    exact h.removed_executes hs hb hrest hexec hcode
  · intro hcrash
    rcases List.mem_append.mp hcrash with hcrash | hcrash
    · exact h.noCrash_executes hs hexec hcrash
    · exact h.noCrash (.tail _ hcrash)

/-! ## Every run -/

theorem batched_reachable {ok : Mailbox H → MailboxAct H → Prop}
    (h : (mailbox H).ReachableBy ok s) : Batched s.code := by
  refine h.invariant (P := fun s => Batched s.code) ?_ ?_
  · rintro s ⟨_, hcode, _⟩
    rw [hcode]
    exact ⟨by simp [isBatch], by simp⟩
  · intro s a t _ hs _ hstep
    cases mailbox_step hstep with
    | executed hcode hexec =>
        rw [hcode] at hs
        exact hs.executes hexec
    | _ => exact hs

theorem waiting_reachable (h : (mailbox H).ReachableBy KeepsCurrent s) : Waiting s.op s.code := by
  refine h.invariant (P := fun s => Waiting s.op s.code) ?_ ?_
  · rintro s ⟨_, hcode, _⟩
    rw [hcode]
    exact ⟨by simp [waiting], by simp [waiting], by simp, by simp⟩
  · intro s a t hr hs hok hstep
    cases mailbox_step hstep with
    | @executed i op' w new rest hcode hexec =>
        have hstacked := stacked_reachable hr
        have hb := batched_reachable hr
        have hnot : ¬Outdates s.op w (i :: rest) := hcode ▸ hok
        rw [hcode] at hs hstacked hb
        exact hs.executes (sound_reachable hr) hb hstacked hnot hexec
    | _ => exact ⟨hs.live, hs.nodup, hs.removed, hs.noCrash⟩

/-! ## The listener -/

theorem listener_handler (l : Listener) (key : ListenKey l) : ∃ h, (l.ctx key).handler = some h := by
  cases key with
  | socket idx => exact ⟨_, rfl⟩
  | shutdown => exact ⟨_, rfl⟩

/-- What the listener's `reactor_run` does for one event that does not close. -/
theorem listener_dispatch (l : Listener) (key : ListenKey l) {events : Nat}
    (hopen : epollerCheckIfToClose events = false) :
    ∃ h, (l.ctx key).handler = some h ∧
      reactorDispatch false (l.ctx key) events = .call h (l.ctx key).fd := by
  obtain ⟨h, hh⟩ := listener_handler l key
  exact ⟨h, hh, by simp [reactorDispatch, hopen, hh]⟩

theorem listenerRun_crash (l : Listener) : ∀ batch : List (ListenKey l × Nat),
    (.crash ∈ listenerRun l batch ↔ ∃ e ∈ batch, epollerCheckIfToClose e.2 = true)
  | [] => by simp [listenerRun, reactorRun]
  | (key, events) :: batch => by
      have ih := listenerRun_crash l batch
      simp only [listenerRun] at ih ⊢
      by_cases hclose : epollerCheckIfToClose events = true
      · have hnull : reactorDispatch false (l.ctx key) events = .crash := by
          simp [reactorDispatch, hclose]
        simp [reactorRun, hnull, hclose]
      · have hopen := Bool.eq_false_of_not_eq_true hclose
        obtain ⟨h, _, hcall⟩ := listener_dispatch l key hopen
        simp [reactorRun, hcall, ih, hopen]

/--
**The reactor acts on an event only for the registration it was reported for.** An
operator's does in every run in which no step outdates an event that is still to be
reached. The listener's, whose contexts nobody touches, does for exactly the batches in
which no event closes.
-/
theorem reactor_current :
    (∀ s : Mailbox H, (mailbox H).ReachableBy KeepsCurrent s →
      (∀ e es rest, s.code = .events (e :: es) :: rest → ActsOn s.op e) ∧ .crash ∉ s.code) ∧
    (∀ (l : Listener) (batch : List (ListenKey l × Nat)),
      .crash ∉ listenerRun l batch ↔ ∀ e ∈ batch, epollerCheckIfToClose e.2 = false) := by
  refine ⟨?_, ?_⟩
  · intro s h
    have hwaiting := waiting_reachable h
    refine ⟨?_, hwaiting.noCrash⟩
    intro e es rest hcode
    have hin : e ∈ waiting s.code := by
      rw [hcode, waiting_cons]
      exact List.mem_append_left _ (by simpa [waiting] using head_mem_reached e es)
    exact (hwaiting.live e hin).actsOn (sound_reachable h)
  · intro l batch
    rw [listenerRun_crash]
    simp

/-- An adopted client is reported readable, behind a tick that is too early to evict it. -/
theorem reactor_current_readable : ∃ s : Mailbox DbHttp.small,
    s.code = [.events [firstEvent epollIn], .loopActive] ∧ ActsOn s.op (firstEvent epollIn) := by
  have hinit : (mailbox DbHttp.small).ReachableBy KeepsCurrent (Mailbox.small 2) :=
    .init ⟨operatorInit_small (by decide), rfl, rfl, rfl⟩
  obtain ⟨t, ht, hcode⟩ := hinit.exists_of_run
    (adoptFirst ++ threadSteps 1 0 ++
      [.thread (Answers.smooth [timerEvent, firstEvent epollIn] 1)] ++ threadSteps 4 1)
    (fun s => s.code == [.events [firstEvent epollIn], .loopActive])
    (by decide +kernel)
  have hcode := eq_of_beq hcode
  exact ⟨t, hcode, (reactor_current.1 t ht).1 _ _ _ hcode⟩

/--
A minute later the tick evicts the client, and its event calls a `NULL` handler. With a
wakeup in between, its slot holds the connection of descriptor 8, which a hang-up of 7
reports for closing. The listener stores the descriptor of a socket in error through `NULL`.
-/
theorem reactor_not_current :
    (¬∀ (H : DbHttp) (s : Mailbox H), (mailbox H).Reachable s → .crash ∉ s.code) ∧
    (¬∀ (H : DbHttp) (s : Mailbox H) (e : Event) (es : List Event) (rest : List Instr),
      (mailbox H).Reachable s → s.code = .events (e :: es) :: rest → ActsOn s.op e) ∧
    (¬∀ (l : Listener) (batch : List (ListenKey l × Nat)), .crash ∉ listenerRun l batch) := by
  refine ⟨?_, ?_, ?_⟩
  · intro hall
    obtain ⟨t, ht, hcode⟩ := (small_reachable (n := 2) (by decide)).exists_of_run
      (adoptFirst ++ threadSteps 1 0 ++
        [.thread (Answers.smooth [timerEvent, firstEvent epollIn] 60)] ++ threadSteps 5 60)
      (fun s => decide (.crash ∈ s.code))
      (by decide +kernel)
    exact hall _ t ht (of_decide_eq_true hcode)
  · intro hall
    obtain ⟨t, ht, hstale⟩ := (small_reachable (n := 2) (by decide)).exists_of_run
      (adoptFirst ++ [.push 8, .count, .write] ++ threadSteps 1 0 ++
        [.thread (Answers.smooth [timerEvent, wakeupEvent, firstEvent epollHup] 60)] ++
          threadSteps 12 60)
      (fun s => s.code == [.events [firstEvent epollHup], .loopActive] &&
        decide (reactorDispatch true (s.op.ctx (.client 0)) epollHup = .close 8))
      (by decide +kernel)
    simp only [Bool.and_eq_true, beq_iff_eq, decide_eq_true_eq] at hstale
    obtain ⟨hcode, hclose⟩ := hstale
    have hacts := hall _ t _ _ _ ht hcode
    have hreports : reactorDispatch true (t.op.ctx (firstEvent epollHup).reg.key)
        (firstEvent epollHup).events = .close 8 := hclose
    rw [ActsOn, hreports] at hacts
    rcases hacts with h | ⟨_, h⟩
    · exact absurd h (by decide)
    · exact absurd h (by decide)
  · intro hall
    exact hall ⟨[(3, false)], 4⟩ [(.socket ⟨0, Nat.one_pos⟩, epollErr)]
      (List.mem_singleton.mpr (by decide))

end DBServer.Proof
