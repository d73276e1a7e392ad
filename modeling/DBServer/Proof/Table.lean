import DBServer.Proof.Thread

/-!
# The slot table and the interest list

Seen from the outside an operator is a table of slots, each free or busy with a
descriptor, next to the interest list of its `epoll`. Four things happen to it, and
every instruction does one of them or nothing: a context is filled in, a descriptor
is adopted, a client is dropped. `TableOk` is what they keep: the busy slots and the
registrations for them correspond one to one, under pairwise different descriptors,
and the client count is the number of busy slots.
-/

namespace DBServer.Proof

open DBServer Lib Operator

variable {H : DbHttp} {op op' : Operator H} {i : Instr} {w : Answers H} {new : List Instr}

/-- A slot, as far as others depend on it. -/
structure Slot where
  busy : Bool
  ctx : FdCtx

/-- The context `_operator_add_client` fills in. -/
def aimedAt (id : Nat) (fd : Int) : FdCtx := ⟨fd, some id, some .operatorClient⟩

/-- A slot as `client_shutdown` leaves it. -/
def Slot.shut : Slot := ⟨false, ⟨-1, none, none⟩⟩

/-- The slots of an operator, its interest list, its client count and what it closed. -/
structure Table where
  slots : List Slot
  interest : List Registration
  stamps : Nat
  active : Nat
  closed : List Int

/-- The abstraction of a slot. -/
def slot (c : Conn H) : Slot := ⟨c.cli.isBusy, c.cli.ctx⟩

/-- The abstraction of an operator. -/
def table (op : Operator H) : Table :=
  ⟨op.clients.map slot, op.interest, op.stamps, op.activeClients, op.closed⟩

namespace Table

/-- Fill in the context of a slot. -/
def aim (id idx : Nat) (fd : Int) (T : Table) : Table :=
  { T with slots := T.slots.set idx ⟨false, aimedAt id fd⟩ }

/-- Register a descriptor and give it a slot. -/
def adopt (id idx : Nat) (fd : Int) (T : Table) : Table :=
  { T with
    slots := T.slots.set idx ⟨true, aimedAt id fd⟩
    interest := T.interest ++ [⟨fd, .client idx, T.stamps⟩]
    stamps := T.stamps + 1
    active := incr32 T.active }

/-- Close the descriptor of a slot. -/
def drop (idx : Nat) (fd : Int) (T : Table) : Table :=
  { T with
    slots := T.slots.set idx Slot.shut
    interest := T.interest.filter fun r => r.fd != fd
    active := decr32 T.active
    closed := T.closed ++ [fd] }

/-- What can happen to a table. -/
inductive Step (id : Nat) (T : Table) : Table → Prop where
  | same : Step id T T
  | aim {idx : Nat} {s : Slot} {fd : Int} : T.slots[idx]? = some s → s.busy = false →
      Step id T (T.aim id idx fd)
  | adopt {idx : Nat} {s : Slot} {fd : Int} : T.slots[idx]? = some s → s.busy = false →
      (∀ r ∈ T.interest, r.fd ≠ fd) → Step id T (T.adopt id idx fd)
  | drop {idx : Nat} {s : Slot} : T.slots[idx]? = some s → s.busy = true →
      Step id T (T.drop idx s.ctx.fd)

end Table

/-! ## The instructions on the table -/

theorem slot_of_identity {c c' : Conn H} (h : identity c' = identity c) : slot c' = slot c := by
  simp only [identity, Prod.mk.injEq] at h
  simp only [slot, h.1, h.2.1]

theorem table_slots_getElem? {idx : Nat} {c : Conn H} (h : op.clients[idx]? = some c) :
    (table op).slots[idx]? = some (slot c) := by
  simp [table, h]

/-- Changing one slot changes one slot of the table. -/
theorem map_slot_setSlot {idx : Nat} {c : Conn H} (f : Conn H → Conn H)
    (h : op.clients[idx]? = some c) :
    (op.setSlot idx f).clients.map slot = (op.clients.map slot).set idx (slot (f c)) := by
  refine List.ext_getElem? fun j => ?_
  simp only [setSlot, List.getElem?_map, List.getElem?_modify, List.getElem?_set, List.length_map]
  by_cases hj : idx = j
  · subst hj
    obtain ⟨hlt, rfl⟩ := List.getElem?_eq_some_iff.mp h
    simp [hlt]
  · simp [hj]

/-- The parsers are no part of the table. -/
theorem map_slot_parserInit (parser : Nat → Option H.Parser) : ∀ (idx : Nat) (cs : List (Conn H)),
    (parserInit parser idx cs).2.map slot = cs.map slot
  | _, [] => rfl
  | idx, c :: cs => by
      rw [parserInit]
      cases parser idx with
      | none => rfl
      | some p =>
          simp only [List.map_cons, map_slot_parserInit parser (idx + 1) cs]
          rfl

/-- Nothing happens to the table of an operator whose slots and registrations stay. -/
theorem table_same (hclients : op'.clients = op.clients) (hinterest : op'.interest = op.interest)
    (hstamps : op'.stamps = op.stamps) (hactive : op'.activeClients = op.activeClients)
    (hclosed : op'.closed = op.closed) : Table.Step op.id (table op) (table op') := by
  have hsame : table op' = table op := by
    simp only [table, hclients, hinterest, hstamps, hactive, hclosed]
  rw [hsame]
  exact .same

theorem table_setSlot_kept {idx : Nat} {c c' : Conn H} (hget : op.clients[idx]? = some c)
    (hkept : identity c' = identity c) : table (op.setSlot idx fun _ => c') = table op := by
  have hslots : (op.setSlot idx fun _ => c').clients.map slot = op.clients.map slot := by
    obtain ⟨hlt, hself⟩ := List.getElem?_eq_some_iff.mp (table_slots_getElem? hget)
    rw [map_slot_setSlot _ hget, slot_of_identity hkept, ← hself]
    exact List.set_getElem_self hlt
  simp only [table, hslots]
  rfl

theorem table_aim {idx : Nat} {c : Conn H} (fd : Int) (hget : op.clients[idx]? = some c)
    (hidle : c.cli.isBusy = false) :
    table (op.setSlot idx (op.aim fd)) = (table op).aim op.id idx fd := by
  have hslot : slot (op.aim fd c) = ⟨false, aimedAt op.id fd⟩ := by
    simp only [slot, Operator.aim, hidle, aimedAt]
  simp only [table, Table.aim, map_slot_setSlot _ hget, hslot]
  rfl

theorem table_adopt {idx : Nat} {c : Conn H} (fd : Int) (peer : Nat × Nat) (now p : Nat)
    (hget : op.clients[idx]? = some c) :
    table { op.setSlot idx (fun c => Operator.adopt peer now (op.aim fd c)) with
      interest := op.interest ++ [⟨fd, .client idx, op.stamps⟩]
      stamps := op.stamps + 1
      activeClients := incr32 op.activeClients
      timerPeriod := p } = (table op).adopt op.id idx fd := by
  simp only [table, Table.adopt]
  rw [map_slot_setSlot _ hget]
  rfl

theorem table_drop {idx : Nat} {c : Conn H} (hget : op.clients[idx]? = some c)
    (hbusy : c.cli.isBusy = true) : table (op.dropSlot idx) = (table op).drop idx c.cli.ctx.fd := by
  have hshut : slot (shutSlot c) = Slot.shut := by
    simp only [slot, shutSlot, clientShutdown, if_pos hbusy]
    rfl
  have hctx : (op.ctx (.client idx)).fd = c.cli.ctx.fd := by simp [Operator.ctx, hget]
  have hclosed : (op.clients[idx]?.map fun c => (clientShutdown c.cli).2).getD [] =
      [c.cli.ctx.fd] := by
    simp [hget, clientShutdown_closes hbusy]
  simp only [table, Table.drop, dropSlot, map_slot_setSlot _ hget, hshut, hctx, hclosed]
  rfl

theorem expired_busy {now : Nat} {c : Conn H} (h : expired now c = true) :
    c.cli.isBusy = true := by
  simp only [expired, Bool.and_eq_true] at h
  exact h.1

/-- **Every instruction does one of the four things to the table.** -/
theorem Executes.table_step (h : Executes op w i op' new) :
    Table.Step op.id (table op) (table op') := by
  cases h with
  | initParsers hslots =>
      have hsame : table { op with clients := (parserInit w.parser 0 op.clients).2 } =
          table op := by
        simp only [table, map_slot_parserInit]
      rw [hslots, hsame]
      exact .same
  | clientHandled hopen hh hget hbusy hkept =>
      rw [table_setSlot_kept hget hkept]
      exact .same
  | clientFailed hopen hkey hh hget hbusy hkept =>
      rw [table_setSlot_kept hget hkept]
      exact .same
  | addUnwatched hfree hinit hadd =>
      obtain ⟨c, hget, hidle⟩ := getAvailableClientSlot_free hfree
      rw [table_aim _ hget hidle]
      exact .aim (s := slot c) (table_slots_getElem? hget) hidle
  | added hfree hinit hadd hfds =>
      obtain ⟨c, hget, hidle⟩ := getAvailableClientSlot_free hfree
      rw [table_adopt _ _ _ _ hget]
      exact .adopt (s := slot c) (table_slots_getElem? hget) hidle hfds
  | removed hfound =>
      obtain ⟨c, hget, hbusy, _⟩ := slotOf_busy hfound
      have hdrop := table_drop hget hbusy
      simp only [table] at hdrop ⊢
      rw [hdrop]
      exact .drop (s := slot c) (table_slots_getElem? hget) hbusy
  | @evicted _ _ c hget hexp =>
      have hbusy := expired_busy hexp
      rw [table_drop hget hbusy]
      exact .drop (s := slot c) (table_slots_getElem? hget) hbusy
  | _ => exact table_same rfl rfl rfl rfl rfl

/-! ## What they keep -/

/-- Slots and registrations correspond; `wakeup` and `timer` are the operator's own registrations. -/
structure TableOk (id maxClients : Nat) (wakeup timer : Registration) (T : Table) : Prop where
  length : T.slots.length = maxClients
  active : T.active = T.slots.countP Slot.busy
  fds : (T.interest.map Registration.fd).Nodup
  stamped : ∀ r ∈ T.interest, r.stamp < T.stamps
  registered : ∀ idx s, T.slots[idx]? = some s → s.busy = true →
    ∃ stamp, ⟨s.ctx.fd, .client idx, stamp⟩ ∈ T.interest
  slot : ∀ r ∈ T.interest, ∀ idx, r.key = .client idx →
    T.slots[idx]? = some ⟨true, aimedAt id r.fd⟩
  wakeup : wakeup ∈ T.interest ∧ ∀ r ∈ T.interest, r.key = .wakeup → r = wakeup
  timer : timer ∈ T.interest ∧ ∀ r ∈ T.interest, r.key = .timer → r = timer

variable {id maxClients idx : Nat} {wakeup timer : Registration} {T T' : Table} {s : Slot} {fd : Int}

/-- No registration points at a free slot. -/
theorem TableOk.key_ne (h : TableOk id maxClients wakeup timer T) (hget : T.slots[idx]? = some s)
    (hidle : s.busy = false) {r : Registration} (hr : r ∈ T.interest) : r.key ≠ .client idx := by
  intro hkey
  have hslot := h.slot r hr idx hkey
  rw [hget, Option.some.injEq] at hslot
  rw [hslot] at hidle
  exact absurd hidle (by simp)

/-- Two registrations with one descriptor are one. -/
theorem TableOk.eq_of_fd (h : TableOk id maxClients wakeup timer T) {r r' : Registration}
    (hr : r ∈ T.interest) (hr' : r' ∈ T.interest) (hfd : r.fd = r'.fd) : r = r' :=
  List.inj_on_of_nodup_map h.fds hr hr' hfd

/-- Setting a slot trades what it counted for what the new one counts. -/
theorem countP_set_slot (p : Slot → Bool) (s' : Slot) (hget : T.slots[idx]? = some s) :
    (T.slots.set idx s').countP p + (if p s then 1 else 0) =
      T.slots.countP p + (if p s' then 1 else 0) := by
  obtain ⟨hlt, rfl⟩ := List.getElem?_eq_some_iff.mp hget
  have hle := List.boole_getElem_le_countP (p := p) hlt
  rw [List.countP_set hlt]
  omega

/-- A slot other than the one that was set. -/
theorem getElem?_set_slot {s' : Slot} {j : Nat} (hget : T.slots[idx]? = some s) :
    (T.slots.set idx s')[j]? = if idx = j then some s' else T.slots[j]? := by
  obtain ⟨hlt, _⟩ := List.getElem?_eq_some_iff.mp hget
  simp only [List.getElem?_set, if_pos hlt]

theorem TableOk.aim (h : TableOk id maxClients wakeup timer T) (hget : T.slots[idx]? = some s)
    (hidle : s.busy = false) : TableOk id maxClients wakeup timer (T.aim id idx fd) := by
  refine ⟨?_, ?_, h.fds, h.stamped, ?_, ?_, h.wakeup, h.timer⟩
  · exact (List.length_set ..).trans h.length
  · have hcount := countP_set_slot Slot.busy ⟨false, aimedAt id fd⟩ hget
    have hactive := h.active
    simp only [hidle, Bool.false_eq_true, if_false, Nat.add_zero] at hcount
    simp only [Table.aim]
    omega
  · intro j s' hj hbusy
    simp only [Table.aim] at hj ⊢
    rw [getElem?_set_slot hget] at hj
    split at hj
    · obtain rfl := Option.some.inj hj
      exact absurd hbusy (by simp)
    · exact h.registered j s' hj hbusy
  · intro r hr j hkey
    have hne : idx ≠ j := by
      rintro rfl
      exact h.key_ne hget hidle hr hkey
    simp only [Table.aim]
    rw [getElem?_set_slot hget, if_neg hne]
    exact h.slot r hr j hkey

theorem TableOk.adopt (h : TableOk id maxClients wakeup timer T) (hmax : maxClients < 2 ^ 32)
    (hget : T.slots[idx]? = some s) (hidle : s.busy = false)
    (hfds : ∀ r ∈ T.interest, r.fd ≠ fd) :
    TableOk id maxClients wakeup timer (T.adopt id idx fd) := by
  have hmem : ∀ {r : Registration}, r ∈ (T.adopt id idx fd).interest →
      r ∈ T.interest ∨ r = ⟨fd, .client idx, T.stamps⟩ := by
    intro r hr
    simpa [Table.adopt] using hr
  refine ⟨?_, ?_, ?_, ?_, ?_, ?_, ?_, ?_⟩
  · exact (List.length_set ..).trans h.length
  · -- there is one slot at least that was idle, so the counter does not wrap
    have hcount := countP_set_slot Slot.busy ⟨true, aimedAt id fd⟩ hget
    have hactive := h.active
    have hle : (T.slots.set idx ⟨true, aimedAt id fd⟩).countP Slot.busy ≤ maxClients := by
      refine (List.countP_le_length ..).trans ?_
      rw [List.length_set, h.length]
    simp only [hidle, Bool.false_eq_true, if_false, if_true, Nat.add_zero] at hcount
    simp only [Table.adopt, incr32]
    omega
  · simp only [Table.adopt, List.map_append, List.map_cons, List.map_nil]
    refine List.nodup_append.mpr ⟨h.fds, by simp, ?_⟩
    intro a ha b hb
    obtain ⟨r, hr, rfl⟩ := List.mem_map.mp ha
    obtain rfl : b = fd := by simpa using hb
    exact hfds r hr
  · intro r hr
    simp only [Table.adopt]
    rcases hmem hr with hr | rfl
    · exact Nat.lt_succ_of_lt (h.stamped r hr)
    · exact Nat.lt_succ_self _
  · intro j s' hj hbusy
    simp only [Table.adopt] at hj ⊢
    rw [getElem?_set_slot hget] at hj
    split at hj
    · rename_i heq
      obtain rfl := Option.some.inj hj
      exact ⟨T.stamps, by simp [aimedAt, heq]⟩
    · obtain ⟨stamp, hstamp⟩ := h.registered j s' hj hbusy
      exact ⟨stamp, List.mem_append_left _ hstamp⟩
  · intro r hr j hkey
    simp only [Table.adopt]
    rw [getElem?_set_slot hget]
    rcases hmem hr with hr | rfl
    · have hne : idx ≠ j := by
        rintro rfl
        exact h.key_ne hget hidle hr hkey
      rw [if_neg hne]
      exact h.slot r hr j hkey
    · obtain rfl : idx = j := by simpa using hkey
      rw [if_pos rfl]
  · refine ⟨List.mem_append_left _ h.wakeup.1, ?_⟩
    intro r hr hkey
    rcases hmem hr with hr | rfl
    · exact h.wakeup.2 r hr hkey
    · exact absurd hkey (by simp)
  · refine ⟨List.mem_append_left _ h.timer.1, ?_⟩
    intro r hr hkey
    rcases hmem hr with hr | rfl
    · exact h.timer.2 r hr hkey
    · exact absurd hkey (by simp)

theorem TableOk.drop (h : TableOk id maxClients wakeup timer T) (hmax : maxClients < 2 ^ 32)
    (hget : T.slots[idx]? = some s) (hbusy : s.busy = true)
    (hwk : wakeup.key = .wakeup) (htm : timer.key = .timer) :
    TableOk id maxClients wakeup timer (T.drop idx s.ctx.fd) := by
  have hmem : ∀ {r : Registration}, r ∈ (T.drop idx s.ctx.fd).interest ↔
      r ∈ T.interest ∧ r.fd ≠ s.ctx.fd := by
    intro r
    simp [Table.drop]
  obtain ⟨stamp, hreg⟩ := h.registered idx s hget hbusy
  -- the only registration that goes is the slot's own
  have hstays : ∀ {r : Registration}, r ∈ T.interest → r.key ≠ .client idx →
      r ∈ (T.drop idx s.ctx.fd).interest := by
    intro r hr hkey
    refine hmem.mpr ⟨hr, fun hfd => hkey ?_⟩
    rw [h.eq_of_fd hr hreg hfd]
  refine ⟨?_, ?_, ?_, ?_, ?_, ?_, ?_, ?_⟩
  · exact (List.length_set ..).trans h.length
  · have hcount := countP_set_slot Slot.busy Slot.shut hget
    have hactive := h.active
    have hle : T.slots.countP Slot.busy ≤ maxClients := by
      rw [← h.length]
      exact List.countP_le_length ..
    simp only [hbusy, Slot.shut, Bool.false_eq_true, if_false, if_true, Nat.add_zero] at hcount
    simp only [Table.drop, decr32, Slot.shut]
    omega
  · exact h.fds.sublist (List.filter_sublist.map _)
  · intro r hr
    exact h.stamped r (hmem.mp hr).1
  · intro j s' hj hbusy'
    simp only [Table.drop] at hj
    rw [getElem?_set_slot hget] at hj
    split at hj
    · obtain rfl := Option.some.inj hj
      exact absurd hbusy' (by simp [Slot.shut])
    · rename_i hne
      obtain ⟨stamp', hstamp⟩ := h.registered j s' hj hbusy'
      refine ⟨stamp', hstays hstamp ?_⟩
      intro hkey
      exact hne (by simpa using hkey.symm)
  · intro r hr j hkey
    obtain ⟨hr, hfd⟩ := hmem.mp hr
    have hslot := h.slot r hr j hkey
    simp only [Table.drop]
    rw [getElem?_set_slot hget, if_neg]
    · exact hslot
    · rintro rfl
      rw [hget, Option.some.injEq] at hslot
      exact hfd (by rw [hslot]; rfl)
  · refine ⟨hstays h.wakeup.1 (by rw [hwk]; simp), ?_⟩
    intro r hr hkey
    exact h.wakeup.2 r (hmem.mp hr).1 hkey
  · refine ⟨hstays h.timer.1 (by rw [htm]; simp), ?_⟩
    intro r hr hkey
    exact h.timer.2 r (hmem.mp hr).1 hkey

theorem TableOk.step (h : TableOk id maxClients wakeup timer T) (hmax : maxClients < 2 ^ 32)
    (hwk : wakeup.key = .wakeup) (htm : timer.key = .timer) (hstep : Table.Step id T T') :
    TableOk id maxClients wakeup timer T' := by
  cases hstep with
  | same => exact h
  | aim hget hidle => exact h.aim hget hidle
  | adopt hget hidle hfds => exact h.adopt hmax hget hidle hfds
  | drop hget hbusy => exact h.drop hmax hget hbusy hwk htm

/-! ## In every state of an operator -/

/-- The registrations `operator_init` makes. -/
def wakeupReg (op : Operator H) : Registration := ⟨op.wakeupCtx.fd, .wakeup, 1⟩

def timerReg (op : Operator H) : Registration := ⟨op.timerCtx.fd, .timer, 0⟩

/-- An operator whose table is in order. -/
structure Sound (op : Operator H) : Prop where
  maxClients : 0 < op.maxClients ∧ op.maxClients < 2 ^ 32
  table : TableOk op.id op.maxClients (wakeupReg op) (timerReg op) (table op)
  wakeupHandler : op.wakeupCtx.handler = some .operatorWakeup
  timerHandler : op.timerCtx.handler = some .operatorTimer

theorem sound_init (h : OperatorInit op) : Sound op := by
  have hfree : ∀ s ∈ (table op).slots, s.busy = false := by
    intro s hs
    simp only [table, h.clients, List.map_replicate] at hs
    rw [List.eq_of_mem_replicate hs]
    rfl
  have hregs : ∀ r, r ∈ (table op).interest ↔ r = timerReg op ∨ r = wakeupReg op := by
    intro r
    simp [table, h.interest, timerReg, wakeupReg]
  refine ⟨h.maxClients, ⟨?_, ?_, ?_, ?_, ?_, ?_, ?_, ?_⟩, h.wakeupCtx.1, h.timerCtx.1⟩
  · simp [table, h.clients]
  · have hnone : (table op).slots.countP Slot.busy = 0 := by
      rw [List.countP_eq_zero]
      intro s hs
      simp [hfree s hs]
    rw [hnone]
    exact h.activeClients
  · simp [table, h.interest, h.fds.2.2]
  · intro r hr
    rcases (hregs r).mp hr with rfl | rfl <;> simp [table, h.stamps, timerReg, wakeupReg]
  · intro idx s hget hbusy
    have hidle := hfree s (List.mem_of_getElem? hget)
    exact absurd (hidle.symm.trans hbusy) (by simp)
  · intro r hr idx hkey
    rcases (hregs r).mp hr with rfl | rfl <;> simp [timerReg, wakeupReg] at hkey
  · refine ⟨(hregs _).mpr (.inr rfl), ?_⟩
    intro r hr hkey
    rcases (hregs r).mp hr with rfl | rfl
    · simp [timerReg] at hkey
    · rfl
  · refine ⟨(hregs _).mpr (.inl rfl), ?_⟩
    intro r hr hkey
    rcases (hregs r).mp hr with rfl | rfl
    · rfl
    · simp [wakeupReg] at hkey

theorem Executes.sound (h : Executes op w i op' new) (hs : Sound op) : Sound op' := by
  have hfixed := h.fixed
  have htable := hs.table.step hs.maxClients.2 rfl rfl h.table_step
  have hwakeup : wakeupReg op' = wakeupReg op := by rw [wakeupReg, hfixed.wakeupCtx]; rfl
  have htimer : timerReg op' = timerReg op := by rw [timerReg, hfixed.timerCtx]; rfl
  refine ⟨?_, ?_, ?_, ?_⟩
  · rw [hfixed.maxClients]
    exact hs.maxClients
  · rw [hfixed.id, hfixed.maxClients, hwakeup, htimer]
    exact htable
  · rw [hfixed.wakeupCtx]
    exact hs.wakeupHandler
  · rw [hfixed.timerCtx]
    exact hs.timerHandler

theorem Sound.lt_maxClients (hs : Sound op) {idx : Nat} {c : Conn H}
    (hget : op.clients[idx]? = some c) : idx < op.maxClients := by
  have hlen : op.clients.length = op.maxClients := (List.length_map ..).symm.trans hs.table.length
  rw [← hlen]
  exact (List.getElem?_eq_some_iff.mp hget).1

/-- There are never more clients than slots. -/
theorem activeClients_le (hs : Sound op) : op.activeClients ≤ op.maxClients := by
  have hactive : op.activeClients = (table op).slots.countP Slot.busy := hs.table.active
  rw [hactive, ← hs.table.length]
  exact List.countP_le_length ..

/-- `epoll_wait` has the wakeup to report. -/
def WakeupPending (op : Operator H) : Prop := op.Reports [⟨wakeupReg op, epollIn⟩]

theorem Sound.wakeupPending (hs : Sound op) (h : 0 < op.wakeups) : WakeupPending op := by
  refine ⟨by simp, ?_⟩
  intro e he
  obtain rfl : e = ⟨wakeupReg op, epollIn⟩ := by simpa using he
  exact ⟨hs.table.wakeup.1, fun _ => h⟩

theorem sound_reachable {ok : Mailbox H → MailboxAct H → Prop} {s : Mailbox H}
    (h : (mailbox H).ReachableBy ok s) : Sound s.op := by
  refine h.invariant (P := fun s => Sound s.op) ?_ ?_
  · rintro s ⟨hop, _⟩
    exact sound_init hop
  · intro s a t _ hs _ hstep
    cases mailbox_step hstep with
    | executed hcode hexec => exact hexec.sound hs
    | _ => exact ⟨hs.maxClients, hs.table, hs.wakeupHandler, hs.timerHandler⟩

end DBServer.Proof
