import DBServer.Proof.Slots

/-!
# The slot table

The count of clients, the busy flags, the interest list and the housekeeping timer are
changed one after another, by an add that can stop half-way and by two versions of the
removal. They agree all the same after every instruction. The count, the flags and the
interest list are the table of `Proof/Table`; here are the rest: an idle slot has
nothing parked, descriptors stay non-negative on their way from the ring to the interest
list, and the timer is short from the first client on.
-/

namespace DBServer.Proof

open DBServer Lib Operator

variable {H : DbHttp} {op op' : Operator H} {i : Instr} {w : Answers H} {new : List Instr}
  {c c' : Conn H} {s t : Mailbox H}

/-! ## A free slot has nothing parked -/

/-- The flag of a slot that has no client. -/
def Quiet (c : Conn H) : Prop := c.cli.isBusy = false → c.cli.draining = false

theorem SlotChange.quiet (h : SlotChange op i w new c c') (hc : Quiet c) : Quiet c' := by
  have hstill : ∀ {rc : Option Status}, c.cli.isBusy = true → clientCall op w c = (rc, c') →
      Quiet c' := by
    intro rc hbusy hcall hidle
    have hkept := congrArg Prod.fst (clientCall_identity op w c)
    rw [hcall] at hkept
    exact absurd (hidle.symm.trans (hkept.trans hbusy)) (by simp)
  cases h with
  | same => exact hc
  | parser => exact hc
  | aimed hidle => exact fun _ => hc hidle
  | adopted hidle => exact fun hfree => absurd hfree (by simp [adopt, Conn.fresh])
  | handled hbusy hcall => exact hstill hbusy hcall
  | failed hbusy hcall _ => exact hstill hbusy hcall
  | shut hbusy =>
      intro _
      simp only [shutSlot, clientShutdown, if_pos hbusy]
      rfl

/-- A property of every slot that every change of a slot keeps. -/
theorem slots_reachable {P : Conn H → Prop} {ok : Mailbox H → MailboxAct H → Prop}
    (hinit : P (Conn.fresh (Client.zeroed H)))
    (hchange : ∀ {s op i w new c c'}, ok s (.thread w) → SlotChange op i w new c c' → P c → P c')
    (h : (mailbox H).ReachableBy ok s) : ∀ c ∈ s.op.clients, P c := by
  refine h.invariant (P := fun s => ∀ c ∈ s.op.clients, P c) ?_ ?_
  · rintro s ⟨hop, _⟩ c hc
    rw [hop.clients] at hc
    rw [List.eq_of_mem_replicate hc]
    exact hinit
  · intro s a t _ hs hok hstep c' hc'
    cases a with
    | thread w =>
        obtain ⟨th, hth, rfl⟩ := Option.map_eq_some_iff.mp hstep
        obtain ⟨i, rest, op', new, hcode, hexec, rfl⟩ := Thread.step_eq_some.mp hth
        obtain ⟨j, hj⟩ := List.getElem?_of_mem hc'
        obtain ⟨c, hc, hslot⟩ := exec_slots hexec hj
        exact hchange hok hslot (hs c (List.mem_of_getElem? hc))
    | _ =>
        -- the other threads leave the slots alone
        have hsame : t.op.clients = s.op.clients := by cases mailbox_step hstep; rfl
        exact hs c' (hsame ▸ hc')

/-! ## Descriptors -/

/-- The descriptor an instruction has in its hands. -/
def carried : Instr → Option Int
  | .dequeued fd | .gate fd | .addClient fd => some fd
  | _ => none

/-- No descriptor is negative, wherever it is. -/
structure Opened (op : Operator H) (code : List Instr) : Prop where
  ring : ∀ fd ∈ op.ring, 0 ≤ fd
  code : ∀ i ∈ code, ∀ fd, carried i = some fd → 0 ≤ fd
  interest : ∀ r ∈ op.interest, 0 ≤ r.fd

theorem Opened.executes {rest : List Instr} (h : Opened op (i :: rest))
    (hexec : Executes op w i op' new) : Opened op' (new ++ rest) := by
  have hrest : ∀ i ∈ rest, ∀ fd, carried i = some fd → 0 ≤ fd :=
    fun i hi => h.code i (.tail _ hi)
  have hcode : (∀ i ∈ new, ∀ fd, carried i = some fd → 0 ≤ fd) →
      ∀ i ∈ new ++ rest, ∀ fd, carried i = some fd → 0 ≤ fd := by
    intro hnew i hi
    exact (List.mem_append.mp hi).elim (hnew i) (hrest i)
  have hhere : ∀ fd, carried i = some fd → 0 ≤ fd := h.code i (.head _)
  -- a descriptor comes from the ring, and moves from there to the code and to `epoll`
  cases hexec with
  | @popped first fd ring hring =>
      have hall : ∀ x ∈ fd :: ring, 0 ≤ x := hring ▸ h.ring
      refine ⟨fun x hx => hall x (.tail _ hx), hcode ?_, h.interest⟩
      intro i hi x hx
      obtain rfl := List.mem_singleton.mp hi
      obtain rfl := Option.some.inj hx
      exact hall fd (.head _)
  | @dequeued fd =>
      refine ⟨h.ring, hcode ?_, h.interest⟩
      intro i hi x hx
      obtain rfl := List.mem_singleton.mp hi
      exact hhere x hx
  | @gateOpen fd hgate =>
      refine ⟨h.ring, hcode ?_, h.interest⟩
      intro i hi x hx
      obtain rfl := List.mem_singleton.mp hi
      exact hhere x hx
  | @added fd idx p hfree hinit hadd hfds =>
      refine ⟨h.ring, hcode (by simp [carried]), ?_⟩
      intro r hr
      rcases List.mem_append.mp hr with hr | hr
      · exact h.interest r hr
      · obtain rfl := List.mem_singleton.mp hr
        exact hhere fd rfl
  | removed hfound =>
      exact ⟨h.ring, hcode (by simp [carried]), fun r hr => h.interest r (List.mem_filter.mp hr).1⟩
  | evicted hget hexp =>
      exact ⟨h.ring, hcode (by simp [carried]), fun r hr => h.interest r (List.mem_filter.mp hr).1⟩
  | _ => exact ⟨h.ring, hcode (by simp [carried]), h.interest⟩

theorem opened_reachable {ok : Mailbox H → MailboxAct H → Prop}
    (h : (mailbox H).ReachableBy ok s) : Opened s.op s.code := by
  refine h.invariant (P := fun s => Opened s.op s.code) ?_ ?_
  · rintro s ⟨hop, hcode, _⟩
    refine ⟨by simp [hop.ring], by simp [hcode, carried], ?_⟩
    simp [hop.interest, hop.fds.1, hop.fds.2.1]
  · intro s a t _ hs _ hstep
    cases mailbox_step hstep with
    | executed hcode hexec =>
        rw [hcode] at hs
        exact hs.executes hexec
    | @pushed fd hidle hfd =>
        refine ⟨?_, hs.code, hs.interest⟩
        intro x hx
        rcases List.mem_append.mp hx with hx | hx
        · exact hs.ring x hx
        · obtain rfl := List.mem_singleton.mp hx
          exact hfd
    | _ => exact ⟨hs.ring, hs.code, hs.interest⟩

/-! ## The housekeeping timer -/

/-- While there are clients the timer is short. -/
def Scans (op : Operator H) : Prop :=
  0 < op.activeClients → op.timerPeriod = operatorTimerPeriodShort

theorem scans_timerUpdate (hfd : 0 ≤ op.timerCtx.fd) : Scans op.timerUpdate := by
  intro hactive
  have hpos : 0 < op.activeClients := by
    obtain ⟨p, hp⟩ := timerUpdate_eq op
    rwa [hp] at hactive
  unfold timerUpdate setTimer
  by_cases hshort : op.timerPeriod = operatorTimerPeriodShort
  · rw [if_neg (by simp [hshort]), if_neg (by omega)]
    exact hshort
  · rw [if_pos ⟨hpos, hshort⟩, if_neg (by omega)]

theorem Scans.congr (h : Scans op) (hactive : op'.activeClients = op.activeClients)
    (hperiod : op'.timerPeriod = op.timerPeriod) : Scans op' := by
  intro hpos
  rw [hperiod]
  exact h (hactive ▸ hpos)

theorem handleEvent_scans {e : Event} {es : List Event}
    (h : op.handleEvent e es w = some (op', new)) (hfd : 0 ≤ op.timerCtx.fd) (hscan : Scans op) :
    Scans op' := by
  unfold Operator.handleEvent at h
  split at h
  · obtain ⟨rfl, rfl⟩ := Prod.mk.inj (Option.some.inj h)
    exact hscan
  · obtain ⟨rfl, rfl⟩ := Prod.mk.inj (Option.some.inj h)
    exact hscan
  · obtain ⟨rfl, rfl⟩ := Prod.mk.inj (Option.some.inj h)
    exact hscan
  · split at h
    · obtain ⟨rfl, rfl⟩ := Prod.mk.inj (Option.some.inj h)
      exact scans_timerUpdate hfd
    · obtain ⟨rfl, rfl⟩ := Prod.mk.inj (Option.some.inj h)
      exact hscan
  · split at h
    · obtain ⟨⟨op₁, new₁⟩, hcli, hout⟩ := Option.map_eq_some_iff.mp h
      obtain ⟨rfl, rfl⟩ := Prod.mk.inj hout
      rcases handleClientEvent_cases hcli with ⟨rfl, _⟩ | ⟨c, c', _, _, _, rfl, _⟩
      · exact hscan
      · exact hscan.congr rfl rfl
    · exact absurd h (by simp)
  · exact absurd h (by simp)

theorem exec_scans (h : exec op i w = some (op', new)) (hs : Sound op)
    (hfd : 0 ≤ op.timerCtx.fd) (hscan : Scans op) : Scans op' := by
  cases i with
  | events es =>
      cases es with
      | nil =>
          obtain ⟨rfl, rfl⟩ := Prod.mk.inj (Option.some.inj h)
          exact hscan
      | cons e es => exact handleEvent_scans h hfd hscan
  | addClient fd =>
      have hout : op.addClient fd w = (op', new) := Option.some.inj h
      unfold Operator.addClient at hout
      split at hout
      · obtain ⟨rfl, rfl⟩ := Prod.mk.inj hout
        exact hscan
      · split at hout
        · obtain ⟨rfl, rfl⟩ := Prod.mk.inj hout
          exact hscan
        · dsimp only at hout
          split at hout
          · obtain ⟨rfl, rfl⟩ := Prod.mk.inj hout
            exact scans_timerUpdate hfd
          · obtain ⟨rfl, rfl⟩ := Prod.mk.inj hout
            exact hscan.congr rfl rfl
  | removeByFd fd =>
      have hout : op.removeClientByFd fd = (op', new) := Option.some.inj h
      unfold removeClientByFd at hout
      split at hout
      · obtain ⟨rfl, rfl⟩ := Prod.mk.inj hout
        exact hscan
      · obtain ⟨rfl, rfl⟩ := Prod.mk.inj hout
        exact scans_timerUpdate hfd
  | cleanClients k now =>
      cases exec_executes h with
      | cleaned => exact hscan
      | spared => exact hscan
      | evicted hget hexp =>
          -- one client less, and the timer as it was
          have hone := activeClients_dropSlot hs hget (expired_busy hexp)
          intro hpos
          exact hscan (by omega)
  | crash => exact absurd h (by simp [exec])
  | _ =>
      have hsame : op'.activeClients = op.activeClients ∧ op'.timerPeriod = op.timerPeriod := by
        cases exec_executes h <;> exact ⟨rfl, rfl⟩
      exact hscan.congr hsame.1 hsame.2

theorem scans_reachable {ok : Mailbox H → MailboxAct H → Prop}
    (h : (mailbox H).ReachableBy ok s) : 0 ≤ s.op.timerCtx.fd ∧ Scans s.op := by
  refine h.invariant (P := fun s => 0 ≤ s.op.timerCtx.fd ∧ Scans s.op) ?_ ?_
  · rintro s ⟨hop, _⟩
    refine ⟨hop.fds.1, fun hpos => ?_⟩
    rw [hop.activeClients] at hpos
    exact absurd hpos (Nat.lt_irrefl 0)
  · rintro s a t hr ⟨hfd, hscan⟩ _ hstep
    cases a with
    | thread w =>
        obtain ⟨th, hth, rfl⟩ := Option.map_eq_some_iff.mp hstep
        obtain ⟨i, rest, op', new, hcode, hexec, rfl⟩ := Thread.step_eq_some.mp hth
        have hctx : op'.timerCtx = s.op.timerCtx := (exec_executes hexec).fixed.timerCtx
        refine ⟨?_, exec_scans hexec (sound_reachable hr) hfd hscan⟩
        show 0 ≤ op'.timerCtx.fd
        rw [hctx]
        exact hfd
    | _ => cases mailbox_step hstep; exact ⟨hfd, hscan⟩

/-! ## All of it -/

/-- The slots that have a client. -/
def clientsOf (op : Operator H) : List (Conn H) := op.clients.filter fun c => c.cli.isBusy

/-- The slot table of an operator in order. -/
structure SlotsAgree (op : Operator H) : Prop where
  count : op.activeClients = (clientsOf op).length
  limit : op.activeClients ≤ op.maxClients
  distinct : ((clientsOf op).map fun c => c.cli.ctx.fd).Nodup
  nonneg : ∀ c ∈ clientsOf op, 0 ≤ c.cli.ctx.fd
  registered : ∀ fd, fd ∈ (clientsOf op).map (fun c => c.cli.ctx.fd) ↔
    ∃ r ∈ op.interest, r.fd = fd ∧ ∃ idx, r.key = .client idx
  context : ∀ c ∈ clientsOf op,
    c.cli.ctx.owner = some op.id ∧ c.cli.ctx.handler = some .operatorClient
  quiet : ∀ c ∈ op.clients, c.cli.isBusy = false → c.cli.draining = false
  scanned : 0 < op.activeClients → op.timerPeriod = operatorTimerPeriodShort

/-- A busy slot has its registration, and the registration says what the context is. -/
theorem Sound.client (hs : Sound op) {idx : Nat} (hget : op.clients[idx]? = some c)
    (hbusy : c.cli.isBusy = true) :
    (∃ stamp, ⟨c.cli.ctx.fd, .client idx, stamp⟩ ∈ op.interest) ∧
      c.cli.ctx = aimedAt op.id c.cli.ctx.fd := by
  obtain ⟨stamp, hreg⟩ := hs.table.registered idx (slot c) (table_slots_getElem? hget) hbusy
  have hslot := hs.table.slot _ hreg idx rfl
  rw [table_slots_getElem? hget, Option.some.injEq] at hslot
  exact ⟨⟨stamp, hreg⟩, congrArg Slot.ctx hslot⟩

theorem Sound.distinct (hs : Sound op) {j k : Nat} {d : Conn H} (hj : op.clients[j]? = some c)
    (hk : op.clients[k]? = some d) (hbusy : c.cli.isBusy = true) (hbusy' : d.cli.isBusy = true)
    (hfd : c.cli.ctx.fd = d.cli.ctx.fd) : j = k := by
  obtain ⟨stamp, hreg⟩ := (hs.client hj hbusy).1
  obtain ⟨stamp', hreg'⟩ := (hs.client hk hbusy').1
  have hsame := hs.table.eq_of_fd hreg hreg' hfd
  exact CtxKey.client.inj (congrArg Registration.key hsame)

/-- **The slot table of an operator is in order after every instruction of its thread.** -/
theorem slot_table_agrees (h : (mailbox H).Reachable s) : SlotsAgree s.op := by
  have hs := sound_reachable h
  have hmem : ∀ c, c ∈ clientsOf s.op ↔ ∃ idx : Nat, s.op.clients[idx]? = some c ∧
      c.cli.isBusy = true := by
    intro c
    rw [clientsOf, List.mem_filter, List.mem_iff_getElem?, exists_and_right]
  refine ⟨?_, activeClients_le hs, ?_, ?_, ?_, ?_, ?_, (scans_reachable h).2⟩
  · have hcount : s.op.activeClients = (s.op.clients.map slot).countP Slot.busy := hs.table.active
    rw [hcount, List.countP_map, clientsOf, ← List.countP_eq_length_filter]
    rfl
  · rw [clientsOf, List.Nodup, List.pairwise_map, List.pairwise_filter, List.pairwise_iff_getElem]
    intro j k hj hk hlt hbusy hbusy' hfd
    have hsame := hs.distinct (List.getElem?_eq_getElem hj) (List.getElem?_eq_getElem hk) hbusy
      hbusy' hfd
    omega
  · intro c hc
    obtain ⟨idx, hget, hbusy⟩ := (hmem c).mp hc
    obtain ⟨stamp, hreg⟩ := (hs.client hget hbusy).1
    exact (opened_reachable h).interest _ hreg
  · -- a registration of a client is the one of its slot, and the other way around
    intro fd
    constructor
    · intro hfd
      obtain ⟨c, hc, rfl⟩ := List.mem_map.mp hfd
      obtain ⟨idx, hget, hbusy⟩ := (hmem c).mp hc
      obtain ⟨stamp, hreg⟩ := (hs.client hget hbusy).1
      exact ⟨_, hreg, rfl, idx, rfl⟩
    · rintro ⟨r, hr, rfl, idx, hkey⟩
      have hslot := hs.table.slot r hr idx hkey
      simp only [table, List.getElem?_map, Option.map_eq_some_iff] at hslot
      obtain ⟨c, hget, hc⟩ := hslot
      refine List.mem_map.mpr ⟨c, (hmem c).mpr ⟨idx, hget, congrArg Slot.busy hc⟩, ?_⟩
      exact congrArg (fun x => x.ctx.fd) hc
  · intro c hc
    obtain ⟨idx, hget, hbusy⟩ := (hmem c).mp hc
    rw [(hs.client hget hbusy).2]
    exact ⟨rfl, rfl⟩
  · exact slots_reachable (P := Quiet) (fun _ => rfl) (fun _ hchange => hchange.quiet) h

/-- Three clients are taken and the second hangs up: its slot is free between the others'. -/
theorem slot_table_agrees_freed : ∃ s : Mailbox DbHttp.small,
    (s.op.clients.map fun c => (c.cli.isBusy, c.cli.ctx.fd)) =
      [(true, 7), (false, -1), (true, 9), (false, 0)] ∧
    s.op.activeClients = 2 ∧ s.op.timerPeriod = operatorTimerPeriodShort ∧ SlotsAgree s.op := by
  let hangsUp : Event := ⟨⟨8, .client 1, 3⟩, epollHup⟩
  obtain ⟨t, ht, hout⟩ := (small_reachable (n := 4) (by decide)).exists_of_run
    (threadSteps 3 0 ++ adoptNext 7 0 ++ adoptNext 8 0 ++ adoptNext 9 0 ++
      [.thread (Answers.smooth [hangsUp] 0)] ++ threadSteps 2 0)
    (fun s => (s.op.clients.map fun c => (c.cli.isBusy, c.cli.ctx.fd)) ==
        [(true, 7), (false, -1), (true, 9), (false, 0)] && s.op.activeClients == 2)
    (by decide +kernel)
  simp only [Bool.and_eq_true, beq_iff_eq] at hout
  obtain ⟨hclients, hactive⟩ := hout
  have hagree := slot_table_agrees ht
  exact ⟨t, hclients, hactive, hagree.scanned (by omega), hagree⟩

end DBServer.Proof
