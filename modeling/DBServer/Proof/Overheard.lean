import DBServer.Proof.Lockstep
import DBServer.Proof.Reuse

/-!
# In step in every run

Beside an operator runs a record of what each of its clients was heard to say since the
last message boundary. In every run the record, the client's buffer and what its parser
was given are the same. A client of the upload pool, which is never parked, has its record
along the rounds of its worker's loop.
-/

namespace DBServer.Proof

open DBServer Lib Operator

variable {H : DbHttp} {p₀ : H.Parser} {op op' : Operator H} {i : Instr} {w : Answers H}
  {new : List Instr} {c c' d : Conn H} {s t : Mailbox H} {idx : Nat} {bs : Bytes} {E : Env}
  {fuel threadId : Nat}

/-! ## An operator's clients -/

/-- What is on record of a slot behind a step of the thread. -/
def hearSlot (E : Env) (c d : Option (Conn H)) (bs : Bytes) : Bytes :=
  match c, d with
  | some c, some d =>
      if c.cli.isBusy = true ∧ d.cli.isBusy = true then heardAfter E bs c d else []
  | _, _ => []

/-- The record of all slots behind a step. -/
def hear (s : Mailbox H) (a : MailboxAct H) (t : Mailbox H) (g : Nat → Bytes) : Nat → Bytes :=
  match a with
  | .thread w => fun idx => hearSlot w.env s.op.clients[idx]? t.op.clients[idx]? (g idx)
  | _ => g

/-- An operator, with what it has heard of its clients' messages under way. -/
abbrev overheard (H : DbHttp) : Machine (Mailbox H × (Nat → Bytes)) (MailboxAct H) :=
  (mailbox H).ghosted (fun _ => []) hear

/-- A slot between two steps. -/
structure SlotInStep (p₀ : H.Parser) (code : List Instr) (c : Conn H) (bs : Bytes) : Prop where
  busy : c.cli.isBusy = true → InStep p₀ c bs ∨ code.head? = some (.removeByFd c.cli.ctx.fd)
  idle : c.cli.isBusy = false → ∀ p, c.cli.httpParser = some p → New p₀ p

/-- A client that has only just been adopted. -/
theorem inStep_adopted {peer : Nat × Nat} {now : Nat} {fd : Int}
    (hquiet : c.cli.draining = false) (hparses : Parses c)
    (hnew : ∀ p, c.cli.httpParser = some p → New p₀ p) :
    InStep p₀ (adopt peer now (op.aim fd c)) [] := by
  obtain ⟨p, hp⟩ := Option.isSome_iff_exists.mp hparses
  have hlock : Lockstep p (adopt peer now (op.aim fd c)) [] := lockstep_nil rfl hp
  refine ⟨fun _ => ⟨p, hnew p hp, hlock⟩, fun hparked => ?_⟩
  have hfree : (adopt peer now (op.aim fd c)).cli.draining = false := hquiet
  exact absurd (hfree.symm.trans hparked) (by simp)

theorem clientCall_inStep (h : InStep p₀ c bs) (hcall : clientCall op w c = (some .success, d)) :
    InStep p₀ d (heardAfter w.env bs c d) := by
  unfold clientCall at hcall
  split at hcall
  · rename_i hparked
    exact responseWriterResume_inStep hparked h hcall
  · rename_i hopen
    exact clientHandle_inStep (Bool.eq_false_of_not_eq_true hopen) h hcall

/-- **What a step does to a slot, it does to the record.** -/
theorem SlotChange.inStep {code : List Instr} (hchange : SlotChange op i w new c c')
    (hinit : Initial p₀ (.thread w)) (hquiet : Quiet c)
    (hset : i = .initParsers → c.cli.isBusy = false) (hparses : c'.cli.isBusy = true → Parses c')
    (h : c.cli.isBusy = true → InStep p₀ c bs)
    (hidle : c.cli.isBusy = false → ∀ p, c.cli.httpParser = some p → New p₀ p) :
    SlotInStep p₀ (new ++ code) c' (hearSlot w.env (some c) (some c') bs) := by
  have hstill : ∀ {rc : Option Status}, c.cli.isBusy = true → clientCall op w c = (rc, c') →
      c'.cli.isBusy = true ∧ c'.cli.ctx = c.cli.ctx := by
    intro rc hbusy hcall
    have hkept := clientCall_identity op w c
    rw [hcall] at hkept
    exact ⟨(congrArg Prod.fst hkept).trans hbusy, ctx_of_identity hkept⟩
  -- a slot that is served is not idle
  have hnever : ∀ {c d : Conn H}, c.cli.isBusy = true → c.cli.isBusy = false →
      ∀ p, d.cli.httpParser = some p → New p₀ p := fun hbusy hfree =>
    absurd (hbusy.symm.trans hfree) (by simp)
  cases hchange with
  | same =>
      refine ⟨fun hbusy => .inl ?_, hidle⟩
      rw [hearSlot, if_pos ⟨hbusy, hbusy⟩, heardAfter_same rfl rfl]
      exact h hbusy
  | @parser k p hi hp =>
      have hfree := hset hi
      refine ⟨fun hbusy => absurd (hbusy.symm.trans hfree) (by simp), fun _ q hq => .inl ?_⟩
      obtain rfl := Option.some.inj hq
      exact hinit k p hp
  | aimed hfree =>
      exact ⟨fun hbusy => absurd (hbusy.symm.trans hfree) (by simp), fun _ => hidle hfree⟩
  | adopted hfree =>
      refine ⟨fun _ => .inl ?_, fun hfree' => absurd hfree' (by simp [adopt, Conn.fresh])⟩
      rw [hearSlot, if_neg (by rw [hfree]; simp)]
      exact inStep_adopted (hquiet hfree) (hparses rfl) (hidle hfree)
  | handled hbusy hcall =>
      obtain ⟨hbusy', _⟩ := hstill hbusy hcall
      refine ⟨fun _ => .inl ?_, hnever hbusy'⟩
      rw [hearSlot, if_pos ⟨hbusy, hbusy'⟩]
      exact clientCall_inStep (h hbusy) hcall
  | failed hbusy hcall hhead =>
      obtain ⟨hbusy', hctx⟩ := hstill hbusy hcall
      refine ⟨fun _ => .inr ?_, hnever hbusy'⟩
      rw [List.head?_append, hhead, hctx]
      rfl
  | shut hbusy =>
      refine ⟨fun hbusy' => absurd hbusy' (by simp [shutSlot]), fun _ p hp => .inr ?_⟩
      simp only [shutSlot, clientShutdown, if_pos hbusy] at hp
      obtain ⟨q, _, rfl⟩ := Option.map_eq_some_iff.mp hp
      exact ⟨q, rfl⟩

/-- **In every run, slot by slot.** -/
theorem overheard_inStep {r : Mailbox H × (Nat → Bytes)}
    (h : (overheard H).ReachableBy (fun _ => Initial p₀) r) :
    ∀ (idx : Nat) (c : Conn H), r.1.op.clients[idx]? = some c →
      SlotInStep p₀ r.1.code c (r.2 idx) := by
  refine h.invariant (P := fun r => ∀ (idx : Nat) (c : Conn H),
    r.1.op.clients[idx]? = some c → SlotInStep p₀ r.1.code c (r.2 idx)) ?_ ?_
  · rintro r ⟨⟨hop, _⟩, _⟩ idx c hget
    have hc := List.mem_of_getElem? hget
    rw [hop.clients] at hc
    obtain rfl := List.eq_of_mem_replicate hc
    refine ⟨fun hbusy => absurd hbusy (by simp [Conn.fresh, Client.zeroed]), fun _ p hp => ?_⟩
    exact absurd hp (by simp [Conn.fresh, Client.zeroed])
  · rintro ⟨s, g⟩ a r hr hslots hok hstep idx c' hget'
    obtain ⟨t, hst, rfl⟩ := Option.map_eq_some_iff.mp hstep
    have hreach : (mailbox H).ReachableBy (fun _ => Initial p₀) s :=
      Machine.ReachableBy.unghosted (r := (s, g)) hr
    have hequipped' := equipped_reachable (hreach.tail hok hst)
    cases a with
    | thread w =>
        obtain ⟨th, hth, rfl⟩ := Option.map_eq_some_iff.mp hst
        obtain ⟨i, rest, op', new, hcode, hexec, rfl⟩ := Thread.step_eq_some.mp hth
        have hcode' : s.code = i :: rest := hcode
        obtain ⟨c, hget, hchange⟩ := exec_slots hexec hget'
        have hslot : SlotInStep p₀ s.code c (g idx) := hslots idx c hget
        have hmem := List.mem_of_getElem? hget
        have hmem' := List.mem_of_getElem? hget'
        -- clients are adopted only once the parsers are set up
        have hset : i = .initParsers → c.cli.isBusy = false := by
          rintro rfl
          rcases equipped_reachable hreach with ⟨hnot, _⟩ | ⟨_, hfree⟩
          · exact absurd (hcode' ▸ List.mem_cons_self) hnot
          · exact hfree c hmem
        have hparses : c'.cli.isBusy = true → Parses c' := by
          intro hbusy
          rcases hequipped' with ⟨_, hall⟩ | ⟨_, hfree⟩
          · exact hall c' hmem'
          · exact absurd (hbusy.symm.trans (hfree c' hmem')) (by simp)
        have hquiet : Quiet c := slots_reachable (P := Quiet) (fun _ => rfl)
          (fun _ hchange => hchange.quiet) hreach.reachable c hmem
        have hrec : hear s (.thread w) { s with thread := ⟨op', new ++ rest⟩ } g idx =
            hearSlot w.env (some c) (some c') (g idx) := by
          show hearSlot w.env s.op.clients[idx]? op'.clients[idx]? (g idx) = _
          rw [show s.op.clients[idx]? = some c from hget,
            show op'.clients[idx]? = some c' from hget']
        show SlotInStep p₀ (new ++ rest) c' (hear s (.thread w) _ g idx)
        rw [hrec]
        by_cases hin : c.cli.isBusy = true → InStep p₀ c (g idx)
        · exact hchange.inStep hok hquiet hset hparses hin hslot.idle
        · -- the client's removal is what this step does
          obtain ⟨hbusy, hnot⟩ := Classical.not_imp.mp hin
          have hhead := (hslot.busy hbusy).resolve_left hnot
          rw [hcode'] at hhead
          obtain rfl := Option.some.inj hhead
          obtain rfl := removeByFd_shuts (sound_reachable hreach.reachable) hget hbusy hexec hget'
          refine ⟨fun hbusy' => absurd hbusy' (by simp [shutSlot]), fun _ p hp => .inr ?_⟩
          simp only [shutSlot, clientShutdown, if_pos hbusy] at hp
          obtain ⟨q, _, rfl⟩ := Option.map_eq_some_iff.mp hp
          exact ⟨q, rfl⟩
    | _ =>
        cases mailbox_step hst
        exact hslots idx c' hget'

/-! ## An upload worker's client -/

/-- A client without a reactor, which is never parked. -/
def Unmanaged (c : Conn H) : Prop := c.cli.ctx.owner = none ∧ c.cli.draining = false

theorem trySend_unmanaged (E : Env) (total : Nat) : ∀ (fuel : Nat) {c : Conn H}, Unmanaged c →
    Unmanaged (trySend E total fuel c).2
  | 0, _, hc => hc
  | fuel + 1, c, hc => by
      have hopen : ∀ k, Unmanaged (wrote E k total c) := fun _ => hc
      rw [trySend]
      split
      · split
        · exact trySend_unmanaged E total fuel (hopen _)
        · exact trySend_unmanaged E total fuel (c := c.next) hc
        · rw [if_neg (by rw [hc.1]; simp)]
          split
          · exact trySend_unmanaged E total fuel (c := c.next) hc
          · exact hc
        · exact ⟨hc.1, rfl⟩
      · exact ⟨hc.1, rfl⟩

theorem lasting_unmanaged (E : Env) : Lasting E fun c : Conn H => Unmanaged c where
  next _ h := h
  call _ _ _ _ h := h
  receive _ _ _ h := h
  parser _ _ h := h
  touched _ _ h := h
  client _ _ _ _ h := h
  policy _ _ h := h
  answer start fuel c hc := by
    refine Start.call_lasting E (fun hl => ?_) (fun _ _ hd => hd)
      fun n d hd => trySend_unmanaged E n fuel hd
    obtain ⟨_, _, hcli⟩ := hl.cli
    rw [Unmanaged, hcli]
    exact hc
  stream := ⟨fun _ h => h, fun _ _ h => h, fun _ _ h => h, fun _ _ _ h => h⟩
  beyond hb hc := by
    obtain ⟨_, hcli⟩ := hb.cli
    rw [Unmanaged, hcli]
    exact hc
  cleared _ h := h
  reset _ h := ⟨h.1, rfl⟩

/-- The rounds of a worker's loop that go on, and what has been heard of the message under way. -/
inductive Driven (E : Env) (threadId : Nat) (c₀ : Conn H) : Bytes → Conn H → Prop where
  | start : Driven E threadId c₀ [] c₀
  | waited {bs : Bytes} {c : Conn H} : Driven E threadId c₀ bs c → Driven E threadId c₀ bs c.next
  | handled {bs : Bytes} {c d : Conn H} {fuel : Nat} : Driven E threadId c₀ bs c →
      clientHandle E fuel threadId c = (some .success, d) →
      Driven E threadId c₀ (heardAfter E bs c d) d

/-- The loop ends in such a round, or in a call of `client_handle` behind one. -/
theorem Driven.driveLoop {c₀ : Conn H} {deadline : Nat} {verdicts : List Status}
    (h : Driven E threadId c₀ bs c) : ∃ bs' d, Driven E threadId c₀ bs' d ∧
      ((driveLoop E threadId deadline fuel verdicts c).2 = d ∨
        ∃ fuel', (driveLoop E threadId deadline fuel verdicts c).2 =
          (clientHandle E fuel' threadId d).2) := by
  -- by the rounds: each ends the loop, waits, or handles the client once more
  induction fuel generalizing bs c verdicts with
  | zero => exact ⟨bs, c, h, .inl rfl⟩
  | succ fuel ih =>
      rw [DBServer.driveLoop]
      split
      · exact ⟨bs, c.next, h.waited, .inl rfl⟩
      · cases E.pollIn c.tick with
        | timeout => exact ⟨bs, c.next, h.waited, .inl rfl⟩
        | error => exact ⟨bs, c.next, h.waited, .inl rfl⟩
        | eintr => exact ih h.waited
        | ready =>
            dsimp only
            rcases hcall : clientHandle E fuel threadId c.next with ⟨_ | _ | _, d⟩
            · exact ⟨bs, c.next, h.waited, .inr ⟨fuel, by rw [hcall]; rfl⟩⟩
            · exact ih (h.waited.handled hcall)
            · exact ⟨bs, c.next, h.waited, .inr ⟨fuel, by rw [hcall]; rfl⟩⟩

/-- **A worker's client in every round.** -/
theorem Driven.inStep {fd : Int} {peer : Nat × Nat} {cli : Client H}
    (hparses : cli.httpParser.isSome) (h : Driven E threadId (adoptedFd E fd peer cli) bs c) :
    c.cli.draining = false ∧ ∃ p, New p₀ p ∧ Lockstep p c bs := by
  obtain ⟨q, hq⟩ := Option.isSome_iff_exists.mp hparses
  have hadopted : (adoptedFd E fd peer cli).cli.httpParser = some (H.clear (H.clear q)) := by
    show (cli.httpParser.map H.clear).map H.clear = _
    rw [hq]
    rfl
  have hall : Unmanaged c ∧ InStep p₀ c bs := by
    induction h with
    | start =>
        have hopen : (adoptedFd E fd peer cli).cli.draining = false := rfl
        refine ⟨⟨rfl, hopen⟩, ⟨fun _ => ⟨_, .inr ⟨_, rfl⟩, lockstep_nil rfl hadopted⟩, ?_⟩⟩
        intro hparked
        exact absurd (hopen.symm.trans hparked) (by simp)
    | waited _ ih =>
        obtain ⟨hun, hin⟩ := ih
        refine ⟨hun, ⟨fun hopen => ?_, fun hparked => ?_⟩⟩
        · obtain ⟨p, hnew, hp⟩ := hin.reading hopen
          exact ⟨p, hnew, hp.congr rfl rfl rfl⟩
        · exact absurd (hun.2.symm.trans hparked) (by simp)
    | handled _ hcall ih =>
        exact ⟨(lasting_unmanaged E).clientHandle ih.1 hcall,
          clientHandle_inStep ih.1.2 ih.2 hcall⟩
  exact ⟨hall.1.2, hall.2.reading hall.1.2⟩

end DBServer.Proof
