import DBServer.Proof.Housekeeping
import DBServer.Proof.Interest

/-!
# Evictions and the wall clock

`_clean_clients` takes the age of a client as the difference of two `uint64_t` readings of
the wall clock. Nothing makes the readings of a run increase. A client that was last active
after the tick's reading has an age of almost `2 ^ 64` seconds, and is evicted. The evictions
of a run are kept in a record beside it; the ones that are due are told apart from the
others by where the two readings stand at the step.
-/

namespace DBServer.Proof

open DBServer Lib Operator

variable {H : DbHttp} {op op' : Operator H} {i : Instr} {w : Answers H} {new : List Instr}
  {s t : Mailbox H} {a : MailboxAct H} {c c' : Conn H} {E : Env} {now : Nat}

/-! ## What is recorded -/

/-- How long a client may be idle. -/
def clientTimeout (c : Conn H) : Nat :=
  if c.cli.requestCount = 0 then workerClientTimeoutShort else workerClientTimeoutLong

/-- A client closed by a tick: the tick's reading of the clock, and the slot up to then. -/
structure Eviction (H : DbHttp) where
  now : Nat
  slot : Conn H

/-- The reading exceeds the client's last recorded activity by more than its timeout. -/
def Eviction.Idle (e : Eviction H) : Prop :=
  clientTimeout e.slot < e.now - e.slot.cli.lastActivity

instance (e : Eviction H) : Decidable e.Idle := inferInstanceAs (Decidable (_ < _))

/-- The clients of `cs` whose slots are no longer busy in `ds`. -/
def closedBetween (now : Nat) (cs ds : List (Conn H)) : List (Eviction H) :=
  ((cs.zip ds).filter fun p => p.1.cli.isBusy && !p.2.cli.isBusy).map fun p => ⟨now, p.1⟩

/-- The clients that a step of a tick closes. -/
def evictions (s : Mailbox H) (_ : MailboxAct H) (t : Mailbox H) : List (Eviction H) :=
  match s.code with
  | .cleanClients _ now :: _ => closedBetween now s.op.clients t.op.clients
  | _ => []

/-- An operator's run, and the evictions of it. -/
abbrev evicting (H : DbHttp) : Machine (Mailbox H × List (Eviction H)) (MailboxAct H) :=
  (mailbox H).recording evictions

/-! ## Readings -/

/-- The last activity of a client is a reading. -/
def Stamped (c : Conn H) : Prop := c.cli.lastActivity < 2 ^ 64

theorem trySend_stamped (total : Nat) :
    ∀ (fuel : Nat) {c : Conn H}, Stamped c → Stamped (trySend E total fuel c).2
  | 0, _, h => h
  | fuel + 1, c, h => by
      rw [trySend]
      split
      · split
        · exact trySend_stamped total fuel (timeHelperGetNow_lt _)
        · exact trySend_stamped total fuel h
        · split
          · unfold park
            split <;> exact h
          · split
            · exact trySend_stamped total fuel h
            · exact h
        · exact h
      · exact h

theorem lasting_stamped (E : Env) : Lasting E fun c : Conn H => Stamped c where
  next _ h := h
  call _ _ _ _ h := h
  receive _ _ _ h := h
  parser _ _ h := h
  touched _ wall _ := timeHelperGetNow_lt wall
  client _ _ _ _ h := h
  policy _ _ h := h
  answer start fuel c hc := by
    refine Start.call_lasting E (fun hl => ?_) (fun _ _ hd => hd)
      fun n d hd => trySend_stamped n fuel hd
    obtain ⟨_, _, hcli⟩ := hl.cli
    rw [Stamped, hcli]
    exact hc
  stream := ⟨fun _ h => h, fun _ _ h => h, fun _ _ h => h, fun _ _ _ h => h⟩
  beyond hb hc := by
    obtain ⟨_, hcli⟩ := hb.cli
    rw [Stamped, hcli]
    exact hc
  cleared _ h := h
  reset _ h := h

theorem clientCall_stamped {rc : Status} (hc : Stamped c)
    (h : clientCall op w c = (some rc, c')) : Stamped c' := by
  unfold clientCall at h
  split at h
  · have hd : Stamped (responseWriterResume w.env w.fuel c).2 := by
      refine responseWriterResume_lasting (fun hcli hc => ?_) hc (trySend_stamped _ _ hc)
      rw [Stamped, hcli]
      exact hc
    rw [h] at hd
    exact hd
  · exact (lasting_stamped w.env).clientHandle hc h

theorem SlotChange.stamped (h : SlotChange op i w new c c') (hc : Stamped c) : Stamped c' := by
  cases h with
  | same => exact hc
  | parser => exact hc
  | aimed => exact hc
  | adopted => exact timeHelperGetNow_lt w.wall
  | handled _ hcall => exact clientCall_stamped hc hcall
  | failed _ hcall => exact clientCall_stamped hc hcall
  | shut hbusy =>
      rw [Stamped, shutSlot, clientShutdown, if_pos hbusy]
      exact Nat.two_pow_pos 64

/-- The walks ahead of a thread go by a reading. -/
def Read (code : List Instr) : Prop :=
  ∀ (idx now : Nat), .cleanClients idx now ∈ code → now < 2 ^ 64

theorem Executes.read (h : Executes op w i op' new) {rest : List Instr}
    (hread : Read (i :: rest)) : Read (new ++ rest) := by
  intro idx now hmem
  rcases List.mem_append.mp hmem with hnew | hrest
  · cases h with
    | timer =>
        simp only [List.mem_cons, Instr.cleanClients.injEq, reduceCtorEq, List.not_mem_nil,
          or_false] at hnew
        rw [hnew.2]
        exact timeHelperGetNow_lt w.wall
    | spared =>
        simp only [List.mem_singleton, Instr.cleanClients.injEq] at hnew
        rw [hnew.2]
        exact hread _ _ List.mem_cons_self
    | evicted =>
        simp only [List.mem_singleton, Instr.cleanClients.injEq] at hnew
        rw [hnew.2]
        exact hread _ _ List.mem_cons_self
    | _ => exact absurd hnew (by simp)
  · exact hread idx now (.tail _ hrest)

theorem read_reachable {ok : Mailbox H → MailboxAct H → Prop}
    (h : (mailbox H).ReachableBy ok s) : Read s.code := by
  refine h.invariant (P := fun s => Read s.code) ?_ ?_
  · rintro s ⟨_, hcode, _⟩ idx now hmem
    rw [hcode] at hmem
    exact absurd hmem (by simp)
  · intro s a t _ hs _ hstep
    cases mailbox_step hstep with
    | executed hcode hexec => exact hexec.read (hcode ▸ hs)
    | _ => exact hs

/-! ## One step -/

/--
The client was last active at the reading or before it, or so long after it that their
difference comes out small again.
-/
def InOrder (now : Nat) (c : Conn H) : Prop :=
  c.cli.lastActivity ≤ now ∨ now + 2 ^ 64 - c.cli.lastActivity ≤ clientTimeout c

instance (now : Nat) (c : Conn H) : Decidable (InOrder now c) :=
  inferInstanceAs (Decidable (_ ∨ _))

theorem expired_eq (now : Nat) (c : Conn H) : expired now c = true ↔
    c.cli.isBusy = true ∧ clientTimeout c < sub64 now c.cli.lastActivity := by
  simp only [expired, clientTimeout, Bool.and_eq_true, decide_eq_true_eq]

/-- Where the test of the walk is the one it should be. -/
theorem inOrder_iff (hnow : now < 2 ^ 64) (hc : Stamped c) (hbusy : c.cli.isBusy = true) :
    InOrder now c ↔
      (expired now c = true → clientTimeout c < now - c.cli.lastActivity) := by
  have hstamped : c.cli.lastActivity < 2 ^ 64 := hc
  rw [expired_eq, InOrder]
  simp only [hbusy, true_and]
  rcases Nat.lt_or_ge now c.cli.lastActivity with hlt | hge
  · -- the difference is taken the long way round
    have hsub : sub64 now c.cli.lastActivity = now + 2 ^ 64 - c.cli.lastActivity := by
      unfold sub64
      omega
    rw [hsub]
    omega
  · have hsub : sub64 now c.cli.lastActivity = now - c.cli.lastActivity := by
      unfold sub64
      omega
    rw [hsub]
    exact ⟨fun _ h => h, fun _ => .inl hge⟩

theorem mem_closedBetween {cs ds : List (Conn H)} {e : Eviction H} :
    e ∈ closedBetween now cs ds ↔ e.now = now ∧ ∃ (j : Nat) (d : Conn H), cs[j]? = some e.slot ∧
      ds[j]? = some d ∧ e.slot.cli.isBusy = true ∧ d.cli.isBusy = false := by
  simp only [closedBetween, List.mem_map, List.mem_filter, Bool.and_eq_true, Bool.not_eq_true']
  constructor
  · rintro ⟨p, ⟨hzip, hbusy, hfree⟩, rfl⟩
    obtain ⟨j, hj⟩ := List.getElem?_of_mem hzip
    obtain ⟨hc, hd⟩ := List.getElem?_zip_eq_some.mp hj
    exact ⟨rfl, j, p.2, hc, hd, hbusy, hfree⟩
  · rintro ⟨rfl, j, d, hc, hd, hbusy, hfree⟩
    have hzip := List.mem_of_getElem? (List.getElem?_zip_eq_some (z := (e.slot, d)).mpr ⟨hc, hd⟩)
    exact ⟨(e.slot, d), ⟨hzip, hbusy, hfree⟩, rfl⟩

/-- Where no slot changes, nobody is closed. -/
theorem closedBetween_self (cs : List (Conn H)) : closedBetween now cs cs = [] := by
  refine List.eq_nil_iff_forall_not_mem.mpr fun e he => ?_
  obtain ⟨-, j, d, hc, hd, hbusy, hfree⟩ := mem_closedBetween.mp he
  obtain rfl := Option.some.inj (hc.symm.trans hd)
  exact absurd (hbusy.symm.trans hfree) (by simp)

/-- Where one busy slot is dropped, its client is. -/
theorem mem_closedBetween_dropSlot {idx : Nat} (hget : op.clients[idx]? = some c)
    (hbusy : c.cli.isBusy = true) {e : Eviction H} :
    e ∈ closedBetween now op.clients (op.dropSlot idx).clients ↔ e = ⟨now, c⟩ := by
  have hdrop : ∀ j : Nat, (op.dropSlot idx).clients[j]? =
      op.clients[j]?.map fun d => if idx = j then shutSlot d else d :=
    fun j => List.getElem?_modify ..
  rw [mem_closedBetween]
  constructor
  · rintro ⟨rfl, j, d, hc, hd, hbusy', hfree⟩
    rw [hdrop, hc, Option.map_some, Option.some.injEq] at hd
    split at hd
    · rename_i heq
      subst heq
      obtain rfl := Option.some.inj (hget.symm.trans hc)
      rfl
    · subst hd
      exact absurd (hbusy'.symm.trans hfree) (by simp)
  · rintro rfl
    exact ⟨rfl, idx, shutSlot c, hget, by rw [hdrop, hget, Option.map_some, if_pos rfl], hbusy,
      clientShutdown_isBusy c.cli⟩

/-- **A tick's step closes the client of the slot it looks at**, if the walk's test says so. -/
theorem mem_evictions (hs : Sound s.op) (hstep : (mailbox H).step s a = some t)
    {e : Eviction H} : e ∈ evictions s a t ↔ ∃ idx w, a = .thread w ∧
      s.code.head? = some (.cleanClients idx e.now) ∧ s.op.clients[idx]? = some e.slot ∧
        expired e.now e.slot = true := by
  -- a step that leaves the slots alone evicts nobody
  have hnone : t.op.clients = s.op.clients → e ∉ evictions s a t := by
    intro hsame
    unfold evictions
    rw [hsame]
    split
    · rw [closedBetween_self]
      exact List.not_mem_nil
    · exact List.not_mem_nil
  cases mailbox_step hstep with
  | @executed i op' w new rest hcode hexec =>
      cases i with
      | cleanClients idx now =>
          have hwalk : ∀ k, (.cleanClients k e.now : Instr) = .cleanClients idx now ↔
              k = idx ∧ e.now = now := fun k => by simp
          have heq : ∀ u : Mailbox H, evictions s (.thread w) u =
              closedBetween now s.op.clients u.op.clients := by
            intro u
            unfold evictions
            rw [hcode]
          rw [hcode]
          cases hexec with
          | evicted hget hexp =>
              rw [heq]
              refine (mem_closedBetween_dropSlot hget (expired_busy hexp)).trans ?_
              constructor
              · rintro rfl
                exact ⟨idx, w, rfl, rfl, hget, hexp⟩
              · rintro ⟨k, w', -, hhead, hslot, -⟩
                obtain ⟨rfl, rfl⟩ := (hwalk k).mp (Option.some.inj hhead).symm
                obtain rfl := Option.some.inj (hget.symm.trans hslot)
                rfl
          | cleaned hover =>
              refine iff_of_false (hnone rfl) ?_
              rintro ⟨k, w', -, hhead, hslot, -⟩
              obtain ⟨rfl, rfl⟩ := (hwalk k).mp (Option.some.inj hhead).symm
              exact absurd (hs.lt_maxClients hslot) (Nat.not_lt.mpr hover)
          | spared hlt hfresh =>
              refine iff_of_false (hnone rfl) ?_
              rintro ⟨k, w', -, hhead, hslot, hexp⟩
              obtain ⟨rfl, rfl⟩ := (hwalk k).mp (Option.some.inj hhead).symm
              rw [hslot, Option.map_some, Option.getD_some] at hfresh
              exact absurd (hexp.symm.trans hfresh) (by simp)
      | _ => simp [evictions, hcode]
  | _ =>
      refine iff_of_false (hnone rfl) ?_
      rintro ⟨k, w', ha, -⟩
      exact absurd ha (by simp)

/-! ## The condition -/

/-- If a walk goes on, it comes to no client that was last active after its reading. -/
def WalkInOrder (op : Operator H) : List Instr → Prop
  | .cleanClients idx now :: _ =>
      ∀ c ∈ op.clients[idx]?, c.cli.isBusy = true → InOrder now c
  | _ => True

instance (op : Operator H) : (code : List Instr) → Decidable (WalkInOrder op code)
  | .cleanClients idx now :: _ => inferInstanceAs
      (Decidable (∀ c ∈ op.clients[idx]?, c.cli.isBusy = true → InOrder now c))
  | [] | .initParsers :: _ | .publish _ :: _ | .loopActive :: _ | .loopFull :: _ | .wait :: _
  | .events _ :: _ | .drainWakeup :: _ | .pop _ :: _ | .dequeued _ :: _ | .gate _ :: _
  | .addClient _ :: _ | .statusUpdate :: _ | .storeStatus _ :: _ | .removeByFd _ :: _
  | .crash :: _ => inferInstanceAs (Decidable True)

/-- The step is not a walk's, or the clock is in order for it. -/
def ClockInOrder (s : Mailbox H) : MailboxAct H → Prop
  | .thread _ => WalkInOrder s.op s.code
  | _ => True

instance (s : Mailbox H) : (a : MailboxAct H) → Decidable (ClockInOrder s a)
  | .thread _ => inferInstanceAs (Decidable (WalkInOrder s.op s.code))
  | .push _ | .count | .write | .requestStore | .requestWrite => inferInstanceAs (Decidable True)

theorem clockInOrder_iff (hread : Read s.code) (hstamped : ∀ c ∈ s.op.clients, Stamped c)
    (hs : Sound s.op) (hstep : (mailbox H).step s a = some t) :
    ClockInOrder s a ↔ ∀ e ∈ evictions s a t, e.Idle := by
  have hmem := fun e => mem_evictions hs hstep (e := e)
  unfold ClockInOrder
  split
  · rename_i w
    unfold WalkInOrder
    split
    · rename_i idx now rest hcode
      have hnow : now < 2 ^ 64 := hread idx now (hcode ▸ List.mem_cons_self)
      constructor
      · intro horder e he
        obtain ⟨k, w', -, hhead, hget, hexp⟩ := (hmem e).mp he
        rw [hcode] at hhead
        simp only [List.head?_cons, Option.some.injEq, Instr.cleanClients.injEq] at hhead
        obtain ⟨rfl, rfl⟩ := hhead
        have hbusy := expired_busy hexp
        exact (inOrder_iff hnow (hstamped _ (List.mem_of_getElem? hget)) hbusy).mp
          (horder _ hget hbusy) hexp
      · intro hidle c hget hbusy
        refine (inOrder_iff hnow (hstamped c (List.mem_of_getElem? hget)) hbusy).mpr fun hexp => ?_
        exact hidle ⟨now, c⟩ ((hmem _).mpr ⟨idx, w, rfl, by rw [hcode]; rfl, hget, hexp⟩)
    · rename_i hcode
      refine iff_of_true trivial fun e he => ?_
      obtain ⟨k, w', -, hhead, -⟩ := (hmem e).mp he
      obtain ⟨rest, hrest⟩ := List.head?_eq_some_iff.mp hhead
      exact absurd hrest (hcode k e.now rest)
  · rename_i hother
    refine iff_of_true trivial fun e he => ?_
    obtain ⟨k, w', ha, -⟩ := (hmem e).mp he
    exact absurd ha (hother w')

/--
**A tick evicts an idle client, as long as the readings are in order.** In every run in which
no walk comes to a client last active after the reading it goes by, every client a tick has
closed was idle for longer than its timeout; and whether the next step keeps it so is whether
it is in order as well.
-/
theorem evicts_only_idle {r : Mailbox H × List (Eviction H)}
    (h : (evicting H).ReachableBy (fun r => ClockInOrder r.1) r) :
    (∀ e ∈ r.2, e.Idle) ∧ ∀ a t, (mailbox H).step r.1 a = some t →
      (ClockInOrder r.1 a ↔ ∀ e ∈ evictions r.1 a t, e.Idle) := by
  have hiff : ∀ s a t, (mailbox H).ReachableBy ClockInOrder s → (mailbox H).step s a = some t →
      (ClockInOrder s a ↔ ∀ e ∈ evictions s a t, e.Idle) := by
    intro s a t hs hstep
    have hstamped : ∀ c ∈ s.op.clients, Stamped c :=
      slots_reachable (Nat.two_pow_pos 64) (fun _ hchange => hchange.stamped) hs
    exact clockInOrder_iff (read_reachable hs) hstamped (sound_reachable hs) hstep
  exact ⟨h.forall_noted fun s a t hs ha hstep => (hiff s a t hs hstep).mp ha,
    fun a t hstep => hiff r.1 a t h.unghosted hstep⟩

/-- The small operator takes a client at one reading of the clock, and ticks at another. -/
def ticksBehind (since now : Int) : List (MailboxAct DbHttp.small) :=
  [.push 7, .count, .write] ++ threadSteps 3 since ++
    [.thread (Answers.smooth [wakeupEvent] since)] ++ threadSteps 12 since ++
    [.thread (Answers.smooth [timerEvent] now)] ++ threadSteps 2 now

/-- A minute later its client is gone, and was idle. -/
theorem evicts_only_idle_one : ∃ r : Mailbox DbHttp.small × List (Eviction DbHttp.small),
    (∃ e ∈ r.2, e.now = 160 ∧ e.slot.cli.lastActivity = 100) ∧ ∀ e ∈ r.2, e.Idle := by
  have hinit : (evicting DbHttp.small).ReachableBy (fun r => ClockInOrder r.1)
      (Mailbox.small 1, []) :=
    .init ⟨⟨operatorInit_small (by decide), rfl, rfl, rfl⟩, rfl⟩
  obtain ⟨r, hr, hgone⟩ := hinit.exists_of_run (ticksBehind 100 160)
    (fun r => r.2.any fun e => e.now == 160 && e.slot.cli.lastActivity == 100) (by decide +kernel)
  obtain ⟨e, he, hthen⟩ := List.any_eq_true.mp hgone
  simp only [Bool.and_eq_true, beq_iff_eq] at hthen
  exact ⟨r, ⟨e, he, hthen⟩, (evicts_only_idle hr).1⟩

/-- The clock is set back by a second between its adoption and the tick: it is evicted. -/
theorem evicts_an_active_client :
    ∃ r : Mailbox DbHttp.small × List (Eviction DbHttp.small),
      (evicting DbHttp.small).Reachable r ∧
        ∃ e ∈ r.2, e.now = 99 ∧ e.slot.cli.lastActivity = 100 ∧ ¬e.Idle := by
  have hinit : (evicting DbHttp.small).Reachable (Mailbox.small 1, []) :=
    .init ⟨⟨operatorInit_small (by decide), rfl, rfl, rfl⟩, rfl⟩
  obtain ⟨r, hr, hgone⟩ := hinit.exists_of_run (ticksBehind 100 99)
    (fun r => r.2.any fun e => e.now == 99 && e.slot.cli.lastActivity == 100 && !decide e.Idle)
    (by decide +kernel)
  obtain ⟨e, he, hwhen⟩ := List.any_eq_true.mp hgone
  simp only [Bool.and_eq_true, beq_iff_eq, Bool.not_eq_true', decide_eq_false_iff_not] at hwhen
  exact ⟨r, hr, e, he, hwhen.1.1, hwhen.1.2, hwhen.2⟩

end DBServer.Proof
