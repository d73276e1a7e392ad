import DBServer.Proof.Alike
import DBServer.Proof.Handling
import DBServer.Proof.SlotTable
import DBServer.Worker.Drive

/-!
# Reused slots carry nothing over

What belongs to a connection is kept in a dozen fields of its slot and in the state of a
parser. Some of it is reset when the connection ends, the rest when the next one begins,
and an operator and an upload worker share the work out differently. `Blank` is what an
operator's slot looks like between two connections, however the last one ended; the
adoption does the rest, so two newcomers are `Alike`, and two clients alike are handled
alike.
-/

namespace DBServer.Proof

open DBServer Lib Operator

variable {H : DbHttp} {p₀ : H.Parser} {op op' : Operator H} {i : Instr} {w : Answers H}
  {new : List Instr} {c c' d d' : Conn H} {s t u v : Mailbox H} {a : MailboxAct H} {idx : Nat}

/-! ## Between two connections -/

/-- `db_http_parser_init` hands out parsers in the state `p₀`. -/
def Initial (p₀ : H.Parser) : MailboxAct H → Prop
  | .thread w => ∀ k p, w.parser k = some p → p = p₀
  | _ => True

/-- Nothing parked, and a parser in its initial state. -/
structure Blank (p₀ : H.Parser) (c : Conn H) : Prop where
  idle : Idle c.cli
  parser : ∀ p, c.cli.httpParser = some p → p = p₀

theorem SlotChange.blank (hclear : ∀ p, H.clear p = p₀) (hinit : Initial p₀ (.thread w))
    (h : SlotChange op i w new c c') (hc : c.cli.isBusy = false → Blank p₀ c) :
    c'.cli.isBusy = false → Blank p₀ c' := by
  intro hidle'
  have hserved : ∀ {rc : Option Status}, c.cli.isBusy = true → clientCall op w c = (rc, c') →
      Blank p₀ c' := by
    intro rc hbusy hcall
    have hkept := congrArg Prod.fst (clientCall_identity op w c)
    rw [hcall] at hkept
    exact absurd (hidle'.symm.trans (hkept.trans hbusy)) (by simp)
  cases h with
  | same => exact hc hidle'
  | @parser k p hi hp =>
      have hrest := (hc hidle').idle
      refine ⟨⟨hrest.draining, hrest.sendOff, hrest.sendLen⟩, fun q hq => ?_⟩
      obtain rfl := Option.some.inj hq
      exact hinit k p hp
  | aimed hidle =>
      have hrest := (hc hidle).idle
      exact ⟨⟨hrest.draining, hrest.sendOff, hrest.sendLen⟩, (hc hidle).parser⟩
  | adopted => exact absurd hidle' (by simp [adopt, Conn.fresh])
  | handled hbusy hcall => exact hserved hbusy hcall
  | failed hbusy hcall => exact hserved hbusy hcall
  | shut hbusy =>
      -- whatever state the connection was in, `_client_reset_message` leaves none of it
      simp only [shutSlot, clientShutdown, if_pos hbusy]
      refine ⟨⟨rfl, rfl, rfl⟩, fun p hp => ?_⟩
      obtain ⟨q, _, rfl⟩ := Option.map_eq_some_iff.mp hp
      exact hclear q

theorem blank_reachable (hclear : ∀ p, H.clear p = p₀)
    (h : (mailbox H).ReachableBy (fun _ => Initial p₀) s) :
    ∀ c ∈ s.op.clients, c.cli.isBusy = false → Blank p₀ c :=
  slots_reachable (P := fun c => c.cli.isBusy = false → Blank p₀ c)
    (fun _ => ⟨⟨rfl, rfl, rfl⟩, nofun⟩) (fun hinit hchange => hchange.blank hclear hinit) h

/-! ## An operator that adopts has its parsers -/

theorem clientCall_parses {rc : Status} (hc : Parses c)
    (h : clientCall op w c = (some rc, d)) : Parses d := by
  unfold clientCall at h
  split at h
  · have hd : Parses (responseWriterResume w.env w.fuel c).2 := responseWriterResume_parses hc
    rw [h] at hd
    exact hd
  · exact clientHandle_parses hc h

theorem SlotChange.parses (h : SlotChange op i w new c c') (hc : Parses c) : Parses c' := by
  cases h with
  | same => exact hc
  | parser => rfl
  | aimed => exact hc
  | adopted => exact hc
  | handled _ hcall => exact clientCall_parses hc hcall
  | failed _ hcall _ => exact clientCall_parses hc hcall
  | shut hbusy =>
      have hcleared := Parses.clear hc
      simp only [shutSlot, clientShutdown, if_pos hbusy]
      exact hcleared

/-- Either every slot has its parser and they are set up no more, or there are no clients yet. -/
def Equipped (op : Operator H) (code : List Instr) : Prop :=
  (.initParsers ∉ code ∧ ∀ c ∈ op.clients, Parses c) ∨
    ((code = [.initParsers] ∨ code = [.publish true] ∨ code = []) ∧
      ∀ c ∈ op.clients, c.cli.isBusy = false)

theorem parserInit_parses (parser : Nat → Option H.Parser) : ∀ (k : Nat) (cs : List (Conn H)),
    (parserInit parser k cs).1 = false → ∀ c ∈ (parserInit parser k cs).2, Parses c
  | _, [], _ => by simp [parserInit]
  | k, c :: cs, h => by
      rw [parserInit] at h ⊢
      cases hp : parser k with
      | none => simp [hp] at h
      | some p =>
          rw [hp] at h
          intro d hd
          rcases List.mem_cons.mp hd with rfl | hd
          · rfl
          · exact parserInit_parses parser (k + 1) cs h d hd

/-- Setting the parsers up makes no client. -/
theorem parserInit_idle (parser : Nat → Option H.Parser) {k : Nat} {cs : List (Conn H)}
    (hcs : ∀ c ∈ cs, c.cli.isBusy = false) :
    ∀ c ∈ (parserInit parser k cs).2, c.cli.isBusy = false := by
  intro c hc
  have hslot : slot c ∈ cs.map slot := by
    rw [← map_slot_parserInit parser k cs]
    exact List.mem_map_of_mem hc
  obtain ⟨b, hb, hsame⟩ := List.mem_map.mp hslot
  exact (congrArg Slot.busy hsame).symm.trans (hcs b hb)

theorem Executes.no_initParsers (h : Executes op w i op' new) : .initParsers ∉ new := by
  cases h <;> simp

theorem Equipped.executes {rest : List Instr} (h : Equipped op (i :: rest))
    (hexec : exec op i w = some (op', new)) : Equipped op' (new ++ rest) := by
  have hout := exec_executes hexec
  rcases h with ⟨hcode, hparses⟩ | ⟨hcode, hidle⟩
  · refine .inl ⟨?_, ?_⟩
    · intro hmem
      rcases List.mem_append.mp hmem with hmem | hmem
      · exact hout.no_initParsers hmem
      · exact hcode (.tail _ hmem)
    · intro c' hc'
      obtain ⟨j, hj⟩ := List.getElem?_of_mem hc'
      obtain ⟨c, hc, hchange⟩ := exec_slots hexec hj
      exact hchange.parses (hparses c (List.mem_of_getElem? hc))
  · rcases hcode with hcode | hcode | hcode
    · obtain ⟨rfl, rfl⟩ := List.cons.inj hcode
      obtain ⟨rfl, rfl⟩ := Prod.mk.inj (Option.some.inj hexec)
      cases hfailed : (parserInit w.parser 0 op.clients).1 with
      | false => exact .inl ⟨by simp, parserInit_parses w.parser 0 op.clients hfailed⟩
      | true => exact .inr ⟨.inr (.inl rfl), parserInit_idle w.parser hidle⟩
    · obtain ⟨rfl, rfl⟩ := List.cons.inj hcode
      cases hout with
      | initFailed => exact .inr ⟨.inr (.inr rfl), hidle⟩
      | overtaken => exact .inr ⟨.inr (.inr rfl), hidle⟩
    · exact absurd hcode (by simp)

theorem equipped_reachable {ok : Mailbox H → MailboxAct H → Prop}
    (h : (mailbox H).ReachableBy ok s) : Equipped s.op s.code := by
  refine h.invariant (P := fun s => Equipped s.op s.code) ?_ ?_
  · rintro s ⟨hop, hcode, _⟩
    refine .inr ⟨.inl hcode, fun c hc => ?_⟩
    rw [hop.clients] at hc
    rw [List.eq_of_mem_replicate hc]
    rfl
  · intro s a t _ hs _ hstep
    cases a with
    | thread w =>
        obtain ⟨th, hth, rfl⟩ := Option.map_eq_some_iff.mp hstep
        obtain ⟨i, rest, op', new, hcode, hexec, rfl⟩ := Thread.step_eq_some.mp hth
        have hcode' : s.code = i :: rest := hcode
        rw [hcode'] at hs
        exact hs.executes hexec
    | _ =>
        cases mailbox_step hstep
        exact hs

/-! ## Newcomers -/

/-- The thread's step puts a new connection into slot `idx`. -/
structure Adopts (s : Mailbox H) (w : Answers H) (t : Mailbox H) (idx : Nat) (c : Conn H) :
    Prop where
  step : (mailbox H).step s (.thread w) = some t
  code : ∃ fd, s.code.head? = some (.addClient fd)
  free : ∃ b, s.op.clients[idx]? = some b ∧ b.cli.isBusy = false
  slot : t.op.clients[idx]? = some c
  busy : c.cli.isBusy = true

/-- A connection just adopted: nothing in it comes from the slot. -/
def newcomer (p₀ : H.Parser) (owner : Nat) (peer : Nat × Nat) (now : Nat) (fd : Int) : Conn H :=
  Conn.fresh { Client.zeroed H with
    isBusy := true
    lastActivity := now
    ctx := ⟨fd, some owner, some .operatorClient⟩
    remoteIpBe := peer.1
    remotePortBe := peer.2
    httpParser := some p₀ }

/-- **An adopted connection is what it is whoever had the slot before.** -/
theorem Adopts.newcomer (hclear : ∀ p, H.clear p = p₀)
    (h : (mailbox H).ReachableBy (fun _ => Initial p₀) s) (hinit : Initial p₀ (.thread w))
    (ha : Adopts s w t idx c) :
    ∃ fd, 0 ≤ fd ∧ c = newcomer p₀ s.op.id w.peer (timeHelperGetNow w.wall) fd := by
  have ht := h.tail hinit ha.step
  obtain ⟨b, hb, hfree⟩ := ha.free
  have hblank := blank_reachable hclear h b (List.mem_of_getElem? hb) hfree
  have hparser : b.cli.httpParser = some p₀ := by
    obtain ⟨fd, hcode⟩ := ha.code
    rcases equipped_reachable h with ⟨_, hparses⟩ | ⟨hearly, _⟩
    · obtain ⟨p, hp⟩ := Option.isSome_iff_exists.mp (hparses b (List.mem_of_getElem? hb))
      rw [hp, hblank.parser p hp]
    · rcases hearly with hearly | hearly | hearly <;> rw [hearly] at hcode <;> simp at hcode
  obtain ⟨th, hth, hst⟩ := Option.map_eq_some_iff.mp ha.step
  obtain ⟨i, rest, op', new, hcode, hexec, rfl⟩ := Thread.step_eq_some.mp hth
  obtain rfl := hst
  obtain ⟨b', hb', hchange⟩ := exec_slots hexec ha.slot
  obtain rfl := Option.some.inj (hb.symm.trans hb')
  have hbusy := ha.busy
  cases hchange with
  | same => exact absurd (hfree.symm.trans hbusy) (by simp)
  | parser => exact absurd (hfree.symm.trans hbusy) (by simp)
  | aimed => exact absurd (hfree.symm.trans hbusy) (by simp)
  | @adopted fd =>
      refine ⟨fd, ?_, ?_⟩
      · obtain ⟨stamp, hreg⟩ := ((sound_reachable ht.reachable).client ha.slot hbusy).1
        exact (opened_reachable ht).interest _ hreg
      · have hop : s.thread.state = s.op := rfl
        simp only [adopt, Operator.aim, Proof.newcomer, Client.zeroed, hparser,
          hblank.idle.draining, hblank.idle.sendOff, hblank.idle.sendLen, hop]
  | handled hserved => exact absurd (hfree.symm.trans hserved) (by simp)
  | failed hserved => exact absurd (hfree.symm.trans hserved) (by simp)
  | shut hserved => exact absurd (hfree.symm.trans hserved) (by simp)

theorem newcomer_alike {owner now : Nat} {peer : Nat × Nat} {fd fd' : Int} (hfd : 0 ≤ fd)
    (hfd' : 0 ≤ fd') :
    Alike (newcomer p₀ owner peer now fd) (newcomer p₀ owner peer now fd') :=
  .mk _ fd' hfd hfd'

/-! ## Served side by side -/

/-- The handler of a client: `clientCall`, of the operator's thread `threadId`. -/
def handler (threadId : Nat) (E : Env) (fuel : Nat) (c : Conn H) : Option Status × Conn H :=
  if c.cli.draining then responseWriterResume E fuel c else clientHandle E fuel threadId c

theorem handler_alike (threadId : Nat) (E : Env) {fuel fuel' : Nat} (hle : fuel ≤ fuel')
    (h : Alike c d) : Carries Alike (handler threadId E fuel c) (handler threadId E fuel' d) := by
  unfold handler
  rw [h.draining]
  exact .ite Iff.rfl (responseWriterResume_alike E hle h) (clientHandle_alike E threadId hle h)

/-- A connection and its events so far: what the world answered to each, and the verdicts. -/
inductive Served (threadId : Nat) (c : Conn H) : List Env → List Status → Conn H → Prop where
  | adopted : Served threadId c [] [] c
  | event {Es : List Env} {verdicts : List Status} {E : Env} {fuel : Nat} {rc : Status}
      {d d' : Conn H} : Served threadId c Es verdicts d →
      handler threadId E fuel d = (some rc, d') →
      Served threadId c (Es ++ [E]) (verdicts ++ [rc]) d'

theorem Alike.nonneg (h : Alike c d) : 0 ≤ d.cli.ctx.fd := by
  obtain ⟨fd, _, hd⟩ := h
  exact hd

/-- **Clients alike, served alike.** -/
theorem Served.twin {threadId : Nat} {Es : List Env} {verdicts verdicts' : List Status}
    (h : Served threadId c Es verdicts d) (h' : Served threadId c' Es verdicts' d')
    (hcc : Alike c c') : verdicts = verdicts' ∧ Alike d d' := by
  induction h generalizing verdicts' d' with
  | adopted =>
      generalize hEs : ([] : List Env) = Es at h'
      cases h' with
      | adopted => exact ⟨rfl, hcc⟩
      | event => exact absurd hEs (by simp)
  | @event Es verdicts E fuel rc d e hserved hcall ih =>
      generalize hEs : Es ++ [E] = Es₀ at h'
      cases h' with
      | adopted => exact absurd hEs (by simp)
      | @event Es' verdicts' E' fuel' rc' e' _ hserved' hcall' =>
          obtain ⟨rfl, hlast⟩ := List.append_inj' hEs rfl
          obtain rfl : E = E' := by simpa using hlast
          obtain ⟨rfl, halike⟩ := ih hserved'
          have htwin := carries_twin (f := fun n => handler threadId E n d)
            (g := fun n => handler threadId E n e')
            (fun hle => handler_alike threadId E hle halike)
            (fun hle => handler_alike threadId E hle (.refl halike.nonneg)) hcall hcall'
          exact ⟨by rw [htwin.1], htwin.2⟩

/--
The connection adopted into slot `idx` at `t`, in the states of the run that follow: its
handler is called, or something happens that leaves the slot alone.
-/
inductive Serves (idx : Nat) (t : Mailbox H) (c : Conn H) :
    Mailbox H → Conn H → List Env → List Status → Prop where
  | adopted : Serves idx t c t c [] []
  | event {u v : Mailbox H} {d d' : Conn H} {Es : List Env} {verdicts : List Status}
      {w : Answers H} {rc : Status} : Serves idx t c u d Es verdicts → d.cli.isBusy = true →
      (mailbox H).step u (.thread w) = some v → clientCall u.op w d = (some rc, d') →
      v.op.clients[idx]? = some d' → Serves idx t c v d' (Es ++ [w.env]) (verdicts ++ [rc])
  | other {u v : Mailbox H} {a : MailboxAct H} {d : Conn H} {Es : List Env}
      {verdicts : List Status} : Serves idx t c u d Es verdicts →
      (mailbox H).step u a = some v → v.op.clients[idx]? = some d →
      Serves idx t c v d Es verdicts

theorem step_id (h : (mailbox H).step s a = some t) : t.op.id = s.op.id := by
  cases mailbox_step h with
  | executed _ hexec => exact hexec.fixed.id
  | _ => rfl

theorem Serves.id {Es : List Env} {verdicts : List Status}
    (h : Serves idx t c u d Es verdicts) : u.op.id = t.op.id := by
  induction h with
  | adopted => rfl
  | event _ _ hstep _ _ ih => exact (step_id hstep).trans ih
  | other _ hstep _ ih => exact (step_id hstep).trans ih

theorem Serves.served {Es : List Env} {verdicts : List Status}
    (h : Serves idx t c u d Es verdicts) : Served t.op.id c Es verdicts d := by
  induction h with
  | adopted => exact .adopted
  | event hserves _ _ hcall _ ih =>
      rw [clientCall, hserves.id] at hcall
      exact ih.event hcall
  | other _ _ _ ih => exact ih

/-- **Nothing else happens to a connection until its slot is free again.** -/
theorem Serves.step {Es : List Env} {verdicts : List Status} (hu : (mailbox H).Reachable u)
    (hget : u.op.clients[idx]? = some d) (h : Serves idx t c u d Es verdicts)
    (hbusy : d.cli.isBusy = true) (hstep : (mailbox H).step u a = some v)
    (hget' : v.op.clients[idx]? = some d') :
    d'.cli.isBusy = false ∨ ∃ Es' verdicts', Serves idx t c v d' Es' verdicts' := by
  cases a with
  | thread w =>
      have hequipped := equipped_reachable hu
      obtain ⟨th, hth, hv⟩ := Option.map_eq_some_iff.mp hstep
      obtain ⟨i, rest, op', new, hcode, hexec, rfl⟩ := Thread.step_eq_some.mp hth
      obtain rfl := hv
      obtain ⟨b, hb, hchange⟩ := exec_slots hexec hget'
      obtain rfl := Option.some.inj (hget.symm.trans hb)
      cases hchange with
      | same => exact .inr ⟨_, _, h.other hstep hget'⟩
      | parser hi =>
          -- the parsers are set up before there is a client
          have hcode' : u.code = i :: rest := hcode
          rcases hequipped with ⟨hnone, _⟩ | ⟨_, hidle⟩
          · exact absurd (by rw [hcode', hi]; exact .head _) hnone
          · exact absurd ((hidle d (List.mem_of_getElem? hget)).symm.trans hbusy) (by simp)
      | aimed hidle => exact absurd (hidle.symm.trans hbusy) (by simp)
      | adopted hidle => exact absurd (hidle.symm.trans hbusy) (by simp)
      | handled _ hcall => exact .inr ⟨_, _, h.event hbusy hstep hcall hget'⟩
      | failed _ hcall _ => exact .inr ⟨_, _, h.event hbusy hstep hcall hget'⟩
      | shut => exact .inl (clientShutdown_isBusy d.cli)
  | _ =>
      have hsame : v.op.clients = u.op.clients := by cases mailbox_step hstep; rfl
      obtain rfl := Option.some.inj (hget.symm.trans (hsame ▸ hget'))
      exact .inr ⟨_, _, h.other hstep hget'⟩

/-- Housekeeping cannot tell them apart either. -/
theorem Alike.expired (h : Alike c d) (now : Nat) : expired now d = expired now c := by
  obtain ⟨fd, hc, hd⟩ := h
  rfl

theorem Alike.observed (h : Alike c d) : d.log = c.log ∧ d.wire = c.wire := by
  obtain ⟨fd, hc, hd⟩ := h
  exact ⟨rfl, rfl⟩

/-! ## The clients of the upload pool -/

variable {E : Env} {threadId : Nat} {cli cli' : Client H} {fd fd' : Int} {peer : Nat × Nat}
  {verdicts verdicts' : List Status} {fuel fuel' : Nat}

theorem driveLoop_alike (E : Env) (threadId deadline : Nat) {verdicts : List Status}
    (hle : fuel ≤ fuel') (h : Alike c d) :
    Carries Alike (driveLoop E threadId deadline fuel verdicts c)
      (driveLoop E threadId deadline fuel' verdicts d) := by
  induction fuel generalizing fuel' verdicts c d with
  | zero => exact .running
  | succ fuel ih =>
      obtain ⟨fuel', rfl, hle'⟩ := exists_succ_of_le hle
      rw [driveLoop, driveLoop, h.tick]
      refine .ite Iff.rfl (.back _ h.next) ?_
      cases E.pollIn c.tick with
      | timeout => exact .back _ h.next
      | error => exact .back _ h.next
      | eintr => exact ih hle' h.next
      | ready =>
          refine (clientHandle_alike E threadId hle' h.next).andThen fun rc c d h => ?_
          cases rc with
          | failure => exact .back _ h
          | success => exact ih hle' h

theorem driveLoop_parses {deadline : Nat} (hc : Parses c)
    (h : driveLoop E threadId deadline fuel verdicts c = (some verdicts', d)) : Parses d := by
  induction fuel generalizing verdicts c with
  | zero => exact absurd h (by simp [driveLoop])
  | succ fuel ih =>
      rw [driveLoop] at h
      split at h
      · obtain rfl := (Prod.mk.inj h).2
        exact hc
      · split at h
        · obtain rfl := (Prod.mk.inj h).2
          exact hc
        · obtain rfl := (Prod.mk.inj h).2
          exact hc
        · exact ih (c := c.next) hc h
        · obtain ⟨rc, e, hcall, hrest⟩ := andThen_eq_some.mp h
          have he := clientHandle_parses (c := c.next) hc hcall
          cases rc with
          | failure =>
              obtain rfl := (Prod.mk.inj hrest).2
              exact he
          | success => exact ih he hrest

/-- A worker's client has the worker's parser. -/
theorem workerClient_parses (h : WorkerClient threadId cli) : cli.httpParser.isSome := by
  induction h with
  | start => rfl
  | @served E fuel fd peer cli verdicts c _ _ hdrive ih =>
      have hadopted : Parses (adoptedFd E fd peer cli).next := by
        show ((cli.httpParser.map H.clear).map H.clear).isSome
        rw [Option.isSome_map, Option.isSome_map]
        exact ih
      have hc := driveLoop_parses hadopted hdrive
      show ((c.cli.httpParser.map H.clear).map H.clear).isSome
      rw [Option.isSome_map, Option.isSome_map]
      exact hc

/-- `client_adopt_fd` leaves nothing of what the client was. -/
theorem adoptedFd_alike (hclear : ∀ p, H.clear p = p₀) (h : cli.httpParser.isSome)
    (h' : cli'.httpParser.isSome) (hfd : 0 ≤ fd) (hfd' : 0 ≤ fd') :
    Alike (adoptedFd E fd peer cli) (adoptedFd E fd' peer cli') := by
  have hparser : ∀ {cli : Client H}, cli.httpParser.isSome →
      (cli.httpParser.map H.clear).map H.clear = some p₀ := by
    intro cli hcli
    obtain ⟨p, hp⟩ := Option.isSome_iff_exists.mp hcli
    rw [hp]
    exact congrArg some (hclear _)
  have hsame : adoptedFd E fd' peer cli' = renamed fd' (adoptedFd E fd peer cli) := by
    simp only [adoptedFd, clientAdoptFd, clearParser, clientResetMessage, hparser h, hparser h']
    rfl
  rw [hsame]
  exact .mk _ fd' hfd hfd'

/-! ## Both paths -/

/--
**Reused slots carry nothing over.** Two connections from the same peer, adopted at the
same time and answered alike, dispatch the same requests, write the same bytes and get
the same verdicts, whatever their slots went through before: an operator's slot in any
run, a worker's client after any number of connections.
-/
theorem reused_slots_carry_nothing_over (hclear : ∀ p, H.clear p = p₀) :
    (∀ {s s' t t' u u' : Mailbox H} {w w' : Answers H} {idx idx' : Nat} {c c' d d' : Conn H}
      {Es : List Env} {verdicts verdicts' : List Status},
      (mailbox H).ReachableBy (fun _ => Initial p₀) s → Initial p₀ (.thread w) →
      (mailbox H).ReachableBy (fun _ => Initial p₀) s' → Initial p₀ (.thread w') →
      Adopts s w t idx c → Adopts s' w' t' idx' c' →
      s.op.id = s'.op.id → w.peer = w'.peer → w.wall = w'.wall →
      Serves idx t c u d Es verdicts → Serves idx' t' c' u' d' Es verdicts' →
      verdicts = verdicts' ∧ d'.log = d.log ∧ d'.wire = d.wire ∧
        ∀ now, expired now d' = expired now d) ∧
    (∀ {E : Env} {threadId : Nat} {cli cli' : Client H} {fd fd' : Int} {peer : Nat × Nat}
      {fuel fuel' : Nat} {verdicts verdicts' : List Status} {d d' : Conn H},
      WorkerClient threadId cli → WorkerClient threadId cli' → 0 ≤ fd → 0 ≤ fd' →
      driveUpload E threadId fuel fd peer cli = (some verdicts, d) →
      driveUpload E threadId fuel' fd' peer cli' = (some verdicts', d') →
      verdicts = verdicts' ∧ d'.log = d.log ∧ d'.wire = d.wire) := by
  constructor
  · intro s s' t t' u u' w w' idx idx' c c' d d' Es verdicts verdicts' hs hw hs' hw' ha ha' hid
      hpeer hwall hserves hserves'
    obtain ⟨fd, hfd, rfl⟩ := ha.newcomer hclear hs hw
    obtain ⟨fd', hfd', rfl⟩ := ha'.newcomer hclear hs' hw'
    -- the two newcomers are served alike, whatever their slots were used for
    have hids : t'.op.id = t.op.id := by
      rw [step_id ha'.step, step_id ha.step, hid]
    have hserved' := hserves'.served
    rw [hids, ← hid, ← hpeer, ← hwall] at hserved'
    obtain ⟨hverdicts, halike⟩ := hserves.served.twin hserved' (newcomer_alike hfd hfd')
    exact ⟨hverdicts, halike.observed.1, halike.observed.2, halike.expired⟩
  · intro E threadId cli cli' fd fd' peer fuel fuel' verdicts verdicts' d d' hcli hcli' hfd hfd'
      hdrive hdrive'
    have hadopted : Alike (adoptedFd E fd peer cli).next (adoptedFd E fd' peer cli').next :=
      (adoptedFd_alike hclear (workerClient_parses hcli) (workerClient_parses hcli') hfd hfd').next
    have htick : (adoptedFd E fd' peer cli').tick = (adoptedFd E fd peer cli).tick := rfl
    obtain ⟨hverdicts, halike⟩ := carries_twin
      (f := fun n => driveUpload E threadId n fd peer cli)
      (g := fun n => driveUpload E threadId n fd' peer cli')
      (fun hle => by
        simp only [driveUpload, htick]
        exact driveLoop_alike E threadId _ hle hadopted)
      (fun hle => driveLoop_alike E threadId _ hle (.refl hadopted.nonneg)) hdrive hdrive'
    exact ⟨hverdicts, halike.observed⟩

/-- The small operator is about to adopt into its slot, by a step that succeeds. -/
def adopting (s : Mailbox DbHttp.small) : Bool :=
  (match s.code.head? with
    | some (.addClient _) => true
    | _ => false) &&
  (s.op.clients[0]?).any (fun c => !c.cli.isBusy) &&
  ((mailbox DbHttp.small).step s (.thread (Answers.smooth [] 0))).any fun t =>
    (t.op.clients[0]?).any fun c => c.cli.isBusy

theorem adopts_of_adopting {s : Mailbox DbHttp.small} (h : adopting s = true) :
    ∃ t c, Adopts s (Answers.smooth [] 0) t 0 c := by
  simp only [adopting, Bool.and_eq_true, Option.any_eq_true, Bool.not_eq_true'] at h
  obtain ⟨⟨hcode, b, hb, hfree⟩, t, hstep, c, hget, hbusy⟩ := h
  refine ⟨t, c, hstep, ?_, ⟨b, hb, hfree⟩, hget, hbusy⟩
  split at hcode
  · exact ⟨_, ‹_›⟩
  · exact absurd hcode (by simp)

theorem initial_small {s : Mailbox DbHttp.small}
    (h : (mailbox DbHttp.small).Reachable s) :
    (mailbox DbHttp.small).ReachableBy (fun _ => Initial (H := DbHttp.small) ()) s := by
  refine h.mono fun _ a _ => ?_
  cases a with
  | thread w => exact fun _ _ _ => rfl
  | _ => trivial

/--
A slot never used and one whose connection was hung up on; a worker's first connection
and its second.
-/
theorem reused_slots_carry_nothing_over_twice :
    (∃ (s s' t t' : Mailbox DbHttp.small) (c c' : Conn DbHttp.small),
      Adopts s (Answers.smooth [] 0) t 0 c ∧ s.op.closed = [] ∧
      Adopts s' (Answers.smooth [] 0) t' 0 c' ∧ s'.op.closed = [7] ∧
      c'.log = c.log ∧ c'.wire = c.wire ∧ ∀ now, expired now c' = expired now c) ∧
    ∃ d d' : Conn DbHttp.small, d.wire = errorMessage 400 ∧ d'.log = d.log ∧ d'.wire = d.wire := by
  have hclear : ∀ p : DbHttp.small.Parser, DbHttp.small.clear p = () := fun _ => rfl
  have hsmooth : Initial (H := DbHttp.small) () (.thread (Answers.smooth [] 0)) :=
    fun _ _ _ => rfl
  constructor
  · obtain ⟨s, hs, hfirst⟩ := (small_reachable (n := 1) (by decide)).exists_of_run
      ([.push 7, .count, .write] ++ threadSteps 3 0 ++
        [.thread (Answers.smooth [wakeupEvent] 0)] ++ threadSteps 5 0)
      (fun s => s.op.id == 0 && s.op.closed == [] && adopting s) (by decide +kernel)
    obtain ⟨s', hs', hsecond⟩ := (small_reachable (n := 1) (by decide)).exists_of_run
      (adoptFirst ++ [.thread (Answers.smooth [firstEvent epollHup] 0)] ++ threadSteps 8 0 ++
        [.push 8, .count, .write, .thread (Answers.smooth [wakeupEvent] 0)] ++ threadSteps 5 0)
      (fun s => s.op.id == 0 && s.op.closed == [7] && adopting s) (by decide +kernel)
    simp only [Bool.and_eq_true, beq_iff_eq] at hfirst hsecond
    obtain ⟨⟨hid, hclosed⟩, hadopting⟩ := hfirst
    obtain ⟨⟨hid', hclosed'⟩, hadopting'⟩ := hsecond
    obtain ⟨t, c, hadopts⟩ := adopts_of_adopting hadopting
    obtain ⟨t', c', hadopts'⟩ := adopts_of_adopting hadopting'
    have hsame := (reused_slots_carry_nothing_over hclear).1 (initial_small hs) hsmooth
      (initial_small hs') hsmooth hadopts hadopts' (hid.trans hid'.symm) rfl rfl
      .adopted .adopted
    exact ⟨s, s', t, t', c, c', hadopts, hclosed, hadopts', hclosed', hsame.2⟩
  · let cli : Client DbHttp.small :=
      { Client.zeroed DbHttp.small with ctx := ⟨-1, none, none⟩, httpParser := some () }
    let drive (cli : Client DbHttp.small) :=
      driveUpload (Env.smooth { status := 200 }) 0 8 7 (0, 0) cli
    let used := (clientReleaseFd (drive cli).2.cli).1
    have hdrive : drive cli = (some [.failure], (drive cli).2) :=
      Prod.fst_eq_iff.mp (by decide +kernel)
    have hdrive' : drive used = (some [.failure], (drive used).2) :=
      Prod.fst_eq_iff.mp (by decide +kernel)
    have hused : WorkerClient 0 used := .served .start (by decide) hdrive
    have hsame := (reused_slots_carry_nothing_over hclear).2 .start hused (by decide) (by decide)
      hdrive hdrive'
    exact ⟨(drive cli).2, (drive used).2, by decide +kernel, hsame.2⟩

end DBServer.Proof
