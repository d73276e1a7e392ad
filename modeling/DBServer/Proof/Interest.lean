import DBServer.Proof.Handling
import DBServer.Proof.SlotTable

/-!
# The interest mask follows the send state

`draining` is set and cleared in the response writer, the mask of the registration is
changed by a call of its own, and that call can fail. `Follows` says that the two agree
and that no such call has failed. A handler that comes back with success keeps it: where
the mask could not be changed nothing is parked, so every caller reports a failure, and
the client is removed before anything else happens on the thread.
-/

namespace DBServer.Proof

open DBServer Lib Operator

variable {H : DbHttp} {E : Env} {op op' : Operator H} {i : Instr} {w : Answers H}
  {new : List Instr} {c c' d : Conn H} {s t : Mailbox H} {fuel : Nat} {rc : Status}

/-- The mask goes with the flag, and no change of it has failed. -/
structure Follows (c : Conn H) : Prop where
  mask : c.mask = if c.cli.draining then clientEventsOut else clientEventsIn
  faults : c.faults = 0

/-- A client that is being read. -/
structure Reading (c : Conn H) : Prop where
  draining : c.cli.draining = false
  mask : c.mask = clientEventsIn
  faults : c.faults = 0

theorem Reading.follows (h : Reading c) : Follows c := by
  refine ⟨?_, h.faults⟩
  rw [h.draining]
  exact h.mask

theorem Follows.reading (h : Follows c) (hd : c.cli.draining = false) : Reading c := by
  refine ⟨hd, ?_, h.faults⟩
  have hmask := h.mask
  rwa [hd] at hmask

/-- Neither the flag, nor the mask, nor the count of faults is touched. -/
theorem Follows.congr (h : Follows c) (hd : c'.cli.draining = c.cli.draining)
    (hmask : c'.mask = c.mask) (hfaults : c'.faults = c.faults) : Follows c' := by
  refine ⟨?_, hfaults.trans h.faults⟩
  rw [hmask, hd]
  exact h.mask

theorem working_reading (E : Env) : Working E fun c : Conn H => Reading c :=
  ⟨fun _ h => ⟨h.draining, h.mask, h.faults⟩, fun _ _ _ _ h => ⟨h.draining, h.mask, h.faults⟩,
    fun _ _ _ h => ⟨h.draining, h.mask, h.faults⟩, fun _ _ h => ⟨h.draining, h.mask, h.faults⟩,
    fun _ _ h => ⟨h.draining, h.mask, h.faults⟩, fun _ _ _ _ h => ⟨h.draining, h.mask, h.faults⟩⟩

/-! ## Sending -/

/-- An answer started for a client that is being read. -/
theorem Start.call_follows {start : Start} (hc : Reading c)
    (hcall : start.call E fuel c = (some rc, d)) :
    (rc = .success → Follows d) ∧ (rc = .failure → d.cli.draining = false) := by
  rcases Start.split E start c with ⟨c', hl, hsplit⟩ | ⟨c', n, _, _, hl, hsplit⟩
  · rw [hsplit] at hcall
    obtain ⟨hrc, rfl⟩ := Prod.mk.inj hcall
    obtain rfl := Option.some.inj hrc
    obtain ⟨b, p, hcli⟩ := hl.cli
    exact ⟨nofun, fun _ => by rw [hcli]; exact hc.draining⟩
  · rw [hsplit] at hcall
    obtain ⟨b, p, hcli⟩ := hl.cli
    have hfree : (started n c').cli.draining = false := by
      show c'.cli.draining = false
      rw [hcli]
      exact hc.draining
    rcases trySend_mask E n fuel (started n c') hcall with
      ⟨rfl, hfaults, ⟨hd, hmask⟩ | ⟨hd, hmask⟩⟩ | ⟨rfl, _, hd⟩
    · refine ⟨fun _ => ⟨?_, hfaults.trans (hl.faults.trans hc.faults)⟩, nofun⟩
      rw [hd]
      exact hmask
    · refine ⟨fun _ => ⟨?_, hfaults.trans (hl.faults.trans hc.faults)⟩, nofun⟩
      rw [hd]
      exact hmask.trans (hl.mask.trans hc.mask)
    · exact ⟨nofun, fun _ => hd hfree⟩

/-- A resumed response, if it is still wanted. -/
theorem responseWriterResume_follows (hc : Follows c)
    (hcall : responseWriterResume E fuel c = (some .success, d)) : Follows d := by
  unfold responseWriterResume at hcall
  split at hcall
  · exact absurd hcall (by simp)
  · obtain ⟨rc, c', hsend, hrest⟩ := andThen_eq_some.mp hcall
    rcases trySend_mask E _ fuel c hsend with ⟨rfl, hfaults, hleft⟩ | ⟨rfl, _, _⟩
    · rw [resumeRest] at hrest
      split at hrest
      · rename_i hparked
        obtain rfl := (Prod.mk.inj hrest).2
        rcases hleft with ⟨hd, hmask⟩ | ⟨hd, _⟩
        · refine ⟨?_, hfaults.trans hc.faults⟩
          rw [hd]
          exact hmask
        · exact absurd (hd.symm.trans hparked) (by simp)
      · rename_i hfree
        unfold resumeDone at hrest
        split at hrest
        · obtain rfl := (Prod.mk.inj hrest).2
          refine ⟨?_, hfaults.trans hc.faults⟩
          exact (if_neg hfree).symm
        · exact absurd hrest (by simp)
    · exact absurd hrest (by simp [resumeRest])

/-! ## Handling -/

/-- What `client_handle` leaves of a client it wants to keep. -/
theorem Handled.follows {o : Option Exit × Conn H}
    (h : Handled E (fun c : Conn H => Reading c) o) (ho : o.1 = some (.returned .success)) :
    Follows o.2 := by
  cases h with
  | running => exact absurd ho (by simp)
  | waiting hd => exact hd.follows
  | silent => exact absurd ho (by simp)
  | silentReset => exact absurd ho (by simp)
  | dispatched hd₀ _ hcall =>
      obtain ⟨rfl, hsame⟩ := afterDispatch_success (Exit.returned.inj (Option.some.inj ho))
      rw [hsame]
      exact ((Start.call_follows hd₀ hcall).1 rfl).congr rfl rfl rfl
  | unanswered hd =>
      have hparked := (afterAnswer_success (Exit.returned.inj (Option.some.inj ho))).1
      exact absurd (hd.draining.symm.trans hparked) (by simp)
  | @answered _ _ _ d d' rc hd₀ _ hcall hbeyond =>
      obtain ⟨hparked, hsame⟩ := afterAnswer_success (Exit.returned.inj (Option.some.inj ho))
      obtain ⟨b, hcli⟩ := hbeyond.cli
      have hd : d'.cli.draining = d.cli.draining := by rw [hcli]
      rw [hsame]
      refine Follows.congr ?_ hd hbeyond.mask hbeyond.faults
      cases rc with
      | success => exact (Start.call_follows hd₀ hcall).1 rfl
      | failure =>
          have hfree := (Start.call_follows hd₀ hcall).2 rfl
          exact absurd ((hd.trans hfree).symm.trans hparked) (by simp)
  | @streamed h fuel d₀ d rc hd₀ hs =>
      -- an archive is streamed without parking
      have hstream : StreamClosed fun c : Conn H => Reading c :=
        ⟨fun _ h => ⟨h.draining, h.mask, h.faults⟩, fun _ _ h => ⟨h.draining, h.mask, h.faults⟩,
          fun _ _ h => ⟨h.draining, h.mask, h.faults⟩, fun _ _ _ h => ⟨h.draining, h.mask, h.faults⟩⟩
      have hd := hstream.zipStream E fuel h (d₀.call (.zipBegin true)).next
        ⟨hd₀.draining, hd₀.mask, hd₀.faults⟩
      rw [hs] at hd
      have hparked := (afterAnswer_success (Exit.returned.inj (Option.some.inj ho))).1
      exact absurd (hd.draining.symm.trans hparked) (by simp)
  | atDrain => exact absurd ho (by simp)

/-- **A handler that succeeds leaves mask and flag in agreement.** -/
theorem clientCall_follows (hc : Follows c) (hcall : clientCall op w c = (some .success, d)) :
    Follows d := by
  unfold clientCall at hcall
  split at hcall
  · exact responseWriterResume_follows hc hcall
  · rename_i hd
    have hhandled := (working_reading w.env).clientHandle
      (fun _ _ h => ⟨h.draining, h.mask, h.faults⟩) w.fuel op.id
      (hc.reading (Bool.eq_false_of_not_eq_true hd))
    rw [hcall] at hhandled
    exact hhandled.follows rfl

/-! ## In every run -/

/-- Every client's mask goes with its flag, but for the one that is about to be removed. -/
def Watched (op : Operator H) (code : List Instr) : Prop :=
  ∀ (idx : Nat) (c : Conn H), op.clients[idx]? = some c → c.cli.isBusy = true →
    Follows c ∨ code.head? = some (.removeByFd c.cli.ctx.fd)

/-- `_operator_remove_client_by_fd` shuts down the client it is called for. -/
theorem removeByFd_shuts {idx : Nat} (hs : Sound op) (hget : op.clients[idx]? = some c)
    (hbusy : c.cli.isBusy = true)
    (h : exec op (.removeByFd c.cli.ctx.fd) w = some (op', new))
    (hget' : op'.clients[idx]? = some c') : c' = shutSlot c := by
  cases exec_executes h with
  | removeMissing hmissing =>
      have hnot := List.findIdx?_eq_none_iff.mp hmissing c (List.mem_of_getElem? hget)
      exact absurd hnot (by simp [hbusy])
  | removed hfound =>
      obtain ⟨d, hd, hbusy', hfd⟩ := slotOf_busy hfound
      obtain rfl := hs.distinct hget hd hbusy hbusy' hfd.symm
      obtain ⟨e, he, rfl⟩ := setSlot_getElem? hget'
      obtain rfl := Option.some.inj (hget.symm.trans he)
      exact if_pos rfl

/-- What becomes of a busy slot that is not about to be freed. -/
theorem SlotChange.follows (h : SlotChange op i w new c c') (hquiet : Quiet c)
    (hbusy' : c'.cli.isBusy = true) (hc : c.cli.isBusy = true → Follows c) :
    Follows c' ∨ new.head? = some (.removeByFd c'.cli.ctx.fd) := by
  cases h with
  | same => exact .inl (hc hbusy')
  | parser => exact .inl ((hc hbusy').congr rfl rfl rfl)
  | aimed hidle => exact absurd (hidle.symm.trans hbusy') (by simp)
  | adopted hidle =>
      refine .inl ⟨?_, rfl⟩
      exact (if_neg (by simp [adopt, Conn.fresh, aim, hquiet hidle])).symm
  | handled hbusy hcall => exact .inl (clientCall_follows (hc hbusy) hcall)
  | failed hbusy hcall hhead =>
      have hkept := clientCall_identity op w c
      rw [hcall] at hkept
      rw [ctx_of_identity hkept]
      exact .inr hhead
  | shut hbusy => exact absurd hbusy' (by simp [shutSlot])

theorem Watched.exec {rest : List Instr} (h : Watched op (i :: rest)) (hs : Sound op)
    (hquiet : ∀ c ∈ op.clients, Quiet c) (hexec : exec op i w = some (op', new)) :
    Watched op' (new ++ rest) := by
  intro idx c' hget' hbusy'
  obtain ⟨c, hget, hchange⟩ := exec_slots hexec hget'
  have hfollows : c.cli.isBusy = true → Follows c := by
    intro hbusy
    rcases h idx c hget hbusy with hf | hhead
    · exact hf
    · -- this instruction frees the slot
      obtain rfl := Option.some.inj hhead
      rw [removeByFd_shuts hs hget hbusy hexec hget'] at hbusy'
      exact absurd hbusy' (by simp [shutSlot])
  rcases hchange.follows (hquiet c (List.mem_of_getElem? hget)) hbusy' hfollows with hf | hhead
  · exact .inl hf
  · refine .inr ?_
    rw [List.head?_append, hhead]
    rfl

theorem watched_reachable (h : (mailbox H).Reachable s) : Watched s.op s.code := by
  refine h.invariant (P := fun s => Watched s.op s.code) ?_ ?_
  · rintro s ⟨hop, _⟩ idx c hget hbusy
    have hc := List.mem_of_getElem? hget
    rw [hop.clients] at hc
    rw [List.eq_of_mem_replicate hc] at hbusy
    exact absurd hbusy (by simp [Conn.fresh, Client.zeroed])
  · intro s a t hr hs _ hstep
    cases a with
    | thread w =>
        obtain ⟨th, hth, rfl⟩ := Option.map_eq_some_iff.mp hstep
        obtain ⟨i, rest, op', new, hcode, hexec, rfl⟩ := Thread.step_eq_some.mp hth
        have hcode' : s.code = i :: rest := hcode
        rw [hcode'] at hs
        exact hs.exec (sound_reachable hr)
          (slots_reachable (P := Quiet) (fun _ => rfl) (fun _ hchange => hchange.quiet) hr) hexec
    | _ =>
        cases mailbox_step hstep
        exact hs

/-- The registration of a client asks `epoll` for an event. -/
def AsksFor (event : Nat) (c : Conn H) : Prop := c.mask &&& event ≠ 0

theorem Follows.asks (h : Follows c) :
    (c.cli.draining = true → AsksFor epollOut c ∧ ¬ AsksFor epollIn c) ∧
      (c.cli.draining = false → AsksFor epollIn c ∧ ¬ AsksFor epollOut c) := by
  have hmask := h.mask
  unfold AsksFor
  constructor
  · intro hd
    rw [hmask, hd]
    decide
  · intro hd
    rw [hmask, hd]
    decide

/-- A fault during a client's event is followed by the removal of the client. -/
theorem SlotChange.fault (h : SlotChange op i w new c c') (hbusy : c.cli.isBusy = true)
    (hc : Follows c) (hfault : c'.faults ≠ c.faults) :
    c'.cli.isBusy = true ∧ c'.cli.ctx = c.cli.ctx ∧
      new.head? = some (.removeByFd c.cli.ctx.fd) := by
  cases h with
  | same => exact absurd rfl hfault
  | parser => exact absurd rfl hfault
  | aimed hidle => exact absurd (hidle.symm.trans hbusy) (by simp)
  | adopted hidle => exact absurd (hidle.symm.trans hbusy) (by simp)
  | handled _ hcall =>
      exact absurd ((clientCall_follows hc hcall).faults.trans hc.faults.symm) hfault
  | failed _ hcall hhead =>
      have hkept := clientCall_identity op w c
      rw [hcall] at hkept
      exact ⟨(congrArg Prod.fst hkept).trans hbusy, ctx_of_identity hkept, hhead⟩
  | shut => exact absurd rfl hfault

/-- The removal of a client cannot be refused, and frees its slot. -/
theorem removal_frees {idx : Nat} (hs : Sound t.op) (hget : t.op.clients[idx]? = some c)
    (hbusy : c.cli.isBusy = true) (hhead : t.code.head? = some (.removeByFd c.cli.ctx.fd))
    (w : Answers H) : ∃ u, (mailbox H).step t (.thread w) = some u ∧
      ∀ c', u.op.clients[idx]? = some c' → c'.cli.isBusy = false := by
  obtain ⟨rest, hcode⟩ : ∃ rest, t.code = .removeByFd c.cli.ctx.fd :: rest :=
    List.head?_eq_some_iff.mp hhead
  have hexec : Operator.exec t.op (.removeByFd c.cli.ctx.fd) w =
      some (t.op.removeClientByFd c.cli.ctx.fd) := rfl
  have hstep : t.thread.step Operator.exec w = some
      ⟨(t.op.removeClientByFd c.cli.ctx.fd).1, (t.op.removeClientByFd c.cli.ctx.fd).2 ++ rest⟩ :=
    Thread.step_eq_some.mpr ⟨_, rest, _, _, hcode, hexec, rfl⟩
  refine ⟨{ t with thread := _ }, congrArg (Option.map _) hstep, ?_⟩
  intro c' hget'
  rw [removeByFd_shuts hs hget hbusy hexec hget']
  exact clientShutdown_isBusy c.cli

/--
**The interest mask of a client follows its send state.** Unless its removal is the
next thing to happen, a busy slot is registered for writability if a response is parked
on it and for readability if not; and a change of the mask that fails is followed at
once by the removal.
-/
theorem interest_follows_send_state (h : (mailbox H).Reachable s) {idx : Nat}
    (hget : s.op.clients[idx]? = some c) (hbusy : c.cli.isBusy = true) :
    (s.code.head? ≠ some (.removeByFd c.cli.ctx.fd) →
      (∃ stamp, ⟨c.cli.ctx.fd, .client idx, stamp⟩ ∈ s.op.interest) ∧
      (c.cli.draining = true → AsksFor epollOut c ∧ ¬ AsksFor epollIn c) ∧
      (c.cli.draining = false → AsksFor epollIn c ∧ ¬ AsksFor epollOut c)) ∧
    (∀ a t c', (mailbox H).step s a = some t → t.op.clients[idx]? = some c' →
      c'.faults ≠ c.faults → t.code.head? = some (.removeByFd c.cli.ctx.fd) ∧
        ∀ w, ∃ u, (mailbox H).step t (.thread w) = some u ∧
          ∀ d, u.op.clients[idx]? = some d → d.cli.isBusy = false) := by
  have hs := sound_reachable h
  have hwatched := watched_reachable h idx c hget hbusy
  constructor
  · intro hhead
    exact ⟨(hs.client hget hbusy).1, (hwatched.resolve_right hhead).asks⟩
  · intro a t c' hstep hget' hfault
    have hsound := sound_reachable (Machine.ReachableBy.tail h trivial hstep)
    cases a with
    | thread w =>
        obtain ⟨th, hth, rfl⟩ := Option.map_eq_some_iff.mp hstep
        obtain ⟨i, rest, op', new, hcode, hexec, rfl⟩ := Thread.step_eq_some.mp hth
        obtain ⟨d, hd, hchange⟩ := exec_slots hexec hget'
        obtain rfl := Option.some.inj (hget.symm.trans hd)
        have hfollows : Follows c := by
          rcases hwatched with hf | hhead
          · exact hf
          · -- the removal itself changes no count
            have hcode' : s.code = i :: rest := hcode
            rw [hcode'] at hhead
            obtain rfl := Option.some.inj hhead
            have hshut : c' = shutSlot c := removeByFd_shuts hs hget hbusy hexec hget'
            exact absurd (congrArg Conn.faults hshut) hfault
        obtain ⟨hbusy', hctx, hhead⟩ := hchange.fault hbusy hfollows hfault
        have hhead' : (new ++ rest).head? = some (.removeByFd c'.cli.ctx.fd) := by
          rw [List.head?_append, hhead, hctx]
          rfl
        refine ⟨by rw [← hctx]; exact hhead', fun w => ?_⟩
        exact removal_frees hsound hget' hbusy' hhead' w
    | _ =>
        cases mailbox_step hstep
        obtain rfl := Option.some.inj (hget.symm.trans hget')
        exact absurd rfl hfault

/-- The small operator's first client, before anything has come from it, and with the answer to a
refused request parked; a mask that cannot be changed frees its slot. -/
theorem interest_follows_send_state_parked : ∃ (s t u : Mailbox DbHttp.small)
    (c d : Conn DbHttp.small),
    s.op.clients[0]? = some c ∧ c.cli.draining = false ∧ AsksFor epollIn c ∧
      ¬ AsksFor epollOut c ∧
    t.op.clients[0]? = some d ∧ d.cli.draining = true ∧ AsksFor epollOut d ∧
      ¬ AsksFor epollIn d ∧
    u.code.head? = some (.removeByFd 7) ∧
      ∀ w, ∃ v, (mailbox DbHttp.small).step u (.thread w) = some v ∧
        ∀ d, v.op.clients[0]? = some d → d.cli.isBusy = false := by
  let refusing : Answers DbHttp.small :=
    { slowAnswers [] with env := { (slowAnswers []).env with reactorMod := fun _ => false } }
  have hstart := small_reachable (n := 1) (by decide)
  obtain ⟨s, hs, hfresh⟩ := hstart.exists_of_run
    (adoptFirst ++ [.thread (slowAnswers [firstEvent epollIn])])
    (fun s => s.code == [.events [firstEvent epollIn], .loopActive] &&
      ((s.op.clients[0]?).any fun c => c.cli.isBusy && !c.cli.draining && c.cli.ctx.fd == 7 &&
        ((mailbox DbHttp.small).step s (.thread refusing)).any fun u =>
          (u.op.clients[0]?).any fun c' => c'.faults != c.faults))
    (by decide +kernel)
  obtain ⟨t, ht, hparked⟩ := hstart.exists_of_run
    (adoptFirst ++ [.thread (slowAnswers [firstEvent epollIn]), .thread (slowAnswers [])])
    (fun s => s.code == [.events [], .loopActive] &&
      (s.op.clients[0]?).any fun c => c.cli.isBusy && c.cli.draining)
    (by decide +kernel)
  simp only [Bool.and_eq_true, beq_iff_eq, bne_iff_ne, Option.any_eq_true,
    Bool.not_eq_true'] at hfresh hparked
  obtain ⟨hcode, c, hget, ⟨⟨hbusy, hopen⟩, hfd⟩, u, hu, c', hget', hfault⟩ := hfresh
  obtain ⟨hcode', d, hgot, hbusy', hdraining⟩ := hparked
  obtain ⟨hmask, hrefused⟩ := interest_follows_send_state hs hget hbusy
  obtain ⟨hmask', _⟩ := interest_follows_send_state ht hgot hbusy'
  obtain ⟨_, _, hreads⟩ := hmask (by simp [hcode])
  obtain ⟨_, hwrites, _⟩ := hmask' (by simp [hcode'])
  obtain ⟨hhead, hfreed⟩ := hrefused _ u c' hu hget' hfault
  rw [hfd] at hhead
  exact ⟨s, t, u, c, d, hget, hopen, (hreads hopen).1, (hreads hopen).2, hgot, hdraining,
    (hwrites hdraining).1, (hwrites hdraining).2, hhead, hfreed⟩

end DBServer.Proof
