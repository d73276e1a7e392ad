import DBServer.Proof.Table

/-!
# What is in the mailbox is announced

Each dispatch pushes a descriptor, counts it and then writes the wakeup eventfd. The
eventfd is a semaphore, so a wakeup takes one count off it, but its handler may pop
many descriptors or none. The books balance all the same, except while a handler
stands between its drain and its first pop: it has taken the count and not yet the
descriptor the count was written for.
-/

namespace DBServer.Proof

open DBServer Lib Operator

variable {H : DbHttp} {op op' : Operator H} {i : Instr} {w : Answers H} {new : List Instr}
  {s t : Mailbox H}

/-- A handler that has drained the eventfd and not popped since. -/
def owesPop : Instr → Nat
  | .pop true => 1
  | _ => 0

/-- Between its drain and its first pop. -/
def Owing (s : Mailbox H) : Prop := s.code.head? = some (.pop true)

instance (s : Mailbox H) : Decidable (Owing s) :=
  inferInstanceAs (Decidable (s.code.head? = some (.pop true)))

/--
An instruction that takes a count owes a pop for it, and only a pop takes from the
ring: whatever else covers the ring (`k`) covers it afterwards.
-/
theorem Executes.covered (h : Executes op w i op' new) (k : Nat)
    (hk : op.ring.length ≤ op.wakeups + owesPop i + k) :
    op'.ring.length ≤ op'.wakeups + weigh owesPop new + k := by
  cases h with
  | drained =>
      simp only [owesPop, weigh_cons, weigh_nil] at hk ⊢
      omega
  | popped hring =>
      rename_i first fd ring
      have hlen : op.ring.length = ring.length + 1 := by rw [hring]; rfl
      have howes : owesPop (.pop first) ≤ 1 := by cases first <;> simp [owesPop]
      have hnew : weigh owesPop [.dequeued fd] = 0 := rfl
      show ring.length ≤ op.wakeups + weigh owesPop [.dequeued fd] + k
      omega
  | popEmpty hring =>
      rw [hring]
      exact Nat.zero_le _
  | _ => simpa [owesPop, setSlot, dropSlot] using hk

/-- What waits for others owes nothing. -/
theorem weigh_owesPop {code : List Instr} (h : ∀ j ∈ code, resumes j = true) :
    weigh owesPop code = 0 := by
  refine weigh_eq_zero fun j hj => ?_
  have hres := h j hj
  cases j with
  | pop first => cases first <;> simp_all [resumes, owesPop]
  | _ => rfl

/-- What is in the ring is announced. -/
def Covered (s : Mailbox H) : Prop :=
  s.op.ring.length ≤ s.op.wakeups + s.dispatching.unwritten + weigh owesPop s.code

theorem covered_init (h : (mailbox H).init s) : Covered s := by
  obtain ⟨hop, _⟩ := h
  rw [Covered, hop.ring]
  exact Nat.zero_le _

theorem covered_step {a : MailboxAct H} (h : Covered s) (hstep : MailboxStep s a t) :
    Covered t := by
  unfold Covered at h
  cases hstep with
  | @executed i op' w new rest hcode hexec =>
      rw [hcode, weigh_cons] at h
      have hcov := hexec.covered (s.dispatching.unwritten + weigh owesPop rest) (by omega)
      show op'.ring.length ≤ op'.wakeups + s.dispatching.unwritten + weigh owesPop (new ++ rest)
      rw [weigh_append]
      omega
  | pushed hidle hfd =>
      rw [hidle] at h
      simp only [Dispatching.unwritten] at h
      show (s.op.ring ++ [_]).length ≤ s.op.wakeups + 1 + weigh owesPop s.code
      rw [List.length_append, List.length_singleton]
      omega
  | counted hpushed =>
      rw [hpushed] at h
      exact h
  | written hcounted =>
      rw [hcounted] at h
      exact h
  | requestStored => exact h
  | requestWritten =>
      show s.op.ring.length ≤ s.op.wakeups + 1 + s.dispatching.unwritten + weigh owesPop s.code
      omega

theorem covered_reachable (h : (mailbox H).Reachable s) : Covered s :=
  h.invariant (fun _ => covered_init) fun _ _ _ _ hs _ hstep => covered_step hs (mailbox_step hstep)

/-- Owing a pop is standing right in front of it. -/
theorem Stacked.owes (h : Stacked s.code) : weigh owesPop s.code = if Owing s then 1 else 0 := by
  rcases hcode : s.code with _ | ⟨i, rest⟩ <;> rw [hcode] at h
  · have hnot : ¬Owing s := by simp [Owing, hcode]
    rw [if_neg hnot, weigh_nil]
  · have hrest : weigh owesPop rest = 0 := weigh_owesPop h
    rw [weigh_cons, hrest, Nat.add_zero]
    by_cases howing : Owing s
    · have hi : i = .pop true := by simpa [Owing, hcode] using howing
      rw [if_pos howing, hi, owesPop]
    · have hi : i ≠ .pop true := by simpa [Owing, hcode] using howing
      rw [if_neg howing, owesPop]
      exact hi

/--
**No accepted connection is stranded in a mailbox.** The eventfd's counter, a dispatch
on its way and a handler about to make its first pop together cover the ring; so with
neither of the two about, a filled ring has a wakeup pending.
-/
theorem mailbox_announced (h : (mailbox H).Reachable s) :
    s.op.ring.length ≤
      s.op.wakeups + s.dispatching.unwritten + (if Owing s then 1 else 0) ∧
    (s.dispatching = .idle → ¬Owing s → s.op.ring ≠ [] →
      0 < s.op.wakeups ∧ WakeupPending s.op) := by
  have hann := covered_reachable h
  rw [Covered, (stacked_reachable h).owes] at hann
  refine ⟨hann, ?_⟩
  intro hidle howing hring
  rw [hidle, if_neg howing] at hann
  have hfilled : 0 < s.op.ring.length := List.length_pos_iff.mpr hring
  simp only [Dispatching.unwritten] at hann
  have hwakeups : 0 < s.op.wakeups := by omega
  exact ⟨hwakeups, (sound_reachable h).wakeupPending hwakeups⟩

theorem mailbox_announced_push : ∃ s : Mailbox DbHttp.small,
    s.dispatching = .idle ∧ s.op.ring ≠ [] ∧ 0 < s.op.wakeups ∧ WakeupPending s.op := by
  obtain ⟨t, ht, hpushed⟩ := (small_reachable (n := 1) (by decide)).exists_of_run
    ([.push 7, .count, .write] ++ threadSteps 3 0)
    (fun s => s.op.ring == [7] && s.dispatching == .idle && s.code.head? == some .wait)
    (by decide +kernel)
  simp only [Bool.and_eq_true, beq_iff_eq] at hpushed
  obtain ⟨⟨hring, hidle⟩, hhead⟩ := hpushed
  have howing : ¬Owing t := by simp [Owing, hhead]
  have hfilled : t.op.ring ≠ [] := by simp [hring]
  exact ⟨t, hidle, hfilled, (mailbox_announced ht).2 hidle howing hfilled⟩

/-- The handler of the first wakeup has drained the count of a descriptor still in the ring. -/
theorem mailbox_not_announced : ¬∀ (H : DbHttp) (s : Mailbox H), (mailbox H).Reachable s →
    s.op.ring.length ≤ s.op.wakeups + s.dispatching.unwritten := by
  intro hall
  obtain ⟨t, ht, hdrained⟩ := (small_reachable (n := 1) (by decide)).exists_of_run
    ([.push 7, .count, .write] ++ threadSteps 3 0 ++
      [.thread (Answers.smooth [wakeupEvent] 0)] ++ threadSteps 2 0)
    (fun s => s.op.ring == [7] && s.op.wakeups == 0 && s.dispatching == .idle)
    (by decide +kernel)
  simp only [Bool.and_eq_true, beq_iff_eq] at hdrained
  obtain ⟨⟨hring, hwakeups⟩, hidle⟩ := hdrained
  have hbound := hall _ t ht
  rw [hring, hwakeups, hidle] at hbound
  exact absurd hbound (by decide)

end DBServer.Proof
