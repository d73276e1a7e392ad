import DBServer.Lib.Steps
import DBServer.Proof.Returns

/-!
# A shutdown request and the thread it is for

`operator_request_shutdown` stores `SHUTDOWN` and writes the wakeup. The thread's own
writes to the status are the compare-and-swap after its initialization, which cannot
overtake the request, and the store of `_operator_status_update`, which can. As long as
the thread keeps out of that function the request stands: the status does not move, the
thread does not go back into `epoll_wait`, and if it is there already the wakeup is
pending. Then the thread can always go on, its next check of the loop condition is the last
one, and what it still has to execute is bounded (`stepsLeft`): it comes to its exit, and the
join that waits for it comes back.
-/

namespace DBServer.Proof

open DBServer Lib Operator

variable {H : DbHttp} {op op' : Operator H} {i : Instr} {w : Answers H} {new rest : List Instr}
  {s t : Mailbox H}

/-- The instructions of `_operator_status_update`. -/
def updates : Instr → Bool
  | .statusUpdate | .storeStatus _ => true
  | _ => false

/-- The thread is inside `_operator_status_update`. -/
def Updating (code : List Instr) : Prop := code.head?.any updates = true

/-- The next instruction goes on to `_operator_status_update`: a client comes or goes. -/
def EntersUpdate (op : Operator H) (w : Answers H) : List Instr → Prop
  | .addClient fd :: _ => op.getAvailableClientSlot = none ∨
      w.clientInit = true ∧ w.epollAdd = true ∧ ∀ r ∈ op.interest, r.fd ≠ fd
  | .removeByFd fd :: _ => op.slotOf fd ≠ none
  | _ => False

/--
The request comes while the thread is outside `_operator_status_update`, and no client
is added or removed by descriptor after it.
-/
def Undisturbed (s : Mailbox H) : MailboxAct H → Prop
  | .requestStore => ¬Updating s.code
  | .thread w => s.op.status = .shutdown → ¬EntersUpdate s.op w s.code
  | _ => True

instance (code : List Instr) : Decidable (Updating code) := by
  unfold Updating; infer_instance

instance (op : Operator H) (w : Answers H) :
    (code : List Instr) → Decidable (EntersUpdate op w code)
  | .addClient _ :: _ => inferInstanceAs (Decidable (_ ∨ _))
  | .removeByFd _ :: _ => inferInstanceAs (Decidable (_ ≠ _))
  | [] | .initParsers :: _ | .publish _ :: _ | .loopActive :: _ | .loopFull :: _ | .wait :: _
  | .events _ :: _ | .drainWakeup :: _ | .pop _ :: _ | .dequeued _ :: _ | .gate _ :: _
  | .statusUpdate :: _ | .storeStatus _ :: _ | .cleanClients _ _ :: _ | .crash :: _ =>
      inferInstanceAs (Decidable False)

instance (s : Mailbox H) : (a : MailboxAct H) → Decidable (Undisturbed s a)
  | .requestStore => inferInstanceAs (Decidable (¬_))
  | .thread _ => inferInstanceAs (Decidable (_ → _))
  | .push _ | .count | .write | .requestWrite => inferInstanceAs (Decidable True)

/-! ## One instruction after the request -/

/--
With `SHUTDOWN` stored, an instruction outside `_operator_status_update` leaves it
stored, does not enter that function and does not call for `epoll_wait`.
-/
theorem Executes.shutdown (h : Executes op w i op' new) (hstatus : op.status = .shutdown)
    (hout : updates i = false) (hok : ¬EntersUpdate op w (i :: rest)) :
    op'.status = .shutdown ∧ ∀ j ∈ new, updates j = false ∧ j ≠ .wait := by
  cases h with
  | published hinit => rw [hstatus] at hinit; exact absurd hinit (by simp)
  | initFailed hinit => rw [hstatus] at hinit; exact absurd hinit (by simp)
  | active hactive => rw [hstatus] at hactive; exact absurd hactive (by simp)
  | full hfull => rw [hstatus] at hfull; exact absurd hfull (by simp)
  | addNoSlot hfree => exact absurd (.inl hfree) hok
  | added hfree hinit hadd hfds => exact absurd (.inr ⟨hinit, hadd, hfds⟩) hok
  | removed hfound => exact absurd (by simp [EntersUpdate, hfound]) hok
  | statusStale hstale => exact absurd hout (by simp [updates])
  | stored => exact absurd hout (by simp [updates])
  | _ => exact ⟨hstatus, by simp [updates]⟩

/-- How many instructions one can still lead to, once `SHUTDOWN` is stored. -/
def cost (maxClients : Nat) : Instr → Nat
  | .initParsers => 2
  | .publish _ => 1
  | .loopActive => 2
  | .loopFull => 1
  | .wait => 0
  | .events es => 1 + es.length * (maxClients + 7)
  | .drainWakeup => 5
  | .pop _ => 4
  | .dequeued _ => 3
  | .gate _ => 2
  | .addClient _ => 1
  | .statusUpdate => 2
  | .storeStatus _ => 1
  | .removeByFd _ => 1
  | .cleanClients idx _ => 1 + (maxClients - idx)
  | .crash => 0

/-- Every instruction but `epoll_wait` brings the thread closer to its exit. -/
theorem Executes.cost_lt (h : Executes op w i op' new) (hs : Sound op)
    (hstatus : op.status = .shutdown) (hout : updates i = false) (hwait : i ≠ .wait)
    (hok : ¬EntersUpdate op w (i :: rest)) :
    weigh (cost op.maxClients) new < cost op.maxClients i := by
  cases h with
  | published hinit => rw [hstatus] at hinit; exact absurd hinit (by simp)
  | initFailed hinit => rw [hstatus] at hinit; exact absurd hinit (by simp)
  | active hactive => rw [hstatus] at hactive; exact absurd hactive (by simp)
  | full hfull => rw [hstatus] at hfull; exact absurd hfull (by simp)
  | reported hready => exact absurd rfl hwait
  | gateOpen hactive => rw [hstatus] at hactive; exact absurd hactive (by simp)
  | addNoSlot hfree => exact absurd (.inl hfree) hok
  | added hfree hinit hadd hfds => exact absurd (.inr ⟨hinit, hadd, hfds⟩) hok
  | removed hfound => exact absurd (by simp [EntersUpdate, hfound]) hok
  | statusRight hright => exact absurd hout (by simp [updates])
  | statusStale hstale => exact absurd hout (by simp [updates])
  | stored => exact absurd hout (by simp [updates])
  | @evicted idx now c hget hexp =>
      have hlt := hs.lt_maxClients hget
      simp only [weigh_cons, weigh_nil, cost]
      omega
  | spared hlt hexp =>
      simp only [weigh_cons, weigh_nil, cost]
      omega
  | _ => simp only [weigh_cons, weigh_nil, cost, List.length_cons, Nat.succ_mul]; omega

/-! ## Every run -/

/-- The request stands, and the wakeup behind it has not been used up. -/
structure Standing (s : Mailbox H) : Prop where
  stored : s.request ≠ .notCalled → s.op.status = .shutdown ∧ ¬Updating s.code
  pending : s.request = .written → s.code.head? = some .wait → 0 < s.op.wakeups

/-- What waits for others is neither an update of the status nor `epoll_wait`. -/
theorem updates_of_resumes {j : Instr} (h : resumes j = true) : updates j = false ∧ j ≠ .wait := by
  cases j with
  | _ => simp_all [resumes, updates]

theorem head_shutdown (h : Executes op w i op' new) (hstatus : op.status = .shutdown)
    (hout : updates i = false) (hok : ¬EntersUpdate op w (i :: rest))
    (hrest : ∀ j ∈ rest, resumes j = true) :
    ¬Updating (new ++ rest) ∧ (new ++ rest).head? ≠ some .wait := by
  have hall : ∀ j ∈ new ++ rest, updates j = false ∧ j ≠ .wait := by
    intro j hj
    rcases List.mem_append.mp hj with hj | hj
    · exact (h.shutdown hstatus hout hok).2 j hj
    · exact updates_of_resumes (hrest j hj)
  cases hcode : new ++ rest with
  | nil => exact ⟨by simp [Updating], by simp⟩
  | cons j code =>
      have hj := hall j (by rw [hcode]; exact .head _)
      exact ⟨by simp [Updating, hj.1], by simpa using hj.2⟩

theorem standing_step {a : MailboxAct H} (hstacked : Stacked s.code) (h : Standing s)
    (hok : Undisturbed s a) (hstep : MailboxStep s a t) : Standing t := by
  cases hstep with
  | @executed i op' w new rest hcode hexec =>
      by_cases hcalled : s.request = .notCalled
      · exact ⟨fun hn => absurd hcalled hn, fun hw => absurd (hcalled.symm.trans hw) (by simp)⟩
      · obtain ⟨hstatus, hout⟩ := h.stored hcalled
        have hnot : ¬EntersUpdate s.op w (i :: rest) := hcode ▸ hok hstatus
        rw [hcode] at hout hstacked
        have hi : updates i = false := by simpa [Updating] using hout
        have hhead := head_shutdown hexec hstatus hi hnot hstacked
        exact ⟨fun _ => ⟨(hexec.shutdown hstatus hi hnot).1, hhead.1⟩,
          fun _ hwait => absurd hwait hhead.2⟩
  | pushed hidle hfd => exact ⟨h.stored, h.pending⟩
  | counted hpushed => exact ⟨h.stored, h.pending⟩
  | written hcounted => exact ⟨h.stored, fun _ _ => Nat.succ_pos _⟩
  | requestStored hfirst => exact ⟨fun _ => ⟨rfl, hok⟩, fun hw => absurd hw (by simp)⟩
  | requestWritten hstored =>
      exact ⟨fun _ => h.stored (by rw [hstored]; simp), fun _ _ => Nat.succ_pos _⟩

theorem standing_reachable (h : (mailbox H).ReachableBy Undisturbed s) : Standing s := by
  refine h.invariant ?_ ?_
  · rintro s ⟨_, _, _, hrequest⟩
    exact ⟨fun hn => absurd hrequest hn, fun hw => absurd (hrequest.symm.trans hw) (by simp)⟩
  · intro s a t hr hs hok hstep
    exact standing_step (stacked_reachable hr) hs hok (mailbox_step hstep)

/-! ## The way to the exit -/

/-- The instructions of `operator_thread` itself, outside of `reactor_run`. -/
def ofLoop : Instr → Bool
  | .initParsers | .publish _ | .loopActive | .loopFull | .wait => true
  | _ => false

/-- Behind an instruction of `operator_thread` itself there is nothing. -/
def LoopLast (code : List Instr) : Prop := ∀ j ∈ code.dropLast, ofLoop j = false

/-- Only an instruction of the loop calls for another one, and for one as its last. -/
theorem Executes.loopLast (h : Executes op w i op' new) :
    LoopLast new ∧ (ofLoop i = false → ∀ j ∈ new, ofLoop j = false) := by
  cases h <;> simp [LoopLast, ofLoop]

theorem LoopLast.head (h : LoopLast (i :: rest)) : ofLoop i = false ∨ rest = [] := by
  cases rest with
  | nil => exact .inr rfl
  | cons j rest => exact .inl (h i (.head _))

theorem LoopLast.tail (h : LoopLast (i :: rest)) : LoopLast rest := by
  cases rest with
  | nil => exact fun j hj => absurd hj List.not_mem_nil
  | cons j rest => exact fun k hk => h k (.tail _ hk)

theorem LoopLast.behind (hnew : ∀ j ∈ new, ofLoop j = false) (h : LoopLast rest) :
    LoopLast (new ++ rest) := by
  cases rest with
  | nil =>
      rw [List.append_nil]
      exact fun j hj => hnew j (List.mem_of_mem_dropLast hj)
  | cons k rest =>
      intro j hj
      rw [List.dropLast_append_of_ne_nil (by simp)] at hj
      rcases List.mem_append.mp hj with hj | hj
      · exact hnew j hj
      · exact h j hj

theorem loopLast_reachable {ok : Mailbox H → MailboxAct H → Prop}
    (h : (mailbox H).ReachableBy ok s) : LoopLast s.code := by
  refine h.invariant (P := fun s => LoopLast s.code) ?_ ?_
  · rintro s ⟨_, hcode, _⟩ j hj
    rw [hcode] at hj
    exact absurd hj (by simp)
  · intro s a t _ hs _ hstep
    cases mailbox_step hstep with
    | @executed i op' w new rest hcode hexec =>
        obtain ⟨hlast, hnone⟩ := hexec.loopLast
        rw [hcode] at hs
        show LoopLast (new ++ rest)
        rcases hs.head with hi | rfl
        · exact hs.tail.behind (hnone hi)
        · rw [List.append_nil]
          exact hlast
    | _ => exact hs

/-- The step of a thread whose next instruction goes through. -/
theorem thread_step {op' : Operator H} (hcode : s.code = i :: rest)
    (h : exec s.op i w = some (op', new)) :
    (mailbox H).step s (.thread w) = some { s with thread := ⟨op', new ++ rest⟩ } := by
  have hthread : s.thread.step exec w = some ⟨op', new ++ rest⟩ :=
    Thread.step_eq_some.mpr ⟨i, rest, op', new, hcode, h, rfl⟩
  exact congrArg (Option.map _) hthread

/-- A step of the operator's thread. -/
def OfThread (_ : Mailbox H) : MailboxAct H → Prop
  | .thread _ => True
  | _ => False

instance (s : Mailbox H) : (a : MailboxAct H) → Decidable (OfThread s a)
  | .thread _ => inferInstanceAs (Decidable True)
  | .push _ | .count | .write | .requestStore | .requestWrite => inferInstanceAs (Decidable False)

/--
How many more instructions there can be, once `SHUTDOWN` is stored: what the ones ahead lead to,
and if the next is `epoll_wait` one batch with at most one event for each registration.
-/
def stepsLeft (s : Mailbox H) : Nat :=
  weigh (cost s.op.maxClients) s.code +
    if s.code.head? = some .wait then 4 + s.op.interest.length * (s.op.maxClients + 7) else 0

/-- A batch reports every registration once at most. -/
theorem reports_length {batch : List Event} (h : op.Reports batch) :
    batch.length ≤ op.interest.length := by
  have hsubset : batch.map (fun e => e.reg) ⊆ op.interest := by
    intro r hr
    obtain ⟨e, he, rfl⟩ := List.mem_map.mp hr
    exact (h.2 e he).1
  have hle := (h.1.subperm hsubset).length_le
  rwa [List.length_map] at hle

/-- **Once the request is made, every instruction brings the exit nearer.** -/
theorem stepsLeft_lt (h : (mailbox H).ReachableBy Undisturbed s) (hcalled : s.request ≠ .notCalled)
    (hok : Undisturbed s (.thread w)) (hstep : (mailbox H).step s (.thread w) = some t) :
    stepsLeft t < stepsLeft s ∧ t.code.head? ≠ some .wait ∧
      (s.code.head? ≠ some .wait →
        weigh (cost s.op.maxClients) t.code < weigh (cost s.op.maxClients) s.code) := by
  obtain ⟨hstatus, hout⟩ := (standing_reachable h).stored hcalled
  have hstacked := stacked_reachable h
  cases mailbox_step hstep with
  | @executed i op' _ new rest hcode hexec =>
      have hnot : ¬EntersUpdate s.op w (i :: rest) := hcode ▸ hok hstatus
      rw [hcode] at hout hstacked
      have hi : updates i = false := by simpa [Updating] using hout
      have hhead := (head_shutdown hexec hstatus hi hnot hstacked).2
      have hleft : stepsLeft { s with thread := ⟨op', new ++ rest⟩ } =
          weigh (cost s.op.maxClients) (new ++ rest) := by
        have hsame : op'.maxClients = s.op.maxClients := hexec.fixed.maxClients
        show weigh (cost op'.maxClients) (new ++ rest) +
          (if (new ++ rest).head? = some .wait then _ else 0) = _
        rw [if_neg hhead, hsame, Nat.add_zero]
      rw [hleft]
      refine ⟨?_, hhead, fun hwait => ?_⟩
      · by_cases hwait : i = .wait
        · subst hwait
          cases hexec with
          | reported hready =>
              have hle : w.batch.length * (s.op.maxClients + 7) ≤
                  s.op.interest.length * (s.op.maxClients + 7) :=
                Nat.mul_le_mul_right _ (reports_length hready)
              rw [stepsLeft, hcode, if_pos (by simp)]
              simp only [List.cons_append, List.nil_append, weigh_cons, cost]
              omega
        · have hlt := hexec.cost_lt (sound_reachable h) hstatus hi hwait hnot
          rw [stepsLeft, hcode, weigh_append, weigh_cons]
          omega
      · have hne : i ≠ .wait := by simpa [hcode] using hwait
        have hlt := hexec.cost_lt (sound_reachable h) hstatus hi hne hnot
        show weigh _ (new ++ rest) < weigh _ s.code
        rw [hcode, weigh_append, weigh_cons]
        omega

/-- The others leave the thread where it is. -/
theorem stepsLeft_other {a : MailboxAct H} (ha : ¬OfThread s a)
    (hstep : (mailbox H).step s a = some t) : stepsLeft t = stepsLeft s := by
  cases mailbox_step hstep with
  | executed => exact absurd trivial ha
  | _ => rfl

theorem request_kept {a : MailboxAct H} (hcalled : s.request ≠ .notCalled)
    (hstep : (mailbox H).step s a = some t) : t.request ≠ .notCalled := by
  cases mailbox_step hstep with
  | requestStored => simp
  | requestWritten => simp
  | _ => exact hcalled

/-- **The thread can go on**: only a `NULL` call or its exit keeps it from that, whatever the world
is like, as long as it answers and `epoll_wait` is given a batch. -/
theorem thread_enabled {ok : Mailbox H → MailboxAct H → Prop} (h : (mailbox H).ReachableBy ok s)
    (hexit : s.code ≠ []) (hcrash : s.code.head? ≠ some .crash) (hE : Responsive w.env)
    (hwait : s.code.head? = some .wait → s.op.Reports w.batch) :
    ∃ n, ∀ fuel ≥ n, ((mailbox H).step s (.thread { w with fuel := fuel })).isSome := by
  cases hcode : s.code with
  | nil => exact absurd hcode hexit
  | cons i rest =>
      rw [hcode] at hcrash hwait
      obtain ⟨n, hn⟩ := exec_enabled (sound_reachable h) (clientSlots_reachable h) hE
        (by simpa using hcrash) (fun hi => hwait (by rw [hi]; rfl))
      refine ⟨n, fun fuel hle => ?_⟩
      obtain ⟨⟨op', new⟩, hexec⟩ := Option.isSome_iff_exists.mp (hn fuel hle)
      rw [thread_step hcode hexec]
      rfl

/-! ## Absorbing -/

/-- What a shutdown request comes to from a state on. -/
structure Absorbing (s : Mailbox H) : Prop where
  stored : s.request ≠ .notCalled → s.op.status = .shutdown
  pending : s.request = .written → s.code.head? = some .wait → WakeupPending s.op
  /-- Every instruction leads away from `epoll_wait` and towards the exit. -/
  falls : s.request ≠ .notCalled → ∀ w t, Undisturbed s (.thread w) →
    (mailbox H).step s (.thread w) = some t → t.code.head? ≠ some .wait ∧
      (s.code.head? ≠ some .wait →
        weigh (cost s.op.maxClients) t.code < weigh (cost s.op.maxClients) s.code)
  /-- The loop is left at its next check: neither half of the condition holds. -/
  leaves : s.request ≠ .notCalled →
    (s.code.head? = some .loopActive →
      ∀ w, ∃ t, (mailbox H).step s (.thread w) = some t ∧ t.code = [.loopFull]) ∧
    (s.code.head? = some .loopFull →
      ∀ w, ∃ t, (mailbox H).step s (.thread w) = some t ∧ t.code = [])
  /-- The thread has exited, the process has crashed, or the thread can go on. -/
  goesOn : s.request = .written → s.code = [] ∨ s.code.head? = some .crash ∨
    ∀ w : Answers H, Responsive w.env → (s.code.head? = some .wait → s.op.Reports w.batch) →
      ∃ n, ∀ fuel ≥ n, ((mailbox H).step s (.thread { w with fuel := fuel })).isSome
  /-- And there is an end to that, whatever the others do meanwhile. -/
  bounded : s.request ≠ .notCalled → ∀ n m t,
    ((mailbox H).restrict Undisturbed).Takes OfThread s n m t → n + stepsLeft t ≤ stepsLeft s

/--
**SHUTDOWN is absorbing**, in every run that keeps to `Undisturbed`. Once it is stored
it stays, a thread in `epoll_wait` has the wakeup pending, and every further instruction
leads away from `epoll_wait` and towards the exit. The thread can always take its next
instruction, has only so many of them left, and exits at its next check of the loop condition.
-/
theorem shutdown_absorbing (h : (mailbox H).ReachableBy Undisturbed s) : Absorbing s := by
  have hstand := standing_reachable h
  have hlast := loopLast_reachable h
  refine ⟨fun hcalled => (hstand.stored hcalled).1, ?_, ?_, fun hcalled => ⟨?_, ?_⟩, ?_, ?_⟩
  · intro hwritten hwait
    exact (sound_reachable h).wakeupPending (hstand.pending hwritten hwait)
  · intro hcalled w t hok hstep
    exact (stepsLeft_lt h hcalled hok hstep).2
  · intro hhead w
    obtain ⟨rest, hcode⟩ : ∃ rest, s.code = .loopActive :: rest := List.head?_eq_some_iff.mp hhead
    rw [hcode] at hlast
    obtain rfl : rest = [] := hlast.head.resolve_left (by simp [ofLoop])
    have hstatus := (hstand.stored hcalled).1
    have hexec : exec s.op .loopActive w = some (s.op, [.loopFull]) := by simp [exec, hstatus]
    exact ⟨_, thread_step hcode hexec, rfl⟩
  · intro hhead w
    obtain ⟨rest, hcode⟩ : ∃ rest, s.code = .loopFull :: rest := List.head?_eq_some_iff.mp hhead
    rw [hcode] at hlast
    obtain rfl : rest = [] := hlast.head.resolve_left (by simp [ofLoop])
    have hstatus := (hstand.stored hcalled).1
    have hexec : exec s.op .loopFull w = some (s.op, []) := by simp [exec, hstatus]
    exact ⟨_, thread_step hcode hexec, rfl⟩
  · intro _
    by_cases hexit : s.code = []
    · exact .inl hexit
    · by_cases hcrash : s.code.head? = some .crash
      · exact .inr (.inl hcrash)
      · exact .inr (.inr fun w hE hwait => thread_enabled h hexit hcrash hE hwait)
  · intro hcalled n m t htakes
    have hrank := htakes.rank
      (P := fun s => (mailbox H).ReachableBy Undisturbed s ∧ s.request ≠ .notCalled) stepsLeft 0
      (fun s a t hp hthread hstep => ?_) (fun s a t hp hother hstep => ?_) ⟨h, hcalled⟩
    · simpa using hrank.2
    · obtain ⟨hok, hstep⟩ := Machine.restrict_step.mp hstep
      cases a with
      | thread w =>
          exact ⟨⟨hp.1.tail hok hstep, request_kept hp.2 hstep⟩,
            (stepsLeft_lt hp.1 hp.2 hok hstep).1⟩
      | _ => exact absurd hthread id
    · obtain ⟨hok, hstep⟩ := Machine.restrict_step.mp hstep
      exact ⟨⟨hp.1.tail hok hstep, request_kept hp.2 hstep⟩,
        (stepsLeft_other hother hstep).le⟩

/-- A request that finds the small operator asleep: seven more instructions, of 20 at most, and
its thread is gone. -/
theorem shutdown_absorbing_asleep : ∃ s t : Mailbox DbHttp.small,
    s.request = .written ∧ s.code = [.wait] ∧ s.op.status = .shutdown ∧ WakeupPending s.op ∧
      ((mailbox DbHttp.small).restrict Undisturbed).Takes OfThread s 7 0 t ∧ t.code = [] ∧
      7 + stepsLeft t ≤ stepsLeft s ∧ stepsLeft s = 20 := by
  have hinit : (mailbox DbHttp.small).ReachableBy Undisturbed (Mailbox.small 1) :=
    .init ⟨operatorInit_small (by decide), rfl, rfl, rfl⟩
  let out := [MailboxAct.thread (Answers.smooth [wakeupEvent] 0)] ++ threadSteps 6 0
  obtain ⟨s, hs, hasleep⟩ := hinit.exists_of_run (threadSteps 3 0 ++ [.requestStore, .requestWrite])
    (fun s => s.request == .written && s.code == [.wait] && stepsLeft s == 20 &&
      (((mailbox DbHttp.small).restrict Undisturbed).run OfThread s out).any fun t =>
        t.code == []) (by decide +kernel)
  simp only [Bool.and_eq_true, beq_iff_eq] at hasleep
  obtain ⟨⟨⟨hwritten, hcode⟩, hleft⟩, hout⟩ := hasleep
  obtain ⟨t, htakes, hexit⟩ := (Machine.Takes.zero :
    ((mailbox DbHttp.small).restrict Undisturbed).Takes OfThread s 0 0 s).exists_of_run out _ hout
  have hcalled : s.request ≠ .notCalled := by simp [hwritten]
  have habsorbing := shutdown_absorbing hs
  exact ⟨s, t, hwritten, hcode, habsorbing.stored hcalled,
    habsorbing.pending hwritten (by rw [hcode]; rfl), htakes, by simpa using hexit,
    habsorbing.bounded hcalled 7 0 t htakes, hleft⟩

/--
The request comes while a connection is being adopted: the operator goes on, `FULL`, uses
up the wakeup, and sleeps with the request forgotten.
-/
theorem shutdown_forgotten : ∃ s : Mailbox DbHttp.small, (mailbox DbHttp.small).Reachable s ∧
    s.request = .written ∧ s.op.status = .full ∧ s.code = [.wait] ∧ s.op.wakeups = 0 := by
  obtain ⟨t, ht, hlost⟩ := (small_reachable (n := 1) (by decide)).exists_of_run
    ([.push 7, .count, .write] ++ threadSteps 3 0 ++
      [.thread (Answers.smooth [wakeupEvent] 0)] ++ threadSteps 5 0 ++
      [.requestStore, .requestWrite] ++ threadSteps 7 0 ++
      [.thread (Answers.smooth [wakeupEvent] 0)] ++ threadSteps 6 0)
    (fun s => s.request == .written && s.op.status == .full && s.code == [.wait] &&
      s.op.wakeups == 0) (by decide +kernel)
  simp only [Bool.and_eq_true, beq_iff_eq] at hlost
  obtain ⟨⟨⟨hwritten, hstatus⟩, hcode⟩, hwakeups⟩ := hlost
  exact ⟨t, ht, hwritten, hstatus, hcode, hwakeups⟩

end DBServer.Proof
