import DBServer.Proof.Table

/-!
# The FULL flag and the real occupancy

The status follows the client count by way of `_operator_status_update`, which adding
a client and removing one by descriptor both call. `Tracks` follows the thread through
them: the status is right whenever the next instruction is not that update. Eviction by
a timer tick is the path that forgets it, and is right only while the operator is not
`FULL`.
-/

namespace DBServer.Proof

open DBServer Lib Operator

variable {H : DbHttp} {op op' : Operator H} {i : Instr} {w : Answers H} {new rest code : List Instr}
  {s t : Mailbox H}

theorem due_eq_full : due op = .full ↔ op.maxClients ≤ op.activeClients := by
  unfold due
  split <;> simp [*]

theorem due_eq_active : due op = .active ↔ op.activeClients < op.maxClients := by
  unfold due
  split <;> simp <;> omega

theorem due_congr (hactive : op'.activeClients = op.activeClients)
    (hmax : op'.maxClients = op.maxClients) : due op' = due op := by
  rw [due, due, hactive, hmax]

/-- What the next instruction may rely on: the status is right unless it is about to be set. -/
def Tracks (op : Operator H) : List Instr → Prop
  | [] => True
  | .initParsers :: rest | .publish _ :: rest =>
      op.status = .initializing ∧ op.activeClients = 0 ∧ rest = []
  | .statusUpdate :: _ => True
  | .storeStatus status :: _ => status = due op
  | _ :: _ => op.status = due op

/-- Between two events, and in the checks of the loop condition. -/
def AtRest : List Instr → Prop
  | .events _ :: _ | .loopActive :: _ | .loopFull :: _ | .wait :: _ => True
  | _ => False

theorem Tracks.atRest (h : Tracks op code) (hrest : AtRest code) : op.status = due op := by
  unfold AtRest at hrest
  split at hrest
  · exact h
  · exact h
  · exact h
  · exact h
  · exact absurd hrest id

/-- With the status right, any instruction that waits for others may go on. -/
theorem tracks_of_resumes (hrest : ∀ j ∈ rest, resumes j = true) (h : op.status = due op) :
    Tracks op rest := by
  cases rest with
  | nil => trivial
  | cons j rest =>
      have hj := hrest j (.head _)
      cases j with
      | events es => exact h
      | loopActive => exact h
      | pop first => exact h
      | _ => exact absurd hj (by simp [resumes])

/-- Nothing else of the operator matters. -/
theorem Tracks.congr (h : Tracks op code) (hstatus : op'.status = op.status)
    (hactive : op'.activeClients = op.activeClients) (hmax : op'.maxClients = op.maxClients) :
    Tracks op' code := by
  unfold Tracks at h ⊢
  rw [hstatus, due_congr hactive hmax, hactive]
  exact h

/-- The next instruction of a thread evicts a client. -/
def Evicts (op : Operator H) : List Instr → Prop
  | .cleanClients idx now :: _ => (op.clients[idx]?.map (expired now)).getD false = true
  | _ => False

instance (op : Operator H) : (code : List Instr) → Decidable (Evicts op code)
  | .cleanClients _ _ :: _ => inferInstanceAs (Decidable (_ = _))
  | [] | .initParsers :: _ | .publish _ :: _ | .loopActive :: _ | .loopFull :: _ | .wait :: _
  | .events _ :: _ | .drainWakeup :: _ | .pop _ :: _ | .dequeued _ :: _ | .gate _ :: _
  | .addClient _ :: _ | .statusUpdate :: _ | .storeStatus _ :: _ | .removeByFd _ :: _
  | .crash :: _ => inferInstanceAs (Decidable False)

/-- Dropping a busy slot takes one off the client count. -/
theorem activeClients_dropSlot (hs : Sound op) {idx : Nat} {c : Conn H}
    (hget : op.clients[idx]? = some c) (hbusy : c.cli.isBusy = true) :
    (op.dropSlot idx).activeClients + 1 = op.activeClients := by
  have hpos : 0 < (table op).slots.countP Slot.busy :=
    List.countP_pos_iff.mpr ⟨slot c, List.mem_of_getElem? (table_slots_getElem? hget), hbusy⟩
  have hactive : op.activeClients = (table op).slots.countP Slot.busy := hs.table.active
  have hle := activeClients_le hs
  have hmax := hs.maxClients.2
  have hdrop : (op.dropSlot idx).activeClients = op.activeClients - 1 :=
    decr32_of_pos (by omega) (by omega)
  omega

theorem Tracks.executes (h : Tracks op (i :: rest)) (hs : Sound op)
    (hrest : ∀ j ∈ rest, resumes j = true)
    (hevict : Evicts op (i :: rest) → op.status ≠ .full)
    (hexec : Executes op w i op' new) : Tracks op' (new ++ rest) := by
  cases hexec with
  | initParsers hslots => exact h
  | published hinit =>
      obtain ⟨_, hnone, _⟩ := h
      have hmax := hs.maxClients.1
      have hdue : due { op with status := OperatorStatus.active } = .active :=
        due_eq_active.mpr (by simp only [hnone]; exact hmax)
      exact hdue.symm
  | initFailed hinit =>
      obtain ⟨_, _, rfl⟩ := h
      trivial
  | overtaken hlate => exact absurd h.1 hlate
  | addNoSlot hfull => trivial
  | added hfree hinit hadd hfds => trivial
  | removed hfound => trivial
  | statusRight hright => exact tracks_of_resumes hrest hright
  | statusStale hstale => rfl
  | stored =>
      refine tracks_of_resumes hrest ?_
      exact h
  | @evicted idx now c hget hexp =>
      -- below the limit before, and further below it now
      have hnot : op.status ≠ .full := hevict (by simp [Evicts, hget, hexp])
      have hright : op.status = due op := h
      have hlt : ¬op.maxClients ≤ op.activeClients := by
        intro hge
        exact hnot (hright.trans (due_eq_full.mpr hge))
      have hdrop := activeClients_dropSlot hs hget (expired_busy hexp)
      have hactive : due op = .active := due_eq_active.mpr (Nat.not_le.mp hlt)
      have hstill : due (op.dropSlot idx) = .active := by
        refine due_eq_active.mpr ?_
        show (op.dropSlot idx).activeClients < op.maxClients
        omega
      exact (hright.trans hactive).trans hstill.symm
  | handled => exact tracks_of_resumes hrest h
  | closingNone hclose hfd => exact tracks_of_resumes hrest h
  | popEmpty hring => exact tracks_of_resumes hrest h
  | gateShut hgate => exact tracks_of_resumes hrest h
  | addRefused hfree hinit => exact tracks_of_resumes hrest h
  | addUnwatched hfree hinit hadd => exact tracks_of_resumes hrest h
  | removeMissing hmissing => exact tracks_of_resumes hrest h
  | cleaned hge => exact tracks_of_resumes hrest h
  | exits hfull => exact tracks_of_resumes hrest h
  | @dequeued fd =>
      have hright : op.status = due op := h
      have hgate : Tracks op ([.gate fd] ++ rest) := hright
      exact hgate.congr rfl rfl rfl
  | _ => exact h

/-- No shutdown is requested, and no tick evicts a client of a `FULL` operator. -/
def KeepsTrack (s : Mailbox H) : MailboxAct H → Prop
  | .requestStore => False
  | .thread _ => Evicts s.op s.code → s.op.status ≠ .full
  | _ => True

instance (s : Mailbox H) : (a : MailboxAct H) → Decidable (KeepsTrack s a)
  | .requestStore => inferInstanceAs (Decidable False)
  | .thread _ => inferInstanceAs (Decidable (_ → _))
  | .push _ | .count | .write | .requestWrite => inferInstanceAs (Decidable True)

theorem tracks_reachable (h : (mailbox H).ReachableBy KeepsTrack s) : Tracks s.op s.code := by
  refine h.invariant (P := fun s => Tracks s.op s.code) ?_ ?_
  · rintro s ⟨hop, hcode, _⟩
    rw [hcode]
    exact ⟨hop.status, hop.activeClients, rfl⟩
  · intro s a t hr hs hok hstep
    cases mailbox_step hstep with
    | @executed i op' w new rest hcode hexec =>
        have hstacked := stacked_reachable hr
        rw [hcode] at hs hstacked
        refine hs.executes (sound_reachable hr) hstacked ?_ hexec
        rw [← hcode]
        exact hok
    | requestStored hfirst => exact absurd hok id
    | _ => exact hs.congr rfl rfl rfl

/--
**The FULL flag tracks the occupancy**, in every run in which no timer tick evicts a
client while the operator is `FULL`.
-/
theorem full_flag_tracks (h : (mailbox H).ReachableBy KeepsTrack s) (hrest : AtRest s.code) :
    (s.op.status = .full ↔ s.op.activeClients = s.op.maxClients) ∧
      (s.op.status = .active ↔ s.op.activeClients ≠ s.op.maxClients) := by
  have hright := (tracks_reachable h).atRest hrest
  have hle := activeClients_le (sound_reachable h)
  rw [hright, due_eq_full, due_eq_active]
  omega

theorem full_flag_tracks_one : ∃ s : Mailbox DbHttp.small, s.code.head? = some .wait ∧
    s.op.activeClients = 1 ∧ s.op.status = .full := by
  have hinit : (mailbox DbHttp.small).ReachableBy KeepsTrack (Mailbox.small 1) :=
    .init ⟨operatorInit_small (by decide), rfl, rfl, rfl⟩
  obtain ⟨t, ht, hfull⟩ := hinit.exists_of_run adoptFirst
    (fun s => s.op.activeClients == 1 && s.op.maxClients == 1 && s.code == [.wait])
    (by decide +kernel)
  simp only [Bool.and_eq_true, beq_iff_eq] at hfull
  obtain ⟨⟨hactive, hmax⟩, hcode⟩ := hfull
  have hrest : AtRest t.code := by
    rw [hcode]
    trivial
  exact ⟨t, by rw [hcode]; rfl, hactive,
    (full_flag_tracks ht hrest).1.mpr (hactive.trans hmax.symm)⟩

/-- A minute later a tick evicts the client, and the operator stays `FULL` with a free slot. -/
theorem full_flag_stuck : ¬∀ (H : DbHttp) (s : Mailbox H), (mailbox H).Reachable s →
    s.request = .notCalled → AtRest s.code →
    (s.op.status = .full ↔ s.op.activeClients = s.op.maxClients) := by
  intro hall
  obtain ⟨t, ht, hstuck⟩ := (small_reachable (n := 1) (by decide)).exists_of_run
    (adoptFirst ++ [.thread (Answers.smooth [timerEvent] 60)] ++ threadSteps 3 60)
    (fun s => s.op.activeClients == 0 && s.op.maxClients == 1 && s.op.status == .full &&
      s.request == .notCalled && s.code == [.events [], .loopActive])
    (by decide +kernel)
  simp only [Bool.and_eq_true, beq_iff_eq] at hstuck
  obtain ⟨⟨⟨⟨hactive, hmax⟩, hstatus⟩, hrequest⟩, hcode⟩ := hstuck
  have hrest : AtRest t.code := by
    rw [hcode]
    trivial
  have hwrong := (hall _ t ht hrequest hrest).mp hstatus
  rw [hactive, hmax] at hwrong
  exact absurd hwrong (by decide)

end DBServer.Proof
