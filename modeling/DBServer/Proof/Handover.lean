import DBServer.Proof.Server

/-!
# To whom a connection is handed

A dispatch reads the worker's status once and an operator's status once, and pushes a
good while later. The scan lets every status but `FULL` pass, and a `worker_run` that
fails at `pthread_create` leaves the worker `ACTIVE`. `Steady` is the condition under
which none of this matters: nobody dead is scanned, nobody dies while the descriptor may
still go to him, and no dispatch runs across or begins after a failed `worker_run`.
-/

namespace DBServer.Proof

open DBServer Lib Operator Server

variable {H : DbHttp} {s t : Server H} {a : ServerAct H} {th : OperatorThread H} {idx : Nat}

/-- An operator that will never pop again. -/
def Dead (status : OperatorStatus) : Prop := status = .shutdown ∨ status = .initFailed

instance (status : OperatorStatus) : Decidable (Dead status) := by unfold Dead; infer_instance

/-- The listener is between its test of the worker's status and the push. -/
def InDispatch : Listening → Prop
  | .testing _ _ | .weighing _ _ | .comparing _ _ _ | .chosen _ _ | .pushing _ _ => True
  | _ => False

instance (l : Listening) : Decidable (InDispatch l) := by
  unfold InDispatch
  cases l <;> infer_instance

/-- The operator has passed the scan's test, and the descriptor may still go to it. -/
def Candidate : Listening → Nat → Prop
  | .testing _ scan, idx => scan.bestLoad ≠ uintMax ∧ idx = scan.bestIdx
  | .weighing _ scan, idx | .comparing _ scan _, idx =>
      idx = scan.idx ∨ scan.bestLoad ≠ uintMax ∧ idx = scan.bestIdx
  | .chosen _ best, idx | .pushing _ best, idx => idx = best
  | _, _ => False

instance (l : Listening) (idx : Nat) : Decidable (Candidate l idx) := by
  unfold Candidate
  cases l <;> infer_instance

/-- What a dispatch relies on at each step. -/
def Steady (s : Server H) : ServerAct H → Prop
  | .listener =>
      match s.listener with
      | .accepted _ => s.worker.status = .active → .returned .failure ∉ s.log
      | .testing _ scan => ∀ th ∈ s.operators[scan.idx]?, ¬Dead th.state.status
      | _ => True
  | .operator idx _ =>
      (s.operators[idx]?.map fun th => (th.code.head?, th.state.status)) =
        some (some (.publish true), .initializing) → ¬Candidate s.listener idx
  | .main _ =>
      match s.main with
      | .undoStore idx upTo =>
          if idx < upTo then ¬Candidate s.listener idx else ¬InDispatch s.listener
      | .destroy (.store idx) _ => ¬Candidate s.listener idx
      | _ => True
  | .requestStore idx => ¬Candidate s.listener idx
  | _ => True

instance (s : Server H) : (a : ServerAct H) → Decidable (Steady s a)
  | .listener => by
      unfold Steady
      exact match s.listener with
        | .accepted _ => inferInstance
        | .testing _ _ => inferInstance
        | .waiting | .weighing _ _ | .comparing _ _ _ | .chosen _ _ | .pushing _ _ | .pushed _
        | .counted _ | .refused _ | .crashed | .stopped => inferInstance
  | .operator _ _ => inferInstanceAs (Decidable (_ → _))
  | .main _ => by
      unfold Steady
      exact match s.main with
        | .undoStore _ _ => inferInstance
        | .destroy (.store _) _ => inferInstance
        | .destroy .inactive _ | .destroy (.write _) _ | .destroy (.join _) _ | .destroy .free _
        | .create _ | .undoWrite _ _ | .undoJoin _ _ | .gate _ | .poll _ _ | .late _ _
        | .returned _ | .total _ _ _ | .waiting _ | .done => inferInstance
  | .requestStore _ => inferInstanceAs (Decidable (¬_))
  | .accept _ | .stop | .tick _ | .requestWrite _ => inferInstanceAs (Decidable True)

/-- No descriptor went to a dead operator, nor to any once `worker_run` had failed. -/
def HandedToLiving (l : List ServerEvent) : Prop :=
  ∀ before fd idx status after, l = before ++ .pushed fd idx status :: after →
    ¬Dead status ∧ .returned .failure ∉ before

/-! ## Candidates -/

/-- A round's outcome names the operator it looked at, or the best one so far. -/
theorem compare_cases {scan scan' : Scan} {maxClients active queued : Nat}
    (h : scan.compare maxClients active queued = .inr scan') :
    scan'.bestIdx = scan.idx ∨ scan'.bestIdx = scan.bestIdx ∧ scan'.bestLoad = scan.bestLoad := by
  unfold Scan.compare at h
  dsimp only at h
  split at h
  · exact absurd h (by simp)
  · split at h
    · exact .inl (congrArg Scan.bestIdx (Sum.inr.inj h)).symm
    · obtain rfl := Sum.inr.inj h
      exact .inr ⟨rfl, rfl⟩

theorem compare_inl {scan : Scan} {maxClients active queued : Nat}
    (h : scan.compare maxClients active queued = .inl idx) : idx = scan.idx := by
  unfold Scan.compare at h
  dsimp only at h
  split at h
  · exact (Sum.inl.inj h).symm
  · split at h <;> exact absurd h (by simp)

/-- Only the scan's status test makes a candidate. -/
theorem ListenerMove.candidate {l l' : Listening} (h : ListenerMove s l l')
    (hcand : Candidate l' idx) : Candidate l idx ∨ ∃ fd scan, l = .testing fd scan ∧
      idx = scan.idx := by
  cases h with
  | admitted hactive => exact absurd rfl hcand.1
  | rejected hactive => exact absurd hcand id
  | best hnone hresult =>
      unfold Scan.result at hresult
      split at hresult
      · exact absurd hresult (by simp)
      · exact .inl ⟨‹_›, hcand.trans (Option.some.inj hresult).symm⟩
  | noCandidate hnone hresult => exact absurd hcand id
  | skipped hth hfull => exact .inl hcand
  | tested hth hfull =>
      rcases hcand with rfl | hbest
      · exact .inr ⟨_, _, rfl, rfl⟩
      · exact .inl hbest
  | weighed hth => exact .inl hcand
  | blind hth hcompare => exact .inl (.inl (hcand.trans (compare_inl hcompare)))
  | healthy hth hok => exact .inl hcand
  | unhealthy hth hok => exact absurd hcand id
  | ringFull hth hfull => exact absurd hcand id
  | crashed htarget hnone => exact absurd hcand id

/-- No candidate is dead. -/
def Living (s : Server H) : Prop :=
  ∀ (j : Nat) (th : OperatorThread H), Candidate s.listener j → s.operators[j]? = some th →
    ¬Dead th.state.status

theorem Living.step (hs : Living s) (hstores : ∀ (j : Nat) (th : OperatorThread H),
    s.operators[j]? = some th → StoresServing th.code) (hok : Steady s a)
    (h : ServerStep s a t) : Living t := by
  intro j th hcand hth
  -- a change to one operator that leaves its status alone
  have hupdate : ∀ {idx : Nat} (f : Operator H → Operator H), (∀ op, (f op).status = op.status) →
      Candidate s.listener j → (s.update idx f).operators[j]? = some th →
      ¬Dead th.state.status := by
    intro idx f hf hcand hget
    rcases update_cases hget with ⟨rfl, th₀, hsome, rfl⟩ | ⟨_, hsome⟩
    · dsimp only
      rw [hf]
      exact hs j th₀ hcand hsome
    · exact hs j th hcand hsome
  -- a shutdown request to an operator that is no candidate
  have hrequest : ∀ {idx : Nat}, ¬Candidate s.listener idx → Candidate s.listener j →
      (s.update idx shutdownRequested).operators[j]? = some th → ¬Dead th.state.status := by
    intro idx hnot hcand hget
    rcases update_cases hget with ⟨rfl, _⟩ | ⟨_, hsome⟩
    · exact absurd hcand hnot
    · exact hs j th hcand hsome
  cases h with
  | accepted hl hfd hfresh => exact absurd hcand id
  | listens hmove =>
      rcases hmove.candidate hcand with hcand | ⟨fd, scan, hl, rfl⟩
      · exact hs j th hcand hth
      · unfold Steady at hok
        simp only [hl] at hok
        exact hok th hth
  | compared hl hsome hcompare =>
      have hget : s.operators[j]? = some th := by split at hth <;> exact hth
      refine hs j th ?_ hget
      rw [hl]
      obtain ⟨hload, hidx⟩ := hcand
      rcases compare_cases hcompare with hbest | ⟨hbest, hsame⟩
      · exact .inl (hidx.trans hbest)
      · exact .inr ⟨hsame ▸ hload, hidx.trans hbest⟩
  | pushed hl hsome hroom => exact absurd hcand id
  | counted hl hsome => exact absurd hcand id
  | woken hl hsome => exact absurd hcand id
  | refused hl => exact absurd hcand id
  | listenerStops hl => exact absurd hcand id
  | @executed idx w th₀ i op' new rest hsome hcode hexec =>
      rcases setThread_cases hsome hth with ⟨rfl, rfl⟩ | ⟨_, hget⟩
      · have hold := hs j th₀ hcand hsome
        have hchange := hexec.statusChange
        dsimp only
        generalize op'.status = st at hchange
        cases hchange with
        | same => exact hold
        | @published b hinit =>
            cases b with
            | false => simp [Dead]
            | true =>
                refine absurd hcand (hok ?_)
                simp only [hsome, Option.map_some, hcode, List.head?_cons, hinit]
        | stored =>
            rcases hstores j th₀ hsome st (by rw [hcode]; exact .head _) with rfl | rfl
            · simp [Dead]
            · simp [Dead]
      · exact hs j th hcand hget
  | moves hmove => exact hs j th hcand hth
  | allCreated hm hnone => exact hs j th hcand hth
  | @created idx th₀ hm hsome =>
      rcases setThread_cases hsome hth with ⟨rfl, rfl⟩ | ⟨_, hget⟩
      · exact hs j th₀ hcand hsome
      · exact hs j th hcand hget
  | @touches created idx f m htouch =>
      unfold Steady at hok
      dsimp only at hok
      generalize s.main = m₀ at htouch hok
      cases htouch with
      | undoStore hlt => exact hrequest (by simpa only [hlt, if_true] using hok) hcand hth
      | undoWrite => exact hupdate wake (fun _ => rfl) hcand hth
      | store => exact hrequest hok hcand hth
      | write => exact hupdate wake (fun _ => rfl) hcand hth
  | inactive hm => exact hs j th hcand hth
  | freed hm => exact absurd hth (by simp [Server.operators, Server.freed, note, goTo])
  | givenUp hm => exact absurd hth (by simp [Server.operators, Server.freed, note, goTo, runReturns])
  | ticked => exact hs j th hcand hth
  | requestStored => exact hrequest hok hcand hth
  | requestWritten => exact hupdate wake (fun _ => rfl) hcand hth

/-! ## After a failure -/

/-- Behind a failed `worker_run` there is no operator, or no dispatch. -/
def Over (s : Server H) : Prop :=
  .returned .failure ∈ s.log → s.operators = [] ∨ ¬InDispatch s.listener

theorem ListenerMove.inDispatch {l l' : Listening} (h : ListenerMove s l l')
    (hin : InDispatch l') : InDispatch l ∨ (∃ fd, l = .accepted fd) ∧ s.worker.status = .active := by
  cases h with
  | admitted hactive => exact .inr ⟨⟨_, rfl⟩, hactive⟩
  | rejected hactive => exact absurd hin id
  | noCandidate hnone hresult => exact absurd hin id
  | unhealthy hth hok => exact absurd hin id
  | ringFull hth hfull => exact absurd hin id
  | crashed htarget hnone => exact absurd hin id
  | _ => exact .inl trivial

theorem MainMove.returned {m m' : Running} {es : List ServerEvent} (h : MainMove s m m' es)
    (hmem : .returned .failure ∈ es) : ∃ idx upTo, m = .undoStore idx upTo ∧ upTo ≤ idx := by
  cases h with
  | undone hle => exact ⟨_, _, rfl, hle⟩
  | opened hnone => exact absurd hmem (by simp)
  | _ => exact absurd hmem (by simp)

theorem Over.step (hs : Over s) (hok : Steady s a) (h : ServerStep s a t) : Over t := by
  intro hmem
  -- behind the failure no dispatch is under way, and no step but the listener's begins one
  have hkeep : .returned .failure ∈ s.log → (InDispatch t.listener → InDispatch s.listener) →
      t.operators = [] ∨ ¬InDispatch t.listener := by
    intro hfailed hin
    rcases hs hfailed with hnil | hnot
    · exact .inl (h.operators_nil hnil)
    · exact .inr fun hdispatch => hnot (hin hdispatch)
  cases h with
  | accepted hl hfd hfresh => exact .inr id
  | @listens l hmove =>
      refine hkeep hmem fun hin => ?_
      rcases hmove.inDispatch hin with hdispatch | ⟨⟨fd, hl⟩, hactive⟩
      · exact hdispatch
      · -- no dispatch begins behind the failure
        unfold Steady at hok
        simp only [hl] at hok
        exact absurd hmem (hok hactive)
  | compared hl hth hcompare => exact hkeep hmem fun _ => by rw [hl]; trivial
  | pushed hl hth hroom => exact .inr id
  | counted hl hth => exact .inr id
  | woken hl hth => exact .inr id
  | refused hl => exact .inr id
  | listenerStops hl => exact .inr id
  | executed hth hcode hexec =>
      rcases List.mem_append.mp hmem with hmem | hshown
      · exact hkeep hmem id
      · rcases mem_shown hshown with ⟨b, heq⟩ | ⟨fd, heq⟩
        · exact ServerEvent.noConfusion heq
        · exact ServerEvent.noConfusion heq
  | moves hmove =>
      rcases List.mem_append.mp hmem with hmem | hmem
      · exact hkeep hmem id
      · -- `worker_run` fails now, with no dispatch under way
        obtain ⟨idx, upTo, hm, hle⟩ := hmove.returned hmem
        unfold Steady at hok
        simp only [hm, if_neg (Nat.not_lt.mpr hle)] at hok
        exact .inr hok
  | givenUp hm => exact .inl rfl
  | freed hm => exact .inl rfl
  | requestStored => exact hkeep (by simpa [note, update] using hmem) id
  | _ => exact hkeep hmem id

/-! ## The log -/

theorem HandedToLiving.append {l es : List ServerEvent} (h : HandedToLiving l)
    (hes : ∀ fd idx status, .pushed fd idx status ∈ es →
      ¬Dead status ∧ .returned .failure ∉ l ∧ es = [.pushed fd idx status]) :
    HandedToLiving (l ++ es) := by
  intro before fd idx status after heq
  rcases List.append_eq_append_iff.mp heq with ⟨mid, rfl, hrest⟩ | ⟨mid, rfl, hrest⟩
  · -- the push is a new event, and the only one
    obtain ⟨hliving, hnot, hone⟩ := hes fd idx status (by simp [hrest])
    rw [hrest] at hone
    obtain ⟨rfl, _⟩ := List.append_eq_singleton_iff.mp hone |>.resolve_right (by simp)
    exact ⟨hliving, by simpa using hnot⟩
  · cases mid with
    | nil =>
        obtain ⟨hliving, hnot, _⟩ := hes fd idx status (by simp at hrest; simp [← hrest])
        exact ⟨hliving, by simpa using hnot⟩
    | cons e mid =>
        obtain ⟨rfl, _⟩ := List.cons.inj hrest
        exact h before fd idx status mid rfl

/-- Only the listener's push shows a push. -/
theorem ServerStep.pushes (h : ServerStep s a t) : ∃ es, t.log = s.log ++ es ∧
    ∀ fd idx status, .pushed fd idx status ∈ es → es = [.pushed fd idx status] ∧
      s.listener = .pushing fd idx ∧ ∃ th, s.operators[idx]? = some th ∧
        th.state.status = status := by
  cases h with
  | accepted hl hfd hfresh => exact ⟨_, rfl, by simp⟩
  | @pushed fd idx th hl hth hroom =>
      refine ⟨_, rfl, ?_⟩
      intro fd' idx' status' hmem
      obtain ⟨rfl, rfl, rfl⟩ := ServerEvent.pushed.inj (List.mem_singleton.mp hmem)
      exact ⟨rfl, hl, th, hth, rfl⟩
  | refused hl => exact ⟨_, rfl, by simp⟩
  | executed hth hcode hexec =>
      refine ⟨_, rfl, ?_⟩
      intro fd idx status hmem
      rcases mem_shown hmem with ⟨b, heq⟩ | ⟨fd', heq⟩
      · exact ServerEvent.noConfusion heq
      · exact ServerEvent.noConfusion heq
  | @moves created m es hmove =>
      refine ⟨es, rfl, ?_⟩
      intro fd idx status hmem
      generalize s.main = m₀ at hmove
      cases hmove <;> exact absurd hmem (by simp)
  | freed hm => exact ⟨_, rfl, by simp⟩
  | givenUp hm => exact ⟨_, List.append_assoc .., by simp⟩
  | requestStored => exact ⟨_, rfl, by simp⟩
  | _ => exact ⟨[], (List.append_nil _).symm, by simp⟩

/-- Everything about a run in one. -/
structure Handed (s : Server H) : Prop where
  living : Living s
  ending : Over s
  log : HandedToLiving s.log

theorem handed_reachable (h : (server H).ReachableBy Steady s) : Handed s := by
  refine h.invariant ?_ ?_
  · intro s hs
    refine ⟨?_, ?_, ?_⟩
    · intro j th hcand
      rw [hs.listener] at hcand
      exact absurd hcand id
    · intro hmem
      rw [hs.log] at hmem
      exact absurd hmem (by simp)
    · intro before fd idx status after heq
      rw [hs.log] at heq
      exact absurd heq (by simp)
  · intro s a t hr hs hok hstep
    have h := server_step hstep
    have hstores : ∀ (j : Nat) (th : OperatorThread H), s.operators[j]? = some th →
        StoresServing th.code := fun j th hth => storesServing_reachable hr hth
    refine ⟨hs.living.step hstores hok h, hs.ending.step hok h, ?_⟩
    obtain ⟨es, hlog, hes⟩ := h.pushes
    rw [hlog]
    refine hs.log.append fun fd idx status hmem => ?_
    obtain ⟨hone, hl, th, hth, rfl⟩ := hes fd idx status hmem
    refine ⟨?_, ?_, hone⟩
    · refine hs.living idx th ?_ hth
      rw [hl]
      rfl
    · intro hfailed
      rcases hs.ending hfailed with hnil | hnot
      · rw [hnil] at hth
        exact absurd hth (by simp)
      · refine hnot ?_
        rw [hl]
        trivial

/--
**As long as dispatches run steadily, no connection is handed to a dead operator, nor to
any operator after `worker_run` has failed.**
-/
theorem handed_to_living (h : (server H).ReachableBy Steady s) : HandedToLiving s.log :=
  (handed_reachable h).log

/-- A dispatch while the operator still initializes. -/
theorem handed_to_living_one : ∃ s : Server DbHttp.small,
    s.log = [.accepted 7, .pushed 7 0 .initializing] ∧ HandedToLiving s.log := by
  have hinit : (server DbHttp.small).ReachableBy Steady (Server.small 1) :=
    .init (serverInit_small (.inl rfl))
  obtain ⟨t, ht, hpushed⟩ := hinit.exists_of_run (creates 1 ++ [.accept 7] ++ listens 9)
    (fun s => s.log == [.accepted 7, .pushed 7 0 .initializing]) (by decide +kernel)
  exact ⟨t, beq_iff_eq.mp hpushed, handed_to_living ht⟩

/--
`pthread_create` fails for the second operator: the first is shut down and joined,
`worker_run` returns, and the next connection goes to it all the same.
-/
theorem not_handed_to_living : ¬∀ (H : DbHttp) (s : Server H), (server H).Reachable s →
    s.listener = .waiting → HandedToLiving s.log := by
  intro hall
  have hinit : (server DbHttp.small).Reachable (Server.small 2) :=
    .init (serverInit_small (.inr rfl))
  obtain ⟨t, ht, hpushed⟩ := hinit.exists_of_run
    ([.main true, .main false] ++ List.replicate 2 (.main true) ++ operates 0 2 [] ++
      List.replicate 2 (.main true) ++ [.accept 20] ++ listens 12)
    (fun s => s.listener == .waiting &&
      s.log == [.createFailed 1, .returned .failure, .accepted 20, .pushed 20 0 .shutdown])
    (by decide +kernel)
  simp only [Bool.and_eq_true, beq_iff_eq] at hpushed
  obtain ⟨hl, hlog⟩ := hpushed
  have hhanded := hall _ t ht hl [.createFailed 1, .returned .failure, .accepted 20] 20 0
    .shutdown [] hlog
  exact hhanded.1 (.inl rfl)

end DBServer.Proof
