import DBServer.Proof.Handling
import DBServer.Proof.Serialize

/-!
# The Connection header tells the truth

The policy of a connection is set in three places, printed by two serializers, and
acted on by `client_handle` or, if the answer was parked, by `response_writer_resume`.
A `Turn` is one such exchange with a client. `Course` lists where a turn can stand: what
it has said so far and what its verdict is, or will be once the last byte is out. Both
functions take it only from one place of the list to another, and at the end of a turn
the header and the verdict are read off together.
-/

namespace DBServer.Proof

open DBServer Lib

variable {H : DbHttp} {E : Env} {c₀ d₀ c c' d : Conn H} {resp : Bytes} {fuel threadId : Nat}
  {rc : Status} {start : Start}

/-! ## One turn -/

/-- `client_handle`, and then `response_writer_resume` for as long as the answer is parked. -/
inductive Turn (E : Env) (threadId : Nat) (c₀ : Conn H) : Option Status × Conn H → Prop where
  | handled (fuel : Nat) : Turn E threadId c₀ (clientHandle E fuel threadId c₀)
  | resumed {c : Conn H} (fuel : Nat) : Turn E threadId c₀ (some .success, c) →
      c.cli.draining = true → Turn E threadId c₀ (responseWriterResume E fuel c)

/--
The turn has answered with `resp`, and the last byte of it is out: it was handed to the
socket whole, nothing of it is parked, and no write, wait for room or re-arm has failed.
An archive is streamed instead, and is whatever the socket took behind its head.
-/
structure CompletelySent (c₀ c : Conn H) (resp : Bytes) : Prop where
  handed : ∃ l, c.log = c₀.log ++ l ∧ (.respond resp ∈ l ∨
    (.zipBegin true ∈ l ∧ c.wire = c₀.wire ++ resp ∧
      ∃ h : FolderZip, zipHead (zipTotal h.entries) h.archiveName <+: resp))
  unparked : c.cli.draining = false
  faultless : c.faults = c₀.faults

/-! ## Where a turn can stand -/

/-- Nothing has been answered yet. -/
structure Unanswered (c₀ c : Conn H) : Prop where
  log : ∃ l, c.log = c₀.log ++ l ∧ (∀ bs, .respond bs ∉ l) ∧ .zipBegin true ∉ l
  draining : c.cli.draining = false
  faults : c.faults = c₀.faults

/-- Every answer since `c₀` says `word`, and none was an archive. -/
def Told (c₀ c : Conn H) (word : String) : Prop :=
  ∃ l, c.log = c₀.log ++ l ∧ (∀ bs, .respond bs ∈ l → Says word bs) ∧ .zipBegin true ∉ l

/-- An empty buffer and a cleared parser. -/
structure Ready (c : Conn H) : Prop where
  bufIdx : c.cli.bufIdx = 0
  parser : ∃ p, c.cli.httpParser = some (H.clear p)

/-- Where a turn stands: what it has said, and its verdict. -/
inductive Course (c₀ : Conn H) : Option Status × Conn H → Prop where
  | running {c : Conn H} : Course c₀ (none, c)
  | unanswered {c : Conn H} {rc : Status} : Unanswered c₀ c → Course c₀ (some rc, c)
  | faulted {c : Conn H} {rc : Status} : c₀.faults < c.faults → Course c₀ (some rc, c)
  /-- The answer is parked, and the verdict will be what it says. -/
  | awaiting {c : Conn H} {rc : Status} : Told c₀ c (policyWord H c.cli.connectionPolicy) →
      c.cli.draining = true → c.faults = c₀.faults →
      (c.cli.connectionPolicy = H.close ∨ (c.cli.connectionPolicy = H.keepAlive ∧ Ready c)) →
      Course c₀ (some rc, c)
  | dropped {c : Conn H} : Told c₀ c "close" → Course c₀ (some .failure, c)
  | kept {c : Conn H} : Told c₀ c "keep-alive" → Ready c → c.cli.draining = false →
      Course c₀ (some .success, c)
  | archived {c : Conn H} : (∃ l, c.log = c₀.log ++ l ∧ ∀ bs, .respond bs ∉ l) →
      c.cli.draining = false → Course c₀ (some .failure, c)

theorem Told.congr {word : String} (h : Told c₀ c word) (hlog : c'.log = c.log) :
    Told c₀ c' word := by
  obtain ⟨l, hl, hrest⟩ := h
  exact ⟨l, hlog.trans hl, hrest⟩

theorem Unanswered.congr (h : Unanswered c₀ c) (hlog : c'.log = c.log)
    (hd : c'.cli.draining = c.cli.draining) (hf : c'.faults = c.faults) : Unanswered c₀ c' := by
  obtain ⟨l, hl, hrest⟩ := h.log
  exact ⟨⟨l, hlog.trans hl, hrest⟩, hd.trans h.draining, hf.trans h.faults⟩

/-- One more call that is no answer. -/
theorem Unanswered.call (h : Unanswered c₀ c) {e : Call} (he : ∀ bs, e ≠ .respond bs)
    (hzip : e ≠ .zipBegin true) : Unanswered c₀ (c.call e) := by
  obtain ⟨l, hl, hresp, hbegin⟩ := h.log
  refine ⟨⟨l ++ [e], ?_, ?_, ?_⟩, h.draining, h.faults⟩
  · show c.log ++ [e] = _
    rw [hl, List.append_assoc]
  · intro bs hmem
    rcases List.mem_append.mp hmem with hmem | hmem
    · exact hresp bs hmem
    · exact he bs (List.mem_singleton.mp hmem).symm
  · intro hmem
    rcases List.mem_append.mp hmem with hmem | hmem
    · exact hbegin hmem
    · exact hzip (List.mem_singleton.mp hmem).symm

/-- The first answer of the turn. -/
theorem Unanswered.told {word : String} (h : Unanswered c₀ c) (hsay : Says word resp)
    (hlog : c'.log = c.log ++ [.respond resp]) : Told c₀ c' word := by
  obtain ⟨l, hl, hresp, hbegin⟩ := h.log
  refine ⟨l ++ [.respond resp], ?_, ?_, ?_⟩
  · rw [hlog, hl, List.append_assoc]
  · intro bs hmem
    rcases List.mem_append.mp hmem with hmem | hmem
    · exact absurd hmem (hresp bs)
    · obtain rfl := Call.respond.inj (List.mem_singleton.mp hmem)
      exact hsay
  · intro hmem
    rcases List.mem_append.mp hmem with hmem | hmem
    · exact hbegin hmem
    · exact absurd (List.mem_singleton.mp hmem) (by simp)

/-- What lies behind an answer says nothing more. -/
theorem Told.beyond {word : String} (h : Told c₀ d word) (hb : Beyond d c') : Told c₀ c' word := by
  obtain ⟨l, hl, hresp, hbegin⟩ := h
  rcases hb.log with hlog | hlog
  · exact ⟨l, hlog.trans hl, hresp, hbegin⟩
  · refine ⟨l ++ [.abort], ?_, ?_, ?_⟩
    · rw [hlog, hl, List.append_assoc]
    · intro bs hmem
      rcases List.mem_append.mp hmem with hmem | hmem
      · exact hresp bs hmem
      · exact absurd (List.mem_singleton.mp hmem) (by simp)
    · intro hmem
      rcases List.mem_append.mp hmem with hmem | hmem
      · exact hbegin hmem
      · exact absurd (List.mem_singleton.mp hmem) (by simp)

/-! ## An answer is started -/

/-- How a starting call comes back: with no answer, with a failed one, or with a promise kept. -/
inductive Issued (start : Start) (c₀ d₀ d : Conn H) : Status → Prop where
  | refused : Unanswered c₀ d → Issued start c₀ d₀ d .failure
  | failed : c₀.faults < d.faults → Issued start c₀ d₀ d .failure
  | out : Told c₀ d (policyWord H d.cli.connectionPolicy) → d.faults = c₀.faults →
      d.cli.httpParser = d₀.cli.httpParser →
      (d.cli.connectionPolicy = d₀.cli.connectionPolicy ∨ d.cli.connectionPolicy = H.close) →
      ((∃ status, start = .error status) → d.cli.connectionPolicy = H.close) →
      Issued start c₀ d₀ d .success

theorem Start.issued (h : Unanswered c₀ d₀) (hcall : start.call E fuel d₀ = (some rc, d)) :
    Issued start c₀ d₀ d rc := by
  rcases Start.announces E start d₀ with ⟨c', hl, hsplit⟩ | ⟨c', n, ha⟩
  · rw [hsplit] at hcall
    obtain ⟨hrc, rfl⟩ := Prod.mk.inj hcall
    obtain rfl := Option.some.inj hrc
    obtain ⟨b, p, hcli⟩ := hl.cli
    exact .refused (h.congr hl.log (by rw [hcli]) hl.faults)
  · rw [ha.call] at hcall
    have hlog := startSend_log E fuel n c'
    have hframe := trySend_frame E n fuel (started n c')
    have hsent := trySend_mask E n fuel (started n c') hcall
    have hd : startSend E fuel n c' = (some rc, d) := hcall
    rw [hd] at hlog
    have hframe' : SendFrame (started n c') d := by
      have hres : (trySend E n fuel (started n c')).2 = d := congrArg Prod.snd hd
      exact hres ▸ hframe
    obtain ⟨a, dr, o, l, hcli⟩ := hframe'.cli
    obtain ⟨b, p, hcli'⟩ := ha.laidOut.cli
    have hpolicy : d.cli.connectionPolicy = c'.cli.connectionPolicy := by rw [hcli]; rfl
    have hparser : d.cli.httpParser = d₀.cli.httpParser := by
      rw [hcli]
      show c'.cli.httpParser = _
      rw [hcli']
    rcases hsent with ⟨rfl, hf, _⟩ | ⟨rfl, hf, _⟩
    · refine .out ?_ (hf.trans (ha.laidOut.faults.trans h.faults)) hparser ?_ ?_
      · rw [hpolicy]
        exact h.told ha.message (by rw [hlog, ha.laidOut.log])
      · rw [hpolicy]
        exact ha.policy
      · rw [hpolicy]
        exact ha.error
    · refine .failed ?_
      have hstart : (started n c').faults = c₀.faults := ha.laidOut.faults.trans h.faults
      omega

/-! ## `client_handle` -/

/-- The client at work: nothing said yet, and a parser to go on with. -/
def Silent (c₀ c : Conn H) : Prop := Unanswered c₀ c ∧ c.cli.httpParser.isSome

theorem working_silent (E : Env) (c₀ : Conn H) : Working E fun c : Conn H => Silent c₀ c where
  next _ h := ⟨h.1.congr rfl rfl rfl, h.2⟩
  call _ _ he hzip h := ⟨h.1.call he hzip, h.2⟩
  receive _ _ _ h := ⟨h.1.congr rfl rfl rfl, h.2⟩
  parser _ _ h := ⟨h.1.congr rfl rfl rfl, rfl⟩
  touched _ _ h := ⟨h.1.congr rfl rfl rfl, h.2⟩
  client _ _ _ _ h := ⟨h.1.congr rfl rfl rfl, h.2⟩

/-- Behind an answer that ends the connection, whether it is out, parked or lost. -/
theorem Issued.afterAnswer (h : Issued start c₀ d₀ d rc) (hpart : Parting start d₀)
    (hb : Beyond d c) : Course c₀ (some (afterAnswer c).1, (afterAnswer c).2) := by
  obtain ⟨b, hcli⟩ := hb.cli
  have hdrain : c.cli.draining = d.cli.draining := by rw [hcli]
  have hpolicy : c.cli.connectionPolicy = d.cli.connectionPolicy := by rw [hcli]
  unfold DBServer.afterAnswer
  cases h with
  | refused hd =>
      rw [if_neg (by simp [hdrain, hd.draining])]
      obtain ⟨l, hl, hresp, hbegin⟩ := hd.log
      -- no answer was printed, so there is nothing to contradict
      have htold : Told c₀ d "close" := ⟨l, hl, fun bs hbs => absurd hbs (hresp bs), hbegin⟩
      exact .dropped ((htold.beyond hb).congr rfl)
  | failed hf =>
      have hfault : c₀.faults < c.faults := hb.faults ▸ hf
      split
      · exact .faulted hfault
      · exact .faulted hfault
  | out htold hf hparser hkept herror =>
      have hclose : d.cli.connectionPolicy = H.close := by
        rcases hpart with hstart | hold
        · exact herror hstart
        · rcases hkept with hsame | hclose
          · exact hsame.trans hold
          · exact hclose
      split
      · rename_i hparked
        refine .awaiting ?_ hparked (hb.faults.trans hf) (.inl (hpolicy.trans hclose))
        rw [hpolicy]
        exact htold.beyond hb
      · rw [hclose, policyWord_close] at htold
        exact .dropped ((htold.beyond hb).congr rfl)

/-- Behind the answer to a request that was stored and dispatched. -/
theorem Issued.afterDispatch (h : Issued start c₀ d₀ d rc) (hparser : d₀.cli.httpParser.isSome)
    (hpolicy : d₀.cli.connectionPolicy = H.keepAlive ∨ d₀.cli.connectionPolicy = H.close) :
    Course c₀ (some (afterDispatch rc d).1, (afterDispatch rc d).2) := by
  unfold DBServer.afterDispatch
  cases h with
  | refused hd => exact .unanswered (hd.congr rfl hd.draining.symm rfl)
  | failed hf => exact .faulted hf
  | out htold hf hsame hkept herror =>
      obtain ⟨p, hp⟩ := Option.isSome_iff_exists.mp (hsame ▸ hparser)
      have hready : d.cli.connectionPolicy = H.close ∨ d.cli.connectionPolicy = H.keepAlive := by
        rcases hkept with hold | hclose
        · exact (hold ▸ hpolicy).symm
        · exact .inl hclose
      dsimp only
      rw [if_neg (by simp)]
      split
      · rename_i hparked
        refine .awaiting htold hparked hf (hready.imp id fun hkeep => ⟨hkeep, rfl, p, ?_⟩)
        show d.cli.httpParser.map H.clear = _
        rw [hp]
        rfl
      · rename_i hfree
        split
        · rename_i hclose
          have hclose' : d.cli.connectionPolicy = H.close := hclose
          rw [hclose', policyWord_close] at htold
          exact .dropped htold
        · rename_i hclose
          have hkeep : d.cli.connectionPolicy = H.keepAlive := hready.resolve_left hclose
          rw [hkeep, policyWord_keepAlive] at htold
          refine .kept htold ⟨rfl, p, ?_⟩ (Bool.eq_false_of_not_eq_true hfree)
          show d.cli.httpParser.map H.clear = _
          rw [hp]
          rfl

/-- An archive goes out whole or not at all, and ends the connection. -/
theorem Silent.streamed {h : FolderZip} (hd₀ : Silent c₀ d₀)
    (hs : zipStream E fuel h (d₀.call (.zipBegin true)).next = (some rc, d)) :
    Course c₀ (some (afterAnswer (d.call .zipRelease)).1, (afterAnswer (d.call .zipRelease)).2) := by
  obtain ⟨l, hl, hresp, _⟩ := hd₀.1.log
  have hclosed : StreamClosed fun c : Conn H =>
      (∃ l, c.log = c₀.log ++ l ∧ ∀ bs, .respond bs ∉ l) ∧ c.cli.draining = false := by
    refine ⟨fun _ h => h, fun _ _ h => h, fun _ _ h => h, ?_⟩
    rintro c e he ⟨⟨l, hl, hresp⟩, hd⟩
    refine ⟨⟨l ++ [e], ?_, ?_⟩, hd⟩
    · show c.log ++ [e] = _
      rw [hl, List.append_assoc]
    · intro bs hmem
      rcases List.mem_append.mp hmem with hmem | hmem
      · exact hresp bs hmem
      · exact he bs (List.mem_singleton.mp hmem).symm
  have hstart := hclosed.next _ (hclosed.call d₀ (.zipBegin true) (by simp)
    ⟨⟨l, hl, hresp⟩, hd₀.1.draining⟩)
  have hend := hclosed.zipStream E fuel h _ hstart
  rw [hs] at hend
  obtain ⟨hlog, hdrain⟩ := hclosed.call d .zipRelease (by simp) hend
  unfold afterAnswer
  rw [if_neg (by simp [hdrain])]
  exact .archived hlog rfl

theorem Handled.course {o : Option Exit × Conn H}
    (hpolicies : ∀ policy, PolicyReported H policy → policy = H.keepAlive ∨ policy = H.close)
    (h : Handled E (fun c : Conn H => Silent c₀ c) o) (ho : o = (some (.returned rc), d)) :
    Course c₀ (some rc, d) := by
  cases h with
  | running => exact absurd ho (by simp)
  | waiting hd =>
      obtain ⟨hrc, rfl⟩ := Prod.mk.inj ho
      exact .unanswered hd.1
  | silent hd =>
      obtain ⟨hrc, rfl⟩ := Prod.mk.inj ho
      exact .unanswered hd.1
  | silentReset hd =>
      obtain ⟨hrc, rfl⟩ := Prod.mk.inj ho
      exact .unanswered (hd.1.congr rfl hd.1.draining.symm rfl)
  | dispatched hd₀ hreported hcall =>
      obtain ⟨hrc, rfl⟩ := Prod.mk.inj ho
      obtain rfl := Exit.returned.inj (Option.some.inj hrc)
      exact (Start.issued hd₀.1 hcall).afterDispatch hd₀.2 (hpolicies _ hreported)
  | unanswered hd =>
      obtain ⟨hrc, rfl⟩ := Prod.mk.inj ho
      obtain rfl := Exit.returned.inj (Option.some.inj hrc)
      unfold afterAnswer
      rw [if_neg (by simp [hd.1.draining])]
      exact .unanswered (hd.1.congr rfl hd.1.draining.symm rfl)
  | answered hd₀ hpart hcall hb =>
      obtain ⟨hrc, rfl⟩ := Prod.mk.inj ho
      obtain rfl := Exit.returned.inj (Option.some.inj hrc)
      exact (Start.issued hd₀.1 hcall).afterAnswer hpart hb
  | streamed hd₀ hs =>
      obtain ⟨hrc, rfl⟩ := Prod.mk.inj ho
      obtain rfl := Exit.returned.inj (Option.some.inj hrc)
      exact hd₀.streamed hs
  | atDrain => exact absurd ho (by simp)

theorem clientHandle_course (hd : c₀.cli.draining = false)
    (hpolicies : ∀ policy, PolicyReported H policy → policy = H.keepAlive ∨ policy = H.close)
    (fuel : Nat) : Course c₀ (clientHandle E fuel threadId c₀) := by
  have hquiet : Unanswered c₀ c₀ := ⟨⟨[], (List.append_nil _).symm, by simp, by simp⟩, hd, rfl⟩
  cases hparser : c₀.cli.httpParser with
  | none =>
      rw [clientHandle, if_pos (.inl (by rw [hparser]; rfl))]
      exact .unanswered hquiet
  | some p =>
      have hhandled := (working_silent E c₀).clientHandle
        (fun _ _ h => ⟨h.1.congr rfl rfl rfl, h.2⟩) fuel threadId
        ⟨hquiet, by rw [hparser]; rfl⟩
      rcases hs : clientHandle E fuel threadId c₀ with ⟨_ | rc, d⟩
      · exact .running
      · rw [hs] at hhandled
        exact hhandled.course hpolicies rfl

/-! ## `response_writer_resume` -/

/-- A resume never takes a fault back. -/
theorem responseWriterResume_faults (h : responseWriterResume E fuel c = (some rc, d)) :
    c.faults ≤ d.faults := by
  unfold responseWriterResume at h
  split at h
  · obtain rfl := (Prod.mk.inj h).2
    exact Nat.le_refl _
  · obtain ⟨rc', c', hsend, hrest⟩ := andThen_eq_some.mp h
    have hle : c.faults ≤ c'.faults := by
      rcases trySend_mask E _ fuel c hsend with ⟨_, hf, _⟩ | ⟨_, hf, _⟩
      · omega
      · omega
    cases rc' with
    | failure =>
        obtain rfl := (Prod.mk.inj hrest).2
        exact hle
    | success =>
        rw [resumeRest] at hrest
        split at hrest
        · obtain rfl := (Prod.mk.inj hrest).2
          exact hle
        · obtain rfl := (Prod.mk.inj hrest).2
          unfold resumeDone
          split
          · exact hle
          · exact Nat.le_succ_of_le hle

/-- The parked answer is picked up, and what it said comes true. -/
theorem responseWriterResume_course (htold : Told c₀ c (policyWord H c.cli.connectionPolicy))
    (hd : c.cli.draining = true) (hf : c.faults = c₀.faults)
    (hready : c.cli.connectionPolicy = H.close ∨
      (c.cli.connectionPolicy = H.keepAlive ∧ Ready c)) :
    Course c₀ (responseWriterResume E fuel c) := by
  unfold responseWriterResume
  split
  · exact .awaiting htold hd hf hready
  · rcases hs : trySend E c.cli.sendLen fuel c with ⟨_ | rc, d⟩
    · exact .running
    · have hframe := trySend_frame E c.cli.sendLen fuel c
      rw [hs] at hframe
      obtain ⟨a, dr, o, l, hcli⟩ := hframe.cli
      have hpolicy : d.cli.connectionPolicy = c.cli.connectionPolicy := hframe.policy
      have htold' : Told c₀ d (policyWord H d.cli.connectionPolicy) := by
        rw [hpolicy]
        exact htold.congr hframe.log
      -- a send touches neither the policy nor what the next request finds
      have hready' : d.cli.connectionPolicy = H.close ∨
          (d.cli.connectionPolicy = H.keepAlive ∧ Ready d) := by
        rw [hpolicy]
        refine hready.imp id fun h => ⟨h.1, ?_, ?_⟩
        · rw [hcli]
          exact h.2.bufIdx
        · rw [hcli]
          exact h.2.parser
      rcases trySend_mask E _ fuel c hs with ⟨rfl, hfd, _⟩ | ⟨rfl, hfd, _⟩
      · rw [andThen_some, resumeRest]
        split
        · rename_i hparked
          exact .awaiting htold' hparked (hfd.trans hf) hready'
        · rename_i hparked
          have hfree : d.cli.draining = false := Bool.eq_false_of_not_eq_true hparked
          unfold resumeDone
          split
          · -- the last byte is out and the descriptor is armed for the next request
            rcases hready' with hclose | ⟨hkeep, hready'⟩
            · rw [if_pos hclose]
              rw [hclose, policyWord_close] at htold'
              exact .dropped (htold'.congr rfl)
            · rw [if_neg (by rw [hkeep]; exact H.keepAlive_ne_close)]
              rw [hkeep, policyWord_keepAlive] at htold'
              exact .kept (htold'.congr rfl) ⟨hready'.bufIdx, hready'.parser⟩ hfree
          · refine .faulted ?_
            show c₀.faults < d.faults + 1
            omega
      · exact .faulted (by omega)

/-- A resume takes a turn from one place of the list to another. -/
theorem Course.resumed (h : Course c₀ (some .success, c)) (hd : c.cli.draining = true)
    (fuel : Nat) : Course c₀ (responseWriterResume E fuel c) := by
  cases h with
  | unanswered h => exact absurd (h.draining.symm.trans hd) (by simp)
  | faulted hf =>
      rcases hs : responseWriterResume E fuel c with ⟨_ | rc, d⟩
      · exact .running
      · exact .faulted (Nat.lt_of_lt_of_le hf (responseWriterResume_faults hs))
  | awaiting htold _ hf hready => exact responseWriterResume_course htold hd hf hready
  | kept _ _ hfree => exact absurd (hfree.symm.trans hd) (by simp)

theorem Turn.course {o : Option Status × Conn H} (h : Turn E threadId c₀ o)
    (hd : c₀.cli.draining = false)
    (hpolicies : ∀ policy, PolicyReported H policy → policy = H.keepAlive ∨ policy = H.close) :
    Course c₀ o := by
  induction h with
  | handled fuel => exact clientHandle_course hd hpolicies fuel
  | resumed fuel _ hparked ih => exact ih.resumed hparked fuel

/-! ## Header and verdict -/

/-- The parser reports no other policies than the two. -/
def ReportsTwoPolicies (H : DbHttp) : Prop :=
  ∀ parser buf k req, (H.exec parser buf k).2.1 = some req →
    req.connectionPolicy = H.keepAlive ∨ req.connectionPolicy = H.close

theorem close_ne_keepAlive : ascii "close" ≠ ascii "keep-alive" := by decide

/-- What a finished turn said of the connection is its verdict. -/
theorem Course.verdict (h : Course c₀ (some rc, c)) (hsent : CompletelySent c₀ c resp) :
    (Says "close" resp ∧ rc = .failure) ∨ (Says "keep-alive" resp ∧ rc = .success ∧ Ready c) := by
  obtain ⟨l, hl, hhanded⟩ := hsent.handed
  have hsame : ∀ l', c.log = c₀.log ++ l' → l' = l := fun l' hl' =>
    List.append_cancel_left (hl'.symm.trans hl)
  have hcases : ∀ {word : String}, Told c₀ c word → Says word resp := by
    rintro word ⟨l', hl', hresp, hbegin⟩
    obtain rfl := hsame l' hl'
    rcases hhanded with hmem | ⟨hmem, _⟩
    · exact hresp resp hmem
    · exact absurd hmem hbegin
  cases h with
  | unanswered hu =>
      obtain ⟨l', hl', hresp, hbegin⟩ := hu.log
      obtain rfl := hsame l' hl'
      rcases hhanded with hmem | ⟨hmem, _⟩
      · exact absurd hmem (hresp resp)
      · exact absurd hmem hbegin
  | faulted hf =>
      have hclean := hsent.faultless
      omega
  | awaiting _ hparked => exact absurd (hsent.unparked.symm.trans hparked) (by simp)
  | dropped htold => exact .inl ⟨hcases htold, rfl⟩
  | kept htold hready _ => exact .inr ⟨hcases htold, rfl, hready⟩
  | archived hlog _ =>
      obtain ⟨l', hl', hresp⟩ := hlog
      obtain rfl := hsame l' hl'
      rcases hhanded with hmem | ⟨_, _, h, rest, hhead⟩
      · exact absurd hmem (hresp resp)
      · refine .inl ⟨?_, rfl⟩
        rw [← hhead]
        exact zipHead_connection _ _ rest

/--
**The Connection header tells the truth.** Whatever the request was and however the
answer got out, the answer says `close` exactly if the client is dropped after its last
byte, and `keep-alive` exactly if it is kept with an empty buffer and a cleared parser.
-/
theorem connection_header_truthful (hpolicies : ReportsTwoPolicies H)
    (hd : c₀.cli.draining = false) (hturn : Turn E threadId c₀ (some rc, c))
    (hsent : CompletelySent c₀ c resp) :
    (Says "close" resp ↔ rc = .failure) ∧ (Says "keep-alive" resp ↔ rc = .success ∧ Ready c) := by
  have hcourse := hturn.course hd fun policy hreported => by
    obtain ⟨parser, buf, k, req, hreq, rfl⟩ := hreported
    exact hpolicies parser buf k req hreq
  rcases hcourse.verdict hsent with ⟨hclose, rfl⟩ | ⟨hkeep, rfl, hready⟩
  · refine ⟨⟨fun _ => rfl, fun _ => hclose⟩, ?_, ?_⟩
    · intro hkeep
      exact absurd (hclose.eq hkeep) close_ne_keepAlive
    · intro hkept
      exact absurd hkept.1 (by simp)
  · refine ⟨⟨?_, ?_⟩, fun _ => ⟨rfl, hready⟩, fun _ => hkeep⟩
    · intro hclose
      exact absurd (hclose.eq hkeep) close_ne_keepAlive
    · intro hdropped
      exact absurd hdropped (by simp)

/-- A parser that sees a whole keep-alive request in whatever it is given. -/
def DbHttp.keeping : DbHttp :=
  { DbHttp.small with
    exec := fun p _ _ =>
      (.ok, some { path := ascii "/api/app", messageComplete := true, connectionPolicy := 1 }, p) }

/-- The kernel takes ten bytes of the answer, is full once, and then takes the rest. -/
def haltingPeer : Env :=
  { Env.smooth { status := 200 } with
    write := fun t => if t = 2 then .wrote 9 else if t = 3 then .eagain else .wrote 65535 }

/-- A client of an operator, before its first request. -/
def keptClient : Conn DbHttp.keeping :=
  Conn.fresh { Client.zeroed DbHttp.keeping with
    isBusy := true, ctx := ⟨7, some 0, some .operatorClient⟩, httpParser := some () }

theorem connection_header_truthful_parked : ∃ parked c resp,
    clientHandle haltingPeer 8 0 keptClient = (some .success, parked) ∧
    parked.cli.draining = true ∧ parked.cli.sendOff = 10 ∧
    responseWriterResume haltingPeer 8 parked = (some .success, c) ∧
    Says "keep-alive" resp ∧ Ready c := by
  obtain ⟨parked, hhandle⟩ : ∃ parked,
      clientHandle haltingPeer 8 0 keptClient = (some .success, parked) :=
    ⟨_, Prod.ext (by decide +kernel) rfl⟩
  obtain rfl : (clientHandle haltingPeer 8 0 keptClient).2 = parked := by rw [hhandle]
  have hparked : (clientHandle haltingPeer 8 0 keptClient).2.cli.draining = true := by
    decide +kernel
  obtain ⟨c, hresume⟩ : ∃ c, responseWriterResume haltingPeer 8
      (clientHandle haltingPeer 8 0 keptClient).2 = (some .success, c) :=
    ⟨_, Prod.ext (by decide +kernel) rfl⟩
  have hturn : Turn haltingPeer 0 keptClient (some .success, c) := by
    have hstart : Turn haltingPeer 0 keptClient (clientHandle haltingPeer 8 0 keptClient) :=
      .handled 8
    rw [hhandle] at hstart
    rw [← hresume]
    exact .resumed 8 hstart hparked
  obtain rfl : (responseWriterResume haltingPeer 8
      (clientHandle haltingPeer 8 0 keptClient).2).2 = c := by rw [hresume]
  have hpolicies : ReportsTwoPolicies DbHttp.keeping := by
    intro parser buf k req hreq
    obtain rfl := Option.some.inj hreq
    exact .inl rfl
  have hsent : CompletelySent keptClient (responseWriterResume haltingPeer 8
      (clientHandle haltingPeer 8 0 keptClient).2).2
      (statusHead { status := 200 } true ++ ascii "\r\n") :=
    ⟨⟨_, rfl, .inl (by decide +kernel)⟩, by decide +kernel, by decide +kernel⟩
  have hkeep : Says "keep-alive" (statusHead { status := 200 } true ++ ascii "\r\n") :=
    statusHead_connection _ true _
  exact ⟨_, _, _, hhandle, hparked, by decide +kernel, hresume, hkeep,
    ((connection_header_truthful hpolicies rfl hturn hsent).2.mp hkeep).2⟩

end DBServer.Proof
