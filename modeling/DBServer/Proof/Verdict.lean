import DBServer.Proof.Message

/-!
# The verdict of the body pump

`_pump_body` gives up in one of six places, each time with a status of its own choice, and
`response_writer_error` translates that status by a table of its own. The loop is cut here
into its rounds: `nextRound` is how it goes on, `verdictAt` the status with which it gives
up instead. A run that was answered is a chain of the former that ends in one of the latter
(`pumpLoop_verdict`), and what is left is to compare the two tables.

They differ in one place. The table has no entry for 408, the status of an upload that ran
past its deadline, and the client is told 500.
-/

namespace DBServer.Proof

open DBServer Lib

variable {H : DbHttp} {E : Env} {c c' d d' : Conn H} {fuel n remaining left deadline status : Nat}
  {rc : Status}

/-! ## Rounds -/

/-- The count and the state in which the loop goes on after this round, if it does. -/
def nextRound (E : Env) (deadline remaining : Nat) (c : Conn H) : Option (Nat × Conn H) :=
  if deadline ≤ E.mono c.tick then none
  else
    match E.pollIn c.tick with
    | .timeout | .error => none
    | .eintr => some (remaining, c.next)
    | .ready =>
        match E.read c.tick with
        | .eof | .error => none
        | .eintr | .eagain => some (remaining, c.next)
        | .data n =>
            let got := min (n + 1) (min remaining H.maxBufferLen)
            let c := c.receive E 0 got
            let bs := c.cli.buf.slice 0 got
            if E.chunk c.tick bs then some (remaining - got, touch E (offer E bs c)) else none

/-- The status with which the loop gives up in this round, if it does. -/
def verdictAt (E : Env) (deadline remaining : Nat) (c : Conn H) : Option Nat :=
  if deadline ≤ E.mono c.tick then some 408
  else
    match E.pollIn c.tick with
    | .timeout => some 400
    | .error => some 500
    | .eintr => none
    | .ready =>
        match E.read c.tick with
        | .error => some 500
        | .eof | .eintr | .eagain => none
        | .data n =>
            let got := min (n + 1) (min remaining H.maxBufferLen)
            let c := c.receive E 0 got
            if E.chunk c.tick (c.cli.buf.slice 0 got) then none else some 400

/-- With body missing in every round before it, the loop gets from one state to another. -/
inductive Arrives (E : Env) (deadline : Nat) : Nat → Conn H → Nat → Conn H → Prop where
  | here (remaining : Nat) (c : Conn H) : Arrives E deadline remaining c remaining c
  | step {remaining left r : Nat} {c d c' : Conn H} : 0 < remaining →
      nextRound E deadline remaining c = some (r, c') → Arrives E deadline r c' left d →
      Arrives E deadline remaining c left d

/-- A round that gives up does not go on. -/
theorem nextRound_of_verdict (h : verdictAt E deadline remaining c = some status) :
    nextRound E deadline remaining c = none := by
  unfold verdictAt at h
  unfold nextRound
  by_cases hlate : deadline ≤ E.mono c.tick
  · rw [if_pos hlate]
  · rw [if_neg hlate] at h ⊢
    cases hp : E.pollIn c.tick with
    | timeout => rfl
    | error => rfl
    | eintr => rw [hp] at h; exact absurd h (by simp)
    | ready =>
        rw [hp] at h
        cases hr : E.read c.tick with
        | eof => rfl
        | error => rfl
        | eintr => rw [hr] at h; exact absurd h (by simp)
        | eagain => rw [hr] at h; exact absurd h (by simp)
        | data n =>
            rw [hr] at h
            dsimp only at h ⊢
            split at h
            · exact absurd h (by simp)
            · rename_i hrefused
              rw [if_neg hrefused]

/-- **A run gives up in one round only.** -/
theorem Arrives.unique {left' : Nat} (h : Arrives E deadline remaining c left d)
    (h' : Arrives E deadline remaining c left' d')
    (hstop : nextRound E deadline left d = none) (hstop' : nextRound E deadline left' d' = none) :
    left = left' ∧ d = d' := by
  induction h with
  | here =>
      cases h' with
      | here => exact ⟨rfl, rfl⟩
      | step _ hnext _ => exact absurd (hstop.symm.trans hnext) (by simp)
  | step _ hnext _ ih =>
      cases h' with
      | here => exact absurd (hstop'.symm.trans hnext) (by simp)
      | step _ hnext' harr =>
          obtain ⟨rfl, rfl⟩ := Prod.mk.inj (Option.some.inj (hnext.symm.trans hnext'))
          exact ih harr hstop

/-! ## The two tables -/

/-- The answer reads back with this status, with the body it announces, and as the last one. -/
def Reports (text : Bytes) (status : Nat) : Prop :=
  ∃ start fields body, Message.read text = some (start, fields, body) ∧
    text = Message.print start fields body ∧ statusOf start = some status ∧
    Message.announced fields = some body.length ∧ (ascii "Connection", ascii "close") ∈ fields

/-- **The table of `response_writer_error`**: 404, 400 and 413 are themselves, the rest is 500. -/
theorem errorBody_status (status : Nat) : (errorBody status).1 = status ↔
    status = 404 ∨ status = 400 ∨ status = 413 ∨ status = 500 := by
  unfold errorBody
  split <;> simp_all [eq_comm]

theorem errorMessage_reports (status : Nat) : Reports (errorMessage status) (errorBody status).1 := by
  have hread := errorMessage_reads status []
  rw [List.append_nil] at hread
  exact ⟨_, _, _, hread, errorMessage_eq status, statusOf_startLine _, Message.number_digits _,
    by simp [errorFields]⟩

/-- One message reports one status. -/
theorem Reports.unique {text : Bytes} {s s' : Nat} (h : Reports text s) (h' : Reports text s') :
    s = s' := by
  obtain ⟨start, fields, body, hread, _, hs, _⟩ := h
  obtain ⟨start', fields', body', hread', _, hs', _⟩ := h'
  obtain ⟨rfl, _⟩ := Prod.mk.inj (Option.some.inj (hread.symm.trans hread'))
  exact Option.some.inj (hs.symm.trans hs')

/-- What the client is told is what was chosen, for the statuses of the table and no others. -/
theorem errorMessage_reports_iff (status : Nat) : Reports (errorMessage status) status ↔
    status = 404 ∨ status = 400 ∨ status = 413 ∨ status = 500 := by
  rw [← errorBody_status]
  refine ⟨fun h => (errorMessage_reports status).unique h, fun h => ?_⟩
  have hreports := errorMessage_reports status
  rwa [h] at hreports

/-! ## A run of the pump -/

/-- The loop gives up with 408 only for being late, and else with a status of the table. -/
theorem verdictAt_cases (h : verdictAt E deadline remaining c = some status) :
    (status = 408 ∧ deadline ≤ E.mono c.tick) ∨
    ((status = 400 ∨ status = 500) ∧ ¬deadline ≤ E.mono c.tick) := by
  unfold verdictAt at h
  split at h
  · rename_i hlate
    exact .inl ⟨(Option.some.inj h).symm, hlate⟩
  · rename_i hearly
    refine .inr ⟨?_, hearly⟩
    split at h
    · exact .inl (Option.some.inj h).symm
    · exact .inr (Option.some.inj h).symm
    · exact absurd h (by simp)
    · split at h
      · exact .inr (Option.some.inj h).symm
      · exact absurd h (by simp)
      · exact absurd h (by simp)
      · exact absurd h (by simp)
      · dsimp only at h
        split at h
        · exact absurd h (by simp)
        · exact .inl (Option.some.inj h).symm

/-- Between two states of the pump the client was told nothing. -/
structure Unspoken (c d : Conn H) : Prop where
  log : ∃ calls, responses calls = 0 ∧ d.log = c.log ++ calls
  wire : d.wire = c.wire
  ctx : d.cli.ctx = c.cli.ctx

theorem Unspoken.refl (c : Conn H) : Unspoken c c := ⟨⟨[], rfl, (List.append_nil _).symm⟩, rfl, rfl⟩

theorem Unspoken.trans {c₁ c₂ c₃ : Conn H} (h : Unspoken c₁ c₂) (h' : Unspoken c₂ c₃) :
    Unspoken c₁ c₃ := by
  obtain ⟨calls, hnone, hlog⟩ := h.log
  obtain ⟨calls', hnone', hlog'⟩ := h'.log
  refine ⟨⟨calls ++ calls', ?_, ?_⟩, h'.wire.trans h.wire, h'.ctx.trans h.ctx⟩
  · rw [responses_append, hnone, hnone']
  · rw [hlog', hlog, List.append_assoc]

theorem unspoken_next (c : Conn H) : Unspoken c c.next :=
  ⟨⟨[], rfl, (List.append_nil _).symm⟩, rfl, rfl⟩

theorem unspoken_offer (E : Env) (bs : Bytes) (c : Conn H) : Unspoken c (offer E bs c) :=
  ⟨⟨[.chunk bs (E.chunk c.tick bs)], rfl, rfl⟩, rfl, rfl⟩

/-- **One round of the loop**: it goes on, gives up with a verdict, or finds the peer gone. -/
theorem pumpLoop_round (E : Env) (deadline : Nat) (c : Conn H) (hrem : 0 < remaining) :
    (∃ r d, nextRound E deadline remaining c = some (r, d) ∧ Unspoken c d ∧
      ∀ fuel, pumpLoop E deadline (fuel + 1) remaining c = pumpLoop E deadline fuel r d) ∨
    (∃ status d, verdictAt E deadline remaining c = some status ∧ Unspoken c d ∧
      ∀ fuel, pumpLoop E deadline (fuel + 1) remaining c =
        pumpAnswered (responseWriterError E fuel status d)) ∨
    ∀ fuel, (pumpLoop E deadline (fuel + 1) remaining c).1 = some (.gone, .failure) := by
  by_cases hlate : deadline ≤ E.mono c.tick
  · refine .inr (.inl ⟨408, c.next, if_pos hlate, unspoken_next c, fun fuel => ?_⟩)
    rw [pumpLoop, if_pos hrem, if_pos hlate]
  · unfold nextRound verdictAt
    simp only [pumpLoop, if_pos hrem, if_neg hlate]
    -- one round: it goes on, gives up with a status, or finds the peer gone
    cases hp : E.pollIn c.tick with
    | timeout => exact .inr (.inl ⟨400, c.next, rfl, unspoken_next c, fun _ => rfl⟩)
    | error => exact .inr (.inl ⟨500, c.next, rfl, unspoken_next c, fun _ => rfl⟩)
    | eintr => exact .inl ⟨remaining, c.next, rfl, unspoken_next c, fun _ => rfl⟩
    | ready =>
        cases hr : E.read c.tick with
        | eof => exact .inr (.inr fun _ => rfl)
        | error => exact .inr (.inl ⟨500, c.next, rfl, unspoken_next c, fun _ => rfl⟩)
        | eintr => exact .inl ⟨remaining, c.next, rfl, unspoken_next c, fun _ => rfl⟩
        | eagain => exact .inl ⟨remaining, c.next, rfl, unspoken_next c, fun _ => rfl⟩
        | data n =>
            dsimp only
            obtain ⟨got, hgot⟩ : ∃ got, min (n + 1) (min remaining H.maxBufferLen) = got := ⟨_, rfl⟩
            obtain ⟨d, hd⟩ : ∃ d, c.receive E 0 got = d := ⟨_, rfl⟩
            have hquiet : Unspoken c d :=
              hd ▸ ⟨⟨[], rfl, (List.append_nil _).symm⟩, rfl, rfl⟩
            simp only [hgot, hd]
            obtain ⟨bs, hbs⟩ : ∃ bs, d.cli.buf.slice 0 got = bs := ⟨_, rfl⟩
            simp only [hbs]
            have hoffer := hquiet.trans (unspoken_offer E bs d)
            by_cases htaken : E.chunk d.tick bs
            · refine .inl ⟨remaining - got, touch E (offer E bs d), if_pos htaken,
                ⟨hoffer.log, hoffer.wire, hoffer.ctx⟩, fun fuel => if_pos htaken⟩
            · exact .inr (.inl ⟨400, offer E bs d, if_neg htaken, hoffer, fun fuel => if_neg htaken⟩)

/-- The pump gave up with `status`, and the error answer for it is how the call came back. -/
inductive GaveUp (E : Env) (c : Conn H) (status : Nat) (rc : Status) (c' : Conn H) : Prop where
  | mk {d : Conn H} {fuel : Nat} : Unspoken c d →
      responseWriterError E fuel status d = (some rc, c') → GaveUp E c status rc c'

theorem GaveUp.after (h : GaveUp E d status rc c') (hq : Unspoken c d) :
    GaveUp E c status rc c' := by
  obtain ⟨hq', hcall⟩ := h
  exact ⟨hq.trans hq', hcall⟩

theorem pumpAnswered_eq {o : Option Status × Conn H}
    (h : pumpAnswered o = (some (.answered, rc), c')) : o = (some rc, c') := by
  obtain ⟨a, s, rfl, hk⟩ := andThen_eq_some.mp h
  obtain ⟨hrc, rfl⟩ := Prod.mk.inj hk
  obtain ⟨_, rfl⟩ := Prod.mk.inj (Option.some.inj hrc)
  rfl

/-- **A run that was answered ends in a round with a verdict**, by induction over its rounds. -/
theorem pumpLoop_verdict : ∀ {fuel remaining : Nat} {c : Conn H},
    pumpLoop E deadline fuel remaining c = (some (.answered, rc), c') →
    ∃ left d status, Arrives E deadline remaining c left d ∧ 0 < left ∧
      verdictAt E deadline left d = some status ∧ GaveUp E c status rc c'
  | 0, _, _, h => absurd h (by simp [pumpLoop])
  | fuel + 1, remaining, c, h => by
      by_cases hrem : 0 < remaining
      · rcases pumpLoop_round E deadline c hrem with
          ⟨r, d, hnext, hquiet, hround⟩ | ⟨status, d, hverdict, hquiet, hround⟩ | hgone
        · rw [hround] at h
          obtain ⟨left, e, status, harr, hpos, hverdict, hgave⟩ := pumpLoop_verdict h
          exact ⟨left, e, status, .step hrem hnext harr, hpos, hverdict, hgave.after hquiet⟩
        · rw [hround] at h
          exact ⟨remaining, c, status, .here _ _, hrem, hverdict, hquiet, pumpAnswered_eq h⟩
        · have hback := hgone fuel
          rw [h] at hback
          exact absurd hback (by simp)
      · rw [pumpLoop, if_neg hrem] at h
        exact absurd h (by simp)

/-! ## The whole body -/

/-- The sink refused what had arrived with the headers. -/
def Refused (E : Env) (leftover : Bytes) (c : Conn H) : Prop :=
  0 < leftover.length ∧ E.chunk c.tick leftover = false

/-- The state in which the loop starts, and in which its deadline was set. -/
def loopStart (E : Env) (leftover : Bytes) (c : Conn H) : Conn H :=
  if 0 < leftover.length then offer E leftover c else c

/-- The deadline of the loop. -/
def loopDeadline (E : Env) (leftover : Bytes) (c : Conn H) : Nat :=
  E.mono (loopStart E leftover c).tick + workerUploadMaxWallS * 1000

/-- The loop arrives at a state with body missing. -/
def Missing (E : Env) (leftover : Bytes) (total : Nat) (c : Conn H) (left : Nat) (d : Conn H) :
    Prop :=
  ¬Refused E leftover c ∧ 0 < left ∧
    Arrives E (loopDeadline E leftover c) (total - leftover.length) (loopStart E leftover c).next
      left d

/-- The status the pump chooses for the event that ends its run. -/
inductive Chooses (E : Env) (leftover : Bytes) (total : Nat) (c : Conn H) : Nat → Prop where
  | refused : Refused E leftover c → Chooses E leftover total c 400
  | gaveUp {left status : Nat} {d : Conn H} : Missing E leftover total c left d →
      verdictAt E (loopDeadline E leftover c) left d = some status → Chooses E leftover total c status

/-- The loop arrives at a round past its deadline with body missing. -/
def RunsOutOfTime (E : Env) (leftover : Bytes) (total : Nat) (c : Conn H) : Prop :=
  ∃ left d, Missing E leftover total c left d ∧ loopDeadline E leftover c ≤ E.mono d.tick

variable {leftover text : Bytes} {total : Nat}

/-- **The choice is one**: a run refused at the start has no rounds, and else one round gives up. -/
theorem Chooses.unique {s s' : Nat} (h : Chooses E leftover total c s)
    (h' : Chooses E leftover total c s') : s = s' := by
  cases h with
  | refused hrefused =>
      cases h' with
      | refused => rfl
      | gaveUp hmissing _ => exact absurd hrefused hmissing.1
  | gaveUp hmissing hverdict =>
      cases h' with
      | refused hrefused => exact absurd hrefused hmissing.1
      | gaveUp hmissing' hverdict' =>
          obtain ⟨rfl, rfl⟩ := hmissing.2.2.unique hmissing'.2.2 (nextRound_of_verdict hverdict)
            (nextRound_of_verdict hverdict')
          exact Option.some.inj (hverdict.symm.trans hverdict')

/-- A status is missing from the table exactly when the run is out of time. -/
theorem Chooses.listed_iff (h : Chooses E leftover total c status) :
    (status = 404 ∨ status = 400 ∨ status = 413 ∨ status = 500) ↔
      ¬RunsOutOfTime E leftover total c := by
  cases h with
  | refused hrefused =>
      refine ⟨fun _ hout => ?_, fun _ => .inr (.inl rfl)⟩
      obtain ⟨left, d, hmissing, _⟩ := hout
      exact hmissing.1 hrefused
  | @gaveUp left _ d hmissing hverdict =>
      rcases verdictAt_cases hverdict with ⟨rfl, hlate⟩ | ⟨hlisted, hearly⟩
      · exact ⟨fun h => absurd h (by decide), fun h => absurd ⟨left, d, hmissing, hlate⟩ h⟩
      · refine ⟨fun _ hout => ?_, fun _ => by omega⟩
        obtain ⟨left', d', hmissing', hlate⟩ := hout
        have hverdict' : verdictAt E (loopDeadline E leftover c) left' d' = some 408 := if_pos hlate
        obtain ⟨_, rfl⟩ := hmissing.2.2.unique hmissing'.2.2 (nextRound_of_verdict hverdict)
          (nextRound_of_verdict hverdict')
        exact hearly hlate

theorem pumpBody_verdict
    (hrun : pumpBody E fuel leftover total c = (some (.answered, rc), c')) :
    ∃ status, Chooses E leftover total c status ∧ GaveUp E c status rc c' := by
  unfold pumpBody at hrun
  by_cases hrefused : 0 < leftover.length ∧ E.chunk c.tick leftover = false
  · rw [if_pos hrefused] at hrun
    exact ⟨400, .refused hrefused, unspoken_offer E leftover c, pumpAnswered_eq hrun⟩
  · rw [if_neg hrefused] at hrun
    have hquiet : Unspoken c (loopStart E leftover c) := by
      unfold loopStart
      split
      · exact unspoken_offer E leftover c
      · exact Unspoken.refl c
    obtain ⟨left, d, status, harr, hpos, hverdict, hgave⟩ := pumpLoop_verdict hrun
    exact ⟨status, .gaveUp ⟨hrefused, hpos, harr⟩ hverdict,
      hgave.after (hquiet.trans (unspoken_next _))⟩

/--
**The pump's verdict is what the client sees, unless it is that time ran out.** Every run
that was answered put one response on the wire, complete if the socket took it; it reads
back with the status the pump chose, its own length and `Connection: close` exactly when
the loop did not arrive at a round past its deadline.
-/
theorem pump_verdict_reaches_client (hfd : 0 ≤ c.cli.ctx.fd)
    (hrun : pumpBody E fuel leftover total c = (some (.answered, rc), c')) :
    (∃ status, Chooses E leftover total c status) ∧
    ∃ text calls, responses calls = 0 ∧ c'.log = c.log ++ calls ++ [.respond text] ∧
      (∃ k ≤ text.length, c'.wire = c.wire ++ text.take k) ∧
      (rc = .success → c'.cli.draining = false → c'.wire = c.wire ++ text) ∧
      ∀ status, Chooses E leftover total c status →
        (Reports text status ↔ ¬RunsOutOfTime E leftover total c) := by
  obtain ⟨status, hchosen, ⟨hquiet, hcall⟩⟩ := pumpBody_verdict hrun
  rename_i d fuel'
  have hhanded := responseWriterError_handed (c := d) E fuel' status (by rw [hquiet.ctx]; exact hfd)
  obtain ⟨calls, hnone, hlog⟩ := hquiet.log
  rw [hcall] at hhanded
  refine ⟨⟨status, hchosen⟩, errorMessage status, calls, hnone, ?_, ?_, ?_, fun s hs => ?_⟩
  · rw [← hlog]
    exact hhanded.logged
  · rw [← hquiet.wire]
    exact hhanded.taken
  · intro hrc hd
    rw [← hquiet.wire]
    exact hhanded.whole (congrArg some hrc) hd
  · obtain rfl := hs.unique hchosen
    rw [errorMessage_reports_iff]
    exact hchosen.listed_iff

/-- The peer stalls. -/
def stallingPeer : Env := { Env.smooth { status := 200 } with pollIn := fun _ => .timeout }

/-- Two clock readings apart, the deadline has passed. -/
def slowClock : Env := { Env.smooth { status := 200 } with mono := fun t => t * 7200000 }

theorem pump_verdict_reaches_client_stalled :
    ∃ text, (pumpBody stallingPeer 4 [] 5 (Conn.fresh claimedClient)).2.wire = text ∧
      (∀ status, Chooses stallingPeer [] 5 (Conn.fresh claimedClient) status →
        Reports text status) := by
  have hback : (pumpBody stallingPeer 4 [] 5 (Conn.fresh claimedClient)).1 =
      some (.answered, .success) := by decide +kernel
  have hrun : pumpBody stallingPeer 4 [] 5 (Conn.fresh claimedClient) = (some (.answered, .success),
      (pumpBody stallingPeer 4 [] 5 (Conn.fresh claimedClient)).2) := by
    rw [← hback]
  obtain ⟨_, text, calls, _, _, _, hwhole, hreports⟩ :=
    pump_verdict_reaches_client (c := Conn.fresh claimedClient) (by decide) hrun
  have hearly : ¬RunsOutOfTime stallingPeer [] 5 (Conn.fresh claimedClient) := by
    rintro ⟨left, d, _, hlate⟩
    exact absurd hlate (show ¬7200000 ≤ 0 by decide)
  exact ⟨text, hwhole rfl (by decide +kernel), fun status hs => (hreports status hs).mpr hearly⟩

/-- The pump chooses 408, the whole answer is on the wire, and it says 500. -/
theorem late_upload_is_told_500 : ∃ c' : Conn claimingParser,
    pumpBody slowClock 4 [] 5 (Conn.fresh claimedClient) = (some (.answered, .success), c') ∧
      Chooses slowClock [] 5 (Conn.fresh claimedClient) 408 ∧ Reports c'.wire 500 ∧
      ¬Reports c'.wire 408 := by
  have hback : (pumpBody slowClock 4 [] 5 (Conn.fresh claimedClient)).1 =
      some (.answered, .success) := by decide +kernel
  have hwire : (pumpBody slowClock 4 [] 5 (Conn.fresh claimedClient)).2.wire =
      errorMessage 408 := by decide +kernel
  have hchosen : Chooses slowClock [] 5 (Conn.fresh claimedClient) 408 :=
    .gaveUp ⟨fun h => absurd h.1 (by decide), by decide, .here _ _⟩ (if_pos (by decide))
  refine ⟨(pumpBody slowClock 4 [] 5 (Conn.fresh claimedClient)).2, by rw [← hback], hchosen,
    ?_, ?_⟩
  · rw [hwire]
    exact errorMessage_reports 408
  · rw [hwire, errorMessage_reports_iff]
    decide

end DBServer.Proof
