import DBServer.Proof.Archive
import DBServer.Proof.Kept

/-!
# Upload bodies and their tickets

Everything the claim of the pump is about is in the call log: what was offered to the
sink and what it took, whether the ticket was committed or aborted, and the
responses. Each function of the pump appends a piece to the log; a piece is judged
by the six figures below, which add up over appending. `Pumped` is what the body
loop appends, by induction over its rounds; `Disciplined` is what a whole call
appends.
-/

namespace DBServer.Proof

open DBServer Lib

variable {H : DbHttp} {E : Env} {c c' : Conn H} {fuel : Nat} {delta delta' : List Call}

/-! ## Figures of a log -/

/-- The bytes handed to the sink. -/
def offered (l : List Call) : Bytes := l.flatMap fun
  | .chunk bs _ => bs
  | _ => []

/-- The bytes the sink took. -/
def accepted (l : List Call) : Bytes := l.flatMap fun
  | .chunk bs true => bs
  | _ => []

/-- The number of responses. -/
def responses (l : List Call) : Nat := l.countP fun
  | .respond _ => true
  | _ => false

@[simp] theorem offered_append (l l' : List Call) : offered (l ++ l') = offered l ++ offered l' :=
  List.flatMap_append

@[simp] theorem accepted_append (l l' : List Call) :
    accepted (l ++ l') = accepted l ++ accepted l' := List.flatMap_append

@[simp] theorem responses_append (l l' : List Call) :
    responses (l ++ l') = responses l + responses l' := List.countP_append

@[simp] theorem offered_chunk (bs : Bytes) (b : Bool) : offered [.chunk bs b] = bs := by
  simp [offered]

@[simp] theorem accepted_chunk (bs : Bytes) (b : Bool) :
    accepted [.chunk bs b] = if b then bs else [] := by
  cases b <;> simp [accepted]

/-! ## Answers -/

theorem errorMessage_length (status : Nat) : (errorMessage status).length < 256 := by
  have hcases : errorBody status = errorBody 404 ∨ errorBody status = errorBody 400 ∨
      errorBody status = errorBody 413 ∨ errorBody status = errorBody 500 := by
    unfold errorBody
    split <;> simp
  unfold errorMessage
  rcases hcases with h | h | h | h <;> rw [h] <;> decide

/-- **An error answer is always handed over**: it fits, whatever the status. -/
theorem responseWriterError_hands (E : Env) (status : Nat) (hfd : 0 ≤ c.cli.ctx.fd) :
    ∃ d n, LaidOut c d ∧ ∀ fuel, responseWriterError E fuel status c = startSend E fuel n d := by
  have hlen := errorMessage_length status
  have hroom := H.maxBufferLen_ge
  have hfit : ¬H.maxBufferLen - 0 ≤ (errorMessage status).length := by omega
  have hl : LaidOut c (appendFmt (errorMessage status) (some 0, closing c)).2 :=
    appendFmt_laidOut _ (laidOut_closing c)
  refine ⟨_, 0 + (errorMessage status).length, hl, fun fuel => ?_⟩
  rw [responseWriterError, if_neg (by omega), appendFmt, if_neg hfit]

/-- An answer of `DB_app` is handed over, or the fixed error in its place. -/
theorem responseWriterSend_hands (E : Env) {res : AppResponse} (hfd : 0 ≤ c.cli.ctx.fd)
    (hres : 100 ≤ res.status ∧ res.status ≤ 599) :
    ∃ d n, LaidOut c d ∧ ∀ fuel, responseWriterSend E fuel res c = startSend E fuel n d := by
  have hok : ¬(c.cli.ctx.fd < 0 ∨ res.status < 100 ∨ 599 < res.status) := by omega
  have hl := serialize_laidOut E res c
  rcases hs : serialize E res c with ⟨_ | n, d⟩ <;> rw [hs] at hl
  · obtain ⟨d', n, hl', hcall⟩ := responseWriterError_hands (c := d) E 500 (by rw [hl.ctx]; exact hfd)
    exact ⟨d', n, hl.trans hl', fun fuel => by
      rw [responseWriterSend, if_neg hok, hs]; exact hcall fuel⟩
  · exact ⟨d, n, hl, fun fuel => by rw [responseWriterSend, if_neg hok, hs]⟩

/-- A call that hands one response over logs exactly that. -/
theorem log_of_hands {o : Option Status × Conn H}
    (h : ∃ d n, LaidOut c d ∧ o = startSend E fuel n d) :
    ∃ bs, o.2.log = c.log ++ [.respond bs] := by
  obtain ⟨d, n, hl, rfl⟩ := h
  exact ⟨_, by rw [startSend_log, hl.log]⟩

theorem responseWriterError_log (E : Env) (fuel status : Nat) (hfd : 0 ≤ c.cli.ctx.fd) :
    ∃ bs, (responseWriterError E fuel status c).2.log = c.log ++ [.respond bs] := by
  obtain ⟨d, n, hl, hcall⟩ := responseWriterError_hands E status hfd
  exact log_of_hands ⟨d, n, hl, hcall fuel⟩

theorem responseWriterSend_log (E : Env) (fuel : Nat) {res : AppResponse}
    (hfd : 0 ≤ c.cli.ctx.fd) (hres : 100 ≤ res.status ∧ res.status ≤ 599) :
    ∃ bs, (responseWriterSend E fuel res c).2.log = c.log ++ [.respond bs] := by
  obtain ⟨d, n, hl, hcall⟩ := responseWriterSend_hands E hfd hres
  exact log_of_hands ⟨d, n, hl, hcall fuel⟩

/-! ## The body loop -/

/-- What the body loop appends to the log when `body` is still to come. -/
structure Pumped (body : Bytes) (c : Conn H) (o : Option (PumpResult × Status) × Conn H)
    (delta : List Call) : Prop where
  log : o.2.log = c.log ++ delta
  /-- The sink was handed the bytes in order, without gap or repetition. -/
  inOrder : offered delta <+: body
  /-- Opening and settling the ticket is the caller's. -/
  opened : delta.count (.begin true) = 0
  committed : delta.count .commit = 0
  aborted : delta.count .abort = 0
  running : o.1 = none → responses delta ≤ 1 ∧ delta.count .peerClosed = 0
  ok : ∀ rc, o.1 = some (.ok, rc) → responses delta = 0 ∧ delta.count .peerClosed = 0 ∧
    (accepted delta).length = body.length
  answered : ∀ rc, o.1 = some (.answered, rc) → responses delta = 1 ∧
    delta.count .peerClosed = 0 ∧ (accepted delta).length < body.length
  gone : ∀ rc, o.1 = some (.gone, rc) → responses delta = 0 ∧ delta.count .peerClosed = 1 ∧
    (accepted delta).length < body.length

variable {body bs : Bytes} {o : Option (PumpResult × Status) × Conn H}

/-- The loop gives up with an answer. -/
theorem pumped_answered (E : Env) (fuel status : Nat) (hfd : 0 ≤ c'.cli.ctx.fd)
    (hlog : c'.log = c.log) (hpos : 0 < body.length) :
    ∃ delta, Pumped body c (pumpAnswered (responseWriterError E fuel status c')) delta := by
  obtain ⟨r, hr⟩ := responseWriterError_log E fuel status hfd
  rw [hlog] at hr
  refine ⟨[.respond r], ?_⟩
  have hoff : offered [.respond r] <+: body := List.nil_prefix
  unfold pumpAnswered
  rcases ho : responseWriterError E fuel status c' with ⟨_ | rc, d⟩ <;> rw [ho] at hr
  · exact ⟨hr, hoff, rfl, rfl, rfl, fun _ => ⟨Nat.le_refl 1, rfl⟩, by simp, by simp, by simp⟩
  · exact ⟨hr, hoff, rfl, rfl, rfl, by simp, by simp, fun _ _ => ⟨rfl, rfl, hpos⟩, by simp⟩

/-- A slice the sink refused ends the pump with an answer. -/
theorem pumped_refused (E : Env) (fuel : Nat) (hfd : 0 ≤ c'.cli.ctx.fd)
    (hlog : c'.log = c.log ++ [.chunk bs false]) (hbs : bs <+: body) (hpos : 0 < body.length) :
    ∃ delta, Pumped body c (pumpAnswered (responseWriterError E fuel 400 c')) delta := by
  obtain ⟨r, hr⟩ := responseWriterError_log E fuel 400 hfd
  rw [hlog, List.append_assoc] at hr
  refine ⟨[.chunk bs false, .respond r], ?_⟩
  have hoff : offered [.chunk bs false, .respond r] <+: body := by
    rw [show offered [.chunk bs false, .respond r] = bs from List.append_nil bs]
    exact hbs
  unfold pumpAnswered
  rcases ho : responseWriterError E fuel 400 c' with ⟨_ | rc, d⟩ <;> rw [ho] at hr
  · exact ⟨hr, hoff, by simp, by simp, by simp, fun _ => ⟨Nat.le_refl 1, by simp⟩, by simp,
      by simp, by simp⟩
  · exact ⟨hr, hoff, by simp, by simp, by simp, by simp, by simp,
      fun _ _ => ⟨rfl, by simp, hpos⟩, by simp⟩

/-- A round that brought nothing. -/
theorem Pumped.of_log (h : Pumped body c' o delta) (hlog : c'.log = c.log) :
    Pumped body c o delta :=
  ⟨by rw [h.log, hlog], h.inOrder, h.opened, h.committed, h.aborted, h.running, h.ok, h.answered,
    h.gone⟩

/-- A slice the sink took, in front of what follows. -/
theorem Pumped.cons (h : Pumped body c' o delta) (hlog : c'.log = c.log ++ [.chunk bs true]) :
    Pumped (bs ++ body) c o (.chunk bs true :: delta) := by
  have hoff : offered (.chunk bs true :: delta) = bs ++ offered delta := rfl
  have hacc : accepted (.chunk bs true :: delta) = bs ++ accepted delta := rfl
  have hresp : responses (.chunk bs true :: delta) = responses delta :=
    List.countP_cons_of_neg (by simp)
  have hcount : ∀ e : Call, e ≠ .chunk bs true → (Call.chunk bs true :: delta).count e =
      delta.count e := fun e he => List.count_cons_of_ne he.symm
  refine ⟨?_, ?_, ?_, ?_, ?_, ?_, ?_, ?_, ?_⟩
  · rw [h.log, hlog, List.append_assoc]; rfl
  · rw [hoff]; exact (List.prefix_append_right_inj bs).mpr h.inOrder
  · rw [hcount _ (by simp)]; exact h.opened
  · rw [hcount _ (by simp)]; exact h.committed
  · rw [hcount _ (by simp)]; exact h.aborted
  · rw [hresp, hcount _ (by simp)]; exact h.running
  · rw [hresp, hcount _ (by simp), hacc, List.length_append, List.length_append]
    intro rc ho
    obtain ⟨h1, h2, h3⟩ := h.ok rc ho
    exact ⟨h1, h2, by omega⟩
  · rw [hresp, hcount _ (by simp), hacc, List.length_append, List.length_append]
    intro rc ho
    obtain ⟨h1, h2, h3⟩ := h.answered rc ho
    exact ⟨h1, h2, by omega⟩
  · rw [hresp, hcount _ (by simp), hacc, List.length_append, List.length_append]
    intro rc ho
    obtain ⟨h1, h2, h3⟩ := h.gone rc ho
    exact ⟨h1, h2, by omega⟩

/-- What a `read` to the start of the buffer brought is what stands there. -/
theorem receive_slice (E : Env) (got : Nat) (c : Conn H) :
    (c.receive E 0 got).cli.buf.slice 0 got = Buf.slice E.peer c.received got :=
  Buf.slice_write_self Buf.length_slice.symm

theorem offer_log {bs : Bytes} {taken : Bool} (h : E.chunk c.tick bs = taken) :
    (offer E bs c).log = c.log ++ [.chunk bs taken] := by
  rw [← h]; rfl

/-- The loop, by induction over its rounds: what is to come is the socket's next bytes. -/
theorem pumpLoop_pumped (E : Env) (deadline : Nat) :
    ∀ (fuel remaining : Nat) (c : Conn H), 0 ≤ c.cli.ctx.fd →
      ∃ delta, Pumped (Buf.slice E.peer c.received remaining) c
        (pumpLoop E deadline fuel remaining c) delta
  | 0, remaining, c, _ =>
      ⟨[], (List.append_nil _).symm, List.nil_prefix, rfl, rfl, rfl,
        fun _ => ⟨Nat.zero_le _, rfl⟩, by simp [pumpLoop], by simp [pumpLoop], by simp [pumpLoop]⟩
  | fuel + 1, remaining, c, hfd => by
      rw [pumpLoop]
      split
      · rename_i hrem
        have hpos : 0 < (Buf.slice E.peer c.received remaining).length := by
          rw [Buf.length_slice]; exact hrem
        split
        · exact pumped_answered E fuel 408 hfd rfl hpos
        · split
          · exact pumped_answered E fuel 400 hfd rfl hpos
          · obtain ⟨delta, h⟩ := pumpLoop_pumped E deadline fuel remaining c.next hfd
            exact ⟨delta, h.of_log rfl⟩
          · exact pumped_answered E fuel 500 hfd rfl hpos
          · split
            · -- the peer is gone, and nobody is left to answer
              exact ⟨[.peerClosed], rfl, List.nil_prefix, rfl, rfl, rfl, by simp, by simp,
                by simp, fun _ _ => ⟨rfl, rfl, hpos⟩⟩
            · obtain ⟨delta, h⟩ := pumpLoop_pumped E deadline fuel remaining c.next hfd
              exact ⟨delta, h.of_log rfl⟩
            · obtain ⟨delta, h⟩ := pumpLoop_pumped E deadline fuel remaining c.next hfd
              exact ⟨delta, h.of_log rfl⟩
            · exact pumped_answered E fuel 500 hfd rfl hpos
            · rename_i n _
              obtain ⟨got, hgot⟩ : ∃ got, min (n + 1) (min remaining H.maxBufferLen) = got :=
                ⟨_, rfl⟩
              have hsplit : Buf.slice E.peer c.received remaining =
                  Buf.slice E.peer c.received got ++
                    Buf.slice E.peer (c.received + got) (remaining - got) := by
                rw [← Buf.slice_add]
                congr 1
                omega
              simp only [hgot, receive_slice]
              split
              · rename_i htaken
                obtain ⟨delta, h⟩ := pumpLoop_pumped E deadline fuel (remaining - got)
                  (touch E (offer E (Buf.slice E.peer c.received got) (c.receive E 0 got))) hfd
                rw [hsplit]
                exact ⟨_, h.cons (offer_log htaken)⟩
              · rename_i hrefused
                refine pumped_refused E fuel hfd
                  (offer_log (c := c.receive E 0 got) (Bool.eq_false_of_not_eq_true hrefused)) ?_ hpos
                rw [hsplit]
                exact List.prefix_append _ _
      · rename_i hdone
        exact ⟨[], (List.append_nil _).symm, List.nil_prefix, rfl, rfl, rfl,
          fun _ => ⟨Nat.zero_le _, rfl⟩,
          fun _ _ => ⟨rfl, rfl, by rw [Buf.length_slice]; simp [accepted]; omega⟩, by simp, by simp⟩

/-- The body a consistent stream info describes: what is buffered, and then the socket. -/
def bodyOf (E : Env) (c : Conn H) (info : StreamInfo) : Bytes :=
  info.leftover ++ Buf.slice E.peer c.received (info.total - info.leftover.length)

theorem length_bodyOf {info : StreamInfo} (h : info.leftover.length ≤ info.total) :
    (bodyOf E c info).length = info.total := by
  rw [bodyOf, List.length_append, Buf.length_slice]
  omega

theorem pumpBody_pumped (E : Env) (fuel : Nat) (info : StreamInfo) (hfd : 0 ≤ c.cli.ctx.fd) :
    ∃ delta, Pumped (bodyOf E c info) c (pumpBody E fuel info.leftover info.total c) delta := by
  unfold pumpBody
  split
  · rename_i hrefused
    refine pumped_refused E fuel hfd (offer_log hrefused.2) (List.prefix_append _ _) ?_
    rw [bodyOf, List.length_append]
    omega
  · rename_i htaken
    by_cases hpos : 0 < info.leftover.length
    · have hchunk : E.chunk c.tick info.leftover = true := by
        cases hq : E.chunk c.tick info.leftover with
        | true => rfl
        | false => exact absurd ⟨hpos, hq⟩ htaken
      simp only [if_pos hpos]
      obtain ⟨delta, h⟩ := pumpLoop_pumped E _ fuel (info.total - info.leftover.length)
        (offer E info.leftover c).next hfd
      exact ⟨_, h.cons (offer_log hchunk)⟩
    · have hnil : info.leftover = [] := List.eq_nil_of_length_eq_zero (by omega)
      simp only [if_neg hpos]
      obtain ⟨delta, h⟩ := pumpLoop_pumped E _ fuel (info.total - info.leftover.length) c.next hfd
      refine ⟨delta, ?_⟩
      rw [bodyOf, hnil, List.nil_append]
      rw [hnil] at h
      exact h.of_log rfl

/-! ## A whole call -/

/-- The stream info of a claimed request, if it is consistent. -/
def consistentInfo (c : Conn H) : Option StreamInfo :=
  (c.cli.httpParser.bind fun p => H.streamInfo p c.cli.buf).filter fun i =>
    i.leftover.length ≤ i.total

/-- What one call of a pump appends to the log; `back` says that the call has come back. -/
structure Disciplined (E : Env) (c : Conn H) (back : Prop) (delta : List Call) : Prop where
  /-- The sink is handed a prefix of the body, and only if the stream info was consistent. -/
  inOrder : offered delta = [] ∨
    ∃ info, consistentInfo c = some info ∧ offered delta <+: bodyOf E c info ∧
      (offered delta).length ≤ info.total
  opened : delta.count (.begin true) ≤ 1
  settled : delta.count .commit + delta.count .abort ≤ delta.count (.begin true)
  answered : responses delta ≤ 1
  /-- Every opened ticket is settled once, and no other. -/
  settledOnce : back → delta.count .commit + delta.count .abort = delta.count (.begin true)
  /-- It is committed exactly if the sink took the whole of a consistent body. -/
  committed : back → (delta.count .commit = 1 ↔ delta.count (.begin true) = 1 ∧
    ∃ info, consistentInfo c = some info ∧ (accepted delta).length = info.total)
  /-- There is one answer, unless the peer was gone. -/
  answeredOnce : back → responses delta + delta.count .peerClosed = 1

/-- What a refused ticket leaves in the log: the refusal and its answer. -/
theorem disciplined_refused (E : Env) (c : Conn H) (back : Prop) (r : Bytes) :
    Disciplined E c back [.begin false, .respond r] :=
  ⟨.inl rfl, by simp, by simp, Nat.le_refl 1, fun _ => by simp, fun _ => by simp,
    fun _ => by simp [responses]⟩

/-- An inconsistent stream info: the ticket is aborted before anything is read. -/
theorem disciplined_inconsistent (E : Env) (back : Prop) (r : Bytes)
    (h : consistentInfo c = none) : Disciplined E c back [.begin true, .abort, .respond r] :=
  ⟨.inl rfl, by simp, by simp, Nat.le_refl 1, fun _ => by simp,
    fun _ => by simp [h], fun _ => by simp [responses]⟩

/-- The body loop between the opening of a ticket and what its caller does with the outcome. -/
theorem Pumped.disciplined {info : StreamInfo} {back : Prop} {tail : List Call}
    (h : Pumped (bodyOf E c info) c' o delta) (hinfo : consistentInfo c = some info)
    (htail : offered tail = [] ∧ accepted tail = [] ∧ tail.count (.begin true) = 0 ∧
      tail.count .peerClosed = 0)
    (hsettled : tail.count .commit + tail.count .abort ≤ 1)
    (hanswered : responses delta + responses tail ≤ 1)
    (hback : back → tail.count .commit + tail.count .abort = 1 ∧
      (tail.count .commit = 1 ↔ (accepted delta).length = info.total) ∧
      responses delta + responses tail + delta.count .peerClosed = 1) :
    Disciplined E c back (.begin true :: (delta ++ tail)) := by
  obtain ⟨hoff, hacc, hopen, hclosed⟩ := htail
  have hle : info.leftover.length ≤ info.total := by
    have hfilter := (Option.filter_eq_some_iff.mp hinfo).2
    simpa using hfilter
  have hoffered : offered (.begin true :: (delta ++ tail)) = offered delta := by
    show offered (delta ++ tail) = offered delta
    rw [offered_append, hoff, List.append_nil]
  have haccepted : accepted (.begin true :: (delta ++ tail)) = accepted delta := by
    show accepted (delta ++ tail) = accepted delta
    rw [accepted_append, hacc, List.append_nil]
  have hresp : responses (.begin true :: (delta ++ tail)) = responses delta + responses tail :=
    (List.countP_cons_of_neg (by simp)).trans (responses_append _ _)
  have hopened : (Call.begin true :: (delta ++ tail)).count (.begin true) = 1 := by
    rw [List.count_cons_self, List.count_append, h.opened, hopen]
  have hcommit : (Call.begin true :: (delta ++ tail)).count .commit = tail.count .commit := by
    rw [List.count_cons_of_ne (by simp), List.count_append, h.committed, Nat.zero_add]
  have habort : (Call.begin true :: (delta ++ tail)).count .abort = tail.count .abort := by
    rw [List.count_cons_of_ne (by simp), List.count_append, h.aborted, Nat.zero_add]
  have hgone : (Call.begin true :: (delta ++ tail)).count .peerClosed =
      delta.count .peerClosed := by
    rw [List.count_cons_of_ne (by simp), List.count_append, hclosed, Nat.add_zero]
  refine ⟨.inr ⟨info, hinfo, ?_, ?_⟩, ?_, ?_, ?_, ?_, ?_, ?_⟩
  · rw [hoffered]; exact h.inOrder
  · rw [hoffered, ← length_bodyOf (E := E) (c := c) hle]
    exact h.inOrder.length_le
  · rw [hopened]
  · rw [hcommit, habort, hopened]; exact hsettled
  · rw [hresp]; exact hanswered
  · intro hb
    rw [hcommit, habort, hopened]
    exact (hback hb).1
  · intro hb
    rw [hcommit, hopened, haccepted, (hback hb).2.1]
    constructor
    · intro hall; exact ⟨rfl, info, hinfo, hall⟩
    · rintro ⟨-, info', hinfo', hall⟩
      rw [hinfo] at hinfo'
      rw [hall, Option.some.inj hinfo']
  · intro hb
    rw [hresp, hgone]
    exact (hback hb).2.2

/-- `DB_app` answers with statuses an HTTP response can carry. -/
structure ValidStatuses (E : Env) : Prop where
  uploadBegin : ∀ t req res, E.uploadBegin t req = some res → 100 ≤ res.status ∧ res.status ≤ 599
  uploadCommit : ∀ t, 100 ≤ (E.uploadCommit t).status ∧ (E.uploadCommit t).status ≤ 599

/-- The response that ends a call adds itself to the log, whatever the call then returns. -/
theorem log_andThen_respond {o : Option Status × Conn H} {k : Status → Exit} {r : Bytes}
    (h : o.2.log = c.log ++ [.respond r]) :
    (andThen o fun rc d => (some (k rc), d)).2.log = c.log ++ [.respond r] :=
  andThen_unchanged (v := Conn.log) h fun _ _ => rfl

/-- After the body loop: the ticket is settled as the loop's outcome says. -/
theorem settleTicket_disciplined {info : StreamInfo} (E : Env) (fuel : Nat) (hE : ValidStatuses E)
    (h : Pumped (bodyOf E c info) c' o delta) (hinfo : consistentInfo c = some info)
    (hlog : c'.log = c.log ++ [.begin true]) (hfd : 0 ≤ o.2.cli.ctx.fd) :
    ∃ delta', (andThen o (settleTicket E fuel)).2.log = c.log ++ delta' ∧
      Disciplined E c ((andThen o (settleTicket E fuel)).1 ≠ none) delta' := by
  have hle : info.leftover.length ≤ info.total := by
    have hfilter := (Option.filter_eq_some_iff.mp hinfo).2
    simpa using hfilter
  have hlen : (bodyOf E c info).length = info.total := length_bodyOf hle
  have hd : o.2.log = c.log ++ .begin true :: delta := by
    rw [h.log, hlog, List.append_assoc]; rfl
  obtain ⟨_ | ⟨r, rc⟩, d⟩ := o
  · -- still inside the loop
    obtain ⟨hresp, hgone⟩ := h.running rfl
    refine ⟨.begin true :: (delta ++ []), by rw [List.append_nil]; exact hd, ?_⟩
    exact h.disciplined hinfo ⟨rfl, rfl, rfl, rfl⟩ (Nat.zero_le _) hresp
      fun hback => absurd rfl hback
  · cases r with
    | ok =>
        obtain ⟨hresp, hgone, hall⟩ := h.ok rc rfl
        obtain ⟨r, hr⟩ := responseWriterSend_log (c := (d.call .commit).next) E fuel hfd
          (hE.uploadCommit d.tick)
        refine ⟨.begin true :: (delta ++ [.commit, .respond r]), ?_, ?_⟩
        · have hlast : (d.call .commit).next.log = c.log ++ .begin true :: (delta ++ [.commit]) := by
            show d.log ++ [.commit] = _
            rw [show d.log = _ from hd, List.append_assoc]; rfl
          rw [andThen_some, settleTicket, log_andThen_respond hr, hlast, List.append_assoc,
            List.cons_append, List.append_assoc]
          rfl
        · refine h.disciplined hinfo (by simp [offered, accepted]) (by simp) ?_ fun _ => ?_
          · rw [hresp]; exact Nat.le_refl 1
          · refine ⟨by simp, ?_, by rw [hresp, hgone]; rfl⟩
            rw [hall, hlen]
            simp
    | answered =>
        obtain ⟨hresp, hgone, hshort⟩ := h.answered rc rfl
        refine ⟨.begin true :: (delta ++ [.abort]), ?_, ?_⟩
        · show d.log ++ [.abort] = _
          rw [show d.log = _ from hd, List.append_assoc]; rfl
        · refine h.disciplined hinfo (by simp [offered, accepted]) (by simp) ?_ fun _ => ?_
          · rw [hresp]; exact Nat.le_refl 1
          · refine ⟨by simp, ?_, by rw [hresp, hgone]; rfl⟩
            simp
            omega
    | gone =>
        obtain ⟨hresp, hgone, hshort⟩ := h.gone rc rfl
        refine ⟨.begin true :: (delta ++ [.abort]), ?_, ?_⟩
        · show d.log ++ [.abort] = _
          rw [show d.log = _ from hd, List.append_assoc]; rfl
        · refine h.disciplined hinfo (by simp [offered, accepted]) (by simp) ?_ fun _ => ?_
          · rw [hresp]; exact Nat.zero_le 1
          · refine ⟨by simp, ?_, by rw [hresp, hgone]; rfl⟩
            simp
            omega

/-- A ticket from its opening to its settling. -/
theorem ticketPump_disciplined (E : Env) (fuel : Nat) (req : AppRequest) (hfd : 0 ≤ c.cli.ctx.fd)
    (hE : ValidStatuses E) :
    ∃ delta, (ticketPump E fuel req c).2.log = c.log ++ delta ∧
      Disciplined E c ((ticketPump E fuel req c).1 ≠ none) delta := by
  have hbad : consistentInfo c = none → ∀ o : Option Exit × Conn H,
      o = andThen (responseWriterError E fuel 500 ((c.call (.begin true)).next.call .abort))
        (fun rc c => (some (.returned rc), c)) →
      ∃ delta, o.2.log = c.log ++ delta ∧ Disciplined E c (o.1 ≠ none) delta := by
    rintro h _ rfl
    obtain ⟨r, hr⟩ := responseWriterError_log
      (c := (c.call (.begin true)).next.call .abort) E fuel 500 hfd
    refine ⟨[.begin true, .abort, .respond r], ?_, disciplined_inconsistent E _ r h⟩
    rw [log_andThen_respond hr]
    simp [Conn.call, Conn.next]
  unfold ticketPump
  split
  · rename_i res hbegin
    obtain ⟨r, hr⟩ := responseWriterSend_log (c := (c.call (.begin false)).next) E fuel hfd
      (hE.uploadBegin _ _ _ hbegin)
    refine ⟨[.begin false, .respond r], ?_, disciplined_refused E c _ r⟩
    rw [log_andThen_respond hr]
    exact List.append_assoc _ _ _
  · dsimp only
    have hsame : consistentInfo c = ((c.call (.begin true)).next.cli.httpParser.bind fun p =>
        H.streamInfo p (c.call (.begin true)).next.cli.buf).filter fun i =>
          i.leftover.length ≤ i.total := rfl
    split
    · rename_i hnone
      exact hbad (by rw [hsame, hnone]; rfl) _ rfl
    · rename_i info hsome
      rw [hsome] at hsame
      split
      · rename_i hlong
        refine hbad ?_ _ rfl
        rw [hsame, Option.filter_some, if_neg]
        simp only [decide_eq_true_eq]
        omega
      · rename_i hshort
        have hinfo : consistentInfo c = some info := by
          rw [hsame, Option.filter_some, if_pos]
          simp only [decide_eq_true_eq]
          omega
        obtain ⟨delta, h⟩ := pumpBody_pumped (c := (c.call (.begin true)).next) E fuel info hfd
        refine settleTicket_disciplined E fuel hE h hinfo rfl ?_
        rw [ctx_of_identity (pumpBody_identity E fuel _ _ _)]
        exact hfd

/-! ## The pumps come back -/

/-- The socket does not block for ever, and the clock passes every deadline. -/
structure Lively (E : Env) : Prop where
  writes : ∀ t, ∃ u ≥ t, Moves (E.write u)
  clock : ∀ b t, ∃ u ≥ t, b ≤ E.mono u

theorem responseWriterError_settles (hE : Lively E) (status : Nat) (c : Conn H) :
    Settles fun fuel => responseWriterError E fuel status c :=
  Start.call_settles hE.writes (.error status) c

theorem responseWriterSend_settles (hE : Lively E) (res : AppResponse) (c : Conn H) :
    Settles fun fuel => responseWriterSend E fuel res c :=
  Start.call_settles hE.writes (.send res) c

theorem pumpAnswered_settles (hE : Lively E) (status : Nat) (c : Conn H) :
    Settles fun fuel => pumpAnswered (responseWriterError E fuel status c) :=
  Settles.bind (responseWriterError_settles hE status c) fun _ _ => Settles.const fun _ => rfl

/-- Every round of the body loop has fewer bytes to go, or brings the deadline nearer. -/
theorem pumpLoop_settles (hE : Lively E) (deadline remaining : Nat) (c : Conn H) :
    Settles fun fuel => pumpLoop E deadline fuel remaining c := by
  refine Settles.of_progress (r := fun (s : Nat × Conn H) fuel => pumpLoop E deadline fuel s.1 s.2)
    (fun s => s.2.tick) (fun s => s.1) (hE.clock deadline) ?_ (remaining, c)
  rintro ⟨remaining, c⟩ hsmaller hlater
  by_cases hrem : 0 < remaining
  · by_cases hlate : deadline ≤ E.mono c.tick
    · exact (pumpAnswered_settles hE 408 c.next).of_succ fun fuel => by
        rw [pumpLoop, if_pos hrem, if_pos hlate]
    · have hwait := hlater hlate (remaining, c.next) rfl rfl
      cases hp : E.pollIn c.tick with
      | timeout =>
          exact (pumpAnswered_settles hE 400 c.next).of_succ fun fuel => by
            rw [pumpLoop, if_pos hrem, if_neg hlate, hp]
      | eintr => exact hwait.of_succ fun fuel => by rw [pumpLoop, if_pos hrem, if_neg hlate, hp]
      | error =>
          exact (pumpAnswered_settles hE 500 c.next).of_succ fun fuel => by
            rw [pumpLoop, if_pos hrem, if_neg hlate, hp]
      | ready =>
          cases hr : E.read c.tick with
          | eof =>
              exact Settles.const_succ fun fuel => by
                rw [pumpLoop, if_pos hrem, if_neg hlate, hp, hr]
          | eintr =>
              exact hwait.of_succ fun fuel => by rw [pumpLoop, if_pos hrem, if_neg hlate, hp, hr]
          | eagain =>
              exact hwait.of_succ fun fuel => by rw [pumpLoop, if_pos hrem, if_neg hlate, hp, hr]
          | error =>
              exact (pumpAnswered_settles hE 500 c.next).of_succ fun fuel => by
                rw [pumpLoop, if_pos hrem, if_neg hlate, hp, hr]
          | data n =>
              obtain ⟨got, hgot⟩ : ∃ got, min (n + 1) (min remaining H.maxBufferLen) = got :=
                ⟨_, rfl⟩
              have hroom := H.maxBufferLen_ge
              obtain ⟨bs, hbs⟩ : ∃ bs, (c.receive E 0 got).cli.buf.slice 0 got = bs := ⟨_, rfl⟩
              by_cases htaken : E.chunk (c.receive E 0 got).tick bs
              · refine (hsmaller (remaining - got, touch E (offer E bs (c.receive E 0 got)))
                  ?_).of_succ fun fuel => by
                    rw [pumpLoop, if_pos hrem, if_neg hlate, hp, hr]
                    simp only [hgot, hbs]
                    exact if_pos htaken
                dsimp only
                omega
              · exact (pumpAnswered_settles hE 400 (offer E bs (c.receive E 0 got))).of_succ
                  fun fuel => by
                    rw [pumpLoop, if_pos hrem, if_neg hlate, hp, hr]
                    simp only [hgot, hbs]
                    exact if_neg htaken
  · exact Settles.const_succ fun fuel => by rw [pumpLoop, if_neg hrem]

/-- Every round of the drain brings its byte limit or its deadline nearer. -/
theorem drainRejectedBody_settles (hE : Lively E) (c : Conn H) :
    Settles fun fuel => drainRejectedBody E fuel c := by
  obtain ⟨deadline, hdeadline⟩ : ∃ d, E.mono c.tick + uploadRejectDrainMs = d := ⟨_, rfl⟩
  simp only [drainRejectedBody, hdeadline]
  refine Settles.of_progress (r := fun (s : Nat × Conn H) fuel => drainLoop E deadline fuel s.1 s.2)
    (fun s => s.2.tick) (fun s => uploadRejectDrainBytes - s.1) (hE.clock deadline) ?_ (0, c.next)
  rintro ⟨drained, c⟩ hsmaller hlater
  by_cases hgo : drained < uploadRejectDrainBytes ∧ E.mono c.tick < deadline ∧
      E.pollIn c.tick = .ready
  · have hwait := hlater (by show ¬deadline ≤ E.mono c.tick; omega) (drained, c.next) rfl rfl
    cases hr : E.read c.tick with
    | data n =>
        have hroom := H.maxBufferLen_ge
        refine (hsmaller (drained + min (n + 1) H.maxBufferLen,
          (c.receive E 0 (min (n + 1) H.maxBufferLen)).next) ?_).of_succ fun fuel => by
            rw [drainLoop, drainRound, if_pos hgo, hr]
        dsimp only
        omega
    | eintr => exact hwait.of_succ fun fuel => by rw [drainLoop, drainRound, if_pos hgo, hr]
    | eagain => exact hwait.of_succ fun fuel => by rw [drainLoop, drainRound, if_pos hgo, hr]
    | eof => exact Settles.const_succ fun fuel => by rw [drainLoop, drainRound, if_pos hgo, hr]
    | error => exact Settles.const_succ fun fuel => by rw [drainLoop, drainRound, if_pos hgo, hr]
  · exact Settles.const_succ fun fuel => by rw [drainLoop, drainRound, if_neg hgo]

theorem pumpBody_settles (hE : Lively E) (leftover : Bytes) (total : Nat) (c : Conn H) :
    Settles fun fuel => pumpBody E fuel leftover total c := by
  by_cases hrefused : 0 < leftover.length ∧ E.chunk c.tick leftover = false
  · exact (pumpAnswered_settles hE 400 (offer E leftover c)).congr fun fuel => if_pos hrefused
  · exact (pumpLoop_settles hE (E.mono (if 0 < leftover.length then offer E leftover c else c).tick
      + workerUploadMaxWallS * 1000) (total - leftover.length)
      (if 0 < leftover.length then offer E leftover c else c).next).congr
        fun fuel => if_neg hrefused

theorem ticketPump_settles (hE : Lively E) (req : AppRequest) (c : Conn H) :
    Settles fun fuel => ticketPump E fuel req c := by
  unfold ticketPump
  split
  · exact Settles.bind (responseWriterSend_settles hE _ _) fun _ _ => Settles.const fun _ => rfl
  · dsimp only
    split
    · exact Settles.bind (responseWriterError_settles hE 500 _) fun _ _ => Settles.const fun _ => rfl
    · split
      · exact Settles.bind (responseWriterError_settles hE 500 _)
          fun _ _ => Settles.const fun _ => rfl
      · refine Settles.bind (pumpBody_settles hE _ _ _) fun out d => ?_
        obtain ⟨r, rc⟩ := out
        cases r with
        | ok =>
            exact Settles.bind (responseWriterSend_settles hE _ _)
              fun _ _ => Settles.const fun _ => rfl
        | answered => exact Settles.const fun _ => rfl
        | gone => exact Settles.const fun _ => rfl

/-! ## Integrity and discipline -/

/-- Only the client and the bytes read so far matter, and a call that is back was back before. -/
theorem Disciplined.mono {back back' : Prop} (h : Disciplined E c' back delta)
    (hcli : c'.cli = c.cli) (hrec : c'.received = c.received) (hb : back' → back) :
    Disciplined E c back' delta := by
  have hinfo : consistentInfo c' = consistentInfo c := by
    rw [consistentInfo, consistentInfo, hcli]
  have hbody : ∀ info, bodyOf E c' info = bodyOf E c info := by
    intro info
    rw [bodyOf, bodyOf, hrec]
  refine ⟨?_, h.opened, h.settled, h.answered, fun h' => h.settledOnce (hb h'), ?_,
    fun h' => h.answeredOnce (hb h')⟩
  · rcases h.inOrder with hnone | ⟨info, hi, hpre, hle⟩
    · exact .inl hnone
    · exact .inr ⟨info, hinfo ▸ hi, hbody info ▸ hpre, hle⟩
  · intro h'
    rw [← hinfo]
    exact h.committed (hb h')

theorem drainRejectedBody_log (E : Env) (fuel : Nat) (c : Conn H) :
    (drainRejectedBody E fuel c).2.log = c.log :=
  drainRejectedBody_unchanged Conn.log E fuel c (fun _ => rfl) fun _ _ => rfl

/-- The discarding of a rejected body calls nobody. -/
theorem clientUploadPump_log (E : Env) (fuel threadId : Nat) (req : Option HttpRequest)
    (c : Conn H) : (clientUploadPump E fuel threadId req c).2.log =
      (clientUploadPumpToDrain E fuel threadId req c).2.log := by
  refine andThen_unchanged (v := Conn.log) rfl fun x d => ?_
  cases x with
  | returned rc => rfl
  | atDrain rc =>
      exact andThen_unchanged (v := Conn.log) (drainRejectedBody_log E fuel d) fun _ _ => rfl

/-- The gate claimed the request for a body pump: it is not a folder download. -/
def ClaimedUpload (E : Env) (H : DbHttp) (parsed : HttpRequest) : Prop :=
  ∀ req, E.adaptHeaders parsed = some req →
    req.method = H.methodPut ∨ ¬(req.method = H.methodGet ∧ folderZipIsZipPath req.path)

/-- A claimed upload is either refused by the adapter or is the business of one ticket. -/
theorem clientUploadPumpToDrain_split {parsed : HttpRequest} (hclaim : ClaimedUpload E H parsed)
    (threadId : Nat) (c : Conn H) :
    (∀ fuel, clientUploadPumpToDrain E fuel threadId (some parsed) c =
      andThen (responseWriterError E fuel 500 (c.call (.adapt parsed)))
        fun rc c => (some (.returned rc), c)) ∨
    ∃ req, ∀ fuel, clientUploadPumpToDrain E fuel threadId (some parsed) c =
      ticketPump E fuel req (c.call (.adapt parsed)).next := by
  cases hadapt : E.adaptHeaders parsed with
  | none => exact .inl fun fuel => by simp only [clientUploadPumpToDrain, hadapt]
  | some req =>
      refine .inr ⟨{ req with
        threadId := threadId
        nowUnix := timeHelperGetNow (E.wall (c.call (.adapt parsed)).tick) }, fun fuel => ?_⟩
      simp only [clientUploadPumpToDrain, hadapt]
      by_cases hput : req.method = H.methodPut
      · rw [if_pos hput]; rfl
      · rcases hclaim req hadapt with hput' | hzip
        · exact absurd hput' hput
        · rw [if_neg hput, if_neg hzip]

/--
**Upload body integrity and ticket discipline.** Whatever the polls, reads, sink and
clock answer: the sink is handed a prefix of the body in order, the ticket is settled
exactly once and committed exactly when the whole of a consistent body was taken, and
there is exactly one answer, or none because the peer was gone. The call comes back.
-/
theorem upload_body_integrity (parsed : HttpRequest) (threadId : Nat)
    (hclaim : ClaimedUpload E H parsed) (hfd : 0 ≤ c.cli.ctx.fd) (hE : ValidStatuses E) :
    (∀ fuel, ∃ delta,
      (clientUploadPump E fuel threadId (some parsed) c).2.log = c.log ++ .adapt parsed :: delta ∧
      Disciplined E c ((clientUploadPump E fuel threadId (some parsed) c).1 ≠ none) delta) ∧
    (Lively E → Settles fun fuel => clientUploadPump E fuel threadId (some parsed) c) := by
  have hback : ∀ fuel, (clientUploadPump E fuel threadId (some parsed) c).1 ≠ none →
      (clientUploadPumpToDrain E fuel threadId (some parsed) c).1 ≠ none := by
    intro fuel h hnone
    unfold clientUploadPump at h
    rcases hs : clientUploadPumpToDrain E fuel threadId (some parsed) c with ⟨_ | x, d⟩
    · rw [hs] at h; exact h rfl
    · rw [hs] at hnone; simp at hnone
  refine ⟨fun fuel => ?_, fun hlive => ?_⟩
  · have hlog : (clientUploadPump E fuel threadId (some parsed) c).2.log =
        (clientUploadPumpToDrain E fuel threadId (some parsed) c).2.log :=
      clientUploadPump_log E fuel threadId (some parsed) c
    rcases clientUploadPumpToDrain_split hclaim threadId c with hcall | ⟨req, hcall⟩
    · obtain ⟨r, hr⟩ := responseWriterError_log (c := c.call (.adapt parsed)) E fuel 500 hfd
      refine ⟨[.respond r], ?_, ?_⟩
      · rw [hlog, hcall, log_andThen_respond hr, Conn.call, List.append_assoc]; rfl
      · exact ⟨.inl rfl, by simp, by simp, Nat.le_refl 1, fun _ => by simp, fun _ => by simp,
          fun _ => by simp [responses]⟩
    · obtain ⟨delta, hdelta, hdisc⟩ := ticketPump_disciplined
        (c := (c.call (.adapt parsed)).next) E fuel req hfd hE
      refine ⟨delta, ?_, ?_⟩
      · rw [hlog, hcall, hdelta]
        exact List.append_assoc _ _ _
      · refine hdisc.mono rfl rfl fun h => ?_
        rw [← hcall fuel]
        exact hback fuel h
  · refine Settles.bind ?_ ?_
    · rcases clientUploadPumpToDrain_split hclaim threadId c with hcall | ⟨req, hcall⟩
      · exact (Settles.bind (responseWriterError_settles hlive 500 _)
          fun _ _ => Settles.const fun _ => rfl).congr hcall
      · exact (ticketPump_settles hlive req _).congr hcall
    · intro x d
      cases x with
      | returned rc => exact Settles.const fun _ => rfl
      | atDrain rc =>
          exact Settles.bind (drainRejectedBody_settles hlive d)
            fun _ _ => Settles.const fun _ => rfl

/-- A parser that has claimed a body of five bytes, two of them already buffered. -/
def claimingParser : DbHttp :=
  { DbHttp.small with streamInfo := fun _ _ => some ⟨ascii "ab", 5⟩ }

/-- A client in the middle of that request. -/
def claimedClient : Client claimingParser :=
  { Client.zeroed claimingParser with
    isBusy := true
    ctx := ⟨7, some 0, some .operatorClient⟩
    httpParser := some () }

theorem upload_body_integrity_five :
    let E := Env.smooth { status := 200 }
    let c₀ := Conn.fresh claimedClient
    let o := clientUploadPump E 5 0 (some {}) c₀
    ∃ delta, o.2.log = .adapt {} :: delta ∧ delta.count .commit = 1 ∧
      Disciplined E c₀ (o.1 ≠ none) delta := by
  have hclaim : ClaimedUpload (Env.smooth { status := 200 }) claimingParser {} := by
    intro req hreq
    have hmethod : req.method = 0 := by rw [← Option.some.inj hreq]
    exact .inr fun h => absurd (hmethod.symm.trans h.1) (by decide)
  have hE : ValidStatuses (Env.smooth { status := 200 }) :=
    ⟨fun _ _ _ h => absurd h (by simp [Env.smooth]), fun _ => by simp [Env.smooth]⟩
  obtain ⟨delta, hlog, hdisc⟩ := (upload_body_integrity (c := Conn.fresh claimedClient)
    {} 0 hclaim (by decide) hE).1 5
  have hcommit : ((clientUploadPump (Env.smooth { status := 200 }) 5 0 (some {})
      (Conn.fresh claimedClient)).2.log.count .commit) = 1 := by decide +kernel
  refine ⟨delta, hlog, ?_, hdisc⟩
  rw [hlog] at hcommit
  simpa [Conn.fresh] using hcommit

end DBServer.Proof
