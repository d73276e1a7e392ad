import DBServer.Client.Session
import DBServer.Proof.Upload

/-!
# The send buffer of a parked response

One array is receive buffer, slice buffer, drain scratch and parked response.
While a response is parked nobody may store into its unsent part. Almost every
path keeps to that because a handler that parks a response returns at once; each
function below is shown to end in one of two ways, with a response parked and
intact (`Intact`), or with nothing parked (`Idle`) and free to go on. The one that
goes on all the same is the drain of a rejected upload.
-/

namespace DBServer.Proof

open DBServer Lib

variable {H : DbHttp} {E : Env} {c c' : Conn H} {w resp : Bytes}

/-- The response handed to the socket last. -/
def lastResponse (l : List Call) : Option Bytes :=
  (l.filterMap fun
    | .respond bs => some bs
    | _ => none).getLast?

theorem lastResponse_respond (l : List Call) (bs : Bytes) :
    lastResponse (l ++ [.respond bs]) = some bs := by
  simp [lastResponse, List.filterMap_append]

/-- Nothing was stored into a parked response, and what is parked is the last response. -/
structure Intact (c : Conn H) : Prop where
  overwrote : c.overwrote = false
  parked : c.cli.draining = true →
    ∃ w resp, Sending w resp c ∧ lastResponse c.log = some resp ∧ 0 < resp.length

/-- Nothing is parked. -/
structure Clear (c : Conn H) : Prop where
  overwrote : c.overwrote = false
  idle : Idle c.cli

/-- How a function may end: intact, and clear if it came back without parking. -/
structure Ends {α : Type} (o : Option α × Conn H) : Prop where
  intact : Intact o.2
  clear : o.1 ≠ none → o.2.cli.draining = false → Clear o.2

theorem Clear.intact (h : Clear c) : Intact c :=
  ⟨h.overwrote, fun hd => absurd (h.idle.draining.symm.trans hd) (by simp)⟩

theorem Clear.ends {α : Type} {a : Option α} (h : Clear c) : Ends (a, c) :=
  ⟨h.intact, fun _ _ => h⟩

/-- A store while nothing is parked. -/
theorem Clear.writeBuf (h : Clear c) (off : Nat) (bs : Bytes) : Clear (c.writeBuf off bs) := by
  refine ⟨?_, h.idle.draining, h.idle.sendOff, h.idle.sendLen⟩
  simp only [Conn.writeBuf, h.overwrote, h.idle.draining]
  rfl

theorem Clear.next (h : Clear c) : Clear c.next := ⟨h.overwrote, h.idle⟩

theorem Clear.call (h : Clear c) (e : Call) : Clear (c.call e) := ⟨h.overwrote, h.idle⟩

theorem Clear.receive (h : Clear c) (off k : Nat) : Clear (c.receive E off k) :=
  ⟨(h.writeBuf off _).overwrote, (h.writeBuf off _).idle⟩

theorem Clear.reset (h : Clear c) : Clear c.reset := by
  refine ⟨?_, rfl, rfl, rfl⟩
  simp only [Conn.reset, h.overwrote, h.idle.draining]
  rfl

/-- Two calls in a row, the second of which starts where the first one ended. -/
theorem Ends.andThen {α β : Type} {o : Option α × Conn H} {k : α → Conn H → Option β × Conn H}
    (ho : Ends o) (hk : ∀ a d, Intact d → (d.cli.draining = false → Clear d) → Ends (k a d)) :
    Ends (Lib.andThen o k) := by
  obtain ⟨_ | a, d⟩ := o
  · exact ⟨ho.intact, fun h => absurd rfl h⟩
  · exact hk a d ho.intact (ho.clear (by simp))

/-- A call that only passes its outcome on. -/
theorem Ends.map {α β : Type} {o : Option α × Conn H} (f : α → β) (ho : Ends o) :
    Ends (Lib.andThen o fun a d => (some (f a), d)) :=
  ho.andThen fun _ _ hi hc => ⟨hi, fun _ => hc⟩

/-- A call logged behind the last response. -/
theorem Intact.call {e : Call} (h : Intact c) (he : ∀ l, lastResponse (l ++ [e]) = lastResponse l) :
    Intact (c.call e) :=
  ⟨h.overwrote, fun hd => by
    obtain ⟨w, resp, hs, hlast, hpos⟩ := h.parked hd
    exact ⟨w, resp, ⟨hs.fd, hs.off_le, hs.tail, hs.wire, hs.len, hs.managed⟩,
      (he _).trans hlast, hpos⟩⟩

/-! ## Sending -/

/-- What `_try_send` ends in, if it started from an unbroken buffer. -/
theorem Sent.ends {o : Option Status × Conn H} (h : Sent w resp c o) (hframe : SendFrame c o.2)
    (hover : c.overwrote = false) (hlog : lastResponse c.log = some resp)
    (hpos : 0 < resp.length) : Ends o := by
  have hover' : o.2.overwrote = false := hframe.overwrote.trans hover
  have hlog' : lastResponse o.2.log = some resp := by rw [hframe.log]; exact hlog
  cases h with
  | running h hf => exact ⟨⟨hover', fun _ => ⟨w, resp, h, hlog', hpos⟩⟩, fun hn => absurd rfl hn⟩
  | parked h hd hlt hf =>
      exact ⟨⟨hover', fun _ => ⟨w, resp, h, hlog', hpos⟩⟩,
        fun _ hfree => absurd (hd.symm.trans hfree) (by simp)⟩
  | done hi hw hf => exact Clear.ends ⟨hover', hi⟩
  | failed hi hk hw hf => exact Clear.ends ⟨hover', hi⟩

/-- A call that returned failure parked nothing. -/
theorem Sent.clear_of_failure {o : Option Status × Conn H} (h : Sent w resp c o)
    (hrc : o.1 = some .failure) : o.2.cli.draining = false := by
  cases h with
  | running => simp at hrc
  | parked => simp at hrc
  | done => simp at hrc
  | failed hi => exact hi.draining

theorem LaidOut.clear (h : LaidOut c c') (hc : Clear c) : Clear c' :=
  ⟨(h.overwrote hc.idle.draining).trans hc.overwrote, h.idle hc.idle⟩

/-- A starting call parks its response intact or leaves nothing parked. -/
theorem startSend_ends (E : Env) (fuel : Nat) {n : Nat} (hn : 0 < n) (hfd : 0 ≤ c.cli.ctx.fd)
    (hc : Clear c) : Ends (startSend E fuel n c) ∧
      ((startSend E fuel n c).1 = some .failure →
        (startSend E fuel n c).2.cli.draining = false) := by
  have hs := startSend_sending n hfd hc.idle
  have hsent := trySend_cases E fuel hs
  have hframe := trySend_frame E (c.cli.buf.slice 0 n).length fuel (started n c)
  rw [Buf.length_slice] at hsent hframe
  exact ⟨hsent.ends hframe hc.overwrote (lastResponse_respond _ _)
    (by rw [Buf.length_slice]; exact hn), hsent.clear_of_failure⟩

/-- A starting call parks its response intact or leaves nothing parked. -/
theorem Start.call_ends (E : Env) (fuel : Nat) (start : Start) (hc : Clear c) :
    Ends (start.call E fuel c) ∧
      ((start.call E fuel c).1 = some .failure → (start.call E fuel c).2.cli.draining = false) := by
  rcases Start.split E start c with ⟨d, hl, hcall⟩ | ⟨d, n, hfd, hn, hl, hcall⟩
  · rw [hcall]
    exact ⟨(hl.clear hc).ends, fun _ => (hl.clear hc).idle.draining⟩
  · rw [hcall]
    exact startSend_ends E fuel hn (by rw [hl.ctx]; exact hfd) (hl.clear hc)

theorem responseWriterError_ends (E : Env) (fuel status : Nat) (hc : Clear c) :
    Ends (responseWriterError E fuel status c) := (Start.call_ends E fuel (.error status) hc).1

theorem responseWriterSend_ends (E : Env) (fuel : Nat) (res : AppResponse) (hc : Clear c) :
    Ends (responseWriterSend E fuel res c) := (Start.call_ends E fuel (.send res) hc).1

/-- Resuming keeps a parked response intact until it is out. -/
theorem responseWriterResume_ends (E : Env) (fuel : Nat) (hc : Intact c)
    (hd : c.cli.draining = true) : Ends (responseWriterResume E fuel c) := by
  obtain ⟨w, resp, hs, hlog, hpos⟩ := hc.parked hd
  rw [resume_of_parked E fuel hs hd]
  have hends := (trySend_cases E fuel hs).ends (trySend_frame E resp.length fuel c) hc.overwrote
    hlog hpos
  refine hends.andThen fun rc d hi hfree => ?_
  cases rc with
  | failure => exact ⟨hi, fun _ => hfree⟩
  | success =>
      rw [resumeRest]
      split
      · exact ⟨hi, fun _ => hfree⟩
      · rename_i hnot
        have hclear : Clear d := hfree (Bool.eq_false_of_not_eq_true hnot)
        have hdone : Clear (resumeDone E d).2 := by
          unfold resumeDone
          split <;> exact ⟨hclear.overwrote, hclear.idle.draining, hclear.idle.sendOff,
            hclear.idle.sendLen⟩
        exact hdone.ends

/-! ## Streaming and pumping -/

/-- The archive stream parks nothing. -/
theorem streamClosed_clear : StreamClosed fun c : Conn H => Clear c :=
  ⟨fun _ h => ⟨h.overwrote, h.idle⟩, fun _ _ h => ⟨h.overwrote, h.idle⟩,
    fun _ bs h => h.writeBuf 0 bs, fun _ _ _ h => ⟨h.overwrote, h.idle⟩⟩

theorem clientFolderZipPump_ends (E : Env) (fuel : Nat) (req : AppRequest) (hc : Clear c) :
    Ends (clientFolderZipPump E fuel req c) := by
  unfold clientFolderZipPump
  split
  · exact responseWriterSend_ends E fuel _ (hc.call _).next
  · rename_i h _
    have hstream := streamClosed_clear.zipStream E fuel h (c.call (.zipBegin true)).next
      (hc.call _).next
    refine (Ends.mk hstream.intact fun _ _ => hstream).andThen fun rc d hi hfree => ?_
    exact ⟨hi.call fun l => by simp [lastResponse, List.filterMap_append],
      fun _ hd => ⟨(hfree hd).overwrote, (hfree hd).idle⟩⟩

/-- How the body pump may end: an answer may be parked, any other outcome parks nothing. -/
structure BodyEnds (o : Option (PumpResult × Status) × Conn H) : Prop where
  ends : Ends o
  unanswered : ∀ r rc, o.1 = some (r, rc) → r ≠ .answered → Clear o.2

theorem Clear.bodyEnds {a : Option (PumpResult × Status)} (hc : Clear c) : BodyEnds (a, c) :=
  ⟨hc.ends, fun _ _ _ _ => hc⟩

theorem pumpAnswered_ends (E : Env) (fuel status : Nat) (hc : Clear c) :
    BodyEnds (pumpAnswered (responseWriterError E fuel status c)) := by
  refine ⟨(responseWriterError_ends E fuel status hc).map _, fun r rc hr hne => ?_⟩
  unfold pumpAnswered at hr
  rcases hs : responseWriterError E fuel status c with ⟨_ | rc', d⟩ <;> rw [hs] at hr
  · simp at hr
  · simp only [andThen_some, Option.some.injEq, Prod.mk.injEq] at hr
    exact absurd hr.1.symm hne

/-- The body loop stores into the buffer only while nothing is parked: an answer ends it. -/
theorem pumpLoop_ends (E : Env) (deadline : Nat) : ∀ (fuel remaining : Nat) {c : Conn H},
    Clear c → BodyEnds (pumpLoop E deadline fuel remaining c)
  | 0, _, _, hc => hc.bodyEnds
  | fuel + 1, remaining, c, hc => by
      have hnext := hc.next
      rw [pumpLoop]
      split
      · split
        · exact pumpAnswered_ends E fuel 408 hnext
        · split
          · exact pumpAnswered_ends E fuel 400 hnext
          · exact pumpLoop_ends E deadline fuel remaining hnext
          · exact pumpAnswered_ends E fuel 500 hnext
          · split
            · exact (hc.call .peerClosed).next.bodyEnds
            · exact pumpLoop_ends E deadline fuel remaining hnext
            · exact pumpLoop_ends E deadline fuel remaining hnext
            · exact pumpAnswered_ends E fuel 500 hnext
            · rename_i n _
              have hstored : Clear (c.receive E 0 (min (n + 1) (min remaining H.maxBufferLen))) :=
                hc.receive 0 _
              dsimp only
              split
              · exact pumpLoop_ends E deadline fuel _ ⟨hstored.overwrote, hstored.idle.draining,
                  hstored.idle.sendOff, hstored.idle.sendLen⟩
              · exact pumpAnswered_ends E fuel 400 (hstored.call _).next
      · exact hc.bodyEnds

theorem pumpBody_ends (E : Env) (fuel : Nat) (leftover : Bytes) (total : Nat) (hc : Clear c) :
    BodyEnds (pumpBody E fuel leftover total c) := by
  have hoffer : Clear (offer E leftover c) := (hc.call _).next
  unfold pumpBody
  split
  · exact pumpAnswered_ends E fuel 400 hoffer
  · dsimp only
    split
    · exact pumpLoop_ends E _ fuel _ hoffer.next
    · exact pumpLoop_ends E _ fuel _ hc.next

theorem settleTicket_ends (E : Env) (fuel : Nat) {o : Option (PumpResult × Status) × Conn H}
    (h : BodyEnds o) : Ends (andThen o (settleTicket E fuel)) := by
  obtain ⟨_ | ⟨r, rc⟩, d⟩ := o
  · exact ⟨h.ends.intact, fun hn => absurd rfl hn⟩
  · have habort : Ends (some (Exit.returned rc), d.call .abort) := by
      refine ⟨h.ends.intact.call fun l => by simp [lastResponse, List.filterMap_append], ?_⟩
      intro _ hd
      have hclear := h.ends.clear (by simp) hd
      exact ⟨hclear.overwrote, hclear.idle⟩
    cases r with
    | ok =>
        have hclear := h.unanswered .ok rc rfl (by simp)
        exact (responseWriterSend_ends E fuel _ (hclear.call .commit).next).map _
    | answered => exact habort
    | gone => exact habort

theorem ticketPump_ends (E : Env) (fuel : Nat) (req : AppRequest) (hc : Clear c) :
    Ends (ticketPump E fuel req c) := by
  unfold ticketPump
  split
  · exact (responseWriterSend_ends E fuel _ (hc.call (.begin false)).next).map _
  · have hopen := (hc.call (.begin true)).next
    dsimp only
    split
    · exact (responseWriterError_ends E fuel 500 (hopen.call .abort)).map _
    · split
      · exact (responseWriterError_ends E fuel 500 (hopen.call .abort)).map _
      · exact settleTicket_ends E fuel (pumpBody_ends E fuel _ _ hopen)

theorem clientUploadPumpToDrain_ends (E : Env) (fuel threadId : Nat) (req : Option HttpRequest)
    (hc : Clear c) : Ends (clientUploadPumpToDrain E fuel threadId req c) := by
  unfold clientUploadPumpToDrain
  split
  · exact hc.ends
  · rename_i parsed
    have hadapt := hc.call (.adapt parsed)
    dsimp only
    split
    · exact (responseWriterError_ends E fuel 500 hadapt).map _
    · split
      · exact ticketPump_ends E fuel _ hadapt.next
      · split
        · exact (clientFolderZipPump_ends E fuel _ hadapt.next).map _
        · exact ticketPump_ends E fuel _ hadapt.next

/-! ## Handling -/

/-- After an answer the client is left alone while it is parked, and reset if it is not. -/
theorem afterAnswer_ends (hi : Intact c) (hfree : c.cli.draining = false → Clear c) :
    Intact (afterAnswer c).2 ∧
      ((afterAnswer c).2.cli.draining = false → Clear (afterAnswer c).2) := by
  unfold afterAnswer
  split
  · exact ⟨hi, hfree⟩
  · rename_i hnot
    have hclear := (hfree (Bool.eq_false_of_not_eq_true hnot)).reset
    exact ⟨hclear.intact, fun _ => hclear⟩

theorem srvRouterDispatch_ends (E : Env) (fuel : Nat) (hc : Clear c) :
    Ends (srvRouterDispatch E fuel c) ∧ ((srvRouterDispatch E fuel c).1 = some .failure →
      (srvRouterDispatch E fuel c).2.cli.draining = false) := by
  unfold srvRouterDispatch handlerDbApp
  split
  · exact ⟨hc.ends, fun _ => hc.idle.draining⟩
  · split
    · exact Start.call_ends E fuel (.error 404) hc
    · split
      · dsimp only
        split
        · exact Start.call_ends E fuel (.error 500) (hc.call _)
        · exact Start.call_ends E fuel (.send _) ((hc.call _).call _).next
      · exact Start.call_ends E fuel (.error 404) hc

theorem afterDispatch_ends {rc : Status} (hi : Intact c)
    (hfree : c.cli.draining = false → Clear c) (hrc : rc = .failure → c.cli.draining = false) :
    Intact (afterDispatch rc c).2 ∧
      ((afterDispatch rc c).2.cli.draining = false → Clear (afterDispatch rc c).2) := by
  obtain ⟨d, hd⟩ : ∃ d : Conn H, { c with cli := { c.cli with
      httpParser := c.cli.httpParser.map H.clear
      bufIdx := 0
      httpRequest := {} } } = d := ⟨_, rfl⟩
  have hdi : Intact d := by
    rw [← hd]
    refine ⟨hi.overwrote, fun hp => ?_⟩
    obtain ⟨w, resp, hs, hlast⟩ := hi.parked hp
    exact ⟨w, resp, ⟨hs.fd, hs.off_le, hs.tail, hs.wire, hs.len, hs.managed⟩, hlast⟩
  have hdfree : d.cli.draining = false → Clear d := by
    rw [← hd]
    intro hp
    have hclear := hfree hp
    exact ⟨hclear.overwrote, hclear.idle.draining, hclear.idle.sendOff, hclear.idle.sendLen⟩
  have hreset : d.cli.draining = false → Intact d.reset ∧ (d.reset.cli.draining = false →
      Clear d.reset) := by
    intro hp
    have hclear := (hdfree hp).reset
    exact ⟨hclear.intact, fun _ => hclear⟩
  simp only [afterDispatch, hd]
  split
  · rename_i hne
    -- a dispatch that failed parked nothing
    refine hreset ?_
    rw [← hd]
    cases rc with
    | success => exact absurd rfl hne
    | failure => exact hrc rfl
  · split
    · exact ⟨hdi, hdfree⟩
    · rename_i hnot
      split
      · exact hreset (by rw [← hd]; exact Bool.eq_false_of_not_eq_true hnot)
      · exact ⟨hdi, hdfree⟩

theorem afterParse_ends (E : Env) (fuel threadId : Nat) {status : HttpStatus}
    {req : Option HttpRequest} (hc : Clear c) {out : Option Exit × Conn H}
    (h : afterParse E fuel threadId status req c = some out) : Ends out := by
  -- every answer but the one to a whole request ends the connection
  have hanswered : ∀ {α : Type} {o : Option α × Conn H}, Ends o →
      Ends (andThen o fun _ d => (some (Exit.returned (afterAnswer d).1), (afterAnswer d).2)) := by
    intro α o ho
    refine ho.andThen fun _ d hi hfree => ?_
    have hafter := afterAnswer_ends hi hfree
    exact ⟨hafter.1, fun _ => hafter.2⟩
  unfold afterParse at h
  split at h
  · obtain rfl := Option.some.inj h
    have hclosing : Clear (closing c) := ⟨hc.overwrote, hc.idle.draining, hc.idle.sendOff,
      hc.idle.sendLen⟩
    refine (clientUploadPumpToDrain_ends E fuel threadId _ hclosing).andThen
      fun x d hi hfree => ?_
    cases x with
    | returned rc =>
        have hafter := afterAnswer_ends hi hfree
        exact ⟨hafter.1, fun _ => hafter.2⟩
    | atDrain rc => exact ⟨hi, fun _ => hfree⟩
  · obtain rfl := Option.some.inj h
    exact hanswered (responseWriterError_ends E fuel 413 hc)
  · obtain rfl := Option.some.inj h
    exact hanswered (responseWriterError_ends E fuel 400 hc)
  · obtain rfl := Option.some.inj h
    exact hc.reset.ends
  · rename_i req
    split at h
    · rename_i hcomplete
      obtain rfl := Option.some.inj h
      have hstored : Clear { c with cli := (clientStoreRequest c.cli req threadId).2 } := by
        simp only [clientStoreRequest, hcomplete]
        exact ⟨hc.overwrote, hc.idle.draining, hc.idle.sendOff, hc.idle.sendLen⟩
      obtain ⟨hends, hfail⟩ := srvRouterDispatch_ends E fuel hstored
      rcases hs : srvRouterDispatch E fuel
        { c with cli := (clientStoreRequest c.cli req threadId).2 } with ⟨_ | rc, d⟩
      · rw [hs] at hends
        exact ⟨hends.intact, fun hn => absurd rfl hn⟩
      · rw [hs] at hends hfail
        have hafter := afterDispatch_ends hends.intact (hends.clear (by simp))
          (fun hrc => hfail (congrArg some hrc))
        exact ⟨hafter.1, fun _ => hafter.2⟩
    · exact absurd h (by simp)

theorem clientHandleToDrain_ends (E : Env) (threadId : Nat) : ∀ (fuel : Nat) {c : Conn H},
    Clear c → Ends (clientHandleToDrain E threadId fuel c)
  | 0, _, hc => hc.ends
  | fuel + 1, c, hc => by
      rw [clientHandleToDrain]
      split
      · exact hc.ends
      · rename_i parser _
        split
        · exact hc.reset.ends
        · split
          · rename_i n _
            have hread := hc.receive (E := E) c.cli.bufIdx
              (min (n + 1) (H.maxBufferLen - c.cli.bufIdx))
            have hparsed : ∀ p : Option H.Parser, Clear { (readRequest E n c).2 with
                cli := { (readRequest E n c).2.cli with httpParser := p } } := fun p =>
              ⟨hread.overwrote, hread.idle.draining, hread.idle.sendOff, hread.idle.sendLen⟩
            dsimp only
            split
            · rename_i hparse
              exact afterParse_ends E fuel threadId (hparsed _) hparse
            · exact clientHandleToDrain_ends E threadId fuel (hparsed _)
          · exact hc.reset.ends
          · exact hc.reset.ends
          · exact clientHandleToDrain_ends E threadId fuel hc.next
          · exact hc.next.ends

/-! ## A round of the drain -/

/-- How many bytes the next round of `_drain_rejected_body` stores at the start of `cli->buf`. -/
def discards (E : Env) (deadline drained : Nat) (c : Conn H) : Nat :=
  if drained < uploadRejectDrainBytes ∧ E.mono c.tick < deadline ∧ E.pollIn c.tick = .ready then
    match E.read c.tick with
    | .data n => min (n + 1) H.maxBufferLen
    | _ => 0
  else 0

/-- A round of the drain stores that many bytes, or none and leaves the buffer alone. -/
theorem drainRound_cases (E : Env) (deadline drained : Nat) (c : Conn H) :
    (drainRound E deadline drained c).2 = c.next ∧ discards E deadline drained c = 0 ∨
    (drainRound E deadline drained c).2 =
      (c.receive E 0 (discards E deadline drained c)).next := by
  unfold drainRound discards
  split
  · cases E.read c.tick with
    | data n => exact .inr rfl
    | eof => exact .inl ⟨rfl, rfl⟩
    | eintr => exact .inl ⟨rfl, rfl⟩
    | eagain => exact .inl ⟨rfl, rfl⟩
    | error => exact .inl ⟨rfl, rfl⟩
  · exact .inl ⟨rfl, rfl⟩

/-- Bytes stored in front of `send_off` do not touch what is still to be sent. -/
theorem Intact.receive {k : Nat} (h : Intact c) (hd : c.cli.draining = true)
    (hk : k ≤ c.cli.sendOff) : Intact (c.receive E 0 k) := by
  refine ⟨?_, fun _ => ?_⟩
  · have hclear : ¬c.cli.sendOff < k := by omega
    simp [Conn.receive, Conn.writeBuf, h.overwrote, hclear]
  · obtain ⟨w, resp, hs, hlog, hpos⟩ := h.parked hd
    refine ⟨w, resp, ⟨hs.fd, hs.off_le, ?_, hs.wire, hs.len, hs.managed⟩, hlog, hpos⟩
    have hfront : 0 + (Buf.slice E.peer c.received k).length ≤ c.cli.sendOff := by
      rw [Buf.length_slice]; omega
    exact (Buf.slice_write_of_disjoint (.inr hfront)).trans hs.tail

theorem Intact.next (h : Intact c) : Intact c.next :=
  ⟨h.overwrote, fun hd => by
    obtain ⟨w, resp, hs, hrest⟩ := h.parked hd
    exact ⟨w, resp, hs.next, hrest⟩⟩

/-! ## Every step of a client's life -/

/-- The invariant of a run: intact, and clear whenever the thread is between two calls. -/
structure Guarded (s : Session H) : Prop where
  intact : Intact s.conn
  clear : s.phase ≠ .running → s.conn.cli.draining = false → Clear s.conn

theorem remove_guarded (h : Intact c) (hfree : c.cli.draining = false → Clear c) :
    Guarded (remove c) := by
  unfold remove clientShutdown
  split
  · have hgone : Clear ({ c with cli := { clientResetMessage c.cli with
        ctx := ⟨-1, none, none⟩
        isBusy := false
        connectionPolicy := 0
        lastActivity := 0
        requestCount := 0
        remoteIpBe := 0
        remotePortBe := 0 } } : Conn H) := ⟨h.overwrote, rfl, rfl, rfl⟩
    exact ⟨hgone.intact, fun _ _ => hgone⟩
  · exact ⟨h, fun _ => hfree⟩

theorem conclude_guarded {o : Option Status × Conn H} (h : Ends o) : Guarded (conclude o) := by
  obtain ⟨_ | rc, d⟩ := o
  · exact ⟨h.intact, fun hrun => absurd rfl hrun⟩
  · have hfree := h.clear (by simp)
    cases rc with
    | success => exact ⟨h.intact, fun _ => hfree⟩
    | failure => exact remove_guarded h.intact hfree

theorem handleEvent_guarded (E : Env) (threadId fuel : Nat) (hi : Intact c)
    (hfree : c.cli.draining = false → Clear c) : Guarded (handleEvent E threadId fuel c) := by
  unfold handleEvent
  split
  · rename_i hd
    exact conclude_guarded (responseWriterResume_ends E fuel hi hd)
  · rename_i hnot
    have hclear := hfree (Bool.eq_false_of_not_eq_true hnot)
    split
    · exact remove_guarded hi hfree
    · have hends := clientHandleToDrain_ends E threadId fuel hclear
      rcases hs : clientHandleToDrain E threadId fuel c with ⟨_ | x, d⟩ <;> rw [hs] at hends
      · exact ⟨hends.intact, fun hrun => absurd rfl hrun⟩
      · cases x with
        | returned rc => exact conclude_guarded ⟨hends.intact, fun _ => hends.clear (by simp)⟩
        | atDrain rc =>
            exact ⟨hends.intact.next, fun _ hd => (hends.clear (by simp) hd).next⟩

/-- A round that stays in front of `send_off`, if a response is parked. -/
theorem handleRound_guarded (E : Env) (deadline drained : Nat) (hi : Intact c)
    (hfree : c.cli.draining = false → Clear c)
    (hspare : c.cli.draining = true → discards E deadline drained c ≤ c.cli.sendOff) :
    Guarded (handleRound E deadline drained c) := by
  have hafter : Intact (drainRound E deadline drained c).2 ∧
      ((drainRound E deadline drained c).2.cli.draining = false →
        Clear (drainRound E deadline drained c).2) := by
    rcases drainRound_cases E deadline drained c with ⟨hd, _⟩ | hd <;> rw [hd]
    · exact ⟨hi.next, fun h => (hfree h).next⟩
    · refine ⟨?_, fun h => ((hfree h).receive 0 _).next⟩
      cases hp : c.cli.draining with
      | false => exact ((hfree hp).receive 0 _).next.intact
      | true => exact (hi.receive hp (hspare hp)).next
  rw [handleRound]
  rcases hs : drainRound E deadline drained c with ⟨_ | k, d⟩ <;> rw [hs] at hafter
  · have hend := afterAnswer_ends hafter.1 hafter.2
    exact conclude_guarded ⟨hend.1, fun _ => hend.2⟩
  · exact ⟨hafter.1, fun _ => hafter.2⟩

/--
The steps that leave a parked response alone: all, except a round of the drain of
a rejected upload that reads past `send_off`.
-/
def Spares (E : Env) (s : Session H) : SessionAct → Prop
  | .round => ∀ deadline drained, s.phase = .rejecting deadline drained →
      s.conn.cli.draining = true → discards E deadline drained s.conn ≤ s.conn.cli.sendOff
  | _ => True

theorem step_round {threadId deadline drained : Nat} {s : Session H}
    (h : s.phase = .rejecting deadline drained) :
    (session E threadId).step s .round = some (handleRound E deadline drained s.conn) := by
  simp only [session, h]

theorem step_guarded {threadId : Nat} {s t : Session H} {a : SessionAct} (h : Guarded s)
    (hok : Spares E s a) (hstep : (session E threadId).step s a = some t) : Guarded t := by
  obtain ⟨d, phase⟩ := s
  cases phase with
  | idle =>
      have hfree := h.clear (by simp)
      cases a with
      | event fuel =>
          obtain rfl := Option.some.inj hstep
          exact handleEvent_guarded E threadId fuel h.intact hfree
      | round => exact absurd hstep (by simp [session])
      | remove =>
          obtain rfl := Option.some.inj hstep
          exact remove_guarded h.intact hfree
  | rejecting deadline drained =>
      have hfree := h.clear (by simp)
      cases a with
      | round =>
          obtain rfl := Option.some.inj hstep
          exact handleRound_guarded E deadline drained h.intact hfree (hok deadline drained rfl)
      | event fuel => exact absurd hstep (by simp [session])
      | remove => exact absurd hstep (by simp [session])
  | running => exact absurd hstep (by cases a <;> simp [session])
  | removed => exact absurd hstep (by cases a <;> simp [session])

theorem guarded_reachable {threadId : Nat} {s : Session H}
    (h : (session E threadId).ReachableBy (Spares E) s) : Guarded s := by
  refine h.invariant ?_ fun s a t _ hs hok hstep => step_guarded hs hok hstep
  rintro s ⟨_, hover, _, hidle⟩
  have hclear : Clear s.conn := ⟨hover, hidle.1, hidle.2.1, hidle.2.2⟩
  exact ⟨hclear.intact, fun _ _ => hclear⟩

/-! ## The buffer belongs to the parked response -/

/-- Nobody stored into a parked response, so its unsent bytes are those that were serialized. -/
structure Exclusive (c : Conn H) : Prop where
  untouched : c.overwrote = false
  unsent : c.cli.draining = true → ∃ w resp, lastResponse c.log = some resp ∧
    c.cli.sendLen = resp.length ∧ c.wire = w ++ resp.take c.cli.sendOff ∧
    c.cli.buf.slice c.cli.sendOff (c.cli.sendLen - c.cli.sendOff) = resp.drop c.cli.sendOff

theorem Intact.exclusive (h : Intact c) : Exclusive c := by
  refine ⟨h.overwrote, fun hd => ?_⟩
  obtain ⟨w, resp, hs, hlog, _⟩ := h.parked hd
  have hlen : c.cli.sendLen = resp.length := by rw [hs.len, hd]; rfl
  exact ⟨w, resp, hlog, hlen, hs.wire, by rw [hlen]; exact hs.tail⟩

/-- Neither the end of a call nor a removal forgets that a response was overwritten. -/
theorem conclude_overwrote {o : Option Status × Conn H} (h : o.2.overwrote = true) :
    (conclude o).conn.overwrote = true := by
  obtain ⟨_ | rc, d⟩ := o
  · exact h
  · cases rc with
    | success => exact h
    | failure => exact h

/-- A round that reads past `send_off` of a parked response does overwrite it. -/
theorem handleRound_overwrites (E : Env) (deadline drained : Nat) (hd : c.cli.draining = true)
    (hlen : 0 < c.cli.sendLen) (hover : c.cli.sendOff < discards E deadline drained c) :
    (handleRound E deadline drained c).conn.overwrote = true := by
  have hhit : (drainRound E deadline drained c).2.overwrote = true := by
    rcases drainRound_cases E deadline drained c with ⟨_, hnone⟩ | hs
    · omega
    · rw [hs]
      simp [Conn.receive, Conn.writeBuf, Conn.next, hd, hlen, hover]
  rw [handleRound]
  rcases hs : drainRound E deadline drained c with ⟨_ | k, d⟩ <;> rw [hs] at hhit
  · have hafter : (afterAnswer d).2.overwrote = true := by
      have hkept : d.overwrote = true := hhit
      unfold afterAnswer
      split
      · exact hkept
      · simp [Conn.reset, hkept]
    exact conclude_overwrote hafter
  · exact hhit

/--
**The send buffer is exclusive while a response is parked**, in every run that
keeps to `Spares`; and from any state of such a run the next round of the drain
leaves the response alone exactly if it keeps to it.
-/
theorem send_buffer_exclusive {threadId : Nat} {s : Session H}
    (h : (session E threadId).ReachableBy (Spares E) s) :
    Exclusive s.conn ∧ ∀ t, (session E threadId).step s .round = some t →
      (Exclusive t.conn ↔ Spares E s .round) := by
  have hs := guarded_reachable h
  refine ⟨hs.intact.exclusive, fun t hstep => ⟨?_, fun hok =>
    (step_guarded hs hok hstep).intact.exclusive⟩⟩
  intro ht deadline drained hphase hd
  by_contra hover
  obtain ⟨w, resp, hsend, _, hpos⟩ := hs.intact.parked hd
  have hlen : 0 < s.conn.cli.sendLen := by rw [hsend.len, hd]; exact hpos
  have hround : handleRound E deadline drained s.conn = t :=
    Option.some.inj ((step_round hphase).symm.trans hstep)
  have hhit := handleRound_overwrites E deadline drained hd hlen (Nat.not_le.mp hover)
  rw [hround, ht.untouched] at hhit
  exact absurd hhit (by simp)

/-! ## A rejected upload -/

/-- A library whose parser claims every request for the upload gate. -/
def DbHttp.claiming : DbHttp :=
  { DbHttp.small with exec := fun p _ _ => (.headersCompleteStream, some {}, p) }

/-- An application that refuses the upload, and a peer that goes on sending. -/
def refusing (write : Nat → WriteReply) (sent : Nat) : Env :=
  { Env.smooth { status := 409 } with
    uploadBegin := fun _ _ => some { status := 409 }
    write := write
    read := fun _ => .data sent }

/-- A client that has just been adopted. -/
def adopted : Session DbHttp.claiming where
  conn := Conn.fresh { Client.zeroed DbHttp.claiming with
    isBusy := true
    ctx := ⟨7, some 0, some .operatorClient⟩
    httpParser := some () }
  phase := .idle

/-- Nothing of the refusal gets out, and 41 bytes of the body are read over it. -/
theorem send_buffer_not_exclusive : ¬∀ (H : DbHttp) (E : Env) (threadId : Nat) (s : Session H),
    (session E threadId).Reachable s → Exclusive s.conn := by
  intro hall
  let E := refusing (fun _ => .eagain) 40
  let parked := handleEvent E 0 3 adopted.conn
  have hphase : parked.phase = .rejecting 2000 0 := by decide +kernel
  have hinit : (session E 0).Reachable adopted := .init ⟨rfl, rfl, rfl, rfl, rfl, rfl⟩
  have hparked : (session E 0).Reachable parked := hinit.tail (a := .event 3) trivial rfl
  have hround := hall _ _ _ _ (hparked.tail trivial (step_round hphase))
  have hhit : (handleRound E 2000 0 parked.conn).conn.overwrote = true := by decide +kernel
  exact absurd (hround.untouched.symm.trans hhit) (by simp)

/-- Fifty bytes of the refusal get out first: 41 bytes of the body stay in front of the rest. -/
theorem send_buffer_exclusive_refused :
    let E := refusing (fun t => if t < 4 then .wrote 49 else .eagain) 40
    let parked := handleEvent E 0 4 adopted.conn
    (handleRound E 2000 0 parked.conn).conn.cli.draining = true ∧
      (handleRound E 2000 0 parked.conn).conn.cli.sendOff = 50 ∧
      Exclusive (handleRound E 2000 0 parked.conn).conn := by
  intro E parked
  have hphase : parked.phase = .rejecting 2000 0 := by decide +kernel
  have hinit : (session E 0).ReachableBy (Spares E) adopted := .init ⟨rfl, rfl, rfl, rfl, rfl, rfl⟩
  have hparked : (session E 0).ReachableBy (Spares E) parked :=
    hinit.tail (a := .event 4) trivial rfl
  have hspares : Spares E parked .round := by
    intro deadline drained hp _
    obtain ⟨rfl, rfl⟩ : 2000 = deadline ∧ 0 = drained := by
      rw [hphase, Phase.rejecting.injEq] at hp
      exact hp
    have hfront : discards E 2000 0 parked.conn ≤ parked.conn.cli.sendOff := by decide +kernel
    exact hfront
  have hround := hparked.tail hspares (step_round hphase)
  exact ⟨by decide +kernel, by decide +kernel, (send_buffer_exclusive hround).1⟩

end DBServer.Proof
