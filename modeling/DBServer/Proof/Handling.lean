import DBServer.Proof.Kept

/-!
# What handling a client comes to

Up to its answer `client_handle` works on its client: it reads, parses, feeds the
application, and stores what it read. Then one answer is started at most, and what is
left of the call only looks at how that went. `Working` is a property that the work
keeps; `Handled` lists the ends the call can come to from it. Whoever wants to know what
a call does to a client shows that the work keeps what he needs, and goes through the
ends.
-/

namespace DBServer.Proof

open DBServer Lib

variable {H : DbHttp} {E : Env} {P : Conn H → Prop} {c c' d : Conn H} {rc : Status}

/-- What `_try_send` leaves of flag and mask. -/
theorem trySend_mask (E : Env) (total : Nat) : ∀ (fuel : Nat) (c : Conn H) {rc : Status}
    {d : Conn H}, trySend E total fuel c = (some rc, d) →
    (rc = .success ∧ d.faults = c.faults ∧
      ((d.cli.draining = true ∧ d.mask = clientEventsOut) ∨
        (d.cli.draining = false ∧ d.mask = c.mask))) ∨
    (rc = .failure ∧ d.faults = c.faults + 1 ∧
      (c.cli.draining = false → d.cli.draining = false))
  | 0, _, _, _, h => by
      rw [trySend] at h
      exact absurd h (by simp)
  | fuel + 1, c, rc, d, h => by
      rw [trySend] at h
      split at h
      · split at h
        · have hrest := trySend_mask E total fuel _ h
          exact hrest
        · have hrest := trySend_mask E total fuel _ h
          exact hrest
        · split at h
          · unfold park at h
            split at h
            · obtain ⟨hrc, rfl⟩ := Prod.mk.inj h
              exact .inl ⟨(Option.some.inj hrc).symm, rfl, .inl ⟨rfl, rfl⟩⟩
            · obtain ⟨hrc, rfl⟩ := Prod.mk.inj h
              exact .inr ⟨(Option.some.inj hrc).symm, rfl, fun _ => rfl⟩
          · split at h
            · have hrest := trySend_mask E total fuel _ h
              exact hrest
            · obtain ⟨hrc, rfl⟩ := Prod.mk.inj h
              exact .inr ⟨(Option.some.inj hrc).symm, rfl, id⟩
        · obtain ⟨hrc, rfl⟩ := Prod.mk.inj h
          exact .inr ⟨(Option.some.inj hrc).symm, rfl, fun _ => rfl⟩
      · obtain ⟨hrc, rfl⟩ := Prod.mk.inj h
        exact .inl ⟨(Option.some.inj hrc).symm, rfl, .inr ⟨rfl, rfl⟩⟩

/-- Closed under what is done to a client between two answers, its policy apart. -/
structure Working (E : Env) (P : Conn H → Prop) : Prop where
  next : ∀ c : Conn H, P c → P c.next
  call : ∀ (c : Conn H) (e : Call), (∀ bs, e ≠ .respond bs) → e ≠ .zipBegin true → P c →
    P (c.call e)
  receive : ∀ (c : Conn H) (off k : Nat), P c → P (c.receive E off k)
  parser : ∀ (c : Conn H) (p : H.Parser), P c →
    P { c with cli := { c.cli with httpParser := some p } }
  touched : ∀ (c : Conn H) (wall : Int), P c →
    P { c with cli := { c.cli with lastActivity := timeHelperGetNow wall } }
  client : ∀ (c : Conn H) (b n : Nat) (r : HttpRequest), P c →
    P { c with cli := { c.cli with bufIdx := b, requestCount := n, httpRequest := r } }

/-- What can lie between an answer and the end of the call: an abort, and a body discarded. -/
structure Beyond (c c' : Conn H) : Prop where
  cli : ∃ b, c'.cli = { c.cli with buf := b }
  wire : c'.wire = c.wire
  mask : c'.mask = c.mask
  faults : c'.faults = c.faults
  log : c'.log = c.log ∨ c'.log = c.log ++ [.abort]

theorem Beyond.refl (c : Conn H) : Beyond c c := ⟨⟨_, rfl⟩, rfl, rfl, rfl, .inl rfl⟩

/-- Discarding a body stores into the buffer and changes nothing else of these. -/
theorem drainRejectedBody_beyond (E : Env) (fuel : Nat) (c : Conn H) :
    (drainRejectedBody E fuel c).2.log = c.log ∧ Beyond c (drainRejectedBody E fuel c).2 := by
  have hsame := drainRejectedBody_unchanged
    (fun c : Conn H => ({ c.cli with buf := Buf.zero }, c.wire, c.mask, c.faults, c.log)) E fuel c
    (fun _ => rfl) fun _ _ => rfl
  simp only [Prod.mk.injEq] at hsame
  obtain ⟨hcli, hwire, hmask, hfaults, hlog⟩ := hsame
  have hbuf := congrArg
    (fun x : Client H => { x with buf := (drainRejectedBody E fuel c).2.cli.buf }) hcli
  exact ⟨hlog, ⟨_, hbuf⟩, hwire, hmask, hfaults, .inl hlog⟩

/-- A body discarded behind whatever else lay behind the answer. -/
theorem Beyond.drain (h : Beyond c c') (hd : Beyond c' d) (hlog : d.log = c'.log) : Beyond c d := by
  obtain ⟨b, hcli⟩ := h.cli
  obtain ⟨b', hcli'⟩ := hd.cli
  refine ⟨⟨b', by rw [hcli', hcli]⟩, hd.wire.trans h.wire, hd.mask.trans h.mask,
    hd.faults.trans h.faults, ?_⟩
  rw [hlog]
  exact h.log

/-! ## The pumps -/

/-- How `client_upload_pump` comes back, its drain apart. -/
inductive Pumps (E : Env) (P : Conn H → Prop) : Option Exit × Conn H → Prop where
  | running {d : Conn H} : Pumps E P (none, d)
  | unanswered {rc : Status} {d : Conn H} : P d → Pumps E P (some (.returned rc), d)
  | answered {start : Start} {fuel : Nat} {d₀ d d' : Conn H} {rc : Status} {x : Exit} : P d₀ →
      start.call E fuel d₀ = (some rc, d) → Beyond d d' → x = .returned rc ∨ x = .atDrain rc →
      Pumps E P (some x, d')
  | streamed {h : FolderZip} {fuel : Nat} {d₀ d : Conn H} {rc : Status} : P d₀ →
      zipStream E fuel h (d₀.call (.zipBegin true)).next = (some rc, d) →
      Pumps E P (some (.returned rc), d.call .zipRelease)

/-- How `_pump_body` comes back. -/
inductive BodyPumps (E : Env) (P : Conn H → Prop) :
    Option (PumpResult × Status) × Conn H → Prop where
  | running {d : Conn H} : BodyPumps E P (none, d)
  | unanswered {r : PumpResult} {rc : Status} {d : Conn H} : P d → BodyPumps E P (some (r, rc), d)
  | answered {status fuel : Nat} {d₀ d : Conn H} {rc : Status} : P d₀ →
      responseWriterError E fuel status d₀ = (some rc, d) →
      BodyPumps E P (some (.answered, rc), d)

/-- An answer whose status is passed on as it is. -/
theorem pumps_answered (start : Start) (fuel : Nat) (hc : P c) {f : Status → Exit}
    (hf : ∀ rc, f rc = .returned rc ∨ f rc = .atDrain rc) :
    Pumps E P (andThen (start.call E fuel c) fun rc c => (some (f rc), c)) := by
  rcases hs : start.call E fuel c with ⟨_ | rc, d⟩
  · exact .running
  · exact .answered hc hs (.refl d) (hf rc)

theorem pumpAnswered_pumps (fuel status : Nat) (hc : P c) :
    BodyPumps E P (pumpAnswered (responseWriterError E fuel status c)) := by
  unfold pumpAnswered
  rcases hs : responseWriterError E fuel status c with ⟨_ | rc, d⟩
  · exact .running
  · exact .answered hc hs

namespace Working

variable (hP : Working E P)
include hP

theorem offer (bs : Bytes) (hc : P c) : P (offer E bs c) :=
  hP.next _ (hP.call c _ (by simp) (by simp) hc)

theorem touch (hc : P c) : P (touch E c) :=
  hP.touched c (E.wall c.tick) hc

theorem pumpLoop (deadline : Nat) : ∀ (fuel remaining : Nat) {c : Conn H}, P c →
    BodyPumps E P (pumpLoop E deadline fuel remaining c)
  | 0, _, _, _ => .running
  | fuel + 1, remaining, c, hc => by
      have hnext := hP.next c hc
      rw [DBServer.pumpLoop]
      split
      · split
        · exact pumpAnswered_pumps fuel 408 hnext
        · split
          · exact pumpAnswered_pumps fuel 400 hnext
          · exact pumpLoop deadline fuel remaining hnext
          · exact pumpAnswered_pumps fuel 500 hnext
          · split
            · exact .unanswered (hP.next _ (hP.call c _ (by simp) (by simp) hc))
            · exact pumpLoop deadline fuel remaining hnext
            · exact pumpLoop deadline fuel remaining hnext
            · exact pumpAnswered_pumps fuel 500 hnext
            · rename_i n _
              have hstored := hP.receive c 0 (min (n + 1) (min remaining H.maxBufferLen)) hc
              dsimp only
              split
              · exact pumpLoop deadline fuel _ (hP.touch (hP.offer _ hstored))
              · exact pumpAnswered_pumps fuel 400 (hP.offer _ hstored)
      · exact .unanswered hc

theorem pumpBody (fuel : Nat) (leftover : Bytes) (total : Nat) (hc : P c) :
    BodyPumps E P (pumpBody E fuel leftover total c) := by
  have hoffer := hP.offer leftover hc
  unfold DBServer.pumpBody
  split
  · exact pumpAnswered_pumps fuel 400 hoffer
  · dsimp only
    split
    · exact hP.pumpLoop _ fuel _ (hP.next _ hoffer)
    · exact hP.pumpLoop _ fuel _ (hP.next _ hc)

theorem settleTicket (fuel : Nat) {o : Option (PumpResult × Status) × Conn H}
    (h : BodyPumps E P o) : Pumps E P (andThen o (settleTicket E fuel)) := by
  cases h with
  | running => exact .running
  | @unanswered r rc d hd =>
      cases r with
      | ok =>
          exact pumps_answered (.send (E.uploadCommit d.tick)) fuel
            (hP.next _ (hP.call d .commit (by simp) (by simp) hd)) fun rc => .inl rfl
      | answered => exact .unanswered (hP.call d .abort (by simp) (by simp) hd)
      | gone => exact .unanswered (hP.call d .abort (by simp) (by simp) hd)
  | @answered status fuel' d₀ d rc hd₀ hcall =>
      have hsent : (Start.error status).call E fuel' d₀ = (some rc, d) := hcall
      exact .answered hd₀ hsent ⟨⟨_, rfl⟩, rfl, rfl, rfl, .inr rfl⟩ (.inl rfl)

theorem ticketPump (fuel : Nat) (req : AppRequest) (hc : P c) :
    Pumps E P (ticketPump E fuel req c) := by
  unfold DBServer.ticketPump
  split
  · rename_i res _
    exact pumps_answered (.send res) fuel (hP.next _ (hP.call c _ (by simp) (by simp) hc))
      fun rc => .inr rfl
  · have hopen := hP.next _ (hP.call c (.begin true) (by simp) (by simp) hc)
    have habort := hP.call _ .abort (by simp) (by simp) hopen
    dsimp only
    split
    · exact pumps_answered (.error 500) fuel habort fun rc => .inl rfl
    · split
      · exact pumps_answered (.error 500) fuel habort fun rc => .inl rfl
      · exact hP.settleTicket fuel (hP.pumpBody fuel _ _ hopen)

theorem clientFolderZipPump (fuel : Nat) (req : AppRequest) (hc : P c) :
    Pumps E P (andThen (clientFolderZipPump E fuel req c) fun rc c => (some (.returned rc), c)) := by
  unfold DBServer.clientFolderZipPump
  split
  · rename_i res _
    exact pumps_answered (.send res) fuel (hP.next _ (hP.call c _ (by simp) (by simp) hc))
      fun rc => .inl rfl
  · rename_i h _
    rcases hs : zipStream E fuel h (c.call (.zipBegin true)).next with ⟨_ | rc, d⟩
    · exact .running
    · exact .streamed hc hs

theorem clientUploadPumpToDrain (fuel threadId : Nat) (req : Option HttpRequest) (hc : P c) :
    Pumps E P (clientUploadPumpToDrain E fuel threadId req c) := by
  unfold DBServer.clientUploadPumpToDrain
  split
  · exact .unanswered hc
  · rename_i parsed
    have hadapt := hP.call c (.adapt parsed) (by simp) (by simp) hc
    dsimp only
    split
    · exact pumps_answered (.error 500) fuel hadapt fun rc => .inl rfl
    · split
      · exact hP.ticketPump fuel _ (hP.next _ hadapt)
      · split
        · exact hP.clientFolderZipPump fuel _ (hP.next _ hadapt)
        · exact hP.ticketPump fuel _ (hP.next _ hadapt)

end Working

/-! ## `client_handle` -/

/-- The client is kept behind an answer only while the answer is parked. -/
theorem afterAnswer_success (h : (afterAnswer c).1 = .success) :
    c.cli.draining = true ∧ (afterAnswer c).2 = c := by
  unfold afterAnswer at h ⊢
  split
  · rename_i hd
    exact ⟨hd, rfl⟩
  · rename_i hd
    rw [if_neg hd] at h
    cases h

theorem afterDispatch_success (h : (afterDispatch rc c).1 = .success) :
    rc = .success ∧ (afterDispatch rc c).2 = { c with cli := { c.cli with
      httpParser := c.cli.httpParser.map H.clear, bufIdx := 0, httpRequest := {} } } := by
  simp only [afterDispatch] at h ⊢
  split
  · rename_i hrc
    rw [if_pos hrc] at h
    cases h
  · rename_i hrc
    rw [if_neg hrc] at h
    refine ⟨not_not.mp hrc, ?_⟩
    split
    · rfl
    · rename_i hd
      rw [if_neg hd] at h
      split
      · rename_i hclose
        rw [if_pos hclose] at h
        cases h
      · rfl

/-- A policy the parser has reported with a request. -/
def PolicyReported (H : DbHttp) (policy : Nat) : Prop :=
  ∃ parser buf k req, (H.exec parser buf k).2.1 = some req ∧ req.connectionPolicy = policy

/-- Whatever answer is started now will end the connection. -/
def Parting (start : Start) (c : Conn H) : Prop :=
  (∃ status, start = .error status) ∨ c.cli.connectionPolicy = H.close

/-- How `client_handle` comes back, or how it comes to the discarding of a rejected body. -/
inductive Handled (E : Env) (P : Conn H → Prop) : Option Exit × Conn H → Prop where
  | running {d : Conn H} : Handled E P (none, d)
  /-- There is nothing more to read. -/
  | waiting {d : Conn H} : P d → Handled E P (some (.returned .success), d)
  | silent {d : Conn H} : P d → Handled E P (some (.returned .failure), d)
  | silentReset {d : Conn H} : P d → Handled E P (some (.returned .failure), d.reset)
  | dispatched {start : Start} {fuel : Nat} {d₀ d : Conn H} {rc : Status} : P d₀ →
      PolicyReported H d₀.cli.connectionPolicy → start.call E fuel d₀ = (some rc, d) →
      Handled E P (some (.returned (afterDispatch rc d).1), (afterDispatch rc d).2)
  | unanswered {d : Conn H} : P d →
      Handled E P (some (.returned (afterAnswer d).1), (afterAnswer d).2)
  | answered {start : Start} {fuel : Nat} {d₀ d d' : Conn H} {rc : Status} : P d₀ →
      Parting start d₀ → start.call E fuel d₀ = (some rc, d) → Beyond d d' →
      Handled E P (some (.returned (afterAnswer d').1), (afterAnswer d').2)
  | streamed {h : FolderZip} {fuel : Nat} {d₀ d : Conn H} {rc : Status} : P d₀ →
      zipStream E fuel h (d₀.call (.zipBegin true)).next = (some rc, d) →
      Handled E P (some (.returned (afterAnswer (d.call .zipRelease)).1),
        (afterAnswer (d.call .zipRelease)).2)
  | atDrain {start : Start} {fuel : Nat} {d₀ d d' : Conn H} {rc rc' : Status} : P d₀ →
      Parting start d₀ → start.call E fuel d₀ = (some rc, d) → Beyond d d' →
      Handled E P (some (.atDrain rc'), d')

/-- The work of a client that is to be closed. -/
theorem Working.closing (hP : Working E P) :
    Working E fun c => P c ∧ c.cli.connectionPolicy = H.close :=
  ⟨fun c h => ⟨hP.next c h.1, h.2⟩, fun c e he hz h => ⟨hP.call c e he hz h.1, h.2⟩,
    fun c off k h => ⟨hP.receive c off k h.1, h.2⟩, fun c p h => ⟨hP.parser c p h.1, h.2⟩,
    fun c wall h => ⟨hP.touched c wall h.1, h.2⟩, fun c b n r h => ⟨hP.client c b n r h.1, h.2⟩⟩

/-- A pump's answer, and what `client_handle` does behind it. -/
theorem Pumps.handled {o : Option Exit × Conn H}
    (h : Pumps E (fun c => P c ∧ c.cli.connectionPolicy = H.close) o) :
    Handled E P (andThen o fun
      | .returned _, c => (some (.returned (afterAnswer c).1), (afterAnswer c).2)
      | .atDrain rc, c => (some (.atDrain rc), c)) := by
  cases h with
  | running => exact .running
  | unanswered hd => exact .unanswered hd.1
  | answered hd hcall hbeyond hx =>
      rcases hx with rfl | rfl
      · exact .answered hd.1 (.inr hd.2) hcall hbeyond
      · exact .atDrain hd.1 (.inr hd.2) hcall hbeyond
  | streamed hd hs => exact .streamed hd.1 hs

namespace Working

variable (hP : Working E P)
  (hpolicy : ∀ (c : Conn H) (p : Nat), P c →
    P { c with cli := { c.cli with connectionPolicy := p } })
include hP

/-- A routed or unrouted request is answered by one call. -/
theorem srvRouterDispatch (fuel : Nat) (hc : P c) (hcomplete : c.cli.httpRequest.messageComplete)
    (hreported : PolicyReported H c.cli.connectionPolicy) :
    ∃ d₀ start, P d₀ ∧ PolicyReported H d₀.cli.connectionPolicy ∧
      srvRouterDispatch E fuel c = Start.call E fuel d₀ start := by
  unfold DBServer.srvRouterDispatch
  rw [if_neg (by simp [hcomplete])]
  split
  · exact ⟨c, .error 404, hc, hreported, rfl⟩
  · split
    · have hadapt := hP.call c (.adapt c.cli.httpRequest) (by simp) (by simp) hc
      unfold handlerDbApp
      dsimp only
      split
      · exact ⟨_, .error 500, hadapt, hreported, rfl⟩
      · exact ⟨_, .send _, hP.next _ (hP.call _ _ (by simp) (by simp) hadapt), hreported, rfl⟩
    · exact ⟨c, .error 404, hc, hreported, rfl⟩

include hpolicy

theorem afterParse (fuel threadId : Nat) {parser : H.Parser} {buf : Buf} {k : Nat} (hc : P c)
    {out : Option Exit × Conn H}
    (h : afterParse E fuel threadId (H.exec parser buf k).1 (H.exec parser buf k).2.1 c =
      some out) : Handled E P out := by
  have hreported : ∀ req, (H.exec parser buf k).2.1 = some req →
      PolicyReported H req.connectionPolicy := fun req hreq => ⟨parser, buf, k, req, hreq, rfl⟩
  have herror : ∀ status, Handled E P (andThen (responseWriterError E fuel status c) fun _ c =>
      (some (.returned (afterAnswer c).1), (afterAnswer c).2)) := by
    intro status
    rcases hs : responseWriterError E fuel status c with ⟨_ | rc, d⟩
    · exact .running
    · have hsent : (Start.error status).call E fuel c = (some rc, d) := hs
      exact .answered hc (.inl ⟨_, rfl⟩) hsent (.refl d)
  generalize (H.exec parser buf k).1 = status at h
  generalize (H.exec parser buf k).2.1 = req at h hreported
  unfold DBServer.afterParse at h
  split at h
  · obtain rfl := Option.some.inj h
    have hpump := hP.closing.clientUploadPumpToDrain fuel threadId req (c := DBServer.closing c)
      ⟨hpolicy c H.close hc, rfl⟩
    exact hpump.handled
  · obtain rfl := Option.some.inj h
    exact herror 413
  · obtain rfl := Option.some.inj h
    exact herror 400
  · obtain rfl := Option.some.inj h
    exact .silentReset hc
  · split at h
    · rename_i req hcomplete
      obtain rfl := Option.some.inj h
      have hstored : P { c with cli := (clientStoreRequest c.cli req threadId).2 } := by
        simp only [clientStoreRequest, hcomplete]
        exact hpolicy _ req.connectionPolicy
          (hP.client c c.cli.bufIdx (c.cli.requestCount + 1) _ hc)
      obtain ⟨d₀, start, hd₀, hpol, hcall⟩ := hP.srvRouterDispatch fuel hstored
        (by simp [clientStoreRequest, hcomplete])
        (by simpa [clientStoreRequest, hcomplete] using hreported req rfl)
      rw [hcall]
      rcases hs : start.call E fuel d₀ with ⟨_ | rc, d⟩
      · exact .running
      · exact .dispatched hd₀ hpol hs
    · exact absurd h (by simp)

theorem clientHandleToDrain (threadId : Nat) : ∀ (fuel : Nat) {c : Conn H}, P c →
    Handled E P (clientHandleToDrain E threadId fuel c)
  | 0, _, _ => .running
  | fuel + 1, c, hc => by
      rw [DBServer.clientHandleToDrain]
      split
      · exact .silent hc
      · rename_i parser _
        split
        · exact .silentReset hc
        · split
          · rename_i n _
            have hread := hP.receive c c.cli.bufIdx
              (min (n + 1) (H.maxBufferLen - c.cli.bufIdx)) hc
            have hparsed : ∀ p : H.Parser, P { (readRequest E n c).2 with
                cli := { (readRequest E n c).2.cli with httpParser := some p } } := fun p =>
              hP.parser _ p (hP.client _ _ _ _
                (hP.touched (c.receive E c.cli.bufIdx _).next (E.wall c.tick) (hP.next _ hread)))
            dsimp only
            split
            · rename_i hparse
              exact hP.afterParse hpolicy fuel threadId (hparsed _) hparse
            · exact clientHandleToDrain threadId fuel (hparsed _)
          · exact .silentReset hc
          · exact .silentReset hc
          · exact clientHandleToDrain threadId fuel (hP.next c hc)
          · exact .waiting (hP.next c hc)

/-- **What `client_handle` comes to.** -/
theorem clientHandle (fuel threadId : Nat) (hc : P c) :
    Handled E P ((clientHandle E fuel threadId c).1.map .returned,
      (clientHandle E fuel threadId c).2) := by
  unfold DBServer.clientHandle
  split
  · exact .silent hc
  · have hhandled := hP.clientHandleToDrain hpolicy threadId fuel hc
    rcases hs : DBServer.clientHandleToDrain E threadId fuel c with ⟨_ | ⟨rc | rc⟩, d⟩
    · exact .running
    · rw [hs] at hhandled
      exact hhandled
    · rw [hs] at hhandled
      cases hhandled with
      | @atDrain start fuel' d₀ d' _ rc' _ hd₀ hcloses hcall hbeyond =>
          have hdrain := drainRejectedBody_beyond E fuel d
          rcases hd : drainRejectedBody E fuel d with ⟨_ | _, d''⟩
          · simp only [andThen_some, hd]
            exact .running
          · rw [hd] at hdrain
            simp only [andThen_some, hd]
            exact .answered hd₀ hcloses hcall (hbeyond.drain hdrain.2 hdrain.1)

end Working

/-! ## What lasts through a call -/

/-- Closed under whatever a call can do to its client, its answers and resets included. -/
structure Lasting (E : Env) (P : Conn H → Prop) : Prop extends Working E P where
  policy : ∀ (c : Conn H) (p : Nat), P c →
    P { c with cli := { c.cli with connectionPolicy := p } }
  answer : ∀ (start : Start) (fuel : Nat) (c : Conn H), P c → P (start.call E fuel c).2
  stream : StreamClosed P
  beyond : ∀ {c d : Conn H}, Beyond c d → P c → P d
  cleared : ∀ c : Conn H, P c → P { c with cli := { c.cli with
    httpParser := c.cli.httpParser.map H.clear, bufIdx := 0, httpRequest := {} } }
  reset : ∀ c : Conn H, P c → P c.reset

namespace Lasting

variable (hP : Lasting E P)
include hP

theorem afterAnswer (h : P c) : P (afterAnswer c).2 := by
  unfold DBServer.afterAnswer
  split
  · exact h
  · exact hP.reset c h

theorem afterDispatch (h : P c) : P (afterDispatch rc c).2 := by
  have hcleared := hP.cleared c h
  simp only [DBServer.afterDispatch]
  split
  · exact hP.reset _ hcleared
  · split
    · exact hcleared
    · split
      · exact hP.reset _ hcleared
      · exact hcleared

theorem handled {o : Option Exit × Conn H} (h : Handled E P o) (ho : o.1 ≠ none) : P o.2 := by
  have hcall : ∀ {start : Start} {fuel : Nat} {d₀ d d' : Conn H} {rc : Status}, P d₀ →
      start.call E fuel d₀ = (some rc, d) → Beyond d d' → P d' := by
    intro start fuel d₀ d d' rc hd₀ hcall hb
    have hd := hP.answer start fuel d₀ hd₀
    rw [hcall] at hd
    exact hP.beyond hb hd
  cases h with
  | running => exact absurd rfl ho
  | waiting hd => exact hd
  | silent hd => exact hd
  | silentReset hd => exact hP.reset _ hd
  | dispatched hd₀ _ hstart => exact hP.afterDispatch (hcall hd₀ hstart (.refl _))
  | unanswered hd => exact hP.afterAnswer hd
  | answered hd₀ _ hstart hb => exact hP.afterAnswer (hcall hd₀ hstart hb)
  | @streamed f fuel d₀ d rc hd₀ hs =>
      have hd := hP.stream.zipStream E fuel f (d₀.call (.zipBegin true)).next
        (hP.next _ (hP.stream.call _ _ (by simp) hd₀))
      rw [hs] at hd
      exact hP.afterAnswer (hP.stream.call d .zipRelease (by simp) hd)
  | atDrain hd₀ _ hstart hb => exact hcall hd₀ hstart hb

/-- **A client that `client_handle` comes back with.** -/
theorem clientHandle {fuel threadId : Nat} (hc : P c)
    (h : clientHandle E fuel threadId c = (some rc, d)) : P d := by
  have hhandled := hP.toWorking.clientHandle hP.policy fuel threadId hc
  rw [h] at hhandled
  exact hP.handled hhandled (by simp)

end Lasting

/-- An answer is laid out, started and sent as far as it goes. -/
theorem Start.call_lasting {P : Conn H → Prop} (E : Env) {start : Start} {fuel : Nat}
    (hlaid : ∀ {d : Conn H}, LaidOut c d → P d) (hstarted : ∀ (n : Nat) {d : Conn H}, P d →
      P (started n d))
    (hsend : ∀ (n : Nat) {d : Conn H}, P d → P (trySend E n fuel d).2) :
    P (start.call E fuel c).2 := by
  rcases Start.split E start c with ⟨d, hl, hcall⟩ | ⟨d, n, _, _, hl, hcall⟩
  · rw [hcall]
    exact hlaid hl
  · rw [hcall]
    exact hsend n (hstarted n (hlaid hl))

/-- A resumed response, for what depends on the client's own fields only. -/
theorem responseWriterResume_lasting {P : Conn H → Prop} {fuel : Nat}
    (hcli : ∀ {c d : Conn H}, d.cli = c.cli → P c → P d) (hc : P c)
    (hsend : P (trySend E c.cli.sendLen fuel c).2) : P (responseWriterResume E fuel c).2 := by
  unfold responseWriterResume
  split
  · exact hc
  · refine andThen_preserves hsend fun rc d hd => ?_
    cases rc with
    | failure => exact hd
    | success =>
        rw [resumeRest]
        split
        · exact hd
        · refine hcli ?_ hd
          unfold resumeDone
          split <;> rfl

/-! ## The parser stays -/

/-- The client has a parser. -/
def Parses (c : Conn H) : Prop := c.cli.httpParser.isSome

theorem SendFrame.parses (h : SendFrame c d) (hc : Parses c) : Parses d := by
  obtain ⟨_, _, _, _, hcli⟩ := h.cli
  rw [Parses, hcli]
  exact hc

/-- Clearing a parser leaves one. -/
theorem Parses.clear {p : Option H.Parser} (h : p.isSome) : (p.map H.clear).isSome := by
  rw [Option.isSome_map]
  exact h

theorem lasting_parses (E : Env) : Lasting E fun c : Conn H => Parses c where
  next _ h := h
  call _ _ _ _ h := h
  receive _ _ _ h := h
  parser _ _ _ := rfl
  touched _ _ h := h
  client _ _ _ _ h := h
  policy _ _ h := h
  answer start fuel c hc := by
    refine Start.call_lasting E (fun hl => ?_) (fun _ _ hd => hd)
      fun n d hd => (trySend_frame E n fuel d).parses hd
    obtain ⟨_, _, hcli⟩ := hl.cli
    rw [Parses, hcli]
    exact hc
  stream := ⟨fun _ h => h, fun _ _ h => h, fun _ _ h => h, fun _ _ _ h => h⟩
  beyond hb hc := by
    obtain ⟨_, hcli⟩ := hb.cli
    rw [Parses, hcli]
    exact hc
  cleared _ h := Parses.clear h
  reset _ h := Parses.clear h

/-- **A client keeps its parser** through whatever is handled. -/
theorem clientHandle_parses {fuel threadId : Nat} (hc : Parses c)
    (h : clientHandle E fuel threadId c = (some rc, d)) : Parses d :=
  (lasting_parses E).clientHandle hc h

theorem responseWriterResume_parses {fuel : Nat} (hc : Parses c) :
    Parses (responseWriterResume E fuel c).2 := by
  refine responseWriterResume_lasting (fun hcli hc => ?_) hc ((trySend_frame E _ fuel c).parses hc)
  rw [Parses, hcli]
  exact hc

end DBServer.Proof
