import DBServer.Proof.Connection
import DBServer.Proof.Interest

/-!
# The receive buffer and the parser in lockstep

`client_handle` stores what it reads behind what it has read before and hands the parser the
new bytes. `Reads` follows its loop from one read to the next, and `Lockstep` says what holds
in between: the parser has been given exactly the bytes that stand in the buffer, and they are
what the peer was heard to say. On the other side of a message the cursor and the parser start
over; `InStep` adds what holds of a client whose answer is parked, whose buffer holds the
answer.
-/

namespace DBServer.Proof

open DBServer Lib

variable {H : DbHttp} {E : Env} {p p₀ q : H.Parser} {bs : Bytes} {c c' d : Conn H}
  {fuel threadId : Nat}

/-! ## Giving a parser its message -/

/-- The parser has what it was given and asks for more. -/
def GoesOn (out : HttpStatus × Option HttpRequest × H.Parser) : Prop :=
  out.1 = .ok ∧ ∃ req, out.2.1 = some req ∧ req.messageComplete = false

/--
From `p` on the parser has been given `bs`, in pieces: each stood in the buffer behind the
pieces before it, and each time the parser asked for more.
-/
inductive Fed (p : H.Parser) : H.Parser → Bytes → Prop where
  | start : Fed p p []
  | more {q : H.Parser} {bs : Bytes} {buf : Buf} {k : Nat} : Fed p q bs →
      buf.slice 0 bs.length = bs → 0 < k → GoesOn (H.exec q buf k) →
      Fed p (H.exec q buf k).2.2 (buf.slice 0 (bs.length + k))

/-- Fresh from `db_http_parser_init`, or cleared. -/
def New (p₀ p : H.Parser) : Prop := p = p₀ ∨ ∃ q, p = H.clear q

/-- Between two reads: `bs` is in the buffer, and the parser has been given it from `p` on. -/
structure Lockstep (p : H.Parser) (c : Conn H) (bs : Bytes) : Prop where
  fits : c.cli.bufIdx ≤ H.maxBufferLen
  counted : bs.length = c.cli.bufIdx
  buffered : c.cli.buf.slice 0 c.cli.bufIdx = bs
  fed : ∃ q, c.cli.httpParser = some q ∧ Fed p q bs

/-- Nothing read yet. -/
theorem lockstep_nil (hidx : c.cli.bufIdx = 0) (hparser : c.cli.httpParser = some p) :
    Lockstep p c [] := by
  refine ⟨?_, hidx.symm, ?_, p, hparser, .start⟩
  · rw [hidx]
    exact Nat.zero_le _
  · rw [hidx]
    rfl

/-- Only the buffer, its cursor and the parser count. -/
theorem Lockstep.congr (h : Lockstep p c bs) (hidx : d.cli.bufIdx = c.cli.bufIdx)
    (hbuf : d.cli.buf = c.cli.buf) (hparser : d.cli.httpParser = c.cli.httpParser) :
    Lockstep p d bs := by
  refine ⟨?_, ?_, ?_, ?_⟩
  · rw [hidx]
    exact h.fits
  · rw [hidx]
    exact h.counted
  · rw [hidx, hbuf]
    exact h.buffered
  · rw [hparser]
    exact h.fed

/-! ## The loop of `client_handle` -/

/-- What the peer was heard to say from one state of a client to a later one. -/
def heard (E : Env) (c d : Conn H) : Bytes := Buf.slice E.peer c.received (d.received - c.received)

theorem heard_trans (h : c.received ≤ c'.received) (h' : c'.received ≤ d.received) :
    heard E c d = heard E c c' ++ heard E c' d := by
  have hsum : d.received - c.received =
      (c'.received - c.received) + (d.received - c'.received) := by omega
  have hend : c.received + (c'.received - c.received) = c'.received := by omega
  rw [heard, hsum, Buf.slice_add, hend, heard, heard]

theorem heard_same (h : d.received = c.received) : heard E c d = [] := by
  rw [heard, h, Nat.sub_self]
  rfl

theorem length_heard : (heard E c d).length = d.received - c.received := Buf.length_slice

/-- From one place of the loop to another, by way of reads that ask for more. -/
inductive Reads (E : Env) (c : Conn H) : Conn H → Prop where
  | start : Reads E c c
  | more {d : Conn H} {q : H.Parser} {n : Nat} : Reads E c d → d.cli.httpParser = some q →
      d.cli.bufIdx < H.maxBufferLen → E.read d.tick = .data n →
      GoesOn (H.exec q (readRequest E n d).2.cli.buf (readRequest E n d).1) →
      Reads E c (parserFed q (readRequest E n d))
  | interrupted {d : Conn H} {q : H.Parser} : Reads E c d → d.cli.httpParser = some q →
      d.cli.bufIdx < H.maxBufferLen → E.read d.tick = .eintr → Reads E c d.next

/-- How a call comes back from its loop. -/
inductive LoopEnds (E : Env) (threadId : Nat) (c : Conn H) : Exit × Conn H → Prop where
  | parserless : c.cli.httpParser = none → LoopEnds E threadId c (.returned .failure, c)
  /-- No room, or no peer. -/
  | broken : H.maxBufferLen ≤ c.cli.bufIdx ∨ E.read c.tick = .eof ∨ E.read c.tick = .error →
      LoopEnds E threadId c (.returned .failure, c.reset)
  | waiting : E.read c.tick = .eagain → LoopEnds E threadId c (.returned .success, c.next)
  | parsed {q : H.Parser} {n fuel : Nat} {x : Exit} {d : Conn H} : c.cli.httpParser = some q →
      c.cli.bufIdx < H.maxBufferLen → E.read c.tick = .data n →
      afterParse E fuel threadId (H.exec q (readRequest E n c).2.cli.buf (readRequest E n c).1).1
        (H.exec q (readRequest E n c).2.cli.buf (readRequest E n c).1).2.1
        (parserFed q (readRequest E n c)) = some (some x, d) → LoopEnds E threadId c (x, d)

/-- The loop goes on where the parser asks for more, and nowhere else. -/
theorem afterParse_eq_none {status : HttpStatus} {req : Option HttpRequest} :
    afterParse E fuel threadId status req c = none ↔
      status = .ok ∧ ∃ r, req = some r ∧ r.messageComplete = false := by
  cases status with
  | ok =>
      cases req with
      | none => simp [afterParse]
      | some r => cases hr : r.messageComplete <;> simp [afterParse, hr]
  | headersCompleteStream => simp [afterParse]
  | contentTooLarge => simp [afterParse]
  | other => simp [afterParse]

/-- **A call that comes back has read for a while, and then come to an end.** -/
theorem clientHandleToDrain_reads {x : Exit} (hr : Reads E c d)
    (h : clientHandleToDrain E threadId fuel d = (some x, c')) :
    ∃ e, Reads E c e ∧ LoopEnds E threadId e (x, c') := by
  -- the induction is on the rounds that are left; the reads so far are `hr`
  induction fuel generalizing d with
  | zero => exact absurd h (by simp [clientHandleToDrain])
  | succ fuel ih =>
      cases hparser : d.cli.httpParser with
      | none =>
          rw [clientHandleToDrain, hparser] at h
          obtain ⟨hx, rfl⟩ := Prod.mk.inj h
          obtain rfl := Option.some.inj hx
          exact ⟨d, hr, .parserless hparser⟩
      | some q =>
          by_cases hroom : d.cli.bufIdx < H.maxBufferLen
          · cases hread : E.read d.tick with
            | data n =>
                rw [clientHandleToDrain_data hparser hroom hread] at h
                cases hparse : afterParse E fuel threadId
                    (H.exec q (readRequest E n d).2.cli.buf (readRequest E n d).1).1
                    (H.exec q (readRequest E n d).2.cli.buf (readRequest E n d).1).2.1
                    (parserFed q (readRequest E n d)) with
                | none =>
                    rw [hparse] at h
                    exact ih (.more hr hparser hroom hread (afterParse_eq_none.mp hparse)) h
                | some out =>
                    rw [hparse] at h
                    obtain rfl : out = (some x, c') := h
                    exact ⟨d, hr, .parsed hparser hroom hread hparse⟩
            | eof =>
                rw [clientHandleToDrain, hparser] at h
                simp only [if_neg (Nat.not_le.mpr hroom), hread] at h
                obtain ⟨hx, rfl⟩ := Prod.mk.inj h
                obtain rfl := Option.some.inj hx
                exact ⟨d, hr, .broken (.inr (.inl hread))⟩
            | error =>
                rw [clientHandleToDrain, hparser] at h
                simp only [if_neg (Nat.not_le.mpr hroom), hread] at h
                obtain ⟨hx, rfl⟩ := Prod.mk.inj h
                obtain rfl := Option.some.inj hx
                exact ⟨d, hr, .broken (.inr (.inr hread))⟩
            | eintr =>
                rw [clientHandleToDrain, hparser] at h
                simp only [if_neg (Nat.not_le.mpr hroom), hread] at h
                exact ih (.interrupted hr hparser hroom hread) h
            | eagain =>
                rw [clientHandleToDrain, hparser] at h
                simp only [if_neg (Nat.not_le.mpr hroom), hread] at h
                obtain ⟨hx, rfl⟩ := Prod.mk.inj h
                obtain rfl := Option.some.inj hx
                exact ⟨d, hr, .waiting hread⟩
          · have hfull : H.maxBufferLen ≤ d.cli.bufIdx := Nat.not_lt.mp hroom
            rw [clientHandleToDrain, hparser] at h
            simp only [if_pos hfull] at h
            obtain ⟨hx, rfl⟩ := Prod.mk.inj h
            obtain rfl := Option.some.inj hx
            exact ⟨d, hr, .broken (.inl hfull)⟩

/-- Reading changes the buffer, its cursor, the parser and the time of the last activity. -/
structure ReadFrame (c d : Conn H) : Prop where
  cli : ∃ b i a q, d.cli = { c.cli with buf := b, bufIdx := i, lastActivity := a, httpParser := q }
  received : c.received ≤ d.received
  wire : d.wire = c.wire
  log : d.log = c.log
  mask : d.mask = c.mask
  faults : d.faults = c.faults

theorem Reads.frame (h : Reads E c d) : ReadFrame c d := by
  induction h with
  | start => exact ⟨⟨_, _, _, _, rfl⟩, le_rfl, rfl, rfl, rfl, rfl⟩
  | @more d q n _ _ _ _ _ ih =>
      obtain ⟨b, i, a, r, hcli⟩ := ih.cli
      refine ⟨⟨(readRequest E n d).2.cli.buf, (readRequest E n d).2.cli.bufIdx,
        (readRequest E n d).2.cli.lastActivity, (parserFed q (readRequest E n d)).cli.httpParser,
        ?_⟩, ?_, ih.wire, ih.log, ih.mask, ih.faults⟩
      · simp only [parserFed, readRequest, Conn.receive, Conn.writeBuf, hcli]
      · exact ih.received.trans (Nat.le_add_right _ _)
  | interrupted _ _ _ _ ih => exact ⟨ih.cli, ih.received, ih.wire, ih.log, ih.mask, ih.faults⟩

/-- A read that finds room brings something. -/
theorem readRequest_pos (n : Nat) (hroom : c.cli.bufIdx < H.maxBufferLen) :
    0 < (readRequest E n c).1 := by
  show 0 < min (n + 1) (H.maxBufferLen - c.cli.bufIdx)
  omega

/-- What a read brings stands behind what was there. -/
theorem Lockstep.readRequest (h : Lockstep p c bs) (n : Nat) :
    (readRequest E n c).2.cli.bufIdx ≤ H.maxBufferLen ∧
      (readRequest E n c).2.cli.bufIdx = bs.length + (readRequest E n c).1 ∧
      (readRequest E n c).2.cli.buf.slice 0 bs.length = bs ∧
      (readRequest E n c).2.cli.buf.slice 0 (bs.length + (readRequest E n c).1) =
        bs ++ heard E c (readRequest E n c).2 := by
  obtain ⟨k, hk⟩ : ∃ k, min (n + 1) (H.maxBufferLen - c.cli.bufIdx) = k := ⟨_, rfl⟩
  have hcount : (DBServer.readRequest E n c).1 = k := hk
  have hidx : (DBServer.readRequest E n c).2.cli.bufIdx = c.cli.bufIdx + k := by rw [← hk]; rfl
  have hbuf : (DBServer.readRequest E n c).2.cli.buf =
      c.cli.buf.write c.cli.bufIdx (Buf.slice E.peer c.received k) := by rw [← hk]; rfl
  have hheard : heard E c (DBServer.readRequest E n c).2 = Buf.slice E.peer c.received k := by
    have hrec : (DBServer.readRequest E n c).2.received = c.received + k := by rw [← hk]; rfl
    rw [heard, hrec, Nat.add_sub_cancel_left]
  have hfront : (DBServer.readRequest E n c).2.cli.buf.slice 0 bs.length = bs := by
    rw [hbuf, Buf.slice_write_of_disjoint (.inl (by rw [h.counted]; omega)), h.counted,
      h.buffered]
  refine ⟨?_, ?_, hfront, ?_⟩
  · have := h.fits
    omega
  · rw [hidx, hcount, h.counted]
  · rw [Buf.slice_add, hfront, hcount, hheard, Nat.zero_add, hbuf, h.counted,
      Buf.slice_write_self Buf.length_slice.symm]

/-- **Buffer and parser go together from read to read.** -/
theorem Reads.lockstep (hr : Reads E c d) (h : Lockstep p c bs) :
    Lockstep p d (bs ++ heard E c d) := by
  induction hr with
  | start =>
      rw [heard_same rfl, List.append_nil]
      exact h
  -- the new bytes go behind the old ones, and the parser is given as many
  | @more d q n hr hparser hroom _ hgo ih =>
      obtain ⟨r, hr', hfed⟩ := ih.fed
      obtain rfl := Option.some.inj (hr'.symm.trans hparser)
      obtain ⟨hfits, hidx, hfront, hall⟩ := ih.readRequest (E := E) n
      have hheard : heard E c (parserFed r (DBServer.readRequest E n d)) =
          heard E c d ++ heard E d (DBServer.readRequest E n d).2 :=
        heard_trans hr.frame.received (Nat.le_add_right _ _)
      rw [hheard, ← List.append_assoc, ← hall]
      refine ⟨hfits, ?_, ?_, _, rfl, .more hfed hfront (readRequest_pos n hroom) hgo⟩
      · rw [Buf.length_slice]
        exact hidx.symm
      · show (DBServer.readRequest E n d).2.cli.buf.slice 0 _ = _
        rw [← hidx]
        rfl
  | interrupted _ _ _ _ ih => exact ih.congr rfl rfl rfl

/-! ## Behind an answer -/

variable {start : Start} {rc : Status} {x : Exit}

/-- If an answer is parked, it is the last one of its connection. -/
def Parted (c : Conn H) : Prop := c.cli.draining = true → c.cli.connectionPolicy = H.close

theorem Parted.of_open (h : c.cli.draining = false) : Parted c := by
  intro hparked
  rw [h] at hparked
  exact absurd hparked (by simp)

theorem Start.call_parted (hd : c.cli.draining = false) (hpart : Parting start c)
    (h : start.call E fuel c = (some rc, d)) : Parted d := by
  rcases Start.announces E start c with ⟨c', hl, hsplit⟩ | ⟨c', n, ha⟩
  · rw [hsplit] at h
    obtain ⟨_, rfl⟩ := Prod.mk.inj h
    obtain ⟨_, _, hcli⟩ := hl.cli
    exact .of_open (by rw [hcli]; exact hd)
  · have hframe := trySend_frame E n fuel (started n c')
    have hsent : trySend E n fuel (started n c') = (some rc, d) := (ha.call fuel).symm.trans h
    rw [hsent] at hframe
    have hpolicy : d.cli.connectionPolicy = c'.cli.connectionPolicy := hframe.policy
    intro _
    rw [hpolicy]
    rcases hpart with herror | hclose
    · exact ha.error herror
    · rcases ha.policy with hsame | hclosed
      · exact hsame.trans hclose
      · exact hclosed

theorem working_open (E : Env) : Working E fun c : Conn H => c.cli.draining = false :=
  ⟨fun _ h => h, fun _ _ _ _ h => h, fun _ _ _ h => h, fun _ _ h => h, fun _ _ h => h,
    fun _ _ _ _ h => h⟩

theorem Beyond.parted (hb : Beyond c d) (h : Parted c) : Parted d := by
  obtain ⟨b, hcli⟩ := hb.cli
  unfold Parted
  rw [hcli]
  exact h

/-- What an upload or an archive leaves is the last of its connection. -/
theorem Pumps.parted
    (h : Pumps E (fun c : Conn H => c.cli.draining = false ∧ c.cli.connectionPolicy = H.close)
      (some x, d)) : Parted d := by
  generalize ho : (some x, d) = o at h
  cases h with
  | running => exact absurd ho (by simp)
  | unanswered hd =>
      obtain ⟨_, rfl⟩ := Prod.mk.inj ho
      exact .of_open hd.1
  | answered hd₀ hcall hb _ =>
      obtain ⟨_, rfl⟩ := Prod.mk.inj ho
      exact hb.parted (Start.call_parted hd₀.1 (.inr hd₀.2) hcall)
  | @streamed z fuel d₀ e rc hd₀ hs =>
      obtain ⟨_, rfl⟩ := Prod.mk.inj ho
      have hstream : StreamClosed fun c : Conn H => c.cli.draining = false :=
        ⟨fun _ h => h, fun _ _ h => h, fun _ _ h => h, fun _ _ _ h => h⟩
      have he := hstream.zipStream E fuel z (d₀.call (.zipBegin true)).next hd₀.1
      rw [hs] at he
      exact .of_open he

/-- What routing leaves alone. -/
theorem srvRouterDispatch_lasting {P : Conn H → Prop} (hnext : ∀ c : Conn H, P c → P c.next)
    (hcall : ∀ (c : Conn H) (e : Call), P c → P (c.call e))
    (hstart : ∀ (start : Start) (c : Conn H), P c → P (start.call E fuel c).2) (hc : P c) :
    P (srvRouterDispatch E fuel c).2 := by
  unfold srvRouterDispatch
  split
  · exact hc
  · split
    · exact hstart (.error 404) c hc
    · split
      · unfold handlerDbApp
        dsimp only
        split
        · exact hstart (.error 500) _ (hcall _ _ hc)
        · exact hstart (.send _) _ (hnext _ (hcall _ _ (hcall _ _ hc)))
      · exact hstart (.error 404) c hc

/-- A client with another request than before it, and nothing of the next one. -/
structure Advanced (c d : Conn H) : Prop where
  bufIdx : d.cli.bufIdx = 0
  parser : ∃ q, d.cli.httpParser = some (H.clear q)
  count : d.cli.requestCount = c.cli.requestCount + 1

/-- How an answer that is the last one of its connection is left. -/
theorem afterAnswer_parted {e : Conn H} (he : Parted e)
    (h : (some (Exit.returned (afterAnswer e).1), (afterAnswer e).2) = (some x, d)) :
    (x = .returned .success → d.cli.draining = true ∧ Parted d) ∧ ∀ rc, x ≠ .atDrain rc := by
  obtain ⟨hx, hd⟩ := Prod.mk.inj h
  obtain rfl := Option.some.inj hx
  refine ⟨fun hrc => ?_, fun rc => by simp⟩
  obtain ⟨hparked, hsame⟩ := afterAnswer_success (Exit.returned.inj hrc)
  rw [hsame] at hd
  subst hd
  exact ⟨hparked, he⟩

/-- A fixed answer, sent by the loop itself. -/
theorem afterError_parted {status : Nat} (hd : c.cli.draining = false)
    (h : andThen (responseWriterError E fuel status c) (fun _ c =>
      (some (Exit.returned (afterAnswer c).1), (afterAnswer c).2)) = (some x, d)) :
    (x = .returned .success → d.cli.draining = true ∧ Parted d) ∧ ∀ rc, x ≠ .atDrain rc := by
  obtain ⟨rc, e, hsent, hafter⟩ := andThen_eq_some.mp h
  exact afterAnswer_parted (Start.call_parted hd (.inl ⟨status, rfl⟩) hsent) hafter

/-- Routing leaves the parser and the count of requests. -/
theorem srvRouterDispatch_counts (E : Env) (fuel : Nat) (c : Conn H) :
    (srvRouterDispatch E fuel c).2.cli.httpParser = c.cli.httpParser ∧
      (srvRouterDispatch E fuel c).2.cli.requestCount = c.cli.requestCount := by
  let P := fun d : Conn H =>
    d.cli.httpParser = c.cli.httpParser ∧ d.cli.requestCount = c.cli.requestCount
  refine srvRouterDispatch_lasting (P := P) (fun _ h => h) (fun _ _ h => h)
    (fun start e he => ?_) ⟨rfl, rfl⟩
  refine Start.call_lasting (P := P) E (fun hl => ?_) (fun _ _ h => h) fun n d hd => ?_
  · obtain ⟨_, _, hcli⟩ := hl.cli
    show _ = _ ∧ _ = _
    rw [hcli]
    exact he
  · obtain ⟨_, _, _, _, hcli⟩ := (trySend_frame E n fuel d).cli
    show _ = _ ∧ _ = _
    rw [hcli]
    exact hd

/-- **What the loop makes of a verdict that ends it.** -/
theorem afterParse_success {status : HttpStatus} {req : Option HttpRequest}
    (hd : c.cli.draining = false) (hparser : c.cli.httpParser.isSome)
    (h : afterParse E fuel threadId status req c = some (some x, d)) :
    (x = .returned .success → Advanced c d ∨ d.cli.draining = true ∧ Parted d) ∧
      ((∃ rc, x = .atDrain rc) → Parted d) := by
  -- every answer but the one to a whole request is the last one
  have hlast : ∀ {y : Exit} {e : Conn H}, ((y = .returned .success → e.cli.draining = true ∧
      Parted e) ∧ ∀ rc, y ≠ .atDrain rc) →
      (y = .returned .success → Advanced c e ∨ e.cli.draining = true ∧ Parted e) ∧
        ((∃ rc, y = .atDrain rc) → Parted e) := by
    intro y e hy
    refine ⟨fun hrc => .inr (hy.1 hrc), ?_⟩
    rintro ⟨rc, hrc⟩
    exact absurd hrc (hy.2 rc)
  cases status with
  | headersCompleteStream =>
      have hpump := (working_open E).closing.clientUploadPumpToDrain fuel threadId req
        (c := closing c) ⟨hd, rfl⟩
      obtain ⟨y, e, hs, hafter⟩ := andThen_eq_some.mp (Option.some.inj h)
      rw [hs] at hpump
      cases y with
      | returned rc => exact hlast (afterAnswer_parted hpump.parted hafter)
      | atDrain rc =>
          obtain ⟨hx, rfl⟩ := Prod.mk.inj hafter
          obtain rfl := Option.some.inj hx
          exact ⟨fun hrc => absurd hrc (by simp), fun _ => hpump.parted⟩
  | contentTooLarge => exact hlast (afterError_parted hd (Option.some.inj h))
  | other => exact hlast (afterError_parted hd (Option.some.inj h))
  | ok =>
      cases req with
      | none =>
          obtain ⟨hx, rfl⟩ := Prod.mk.inj (Option.some.inj h)
          obtain rfl := Option.some.inj hx
          exact ⟨fun hrc => absurd hrc (by simp), fun ⟨rc, hrc⟩ => absurd hrc (by simp)⟩
      | some req =>
          cases hcomplete : req.messageComplete with
          | false => exact absurd h (by simp [afterParse, hcomplete])
          | true =>
              simp only [afterParse, hcomplete, if_true] at h
              obtain ⟨rc, e, hs, hafter⟩ := andThen_eq_some.mp (Option.some.inj h)
              obtain ⟨hx, hde⟩ := Prod.mk.inj hafter
              obtain rfl := Option.some.inj hx
              refine ⟨fun hrc => .inl ?_, fun ⟨rc, hrc⟩ => absurd hrc (by simp)⟩
              obtain ⟨_, hsame⟩ := afterDispatch_success (Exit.returned.inj hrc)
              have hcounts := srvRouterDispatch_counts E fuel
                { c with cli := (clientStoreRequest c.cli req threadId).2 }
              rw [hs] at hcounts
              simp only [clientStoreRequest, hcomplete] at hcounts
              obtain ⟨q, hq⟩ := Option.isSome_iff_exists.mp hparser
              rw [hsame] at hde
              subst hde
              refine ⟨rfl, ⟨q, ?_⟩, hcounts.2⟩
              show e.cli.httpParser.map H.clear = _
              rw [hcounts.1]
              exact congrArg (Option.map H.clear) hq

/-- **How `client_handle` comes back with success.** -/
theorem clientHandle_success (hd : c.cli.draining = false)
    (h : clientHandle E fuel threadId c = (some .success, d)) :
    (∃ e, Reads E c e ∧ E.read e.tick = .eagain ∧ d = e.next) ∨ Advanced c d ∨
      d.cli.draining = true ∧ Parted d := by
  unfold clientHandle at h
  split at h
  · exact absurd h (by simp)
  · obtain ⟨x, d', hloop, hrest⟩ := andThen_eq_some.mp h
    obtain ⟨e, hr, hend⟩ := clientHandleToDrain_reads .start hloop
    obtain ⟨_, _, _, _, hcli⟩ := hr.frame.cli
    have hopen : e.cli.draining = false := by
      rw [hcli]
      exact hd
    cases hend with
    | parserless => exact absurd hrest (by simp)
    | broken => exact absurd hrest (by simp)
    | waiting hwait =>
        obtain ⟨_, rfl⟩ := Prod.mk.inj hrest
        exact .inl ⟨e, hr, hwait, rfl⟩
    | @parsed q n fuel' _ _ hparser hroom hread hparse =>
        obtain ⟨hback, hdrain⟩ := afterParse_success (c := parserFed q (readRequest E n e))
          hopen rfl hparse
        refine .inr ?_
        cases x with
        | returned rc =>
            obtain ⟨hrc, rfl⟩ := Prod.mk.inj hrest
            obtain rfl := Option.some.inj hrc
            refine (hback rfl).imp_left fun hadv => ⟨hadv.bufIdx, hadv.parser, ?_⟩
            have hcount : e.cli.requestCount = c.cli.requestCount := by rw [hcli]
            exact hadv.count.trans (congrArg (· + 1) hcount)
        | atDrain rc =>
            obtain ⟨_, d'', hdrained, hafter⟩ := andThen_eq_some.mp hrest
            have hb := (drainRejectedBody_beyond E fuel d').2
            rw [hdrained] at hb
            obtain ⟨hrc, rfl⟩ := Prod.mk.inj hafter
            obtain ⟨hparked, hsame⟩ := afterAnswer_success (Option.some.inj hrc)
            rw [hsame]
            exact .inr ⟨hparked, hb.parted (hdrain ⟨rc, rfl⟩)⟩

/-! ## From event to event -/

/-- What has been heard of a message behind an event; with every request it starts over. -/
def heardAfter (E : Env) (bs : Bytes) (c d : Conn H) : Bytes :=
  if d.cli.requestCount = c.cli.requestCount then bs ++ heard E c d else []

theorem heardAfter_same (hcount : d.cli.requestCount = c.cli.requestCount)
    (hrec : d.received = c.received) : heardAfter E bs c d = bs := by
  rw [heardAfter, if_pos hcount, heard_same hrec, List.append_nil]

/--
A client between two events, `bs` having been heard of its message. While an answer is
parked the buffer holds the answer, and either the connection ends with it or the next
message has not begun.
-/
structure InStep (p₀ : H.Parser) (c : Conn H) (bs : Bytes) : Prop where
  reading : c.cli.draining = false → ∃ p, New p₀ p ∧ Lockstep p c bs
  parked : c.cli.draining = true → c.cli.connectionPolicy = H.close ∨
    bs = [] ∧ ∃ p, New p₀ p ∧ Lockstep p c []

theorem Advanced.inStep (h : Advanced c d) : InStep p₀ d [] := by
  obtain ⟨q, hq⟩ := h.parser
  have hnew : ∃ p, New p₀ p ∧ Lockstep p d [] := ⟨_, .inr ⟨q, rfl⟩, lockstep_nil h.bufIdx hq⟩
  exact ⟨fun _ => hnew, fun _ => .inr ⟨rfl, hnew⟩⟩

/-- **A readable client is handled.** -/
theorem clientHandle_inStep (hd : c.cli.draining = false) (h : InStep p₀ c bs)
    (hcall : clientHandle E fuel threadId c = (some .success, d)) :
    InStep p₀ d (heardAfter E bs c d) := by
  obtain ⟨p, hnew, hlock⟩ := h.reading hd
  rcases clientHandle_success hd hcall with ⟨e, hr, _, rfl⟩ | hadv | ⟨hparked, hlast⟩
  · obtain ⟨_, _, _, _, hcli⟩ := hr.frame.cli
    have hcount : e.next.cli.requestCount = c.cli.requestCount := by
      show e.cli.requestCount = _
      rw [hcli]
    have hopen : e.next.cli.draining = false := by
      show e.cli.draining = false
      rw [hcli]
      exact hd
    rw [heardAfter, if_pos hcount]
    have hlock' : Lockstep p e.next (bs ++ heard E c e) := (hr.lockstep hlock).congr rfl rfl rfl
    exact ⟨fun _ => ⟨p, hnew, hlock'⟩, fun hparked => absurd (hopen.symm.trans hparked) (by simp)⟩
  · rw [heardAfter, if_neg (by rw [hadv.count]; omega)]
    exact hadv.inStep
  · exact ⟨fun hopen => absurd (hopen.symm.trans hparked) (by simp), fun _ => .inl (hlast hparked)⟩

/-- **A parked answer is resumed**, and nothing is read meanwhile. -/
theorem responseWriterResume_inStep (hd : c.cli.draining = true) (h : InStep p₀ c bs)
    (hcall : responseWriterResume E fuel c = (some .success, d)) :
    InStep p₀ d (heardAfter E bs c d) := by
  unfold responseWriterResume at hcall
  split at hcall
  · exact absurd hcall (by simp)
  · obtain ⟨rc, e, hsend, hrest⟩ := andThen_eq_some.mp hcall
    have hframe := trySend_frame E c.cli.sendLen fuel c
    rw [hsend] at hframe
    obtain ⟨_, _, _, _, hcli⟩ := hframe.cli
    cases rc with
    | failure => exact absurd hrest (by simp [resumeRest])
    | success =>
        -- a send leaves the cursor, the parser and the stored bytes alone
        have hlock : ∀ {p : H.Parser} {d : Conn H}, d.cli = e.cli → Lockstep p c [] →
            Lockstep p d [] := by
          intro p d hde hp
          refine hp.congr ?_ ?_ ?_
          · rw [hde, hcli]
          · rw [hde, hcli]
          · rw [hde, hcli]
        have hafter : ∀ {d : Conn H}, d.cli = e.cli → d.received = e.received →
            heardAfter E bs c d = bs := by
          intro d hde hrec
          refine heardAfter_same ?_ (hrec.trans hframe.received)
          rw [hde, hcli]
        rw [resumeRest] at hrest
        split at hrest
        · rename_i hparked
          obtain ⟨_, rfl⟩ := Prod.mk.inj hrest
          rw [hafter rfl rfl]
          refine ⟨fun hopen => absurd (hopen.symm.trans hparked) (by simp), fun _ => ?_⟩
          rcases h.parked hd with hclose | ⟨hnil, p, hnew, hp⟩
          · exact .inl (hframe.policy.trans hclose)
          · exact .inr ⟨hnil, p, hnew, hlock rfl hp⟩
        · rename_i hfree
          unfold resumeDone at hrest
          split at hrest
          · obtain ⟨hrc, rfl⟩ := Prod.mk.inj hrest
            dsimp only
            rw [hafter (d := { e.next with mask := clientEventsIn }) rfl rfl]
            -- a connection to be closed comes back with failure, and is removed
            have hkeep : c.cli.connectionPolicy ≠ H.close := by
              intro hclose
              rw [if_pos (hframe.policy.trans hclose)] at hrc
              exact absurd hrc (by simp)
            obtain ⟨rfl, p, hnew, hp⟩ := (h.parked hd).resolve_left hkeep
            exact ⟨fun _ => ⟨p, hnew, hlock rfl hp⟩, fun hparked => absurd hparked hfree⟩
          · exact absurd hrest (by simp)

end DBServer.Proof
