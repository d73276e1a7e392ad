import DBServer.Proof.Abreast

/-!
# Two clients alike

Which number the kernel gave a connection's descriptor decides nothing but whether there
is one at all, and how many rounds a handler is watched for decides nothing but whether
it is seen to come back. `Alike` clients differ in the number alone. Handled side by
side in the same world they come back with the same verdict, and alike; the second may
be watched longer.
-/

namespace DBServer.Proof

open DBServer Lib

variable {H : DbHttp} {E : Env} {c d : Conn H} {fuel fuel' : Nat} {α : Type}

/-- Two clients that differ in nothing but the number of their descriptor. -/
inductive Alike : Conn H → Conn H → Prop where
  | mk (c : Conn H) (fd : Int) : 0 ≤ c.cli.ctx.fd → 0 ≤ fd → Alike c (renamed fd c)

theorem Alike.refl (h : 0 ≤ c.cli.ctx.fd) : Alike c c := .mk c c.cli.ctx.fd h h

/-- Two clients like a third are alike. -/
theorem Alike.join {e : Conn H} (h : Alike c e) (h' : Alike d e) : Alike c d := by
  obtain ⟨fd, hc, hfd⟩ := h
  generalize he : renamed fd c = e at h'
  obtain ⟨fd', hd, hfd'⟩ := h'
  have hback : renamed d.cli.ctx.fd (renamed fd c) = renamed d.cli.ctx.fd (renamed fd' d) :=
    congrArg _ he
  have hsame : renamed d.cli.ctx.fd c = d := hback
  rw [← hsame]
  exact .mk c _ hc hd

/-- Both have a descriptor. -/
theorem Alike.fd_neg (h : Alike c d) : c.cli.ctx.fd < 0 ↔ d.cli.ctx.fd < 0 := by
  obtain ⟨fd, hc, hd⟩ := h
  have hfd : (renamed fd c).cli.ctx.fd = fd := rfl
  omega

theorem Alike.tick (h : Alike c d) : d.tick = c.tick := by
  obtain ⟨fd, hc, hd⟩ := h
  rfl

theorem Alike.buf (h : Alike c d) : d.cli.buf = c.cli.buf := by
  obtain ⟨fd, hc, hd⟩ := h
  rfl

theorem Alike.next (h : Alike c d) : Alike c.next d.next := by
  obtain ⟨fd, hc, hd⟩ := h
  exact .mk c.next fd hc hd

theorem Alike.call (h : Alike c d) (e : Call) : Alike (c.call e) (d.call e) := by
  obtain ⟨fd, hc, hd⟩ := h
  exact .mk (c.call e) fd hc hd

theorem Alike.writeBuf (h : Alike c d) (off : Nat) (bs : Bytes) :
    Alike (c.writeBuf off bs) (d.writeBuf off bs) := by
  obtain ⟨fd, hc, hd⟩ := h
  exact .mk (c.writeBuf off bs) fd hc hd

theorem Alike.receive (h : Alike c d) (E : Env) (off k : Nat) :
    Alike (c.receive E off k) (d.receive E off k) := by
  obtain ⟨fd, hc, hd⟩ := h
  exact .mk (c.receive E off k) fd hc hd

theorem Alike.reset (h : Alike c d) : Alike c.reset d.reset := by
  obtain ⟨fd, hc, hd⟩ := h
  exact .mk c.reset fd hc hd

/-- Two functions that always come back, side by side. -/
def Agree (o o' : α × Conn H) : Prop := o.1 = o'.1 ∧ Alike o.2 o'.2

theorem Agree.back {o o' : α × Conn H} (h : Agree o o') :
    Carries Alike (some o.1, o.2) (some o'.1, o'.2) := Pairs.back h

theorem Agree.ite {p q : Prop} [Decidable p] [Decidable q] {x y x' y' : α × Conn H} (hpq : p ↔ q)
    (hx : Agree x x') (hy : Agree y y') : Agree (if p then x else y) (if q then x' else y') :=
  Pairs.ite hpq hx hy

/-! ## Answering -/

/-- Clients alike are abreast in one world, with the same number of calls before. -/
theorem Alike.abreast (E : Env) (h : Alike c d) : Abreast E E 0 0 c d := by
  obtain ⟨fd, hc, hd⟩ := h
  exact .mk c fd c.tick hc hd rfl (.refl E c.tick)

theorem Abreast.alike (h : Abreast E E 0 0 c d) : Alike c d := by
  obtain ⟨fd, t, hc, hd, ht, _⟩ := h
  obtain rfl : t = c.tick := ht
  exact .mk c fd hc hd

theorem alike_of_abreast {o o' : Option α × Conn H} (h : Carries (Abreast E E 0 0) o o') :
    Carries Alike o o' := h.mono fun _ _ => Abreast.alike

theorem trySend_alike (E : Env) (total : Nat) (hle : fuel ≤ fuel') (h : Alike c d) :
    Carries Alike (trySend E total fuel c) (trySend E total fuel' d) :=
  alike_of_abreast (trySend_abreast total hle (h.abreast E))

theorem responseWriterError_alike (E : Env) (status : Nat) (hle : fuel ≤ fuel') (h : Alike c d) :
    Carries Alike (responseWriterError E fuel status c)
      (responseWriterError E fuel' status d) :=
  alike_of_abreast (responseWriterError_abreast status hle (h.abreast E))

theorem responseWriterSend_alike (E : Env) (res : AppResponse) (hle : fuel ≤ fuel')
    (h : Alike c d) :
    Carries Alike (responseWriterSend E fuel res c) (responseWriterSend E fuel' res d) :=
  alike_of_abreast (responseWriterSend_abreast res hle (h.abreast E))

theorem resumeDone_alike (E : Env) (h : Alike c d) : Agree (resumeDone E c) (resumeDone E d) := by
  obtain ⟨fd, hc, hd⟩ := h
  exact .ite Iff.rfl ⟨rfl, .mk _ fd hc hd⟩ ⟨rfl, .mk _ fd hc hd⟩

theorem responseWriterResume_alike (E : Env) (hle : fuel ≤ fuel') (h : Alike c d) :
    Carries Alike (responseWriterResume E fuel c) (responseWriterResume E fuel' d) := by
  have hfields : d.cli.draining = c.cli.draining ∧ d.cli.sendLen = c.cli.sendLen := by
    obtain ⟨fd, hc, hd⟩ := h
    exact ⟨rfl, rfl⟩
  unfold responseWriterResume
  rw [hfields.1, hfields.2]
  refine .ite (or_congr h.fd_neg Iff.rfl) (.back _ h) ?_
  refine (trySend_alike E c.cli.sendLen hle h).andThen fun rc c d h => ?_
  cases rc with
  | failure => exact .back _ h
  | success =>
      have hdone := (resumeDone_alike E h).back
      obtain ⟨fd, hc, hd⟩ := h
      exact .ite Iff.rfl (.back _ (.mk c fd hc hd)) hdone

/-! ## Streaming -/

theorem writeAll_alike (E : Env) {bs : Bytes} (hle : fuel ≤ fuel') (h : Alike c d) :
    Carries Alike (writeAll E fuel bs c) (writeAll E fuel' bs d) := by
  induction fuel generalizing fuel' bs c d with
  | zero => exact .running
  | succ fuel ih =>
      obtain ⟨fuel', rfl, hle'⟩ := exists_succ_of_le hle
      obtain ⟨fd, hc, hd⟩ := h
      rw [writeAll, writeAll, renamed_tick]
      refine .ite Iff.rfl ?_ (.back _ (.mk c fd hc hd))
      cases E.write c.tick with
      | wrote n =>
          exact ih hle' (.mk { c.next with wire := c.wire ++ bs.take (min (n + 1) bs.length) }
            fd hc hd)
      | eintr => exact ih hle' (.mk c.next fd hc hd)
      | eagain =>
          exact .ite Iff.rfl (ih hle' (.mk c.next fd hc hd)) (.back _ (.mk c.next fd hc hd))
      | error => exact .back _ (.mk c.next fd hc hd)

theorem writeEach_alike (E : Env) (hle : fuel ≤ fuel') (bss : List Bytes) (h : Alike c d) :
    Carries Alike (writeEach E fuel bss c) (writeEach E fuel' bss d) := by
  induction bss generalizing c d with
  | nil => exact .back _ h
  | cons bs bss ih =>
      refine (writeAll_alike E hle h).andThen fun rc c d h => ?_
      cases rc with
      | failure => exact .back _ h
      | success => exact ih h

theorem streamBlob_alike (E : Env) {blob : Bytes} {remaining : Nat} {crc : BitVec 32}
    (hle : fuel ≤ fuel') (h : Alike c d) :
    Carries Alike (streamBlob E fuel blob remaining crc c)
      (streamBlob E fuel' blob remaining crc d) := by
  induction fuel generalizing fuel' blob remaining crc c d with
  | zero => exact .running
  | succ fuel ih =>
      obtain ⟨fuel', rfl, hle'⟩ := exists_succ_of_le hle
      rw [streamBlob, streamBlob, h.tick]
      refine .ite Iff.rfl ?_ (.back _ h)
      cases E.blobRead c.tick with
      | data n =>
          have hstored := (h.writeBuf 0
            (blob.take (min (min (n + 1) (min remaining H.maxBufferLen)) blob.length))).next
          dsimp only
          rw [hstored.buf]
          refine .ite Iff.rfl (.back _ h.next) ?_
          refine (writeAll_alike E hle' hstored).andThen fun rc c d h => ?_
          cases rc with
          | failure => exact .back _ h
          | success => exact ih hle' h
      | eintr => exact ih hle' h.next
      | eagain => exact ih hle' h.next
      | eof => exact .back _ h.next
      | error => exact .back _ h.next

theorem zipEntry_alike (E : Env) (i : Nat) (e : ZipEntry) (hle : fuel ≤ fuel') (h : Alike c d) :
    Carries Alike (zipEntry E fuel i e c) (zipEntry E fuel' i e d) := by
  have hopened := (h.call (.zipOpen i true)).next
  unfold zipEntry
  rw [h.tick]
  refine .ite Iff.rfl (.back _ (h.call _).next) ?_
  dsimp only
  rw [hopened.tick]
  refine (writeEach_alike E hle _ hopened).andThen fun rc c d h => ?_
  cases rc with
  | failure => exact .back _ (h.call _)
  | success =>
      refine (streamBlob_alike E hle h).andThen fun out c d h => ?_
      cases out with
      | none => exact .back _ (h.call _)
      | some crc =>
          dsimp only
          rw [(h.call (.zipClose i)).tick]
          refine (writeAll_alike E hle (h.call _)).andThen fun rc c d h => ?_
          cases rc with
          | failure => exact .back _ h
          | success => exact .back _ h

theorem zipEntries_alike (E : Env) (hle : fuel ≤ fuel') (es : List ZipEntry) {i off : Nat}
    {results : List (BitVec 32 × Nat)} (h : Alike c d) :
    Carries Alike (zipEntries E fuel es i off results c)
      (zipEntries E fuel' es i off results d) := by
  induction es generalizing i off results c d with
  | nil => exact .back _ h
  | cons e es ih =>
      refine (zipEntry_alike E i e hle h).andThen fun out c d h => ?_
      cases out with
      | none => exact .back _ h
      | some crc => exact ih h

theorem zipCentral_alike (E : Env) (hle : fuel ≤ fuel') (rs : List (ZipEntry × BitVec 32 × Nat))
    (h : Alike c d) : Carries Alike (zipCentral E fuel rs c) (zipCentral E fuel' rs d) := by
  induction rs generalizing c d with
  | nil => exact .back _ h
  | cons r rs ih =>
      obtain ⟨e, crc, eoff⟩ := r
      rw [zipCentral, zipCentral, h.tick]
      refine (writeEach_alike E hle _ h).andThen fun rc c d h => ?_
      cases rc with
      | failure => exact .back _ h
      | success => exact ih h

theorem zipStream_alike (E : Env) (f : FolderZip) (hle : fuel ≤ fuel') (h : Alike c d) :
    Carries Alike (zipStream E fuel f c) (zipStream E fuel' f d) := by
  unfold zipStream
  refine .ite Iff.rfl (.back _ h) ?_
  refine (writeAll_alike E hle h).andThen fun rc c d h => ?_
  cases rc with
  | failure => exact .back _ h
  | success =>
      refine (zipEntries_alike E hle f.entries h).andThen fun out c d h => ?_
      cases out with
      | none => exact .back _ h
      | some results =>
          refine (zipCentral_alike E hle _ h).andThen fun rc c d h => ?_
          cases rc with
          | failure => exact .back _ h
          | success =>
              show Carries Alike (zipTrailer E fuel f.entries c) (zipTrailer E fuel' f.entries d)
              rw [zipTrailer, zipTrailer, h.tick]
              exact writeEach_alike E hle _ h

theorem clientFolderZipPump_alike (E : Env) (req : AppRequest) (hle : fuel ≤ fuel')
    (h : Alike c d) :
    Carries Alike (clientFolderZipPump E fuel req c) (clientFolderZipPump E fuel' req d) := by
  unfold clientFolderZipPump
  rw [h.tick]
  cases E.zipBegin c.tick req with
  | error res => exact responseWriterSend_alike E res hle (h.call _).next
  | ok f =>
      exact (zipStream_alike E f hle (h.call _).next).andThen fun rc c d h => .back _ (h.call _)

/-! ## Uploading -/

theorem drainRound_alike (E : Env) (deadline drained : Nat) (h : Alike c d) :
    Agree (drainRound E deadline drained c) (drainRound E deadline drained d) := by
  unfold drainRound
  rw [h.tick]
  refine .ite Iff.rfl ?_ ⟨rfl, h.next⟩
  cases E.read c.tick with
  | data n => exact ⟨rfl, (h.receive E 0 _).next⟩
  | eintr => exact ⟨rfl, h.next⟩
  | eagain => exact ⟨rfl, h.next⟩
  | eof => exact ⟨rfl, h.next⟩
  | error => exact ⟨rfl, h.next⟩

theorem drainLoop_alike (E : Env) {deadline drained : Nat} (hle : fuel ≤ fuel') (h : Alike c d) :
    Carries Alike (drainLoop E deadline fuel drained c) (drainLoop E deadline fuel' drained d) := by
  induction fuel generalizing fuel' drained c d with
  | zero => exact .running
  | succ fuel ih =>
      obtain ⟨fuel', rfl, hle'⟩ := exists_succ_of_le hle
      have hround := drainRound_alike E deadline drained h
      rw [drainLoop, drainLoop]
      generalize drainRound E deadline drained c = o at hround ⊢
      generalize drainRound E deadline drained d = o' at hround ⊢
      obtain ⟨k, c'⟩ := o
      obtain ⟨k', d'⟩ := o'
      obtain ⟨rfl, h'⟩ := hround
      cases k with
      | none => exact .back _ h'
      | some k => exact ih hle' h'

theorem drainRejectedBody_alike (E : Env) (hle : fuel ≤ fuel') (h : Alike c d) :
    Carries Alike (drainRejectedBody E fuel c) (drainRejectedBody E fuel' d) := by
  unfold drainRejectedBody
  rw [h.tick]
  exact drainLoop_alike E hle h.next

theorem Alike.offer (h : Alike c d) (E : Env) (bs : Bytes) : Alike (offer E bs c) (offer E bs d) := by
  obtain ⟨fd, hc, hd⟩ := h
  exact .mk (DBServer.offer E bs c) fd hc hd

theorem Alike.touch (h : Alike c d) (E : Env) : Alike (touch E c) (touch E d) := by
  obtain ⟨fd, hc, hd⟩ := h
  exact .mk (DBServer.touch E c) fd hc hd

theorem pumpAnswered_alike (E : Env) (status : Nat) (hle : fuel ≤ fuel') (h : Alike c d) :
    Carries Alike (pumpAnswered (responseWriterError E fuel status c))
      (pumpAnswered (responseWriterError E fuel' status d)) :=
  (responseWriterError_alike E status hle h).andThen fun _ _ _ h => .back _ h

theorem pumpLoop_alike (E : Env) {deadline remaining : Nat} (hle : fuel ≤ fuel') (h : Alike c d) :
    Carries Alike (pumpLoop E deadline fuel remaining c)
      (pumpLoop E deadline fuel' remaining d) := by
  induction fuel generalizing fuel' remaining c d with
  | zero => exact .running
  | succ fuel ih =>
      obtain ⟨fuel', rfl, hle'⟩ := exists_succ_of_le hle
      rw [pumpLoop, pumpLoop, h.tick]
      refine .ite Iff.rfl ?_ (.back _ h)
      refine .ite Iff.rfl (pumpAnswered_alike E 408 hle' h.next) ?_
      cases E.pollIn c.tick with
      | timeout => exact pumpAnswered_alike E 400 hle' h.next
      | eintr => exact ih hle' h.next
      | error => exact pumpAnswered_alike E 500 hle' h.next
      | ready =>
          cases E.read c.tick with
          | eof => exact .back _ (h.call _).next
          | eintr => exact ih hle' h.next
          | eagain => exact ih hle' h.next
          | error => exact pumpAnswered_alike E 500 hle' h.next
          | data n =>
              have hread := h.receive E 0 (min (n + 1) (min remaining H.maxBufferLen))
              dsimp only
              rw [hread.tick, hread.buf]
              exact .ite Iff.rfl (ih hle' ((hread.offer E _).touch E))
                (pumpAnswered_alike E 400 hle' (hread.offer E _))

theorem pumpBody_alike (E : Env) (leftover : Bytes) (total : Nat) (hle : fuel ≤ fuel')
    (h : Alike c d) :
    Carries Alike (pumpBody E fuel leftover total c) (pumpBody E fuel' leftover total d) := by
  unfold pumpBody
  rw [h.tick]
  refine .ite Iff.rfl (pumpAnswered_alike E 400 hle (h.offer E leftover)) ?_
  by_cases hleft : 0 < leftover.length
  · simp only [if_pos hleft]
    rw [(h.offer E leftover).tick]
    exact pumpLoop_alike E hle (h.offer E leftover).next
  · simp only [if_neg hleft]
    rw [h.tick]
    exact pumpLoop_alike E hle h.next

theorem settleTicket_alike (E : Env) (out : PumpResult × Status) (hle : fuel ≤ fuel')
    (h : Alike c d) : Carries Alike (settleTicket E fuel out c) (settleTicket E fuel' out d) := by
  obtain ⟨r, rc⟩ := out
  cases r with
  | ok =>
      rw [settleTicket, settleTicket, h.tick]
      exact (responseWriterSend_alike E _ hle (h.call _).next).andThen fun _ _ _ h => .back _ h
  | answered => exact .back _ (h.call _)
  | gone => exact .back _ (h.call _)

/-- What is said of the stream is read off the parser and the buffer. -/
theorem Alike.streamInfo (h : Alike c d) :
    (d.cli.httpParser.bind fun p => H.streamInfo p d.cli.buf) =
      c.cli.httpParser.bind fun p => H.streamInfo p c.cli.buf := by
  obtain ⟨fd, hc, hd⟩ := h
  rfl

theorem ticketPump_alike (E : Env) (req : AppRequest) (hle : fuel ≤ fuel') (h : Alike c d) :
    Carries Alike (ticketPump E fuel req c) (ticketPump E fuel' req d) := by
  have hopened : Alike (c.call (.begin true)).next (d.call (.begin true)).next := (h.call _).next
  have hanswer : ∀ status, Carries Alike
      (andThen (responseWriterError E fuel status ((c.call (.begin true)).next.call .abort))
        fun rc c => (some (Exit.returned rc), c))
      (andThen (responseWriterError E fuel' status ((d.call (.begin true)).next.call .abort))
        fun rc c => (some (Exit.returned rc), c)) := fun status =>
    (responseWriterError_alike E status hle (hopened.call _)).andThen fun _ _ _ h => .back _ h
  unfold ticketPump
  rw [h.tick]
  cases E.uploadBegin c.tick req with
  | some res =>
      exact (responseWriterSend_alike E res hle (h.call _).next).andThen fun _ _ _ h => .back _ h
  | none =>
      dsimp only
      rw [hopened.streamInfo]
      cases (c.call (.begin true)).next.cli.httpParser.bind fun p =>
          H.streamInfo p (c.call (.begin true)).next.cli.buf with
      | none => exact hanswer 500
      | some info =>
          refine .ite Iff.rfl (hanswer 500) ?_
          exact (pumpBody_alike E _ _ hle hopened).andThen fun out _ _ h =>
            settleTicket_alike E out hle h

theorem clientUploadPumpToDrain_alike (E : Env) (threadId : Nat) (req : Option HttpRequest)
    (hle : fuel ≤ fuel') (h : Alike c d) :
    Carries Alike (clientUploadPumpToDrain E fuel threadId req c)
      (clientUploadPumpToDrain E fuel' threadId req d) := by
  cases req with
  | none => exact .back _ h
  | some parsed =>
      have hadapt := h.call (.adapt parsed)
      rw [clientUploadPumpToDrain, clientUploadPumpToDrain]
      dsimp only
      rw [hadapt.tick]
      cases E.adaptHeaders parsed with
      | none =>
          exact (responseWriterError_alike E 500 hle hadapt).andThen fun _ _ _ h => .back _ h
      | some req =>
          refine .ite Iff.rfl (ticketPump_alike E _ hle hadapt.next) ?_
          refine .ite Iff.rfl ?_ (ticketPump_alike E _ hle hadapt.next)
          exact (clientFolderZipPump_alike E _ hle hadapt.next).andThen fun _ _ _ h => .back _ h

/-! ## Handling -/

theorem Alike.draining (h : Alike c d) : d.cli.draining = c.cli.draining := by
  obtain ⟨fd, hc, hd⟩ := h
  rfl

theorem srvRouterDispatch_alike (E : Env) (hle : fuel ≤ fuel') (h : Alike c d) :
    Carries Alike (srvRouterDispatch E fuel c) (srvRouterDispatch E fuel' d) :=
  alike_of_abreast (srvRouterDispatch_abreast hle (h.abreast E))

theorem afterAnswer_alike (h : Alike c d) : Agree (afterAnswer c) (afterAnswer d) := by
  unfold afterAnswer
  rw [h.draining]
  exact .ite Iff.rfl ⟨rfl, h⟩ ⟨rfl, h.reset⟩

theorem afterDispatch_alike (rc : Status) (h : Alike c d) :
    Agree (afterDispatch rc c) (afterDispatch rc d) := by
  -- the world has no part in it
  have habreast := afterDispatch_abreast rc (h.abreast (.smooth { status := 200 }))
  exact ⟨habreast.1, habreast.2.alike⟩

/-- The request of a client, stored. -/
theorem Alike.stored (h : Alike c d) (req : HttpRequest) (threadId : Nat) :
    Alike { c with cli := (clientStoreRequest c.cli req threadId).2 }
      { d with cli := (clientStoreRequest d.cli req threadId).2 } :=
  ((h.abreast (.smooth { status := 200 })).stored req threadId).alike

/-- What the loop makes of the parser's verdict, if it does not go on. -/
theorem afterParse_alike (E : Env) (threadId : Nat) (status : HttpStatus)
    (req : Option HttpRequest) (hle : fuel ≤ fuel') (h : Alike c d) :
    (afterParse E fuel threadId status req c = none ∧
      afterParse E fuel' threadId status req d = none) ∨
    ∃ o o', afterParse E fuel threadId status req c = some o ∧
      afterParse E fuel' threadId status req d = some o' ∧ Carries Alike o o' := by
  have hclosing : Alike (closing c) (closing d) := by
    obtain ⟨fd, hc, hd⟩ := h
    exact .mk (closing c) fd hc hd
  have hanswered : ∀ {c d : Conn H}, Alike c d →
      Carries Alike (some (Exit.returned (afterAnswer c).1), (afterAnswer c).2)
        (some (Exit.returned (afterAnswer d).1), (afterAnswer d).2) := by
    intro c d h
    have hafter := afterAnswer_alike h
    rw [← hafter.1]
    exact .back _ hafter.2
  cases status with
  | headersCompleteStream =>
      refine .inr ⟨_, _, rfl, rfl, ?_⟩
      refine (clientUploadPumpToDrain_alike E threadId req hle hclosing).andThen
        fun out c d h => ?_
      cases out with
      | returned rc => exact hanswered h
      | atDrain rc => exact .back _ h
  | contentTooLarge =>
      exact .inr ⟨_, _, rfl, rfl, (responseWriterError_alike E 413 hle h).andThen
        fun _ _ _ h => hanswered h⟩
  | other =>
      exact .inr ⟨_, _, rfl, rfl, (responseWriterError_alike E 400 hle h).andThen
        fun _ _ _ h => hanswered h⟩
  | ok =>
      cases req with
      | none => exact .inr ⟨_, _, rfl, rfl, .back _ h.reset⟩
      | some req =>
          cases hcomplete : req.messageComplete with
          | false => exact .inl ⟨by simp [afterParse, hcomplete], by simp [afterParse, hcomplete]⟩
          | true =>
              simp only [afterParse, hcomplete, if_true]
              refine .inr ⟨_, _, rfl, rfl, ?_⟩
              refine (srvRouterDispatch_alike E hle (h.stored req threadId)).andThen
                fun rc c d h => ?_
              have hafter := afterDispatch_alike rc h
              rw [← hafter.1]
              exact .back _ hafter.2

theorem clientHandleToDrain_alike (E : Env) (threadId : Nat) (hle : fuel ≤ fuel')
    (h : Alike c d) :
    Carries Alike (clientHandleToDrain E threadId fuel c)
      (clientHandleToDrain E threadId fuel' d) := by
  induction fuel generalizing fuel' c d with
  | zero => exact .running
  | succ fuel ih =>
      obtain ⟨fuel', rfl, hle'⟩ := exists_succ_of_le hle
      obtain ⟨fd, hc, hd⟩ := h
      cases hparser : c.cli.httpParser with
      | none =>
          rw [clientHandleToDrain, clientHandleToDrain, renamed_httpParser, hparser]
          exact .back _ (.mk c fd hc hd)
      | some parser =>
          by_cases hroom : c.cli.bufIdx < H.maxBufferLen
          · cases hread : E.read c.tick with
            | data n =>
                rw [clientHandleToDrain_data hparser hroom hread,
                  clientHandleToDrain_data (c := renamed fd c) hparser hroom hread]
                have hfed : Alike (parserFed parser (readRequest E n c))
                    (parserFed parser (readRequest E n (renamed fd c))) := .mk _ fd hc hd
                have hexec : H.exec parser (readRequest E n (renamed fd c)).2.cli.buf
                    (readRequest E n (renamed fd c)).1 =
                  H.exec parser (readRequest E n c).2.cli.buf (readRequest E n c).1 := rfl
                rw [hexec]
                rcases afterParse_alike E threadId _ _ hle' hfed with
                  ⟨hgo, hgo'⟩ | ⟨o, o', ho, ho', hcarries⟩
                · rw [hgo, hgo']
                  exact ih hle' hfed
                · rw [ho, ho']
                  exact hcarries
            | eof =>
                rw [clientHandleToDrain, clientHandleToDrain, renamed_tick, renamed_httpParser,
                  hparser]
                simp only [hread]
                exact .ite Iff.rfl (.back _ (.mk c.reset fd hc hd)) (.back _ (.mk c.reset fd hc hd))
            | error =>
                rw [clientHandleToDrain, clientHandleToDrain, renamed_tick, renamed_httpParser,
                  hparser]
                simp only [hread]
                exact .ite Iff.rfl (.back _ (.mk c.reset fd hc hd)) (.back _ (.mk c.reset fd hc hd))
            | eintr =>
                rw [clientHandleToDrain, clientHandleToDrain, renamed_tick, renamed_httpParser,
                  hparser]
                simp only [hread]
                exact .ite Iff.rfl (.back _ (.mk c.reset fd hc hd)) (ih hle' (.mk c.next fd hc hd))
            | eagain =>
                rw [clientHandleToDrain, clientHandleToDrain, renamed_tick, renamed_httpParser,
                  hparser]
                simp only [hread]
                exact .ite Iff.rfl (.back _ (.mk c.reset fd hc hd)) (.back _ (.mk c.next fd hc hd))
          · -- both buffers are full
            rw [clientHandleToDrain, clientHandleToDrain, renamed_httpParser, hparser]
            have hfull : H.maxBufferLen ≤ c.cli.bufIdx := Nat.not_lt.mp hroom
            have hfull' : H.maxBufferLen ≤ (renamed fd c).cli.bufIdx := hfull
            simp only [if_pos hfull, if_pos hfull']
            exact .back _ (.mk c.reset fd hc hd)

/-- **Handled side by side, two clients alike stay so.** -/
theorem clientHandle_alike (E : Env) (threadId : Nat) (hle : fuel ≤ fuel') (h : Alike c d) :
    Carries Alike (clientHandle E fuel threadId c) (clientHandle E fuel' threadId d) := by
  have hparser : d.cli.httpParser = c.cli.httpParser := by
    obtain ⟨fd, hc, hd⟩ := h
    rfl
  unfold clientHandle
  rw [hparser]
  refine .ite (or_congr Iff.rfl h.fd_neg) (.back _ h) ?_
  refine (clientHandleToDrain_alike E threadId hle h).andThen fun out c d h => ?_
  cases out with
  | returned rc => exact .back _ h
  | atDrain rc =>
      exact (drainRejectedBody_alike E hle h).andThen fun _ _ _ h => (afterAnswer_alike h).back

/-! ## However long they are watched -/

/--
Two calls that come back, each watched for as long as it takes: they come back with the
same result, and alike.
-/
theorem carries_twin {f g : Nat → Option α × Conn H} {n m : Nat} {r r' : α}
    (hfg : ∀ {n m}, n ≤ m → Carries Alike (f n) (g m))
    (hgg : ∀ {n m}, n ≤ m → Carries Alike (g n) (g m)) (hf : f n = (some r, c))
    (hg : g m = (some r', d)) : r = r' ∧ Alike c d := by
  obtain ⟨hr, e, hce, hde⟩ := Carries.twin hfg hgg hf hg
  exact ⟨hr, hce.join hde⟩

end DBServer.Proof
