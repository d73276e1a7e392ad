import DBServer.Client.Handle
import DBServer.Proof.Delivery

/-!
# What a client's handlers leave alone

Reading, answering, pumping and streaming all work on one client, but whose slot it
is, which descriptor and reactor it belongs to and who its peer is are settled
elsewhere. Every handler keeps them.
-/

namespace DBServer.Proof

open DBServer Lib

variable {H : DbHttp} {c c' : Conn H}

/-- The slot, the registration and the peer of a client. -/
def identity (c : Conn H) : Bool × FdCtx × Nat × Nat :=
  (c.cli.isBusy, c.cli.ctx, c.cli.remoteIpBe, c.cli.remotePortBe)

theorem ctx_of_identity (h : identity c' = identity c) : c'.cli.ctx = c.cli.ctx :=
  congrArg (fun x => x.2.1) h

/-! ## Sending -/

theorem SendFrame.identity (h : SendFrame c c') : identity c' = identity c := by
  obtain ⟨_, _, _, _, hcli⟩ := h.cli
  rw [Proof.identity, hcli]; rfl

theorem LaidOut.identity (h : LaidOut c c') : identity c' = identity c := by
  obtain ⟨_, _, hcli⟩ := h.cli
  rw [Proof.identity, hcli]; rfl

theorem startSend_identity (E : Env) (fuel total : Nat) (c : Conn H) :
    identity (startSend E fuel total c).2 = identity c :=
  (trySend_frame E total fuel _).identity

theorem Start.call_identity (E : Env) (fuel : Nat) (start : Start) (c : Conn H) :
    identity (start.call E fuel c).2 = identity c := by
  rcases Start.split E start c with ⟨d, hl, hcall⟩ | ⟨d, n, _, _, hl, hcall⟩
  · rw [hcall]; exact hl.identity
  · rw [hcall, startSend_identity]; exact hl.identity

theorem responseWriterError_identity (E : Env) (fuel status : Nat) (c : Conn H) :
    identity (responseWriterError E fuel status c).2 = identity c :=
  Start.call_identity E fuel (.error status) c

theorem responseWriterSend_identity (E : Env) (fuel : Nat) (res : AppResponse) (c : Conn H) :
    identity (responseWriterSend E fuel res c).2 = identity c :=
  Start.call_identity E fuel (.send res) c

theorem responseWriterResume_identity (E : Env) (fuel : Nat) (c : Conn H) :
    identity (responseWriterResume E fuel c).2 = identity c := by
  unfold responseWriterResume
  split
  · rfl
  · refine andThen_unchanged (trySend_frame E _ fuel c).identity fun rc d => ?_
    cases rc with
    | failure => rfl
    | success =>
        rw [resumeRest]
        split
        · rfl
        · unfold resumeDone
          split <;> rfl

/-! ## Streaming -/

/-- Closed under everything the archive stream does to its client. -/
structure StreamClosed (P : Conn H → Prop) : Prop where
  next : ∀ c : Conn H, P c → P c.next
  wire : ∀ (c : Conn H) (bs : Bytes), P c → P { c with wire := c.wire ++ bs }
  store : ∀ (c : Conn H) (bs : Bytes), P c → P (c.writeBuf 0 bs)
  call : ∀ (c : Conn H) (e : Call), (∀ bs, e ≠ .respond bs) → P c → P (c.call e)

namespace StreamClosed

variable {P : Conn H → Prop} (hP : StreamClosed P) (E : Env) (fuel : Nat)
include hP

theorem writeAll : ∀ (fuel : Nat) (bs : Bytes) (c : Conn H), P c → P (writeAll E fuel bs c).2
  | 0, _, _, h => h
  | fuel + 1, bs, c, h => by
      rw [DBServer.writeAll]
      split
      · split
        · exact writeAll fuel _ _ (hP.wire c.next _ (hP.next c h))
        · exact writeAll fuel _ _ (hP.next c h)
        · split
          · exact writeAll fuel _ _ (hP.next c h)
          · exact hP.next c h
        · exact hP.next c h
      · exact h

theorem writeEach : ∀ (bss : List Bytes) (c : Conn H), P c → P (writeEach E fuel bss c).2
  | [], _, h => h
  | bs :: bss, c, h => by
      refine andThen_preserves (hP.writeAll E fuel bs c h) fun rc d hd => ?_
      cases rc with
      | failure => exact hd
      | success => exact writeEach bss d hd

theorem streamBlob : ∀ (fuel : Nat) (blob : Bytes) (remaining : Nat) (crc : BitVec 32)
    (c : Conn H), P c → P (streamBlob E fuel blob remaining crc c).2
  | 0, _, _, _, _, h => h
  | fuel + 1, blob, remaining, crc, c, h => by
      rw [DBServer.streamBlob]
      split
      · split
        · dsimp only
          split
          · exact hP.next c h
          · refine andThen_preserves
              (hP.writeAll E fuel _ _ (hP.next _ (hP.store c _ h))) fun rc d hd => ?_
            cases rc with
            | failure => exact hd
            | success => exact streamBlob fuel _ _ _ d hd
        · exact streamBlob fuel _ _ _ _ (hP.next c h)
        · exact streamBlob fuel _ _ _ _ (hP.next c h)
        · exact hP.next c h
        · exact hP.next c h
      · exact h

theorem zipEntry (i : Nat) (e : ZipEntry) (c : Conn H) (h : P c) :
    P (zipEntry E fuel i e c).2 := by
  unfold DBServer.zipEntry
  split
  · exact hP.next _ (hP.call c _ (by simp) h)
  · refine andThen_preserves
      (hP.writeEach E fuel _ _ (hP.next _ (hP.call c _ (by simp) h))) fun rc d hd => ?_
    cases rc with
    | failure => exact hP.call d _ (by simp) hd
    | success =>
        refine andThen_preserves (hP.streamBlob E fuel _ _ _ d hd) fun out d hd => ?_
        cases out with
        | none => exact hP.call d _ (by simp) hd
        | some crc =>
            refine andThen_preserves
              (hP.writeAll E fuel _ _ (hP.call d _ (by simp) hd)) fun rc d hd => ?_
            cases rc <;> exact hd

theorem zipEntries : ∀ (es : List ZipEntry) (i off : Nat) (results : List (BitVec 32 × Nat))
    (c : Conn H), P c → P (zipEntries E fuel es i off results c).2
  | [], _, _, _, _, h => h
  | e :: es, i, off, results, c, h => by
      refine andThen_preserves (hP.zipEntry E fuel i e c h) fun out d hd => ?_
      cases out with
      | none => exact hd
      | some crc => exact zipEntries es _ _ _ d hd

theorem zipCentral : ∀ (rs : List (ZipEntry × BitVec 32 × Nat)) (c : Conn H), P c →
    P (zipCentral E fuel rs c).2
  | [], _, h => h
  | (e, crc, off) :: rs, c, h => by
      refine andThen_preserves (hP.writeEach E fuel _ c h) fun rc d hd => ?_
      cases rc with
      | failure => exact hd
      | success => exact zipCentral rs d hd

theorem zipStream (h : FolderZip) (c : Conn H) (hc : P c) : P (zipStream E fuel h c).2 := by
  simp only [DBServer.zipStream]
  split
  · exact hc
  · refine andThen_preserves (hP.writeAll E fuel _ c hc) fun rc d hd => ?_
    cases rc with
    | failure => exact hd
    | success =>
        refine andThen_preserves (hP.zipEntries E fuel _ _ _ _ d hd) fun out d hd => ?_
        cases out with
        | none => exact hd
        | some results =>
            refine andThen_preserves (hP.zipCentral E fuel _ d hd) fun rc d hd => ?_
            cases rc with
            | failure => exact hd
            | success => exact hP.writeEach E fuel _ d hd

end StreamClosed

theorem streamClosed_identity (v : Bool × FdCtx × Nat × Nat) :
    StreamClosed fun c : Conn H => identity c = v :=
  ⟨fun _ h => h, fun _ _ h => h, fun _ _ h => h, fun _ _ _ h => h⟩

theorem clientFolderZipPump_identity (E : Env) (fuel : Nat) (req : AppRequest) (c : Conn H) :
    identity (clientFolderZipPump E fuel req c).2 = identity c := by
  unfold clientFolderZipPump
  split
  · exact responseWriterSend_identity E fuel _ _
  · exact andThen_unchanged ((streamClosed_identity (identity c)).zipStream E fuel _ _ rfl)
      fun _ _ => rfl

/-! ## Uploading -/

/-- Discarding a body changes nothing that reading into the buffer does not change. -/
theorem drainRejectedBody_unchanged {γ : Type} (v : Conn H → γ) (E : Env) (fuel : Nat)
    (c : Conn H) (hnext : ∀ c : Conn H, v c.next = v c)
    (hreceive : ∀ (k : Nat) (c : Conn H), v (c.receive E 0 k) = v c) :
    v (drainRejectedBody E fuel c).2 = v c := by
  have hround : ∀ (deadline drained : Nat) (c : Conn H),
      v (drainRound E deadline drained c).2 = v c := by
    intro deadline drained c
    unfold drainRound
    split
    · split
      · exact (hnext _).trans (hreceive _ c)
      · exact hnext c
      · exact hnext c
      · exact hnext c
      · exact hnext c
    · exact hnext c
  have hloop : ∀ (deadline fuel drained : Nat) (c : Conn H),
      v (drainLoop E deadline fuel drained c).2 = v c := by
    intro deadline fuel
    induction fuel with
    | zero => intro _ _; rfl
    | succ fuel ih =>
        intro drained c
        have hr := hround deadline drained c
        rw [drainLoop]
        rcases hs : drainRound E deadline drained c with ⟨_ | k, d⟩ <;> rw [hs] at hr
        · exact hr
        · exact (ih k d).trans hr
  exact (hloop _ fuel 0 c.next).trans (hnext c)

theorem drainRejectedBody_identity (E : Env) (fuel : Nat) (c : Conn H) :
    identity (drainRejectedBody E fuel c).2 = identity c :=
  drainRejectedBody_unchanged identity E fuel c (fun _ => rfl) fun _ _ => rfl

theorem pumpAnswered_identity (E : Env) (fuel status : Nat) (c : Conn H) :
    identity (pumpAnswered (responseWriterError E fuel status c)).2 = identity c :=
  andThen_unchanged (responseWriterError_identity E fuel status c) fun _ _ => rfl

theorem pumpLoop_identity (E : Env) (deadline : Nat) : ∀ (fuel remaining : Nat) (c : Conn H),
    identity (pumpLoop E deadline fuel remaining c).2 = identity c
  | 0, _, _ => rfl
  | fuel + 1, remaining, c => by
      rw [pumpLoop]
      split
      · split
        · exact pumpAnswered_identity E fuel 408 _
        · split
          · exact pumpAnswered_identity E fuel 400 _
          · exact pumpLoop_identity E deadline fuel _ _
          · exact pumpAnswered_identity E fuel 500 _
          · split
            · rfl
            · exact pumpLoop_identity E deadline fuel _ _
            · exact pumpLoop_identity E deadline fuel _ _
            · exact pumpAnswered_identity E fuel 500 _
            · dsimp only
              split
              · exact pumpLoop_identity E deadline fuel _ _
              · exact pumpAnswered_identity E fuel 400 _
      · rfl

theorem pumpBody_identity (E : Env) (fuel : Nat) (leftover : Bytes) (total : Nat) (c : Conn H) :
    identity (pumpBody E fuel leftover total c).2 = identity c := by
  unfold pumpBody
  split
  · exact pumpAnswered_identity E fuel 400 _
  · dsimp only
    split
    · exact pumpLoop_identity E _ fuel _ _
    · exact pumpLoop_identity E _ fuel _ _

theorem ticketPump_identity (E : Env) (fuel : Nat) (req : AppRequest) (c : Conn H) :
    identity (ticketPump E fuel req c).2 = identity c := by
  unfold ticketPump
  split
  · exact andThen_unchanged (responseWriterSend_identity E fuel _ _) fun _ _ => rfl
  · dsimp only
    split
    · exact andThen_unchanged (responseWriterError_identity E fuel 500 _) fun _ _ => rfl
    · split
      · exact andThen_unchanged (responseWriterError_identity E fuel 500 _) fun _ _ => rfl
      · refine andThen_unchanged (pumpBody_identity E fuel _ _ _) fun out d => ?_
        obtain ⟨r, rc⟩ := out
        cases r with
        | ok => exact andThen_unchanged (responseWriterSend_identity E fuel _ _) fun _ _ => rfl
        | answered => rfl
        | gone => rfl

theorem clientUploadPumpToDrain_identity (E : Env) (fuel threadId : Nat)
    (req : Option HttpRequest) (c : Conn H) :
    identity (clientUploadPumpToDrain E fuel threadId req c).2 = identity c := by
  unfold clientUploadPumpToDrain
  split
  · rfl
  · dsimp only
    split
    · exact andThen_unchanged (responseWriterError_identity E fuel 500 _) fun _ _ => rfl
    · split
      · exact ticketPump_identity E fuel _ _
      · split
        · exact andThen_unchanged (clientFolderZipPump_identity E fuel _ _) fun _ _ => rfl
        · exact ticketPump_identity E fuel _ _

/-! ## Handling -/

theorem srvRouterDispatch_identity (E : Env) (fuel : Nat) (c : Conn H) :
    identity (srvRouterDispatch E fuel c).2 = identity c := by
  unfold srvRouterDispatch handlerDbApp
  split
  · rfl
  · split
    · exact responseWriterError_identity E fuel 404 c
    · split
      · dsimp only
        split
        · exact responseWriterError_identity E fuel 500 _
        · exact responseWriterSend_identity E fuel _ _
      · exact responseWriterError_identity E fuel 404 c

theorem afterAnswer_identity (c : Conn H) : identity (afterAnswer c).2 = identity c := by
  unfold afterAnswer
  split <;> rfl

theorem afterDispatch_identity (rc : Status) (c : Conn H) :
    identity (afterDispatch rc c).2 = identity c := by
  simp only [afterDispatch]
  split
  · rfl
  · split
    · rfl
    · split <;> rfl

theorem afterParse_identity (E : Env) (fuel threadId : Nat) (status : HttpStatus)
    (req : Option HttpRequest) (c : Conn H) {out : Option Exit × Conn H}
    (h : afterParse E fuel threadId status req c = some out) : identity out.2 = identity c := by
  unfold afterParse at h
  split at h
  · obtain rfl := Option.some.inj h
    refine andThen_unchanged (clientUploadPumpToDrain_identity E fuel threadId _ _) fun x d => ?_
    cases x with
    | returned rc => exact afterAnswer_identity d
    | atDrain rc => rfl
  · obtain rfl := Option.some.inj h
    exact andThen_unchanged (responseWriterError_identity E fuel 413 c)
      fun _ d => afterAnswer_identity d
  · obtain rfl := Option.some.inj h
    exact andThen_unchanged (responseWriterError_identity E fuel 400 c)
      fun _ d => afterAnswer_identity d
  · obtain rfl := Option.some.inj h
    rfl
  · split at h
    · obtain rfl := Option.some.inj h
      refine (andThen_unchanged (srvRouterDispatch_identity E fuel _)
        fun rc d => afterDispatch_identity rc d).trans ?_
      rename_i req hcomplete
      simp only [clientStoreRequest, hcomplete]
      rfl
    · exact absurd h (by simp)

theorem clientHandleToDrain_identity (E : Env) (threadId : Nat) : ∀ (fuel : Nat) (c : Conn H),
    identity (clientHandleToDrain E threadId fuel c).2 = identity c
  | 0, _ => rfl
  | fuel + 1, c => by
      rw [clientHandleToDrain]
      split
      · rfl
      · split
        · rfl
        · split
          · dsimp only
            split
            · rename_i hparse
              have hkept := afterParse_identity E fuel threadId _ _ _ hparse
              exact hkept
            · exact clientHandleToDrain_identity E threadId fuel _
          · rfl
          · rfl
          · exact clientHandleToDrain_identity E threadId fuel _
          · rfl

/-- **`client_handle` keeps the identity of its client.** -/
theorem clientHandle_identity (E : Env) (fuel threadId : Nat) (c : Conn H) :
    identity (clientHandle E fuel threadId c).2 = identity c := by
  unfold clientHandle
  split
  · rfl
  · refine andThen_unchanged (clientHandleToDrain_identity E threadId fuel c) fun x d => ?_
    cases x with
    | returned rc => rfl
    | atDrain rc =>
        exact andThen_unchanged (drainRejectedBody_identity E fuel d)
          fun _ d' => afterAnswer_identity d'

end DBServer.Proof
