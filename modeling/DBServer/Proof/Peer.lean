import DBServer.Proof.Parked
import DBServer.Proof.Reuse
import DBServer.Proof.Truncated

/-!
# Who a request came from

The peer's address is captured when a descriptor is adopted and belongs to the connection.
`_client_store_request` writes it into the record of every request it stores. A request
claimed by the stream gate is not stored: its record goes to the pump as the parser made
it, address fields and all.

`claimed` follows the loop of `client_handle` to the request the gate claims in one call,
and `Requests` collects them over the calls of a connection. What reached `DB_app`'s
adapters in between carries the connection's address (`clientHandle_adapted`), so that
every request does exactly when none was claimed, or when the address is the sentinel that
the parser leaves (`Requests.addressed_iff`).
-/

namespace DBServer.Proof

open DBServer Lib Operator

variable {H : DbHttp} {E : Env} {c c' d : Conn H} {fuel threadId : Nat} {rc : Status}
  {claims : List HttpRequest} {o : Option Status × Conn H}

/-! ## What reached the adapters -/

/-- The request records given to `DB_app`'s adapters, in order. -/
def adapted (c : Conn H) : List HttpRequest := c.log.filterMap fun
  | .adapt req => some req
  | _ => none

/-- The address fields of a record. -/
def address (req : HttpRequest) : Nat × Nat := (req.remoteIpBe, req.remotePortBe)

/-- The address captured for a connection. -/
def peerOf (c : Conn H) : Nat × Nat := (c.cli.remoteIpBe, c.cli.remotePortBe)

/-- A call that gives nothing to an adapter. -/
theorem adapted_of_log {calls : List Call} (h : d.log = c.log ++ calls)
    (hcalls : ∀ e ∈ calls, ∀ req, e ≠ .adapt req) : adapted d = adapted c := by
  have hnone : adapted { c with log := calls } = [] := by
    refine List.filterMap_eq_nil_iff.mpr fun e he => ?_
    have hother := hcalls e he
    cases e with
    | adapt req => exact absurd rfl (hother req)
    | _ => rfl
  rw [adapted, h, List.filterMap_append]
  exact (congrArg (adapted c ++ ·) hnone).trans (List.append_nil _)

theorem adapted_call {e : Call} (he : ∀ req, e ≠ .adapt req) : adapted (c.call e) = adapted c :=
  adapted_of_log rfl fun a ha => by rw [List.mem_singleton.mp ha]; exact he

theorem adapted_adapt (req : HttpRequest) : adapted (c.call (.adapt req)) = adapted c ++ [req] := by
  simp [adapted, Conn.call]

theorem startSend_adapted (E : Env) (fuel total : Nat) (c : Conn H) :
    adapted (startSend E fuel total c).2 = adapted c :=
  adapted_of_log (startSend_log E fuel total c) (by simp)

theorem Start.call_adapted (E : Env) (fuel : Nat) (start : Start) (c : Conn H) :
    adapted (start.call E fuel c).2 = adapted c := by
  have hlaid : ∀ d : Conn H, LaidOut c d → adapted d = adapted c := by
    intro d hl
    rw [adapted, hl.log, adapted]
  rcases Start.split E start c with ⟨d, hl, hcall⟩ | ⟨d, n, _, _, hl, hcall⟩
  · rw [hcall]
    exact hlaid d hl
  · rw [hcall, startSend_adapted]
    exact hlaid d hl

theorem responseWriterError_adapted (E : Env) (fuel status : Nat) (c : Conn H) :
    adapted (responseWriterError E fuel status c).2 = adapted c :=
  Start.call_adapted E fuel (.error status) c

theorem responseWriterSend_adapted (E : Env) (fuel : Nat) (res : AppResponse) (c : Conn H) :
    adapted (responseWriterSend E fuel res c).2 = adapted c :=
  Start.call_adapted E fuel (.send res) c

theorem responseWriterResume_adapted (E : Env) (fuel : Nat) (c : Conn H) :
    adapted (responseWriterResume E fuel c).2 = adapted c := by
  unfold responseWriterResume
  split
  · rfl
  · have hframe := (trySend_frame E c.cli.sendLen fuel c).log
    refine andThen_unchanged (v := adapted) (by rw [adapted, hframe, adapted]) fun rc d => ?_
    cases rc with
    | failure => rfl
    | success =>
        rw [resumeRest]
        split
        · rfl
        · unfold resumeDone
          split <;> rfl

/-! ## The pumps -/

theorem offer_adapted (E : Env) (bs : Bytes) (c : Conn H) : adapted (offer E bs c) = adapted c :=
  adapted_call (by simp)

theorem pumpAnswered_adapted (E : Env) (fuel status : Nat) (c : Conn H) :
    adapted (pumpAnswered (responseWriterError E fuel status c)).2 = adapted c :=
  andThen_unchanged (v := adapted) (responseWriterError_adapted E fuel status c) fun _ _ => rfl

theorem pumpLoop_adapted (E : Env) (deadline : Nat) : ∀ (fuel remaining : Nat) (c : Conn H),
    adapted (pumpLoop E deadline fuel remaining c).2 = adapted c
  | 0, _, _ => rfl
  | fuel + 1, remaining, c => by
      rw [pumpLoop]
      split
      · split
        · exact pumpAnswered_adapted E fuel 408 c.next
        · split
          · exact pumpAnswered_adapted E fuel 400 c.next
          · exact pumpLoop_adapted E deadline fuel remaining c.next
          · exact pumpAnswered_adapted E fuel 500 c.next
          · split
            · exact adapted_call (c := c) (by simp)
            · exact pumpLoop_adapted E deadline fuel remaining c.next
            · exact pumpLoop_adapted E deadline fuel remaining c.next
            · exact pumpAnswered_adapted E fuel 500 c.next
            · dsimp only
              split
              · exact (pumpLoop_adapted E deadline fuel _ _).trans (offer_adapted E _ _)
              · exact (pumpAnswered_adapted E fuel 400 _).trans (offer_adapted E _ _)
      · rfl

theorem pumpBody_adapted (E : Env) (fuel : Nat) (leftover : Bytes) (total : Nat) (c : Conn H) :
    adapted (pumpBody E fuel leftover total c).2 = adapted c := by
  unfold pumpBody
  split
  · exact (pumpAnswered_adapted E fuel 400 _).trans (offer_adapted E leftover c)
  · dsimp only
    split
    · exact (pumpLoop_adapted E _ fuel _ _).trans (offer_adapted E leftover c)
    · exact pumpLoop_adapted E _ fuel _ c.next

theorem settleTicket_adapted (E : Env) (fuel : Nat) (r : PumpResult × Status) (c : Conn H) :
    adapted (settleTicket E fuel r c).2 = adapted c := by
  obtain ⟨r, rc⟩ := r
  cases r with
  | ok =>
      have hcommit : adapted (c.call .commit).next = adapted c := adapted_call (by simp)
      exact andThen_unchanged (v := adapted)
        ((responseWriterSend_adapted E fuel _ _).trans hcommit) fun _ _ => rfl
  | answered => exact adapted_call (by simp)
  | gone => exact adapted_call (by simp)

theorem ticketPump_adapted (E : Env) (fuel : Nat) (req : AppRequest) (c : Conn H) :
    adapted (ticketPump E fuel req c).2 = adapted c := by
  unfold ticketPump
  split
  · have hbegin : adapted (c.call (.begin false)).next = adapted c := adapted_call (by simp)
    exact andThen_unchanged (v := adapted)
      ((responseWriterSend_adapted E fuel _ _).trans hbegin) fun _ _ => rfl
  · have hbegin : adapted (c.call (.begin true)).next = adapted c := adapted_call (by simp)
    have habort : adapted ((c.call (.begin true)).next.call .abort) = adapted c :=
      (adapted_call (by simp)).trans hbegin
    have herror := (responseWriterError_adapted E fuel 500 _).trans habort
    dsimp only
    split
    · exact andThen_unchanged (v := adapted) herror fun _ _ => rfl
    · split
      · exact andThen_unchanged (v := adapted) herror fun _ _ => rfl
      · exact andThen_unchanged (v := adapted) ((pumpBody_adapted E fuel _ _ _).trans hbegin)
          fun r d => settleTicket_adapted E fuel r d

theorem clientFolderZipPump_adapted (E : Env) (fuel : Nat) (req : AppRequest) (c : Conn H) :
    adapted (clientFolderZipPump E fuel req c).2 = adapted c := by
  unfold clientFolderZipPump
  split
  · exact (responseWriterSend_adapted E fuel _ _).trans (adapted_call (c := c) (by simp))
  · rename_i h _
    obtain ⟨calls, hlog, hblob, _⟩ := zipStream_logs E fuel h (c.call (.zipBegin true)).next
    have hstream := adapted_of_log hlog fun e he req hreq => by
      have hcall := hblob e he
      rw [hreq] at hcall
      exact hcall
    exact andThen_unchanged (v := adapted)
      (hstream.trans (adapted_call (c := c) (by simp))) fun _ d => adapted_call (by simp)

/-- **The pump gives the claimed record to the adapter as it is**, and nothing else. -/
theorem clientUploadPumpToDrain_adapted (E : Env) (fuel threadId : Nat)
    (req : Option HttpRequest) (c : Conn H) :
    adapted (clientUploadPumpToDrain E fuel threadId req c).2 = adapted c ++ req.toList := by
  unfold clientUploadPumpToDrain
  cases req with
  | none => exact (List.append_nil _).symm
  | some req =>
      have hadapt : adapted (c.call (.adapt req)) = adapted c ++ [req] := adapted_adapt req
      dsimp only
      split
      · exact andThen_unchanged (v := adapted)
          ((responseWriterError_adapted E fuel 500 _).trans hadapt) fun _ _ => rfl
      · split
        · exact (ticketPump_adapted E fuel _ _).trans hadapt
        · split
          · exact andThen_unchanged (v := adapted)
              ((clientFolderZipPump_adapted E fuel _ _).trans hadapt) fun _ _ => rfl
          · exact (ticketPump_adapted E fuel _ _).trans hadapt

/-! ## One call of `client_handle` -/

/-- Routing gives the stored record to the adapter, if anything. -/
theorem srvRouterDispatch_adapted (E : Env) (fuel : Nat) (c : Conn H) :
    ∃ own, adapted (srvRouterDispatch E fuel c).2 = adapted c ++ own ∧
      ∀ req ∈ own, req = c.cli.httpRequest := by
  have hnone : ∀ o : Option Status × Conn H, adapted o.2 = adapted c →
      ∃ own, adapted o.2 = adapted c ++ own ∧ ∀ req ∈ own, req = c.cli.httpRequest :=
    fun o ho => ⟨[], by rw [ho, List.append_nil], by simp⟩
  unfold srvRouterDispatch
  split
  · exact hnone _ rfl
  · split
    · exact hnone _ (responseWriterError_adapted E fuel 404 c)
    · split
      · refine ⟨[c.cli.httpRequest], ?_, fun req hreq => List.mem_singleton.mp hreq⟩
        have hadapt := adapted_adapt (c := c) c.cli.httpRequest
        unfold handlerDbApp
        dsimp only
        split
        · exact (responseWriterError_adapted E fuel 500 _).trans hadapt
        · rename_i req _
          have hrun : adapted ((c.call (.adapt c.cli.httpRequest)).call (.run req)).next =
              adapted c ++ [c.cli.httpRequest] := (adapted_call (by simp)).trans hadapt
          exact (responseWriterSend_adapted E fuel _ _).trans hrun
      · exact hnone _ (responseWriterError_adapted E fuel 404 c)

theorem afterAnswer_adapted (c : Conn H) : adapted (afterAnswer c).2 = adapted c := by
  unfold afterAnswer
  split <;> rfl

theorem afterDispatch_adapted (rc : Status) (c : Conn H) :
    adapted (afterDispatch rc c).2 = adapted c := by
  simp only [afterDispatch]
  split
  · rfl
  · split
    · rfl
    · split <;> rfl

/-- The request that the stream gate claims in one run of the loop of `client_handle`, if any. -/
def claimedIn (E : Env) : Nat → Conn H → Option HttpRequest
  | 0, _ => none
  | fuel + 1, c =>
      match c.cli.httpParser with
      | none => none
      | some parser =>
          if H.maxBufferLen ≤ c.cli.bufIdx then none
          else
            match E.read c.tick with
            | .data n =>
                let r := readRequest E n c
                match (H.exec parser r.2.cli.buf r.1).1, (H.exec parser r.2.cli.buf r.1).2.1 with
                | .headersCompleteStream, req => req
                | .ok, some req =>
                    if req.messageComplete then none else claimedIn E fuel (parserFed parser r)
                | _, _ => none
            | .eintr => claimedIn E fuel c.next
            | .eof | .error | .eagain => none

/-- The request claimed in one call of `client_handle`. -/
def claimed (E : Env) (fuel : Nat) (c : Conn H) : Option HttpRequest :=
  if c.cli.httpParser.isNone ∨ c.cli.ctx.fd < 0 then none else claimedIn E fuel c

/-- What a call gave to the adapters: records with the connection's address, and a claimed one. -/
def Gives (c d : Conn H) (req : Option HttpRequest) : Prop :=
  ∃ own, adapted d = adapted c ++ own ++ req.toList ∧ ∀ r ∈ own, address r = peerOf c

theorem Gives.nothing (h : adapted d = adapted c) : Gives c d none :=
  ⟨[], by simp [h], by simp⟩

theorem Gives.trans {c₁ c₂ c₃ : Conn H} {req : Option HttpRequest} (h : Gives c₂ c₃ req)
    (hlog : adapted c₂ = adapted c₁) (hpeer : peerOf c₂ = peerOf c₁) : Gives c₁ c₃ req := by
  obtain ⟨own, hown, haddr⟩ := h
  exact ⟨own, by rw [hown, hlog], fun r hr => (haddr r hr).trans hpeer⟩

/-- What follows gives nothing more. -/
theorem Gives.andThen {α β : Type} {o : Option α × Conn H} {k : α → Conn H → Option β × Conn H}
    {req : Option HttpRequest} (h : Gives c o.2 req)
    (hk : ∀ a d, adapted (k a d).2 = adapted d) : Gives c (Lib.andThen o k).2 req := by
  obtain ⟨own, hown, haddr⟩ := h
  exact ⟨own, by rw [← hown]; exact andThen_unchanged (v := adapted) rfl hk, haddr⟩

/-- An answer ends the exchange. -/
theorem gives_answer (E : Env) (fuel status : Nat) (c : Conn H) :
    Gives c (Lib.andThen (responseWriterError E fuel status c) fun _ c =>
      (some (Exit.returned (afterAnswer c).1), (afterAnswer c).2)).2 none :=
  (Gives.nothing (responseWriterError_adapted E fuel status c)).andThen
    fun _ d => afterAnswer_adapted d

/-- A complete request is stored with the connection's address before it is routed. -/
theorem gives_dispatch (E : Env) (fuel threadId : Nat) {req : HttpRequest}
    (hcomplete : req.messageComplete = true) (c : Conn H) :
    Gives c (Lib.andThen (srvRouterDispatch E fuel
        { c with cli := (clientStoreRequest c.cli req threadId).2 }) fun rc c =>
      (some (Exit.returned (afterDispatch rc c).1), (afterDispatch rc c).2)).2 none := by
  obtain ⟨own, hown, hstored⟩ := srvRouterDispatch_adapted E fuel
    { c with cli := (clientStoreRequest c.cli req threadId).2 }
  have hnothing : adapted c ++ own ++ (none : Option HttpRequest).toList = adapted c ++ own :=
    List.append_nil _
  refine Gives.andThen ⟨own, hown.trans hnothing.symm, fun r hr => ?_⟩ fun rc d =>
    afterDispatch_adapted rc d
  rw [hstored r hr]
  simp only [clientStoreRequest, hcomplete]
  rfl

/-- **The loop of `client_handle`**, by induction over its rounds. -/
theorem clientHandleToDrain_gives (E : Env) (threadId : Nat) : ∀ (fuel : Nat) (c : Conn H),
    Gives c (clientHandleToDrain E threadId fuel c).2 (claimedIn E fuel c)
  | 0, _ => .nothing rfl
  | fuel + 1, c => by
      cases hparser : c.cli.httpParser with
      | none =>
          rw [clientHandleToDrain, claimedIn, hparser]
          exact .nothing rfl
      | some parser =>
          by_cases hfull : H.maxBufferLen ≤ c.cli.bufIdx
          · rw [clientHandleToDrain, claimedIn, hparser]
            dsimp only
            rw [if_pos hfull, if_pos hfull]
            exact .nothing rfl
          · cases hread : E.read c.tick with
            | data n =>
                rw [clientHandleToDrain_data hparser (Nat.not_le.mp hfull) hread, claimedIn, hparser]
                dsimp only
                rw [if_neg hfull, hread]
                dsimp only
                -- what was read and parsed changes neither the peer nor what was adapted
                have hfed : adapted (parserFed parser (readRequest E n c)) = adapted c := rfl
                have hpeer : peerOf (parserFed parser (readRequest E n c)) = peerOf c := rfl
                obtain ⟨e, he⟩ : ∃ e, parserFed parser (readRequest E n c) = e := ⟨_, rfl⟩
                rw [he] at hfed hpeer ⊢
                refine Gives.trans ?_ hfed hpeer
                generalize (H.exec parser (readRequest E n c).2.cli.buf (readRequest E n c).1).2.1
                  = req
                cases (H.exec parser (readRequest E n c).2.cli.buf (readRequest E n c).1).1 with
                | headersCompleteStream =>
                    refine Gives.andThen ⟨[], ?_, by simp⟩ fun x d => ?_
                    · rw [clientUploadPumpToDrain_adapted, List.append_nil]
                      rfl
                    · cases x with
                      | returned rc => exact afterAnswer_adapted d
                      | atDrain rc => rfl
                | contentTooLarge => exact gives_answer E fuel 413 e
                | other => exact gives_answer E fuel 400 e
                | ok =>
                    cases req with
                    | none => exact .nothing rfl
                    | some req =>
                        cases hcomplete : req.messageComplete with
                        | true =>
                            simp only [afterParse, hcomplete, if_true, Option.getD_some]
                            exact gives_dispatch E fuel threadId hcomplete e
                        | false =>
                            simp only [afterParse, hcomplete, Bool.false_eq_true, if_false,
                              Option.getD_none]
                            exact clientHandleToDrain_gives E threadId fuel e
            | eintr =>
                rw [clientHandleToDrain, claimedIn, hparser]
                dsimp only
                rw [if_neg hfull, if_neg hfull, hread]
                exact (clientHandleToDrain_gives E threadId fuel c.next).trans rfl rfl
            | eof =>
                rw [clientHandleToDrain, claimedIn, hparser]
                dsimp only
                rw [if_neg hfull, if_neg hfull, hread]
                exact .nothing rfl
            | error =>
                rw [clientHandleToDrain, claimedIn, hparser]
                dsimp only
                rw [if_neg hfull, if_neg hfull, hread]
                exact .nothing rfl
            | eagain =>
                rw [clientHandleToDrain, claimedIn, hparser]
                dsimp only
                rw [if_neg hfull, if_neg hfull, hread]
                exact .nothing rfl

/-- **One call of `client_handle`** gives its connection's address, the claimed record apart. -/
theorem clientHandle_gives (E : Env) (fuel threadId : Nat) (c : Conn H) :
    Gives c (clientHandle E fuel threadId c).2 (claimed E fuel c) := by
  unfold clientHandle claimed
  split
  · exact .nothing rfl
  · refine (clientHandleToDrain_gives E threadId fuel c).andThen fun x d => ?_
    cases x with
    | returned rc => rfl
    | atDrain rc =>
        have hdrain : adapted (drainRejectedBody E fuel d).2 = adapted d := by
          rw [adapted, drainRejectedBody_log, adapted]
        exact andThen_unchanged (v := adapted) hdrain fun _ e => afterAnswer_adapted e

/-! ## A connection -/

/--
The states of a connection from its adoption on, with the requests claimed so far: its
handlers are called, each watched for any number of its rounds, and its worker waits.
-/
inductive Requests (threadId : Nat) (c : Conn H) :
    List HttpRequest → Option Status × Conn H → Prop where
  | adopted : Requests threadId c [] (some .success, c)
  | handled {claims : List HttpRequest} {rc : Status} {d : Conn H} (E : Env) (fuel : Nat) :
      Requests threadId c claims (some rc, d) →
      Requests threadId c (claims ++ (claimed E fuel d).toList) (clientHandle E fuel threadId d)
  | resumed {claims : List HttpRequest} {rc : Status} {d : Conn H} (E : Env) (fuel : Nat) :
      Requests threadId c claims (some rc, d) →
      Requests threadId c claims (responseWriterResume E fuel d)
  | waited {claims : List HttpRequest} {rc : Status} {d : Conn H} :
      Requests threadId c claims (some rc, d) → Requests threadId c claims (some rc, d.next)

/-- Every request record of the connection carries that address. -/
def Addressed (peer : Nat × Nat) (c : Conn H) : Prop := ∀ req ∈ adapted c, address req = peer

/-- The address stays, and what was given besides the claimed records carries it. -/
theorem Requests.gives (h : Requests threadId c claims o) (hfresh : c.log = []) :
    peerOf o.2 = peerOf c ∧ (∀ req ∈ claims, req ∈ adapted o.2) ∧
      ∀ req ∈ adapted o.2, req ∈ claims ∨ address req = peerOf c := by
  induction h with
  | adopted =>
      have hnone : adapted c = [] := by rw [adapted, hfresh]; rfl
      exact ⟨rfl, by simp, by simp [hnone]⟩
  | @handled claims rc d E fuel _ ih =>
      obtain ⟨hpeer, hclaims, hgiven⟩ := ih
      have hkept : peerOf (clientHandle E fuel threadId d).2 = peerOf d :=
        congrArg (fun x => x.2.2) (clientHandle_identity E fuel threadId d)
      obtain ⟨own, hown, haddr⟩ := clientHandle_gives E fuel threadId d
      refine ⟨hkept.trans hpeer, fun req hreq => ?_, fun req hreq => ?_⟩
      · rw [hown]
        rcases List.mem_append.mp hreq with hreq | hreq
        · exact List.mem_append_left _ (List.mem_append_left _ (hclaims req hreq))
        · exact List.mem_append_right _ hreq
      · rw [hown] at hreq
        rcases List.mem_append.mp hreq with hreq | hreq
        · rcases List.mem_append.mp hreq with hreq | hreq
          · exact (hgiven req hreq).imp_left (List.mem_append_left _)
          · exact .inr ((haddr req hreq).trans hpeer)
        · exact .inl (List.mem_append_right _ hreq)
  | @resumed claims rc d E fuel _ ih =>
      obtain ⟨hpeer, hclaims, hgiven⟩ := ih
      have hkept : peerOf (responseWriterResume E fuel d).2 = peerOf d :=
        congrArg (fun x => x.2.2) (responseWriterResume_identity E fuel d)
      rw [responseWriterResume_adapted]
      exact ⟨hkept.trans hpeer, hclaims, hgiven⟩
  | waited _ ih => exact ih

/-- The parser leaves the address fields at their sentinel. -/
def LeavesSentinel (H : DbHttp) : Prop :=
  ∀ p buf k req, (H.exec p buf k).2.1 = some req → address req = (0, 0)

theorem claimedIn_sentinel (hparser : LeavesSentinel H) : ∀ {fuel : Nat} {c : Conn H}
    {req : HttpRequest}, claimedIn E fuel c = some req → address req = (0, 0)
  | 0, _, _, h => absurd h (by simp [claimedIn])
  | fuel + 1, c, req, h => by
      rw [claimedIn] at h
      split at h
      · exact absurd h (by simp)
      · split at h
        · exact absurd h (by simp)
        · split at h
          · dsimp only at h
            split at h
            · exact hparser _ _ _ _ h
            · split at h
              · exact absurd h (by simp)
              · exact claimedIn_sentinel hparser h
            · exact absurd h (by simp)
          · exact claimedIn_sentinel hparser h
          · exact absurd h (by simp)
          · exact absurd h (by simp)
          · exact absurd h (by simp)

theorem Requests.sentinel (hparser : LeavesSentinel H) (h : Requests threadId c claims o) :
    ∀ req ∈ claims, address req = (0, 0) := by
  induction h with
  | adopted => simp
  | handled E fuel _ ih =>
      intro req hreq
      rcases List.mem_append.mp hreq with hreq | hreq
      · exact ih req hreq
      · have hclaimed := Option.mem_toList.mp hreq
        unfold claimed at hclaimed
        split at hclaimed
        · exact absurd hclaimed (by simp)
        · exact claimedIn_sentinel hparser hclaimed
  | resumed _ _ _ ih => exact ih
  | waited _ ih => exact ih

/--
**Every request carries its connection's address exactly when none was claimed**, or when
the address captured is the sentinel itself.
-/
theorem Requests.addressed_iff (hparser : LeavesSentinel H) (hfresh : c.log = [])
    (h : Requests threadId c claims o) :
    Addressed (peerOf c) o.2 ↔ claims = [] ∨ peerOf c = (0, 0) := by
  obtain ⟨_, hclaims, hgiven⟩ := h.gives hfresh
  constructor
  · intro hall
    rcases List.eq_nil_or_concat claims with rfl | ⟨_, req, hlast⟩
    · exact .inl rfl
    · have hmem : req ∈ claims := by rw [hlast]; simp
      exact .inr ((hall req (hclaims req hmem)).symm.trans (h.sentinel hparser req hmem))
  · intro hcond req hreq
    rcases hgiven req hreq with hclaimed | haddr
    · rcases hcond with rfl | hzero
      · exact absurd hclaimed List.not_mem_nil
      · rw [hzero]
        exact h.sentinel hparser req hclaimed
    · exact haddr

/-! ## Both adoption paths -/

variable {s t u : Mailbox H} {w : Answers H} {idx : Nat} {Es : List Env} {verdicts : List Status}
  {fd : Int} {peer : Nat × Nat} {cli : Client H}

/-- An operator captures the peer's address with the adoption. -/
theorem Adopts.captured (ha : Adopts s w t idx c) : c.log = [] ∧ peerOf c = w.peer := by
  obtain ⟨b, hb, hfree⟩ := ha.free
  obtain ⟨th, hth, hst⟩ := Option.map_eq_some_iff.mp ha.step
  obtain ⟨i, rest, op', new, _, hexec, rfl⟩ := Thread.step_eq_some.mp hth
  obtain rfl := hst
  obtain ⟨b', hb', hchange⟩ := exec_slots hexec ha.slot
  obtain rfl := Option.some.inj (hb.symm.trans hb')
  have hbusy := ha.busy
  -- only an adoption turns a free slot into a busy one
  cases hchange with
  | adopted => exact ⟨rfl, rfl⟩
  | same => exact absurd (hfree.symm.trans hbusy) (by simp)
  | parser => exact absurd (hfree.symm.trans hbusy) (by simp)
  | aimed => exact absurd (hfree.symm.trans hbusy) (by simp)
  | handled hserved => exact absurd (hfree.symm.trans hserved) (by simp)
  | failed hserved => exact absurd (hfree.symm.trans hserved) (by simp)
  | shut hserved => exact absurd (hfree.symm.trans hserved) (by simp)

theorem Requests.clientCall {op : Operator H} (h : Requests op.id c claims (some rc, d))
    (w : Answers H) : ∃ claims', Requests op.id c claims' (Proof.clientCall op w d) := by
  unfold Proof.clientCall
  split
  · exact ⟨_, h.resumed w.env w.fuel⟩
  · exact ⟨_, h.handled w.env w.fuel⟩

/-- An operator's connection, in every run. -/
theorem Serves.requests (h : Serves idx t c u d Es verdicts) :
    ∃ claims rc, Requests t.op.id c claims (some rc, d) := by
  induction h with
  | adopted => exact ⟨[], .success, .adopted⟩
  | @event u v d d' Es verdicts w rc hserves _ _ hcall _ ih =>
      obtain ⟨claims, _, hrequests⟩ := ih
      rw [← hserves.id] at hrequests ⊢
      obtain ⟨claims', hafter⟩ := hrequests.clientCall w
      rw [hcall] at hafter
      exact ⟨claims', rc, hafter⟩
  | other _ _ _ ih => exact ih

/-- An upload worker's connection, by induction over the rounds of its loop. -/
theorem driveLoop_requests {deadline : Nat} (h : Requests threadId c claims (some rc, d)) :
    ∃ claims' o, Requests threadId c claims' o ∧
      o.2 = (driveLoop E threadId deadline fuel verdicts d).2 := by
  induction fuel generalizing claims rc d verdicts with
  | zero => exact ⟨claims, _, h, rfl⟩
  | succ fuel ih =>
      rw [driveLoop]
      split
      · exact ⟨claims, _, h.waited, rfl⟩
      · cases E.pollIn d.tick with
        | timeout => exact ⟨claims, _, h.waited, rfl⟩
        | error => exact ⟨claims, _, h.waited, rfl⟩
        | eintr => exact ih h.waited
        | ready =>
            have hcall := h.waited.handled E fuel
            dsimp only
            generalize clientHandle E fuel threadId d.next = o at hcall ⊢
            obtain ⟨_ | _ | _, e⟩ := o
            · exact ⟨_, _, hcall, rfl⟩
            · exact ih hcall
            · exact ⟨_, _, hcall, rfl⟩

/--
**The peer's address reaches `DB_app` exactly as long as the stream gate claims nothing.**
On an operator's slot in any run, and on an upload worker in any state of its loop: every
record given to an adapter carries the address captured with the adoption if and only if
none of the connection's requests was claimed, or that address is the sentinel.
-/
theorem requests_carry_peer_iff (hparser : LeavesSentinel H) :
    (∀ {s t u : Mailbox H} {w : Answers H} {idx : Nat} {c d : Conn H} {Es : List Env}
      {verdicts : List Status}, Adopts s w t idx c → Serves idx t c u d Es verdicts →
      (∃ claims rc, Requests t.op.id c claims (some rc, d)) ∧
      ∀ {claims : List HttpRequest} {o : Option Status × Conn H},
        Requests t.op.id c claims o → (Addressed w.peer o.2 ↔ claims = [] ∨ w.peer = (0, 0))) ∧
    (∀ (E : Env) (threadId fuel : Nat) (fd : Int) (peer : Nat × Nat) (cli : Client H),
      (∃ claims o, Requests threadId (adoptedFd E fd peer cli) claims o ∧
        o.2 = (driveUpload E threadId fuel fd peer cli).2) ∧
      ∀ {claims : List HttpRequest} {o : Option Status × Conn H},
        Requests threadId (adoptedFd E fd peer cli) claims o →
        (Addressed peer o.2 ↔ claims = [] ∨ peer = (0, 0))) := by
  constructor
  · intro s t u w idx c d Es verdicts ha hserves
    obtain ⟨hlog, hpeer⟩ := ha.captured
    refine ⟨hserves.requests, fun h => ?_⟩
    rw [← hpeer]
    exact h.addressed_iff hparser hlog
  · intro E threadId fuel fd peer cli
    exact ⟨driveLoop_requests Requests.adopted.waited, fun h => h.addressed_iff hparser rfl⟩

/-- A worker's client whose every request is claimed. -/
def claimingClient : Client DbHttp.claiming :=
  { Client.zeroed DbHttp.claiming with ctx := ⟨-1, none, none⟩, httpParser := some () }

/-- A peer that sends a request and hangs up once `DB_app` has refused it. -/
def leavingPeer : Env :=
  { refusing (fun _ => .wrote 65535) 40 with read := fun t => if t < 5 then .data 40 else .eof }

/-- Its connection from 127.0.0.1. -/
def refusedUpload : Option (List Status) × Conn DbHttp.claiming :=
  driveUpload leavingPeer 0 12 7 (16777343, 20480) claimingClient

theorem requests_carry_peer_iff_claimed : ∃ claims o,
    Requests 0 (adoptedFd leavingPeer 7 (16777343, 20480) claimingClient) claims o ∧
      o.2 = refusedUpload.2 ∧ claims ≠ [] := by
  have hparser : LeavesSentinel DbHttp.claiming := fun _ _ _ req hreq => by
    obtain rfl := Option.some.inj hreq
    rfl
  obtain ⟨⟨claims, o, hrequests, ho⟩, hiff⟩ := (requests_carry_peer_iff hparser).2
    leavingPeer 0 12 7 (16777343, 20480) claimingClient
  refine ⟨claims, o, hrequests, ho, fun hnone => ?_⟩
  have haddr := (hiff hrequests).mpr (.inl hnone)
  have hgiven : adapted refusedUpload.2 = [{}] := by decide +kernel
  have hzero := haddr {} (by rw [ho]; exact hgiven ▸ List.mem_singleton.mpr rfl)
  exact absurd hzero (by decide)

/-- The connection is over, and its one request reached `DB_app` without an address. -/
theorem claimed_request_loses_peer : LeavesSentinel DbHttp.claiming ∧
    WorkerClient 0 claimingClient ∧ refusedUpload.1 = some [.failure] ∧
    adapted refusedUpload.2 = [{}] ∧ ¬Addressed (16777343, 20480) refusedUpload.2 := by
  refine ⟨fun _ _ _ req hreq => ?_, .start, by decide +kernel, by decide +kernel, fun haddr => ?_⟩
  · obtain rfl := Option.some.inj hreq
    rfl
  · have hgiven : adapted refusedUpload.2 = [{}] := by decide +kernel
    have hzero := haddr {} (hgiven ▸ List.mem_singleton.mpr rfl)
    exact absurd hzero (by decide)

end DBServer.Proof
