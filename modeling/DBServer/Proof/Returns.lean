import DBServer.Proof.Table
import DBServer.Proof.Truncated

/-!
# A client's handler comes back

Every loop of `client_handle` and of what it calls ends as soon as the world stops putting
it off. Reading a request is the one loop left to look at here: each successful `read` takes
some of the room in `cli->buf`, so only a `read` that is interrupted for ever could keep it
going. The pumps, the drain and the writer have their own lemmas and are put together.

With the handlers the operator's thread comes back: nothing but `epoll_wait` holds up an
instruction of it for good (`exec_enabled`).
-/

namespace DBServer.Proof

open DBServer Lib Operator

variable {H : DbHttp} {E : Env}

/-- A world in which no call is put off for ever. -/
structure Responsive (E : Env) : Prop extends Lively E where
  blobs : ∀ t, ∃ u ≥ t, ReadMoves (E.blobRead u)
  reads : ∀ t, ∃ u ≥ t, E.read u ≠ .eintr

/-! ## The pumps -/

theorem clientFolderZipPump_settles (hE : Responsive E) (req : AppRequest) (c : Conn H) :
    Settles fun fuel => clientFolderZipPump E fuel req c := by
  unfold clientFolderZipPump
  cases E.zipBegin c.tick req with
  | error res => exact responseWriterSend_settles hE.toLively res _
  | ok h =>
      exact Settles.bind (zipStream_settles hE.writes hE.blobs h _)
        fun _ _ => Settles.const fun _ => rfl

theorem clientUploadPumpToDrain_settles (hE : Responsive E) (threadId : Nat)
    (parsed : Option HttpRequest) (c : Conn H) :
    Settles fun fuel => clientUploadPumpToDrain E fuel threadId parsed c := by
  unfold clientUploadPumpToDrain
  cases parsed with
  | none => exact Settles.const fun _ => rfl
  | some parsed =>
      dsimp only
      cases E.adaptHeaders parsed with
      | none =>
          exact Settles.bind (responseWriterError_settles hE.toLively 500 _)
            fun _ _ => Settles.const fun _ => rfl
      | some req =>
          dsimp only
          split
          · exact ticketPump_settles hE.toLively _ _
          · split
            · exact Settles.bind (clientFolderZipPump_settles hE _ _)
                fun _ _ => Settles.const fun _ => rfl
            · exact ticketPump_settles hE.toLively _ _

/-! ## A whole message -/

theorem srvRouterDispatch_settles (hE : Responsive E) (c : Conn H) :
    Settles fun fuel => srvRouterDispatch E fuel c := by
  unfold srvRouterDispatch
  split
  · exact Settles.const fun _ => rfl
  · split
    · exact responseWriterError_settles hE.toLively 404 c
    · split
      · unfold handlerDbApp
        dsimp only
        split
        · exact responseWriterError_settles hE.toLively 500 _
        · exact responseWriterSend_settles hE.toLively _ _
      · exact responseWriterError_settles hE.toLively 404 c

/-- What the loop does with a verdict comes back, unless the loop goes on. -/
theorem afterParse_settles (hE : Responsive E) (threadId : Nat) (status : HttpStatus)
    (req : Option HttpRequest) (c : Conn H) :
    (∀ fuel, afterParse E fuel threadId status req c = none) ∨
    ∃ f, Settles f ∧ ∀ fuel, afterParse E fuel threadId status req c = some (f fuel) := by
  cases status with
  | headersCompleteStream =>
      refine .inr ⟨_, Settles.bind (clientUploadPumpToDrain_settles hE threadId req (closing c)) ?_,
        fun _ => rfl⟩
      intro out d
      cases out with
      | returned rc => exact Settles.const fun _ => rfl
      | atDrain rc => exact Settles.const fun _ => rfl
  | contentTooLarge =>
      exact .inr ⟨_, Settles.bind (responseWriterError_settles hE.toLively 413 c)
        fun _ _ => Settles.const fun _ => rfl, fun _ => rfl⟩
  | other =>
      exact .inr ⟨_, Settles.bind (responseWriterError_settles hE.toLively 400 c)
        fun _ _ => Settles.const fun _ => rfl, fun _ => rfl⟩
  | ok =>
      cases req with
      | none => exact .inr ⟨fun _ => _, Settles.const fun _ => rfl, fun _ => rfl⟩
      | some req =>
          by_cases hwhole : req.messageComplete = true
          · exact .inr ⟨_, Settles.bind (srvRouterDispatch_settles hE _)
              fun _ _ => Settles.const fun _ => rfl, fun _ => if_pos hwhole⟩
          · exact .inl fun _ => if_neg hwhole

/-! ## `client_handle` -/

/-- Every round of the loop leaves less room in `cli->buf`, or was interrupted. -/
theorem clientHandleToDrain_settles (hE : Responsive E) (threadId : Nat) (c : Conn H) :
    Settles fun fuel => clientHandleToDrain E threadId fuel c := by
  refine Settles.of_progress (r := fun c fuel => clientHandleToDrain E threadId fuel c) Conn.tick
    (fun c => H.maxBufferLen - c.cli.bufIdx) hE.reads ?_ c
  intro c hsmaller hlater
  cases hp : c.cli.httpParser with
  | none => exact Settles.const_succ fun fuel => by rw [clientHandleToDrain, hp]
  | some parser =>
      by_cases hroom : c.cli.bufIdx < H.maxBufferLen
      · cases hr : E.read c.tick with
        | data n =>
            rcases afterParse_settles hE threadId
              (H.exec parser (readRequest E n c).2.cli.buf (readRequest E n c).1).1
              (H.exec parser (readRequest E n c).2.cli.buf (readRequest E n c).1).2.1
              (parserFed parser (readRequest E n c)) with hnone | ⟨f, hf, hsome⟩
            · have hfed : (parserFed parser (readRequest E n c)).cli.bufIdx =
                  c.cli.bufIdx + min (n + 1) (H.maxBufferLen - c.cli.bufIdx) := rfl
              refine (hsmaller (parserFed parser (readRequest E n c)) ?_).of_succ fun fuel => ?_
              · rw [hfed]
                omega
              · rw [clientHandleToDrain_data hp hroom hr, hnone]
                rfl
            · refine hf.of_succ fun fuel => ?_
              rw [clientHandleToDrain_data hp hroom hr, hsome]
              rfl
        | eof =>
            exact Settles.const_succ fun fuel => by
              rw [clientHandleToDrain, hp]
              dsimp only
              rw [if_neg (Nat.not_le.mpr hroom), hr]
        | error =>
            exact Settles.const_succ fun fuel => by
              rw [clientHandleToDrain, hp]
              dsimp only
              rw [if_neg (Nat.not_le.mpr hroom), hr]
        | eintr =>
            refine (hlater (by rw [hr]; simp) c.next rfl rfl).of_succ fun fuel => ?_
            rw [clientHandleToDrain, hp]
            dsimp only
            rw [if_neg (Nat.not_le.mpr hroom), hr]
        | eagain =>
            exact Settles.const_succ fun fuel => by
              rw [clientHandleToDrain, hp]
              dsimp only
              rw [if_neg (Nat.not_le.mpr hroom), hr]
      · exact Settles.const_succ fun fuel => by
          rw [clientHandleToDrain, hp]
          exact if_pos (Nat.not_lt.mp hroom)

/-- **`client_handle` comes back.** -/
theorem clientHandle_settles (hE : Responsive E) (threadId : Nat) (c : Conn H) :
    Settles fun fuel => clientHandle E fuel threadId c := by
  by_cases hbad : c.cli.httpParser.isNone ∨ c.cli.ctx.fd < 0
  · exact Settles.const fun fuel => if_pos hbad
  · refine Settles.congr (Settles.bind (clientHandleToDrain_settles hE threadId c) ?_)
      fun fuel => if_neg hbad
    intro out d
    cases out with
    | returned rc => exact Settles.const fun _ => rfl
    | atDrain rc =>
        exact Settles.bind (drainRejectedBody_settles hE.toLively d)
          fun _ _ => Settles.const fun _ => rfl

/-! ## The operator's thread -/

variable {op : Operator H} {w : Answers H} {i : Instr} {s t : Mailbox H}

/-- No slot has a handler but `_operator_handle_client_event`. -/
def ClientSlots (T : Table) : Prop :=
  ∀ s ∈ T.slots, s.ctx.handler = none ∨ s.ctx.handler = some .operatorClient

theorem Table.Step.clientSlots {id : Nat} {T T' : Table} (h : Table.Step id T T')
    (hT : ClientSlots T) : ClientSlots T' := by
  intro s hs
  cases h with
  | same => exact hT s hs
  | aim =>
      rcases List.mem_or_eq_of_mem_set hs with hold | rfl
      · exact hT s hold
      · exact .inr rfl
  | adopt =>
      rcases List.mem_or_eq_of_mem_set hs with hold | rfl
      · exact hT s hold
      · exact .inr rfl
  | drop =>
      rcases List.mem_or_eq_of_mem_set hs with hold | rfl
      · exact hT s hold
      · exact .inl rfl

theorem clientSlots_reachable {ok : Mailbox H → MailboxAct H → Prop}
    (h : (mailbox H).ReachableBy ok s) : ClientSlots (table s.op) := by
  refine h.invariant (P := fun s => ClientSlots (table s.op)) ?_ ?_
  · rintro s ⟨hop, _⟩ c hc
    simp only [table, hop.clients, List.map_replicate] at hc
    rw [List.eq_of_mem_replicate hc]
    exact .inl rfl
  · intro s a t _ hs _ hstep
    cases mailbox_step hstep with
    | executed hcode hexec => exact hexec.table_step.clientSlots hs
    | _ => exact hs

/-- A slot's context has the handler of clients, or none. -/
theorem ClientSlots.handler (h : ClientSlots (table op)) (idx : Nat) :
    (op.ctx (.client idx)).handler = none ∨
      (op.ctx (.client idx)).handler = some .operatorClient := by
  cases hget : op.clients[idx]? with
  | none => exact .inl (by simp [Operator.ctx, hget])
  | some c =>
      have hctx : (op.ctx (.client idx)) = c.cli.ctx := by simp [Operator.ctx, hget]
      rw [hctx]
      exact h (slot c) (List.mem_of_getElem? (table_slots_getElem? hget))

theorem handleClientEvent_enabled (hE : Responsive w.env) (idx : Nat) :
    ∃ n, ∀ fuel ≥ n, (op.handleClientEvent idx { w with fuel := fuel }).isSome := by
  unfold handleClientEvent
  cases op.clients[idx]? with
  | none => exact ⟨0, fun _ _ => rfl⟩
  | some c =>
      dsimp only
      split
      · exact ⟨0, fun _ _ => rfl⟩
      · have hback : Settles fun fuel => if c.cli.draining then responseWriterResume w.env fuel c
            else clientHandle w.env fuel op.id c := by
          split
          · exact resume_settles hE.writes c
          · exact clientHandle_settles hE op.id c
        obtain ⟨n, rc, c', hn⟩ := hback
        refine ⟨n, fun fuel hle => ?_⟩
        have hdone : (if c.cli.draining then responseWriterResume w.env fuel c
            else clientHandle w.env fuel op.id c) = (some rc, c') := hn fuel hle
        rw [hdone]
        cases rc with
        | success => rfl
        | failure => rfl

/-- **An instruction goes through**, whatever the world is like, as long as it answers: only
`epoll_wait` waits for something of its own. -/
theorem exec_enabled (hs : Sound op) (hslots : ClientSlots (table op)) (hE : Responsive w.env)
    (hcrash : i ≠ .crash) (hwait : i = .wait → op.Reports w.batch) :
    ∃ n, ∀ fuel ≥ n, (exec op i { w with fuel := fuel }).isSome := by
  cases i with
  | wait => exact ⟨0, fun _ _ => by simp [exec, hwait rfl]⟩
  | crash => exact absurd rfl hcrash
  | pop first =>
      refine ⟨0, fun _ _ => ?_⟩
      rw [exec]
      cases op.ring <;> rfl
  | events batch =>
      cases batch with
      | nil => exact ⟨0, fun _ _ => rfl⟩
      | cons e es =>
          simp only [exec, Operator.handleEvent, reactorDispatch]
          by_cases hclose : epollerCheckIfToClose e.events = true
          · exact ⟨0, fun _ _ => by simp [hclose]⟩
          · simp only [hclose, Bool.false_eq_true, if_false]
            cases hkey : e.reg.key with
            | wakeup => exact ⟨0, fun _ _ => by simp [Operator.ctx, hs.wakeupHandler]⟩
            | timer =>
                refine ⟨0, fun _ _ => ?_⟩
                simp only [Operator.ctx, hs.timerHandler]
                split <;> rfl
            | client idx =>
                rcases hslots.handler idx with hnone | hclient
                · exact ⟨0, fun _ _ => by simp [hnone]⟩
                · obtain ⟨n, hn⟩ : ∃ n, ∀ fuel ≥ n,
                      (op.handleClientEvent idx { w with fuel := fuel }).isSome :=
                    handleClientEvent_enabled hE idx
                  refine ⟨n, fun fuel hle => ?_⟩
                  simp only [hclient, Option.isSome_map]
                  exact hn fuel hle
  | _ => exact ⟨0, fun _ _ => rfl⟩

end DBServer.Proof
