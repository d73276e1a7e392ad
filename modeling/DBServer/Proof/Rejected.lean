import DBServer.Client.Session
import DBServer.Proof.Handling
import DBServer.Proof.Verdict

/-!
# Uploads turned down early

An upload is answered before its body is read when the parser finds the declaration too
large, the adapter fails, `DB_app` refuses at begin, the stream info makes no sense, or the
body pump gives up. A peer that is still sending reads the answer only if the rest of its
body is taken off the socket before that is closed. `Rejects` lists the ways to turn an
upload down, with the state behind the answer, and `Discards` says what it means to drain
from there: to read and throw away until the peer is done, an error, the deadline or the
ceiling. A call that a signal interrupts is none of these, and is made again.

Only one of the five does it, and that one only as long as no signal interrupts its `poll`
(`Interrupted`): unlike the body pump it takes `EINTR` for the end. Behind the four others
nothing is read any more, not even while the answer is parked (`parked_reads_nothing`).
-/

namespace DBServer.Proof

open DBServer Lib

variable {H : DbHttp} {E : Env} {c c' d d' : Conn H} {fuel threadId deadline drained t : Nat}
  {rc : Status} {o : Option Exit × Conn H} {s : Session H}

/-! ## Draining -/

/-- Why draining may stop at a time: ceiling, deadline, nothing to read until then, an error, the
peer is done. -/
def DrainOver (E : Env) (deadline drained t : Nat) : Prop :=
  uploadRejectDrainBytes ≤ drained ∨ deadline ≤ E.mono t ∨ E.pollIn t = .timeout ∨
    E.pollIn t = .error ∨ E.pollIn t = .ready ∧ (E.read t = .eof ∨ E.read t = .error)

/-- Reading and discarding from a count on, until the drain is over. -/
inductive Discards (E : Env) (deadline : Nat) : Nat → Conn H → Conn H → Prop where
  | ended {drained : Nat} {c : Conn H} : DrainOver E deadline drained c.tick →
      Discards E deadline drained c c.next
  | took {drained n : Nat} {c d : Conn H} : ¬DrainOver E deadline drained c.tick →
      E.pollIn c.tick = .ready → E.read c.tick = .data n →
      Discards E deadline (drained + min (n + 1) H.maxBufferLen)
        (c.receive E 0 (min (n + 1) H.maxBufferLen)).next d →
      Discards E deadline drained c d
  | again {drained : Nat} {c d : Conn H} : ¬DrainOver E deadline drained c.tick →
      (E.pollIn c.tick = .eintr ∨
        E.pollIn c.tick = .ready ∧ (E.read c.tick = .eintr ∨ E.read c.tick = .eagain)) →
      Discards E deadline drained c.next d → Discards E deadline drained c d

/-- From the end of the answer to the end of the call, the rest of the body was drained. -/
def Drained (E : Env) (answered c' : Conn H) : Prop :=
  ∃ d, Discards E (E.mono answered.tick + uploadRejectDrainMs) 0 answered.next d ∧
    c' = (afterAnswer d).2

/-- What a round of the drain brings, with a buffer of `room` bytes. -/
def brought (E : Env) (room t : Nat) : Nat :=
  match E.read t with
  | .data n => min (n + 1) room
  | _ => 0

/-- A signal interrupts the `poll` of a round before the drain is over. -/
inductive Interrupted (E : Env) (room deadline : Nat) : Nat → Nat → Prop where
  | now {drained t : Nat} : ¬DrainOver E deadline drained t → E.pollIn t = .eintr →
      Interrupted E room deadline drained t
  | later {drained t : Nat} : ¬DrainOver E deadline drained t → E.pollIn t = .ready →
      Interrupted E room deadline (drained + brought E room t) (t + 1) →
      Interrupted E room deadline drained t

theorem not_interrupted {room : Nat} (h : ∀ t, E.pollIn t ≠ .eintr) :
    ¬Interrupted E room deadline drained t := by
  intro hint
  induction hint with
  | now _ hsignal => exact h _ hsignal
  | later _ _ _ ih => exact ih

/-- Behind a round that reads, an interruption is one of the rounds to come. -/
theorem interrupted_later {room : Nat} (hgo : ¬DrainOver E deadline drained t)
    (hready : E.pollIn t = .ready) : Interrupted E room deadline drained t ↔
      Interrupted E room deadline (drained + brought E room t) (t + 1) := by
  constructor
  · intro h
    cases h with
    | now _ hsignal => exact absurd (hready.symm.trans hsignal) (by simp)
    | later _ _ h => exact h
  · exact .later hgo hready

/-- Draining takes at least one call. -/
theorem Discards.tick_lt (h : Discards E deadline drained c d) : c.tick < d.tick := by
  induction h with
  | ended => exact Nat.lt_succ_self _
  | took _ _ _ _ ih => exact Nat.lt_of_succ_lt ih
  | again _ _ _ ih => exact Nat.lt_of_succ_lt ih

/-- What a drain that came back in `d` is: the whole one, or less than that. -/
def DrainEnds (E : Env) (deadline drained : Nat) (c d : Conn H) : Prop :=
  (¬Interrupted E H.maxBufferLen deadline drained c.tick → Discards E deadline drained c d) ∧
    (Interrupted E H.maxBufferLen deadline drained c.tick →
      ∀ e, Discards E deadline drained c e → d.tick < e.tick)

/-- A round that reads some of the body. -/
theorem DrainEnds.took {n : Nat} (hgo : ¬DrainOver E deadline drained c.tick)
    (hready : E.pollIn c.tick = .ready) (hread : E.read c.tick = .data n)
    (h : DrainEnds E deadline (drained + min (n + 1) H.maxBufferLen)
      (c.receive E 0 (min (n + 1) H.maxBufferLen)).next d) : DrainEnds E deadline drained c d := by
  have hbrought : brought E H.maxBufferLen c.tick = min (n + 1) H.maxBufferLen := by
    simp only [brought, hread]
  have hlater : Interrupted E H.maxBufferLen deadline drained c.tick ↔ _ :=
    interrupted_later hgo hready
  rw [hbrought] at hlater
  refine ⟨fun hnot => .took hgo hready hread (h.1 fun hint => hnot (hlater.mpr hint)), ?_⟩
  intro hint e he
  cases he with
  | ended hover => exact absurd hover hgo
  | @took _ n' _ _ _ _ hread' he =>
      obtain rfl : n = n' := by simpa [hread] using hread'
      exact h.2 (hlater.mp hint) e he
  | again _ hagain _ => simp [hready, hread] at hagain

/-- A round whose `read` brings nothing, but may the next time. -/
theorem DrainEnds.again (hgo : ¬DrainOver E deadline drained c.tick)
    (hready : E.pollIn c.tick = .ready) (hread : E.read c.tick = .eintr ∨ E.read c.tick = .eagain)
    (h : DrainEnds E deadline drained c.next d) : DrainEnds E deadline drained c d := by
  have hbrought : brought E H.maxBufferLen c.tick = 0 := by
    rcases hread with hread | hread <;> simp only [brought, hread]
  have hlater : Interrupted E H.maxBufferLen deadline drained c.tick ↔ _ :=
    interrupted_later hgo hready
  rw [hbrought, Nat.add_zero] at hlater
  refine ⟨fun hnot => .again hgo (.inr ⟨hready, hread⟩) (h.1 fun hint => hnot (hlater.mpr hint)), ?_⟩
  intro hint e he
  cases he with
  | ended hover => exact absurd hover hgo
  | took _ _ hread' _ =>
      rcases hread with hread | hread <;> exact absurd (hread.symm.trans hread') (by simp)
  | again _ _ he => exact h.2 (hlater.mp hint) e he

/-- The last round: the drain is over, or its `poll` was interrupted. -/
theorem DrainEnds.last
    (h : DrainOver E deadline drained c.tick ∨ E.pollIn c.tick = .eintr) :
    DrainEnds E deadline drained c c.next := by
  by_cases hover : DrainOver E deadline drained c.tick
  · refine ⟨fun _ => .ended hover, fun hint => ?_⟩
    cases hint with
    | now hgo _ => exact absurd hover hgo
    | later hgo _ _ => exact absurd hover hgo
  · have hsignal := h.resolve_left hover
    refine ⟨fun hnot => absurd (.now hover hsignal) hnot, fun _ e he => ?_⟩
    cases he with
    | ended hover' => exact absurd hover' hover
    | took _ hready _ _ => exact absurd (hsignal.symm.trans hready) (by simp)
    | again _ _ he => exact he.tick_lt

/-- **A drain that comes back** has gone on until it was over, unless a signal got in its way. -/
theorem drainLoop_ends : ∀ {fuel drained : Nat} {c : Conn H},
    drainLoop E deadline fuel drained c = (some (), d) → DrainEnds E deadline drained c d
  | 0, _, _, h => absurd h (by simp [drainLoop])
  | fuel + 1, drained, c, h => by
      rw [drainLoop] at h
      by_cases hgo : drained < uploadRejectDrainBytes ∧ E.mono c.tick < deadline ∧
          E.pollIn c.tick = .ready
      · rw [drainRound, if_pos hgo] at h
        obtain ⟨hbytes, htime, hready⟩ := hgo
        -- a round that reads was not over before it
        have hcont : E.read c.tick ≠ .eof → E.read c.tick ≠ .error →
            ¬DrainOver E deadline drained c.tick := by
          rintro heof herror (hover | hover | hover | hover | ⟨_, hover | hover⟩)
          · omega
          · omega
          · exact absurd (hready.symm.trans hover) (by simp)
          · exact absurd (hready.symm.trans hover) (by simp)
          · exact heof hover
          · exact herror hover
        cases hread : E.read c.tick with
        | data n =>
            rw [hread] at h
            exact .took (hcont (by simp [hread]) (by simp [hread])) hready hread (drainLoop_ends h)
        | eintr =>
            rw [hread] at h
            exact .again (hcont (by simp [hread]) (by simp [hread])) hready (.inl hread)
              (drainLoop_ends h)
        | eagain =>
            rw [hread] at h
            exact .again (hcont (by simp [hread]) (by simp [hread])) hready (.inr hread)
              (drainLoop_ends h)
        | eof =>
            rw [hread] at h
            obtain rfl := (Prod.mk.inj h).2
            exact .last (.inl (.inr (.inr (.inr (.inr ⟨hready, .inl hread⟩)))))
        | error =>
            rw [hread] at h
            obtain rfl := (Prod.mk.inj h).2
            exact .last (.inl (.inr (.inr (.inr (.inr ⟨hready, .inr hread⟩)))))
      · rw [drainRound, if_neg hgo] at h
        obtain rfl := (Prod.mk.inj h).2
        refine .last ?_
        cases hpoll : E.pollIn c.tick with
        | ready =>
            refine .inl ?_
            unfold DrainOver
            simp only [hpoll, and_true] at hgo
            omega
        | timeout => exact .inl (.inr (.inr (.inl hpoll)))
        | eintr => exact .inr rfl
        | error => exact .inl (.inr (.inr (.inr (.inl hpoll))))

/-! ## Turning an upload down -/

/-- Which check turns an upload down. -/
inductive Check where
  | parser
  | adapter
  | begin
  | streamInfo
  | body
deriving DecidableEq, Repr

/-- `DB_app` is asked for a ticket: how that goes wrong, and the state behind the answer. -/
inductive TicketRejects (E : Env) (fuel : Nat) (req : AppRequest) (c : Conn H) :
    Check → Conn H → Prop where
  | begin {res : AppResponse} : E.uploadBegin c.tick req = some res →
      TicketRejects E fuel req c .begin
        (responseWriterSend E fuel res (c.call (.begin false)).next).2
  | streamInfo : E.uploadBegin c.tick req = none →
      (∀ info, c.cli.httpParser.bind (fun p => H.streamInfo p c.cli.buf) = some info →
        info.total < info.leftover.length) →
      TicketRejects E fuel req c .streamInfo
        (responseWriterError E fuel 500 ((c.call (.begin true)).next.call .abort)).2
  | body {info : StreamInfo} {rc : Status} {d : Conn H} : E.uploadBegin c.tick req = none →
      c.cli.httpParser.bind (fun p => H.streamInfo p c.cli.buf) = some info →
      info.leftover.length ≤ info.total →
      pumpBody E fuel info.leftover info.total (c.call (.begin true)).next =
        (some (.answered, rc), d) →
      TicketRejects E fuel req c .body d

/-- The request the stream gate has claimed, as the pump goes on with it. -/
def pumpRequest (E : Env) (threadId : Nat) (c : Conn H) (req : AppRequest) : AppRequest :=
  { req with threadId := threadId, nowUnix := timeHelperGetNow (E.wall c.tick) }

/-- An upload that the stream gate has claimed; an archive is no upload. -/
inductive PumpRejects (E : Env) (fuel threadId : Nat) (claimed : HttpRequest) (c : Conn H) :
    Check → Conn H → Prop where
  | adapter : E.adaptHeaders claimed = none →
      PumpRejects E fuel threadId claimed c .adapter
        (responseWriterError E fuel 500 (c.call (.adapt claimed))).2
  | ticket {req : AppRequest} {check : Check} {d : Conn H} : E.adaptHeaders claimed = some req →
      req.method = H.methodPut ∨ ¬(req.method = H.methodGet ∧ folderZipIsZipPath req.path) →
      TicketRejects E fuel (pumpRequest E threadId c req) (c.call (.adapt claimed)).next check d →
      PumpRejects E fuel threadId claimed c check d

/-- A call of `client_handle` turns an upload down, in this or in a later round of its loop. -/
inductive Rejects (E : Env) (threadId : Nat) : Nat → Conn H → Check → Conn H → Prop where
  | parser {fuel n : Nat} {c : Conn H} {p : H.Parser} : c.cli.httpParser = some p →
      c.cli.bufIdx < H.maxBufferLen → E.read c.tick = .data n →
      (H.exec p (readRequest E n c).2.cli.buf (readRequest E n c).1).1 = .contentTooLarge →
      Rejects E threadId (fuel + 1) c .parser
        (responseWriterError E fuel 413 (parserFed p (readRequest E n c))).2
  | claimed {fuel n : Nat} {c d : Conn H} {p : H.Parser} {req : HttpRequest} {check : Check} :
      c.cli.httpParser = some p → c.cli.bufIdx < H.maxBufferLen → E.read c.tick = .data n →
      (H.exec p (readRequest E n c).2.cli.buf (readRequest E n c).1).1 = .headersCompleteStream →
      (H.exec p (readRequest E n c).2.cli.buf (readRequest E n c).1).2.1 = some req →
      PumpRejects E fuel threadId req (closing (parserFed p (readRequest E n c))) check d →
      Rejects E threadId (fuel + 1) c check d
  | more {fuel n : Nat} {c d : Conn H} {p : H.Parser} {req : HttpRequest} {check : Check} :
      c.cli.httpParser = some p → c.cli.bufIdx < H.maxBufferLen → E.read c.tick = .data n →
      (H.exec p (readRequest E n c).2.cli.buf (readRequest E n c).1).1 = .ok →
      (H.exec p (readRequest E n c).2.cli.buf (readRequest E n c).1).2.1 = some req →
      req.messageComplete = false →
      Rejects E threadId fuel (parserFed p (readRequest E n c)) check d →
      Rejects E threadId (fuel + 1) c check d
  | eintr {fuel : Nat} {c d : Conn H} {p : H.Parser} {check : Check} :
      c.cli.httpParser = some p → c.cli.bufIdx < H.maxBufferLen → E.read c.tick = .eintr →
      Rejects E threadId fuel c.next check d → Rejects E threadId (fuel + 1) c check d

variable {check : Check} {req : AppRequest} {claimed : HttpRequest}

/-! ## The end of the call -/

/-- Nothing was called in between that shows here. -/
structure AsLeft (d e : Conn H) : Prop where
  cli : e.cli = d.cli
  tick : e.tick = d.tick
  received : e.received = d.received

theorem AsLeft.refl (d : Conn H) : AsLeft d d := ⟨rfl, rfl, rfl⟩

theorem AsLeft.call (d : Conn H) (e : Call) : AsLeft d (d.call e) := ⟨rfl, rfl, rfl⟩

/-- Behind the answer in `d` the pump comes to its drain, or it is left as it is. -/
inductive Leaves (d : Conn H) : Check → Option Exit × Conn H → Prop where
  | running {check : Check} {e : Conn H} : Leaves d check (none, e)
  | drains {rc : Status} : Leaves d .begin (some (.atDrain rc), d)
  | returns {rc : Status} {check : Check} {e : Conn H} : check ≠ .begin → AsLeft d e →
      Leaves d check (some (.returned rc), e)

/-- What the code does behind an answer, by whether it came back. -/
theorem Leaves.answer {a : Option Status × Conn H} (hcheck : check ≠ .begin) :
    Leaves a.2 check (andThen a fun rc d => (some (Exit.returned rc), d)) := by
  obtain ⟨_ | rc, d⟩ := a
  · exact .running
  · exact .returns hcheck (.refl d)

theorem TicketRejects.leaves (h : TicketRejects E fuel req c check d) :
    Leaves d check (ticketPump E fuel req c) := by
  unfold ticketPump
  cases h with
  | @begin res hbegin =>
      rw [hbegin]
      dsimp only
      obtain ⟨a, ha⟩ : ∃ a, responseWriterSend E fuel res (c.call (.begin false)).next = a :=
        ⟨_, rfl⟩
      rw [ha]
      obtain ⟨_ | rc, e⟩ := a
      · exact .running
      · exact .drains
  | streamInfo hbegin hinfo =>
      rw [hbegin]
      dsimp only
      split
      · exact .answer (by simp)
      · rename_i info hsome
        rw [if_pos (hinfo info hsome)]
        exact .answer (by simp)
  | @body info rc d hbegin hinfo hle hpump =>
      rw [hbegin]
      dsimp only
      have hsame : (c.call (.begin true)).next.cli.httpParser.bind
          (fun p => H.streamInfo p (c.call (.begin true)).next.cli.buf) = some info := hinfo
      rw [hsame]
      dsimp only
      rw [if_neg (Nat.not_lt.mpr hle), hpump, andThen_some]
      exact .returns (by simp) (.call d .abort)

theorem PumpRejects.leaves (h : PumpRejects E fuel threadId claimed c check d) :
    Leaves d check (clientUploadPumpToDrain E fuel threadId (some claimed) c) := by
  unfold clientUploadPumpToDrain
  dsimp only
  cases h with
  | adapter hadapt =>
      rw [hadapt]
      exact .answer (by simp)
  | @ticket req check d hadapt hupload h =>
      rw [hadapt]
      dsimp only
      by_cases hput : req.method = H.methodPut
      · rw [if_pos hput]
        exact h.leaves
      · rw [if_neg hput, if_neg (hupload.resolve_left hput)]
        exact h.leaves

/-- How the loop of `client_handle` ends behind the answer in `d`. -/
inductive LoopLeaves (d : Conn H) : Check → Option Exit × Conn H → Prop where
  | running {check : Check} {e : Conn H} : LoopLeaves d check (none, e)
  | drains {rc : Status} : LoopLeaves d .begin (some (.atDrain rc), d)
  | returns {check : Check} {e : Conn H} : check ≠ .begin → AsLeft d e →
      LoopLeaves d check (some (.returned (afterAnswer e).1), (afterAnswer e).2)

/-- **The loop of `client_handle`**, by induction over the rounds to the rejection. -/
theorem Rejects.leaves (h : Rejects E threadId fuel c check d) :
    LoopLeaves d check (clientHandleToDrain E threadId fuel c) := by
  induction h with
  | @parser fuel n c p hp hroom hread hverdict =>
      rw [clientHandleToDrain_data hp hroom hread]
      generalize (H.exec p (readRequest E n c).2.cli.buf (readRequest E n c).1).2.1 = req
      rw [hverdict]
      obtain ⟨a, ha⟩ : ∃ a, responseWriterError E fuel 413 (parserFed p (readRequest E n c)) = a :=
        ⟨_, rfl⟩
      simp only [afterParse, ha, Option.getD_some]
      obtain ⟨_ | rc, e⟩ := a
      · exact .running
      · exact .returns (by simp) (.refl e)
  | @claimed fuel n c d p req check hp hroom hread hverdict hreq hpump =>
      rw [clientHandleToDrain_data hp hroom hread, hverdict, hreq]
      have hleaves := hpump.leaves
      simp only [afterParse, Option.getD_some]
      obtain ⟨a, ha⟩ : ∃ a, clientUploadPumpToDrain E fuel threadId (some req)
        (closing (parserFed p (readRequest E n c))) = a := ⟨_, rfl⟩
      rw [ha] at hleaves ⊢
      cases hleaves with
      | running => exact .running
      | drains => exact .drains
      | returns hcheck hsame => exact .returns hcheck hsame
  | @more fuel n c d p req check hp hroom hread hverdict hreq hmore _ ih =>
      rw [clientHandleToDrain_data hp hroom hread, hverdict, hreq]
      simp only [afterParse, hmore, Bool.false_eq_true, if_false, Option.getD_none]
      exact ih
  | @eintr fuel c d p check hp hroom hread _ ih =>
      rw [clientHandleToDrain, hp]
      dsimp only
      rw [if_neg (Nat.not_le.mpr hroom), hread]
      exact ih

theorem Rejects.parses (h : Rejects E threadId fuel c check d) : c.cli.httpParser.isSome := by
  cases h with
  | parser hp => rw [hp]; rfl
  | claimed hp => rw [hp]; rfl
  | more hp => rw [hp]; rfl
  | eintr hp => rw [hp]; rfl

/-- **One call of `client_handle`**: it drains to the end, or it is over with the answer. -/
theorem Rejects.ends (h : Rejects E threadId fuel c check d) (hfd : 0 ≤ c.cli.ctx.fd)
    (hback : clientHandle E fuel threadId c = (some rc, c')) :
    (check = .begin ∧ ∃ e, drainRejectedBody E fuel d = (some (), e) ∧
      (rc, c') = afterAnswer e) ∨
    (check ≠ .begin ∧ ∃ e, AsLeft d e ∧ (rc, c') = afterAnswer e) := by
  have hparses := h.parses
  rw [clientHandle, if_neg (by simp [Option.isSome_iff_ne_none.mp hparses]; omega)] at hback
  have hleaves := h.leaves
  generalize clientHandleToDrain E threadId fuel c = o at hleaves hback
  cases hleaves with
  | running => exact absurd hback (by simp)
  | drains =>
      rw [andThen_some] at hback
      obtain ⟨u, e, hdrain, hrest⟩ := andThen_eq_some.mp hback
      obtain ⟨hrc, hc⟩ := Prod.mk.inj hrest
      refine .inl ⟨rfl, e, hdrain, ?_⟩
      rw [← hc, ← Option.some.inj hrc]
  | @returns check e hcheck hsame =>
      obtain ⟨hrc, hc⟩ := Prod.mk.inj hback
      refine .inr ⟨hcheck, e, hsame, ?_⟩
      rw [← hc, ← Option.some.inj hrc]

/-! ## Behind the call -/

/-- An answer of the server's own closes the connection. -/
theorem TicketRejects.policy (h : TicketRejects E fuel req c check d) (hcheck : check ≠ .begin)
    (hfd : 0 ≤ c.cli.ctx.fd) : d.cli.connectionPolicy = H.close := by
  cases h with
  | begin => exact absurd rfl hcheck
  | streamInfo => exact responseWriterError_policy E fuel 500 hfd
  | body hbegin hinfo hle hpump =>
      obtain ⟨status, _, ⟨hquiet, hcall⟩⟩ := pumpBody_verdict hpump
      rename_i e fuel'
      have hpolicy := responseWriterError_policy (c := e) E fuel' status
        (by rw [hquiet.ctx]; exact hfd)
      rw [hcall] at hpolicy
      exact hpolicy

theorem Rejects.policy (h : Rejects E threadId fuel c check d) (hcheck : check ≠ .begin)
    (hfd : 0 ≤ c.cli.ctx.fd) : d.cli.connectionPolicy = H.close := by
  induction h with
  | @parser fuel n c p hp hroom hread hverdict =>
      have hsame : (parserFed p (readRequest E n c)).cli.ctx = c.cli.ctx := rfl
      exact responseWriterError_policy E fuel 413 (by rw [hsame]; exact hfd)
  | @claimed fuel n c d p req check hp hroom hread hverdict hreq hpump =>
      have hsame : (closing (parserFed p (readRequest E n c))).cli.ctx = c.cli.ctx := rfl
      cases hpump with
      | adapter => exact responseWriterError_policy E fuel 500 (by rw [← hsame] at hfd; exact hfd)
      | ticket _ _ h => exact h.policy hcheck (by rw [← hsame] at hfd; exact hfd)
  | @more fuel n c d p req check hp hroom hread hverdict hreq hmore _ ih =>
      have hsame : (parserFed p (readRequest E n c)).cli.ctx = c.cli.ctx := rfl
      exact ih hcheck (by rw [hsame]; exact hfd)
  | @eintr fuel c d p check hp hroom hread _ ih => exact ih hcheck hfd

/-- A parked answer of a connection that is to be closed, or the end of it. -/
structure Waits (received : Nat) (s : Session H) : Prop where
  received : s.conn.received = received
  idle : s.phase = .idle → s.conn.cli.draining = true ∧ s.conn.cli.connectionPolicy = H.close
  loop : ∀ deadline drained, s.phase ≠ .rejecting deadline drained

theorem resume_waits {received : Nat} (hrec : c.received = received)
    (hclose : c.cli.connectionPolicy = H.close) :
    Waits received (conclude (responseWriterResume E fuel c)) := by
  have hremoved : ∀ d : Conn H, d.received = received → Waits received (remove d) :=
    fun d hd => ⟨hd, by simp [remove], by simp [remove]⟩
  unfold responseWriterResume
  split
  · exact hremoved c hrec
  · have hframe := trySend_frame E c.cli.sendLen fuel c
    generalize trySend E c.cli.sendLen fuel c = a at hframe ⊢
    have hrec' : a.2.received = received := hframe.received.trans hrec
    have hclose' : a.2.cli.connectionPolicy = H.close := hframe.policy.trans hclose
    obtain ⟨_ | _ | _, d⟩ := a
    · exact ⟨hrec', by simp [conclude], by simp [conclude]⟩
    · -- sent, or parked once more
      rw [andThen_some, resumeRest]
      split
      · rename_i hparked
        exact ⟨hrec', fun _ => ⟨hparked, hclose'⟩, by simp [conclude]⟩
      · have hclosed : d.cli.connectionPolicy = H.close := hclose'
        unfold resumeDone
        rw [if_pos hclosed]
        split
        · exact hremoved _ hrec'
        · exact hremoved _ hrec'
    · exact hremoved d hrec'

/-- **Behind a parked answer nothing is read any more.** -/
theorem parked_reads_nothing {s₀ : Session H} (hidle : s₀.phase = .idle)
    (hparked : s₀.conn.cli.draining = true) (hclose : s₀.conn.cli.connectionPolicy = H.close)
    (h : ((session E threadId).startingAt s₀).Reachable s) :
    s.conn.received = s₀.conn.received := by
  refine (h.invariant (P := fun s => Waits s₀.conn.received s) ?_ ?_).received
  · rintro _ rfl
    exact ⟨rfl, fun _ => ⟨hparked, hclose⟩, fun _ _ => by rw [hidle]; simp⟩
  · rintro ⟨c, phase⟩ a t _ ⟨hrec, hwait, hloop⟩ _ hstep
    cases phase with
    | idle =>
        obtain ⟨hdraining, hpolicy⟩ := hwait rfl
        cases a with
        | event fuel =>
            have hstep' : handleEvent E threadId fuel c = t := Option.some.inj hstep
            rw [← hstep', handleEvent, if_pos hdraining]
            exact resume_waits hrec hpolicy
        | round => exact absurd hstep (by simp [Machine.startingAt, session])
        | remove =>
            obtain rfl := Option.some.inj hstep
            exact ⟨hrec, nofun, nofun⟩
    | rejecting deadline drained => exact absurd rfl (hloop deadline drained)
    | running => exact absurd hstep (by cases a <;> simp [Machine.startingAt, session])
    | removed => exact absurd hstep (by cases a <;> simp [Machine.startingAt, session])

/--
**A rejected upload is drained exactly when `DB_app` refused it at begin**, and no signal
interrupts the `poll` of the drain. Whatever the world answers and whichever check turns the
upload down: the rest of its body is read and discarded until the peer is done, an error, the
deadline or the ceiling if and only if it was the refusal of a ticket, and no `poll` on the way
there is interrupted. Behind any other check the connection is over or its answer is parked, and
in that case nothing is read until the connection is closed.
-/
theorem early_reject_drains_iff (hfd : 0 ≤ c.cli.ctx.fd)
    (h : Rejects E threadId fuel c check d)
    (hback : clientHandle E fuel threadId c = (some rc, c')) :
    (Drained E d c' ↔ check = .begin ∧
      ¬Interrupted E H.maxBufferLen (E.mono d.tick + uploadRejectDrainMs) 0 (d.tick + 1)) ∧
      (check ≠ .begin → c'.tick = d.tick ∧ (rc = .success → ∀ {s : Session H},
        ((session E threadId).startingAt ⟨c', .idle⟩).Reachable s →
        s.conn.received = d.received)) := by
  have htick : ∀ e : Conn H, (afterAnswer e).2.tick = e.tick := fun e => by
    unfold afterAnswer
    split <;> rfl
  rcases h.ends hfd hback with ⟨hcheck, e, hdrain, hend⟩ | ⟨hcheck, e, hsame, hend⟩
  · obtain ⟨hwhole, hcut⟩ := drainLoop_ends hdrain
    refine ⟨⟨fun hdrained => ⟨hcheck, fun hint => ?_⟩, fun hnot => ?_⟩,
      fun hother => absurd hcheck hother⟩
    · obtain ⟨e', hdiscards, hc'⟩ := hdrained
      have hlater := hcut hint e' hdiscards
      have hsame : e.tick = e'.tick := by
        rw [← htick e, ← htick e', ← hc', ← congrArg Prod.snd hend]
      omega
    · exact ⟨e, hwhole hnot.2, congrArg Prod.snd hend⟩
  · have hc : c'.tick = d.tick :=
      (congrArg (fun x => x.2.tick) hend).trans ((htick e).trans hsame.tick)
    refine ⟨iff_of_false ?_ fun hboth => hcheck hboth.1, fun _ => ⟨hc, fun hrc s hs => ?_⟩⟩
    · rintro ⟨e', hdiscards, hc'⟩
      have hlater := hdiscards.tick_lt
      have hend' : c'.tick = e'.tick := (congrArg Conn.tick hc').trans (htick e')
      have hnext : d.next.tick = d.tick + 1 := rfl
      omega
    · subst hrc
      obtain ⟨hparked, hstay⟩ := afterAnswer_success (congrArg Prod.fst hend).symm
      have hc' : c' = e := (congrArg Prod.snd hend).trans hstay
      have hclose : e.cli.connectionPolicy = H.close := by
        rw [hsame.cli]
        exact h.policy hcheck hfd
      rw [parked_reads_nothing rfl (by rw [hc']; exact hparked) (by rw [hc']; exact hclose) hs]
      exact (congrArg Conn.received hc').trans hsame.received

/-- A library whose parser claims a body of five bytes, two of them read with the headers. -/
def DbHttp.streaming : DbHttp :=
  { claimingParser with exec := fun p _ _ => (.headersCompleteStream, some {}, p) }

/-- A peer that goes on sending, and the sink refuses what it gets. -/
def pickySink : Env := { Env.smooth { status := 200 } with chunk := fun _ _ => false }

/-- `DB_app` refuses the upload, and the peer is done a little later. -/
def pickyBegin : Env :=
  { Env.smooth { status := 200 } with
    uploadBegin := fun _ _ => some { status := 409 }
    read := fun t => if t < 8 then .data 40 else .eof }

/-- A worker's connection before its first request. -/
def streamingClient : Conn DbHttp.streaming :=
  Conn.fresh { Client.zeroed DbHttp.streaming with
    isBusy := true
    ctx := ⟨7, none, none⟩
    httpParser := some () }

theorem early_reject_drains_iff_begin : ∃ d c' : Conn DbHttp.streaming,
    clientHandle pickyBegin 9 0 streamingClient = (some .failure, c') ∧ Drained pickyBegin d c' ∧
      d.received < c'.received := by
  have hreject : Rejects pickyBegin 0 9 streamingClient .begin _ :=
    .claimed (n := 40) (p := ()) rfl (by decide) rfl rfl rfl
      (.ticket rfl (.inr fun h => absurd h.1 (by decide)) (.begin rfl))
  have hverdict : (clientHandle pickyBegin 9 0 streamingClient).1 = some .failure := by
    decide +kernel
  have hback : clientHandle pickyBegin 9 0 streamingClient =
      (some .failure, (clientHandle pickyBegin 9 0 streamingClient).2) := by rw [← hverdict]
  have hdrained := (early_reject_drains_iff (by decide) hreject hback).1.mpr
    ⟨rfl, not_interrupted fun _ hsignal => PollReply.noConfusion hsignal⟩
  exact ⟨_, _, hback, hdrained, by decide +kernel⟩

/-- The body pump has refused a slice, three bytes of the body are still to come, and that is it. -/
theorem refused_slice_is_not_drained : ∃ d c' : Conn DbHttp.streaming,
    Rejects pickySink 0 9 streamingClient .body d ∧
      (∀ t, pickySink.pollIn t = .ready ∧ pickySink.read t = .data 65535) ∧
      clientHandle pickySink 9 0 streamingClient = (some .failure, c') ∧
      ¬Drained pickySink d c' := by
  have hreject : Rejects pickySink 0 9 streamingClient .body _ :=
    .claimed (n := 65535) (p := ()) rfl (by decide) rfl rfl rfl
      (.ticket rfl (.inr fun h => absurd h.1 (by decide))
        (@TicketRejects.body _ _ _ _ _ ⟨ascii "ab", 5⟩ .success _ rfl rfl (by decide)
          (Prod.fst_eq_iff.mp (by decide +kernel))))
  have hverdict : (clientHandle pickySink 9 0 streamingClient).1 = some .failure := by
    decide +kernel
  refine ⟨_, (clientHandle pickySink 9 0 streamingClient).2, hreject, fun _ => ⟨rfl, rfl⟩,
    by rw [← hverdict], ?_⟩
  rintro ⟨e, hdiscards, hc'⟩
  have hlater := hdiscards.tick_lt
  have htick : (clientHandle pickySink 9 0 streamingClient).2.tick = e.tick := by
    rw [hc', afterAnswer]
    split <;> rfl
  rw [← htick] at hlater
  exact absurd hlater (by decide +kernel)

end DBServer.Proof
