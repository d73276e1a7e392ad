import DBServer.Proof.Cuts

/-!
# A body behind its headers

The read that ends the headers of an upload may bring a part of the body with them. The parser
reports that part, the pump offers it to the sink, and then reads what is left of the body off
the socket. So the sink sees the body, whatever part of it came with the headers.
-/

namespace DBServer.Proof

open DBServer Lib

variable {H : DbHttp} {E : Env} {p p₀ : H.Parser} {bs rest head body : Bytes} {req : HttpRequest}
  {c c₀ d : Conn H} {fuel threadId : Nat} {l t : List Call} {rc : Status}

/-! ## What reaches the sink -/

/-- The sink is handed a prefix of `body`, and the ticket is committed if that was all of it. -/
structure Sinks (body : Bytes) (l : List Call) : Prop where
  inOrder : offered l <+: body
  committed : .commit ∈ l ↔ .begin true ∈ l ∧ accepted l = body

/-- Nothing but answers. -/
def Answering (l : List Call) : Prop := ∀ e ∈ l, ∃ bs, e = .respond bs

theorem Start.call_log (E : Env) (fuel : Nat) (start : Start) (c : Conn H) :
    ∃ l, (start.call E fuel c).2.log = c.log ++ l ∧ Answering l := by
  rcases Start.split E start c with ⟨c', hl, hcall⟩ | ⟨c', n, _, _, hl, hcall⟩
  · refine ⟨[], ?_, fun e he => absurd he List.not_mem_nil⟩
    rw [hcall, List.append_nil]
    exact hl.log
  · refine ⟨[.respond (c'.cli.buf.slice 0 n)], ?_, fun e he => ⟨_, List.mem_singleton.mp he⟩⟩
    rw [hcall, startSend_log, hl.log]

theorem Answering.figures (h : Answering l) :
    offered l = [] ∧ accepted l = [] ∧ .commit ∉ l ∧ .begin true ∉ l := by
  refine ⟨List.flatMap_eq_nil_iff.mpr ?_, List.flatMap_eq_nil_iff.mpr ?_, fun hmem => ?_,
    fun hmem => ?_⟩
  · intro e he
    obtain ⟨bs, rfl⟩ := h e he
    rfl
  · intro e he
    obtain ⟨bs, rfl⟩ := h e he
    rfl
  · obtain ⟨bs, hbs⟩ := h _ hmem
    exact absurd hbs (by simp)
  · obtain ⟨bs, hbs⟩ := h _ hmem
    exact absurd hbs (by simp)

/-- The sink takes nothing that it was not handed. -/
theorem accepted_sublist : ∀ l : List Call, (accepted l).Sublist (offered l)
  | [] => .refl []
  | e :: l => by
      have htail := accepted_sublist l
      have happend : ∀ e : Call, accepted (e :: l) = accepted [e] ++ accepted l ∧
          offered (e :: l) = offered [e] ++ offered l := fun e =>
        ⟨accepted_append [e] l, offered_append [e] l⟩
      rw [(happend e).1, (happend e).2]
      refine List.Sublist.append ?_ htail
      cases e with
      | chunk bs taken => cases taken <;> simp
      | _ => simp [accepted, offered]

/-- A ticket that was not opened, or is not settled by a commit and has not seen the whole body. -/
theorem sinks_unopened (hoff : offered l = []) (hcommit : .commit ∉ l) (hbegin : .begin true ∉ l) :
    Sinks body l := by
  refine ⟨?_, fun hmem => absurd hmem hcommit, fun h => absurd h.1 hbegin⟩
  rw [hoff]
  exact List.nil_prefix

/-- An opened ticket whose body loop appended `l`, and what settling it appended. -/
theorem Pumped.sinks {o : Option (PumpResult × Status) × Conn H} (h : Pumped body c o l)
    (htail : offered t = [] ∧ accepted t = [] ∧ .begin true ∉ t)
    (hcommit : .commit ∈ t ↔ (accepted l).length = body.length) :
    Sinks body (.begin true :: (l ++ t)) := by
  obtain ⟨hoff, hacc, _⟩ := htail
  have hoffered : offered (.begin true :: (l ++ t)) = offered l := by
    show offered (l ++ t) = offered l
    rw [offered_append, hoff, List.append_nil]
  have haccepted : accepted (.begin true :: (l ++ t)) = accepted l := by
    show accepted (l ++ t) = accepted l
    rw [accepted_append, hacc, List.append_nil]
  have hsub : (accepted l).Sublist body := (accepted_sublist l).trans h.inOrder.sublist
  have hnone : .commit ∉ l := List.count_eq_zero.mp h.committed
  refine ⟨by rw [hoffered]; exact h.inOrder, ?_⟩
  rw [haccepted]
  constructor
  · intro hmem
    rcases List.mem_append.mp (List.mem_of_ne_of_mem (by simp) hmem) with hmem | hmem
    · exact absurd hmem hnone
    · exact ⟨List.mem_cons_self, hsub.eq_of_length (hcommit.mp hmem)⟩
  · rintro ⟨_, hall⟩
    exact List.mem_cons_of_mem _ (List.mem_append_right _ (hcommit.mpr (congrArg _ hall)))

/-- **One ticket.** The stream info and the socket together hold `body`. -/
theorem ticketPump_sinks {part : Bytes} {areq : AppRequest} {x : Exit} (hfd : 0 ≤ c.cli.ctx.fd)
    (hinfo : (c.cli.httpParser.bind fun p => H.streamInfo p c.cli.buf) =
      some ⟨part, body.length⟩) (hle : part.length ≤ body.length)
    (hbody : bodyOf E c ⟨part, body.length⟩ = body)
    (h : ticketPump E fuel areq c = (some x, d)) :
    ∃ l, d.log = c.log ++ l ∧ Sinks body l := by
  unfold ticketPump at h
  split at h
  · -- no ticket
    rename_i res _
    obtain ⟨rc, e, hsend, hrest⟩ := andThen_eq_some.mp h
    obtain ⟨_, rfl⟩ := Prod.mk.inj hrest
    obtain ⟨l, hlog, hanswers⟩ := Start.call_log E fuel (.send res) (c.call (.begin false)).next
    obtain ⟨hoff, _, hcommit, hbegin⟩ := hanswers.figures
    have hsent : (Start.send res).call E fuel (c.call (.begin false)).next = (some rc, e) := hsend
    rw [hsent] at hlog
    refine ⟨.begin false :: l, ?_, sinks_unopened ?_ ?_ ?_⟩
    · rw [hlog]
      exact List.append_assoc _ _ _
    · exact hoff
    · simp [hcommit]
    · simp [hbegin]
  · have hinfo' : ((c.call (.begin true)).next.cli.httpParser.bind fun p =>
        H.streamInfo p (c.call (.begin true)).next.cli.buf) = some ⟨part, body.length⟩ := hinfo
    dsimp only at h
    rw [hinfo'] at h
    dsimp only at h
    rw [if_neg (by omega)] at h
    obtain ⟨⟨r, rc⟩, e, hpump, hsettle⟩ := andThen_eq_some.mp h
    obtain ⟨delta, hpumped⟩ := pumpBody_pumped (c := (c.call (.begin true)).next) E fuel
      ⟨part, body.length⟩ hfd
    rw [show bodyOf E (c.call (.begin true)).next ⟨part, body.length⟩ = body from hbody, hpump]
      at hpumped
    have hlog : e.log = c.log ++ .begin true :: delta := by
      rw [hpumped.log]
      exact List.append_assoc _ _ _
    -- an abort ends what was not taken whole
    have haborted : (accepted delta).length < body.length → d = e.call .abort →
        ∃ l, d.log = c.log ++ l ∧ Sinks body l := by
      rintro hshort rfl
      refine ⟨_, ?_, hpumped.sinks (t := [.abort]) (by simp [offered, accepted]) ?_⟩
      · show e.log ++ [.abort] = _
        rw [hlog, List.append_assoc]
        rfl
      · simp
        omega
    cases r with
    | ok =>
        obtain ⟨_, _, hall⟩ := hpumped.ok rc rfl
        obtain ⟨rc', e', hsend, hrest⟩ := andThen_eq_some.mp hsettle
        obtain ⟨_, rfl⟩ := Prod.mk.inj hrest
        obtain ⟨l, hlog', hanswers⟩ := Start.call_log E fuel (.send (E.uploadCommit e.tick))
          (e.call .commit).next
        have hsent : (Start.send (E.uploadCommit e.tick)).call E fuel (e.call .commit).next =
          (some rc', e') := hsend
        rw [hsent] at hlog'
        obtain ⟨hoff, hacc, _, hbegin⟩ := hanswers.figures
        refine ⟨_, ?_, hpumped.sinks (t := .commit :: l) ⟨hoff, hacc, ?_⟩ ?_⟩
        · rw [hlog']
          show e.log ++ [.commit] ++ l = _
          rw [hlog]
          simp
        · simp [hbegin]
        · simp [hall]
    | answered =>
        obtain ⟨_, _, hshort⟩ := hpumped.answered rc rfl
        exact haborted hshort (Prod.mk.inj hsettle).2.symm
    | gone =>
        obtain ⟨_, _, hshort⟩ := hpumped.gone rc rfl
        exact haborted hshort (Prod.mk.inj hsettle).2.symm

/-! ## A whole upload -/

/--
An upload: the parser claims it once it has the whole head, and reports what it has of the
body then.
-/
structure UploadMessage (p : H.Parser) (head body : Bytes) (req : HttpRequest) : Prop where
  shorter : ∀ k, 0 < k → k < head.length → GoesOn (H.exec p (holding (head ++ body)) k)
  claimed : ∀ k, 0 < k → head.length ≤ k → k ≤ (head ++ body).length → k ≤ H.maxBufferLen →
    (H.exec p (holding (head ++ body)) k).1 = .headersCompleteStream ∧
    (H.exec p (holding (head ++ body)) k).2.1 = some req ∧
    ∀ buf : Buf, buf.slice 0 k = (head ++ body).take k →
      H.streamInfo (H.exec p (holding (head ++ body)) k).2.2 buf =
        some ⟨body.take (k - head.length), body.length⟩

/-- What the peer says behind a prefix of the upload that has its whole head. -/
theorem rest_of_body {peer : Buf} {off k : Nat} (hm : bs ++ rest = head ++ body)
    (hnext : peer.slice off rest.length = rest) (hbs : bs.length ≤ k) (hhead : head.length ≤ k) :
    peer.slice (off + (k - bs.length)) (body.length - (k - head.length)) =
      body.drop (k - head.length) := by
  have hlen : bs.length + rest.length = head.length + body.length := by
    rw [← List.length_append, hm, List.length_append]
  have hdrop : rest.drop (k - bs.length) = body.drop (k - head.length) := by
    have hboth := congrArg (List.drop k) hm
    rwa [List.drop_append, List.drop_append, List.drop_eq_nil_of_le hbs,
      List.drop_eq_nil_of_le hhead, List.nil_append, List.nil_append] at hboth
  -- behind the end of the upload nothing is left of either
  by_cases hle : k - bs.length ≤ rest.length
  · have hsum : rest.length = (k - bs.length) + (body.length - (k - head.length)) := by omega
    rw [hsum, Buf.slice_add] at hnext
    rw [← hdrop, ← hnext, List.drop_left' Buf.length_slice]
  · rw [List.drop_eq_nil_of_le (by omega), show body.length - (k - head.length) = 0 by omega]
    rfl

theorem afterAnswer_log (c : Conn H) : (afterAnswer c).2.log = c.log := by
  unfold afterAnswer
  split <;> rfl

/-- What `client_handle` adds to the log behind the claim of a request is the pump's. -/
theorem concluded_claimed {out : HttpStatus × Option HttpRequest × H.Parser} {x : Exit}
    (hout : out.1 = .headersCompleteStream) (hreq : out.2.1 = some req)
    (h : concluded E fuel threadId out c = (some x, d)) :
    ∃ y e, clientUploadPumpToDrain E fuel threadId (some req) (closing c) = (some y, e) ∧
      d.log = e.log := by
  simp only [concluded, afterParse, hout, hreq, Option.getD_some] at h
  obtain ⟨y, e, hpump, hrest⟩ := andThen_eq_some.mp h
  refine ⟨y, e, hpump, ?_⟩
  cases y with
  | returned rc =>
      obtain ⟨_, rfl⟩ := Prod.mk.inj hrest
      exact afterAnswer_log e
  | atDrain rc =>
      obtain ⟨_, rfl⟩ := Prod.mk.inj hrest
      rfl

/-- Nor does anything behind the loop add to it. -/
theorem clientHandle_log (h : clientHandle E fuel threadId c = (some rc, d))
    (hb : Boundary p c₀) (hears : Hears p c₀ bs c) :
    ∃ x e, clientHandleToDrain E threadId fuel c = (some x, e) ∧ d.log = e.log := by
  rw [clientHandle_loop hb hears] at h
  obtain ⟨x, e, hloop, hrest⟩ := andThen_eq_some.mp h
  refine ⟨x, e, hloop, ?_⟩
  cases x with
  | returned rc =>
      obtain ⟨_, rfl⟩ := Prod.mk.inj hrest
      rfl
  | atDrain rc =>
      obtain ⟨_, e', hdrain, hlast⟩ := andThen_eq_some.mp hrest
      obtain ⟨_, rfl⟩ := Prod.mk.inj hlast
      rw [afterAnswer_log]
      have hlog := drainRejectedBody_log E fuel e
      rwa [hdrain] at hlog

/-- A claimed upload, from a client whose stream info and socket together hold `body`. -/
theorem clientUploadPumpToDrain_sinks {part : Bytes} {y : Exit} (hclaim : ClaimedUpload E H req)
    (hfd : 0 ≤ c.cli.ctx.fd) (hinfo : (c.cli.httpParser.bind fun p => H.streamInfo p c.cli.buf) =
      some ⟨part, body.length⟩) (hle : part.length ≤ body.length)
    (hbody : bodyOf E c ⟨part, body.length⟩ = body)
    (h : clientUploadPumpToDrain E fuel threadId (some req) c = (some y, d)) :
    ∃ l, d.log = c.log ++ l ∧ Sinks body l := by
  rcases clientUploadPumpToDrain_split hclaim threadId c with hcall | ⟨areq, hcall⟩
  · rw [hcall] at h
    obtain ⟨rc, e, hsend, hrest⟩ := andThen_eq_some.mp h
    obtain ⟨_, rfl⟩ := Prod.mk.inj hrest
    obtain ⟨l, hlog, hanswers⟩ := Start.call_log E fuel (.error 500) (c.call (.adapt req))
    obtain ⟨hoff, _, hcommit, hbegin⟩ := hanswers.figures
    have hsent : (Start.error 500).call E fuel (c.call (.adapt req)) = (some rc, e) := hsend
    rw [hsent] at hlog
    refine ⟨.adapt req :: l, ?_, sinks_unopened hoff (by simp [hcommit]) (by simp [hbegin])⟩
    rw [hlog]
    exact List.append_assoc _ _ _
  · rw [hcall] at h
    obtain ⟨l, hlog, hsinks⟩ := ticketPump_sinks (c := (c.call (.adapt req)).next) hfd hinfo hle
      hbody h
    refine ⟨.adapt req :: l, ?_, hsinks.inOrder, ?_⟩
    · rw [hlog]
      exact List.append_assoc _ _ _
    · have hsame : accepted (.adapt req :: l) = accepted l := rfl
      rw [hsame]
      simpa using hsinks.committed

/--
**The sink sees the body, whatever part of it came with the headers.** Wherever the cuts of an
upload are, what the call that decides on it offers the sink is a prefix of the body, and the
ticket is committed exactly if the sink took all of it.
-/
theorem Listened.sinks (hp : Incremental p) (hb : Boundary p c₀)
    (hup : UploadMessage p head body req) (hl : Listened threadId c₀ bs c)
    (hm : bs ++ rest = head ++ body) (hbrings : Brings E c rest) (hclaim : ClaimedUpload E H req)
    (hcall : clientHandle E fuel threadId c = (some rc, d)) :
    ∃ l, d.log = c₀.log ++ l ∧ Sinks body l := by
  have hears := hl.hears hb
  obtain ⟨x, e, hloop, hlog⟩ := clientHandle_log hcall hb hears
  have hstart : c.log = c₀.log := by
    obtain ⟨now, q, tick, rfl⟩ := hears.client
    rfl
  have hquiet : ∀ {e : Conn H}, Reads E c e → d.log = e.log →
      ∃ l, d.log = c₀.log ++ l ∧ Sinks body l := by
    intro e hr hsame
    refine ⟨[], ?_, sinks_unopened rfl List.not_mem_nil List.not_mem_nil⟩
    rw [hsame, hr.frame.log, hstart, List.append_nil]
  cases hl.callEnds hp hb hm hbrings hloop with
  | @waiting e hr _ => exact hquiet hr hlog
  | @broken e hr _ => exact hquiet hr hlog
  | @decided e d' m' n f _ hr hread hm' hpre hne hfits hdec hconcluded =>
      have hpos := List.length_pos_iff.mpr hne
      -- a prefix of the head would not have decided anything
      have hhead : head.length ≤ m'.length := by
        by_contra hshort
        exact hdec (hup.shorter _ hpos (Nat.lt_of_not_le hshort))
      obtain ⟨hstatus, hreq, hinfo⟩ := hup.claimed _ hpos hhead hpre.length_le hfits
      obtain ⟨y, e', hpump, hlog'⟩ := concluded_claimed hstatus hreq hconcluded
      have hle : m'.length ≤ head.length + body.length := by
        rw [← List.length_append]
        exact hpre.length_le
      have hpart : (body.take (m'.length - head.length)).length = m'.length - head.length := by
        rw [List.length_take]
        omega
      have hbs : bs.length ≤ m'.length := by
        rw [← hm', List.length_append]
        exact Nat.le_add_right _ _
      have hreceived : c.received = c₀.received + bs.length := by
        obtain ⟨now, q, tick, rfl⟩ := hears.client
        rfl
      -- the parser's part and the socket's next bytes make up the body
      have hbody : bodyOf E (closing (told E c₀ p m' e.tick))
          ⟨body.take (m'.length - head.length), body.length⟩ = body := by
        have hnext := rest_of_body hm hbrings.next hbs hhead
        rw [hreceived, Nat.add_assoc, Nat.add_sub_cancel' hbs] at hnext
        show body.take (m'.length - head.length) ++ Buf.slice E.peer (c₀.received + m'.length)
          (body.length - (body.take (m'.length - head.length)).length) = body
        rw [hpart, hnext, List.take_append_drop]
      have hreports : ((closing (told E c₀ p m' e.tick)).cli.httpParser.bind fun p =>
          H.streamInfo p (closing (told E c₀ p m' e.tick)).cli.buf) =
            some ⟨body.take (m'.length - head.length), body.length⟩ := by
        show H.streamInfo (H.exec p (holding m') m'.length).2.2 (c₀.cli.buf.write 0 m') = _
        rw [hp.exec_prefix hpre]
        refine hinfo _ ?_
        rw [Buf.slice_write_self rfl]
        exact List.prefix_iff_eq_take.mp hpre
      obtain ⟨l, hl', hsinks⟩ := clientUploadPumpToDrain_sinks hclaim
        (c := closing (told E c₀ p m' e.tick)) hb.fd hreports (by rw [hpart]; omega) hbody hpump
      refine ⟨l, ?_, hsinks⟩
      rw [hlog, hlog', hl']
      rfl

/-! ## Lockstep, and what follows from it -/

/--
**Buffer and parser stay in lockstep.** Between two events the parser of a client that is not
draining has been given what stands in the buffer, which is what was read since the last message
boundary; so it is for the clients of an operator and for those of the upload pool. It follows
that a message is answered alike wherever it is cut: a call that does not have all of it waits,
or has lost the peer; the call that has the end of it dispatches the same request and comes
back with the same verdict and the same client. And the sink sees the body of an upload, whatever
part of it came with the headers.
-/
theorem buffer_and_parser_in_lockstep (hparser : ∀ p, New p₀ p → Incremental p) :
    (∀ r, (overheard H).ReachableBy (fun _ => Initial p₀) r → ∀ (idx : Nat) (c : Conn H),
      r.1.op.clients[idx]? = some c → c.cli.isBusy = true → c.cli.draining = false →
      r.1.code.head? ≠ some (.removeByFd c.cli.ctx.fd) →
        ∃ p, New p₀ p ∧ Lockstep p c (r.2 idx)) ∧
    (∀ (cli : Client H) (E : Env) (fd : Int) (peer : Nat × Nat) (threadId : Nat) (bs : Bytes)
      (c : Conn H), WorkerClient threadId cli →
      Driven E threadId (adoptedFd E fd peer cli) bs c →
        c.cli.draining = false ∧ ∃ p, New p₀ p ∧ Lockstep p c bs) ∧
    (∀ (p : H.Parser) (c₀ : Conn H) (m : Bytes) (threadId : Nat), New p₀ p → Boundary p c₀ →
      Message p m → m.length ≤ H.maxBufferLen →
        (∀ (E : Env) (fuel : Nat) (bs rest : Bytes) (c d : Conn H) (rc : Status),
          Listened threadId c₀ bs c → bs ++ rest = m → Brings E c rest →
          clientHandle E fuel threadId c = (some rc, d) →
            Outcome E threadId c₀ bs rest c (rc, d)) ∧
        (∀ (E : Env) (fuel : Nat) (c e d : Conn H) (rc : Status) (req : HttpRequest),
          (H.exec p (holding m) m.length).1 = .ok →
          (H.exec p (holding m) m.length).2.1 = some req → Cut E threadId c₀ m c e →
          clientHandle E fuel threadId c = (some rc, d) →
            ∃ fuel', dispatch E fuel' threadId req (told E c₀ p m e.tick) = (some rc, d)) ∧
        (∀ (E E' : Env) (fuel : Nat) (c c' e e' d : Conn H) (rc : Status),
          Cut E threadId c₀ m c e → Cut E' threadId c₀ m c' e' → Matches E E' e.tick e'.tick →
          clientHandle E fuel threadId c = (some rc, d) →
            ∃ fuel₀, ∀ fuel' ≥ fuel₀, ∃ tick,
              clientHandle E' fuel' threadId c' = (some rc, { d with tick := tick }))) ∧
    (∀ (p : H.Parser) (c₀ : Conn H) (head body : Bytes) (req : HttpRequest) (threadId : Nat),
      New p₀ p → Boundary p c₀ → UploadMessage p head body req →
      ∀ (E : Env) (fuel : Nat) (bs rest : Bytes) (c d : Conn H) (rc : Status),
        Listened threadId c₀ bs c → bs ++ rest = head ++ body → Brings E c rest →
        ClaimedUpload E H req → clientHandle E fuel threadId c = (some rc, d) →
          ∃ l, d.log = c₀.log ++ l ∧ Sinks body l) := by
  refine ⟨?_, ?_, ?_, ?_⟩
  · intro r hr idx c hget hbusy hopen hkept
    exact (((overheard_inStep hr idx c hget).busy hbusy).resolve_right hkept).reading hopen
  · intro cli E fd peer threadId bs c hcli hdriven
    exact hdriven.inStep (workerClient_parses hcli)
  · intro p c₀ m threadId hnew hb hmsg hlen
    have hp := hparser p hnew
    refine ⟨?_, ?_, ?_⟩
    · intro E fuel bs rest c d rc hl hm hbrings hcall
      exact hl.outcome hp hb hmsg hlen hm hbrings hcall
    · intro E fuel c e d rc req hok hreq hcut hcall
      exact hcut.dispatches hp hb hmsg hlen hok hreq hcall
    · intro E E' fuel c c' e e' d rc hcut hcut' hmatch hcall
      exact hcut.verdict hp hb hmsg hlen hcut' hmatch hcall
  · intro p c₀ head body req threadId hnew hb hup E fuel bs rest c d rc hl hm hbrings hclaim hcall
    exact hl.sinks (hparser p hnew) hb hup hm hbrings hclaim hcall

/-- A parser of lines: a message ends with a newline, and one that begins with `P` is claimed. -/
def lineParser : DbHttp :=
  { DbHttp.small with
    Parser := Nat
    clear := fun _ => 0
    exec := fun p buf k =>
      let line := buf.slice 0 (p + k)
      (if 10 ∈ line ∧ line.head? = some 80 then .headersCompleteStream else .ok,
        some { path := line.takeWhile (· ≠ 10), messageComplete := decide (10 ∈ line) }, p + k)
    streamInfo := fun p buf => some ⟨((buf.slice 0 p).dropWhile (· ≠ 10)).drop 1, 5⟩ }

theorem lineParser_incremental (p : lineParser.Parser) (h : New (0 : Nat) p) : Incremental p := by
  obtain rfl : p = (0 : Nat) := by
    rcases h with h | ⟨_, h⟩
    · exact h
    · exact h
  refine ⟨fun buf buf' k h => ?_, fun buf j k _ _ _ => ?_⟩
  · have h' : buf.slice 0 (0 + k) = buf'.slice 0 (0 + k) := by rwa [Nat.zero_add]
    simp only [lineParser, h']
  · simp only [lineParser, Nat.zero_add]

/-- A client at its first message. -/
def lineClient : Client lineParser :=
  { Client.zeroed lineParser with
    isBusy := true
    ctx := ⟨7, some 0, some .operatorClient⟩
    httpParser := some (0 : Nat) }

/-- The peer says `m`, and the reads bring it in pieces. -/
def speaking (m : Bytes) (read : Nat → ReadReply) : Env :=
  { Env.smooth { status := 200 } with peer := fun i => m.getD i 0, read := read }

theorem lineClient_boundary : Boundary (H := lineParser) (0 : Nat) (Conn.fresh lineClient) :=
  ⟨by decide, rfl, lockstep_nil rfl rfl⟩

theorem line_message : Message (H := lineParser) (0 : Nat) (ascii "/api/app\n") := by
  refine ⟨fun k hpos hlt => ?_, ?_, by decide +kernel⟩
  · have hk : k < 9 := hlt
    interval_cases k <;> exact ⟨by decide +kernel, _, rfl, by decide +kernel⟩
  · rintro ⟨_, req, hreq, hmore⟩
    obtain rfl := Option.some.inj hreq
    exact absurd hmore (by decide +kernel)

theorem line_upload : UploadMessage (H := lineParser) (0 : Nat) (ascii "P\n") (ascii "hello")
    { path := ascii "P", messageComplete := true } := by
  refine ⟨fun k hpos hlt => ?_, fun k _ hhead hle _ => ?_⟩
  · have hk : k < 2 := hlt
    interval_cases k
    exact ⟨by decide +kernel, _, rfl, by decide +kernel⟩
  · have hk : k ≤ 7 := hle
    have hk' : 2 ≤ k := hhead
    have hinfo : ∀ {k : Nat} {buf : Buf} {bs : Bytes}, buf.slice 0 k = bs →
        lineParser.streamInfo (lineParser.exec (0 : Nat)
          (holding (ascii "P\n" ++ ascii "hello")) k).2.2 buf =
            some ⟨(bs.dropWhile (· ≠ 10)).drop 1, 5⟩ := by
      rintro k buf _ rfl
      simp only [lineParser, Nat.zero_add]
    interval_cases k <;>
      exact ⟨by decide +kernel, by decide +kernel, fun buf hbuf => (hinfo hbuf).trans rfl⟩

/-- The first read brings the head and a part of the body. -/
def earlyBody : Env := speaking (ascii "P\nhello") fun t => if t = 0 then .data 3 else .data 65535

theorem earlyBody_brings : Brings earlyBody (Conn.fresh lineClient) (ascii "P\nhello") := by
  have honly : ∀ e, Reads earlyBody (Conn.fresh lineClient) e → e = Conn.fresh lineClient := by
    intro e hr
    induction hr with
    | start => rfl
    | more _ hparser _ hread hgo ih =>
        subst ih
        obtain rfl := Option.some.inj hparser
        obtain rfl := ReadReply.data.inj hread
        exact absurd hgo.1 (by decide +kernel)
    | interrupted _ _ _ hread ih =>
        subst ih
        exact absurd hread (by decide)
  refine ⟨by decide +kernel, fun e n hr hread => ?_⟩
  obtain rfl := honly e hr
  obtain rfl := ReadReply.data.inj hread
  decide +kernel

theorem buffer_and_parser_in_lockstep_line :
    let c₀ := Conn.fresh lineClient
    let pieces := speaking (ascii "/api/app\n") fun t =>
      if t = 0 then .data 3 else if t = 1 then .eagain else .data 4
    let atOnce := speaking (ascii "/api/app\n") fun _ => .data 8
    let c := (clientHandle pieces 3 0 c₀).2
    let d := (clientHandle pieces 3 0 c).2
    let d' := (clientHandle earlyBody 5 0 c₀).2
    (c.log = [] ∧ d.log.length = 3 ∧ ∃ fuel₀, ∀ fuel ≥ fuel₀, ∃ tick,
      clientHandle atOnce fuel 0 c₀ = (some .success, { d with tick := tick })) ∧
    .commit ∈ d'.log ∧ Sinks (ascii "hello") d'.log := by
  intro c₀ pieces atOnce c d d'
  have hwaits : clientHandle pieces 3 0 c₀ = (some .success, c) :=
    Prod.fst_eq_iff.mp (by decide +kernel)
  have hcall : clientHandle pieces 3 0 c = (some .success, d) :=
    Prod.fst_eq_iff.mp (by decide +kernel)
  have hcut : Cut pieces 0 c₀ (ascii "/api/app\n") c c := by
    exact ⟨_, ascii "/app\n", 4,
      Listened.start.event hwaits (by decide +kernel) (by decide +kernel), by decide +kernel,
      .start, by decide +kernel, by decide +kernel⟩
  have hcut' : Cut atOnce 0 c₀ (ascii "/api/app\n") c₀ c₀ :=
    ⟨[], _, 8, .start, rfl, .start, rfl, by decide +kernel⟩
  have hmatch : Matches pieces atOnce c.tick c₀.tick :=
    ⟨fun _ => rfl, fun _ => rfl, fun _ => rfl, fun _ => rfl, fun _ => rfl, rfl, rfl⟩
  have hclaim : ClaimedUpload earlyBody lineParser
      { path := ascii "P", messageComplete := true } := by
    intro req hreq
    obtain rfl := Option.some.inj hreq
    exact .inr (by decide)
  have hupload : clientHandle earlyBody 5 0 c₀ = (some .failure, d') :=
    Prod.fst_eq_iff.mp (by decide +kernel)
  have hall := buffer_and_parser_in_lockstep lineParser_incremental
  refine ⟨⟨by decide +kernel, by decide +kernel, ?_⟩, by decide +kernel, ?_⟩
  · exact (hall.2.2.1 (0 : Nat) c₀ _ 0 (.inl rfl) lineClient_boundary line_message (by decide)).2.2
      pieces atOnce 3 c c₀ c c₀ d .success hcut hcut' hmatch hcall
  · obtain ⟨l, hlog, hsinks⟩ := hall.2.2.2 (0 : Nat) c₀ _ _ _ 0 (.inl rfl) lineClient_boundary
      line_upload earlyBody 5 [] _ c₀ d' .failure .start rfl earlyBody_brings hclaim hupload
    rw [hlog]
    exact hsinks

end DBServer.Proof
