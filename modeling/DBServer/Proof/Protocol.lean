import DBServer.Lib.Protocol
import DBServer.Proof.Connection
import DBServer.Proof.Rejected
import DBServer.Proof.Responder
import DBServer.Proof.Truncated

/-!
# How a connection talks to the application

What `DB_app` may expect of whoever calls it, as a protocol: one request at a time; slices
only into an open ticket, none behind one that was refused; a ticket settled once, an
archive's blobs opened in order, one at a time, and the archive released once; and nothing
left open between two events. Every handler of a connection keeps it, at whatever point it
is looked at, and whatever `DB_app` and the system answer. So what is open is at every
moment what was opened and not closed, and no request is forgotten.
-/

namespace DBServer.Proof

open DBServer Lib Operator

variable {H : DbHttp} {E : Env} {c d : Conn H} {fuel threadId idx : Nat} {op : Operator H}
  {a : Answers H} {s : Mailbox H}

/-- Where the conversation stands. -/
inductive Talk where
  | idle
  /-- A request has been handed to an adapter. -/
  | asked
  /-- It has been dealt with; an answer is due. -/
  | owing
  /-- A ticket is open, and its sink takes slices. -/
  | ticket
  /-- The sink has refused a slice. -/
  | refused
  /-- The body is given up, and its ticket still open. -/
  | givenUp
  /-- An archive is open, and so many of its blobs are dealt with. -/
  | archive (next : Nat)
  | blob (idx : Nat)
  /-- A blob could not be opened. -/
  | broken
deriving DecidableEq, Repr

/-- What may be called, and what is due behind it. -/
def appProtocol : Protocol Talk Call
  | .idle, .adapt _ => some .asked
  | .idle, .respond _ => some .idle
  | .asked, .respond _ => some .idle
  | .asked, .run _ => some .owing
  | .asked, .begin opened => some (if opened then .ticket else .owing)
  | .asked, .zipBegin opened => some (if opened then .archive 0 else .owing)
  | .owing, .respond _ => some .idle
  | .ticket, .chunk _ taken => some (if taken then .ticket else .refused)
  | .ticket, .commit => some .owing
  | .ticket, .abort => some .owing
  | .ticket, .respond _ => some .givenUp
  | .ticket, .peerClosed => some .givenUp
  | .refused, .respond _ => some .givenUp
  | .givenUp, .abort => some .idle
  | .archive next, .zipOpen idx opened =>
      if idx = next then some (if opened then .blob idx else .broken) else none
  | .archive _, .zipRelease => some .idle
  | .blob idx, .zipClose i => if i = idx then some (.archive (idx + 1)) else none
  | .broken, .zipRelease => some .idle
  | _, _ => none

/-- The calls of a connection so far lead to this. -/
def Stands (t : Talk) (c : Conn H) : Prop := appProtocol.after .idle c.log = some t

instance (t : Talk) (c : Conn H) : Decidable (Stands t c) := inferInstanceAs (Decidable (_ = _))

/-- They are in order. -/
def Conforms (c : Conn H) : Prop := ∃ t, Stands t c

theorem Stands.conforms {t : Talk} (h : Stands t c) : Conforms c := ⟨t, h⟩

theorem Stands.same {t : Talk} (h : Stands t c) (hlog : d.log = c.log) : Stands t d := by
  rw [Stands, hlog]
  exact h

theorem Stands.call {t u : Talk} {e : Call} (h : Stands t c) (hcall : appProtocol t e = some u) :
    Stands u (c.call e) :=
  (Protocol.after_call h).trans hcall

/-- A client that can be answered, with no answer parked. -/
structure Poised (t : Talk) (c : Conn H) : Prop where
  stands : Stands t c
  fd : 0 ≤ c.cli.ctx.fd
  free : c.cli.draining = false

namespace Poised

variable {t u : Talk}

theorem same (h : Poised t c) (hlog : d.log = c.log) (hctx : d.cli.ctx = c.cli.ctx)
    (hfree : d.cli.draining = c.cli.draining) : Poised t d :=
  ⟨h.stands.same hlog, by rw [hctx]; exact h.fd, hfree.trans h.free⟩

theorem call {e : Call} (h : Poised t c) (hcall : appProtocol t e = some u) :
    Poised u (c.call e) :=
  ⟨h.stands.call hcall, h.fd, h.free⟩

theorem next (h : Poised t c) : Poised t c.next := ⟨h.stands, h.fd, h.free⟩

theorem conforms (h : Poised t c) : Conforms c := h.stands.conforms

/-! ## Answers -/

/-- A fixed error is always handed over. -/
theorem error (h : Poised t c) (hanswer : ∀ bs, appProtocol t (.respond bs) = some u)
    (E : Env) (fuel status : Nat) : Stands u (responseWriterError E fuel status c).2 := by
  obtain ⟨bs, hlog⟩ := responseWriterError_log E fuel status h.fd
  rw [Stands, hlog]
  exact (Protocol.after_call h.stands).trans (hanswer bs)

/-- An answer of `DB_app` is, unless its status is none. -/
theorem send (h : Poised t c) (hanswer : ∀ bs, appProtocol t (.respond bs) = some u)
    (E : Env) (fuel : Nat) (res : AppResponse) :
    Stands u (responseWriterSend E fuel res c).2 ∨
      responseWriterSend E fuel res c = (some .failure, c) := by
  by_cases hres : 100 ≤ res.status ∧ res.status ≤ 599
  · obtain ⟨bs, hlog⟩ := responseWriterSend_log E fuel h.fd hres
    left
    rw [Stands, hlog]
    exact (Protocol.after_call h.stands).trans (hanswer bs)
  · right
    rw [responseWriterSend, if_pos (by omega)]

end Poised

/-! ## The body -/

/-- How a conversation stands behind the body loop. -/
structure BodyTalk (o : Option (PumpResult × Status) × Conn H) : Prop where
  conforms : Conforms o.2
  ok : ∀ rc, o.1 = some (.ok, rc) → Poised .ticket o.2
  lost : ∀ v rc, o.1 = some (v, rc) → v ≠ .ok → Stands .givenUp o.2

theorem BodyTalk.unfinished (h : Conforms c) : BodyTalk (none, c) := ⟨h, nofun, nofun⟩

theorem BodyTalk.of_givenUp {v : PumpResult} {rc : Status} (h : Stands .givenUp c) (hv : v ≠ .ok) :
    BodyTalk (some (v, rc), c) := by
  refine ⟨h.conforms, fun rc' hrc => ?_, fun _ _ _ _ => h⟩
  exact absurd (congrArg Prod.fst (Option.some.inj hrc)) hv

/-- The body is given up with an answer. -/
theorem bodyTalk_answered {t : Talk} (h : Poised t c)
    (hanswer : ∀ bs, appProtocol t (.respond bs) = some .givenUp) (E : Env) (fuel status : Nat) :
    BodyTalk (pumpAnswered (responseWriterError E fuel status c)) := by
  have hstands := h.error hanswer E fuel status
  generalize responseWriterError E fuel status c = o at hstands
  obtain ⟨_ | rc, d⟩ := o
  · exact .unfinished hstands.conforms
  · exact .of_givenUp hstands (by decide)

theorem pumpLoop_talk (E : Env) (deadline : Nat) : ∀ (fuel remaining : Nat) (c : Conn H),
    Poised .ticket c → BodyTalk (pumpLoop E deadline fuel remaining c)
  | 0, _, _, h => .unfinished h.conforms
  | fuel + 1, remaining, c, h => by
      have hanswered : ∀ status,
          BodyTalk (pumpAnswered (responseWriterError E fuel status c.next)) :=
        fun status => bodyTalk_answered h.next (fun _ => rfl) E fuel status
      rw [pumpLoop]
      split
      · split
        · exact hanswered 408
        · split
          · exact hanswered 400
          · exact pumpLoop_talk E deadline fuel _ _ h.next
          · exact hanswered 500
          · split
            · -- the peer is gone, and there is nobody to answer
              have hgone := (h.call (e := .peerClosed) rfl).next
              exact .of_givenUp hgone.stands (by decide)
            · exact pumpLoop_talk E deadline fuel _ _ h.next
            · exact pumpLoop_talk E deadline fuel _ _ h.next
            · exact hanswered 500
            · rename_i n _
              dsimp only
              obtain ⟨got, hgot⟩ : ∃ got, min (n + 1) (min remaining H.maxBufferLen) = got :=
                ⟨_, rfl⟩
              rw [hgot]
              have hread : Poised .ticket (c.receive E 0 got) := h.same rfl rfl rfl
              split
              · rename_i htaken
                have hoffer : Poised .ticket
                    (offer E ((c.receive E 0 got).cli.buf.slice 0 got) (c.receive E 0 got)) :=
                  (hread.call (by rw [htaken]; rfl)).next
                exact pumpLoop_talk E deadline fuel _ _ (hoffer.same rfl rfl rfl)
              · rename_i hrefused
                have hoffer : Poised .refused
                    (offer E ((c.receive E 0 got).cli.buf.slice 0 got) (c.receive E 0 got)) :=
                  (hread.call (by rw [Bool.eq_false_of_not_eq_true hrefused]; rfl)).next
                exact bodyTalk_answered hoffer (fun _ => rfl) E fuel 400
      · exact ⟨h.conforms, fun _ _ => h, fun v rc hv hne => by simp_all⟩

theorem pumpBody_talk (E : Env) (fuel : Nat) (leftover : Bytes) (total : Nat)
    (h : Poised .ticket c) : BodyTalk (pumpBody E fuel leftover total c) := by
  have hoffer : ∀ taken, E.chunk c.tick leftover = taken →
      Poised (if taken then .ticket else .refused) (offer E leftover c) := by
    intro taken htaken
    exact (h.call (by rw [htaken]; rfl)).next
  unfold pumpBody
  split
  · rename_i hrefused
    exact bodyTalk_answered (hoffer false hrefused.2) (fun _ => rfl) E fuel 400
  · rename_i hnot
    dsimp only
    split
    · rename_i hsome
      have htaken : E.chunk c.tick leftover = true := by
        cases hchunk : E.chunk c.tick leftover with
        | true => rfl
        | false => exact absurd ⟨hsome, hchunk⟩ hnot
      exact pumpLoop_talk E _ fuel _ _ (hoffer true htaken).next
    · exact pumpLoop_talk E _ fuel _ _ h.next

/-! ## The pumps -/

/-- Nothing is open; an answer that is due will not come, and none is parked. -/
def Squared (c : Conn H) : Prop :=
  Stands .idle c ∨ Stands .owing c ∧ c.cli.draining = false

/-- In order all along, and squared when the call is back. -/
def Squares {β : Type} (o : Option β × Conn H) : Prop :=
  Conforms o.2 ∧ (o.1 ≠ none → Squared o.2)

theorem Squares.unfinished {β : Type} (h : Conforms c) : Squares ((none : Option β), c) :=
  ⟨h, fun hnone => absurd rfl hnone⟩

theorem Squares.idle {β : Type} (h : Stands .idle c) (b : β) : Squares (some b, c) :=
  ⟨h.conforms, fun _ => .inl h⟩

theorem Squares.answered {β : Type} {o : Option Status × Conn H} (h : Stands .idle o.2)
    (f : Status → β) : Squares (andThen o fun rc d => (some (f rc), d)) := by
  obtain ⟨_ | rc, d⟩ := o
  · exact .unfinished h.conforms
  · exact .idle h (f rc)

/-- An answer that squares what there was to answer. -/
theorem Squares.error {t : Talk} {β : Type} (h : Poised t c)
    (hanswer : ∀ bs, appProtocol t (.respond bs) = some .idle) (E : Env) (fuel status : Nat)
    (f : Status → β) :
    Squares (andThen (responseWriterError E fuel status c) fun rc d => (some (f rc), d)) :=
  .answered (h.error hanswer E fuel status) f

theorem Squares.send {β : Type} (h : Poised .owing c) (E : Env) (fuel : Nat) (res : AppResponse)
    (f : Status → β) :
    Squares (andThen (responseWriterSend E fuel res c) fun rc d => (some (f rc), d)) := by
  rcases h.send (fun _ => rfl) E fuel res with hstands | hfailed
  · exact .answered hstands f
  · rw [hfailed]
    exact ⟨h.conforms, fun _ => .inr ⟨h.stands, h.free⟩⟩

/-- What becomes of the ticket squares it. -/
theorem settleTicket_squares {o : Option (PumpResult × Status) × Conn H} (E : Env) (fuel : Nat)
    (h : BodyTalk o) : Squares (andThen o (settleTicket E fuel)) := by
  obtain ⟨_ | ⟨v, rc⟩, d⟩ := o
  · exact .unfinished h.conforms
  · have habort : v ≠ .ok → Stands .idle (d.call .abort) := fun hv =>
      (h.lost v rc rfl hv).call rfl
    cases v with
    | ok => exact .send ((h.ok rc rfl).call rfl).next E fuel _ _
    | answered => exact .idle (habort (by simp)) _
    | gone => exact .idle (habort (by simp)) _

theorem ticketPump_squares (E : Env) (fuel : Nat) (req : AppRequest) (h : Poised .asked c) :
    Squares (ticketPump E fuel req c) := by
  unfold ticketPump
  split
  · exact .send (h.call (e := .begin false) rfl).next E fuel _ _
  · have hopen : Poised .ticket (c.call (.begin true)).next := (h.call rfl).next
    dsimp only
    split
    · exact .error (hopen.call (e := .abort) rfl) (fun _ => rfl) E fuel 500 _
    · split
      · exact .error (hopen.call (e := .abort) rfl) (fun _ => rfl) E fuel 500 _
      · exact settleTicket_squares E fuel (pumpBody_talk E fuel _ _ hopen)

/-! ## The archive -/

/-- An archive is open, and can be released. -/
def Releasable (c : Conn H) : Prop :=
  ∃ t, Stands t c ∧ appProtocol t .zipRelease = some .idle

theorem releasable_archive {i : Nat} (h : Stands (.archive i) c) : Releasable c := ⟨_, h, rfl⟩

/-- How a conversation stands behind a part of the stream, next at entry `i` if all went well. -/
structure BlobTalk {β : Type} (went : β → Option Nat) (o : Option β × Conn H) : Prop where
  conforms : Conforms o.2
  went : ∀ b i, o.1 = some b → went b = some i → Stands (.archive i) o.2
  back : o.1 ≠ none → Releasable o.2

theorem BlobTalk.unfinished {β : Type} {went : β → Option Nat} (h : Conforms c) :
    BlobTalk went (none, c) :=
  ⟨h, nofun, fun hnone => absurd rfl hnone⟩

theorem BlobTalk.of_stands {β : Type} {went : β → Option Nat} {o : Option β × Conn H} {i : Nat}
    (h : Stands (.archive i) o.2) (hwent : ∀ b j, went b = some j → j = i) : BlobTalk went o :=
  ⟨h.conforms, fun b j _ hj => by rw [hwent b j hj]; exact h, fun _ => releasable_archive h⟩

/-- One entry: its blob is closed on every way out. -/
theorem zipEntry_talk (E : Env) (fuel i : Nat) (e : ZipEntry) (h : Stands (.archive i) c) :
    BlobTalk (Option.map fun _ : BitVec 32 => i + 1) (zipEntry E fuel i e c) := by
  have hclose : ∀ d : Conn H, Stands (.blob i) d →
      Stands (.archive (i + 1)) (d.call (.zipClose i)) := fun d hd => hd.call (if_pos rfl)
  have hwent : ∀ (b : Option (BitVec 32)) j, b.map (fun _ => i + 1) = some j → j = i + 1 := by
    intro b j hj
    obtain ⟨_, _, rfl⟩ := Option.map_eq_some_iff.mp hj
    rfl
  unfold zipEntry
  split
  · have hbroken : Stands .broken (c.call (.zipOpen i false)).next := h.call (if_pos rfl)
    refine ⟨hbroken.conforms, ?_, fun _ => ⟨_, hbroken, rfl⟩⟩
    intro b j hb hj
    obtain rfl := Option.some.inj hb
    exact absurd hj (by simp)
  · have hopen : Stands (.blob i) (c.call (.zipOpen i true)).next := h.call (if_pos rfl)
    dsimp only
    obtain ⟨heads, hheads⟩ : ∃ heads, [(lh e.name.length
        (E.stack (c.call (.zipOpen i true)).next.tick)).slice 0 zipLH, e.name,
        (lx e.size (E.stack (c.call (.zipOpen i true)).next.tick)).slice 0 zipLX] = heads :=
      ⟨_, rfl⟩
    rw [hheads]
    have hwritten := hopen.same (writeEach_log E fuel heads _)
    generalize writeEach E fuel heads _ = o at hwritten
    obtain ⟨_ | rc, d⟩ := o
    · exact .unfinished hwritten.conforms
    cases rc with
    | failure => exact .of_stands (hclose d hwritten) hwent
    | success =>
        rw [andThen_some]
        dsimp only
        have hcopied := Stands.same hwritten
          (streamBlob_log (E := E) fuel e.blob e.size 0 d)
        generalize streamBlob E fuel e.blob e.size 0 d = o at hcopied
        obtain ⟨_ | out, d'⟩ := o
        · exact .unfinished hcopied.conforms
        cases out with
        | none => exact .of_stands (hclose d' hcopied) hwent
        | some crc =>
            rw [andThen_some]
            dsimp only
            have hlast := (hclose d' hcopied).same (writeAll_log (E := E) fuel
              ((dd crc e.size (E.stack (d'.call (.zipClose i)).tick)).slice 0 zipDD) _)
            generalize writeAll E fuel _ _ = o at hlast
            obtain ⟨_ | rc, d''⟩ := o
            · exact .unfinished hlast.conforms
            cases rc with
            | failure => exact .of_stands hlast hwent
            | success => exact .of_stands hlast hwent

/-- The first loop: entry after entry. -/
theorem zipEntries_talk (E : Env) (fuel : Nat) : ∀ (es : List ZipEntry) (i off : Nat)
    (results : List (BitVec 32 × Nat)) (c : Conn H), Stands (.archive i) c →
    BlobTalk (Option.map fun _ : List (BitVec 32 × Nat) => i + es.length)
      (zipEntries E fuel es i off results c)
  | [], i, _, _, c, h => .of_stands h fun b j hj => by
      obtain ⟨_, _, rfl⟩ := Option.map_eq_some_iff.mp hj
      rfl
  | e :: es, i, off, results, c, h => by
      have hentry := zipEntry_talk E fuel i e h
      rw [zipEntries]
      generalize zipEntry E fuel i e c = o at hentry
      obtain ⟨_ | out, d⟩ := o
      · exact .unfinished hentry.conforms
      cases out with
      | none =>
          refine ⟨hentry.conforms, ?_, fun _ => hentry.back (by simp)⟩
          intro b j hb hj
          obtain rfl := Option.some.inj hb
          exact absurd hj (by simp)
      | some crc =>
          have hnext := zipEntries_talk E fuel es (i + 1)
            (off + (zipLH + e.name.length + zipLX) + e.size + zipDD) (results ++ [(crc, off)]) d
            (hentry.went _ _ rfl rfl)
          rw [Nat.add_right_comm] at hnext
          exact hnext

/-- Everything behind the opening of the archive. -/
theorem zipStream_talk (E : Env) (fuel : Nat) (z : FolderZip) (h : Stands (.archive 0) c) :
    Conforms (zipStream E fuel z c).2 ∧
      ((zipStream E fuel z c).1 ≠ none → Releasable (zipStream E fuel z c).2) := by
  have hback : ∀ {β : Type} {o : Option β × Conn H} {i : Nat}, Stands (.archive i) o.2 →
      Conforms o.2 ∧ (o.1 ≠ none → Releasable o.2) := fun hd =>
    ⟨hd.conforms, fun _ => releasable_archive hd⟩
  simp only [zipStream]
  split
  · exact hback h
  · have hhead := h.same (writeAll_log (E := E) fuel (zipHead (zipTotal z.entries) z.archiveName) c)
    generalize writeAll E fuel _ c = o at hhead
    obtain ⟨_ | rc, d⟩ := o
    · exact ⟨hhead.conforms, fun hnone => absurd rfl hnone⟩
    cases rc with
    | failure => exact hback hhead
    | success =>
        rw [andThen_some]
        dsimp only
        have hentries := zipEntries_talk E fuel z.entries 0 0 [] d hhead
        generalize zipEntries E fuel z.entries 0 0 [] d = o at hentries
        obtain ⟨_ | out, d'⟩ := o
        · exact ⟨hentries.conforms, fun hnone => absurd rfl hnone⟩
        cases out with
        | none => exact ⟨hentries.conforms, fun _ => hentries.back (by simp)⟩
        | some results =>
            rw [andThen_some]
            dsimp only
            have hlog : (zipCentral E fuel (z.entries.zip results) d').2.log = d'.log :=
              zipCentral_log _ _
            have hcentral := (hentries.went _ _ rfl rfl).same hlog
            generalize zipCentral E fuel (z.entries.zip results) d' = o at hcentral
            obtain ⟨_ | rc, d''⟩ := o
            · exact ⟨hcentral.conforms, fun hnone => absurd rfl hnone⟩
            rw [andThen_some]
            cases rc with
            | failure => exact hback hcentral
            | success =>
                have htrailer : Stands (.archive (0 + z.entries.length))
                    (zipTrailer E fuel z.entries d'').2 := by
                  rw [zipTrailer]
                  exact hcentral.same (writeEach_log E fuel _ d'')
                exact hback htrailer

theorem clientFolderZipPump_squares {β : Type} (E : Env) (fuel : Nat) (req : AppRequest)
    (h : Poised .asked c) (f : Status → β) :
    Squares (andThen (clientFolderZipPump E fuel req c) fun rc d => (some (f rc), d)) := by
  unfold clientFolderZipPump
  split
  · exact .send (h.call (e := .zipBegin false) rfl).next E fuel _ f
  · rename_i z _
    have hopen : Stands (.archive 0) (c.call (.zipBegin true)).next := h.stands.call rfl
    obtain ⟨hconforms, hback⟩ := zipStream_talk E fuel z hopen
    generalize zipStream E fuel z _ = o at hconforms hback
    obtain ⟨_ | rc, d⟩ := o
    · exact .unfinished hconforms
    · obtain ⟨t, hstands, hrelease⟩ := hback (by simp)
      exact .idle (hstands.call hrelease) _

theorem clientUploadPumpToDrain_squares (E : Env) (fuel threadId : Nat) (req : Option HttpRequest)
    (h : Poised .idle c) : Squares (clientUploadPumpToDrain E fuel threadId req c) := by
  unfold clientUploadPumpToDrain
  split
  · exact .idle h.stands _
  · rename_i req
    have hasked : Poised .asked (c.call (.adapt req)) := h.call rfl
    dsimp only
    split
    · exact .error hasked (fun _ => rfl) E fuel 500 _
    · split
      · exact ticketPump_squares E fuel _ hasked.next
      · split
        · exact clientFolderZipPump_squares E fuel _ hasked.next _
        · exact ticketPump_squares E fuel _ hasked.next

/-! ## Handling -/

/-- How a call may end: everything squared, or an answer that will not come, and the client goes. -/
def Departs (rc : Status) (c : Conn H) : Prop :=
  Stands .idle c ∨ rc = .failure ∧ Stands .owing c

/-- In order all along, and so when the call is back. -/
def Talked (o : Option Status × Conn H) : Prop :=
  Conforms o.2 ∧ ∀ rc, o.1 = some rc → Departs rc o.2

theorem Talked.unfinished (h : Conforms c) : Talked (none, c) := ⟨h, nofun⟩

theorem Talked.of_idle {o : Option Status × Conn H} (h : Stands .idle o.2) : Talked o :=
  ⟨h.conforms, fun _ _ => .inl h⟩

theorem Squared.conforms (h : Squared c) : Conforms c :=
  h.elim (·.conforms) (·.1.conforms)

theorem Departs.conforms {rc : Status} (h : Departs rc c) : Conforms c :=
  h.elim (·.conforms) (·.2.conforms)

theorem Departs.talked {rc : Status} (h : Departs rc c) : Talked (some rc, c) := by
  refine ⟨h.conforms, ?_⟩
  intro rc' hrc
  obtain rfl := Option.some.inj hrc
  exact h

theorem Squared.departs (h : Squared c) : Departs (afterAnswer c).1 (afterAnswer c).2 := by
  unfold afterAnswer
  split
  · rename_i hparked
    refine h.imp id fun howing => ?_
    exact absurd (howing.2.symm.trans hparked) (by simp)
  · exact h.imp (·.same rfl) fun howing => ⟨rfl, howing.1.same rfl⟩

theorem srvRouterDispatch_talked (E : Env) (fuel : Nat) (h : Poised .idle c) :
    Talked (srvRouterDispatch E fuel c) := by
  have herror : ∀ {t : Talk} {d : Conn H} (status : Nat), Poised t d →
      (∀ bs, appProtocol t (.respond bs) = some .idle) →
      Talked (responseWriterError E fuel status d) := by
    intro t d status hd hanswer
    exact .of_idle (hd.error hanswer E fuel status)
  unfold srvRouterDispatch handlerDbApp
  split
  · exact .of_idle h.stands
  · split
    · exact herror 404 h fun _ => rfl
    · split
      · have hasked : Poised .asked (c.call (.adapt c.cli.httpRequest)) := h.call rfl
        dsimp only
        split
        · exact herror 500 hasked fun _ => rfl
        · rename_i req _
          have howing : Poised .owing ((c.call (.adapt c.cli.httpRequest)).call (.run req)).next :=
            (hasked.call rfl).next
          rcases howing.send (fun _ => rfl) E fuel _ with hstands | hfailed
          · exact .of_idle hstands
          · rw [hfailed]
            exact Departs.talked (.inr ⟨rfl, howing.stands⟩)
      · exact herror 404 h fun _ => rfl

theorem afterDispatch_log (rc : Status) (c : Conn H) : (afterDispatch rc c).2.log = c.log := by
  simp only [afterDispatch]
  split
  · rfl
  · split
    · rfl
    · split <;> rfl

theorem Departs.dispatched {rc : Status} (h : Departs rc c) :
    Departs (afterDispatch rc c).1 (afterDispatch rc c).2 := by
  rcases h with hidle | ⟨rfl, howing⟩
  · exact .inl (hidle.same (afterDispatch_log rc c))
  · exact .inr ⟨by simp [afterDispatch], howing.same (afterDispatch_log .failure c)⟩

/-- A call of `client_handle`, up to its drain. -/
structure ExitTalk (o : Option Exit × Conn H) : Prop where
  conforms : Conforms o.2
  returned : ∀ rc, o.1 = some (.returned rc) → Departs rc o.2
  atDrain : ∀ rc, o.1 = some (.atDrain rc) → Squared o.2

theorem ExitTalk.unfinished (h : Conforms c) : ExitTalk (none, c) := ⟨h, nofun, nofun⟩

theorem Squared.exit {rc : Status} (h : Squared c) : ExitTalk (some (.atDrain rc), c) :=
  ⟨h.conforms, nofun, fun _ _ => h⟩

theorem Departs.exit {rc : Status} (h : Departs rc c) : ExitTalk (some (.returned rc), c) := by
  refine ⟨h.conforms, ?_, nofun⟩
  intro rc' hrc
  obtain rfl := Exit.returned.inj (Option.some.inj hrc)
  exact h

theorem Squares.then_afterAnswer {β : Type} {o : Option β × Conn H} (h : Squares o) :
    ExitTalk (andThen o fun _ d => (some (.returned (afterAnswer d).1), (afterAnswer d).2)) := by
  obtain ⟨_ | b, d⟩ := o
  · exact .unfinished h.1
  · exact (h.2 (by simp)).departs.exit

/-- What is done with the parser's verdict on a client that owes nothing. -/
theorem afterParse_talk {status : HttpStatus} {req : Option HttpRequest} (h : Poised .idle c)
    {out : Option Exit × Conn H} (hparse : afterParse E fuel threadId status req c = some out) :
    ExitTalk out := by
  have hanswer : ∀ status, ExitTalk (andThen (responseWriterError E fuel status c) fun _ d =>
      (some (.returned (afterAnswer d).1), (afterAnswer d).2)) := by
    intro status
    have hstands := h.error (fun _ => rfl) E fuel status
    exact Squares.then_afterAnswer ⟨hstands.conforms, fun _ => .inl hstands⟩
  unfold afterParse at hparse
  split at hparse
  · obtain rfl := Option.some.inj hparse
    have hclosing : Poised .idle (closing c) := h.same rfl rfl rfl
    have hsquares := clientUploadPumpToDrain_squares E fuel threadId req hclosing
    generalize clientUploadPumpToDrain E fuel threadId req (closing c) = o at hsquares
    obtain ⟨_ | x, d⟩ := o
    · exact .unfinished hsquares.1
    cases x with
    | returned rc => exact (hsquares.2 (by simp)).departs.exit
    | atDrain rc => exact (hsquares.2 (by simp)).exit
  · obtain rfl := Option.some.inj hparse
    exact hanswer 413
  · obtain rfl := Option.some.inj hparse
    exact hanswer 400
  · obtain rfl := Option.some.inj hparse
    have hidle : Stands .idle c.reset := h.stands.same rfl
    exact Departs.exit (.inl hidle)
  · split at hparse
    · rename_i req hcomplete
      obtain rfl := Option.some.inj hparse
      have hstored : Poised .idle { c with cli := (clientStoreRequest c.cli req threadId).2 } := by
        refine h.same rfl ?_ ?_
        · simp only [clientStoreRequest, hcomplete]
          rfl
        · simp only [clientStoreRequest, hcomplete]
          rfl
      have htalked := srvRouterDispatch_talked E fuel hstored
      generalize srvRouterDispatch E fuel _ = o at htalked
      obtain ⟨_ | rc, d⟩ := o
      · exact .unfinished htalked.1
      · exact (htalked.2 rc rfl).dispatched.exit
    · exact absurd hparse (by simp)

theorem clientHandleToDrain_talk (E : Env) (threadId : Nat) : ∀ (fuel : Nat) (c : Conn H),
    Poised .idle c → ExitTalk (clientHandleToDrain E threadId fuel c)
  | 0, _, h => .unfinished h.conforms
  | fuel + 1, c, h => by
      have hsilent : ∀ {rc : Status} {d : Conn H}, d.log = c.log →
          ExitTalk (some (.returned rc), d) := fun hlog => Departs.exit (.inl (h.stands.same hlog))
      rw [clientHandleToDrain]
      split
      · exact hsilent rfl
      · split
        · exact hsilent rfl
        · split
          · rename_i p _ _ _ n _
            dsimp only
            have hread : Poised .idle (parserFed p (readRequest E n c)) := h.same rfl rfl rfl
            split
            · rename_i hparse
              exact afterParse_talk hread hparse
            · exact clientHandleToDrain_talk E threadId fuel _ hread
          · exact hsilent rfl
          · exact hsilent rfl
          · exact clientHandleToDrain_talk E threadId fuel _ h.next
          · exact hsilent rfl

/-- **`client_handle` keeps the protocol**, and leaves nothing open. -/
theorem clientHandle_talked (E : Env) (fuel threadId : Nat) (h : Stands .idle c)
    (hfree : c.cli.draining = false) : Talked (clientHandle E fuel threadId c) := by
  unfold clientHandle
  split
  · exact Departs.talked (.inl h)
  · rename_i hgoes
    rw [not_or, not_lt] at hgoes
    have htalk := clientHandleToDrain_talk E threadId fuel c ⟨h, hgoes.2, hfree⟩
    generalize clientHandleToDrain E threadId fuel c = o at htalk
    obtain ⟨_ | x, d⟩ := o
    · exact .unfinished htalk.conforms
    cases x with
    | returned rc => exact (htalk.returned rc rfl).talked
    | atDrain rc =>
        rw [andThen_some]
        dsimp only
        obtain ⟨hlog, hbeyond⟩ := drainRejectedBody_beyond E fuel d
        have hsquared : Squared (drainRejectedBody E fuel d).2 := by
          refine (htalk.atDrain rc rfl).imp (·.same hlog) fun howing => ⟨howing.1.same hlog, ?_⟩
          obtain ⟨b, hcli⟩ := hbeyond.cli
          rw [hcli]
          exact howing.2
        generalize drainRejectedBody E fuel d = o at hsquared
        obtain ⟨_ | _, e⟩ := o
        · exact .unfinished hsquared.conforms
        · exact hsquared.departs.talked

/-! ## Over a connection's life -/

/-- A slot between two instructions of its operator's thread: squared, or about to be given up. -/
def SlotTalk (code : List Instr) (c : Conn H) : Prop :=
  Stands .idle c ∨ code.head? = some (.removeByFd c.cli.ctx.fd) ∧ Stands .owing c

theorem clientCall_talked (h : Stands .idle c) : Talked (clientCall op a c) := by
  unfold clientCall
  split
  · exact .of_idle (h.same (responseWriterResume_log a.env a.fuel c))
  · rename_i hfree
    exact clientHandle_talked a.env a.fuel op.id h (Bool.eq_false_of_not_eq_true hfree)

theorem SlotChange.talk {i : Instr} {new code : List Instr} (hchange : SlotChange op i a new c d)
    (hbusy : d.cli.isBusy = true) (h : c.cli.isBusy = true → Stands .idle c) :
    SlotTalk (new ++ code) d := by
  cases hchange with
  | same => exact .inl (h hbusy)
  | parser => exact .inl (h hbusy)
  | aimed hfree => exact absurd (hbusy.symm.trans hfree) (by simp)
  | adopted _ => exact .inl rfl
  | handled hwas hcall =>
      have hdeparts := (clientCall_talked (h hwas)).2 .success (congrArg Prod.fst hcall)
      rw [hcall] at hdeparts
      exact .inl (hdeparts.resolve_right fun howing => absurd howing.1 (by simp))
  | failed hwas hcall hhead =>
      have hdeparts := (clientCall_talked (h hwas)).2 .failure (congrArg Prod.fst hcall)
      have hkept := clientCall_identity op a c
      rw [hcall] at hdeparts hkept
      refine hdeparts.imp id fun howing => ⟨?_, howing.2⟩
      rw [List.head?_append, hhead, ctx_of_identity hkept]
      rfl
  | shut hwas => exact absurd hbusy (by simp [shutSlot, clientShutdown, hwas])

/-- What every slot of an operator keeps, over any number of connections. -/
theorem slots_talk (h : (mailbox H).Reachable s) (hget : s.op.clients[idx]? = some c)
    (hbusy : c.cli.isBusy = true) : SlotTalk s.code c := by
  induction h generalizing c with
  | @init s hinit =>
      obtain ⟨hop, _⟩ := hinit
      have hc := List.mem_of_getElem? hget
      rw [hop.clients] at hc
      obtain rfl := List.eq_of_mem_replicate hc
      exact absurd hbusy (by simp [Conn.fresh, Client.zeroed])
  | @tail s t act hreach _ hstep ih =>
      cases act with
      | thread a =>
          obtain ⟨th, hth, rfl⟩ := Option.map_eq_some_iff.mp hstep
          obtain ⟨i, rest, op', new, hcode, hexec, rfl⟩ := Thread.step_eq_some.mp hth
          have hcode' : s.code = i :: rest := hcode
          obtain ⟨b, hb, hchange⟩ := exec_slots hexec hget
          by_cases hin : b.cli.isBusy = true → Stands .idle b
          · exact hchange.talk hbusy hin
          · -- the client's removal is what this step does
            obtain ⟨hwas, hnot⟩ := Classical.not_imp.mp hin
            obtain ⟨hhead, _⟩ := (ih hb hwas).resolve_left hnot
            rw [hcode'] at hhead
            obtain rfl := Option.some.inj hhead
            obtain rfl := removeByFd_shuts (sound_reachable hreach) hb hwas hexec hget
            exact absurd hbusy (by simp [shutSlot, clientShutdown, hwas])
      | _ =>
          cases mailbox_step hstep
          exact ih hget hbusy

/-- The rounds of a worker's loop. -/
theorem driveLoop_talk (E : Env) (threadId deadline : Nat) : ∀ (fuel : Nat)
    (verdicts : List Status) (c : Conn H), Unmanaged c → Stands .idle c →
    Conforms (driveLoop E threadId deadline fuel verdicts c).2 ∧
      ((driveLoop E threadId deadline fuel verdicts c).1 ≠ none →
        Stands .idle (driveLoop E threadId deadline fuel verdicts c).2 ∨
          Stands .owing (driveLoop E threadId deadline fuel verdicts c).2)
  | 0, _, _, _, h => ⟨h.conforms, fun hnone => absurd rfl hnone⟩
  | fuel + 1, verdicts, c, hun, h => by
      have hnext : Stands .idle c.next := h.same rfl
      rw [driveLoop]
      split
      · exact ⟨hnext.conforms, fun _ => .inl hnext⟩
      · split
        · exact ⟨hnext.conforms, fun _ => .inl hnext⟩
        · exact ⟨hnext.conforms, fun _ => .inl hnext⟩
        · exact driveLoop_talk E threadId deadline fuel verdicts _ ⟨hun.1, hun.2⟩ hnext
        · have hun' : Unmanaged c.next := ⟨hun.1, hun.2⟩
          have htalked := clientHandle_talked E fuel threadId hnext hun'.2
          cases hcall : clientHandle E fuel threadId c.next with
          | mk rc d =>
              rw [hcall] at htalked
              cases rc with
              | none => exact ⟨htalked.1, fun hnone => absurd rfl hnone⟩
              | some rc =>
                  have hdeparts := htalked.2 rc rfl
                  rw [andThen_some]
                  cases rc with
                  | failure => exact ⟨htalked.1, fun _ => hdeparts.imp id And.right⟩
                  | success =>
                      exact driveLoop_talk E threadId deadline fuel _ d
                        ((lasting_unmanaged E).clientHandle hun' hcall)
                        (hdeparts.resolve_right fun howing => absurd howing.1 (by simp))

/-! ## What is open -/

/-- The tickets that are open. -/
def tickets : Talk → Nat
  | .ticket | .refused | .givenUp => 1
  | _ => 0

/-- The archives that are open. -/
def archives : Talk → Nat
  | .archive _ | .blob _ | .broken => 1
  | _ => 0

/-- The blobs with that index that are open. -/
def blobs (idx : Nat) : Talk → Nat
  | .blob i => (i == idx).toNat
  | _ => 0

def opensTicket : Call → Bool
  | .begin opened => opened
  | _ => false

/-- A ticket is settled by a commit or an abort. -/
def settlesTicket : Call → Bool
  | .commit | .abort => true
  | _ => false

def opensArchive : Call → Bool
  | .zipBegin opened => opened
  | _ => false

def releasesArchive : Call → Bool
  | .zipRelease => true
  | _ => false

def opensBlob (idx : Nat) : Call → Bool
  | .zipOpen i opened => opened && i == idx
  | _ => false

def closesBlob (idx : Nat) : Call → Bool
  | .zipClose i => i == idx
  | _ => false

/-- Nothing that was opened is left open. -/
structure Cleared (log : List Call) : Prop where
  tickets : log.countP settlesTicket = log.countP opensTicket
  archives : log.countP releasesArchive = log.countP opensArchive
  blobs : ∀ idx, log.countP (closesBlob idx) = log.countP (opensBlob idx)

/-- Nothing is closed that is not open, and one ticket or archive at most is open. -/
structure Sparing (log : List Call) : Prop where
  tickets : log.countP settlesTicket ≤ log.countP opensTicket
  archives : log.countP releasesArchive ≤ log.countP opensArchive
  blobs : ∀ idx, log.countP (closesBlob idx) ≤ log.countP (opensBlob idx)
  single : log.countP opensTicket + log.countP opensArchive ≤
    log.countP settlesTicket + log.countP releasesArchive + 1

/-- In order and sparing, wherever it is cut. -/
def WellOrdered (log : List Call) : Prop :=
  ∀ l, l <+: log → (∃ t, appProtocol.after .idle l = some t) ∧ Sparing l

/-- Every call keeps the books. -/
theorem appProtocol_books {t u : Talk} {e : Call} (h : appProtocol t e = some u) :
    tickets u + (settlesTicket e).toNat = tickets t + (opensTicket e).toNat ∧
      archives u + (releasesArchive e).toNat = archives t + (opensArchive e).toNat ∧
      ∀ idx, blobs idx u + (closesBlob idx e).toNat = blobs idx t + (opensBlob idx e).toNat := by
  unfold appProtocol at h
  split at h
  -- an adapter's, a sink's and an archive's answer, then the blob that is opened and closed
  case h_5 opened | h_6 opened | h_8 opened =>
    obtain rfl := Option.some.inj h
    cases opened <;> exact ⟨rfl, rfl, fun _ => rfl⟩
  case h_15 opened =>
    obtain ⟨rfl, hu⟩ := Option.ite_none_right_eq_some.mp h
    obtain rfl := Option.some.inj hu
    cases opened with
    | false => exact ⟨rfl, rfl, fun _ => rfl⟩
    | true => exact ⟨rfl, rfl, fun _ => by simp [blobs, opensBlob, closesBlob]⟩
  case h_17 =>
    obtain ⟨rfl, hu⟩ := Option.ite_none_right_eq_some.mp h
    obtain rfl := Option.some.inj hu
    exact ⟨rfl, rfl, fun _ => by simp [blobs, opensBlob, closesBlob]⟩
  case h_19 => exact absurd h (by simp)
  all_goals
    obtain rfl := Option.some.inj h
    exact ⟨rfl, rfl, fun _ => rfl⟩

theorem tickets_after {t : Talk} {l : List Call} (h : appProtocol.after .idle l = some t) :
    tickets t + l.countP settlesTicket = l.countP opensTicket := by
  have hstep : ∀ t e u, appProtocol t e = some u →
      tickets u + (settlesTicket e).toNat = tickets t + (opensTicket e).toNat :=
    fun _ _ _ hcall => (appProtocol_books hcall).1
  exact (Protocol.after_balance hstep h).trans (Nat.zero_add _)

theorem archives_after {t : Talk} {l : List Call} (h : appProtocol.after .idle l = some t) :
    archives t + l.countP releasesArchive = l.countP opensArchive := by
  have hstep : ∀ t e u, appProtocol t e = some u →
      archives u + (releasesArchive e).toNat = archives t + (opensArchive e).toNat :=
    fun _ _ _ hcall => (appProtocol_books hcall).2.1
  exact (Protocol.after_balance hstep h).trans (Nat.zero_add _)

theorem blobs_after {t : Talk} {l : List Call} (h : appProtocol.after .idle l = some t)
    (idx : Nat) : blobs idx t + l.countP (closesBlob idx) = l.countP (opensBlob idx) := by
  have hstep : ∀ t e u, appProtocol t e = some u →
      blobs idx u + (closesBlob idx e).toNat = blobs idx t + (opensBlob idx e).toNat :=
    fun _ _ _ hcall => (appProtocol_books hcall).2.2 idx
  exact (Protocol.after_balance hstep h).trans (Nat.zero_add _)

/-- A log that follows the protocol is sparing: no state holds more than one thing. -/
theorem sparing_after {t : Talk} {l : List Call} (h : appProtocol.after .idle l = some t) :
    Sparing l := by
  have htickets := tickets_after h
  have harchives := archives_after h
  have hone : tickets t + archives t ≤ 1 := by cases t <;> simp [tickets, archives]
  refine ⟨by omega, by omega, fun idx => ?_, by omega⟩
  have hblobs := blobs_after h idx
  omega

theorem Conforms.wellOrdered (h : Conforms c) : WellOrdered c.log := by
  obtain ⟨t, ht⟩ := h
  intro l hl
  obtain ⟨t', ht'⟩ := Protocol.after_prefix ht hl
  exact ⟨⟨t', ht'⟩, sparing_after ht'⟩

/-- Between two requests nothing is open, nor where an answer is still due. -/
theorem cleared_of_rest (h : Stands .idle c ∨ Stands .owing c) : Cleared c.log := by
  rcases h with h | h
  all_goals
    refine ⟨?_, ?_, fun idx => ?_⟩
    · simpa [tickets] using tickets_after h
    · simpa [archives] using archives_after h
    · simpa [blobs] using blobs_after h idx

/--
**Every connection keeps the application's protocol.** The calls made on it, at whatever
moment one looks, come in the order `DB_app` may expect, no more is settled, released or
closed than is open, and one ticket or archive at most is; between two events, and where a
connection is given up, nothing is open. So for an operator's slots, over any number of
connections and whatever the next call into a client is answered, and for the connections
of the upload workers.
-/
theorem app_protocol_is_kept :
    (∀ {s : Mailbox H} {idx : Nat} {c : Conn H}, (mailbox H).Reachable s →
      s.op.clients[idx]? = some c → c.cli.isBusy = true →
      WellOrdered c.log ∧ Cleared c.log ∧
        (s.code.head? ≠ some (.removeByFd c.cli.ctx.fd) →
          ∀ a : Answers H, WellOrdered (clientCall s.op a c).2.log ∧
            ((clientCall s.op a c).1 ≠ none → Cleared (clientCall s.op a c).2.log))) ∧
    (∀ (E : Env) (threadId fuel : Nat) (fd : Int) (peer : Nat × Nat) (cli : Client H),
      WellOrdered (driveUpload E threadId fuel fd peer cli).2.log ∧
        ((driveUpload E threadId fuel fd peer cli).1 ≠ none →
          Cleared (driveUpload E threadId fuel fd peer cli).2.log)) := by
  refine ⟨fun {s idx c} h hget hbusy => ?_, fun E threadId fuel fd peer cli => ?_⟩
  · have htalk := slots_talk h hget hbusy
    have hrest : Stands .idle c ∨ Stands .owing c := htalk.imp id And.right
    refine ⟨(hrest.elim (·.conforms) (·.conforms)).wellOrdered, cleared_of_rest hrest, ?_⟩
    intro hstays a
    have hidle := htalk.resolve_right fun howing => hstays howing.1
    have htalked : Talked (clientCall s.op a c) := clientCall_talked hidle
    obtain ⟨hconforms, hback⟩ := htalked
    refine ⟨hconforms.wellOrdered, fun hdone => ?_⟩
    obtain ⟨rc, hrc⟩ := Option.ne_none_iff_exists'.mp hdone
    exact cleared_of_rest ((hback rc hrc).imp id And.right)
  · obtain ⟨hconforms, hback⟩ := driveLoop_talk E threadId
      (E.mono (adoptedFd E fd peer cli).tick + workerUploadMaxWallS * 1000) fuel []
      (adoptedFd E fd peer cli).next ⟨rfl, rfl⟩ rfl
    exact ⟨hconforms.wellOrdered, fun hdone => cleared_of_rest (hback hdone)⟩

/-- A refused request behind which the slot waits for the next, and a committed upload. -/
theorem app_protocol_is_kept_both :
    (∃ c : Conn DbHttp.small, c.log = [.respond (errorMessage 400)] ∧ Cleared c.log) ∧
    ∃ log : List Call, Call.begin true ∈ log ∧ Call.commit ∈ log ∧ WellOrdered log ∧
      Cleared log := by
  constructor
  · have hinit : (mailbox DbHttp.small).Reachable (Mailbox.small 1) :=
      .init ⟨operatorInit_small (by decide), rfl, rfl, rfl⟩
    obtain ⟨s, hs, hparked⟩ := hinit.exists_of_run
      (adoptFirst ++ [.thread (slowAnswers [firstEvent epollIn]), .thread (slowAnswers [])])
      (fun s => (s.op.clients[0]?).any fun c : Conn DbHttp.small => c.cli.isBusy &&
        decide (c.log = [.respond (errorMessage 400)])) (by decide +kernel)
    simp only [Option.any_eq_true, Bool.and_eq_true, decide_eq_true_eq] at hparked
    obtain ⟨c, hget, hbusy, hlog⟩ := hparked
    exact ⟨c, hlog, (app_protocol_is_kept.1 hs hget hbusy).2.1⟩
  · let E : Env := { Env.smooth { status := 200 } with read := fun _ => .data 0 }
    let cli : Client DbHttp.streaming :=
      { Client.zeroed DbHttp.streaming with ctx := ⟨-1, none, none⟩, httpParser := some () }
    obtain ⟨horder, hcleared⟩ := app_protocol_is_kept.2 E 0 20 7 (0, 0) cli
    exact ⟨_, by decide +kernel, by decide +kernel, horder, hcleared (by decide +kernel)⟩

/-! ## What becomes of a request -/

/-- The requests nothing has become of yet. -/
def pending : Talk → Nat
  | .idle | .givenUp => 0
  | _ => 1

def handsOver : Call → Bool
  | .adapt _ => true
  | _ => false

/-- A request is answered, its archive is through, or its peer has gone. -/
def dealsWith : Call → Bool
  | .respond _ | .zipRelease | .peerClosed => true
  | _ => false

/-- Nothing is handed over while an earlier request is pending. -/
def Attended (log : List Call) : Prop :=
  ∀ l req, l ++ [.adapt req] <+: log → l.countP handsOver ≤ l.countP dealsWith

/-- No call makes a request vanish. -/
theorem appProtocol_pending {t u : Talk} {e : Call} (h : appProtocol t e = some u) :
    pending t + (handsOver e).toNat ≤ pending u + (dealsWith e).toNat := by
  unfold appProtocol at h
  split at h
  case h_5 opened | h_6 opened | h_8 opened =>
    obtain rfl := Option.some.inj h
    cases opened <;> simp [pending, handsOver, dealsWith]
  case h_15 opened =>
    obtain ⟨rfl, hu⟩ := Option.ite_none_right_eq_some.mp h
    obtain rfl := Option.some.inj hu
    cases opened <;> exact Nat.le_refl 1
  case h_17 =>
    obtain ⟨rfl, hu⟩ := Option.ite_none_right_eq_some.mp h
    obtain rfl := Option.some.inj hu
    exact Nat.le_refl 1
  case h_19 => exact absurd h (by simp)
  all_goals
    obtain rfl := Option.some.inj h
    simp [pending, handsOver, dealsWith]

theorem pending_after {t : Talk} {l : List Call} (h : appProtocol.after .idle l = some t) :
    l.countP handsOver ≤ pending t + l.countP dealsWith := by
  have hbound := Protocol.after_bound (fun _ _ _ => appProtocol_pending) h
  exact (Nat.zero_add _).symm.trans_le hbound

/-- A request may only be handed over where none is pending. -/
theorem Conforms.attended (h : Conforms c) : Attended c.log := by
  obtain ⟨t, ht⟩ := h
  intro l req hl
  obtain ⟨u, hu⟩ := Protocol.after_prefix ht hl
  obtain ⟨v, hv, hcall⟩ := Option.bind_eq_some_iff.mp (Protocol.after_append.symm.trans hu)
  have hidle : v = .idle := by
    cases v with
    | idle => rfl
    | _ => exact absurd hcall (by simp [Protocol.after, appProtocol])
  exact (pending_after hv).trans_eq (by rw [hidle]; exact Nat.zero_add _)

theorem dealt_of_idle (h : Stands .idle c) : c.log.countP handsOver ≤ c.log.countP dealsWith :=
  (pending_after h).trans_eq (Nat.zero_add _)

/--
**No request is forgotten.** Before a connection hands the next one over, every earlier one
was answered, sent as an archive, or its peer had gone; and between two events, unless the
connection is being given up, nothing is pending.
-/
theorem no_request_is_forgotten :
    (∀ {s : Mailbox H} {idx : Nat} {c : Conn H}, (mailbox H).Reachable s →
      s.op.clients[idx]? = some c → c.cli.isBusy = true →
      Attended c.log ∧
        (s.code.head? ≠ some (.removeByFd c.cli.ctx.fd) →
          c.log.countP handsOver ≤ c.log.countP dealsWith ∧
          ∀ {a : Answers H} {rc : Option Status} {d : Conn H}, clientCall s.op a c = (rc, d) →
            Attended d.log ∧
              (rc = some .success → d.log.countP handsOver ≤ d.log.countP dealsWith))) ∧
    (∀ (E : Env) (threadId fuel : Nat) (fd : Int) (peer : Nat × Nat) (cli : Client H),
      Attended (driveUpload E threadId fuel fd peer cli).2.log) := by
  refine ⟨fun {s idx c} h hget hbusy => ?_, fun E threadId fuel fd peer cli => ?_⟩
  · have htalk := slots_talk h hget hbusy
    refine ⟨(htalk.elim (·.conforms) (·.2.conforms)).attended, ?_⟩
    intro hstays
    have hidle := htalk.resolve_right fun howing => hstays howing.1
    refine ⟨dealt_of_idle hidle, ?_⟩
    intro a rc d hcall
    have htalked : Talked (clientCall s.op a c) := clientCall_talked hidle
    rw [hcall] at htalked
    refine ⟨htalked.1.attended, ?_⟩
    intro hdone
    have hdeparts := htalked.2 .success hdone
    exact dealt_of_idle (hdeparts.resolve_right fun howing => absurd howing.1 (by simp))
  · obtain ⟨hconforms, _⟩ := driveLoop_talk E threadId
      (E.mono (adoptedFd E fd peer cli).tick + workerUploadMaxWallS * 1000) fuel []
      (adoptedFd E fd peer cli).next ⟨rfl, rfl⟩ rfl
    exact hconforms.attended

/-- An operator with one slot, whose parser sees a request in whatever it is given. -/
def keepingMailbox : Mailbox DbHttp.keeping :=
  ⟨operatorThread { Operator.small 1 with
    clients := [Conn.fresh (Client.zeroed DbHttp.keeping)] }, .idle, .notCalled⟩

/-- A step of its thread. -/
def keepingStep (batch : List Event) : MailboxAct DbHttp.keeping :=
  .thread { Answers.smooth batch 0 with parser := fun _ => some (), fuel := 8 }

/-- It serves its first request, and its client stays. -/
theorem no_request_is_forgotten_served : ∃ c : Conn DbHttp.keeping,
    c.log.countP handsOver = 1 ∧ c.log.countP handsOver ≤ c.log.countP dealsWith ∧
      Attended c.log := by
  have hop : OperatorInit (Operator.small 1) := operatorInit_small (by decide)
  have hinit : (mailbox DbHttp.keeping).Reachable keepingMailbox :=
    .init ⟨⟨rfl, hop.maxClients, rfl, rfl, rfl, rfl, rfl, ⟨rfl, rfl⟩, ⟨rfl, rfl⟩, hop.fds, rfl,
      rfl, rfl, rfl⟩, rfl, rfl, rfl⟩
  obtain ⟨s, hs, hserved⟩ := hinit.exists_of_run
    ([.push 7, .count, .write] ++ List.replicate 3 (keepingStep []) ++
      [keepingStep [wakeupEvent]] ++ List.replicate 12 (keepingStep []) ++
      [keepingStep [firstEvent epollIn], keepingStep []])
    (fun s => (s.op.clients[0]?).any fun c : Conn DbHttp.keeping => c.cli.isBusy &&
      c.log.countP handsOver == 1 && s.code.head? != some (.removeByFd c.cli.ctx.fd))
    (by decide +kernel)
  simp only [Option.any_eq_true, Bool.and_eq_true, beq_iff_eq, bne_iff_ne] at hserved
  obtain ⟨c, hget, ⟨hbusy, hone⟩, hstays⟩ := hserved
  obtain ⟨hattended, hdealt⟩ := no_request_is_forgotten.1 hs hget hbusy
  exact ⟨c, hone, (hdealt hstays).1, hattended⟩

end DBServer.Proof
