import DBServer.Lib.Responder
import DBServer.Proof.Message
import DBServer.Proof.Overheard
import DBServer.Proof.Parked

/-!
# Every connection is a sequential responder

What an operator does on one of its slots, over any number of connections and with
whatever the kernel, the peers and the application answer, is a run of `Responder.machine`:
calls into the application are made only while nothing is on its way out, what is written
are the answers in the order they were given, and an archive is the last thing a
connection gets. The relation between the two is `Orderly` between two events; from a
handler's failure to the removal that follows at once it is `Shadows`.

The one thing that can break it is the drain of a rejected upload, which may store into
the answer of the rejection; the runs are those in which it does not (`Spared`).
-/

namespace DBServer.Proof

open DBServer Lib Operator

variable {H : DbHttp} {E : Env} {c d d' : Conn H} {r r' : Responder Call UInt8} {rc : Status}
  {resp w : Bytes} {fuel threadId idx : Nat} {start : Start} {op op' : Operator H} {i : Instr}
  {new : List Instr} {a : Answers H} {s t : Mailbox H}

/-- What a call answers. -/
def spoken : Call → Option Bytes
  | .respond bs => some bs
  | _ => none

/-- One connection after another, in calls and bytes. -/
abbrev responder : Machine (Responder Call UInt8) (ResponderAct Call UInt8) :=
  Responder.machine spoken

/-- The same calls, and the same bytes on the wire. -/
structure Shadows (c : Conn H) (r : Responder Call UInt8) : Prop where
  log : r.log = c.log
  wire : r.wire = c.wire

/-- What is pending is what is left of the last answer. -/
def Owes (c : Conn H) (r : Responder Call UInt8) : Prop :=
  ∃ resp, lastResponse c.log = some resp ∧ r.pending = resp.drop c.cli.sendOff ∧
    c.cli.sendOff < resp.length

/-- A client between two calls of its handler. -/
structure Attends (c : Conn H) (r : Responder Call UInt8) : Prop extends Shadows c r where
  free : c.cli.draining = false → Idle c.cli ∧ r.Free
  parked : c.cli.draining = true → Owes c r
  /-- A responder that is closed is one whose client's answer is its last. -/
  parting : c.cli.draining = true → r.isOpen = true ∨ c.cli.connectionPolicy = H.close

/-! ## Sending -/

/-- What a send gets out is taken off what is pending. -/
theorem trySend_transmits (hs : Sending w resp c) (hwire : r.wire = c.wire)
    (hpending : r.pending = resp.drop c.cli.sendOff)
    (h : trySend E resp.length fuel c = (some rc, d)) :
    ∃ k, (r.transmit k).wire = d.wire ∧
      (d.cli.draining = true → (r.transmit k).pending = resp.drop d.cli.sendOff ∧
        d.cli.sendOff < resp.length) ∧
      (rc = .success → d.cli.draining = false → (r.transmit k).pending = []) ∧
      (d.cli.draining = false → Idle d.cli) := by
  obtain ⟨k, hk, htaken, hall⟩ := trySend_taken E resp.length fuel hs.off_le
  have hsent := trySend_cases E fuel hs
  rw [h] at htaken hall hsent
  have hpiece : c.cli.buf.slice c.cli.sendOff k = (resp.drop c.cli.sendOff).take k := by
    rw [← hs.tail, Buf.take_slice hk]
  have hrest : (r.transmit k).pending = resp.drop (c.cli.sendOff + k) := by
    show r.pending.drop k = _
    rw [hpending, List.drop_drop]
  have hout : d.wire = w ++ resp.take (c.cli.sendOff + k) := by
    show d.wire = _
    rw [List.take_add, ← List.append_assoc, ← hs.wire, ← hpiece]
    exact htaken
  refine ⟨k, ?_, fun hd => ?_, fun hrc hd => ?_, fun hd => ?_⟩
  · show r.wire ++ r.pending.take k = d.wire
    rw [hwire, hpending, ← hpiece]
    exact htaken.symm
  · -- a parked client's offset is how much of the response is out
    cases hsent with
    | parked hnow _ hlt =>
        have hlen := congrArg List.length (List.append_cancel_left (hnow.wire.symm.trans hout))
        simp only [List.length_take] at hlen
        exact ⟨by rw [hrest, show d.cli.sendOff = c.cli.sendOff + k by omega], hlt⟩
    | done hi => exact absurd (hi.draining.symm.trans hd) (by simp)
    | failed hi => exact absurd (hi.draining.symm.trans hd) (by simp)
  · have hoff := hs.off_le
    have hlast : k = resp.length - c.cli.sendOff := hall (congrArg some hrc) hd
    rw [hrest, List.drop_eq_nil_of_le (by omega)]
  · cases hsent with
    | parked _ hpark => exact absurd (hpark.symm.trans hd) (by simp)
    | done hi => exact hi
    | failed hi => exact hi

/-! ## Working, and one answer -/

/-- The client works for a responder that owes nothing, reached from `r`. -/
def Works (r : Responder Call UInt8) (c : Conn H) : Prop :=
  Idle c.cli ∧ ∃ r', responder.Steps r r' ∧ Shadows c r' ∧ r'.Free

/-- The only calls that answer are responses. -/
theorem spoken_eq_none {e : Call} (he : ∀ bs, e ≠ .respond bs) : spoken e = none := by
  cases e with
  | respond bs => exact absurd rfl (he bs)
  | _ => rfl

theorem Works.call {e : Call} (he : ∀ bs, e ≠ .respond bs) (h : Works r c) :
    Works r (c.call e) := by
  obtain ⟨hi, r', hrun, hshadow, hfree⟩ := h
  refine ⟨hi, r'.note spoken e, hrun.trans (Responder.steps_work hfree),
    ⟨congrArg (· ++ [e]) hshadow.log, hshadow.wire⟩, hfree.1, ?_⟩
  show (spoken e).getD [] = []
  rw [spoken_eq_none he]
  rfl

theorem working_works (E : Env) (r : Responder Call UInt8) :
    Working E fun c : Conn H => Works r c where
  next _ h := ⟨h.1, h.2.imp fun _ hr => ⟨hr.1, ⟨hr.2.1.log, hr.2.1.wire⟩, hr.2.2⟩⟩
  call _ _ he _ h := h.call he
  receive _ _ _ h := ⟨⟨h.1.draining, h.1.sendOff, h.1.sendLen⟩,
    h.2.imp fun _ hr => ⟨hr.1, ⟨hr.2.1.log, hr.2.1.wire⟩, hr.2.2⟩⟩
  parser _ _ h := ⟨⟨h.1.draining, h.1.sendOff, h.1.sendLen⟩,
    h.2.imp fun _ hr => ⟨hr.1, ⟨hr.2.1.log, hr.2.1.wire⟩, hr.2.2⟩⟩
  touched _ _ h := ⟨⟨h.1.draining, h.1.sendOff, h.1.sendLen⟩,
    h.2.imp fun _ hr => ⟨hr.1, ⟨hr.2.1.log, hr.2.1.wire⟩, hr.2.2⟩⟩
  client _ _ _ _ h := ⟨⟨h.1.draining, h.1.sendOff, h.1.sendLen⟩,
    h.2.imp fun _ hr => ⟨hr.1, ⟨hr.2.1.log, hr.2.1.wire⟩, hr.2.2⟩⟩

theorem works_policy (r : Responder Call UInt8) (c : Conn H) (p : Nat) (h : Works r c) :
    Works r { c with cli := { c.cli with connectionPolicy := p } } :=
  ⟨⟨h.1.draining, h.1.sendOff, h.1.sendLen⟩,
    h.2.imp fun _ hr => ⟨hr.1, ⟨hr.2.1.log, hr.2.1.wire⟩, hr.2.2⟩⟩

/-- **An answer becomes pending and goes out as far as it goes.** -/
theorem Works.answered (h : Works r c) (hcall : start.call E fuel c = (some rc, d)) :
    ∃ r', responder.Steps r r' ∧ Shadows d r' ∧ r'.isOpen = true ∧
      (d.cli.draining = true → Owes d r') ∧
      (rc = .success → d.cli.draining = false → r'.pending = []) ∧
      (d.cli.draining = false → Idle d.cli) := by
  obtain ⟨hi, r₁, hrun, hshadow, hfree⟩ := h
  rcases Start.split E start c with ⟨b, hl, hsplit⟩ | ⟨b, n, hfd, _, hl, hsplit⟩
  · rw [hsplit] at hcall
    obtain ⟨hrc, rfl⟩ := Prod.mk.inj hcall
    obtain rfl := Option.some.inj hrc
    refine ⟨r₁, hrun, ⟨hshadow.log.trans hl.log.symm, hshadow.wire.trans hl.wire.symm⟩, hfree.1,
      fun hd => ?_, fun hrc => absurd hrc (by simp), fun _ => hl.idle hi⟩
    exact absurd ((hl.idle hi).draining.symm.trans hd) (by simp)
  · rw [hsplit] at hcall
    have hs := startSend_sending n (by rw [hl.ctx]; exact hfd) (hl.idle hi)
    have hlen : (b.cli.buf.slice 0 n).length = n := Buf.length_slice
    rw [startSend] at hcall
    have hframe := trySend_frame E n fuel (started n b)
    rw [hcall] at hframe
    have hlog : d.log = c.log ++ [.respond (b.cli.buf.slice 0 n)] := by
      rw [hframe.log]
      exact congrArg (· ++ [_]) hl.log
    -- the response is noted, and then so much of it goes out
    generalize hbytes : b.cli.buf.slice 0 n = resp at hs hlen hlog
    have hwire : (r₁.note spoken (.respond resp)).wire = (started n b).wire :=
      hshadow.wire.trans hl.wire.symm
    obtain ⟨k, hout, hparked, hdone, hidle⟩ :=
      trySend_transmits (r := r₁.note spoken (.respond resp)) hs hwire rfl
        (by rw [hlen]; exact hcall)
    refine ⟨_, (hrun.trans (Responder.steps_work hfree)).trans (Responder.steps_transmit k),
      ⟨?_, hout⟩, hfree.1, fun hd => ⟨resp, ?_, hparked hd⟩, hdone, hidle⟩
    · show r₁.log ++ [.respond resp] = d.log
      rw [hlog, hshadow.log]
    · rw [hlog]
      exact lastResponse_respond _ _

/-! ## The ends of a call -/

/-- A call came to this: the responder went on from `r`, and if the client stays, it is followed. -/
def Led (r : Responder Call UInt8) (rc : Status) (d : Conn H) : Prop :=
  ∃ r', responder.Steps r r' ∧ Shadows d r' ∧ (rc = .success → Attends d r')

theorem Led.lost (h : ∃ r', responder.Steps r r' ∧ Shadows d r') : Led r .failure d :=
  h.imp fun _ hr => ⟨hr.1, hr.2, fun hrc => absurd hrc (by simp)⟩

/-- A client without an answer is given up. -/
theorem Works.lost (h : Works r c) : ∃ r', responder.Steps r r' ∧ Shadows c r' :=
  h.2.imp fun _ hr => ⟨hr.1, hr.2.1⟩

/-- Behind an answer there may only be an abort, and bytes nobody answers. -/
theorem Shadows.beyond (hb : Beyond d d') (h : Shadows d r) :
    ∃ r', responder.Steps r r' ∧ Shadows d' r' ∧ r'.pending = r.pending := by
  rcases hb.log with hlog | hlog
  · exact ⟨r, .refl, ⟨h.log.trans hlog.symm, h.wire.trans hb.wire.symm⟩, rfl⟩
  · refine ⟨{ r with log := r.log ++ [.abort], isOpen := false }, .one (a := .settle .abort) rfl,
      ⟨?_, h.wire.trans hb.wire.symm⟩, rfl⟩
    show r.log ++ [.abort] = d'.log
    rw [h.log, hlog]

theorem lastResponse_beyond (hb : Beyond d d') : lastResponse d'.log = lastResponse d.log := by
  rcases hb.log with hlog | hlog
  · rw [hlog]
  · rw [hlog]
    simp [lastResponse, List.filterMap_append]

/-- The last answer of a connection, whatever is still discarded behind it. -/
theorem Works.closed (h : Works r c) (hparting : Parting start c)
    (hcall : start.call E fuel c = (some rc, d)) (hb : Beyond d d') :
    Led r (afterAnswer d').1 (afterAnswer d').2 := by
  obtain ⟨r₁, hrun, hshadow, _, hparked, _, _⟩ := h.answered hcall
  obtain ⟨r₂, hrest, hshadow', hpending⟩ := hshadow.beyond hb
  obtain ⟨_, hcli⟩ := hb.cli
  unfold afterAnswer
  split
  · rename_i hd
    have hd₁ : d.cli.draining = true := by rw [hcli] at hd; exact hd
    obtain ⟨resp, hlast, hleft, hlt⟩ := hparked hd₁
    refine ⟨r₂, hrun.trans hrest, hshadow', fun _ => ⟨hshadow', fun hopen => ?_, fun _ => ?_, ?_⟩⟩
    · exact absurd (hd.symm.trans hopen) (by simp)
    · refine ⟨resp, (lastResponse_beyond hb).trans hlast, ?_, by rw [hcli]; exact hlt⟩
      rw [hpending, hleft, hcli]
    · exact fun hd' => .inr (hb.parted (Start.call_parted h.1.draining hparting hcall) hd')
  · exact Led.lost ⟨r₂, hrun.trans hrest, hshadow'.log, hshadow'.wire⟩

/-- A routed answer, behind which the connection may go on. -/
theorem Works.dispatched (h : Works r c) (hcall : start.call E fuel c = (some rc, d)) :
    Led r (afterDispatch rc d).1 (afterDispatch rc d).2 := by
  obtain ⟨r₁, hrun, hshadow, hopen, hparked, hdone, hidle⟩ := h.answered hcall
  have hlost : ∃ r', responder.Steps r r' ∧ Shadows d r' := ⟨r₁, hrun, hshadow⟩
  simp only [afterDispatch]
  split
  · exact Led.lost (hlost.imp fun _ hr => ⟨hr.1, hr.2.log, hr.2.wire⟩)
  · rename_i hrc
    have hrc' : rc = .success := not_not.mp hrc
    split
    · rename_i hd
      refine ⟨r₁, hrun, ⟨hshadow.log, hshadow.wire⟩, fun _ =>
        ⟨⟨hshadow.log, hshadow.wire⟩, fun hfree => ?_, fun _ => hparked hd, fun _ => .inl hopen⟩⟩
      exact absurd (hd.symm.trans hfree) (by simp)
    · rename_i hd
      split
      · exact Led.lost (hlost.imp fun _ hr => ⟨hr.1, hr.2.log, hr.2.wire⟩)
      · have hd' := Bool.eq_false_of_not_eq_true hd
        refine ⟨r₁, hrun, ⟨hshadow.log, hshadow.wire⟩, fun _ =>
          ⟨⟨hshadow.log, hshadow.wire⟩, fun _ => ⟨?_, hopen, hdone hrc' hd'⟩, fun hpark => ?_,
            fun _ => .inl hopen⟩⟩
        · have hi := hidle hd'
          exact ⟨hi.draining, hi.sendOff, hi.sendLen⟩
        · exact absurd hpark hd

/-- An archive: its bytes go out as one stream, and the calls for its entries wind it up. -/
theorem Works.streamed {z : FolderZip} (h : Works r c)
    (hs : zipStream E fuel z (c.call (.zipBegin true)).next = (some rc, d)) :
    Led r (afterAnswer (d.call .zipRelease)).1 (afterAnswer (d.call .zipRelease)).2 := by
  obtain ⟨hi, r₁, hrun, hshadow, hfree⟩ := h.call (e := .zipBegin true) (by simp)
  have hclosed : StreamClosed fun e : Conn H => e.cli.draining = false ∧
      ∃ es bs, e.log = r₁.log ++ es ∧ (∀ x ∈ es, spoken x = none) ∧ e.wire = r₁.wire ++ bs := by
    refine ⟨fun _ h => h, fun e bs h => ?_, fun _ _ h => h, fun e x hx h => ?_⟩
    · obtain ⟨hd, es, bs', hlog, hes, hwire⟩ := h
      exact ⟨hd, es, bs' ++ bs, hlog, hes, by rw [← List.append_assoc, ← hwire]⟩
    · obtain ⟨hd, es, bs, hlog, hes, hwire⟩ := h
      refine ⟨hd, es ++ [x], bs, ?_, ?_, hwire⟩
      · rw [← List.append_assoc, ← hlog]
        rfl
      · intro y hy
        rcases List.mem_append.mp hy with hy | hy
        · exact hes y hy
        · rw [List.mem_singleton.mp hy]
          exact spoken_eq_none hx
  have hend := hclosed.zipStream E fuel z (c.call (.zipBegin true)).next
    ⟨hi.draining, [], [], by rw [List.append_nil, hshadow.log]; rfl, by simp,
      by rw [List.append_nil, hshadow.wire]; rfl⟩
  rw [hs] at hend
  obtain ⟨hd, es, bs, hlog, hes, hwire⟩ := hclosed.call _ .zipRelease (by simp) hend
  rw [afterAnswer, if_neg (by simp [hd])]
  let sent : Responder Call UInt8 :=
    { r₁ with wire := r₁.wire ++ bs, streamed := bs, isOpen := false }
  have hsent : responder.Steps r sent := hrun.trans (.one (a := .stream bs) (if_pos hfree))
  exact Led.lost ⟨{ sent with log := sent.log ++ es, isOpen := false },
    hsent.trans (Responder.steps_settle es rfl hes), hlog.symm, hwire.symm⟩

/-! ## The buffer of a parked answer -/

/-- A write that is not seen to hit a parked answer leaves it as it is. -/
theorem Intact.spared {k : Nat} (h : Intact c) (hd : c.cli.draining = true)
    (hover : (c.receive E 0 k).overwrote = false) : Intact (c.receive E 0 k) := by
  obtain ⟨w, resp, hs, _, hpos⟩ := h.parked hd
  rcases Nat.lt_or_ge c.cli.sendOff k with hk | hk
  · have hlen : c.cli.sendLen = resp.length := by rw [hs.len, hd]; rfl
    exact absurd hover (by simp [Conn.receive, Conn.writeBuf, hd, hlen, hpos, hk])
  · exact h.receive hd hk

/-- What a round stores, it is seen to store. -/
theorem drainRound_overwrote (E : Env) (deadline drained : Nat)
    (h : (drainRound E deadline drained c).2.overwrote = false) : c.overwrote = false := by
  rcases drainRound_cases E deadline drained c with ⟨hround, _⟩ | hround <;> rw [hround] at h
  · exact h
  · exact (Bool.or_eq_false_iff.mp h).1

theorem drainLoop_overwrote (E : Env) (deadline : Nat) : ∀ (fuel drained : Nat) {c : Conn H},
    (drainLoop E deadline fuel drained c).2.overwrote = false → c.overwrote = false
  | 0, _, _, h => h
  | fuel + 1, drained, c, h => by
      have hround := drainRound_overwrote (c := c) E deadline drained
      rw [drainLoop] at h
      rcases hs : drainRound E deadline drained c with ⟨_ | k, d⟩ <;> rw [hs] at hround h
      · exact hround h
      · exact hround (drainLoop_overwrote E deadline fuel k h)

/-- Between two calls: a parked answer is whole, and otherwise nothing is parked. -/
structure Whole (c : Conn H) : Prop where
  intact : Intact c
  clear : c.cli.draining = false → Clear c

theorem Whole.next (h : Whole c) : Whole c.next :=
  ⟨h.intact.next, fun hd => (h.clear hd).next⟩

theorem drainLoop_whole (E : Env) (deadline : Nat) : ∀ (fuel drained : Nat) {c : Conn H},
    Whole c → (drainLoop E deadline fuel drained c).2.overwrote = false →
    Whole (drainLoop E deadline fuel drained c).2
  | 0, _, _, hc, _ => hc
  | fuel + 1, drained, c, hc, hover => by
      have hround : (drainRound E deadline drained c).2.overwrote = false →
          Whole (drainRound E deadline drained c).2 := by
        intro hsaved
        rcases drainRound_cases E deadline drained c with ⟨hr, _⟩ | hr <;> rw [hr] at hsaved ⊢
        · exact hc.next
        · have hkept : Whole (c.receive E 0 (discards E deadline drained c)) := by
            refine ⟨?_, fun hd => (hc.clear hd).receive 0 _⟩
            cases hd : c.cli.draining with
            | false => exact ((hc.clear hd).receive 0 _).intact
            | true => exact hc.intact.spared hd hsaved
          exact hkept.next
      rw [drainLoop] at hover ⊢
      rcases hs : drainRound E deadline drained c with ⟨_ | k, d⟩ <;> rw [hs] at hround <;>
        simp only [hs] at hover ⊢
      · exact hround hover
      · exact drainLoop_whole E deadline fuel k
          (hround (drainLoop_overwrote E deadline fuel k hover)) hover

/-- **A call that is not seen to damage a parked answer leaves it whole.** -/
theorem clientHandle_whole (hc : Clear c) (h : clientHandle E fuel threadId c = (some rc, d))
    (hover : d.overwrote = false) : Whole d := by
  unfold clientHandle at h
  split at h
  · obtain ⟨_, rfl⟩ := Prod.mk.inj h
    exact ⟨hc.intact, fun _ => hc⟩
  · obtain ⟨x, e, hloop, hrest⟩ := andThen_eq_some.mp h
    have hends := clientHandleToDrain_ends E threadId fuel hc
    rw [hloop] at hends
    have he : Whole e := ⟨hends.intact, hends.clear (by simp)⟩
    cases x with
    | returned rc' =>
        obtain ⟨_, rfl⟩ := Prod.mk.inj hrest
        exact he
    | atDrain rc' =>
        obtain ⟨_, b, hdrain, hlast⟩ := andThen_eq_some.mp hrest
        obtain ⟨_, rfl⟩ := Prod.mk.inj hlast
        have hkept : b.overwrote = false := by
          unfold afterAnswer at hover
          split at hover
          · exact hover
          · exact (Bool.or_eq_false_iff.mp hover).1
        have hb := drainLoop_whole E (E.mono e.tick + uploadRejectDrainMs) fuel 0 he.next
        rw [drainRejectedBody] at hdrain
        rw [hdrain] at hb
        have hafter := afterAnswer_ends (hb hkept).intact (hb hkept).clear
        exact ⟨hafter.1, hafter.2⟩

/-! ## Either handler -/

/-- **What `client_handle` does is a run of the responder.** -/
theorem clientHandle_led (hi : Idle c.cli) (hshadow : Shadows c r) (hfree : r.Free)
    (h : clientHandle E fuel threadId c = (some rc, d)) : Led r rc d := by
  have hhandled := (working_works E r).clientHandle (works_policy r) fuel threadId
    ⟨hi, r, .refl, hshadow, hfree⟩
  rw [h] at hhandled
  cases hhandled with
  | waiting hd =>
      obtain ⟨hi', r', hrun, hshadow', hfree'⟩ := hd
      refine ⟨r', hrun, hshadow', fun _ => ⟨hshadow', fun _ => ⟨hi', hfree'⟩, fun hpark => ?_,
        fun _ => .inl hfree'.1⟩⟩
      exact absurd (hi'.draining.symm.trans hpark) (by simp)
  | silent hd => exact .lost hd.lost
  | silentReset hd => exact .lost (hd.lost.imp fun _ hr => ⟨hr.1, hr.2.log, hr.2.wire⟩)
  | dispatched hd₀ _ hcall => exact hd₀.dispatched hcall
  | unanswered hd =>
      rw [afterAnswer, if_neg (by simp [hd.1.draining])]
      exact .lost (hd.lost.imp fun _ hr => ⟨hr.1, hr.2.log, hr.2.wire⟩)
  | answered hd₀ hparting hcall hb => exact hd₀.closed hparting hcall hb
  | streamed hd₀ hs => exact hd₀.streamed hs

/-- Resuming an answer sends what is left of it. -/
theorem resume_led (hd : c.cli.draining = true) (hc : Intact c) (hr : Attends c r)
    (h : responseWriterResume E fuel c = (some rc, d)) : Led r rc d := by
  obtain ⟨w, resp, hs, hlast, _⟩ := hc.parked hd
  obtain ⟨resp', hlast', hpending, _⟩ := hr.parked hd
  obtain rfl := Option.some.inj (hlast.symm.trans hlast')
  rw [resume_of_parked E fuel hs hd] at h
  obtain ⟨rc₁, e, hsend, hrest⟩ := andThen_eq_some.mp h
  have hframe := trySend_frame E resp.length fuel c
  rw [hsend] at hframe
  obtain ⟨k, hwire, hparked, hdone, hidle⟩ := trySend_transmits hs hr.wire hpending hsend
  have hrun : responder.Steps r (r.transmit k) := Responder.steps_transmit k
  have hshadow : Shadows e (r.transmit k) := ⟨hr.log.trans hframe.log.symm, hwire⟩
  have hparting : (r.transmit k).isOpen = true ∨ e.cli.connectionPolicy = H.close := by
    rw [hframe.policy]
    exact hr.parting hd
  cases rc₁ with
  | failure =>
      obtain ⟨hrc, rfl⟩ := Prod.mk.inj hrest
      obtain rfl := Option.some.inj hrc
      exact .lost ⟨_, hrun, hshadow⟩
  | success =>
      rw [resumeRest] at hrest
      split at hrest
      · rename_i hstill
        obtain ⟨_, rfl⟩ := Prod.mk.inj hrest
        refine ⟨_, hrun, hshadow, fun _ => ⟨hshadow, fun hopen => ?_, fun _ => ?_,
          fun _ => hparting⟩⟩
        · exact absurd (hstill.symm.trans hopen) (by simp)
        · exact ⟨resp, by rw [hframe.log]; exact hlast, hparked hstill⟩
      · rename_i hopen
        have hopen' := Bool.eq_false_of_not_eq_true hopen
        obtain ⟨hrc, rfl⟩ := Prod.mk.inj hrest
        obtain rfl := Option.some.inj hrc
        unfold resumeDone
        split
        · split
          · exact .lost ⟨_, hrun, hshadow.log, hshadow.wire⟩
          · rename_i hkeep
            have hfree : (r.transmit k).Free :=
              ⟨hparting.resolve_right hkeep, hdone rfl hopen'⟩
            refine ⟨_, hrun, ⟨hshadow.log, hshadow.wire⟩, fun _ => ⟨⟨hshadow.log, hshadow.wire⟩,
              fun _ => ⟨hidle hopen', hfree⟩, fun hpark => ?_, fun _ => .inl hfree.1⟩⟩
            exact absurd hpark hopen
        · exact .lost ⟨_, hrun, hshadow.log, hshadow.wire⟩

/-- A client between two events, its answer in order. -/
structure Orderly (c : Conn H) (r : Responder Call UInt8) : Prop where
  whole : Whole c
  attends : Attends c r

/-- **What an event does to a client is a run of its responder.** -/
theorem clientCall_led (h : Orderly c r) (hcall : clientCall op a c = (some rc, d)) :
    ∃ r', responder.Steps r r' ∧ Shadows d r' ∧
      (rc = .success → d.overwrote = false → Orderly d r') := by
  unfold clientCall at hcall
  split at hcall
  · rename_i hd
    obtain ⟨r', hrun, hshadow, hstays⟩ := resume_led hd h.whole.intact h.attends hcall
    have hends := responseWriterResume_ends a.env a.fuel h.whole.intact hd
    rw [hcall] at hends
    exact ⟨r', hrun, hshadow, fun hrc _ =>
      ⟨⟨hends.intact, hends.clear (by simp)⟩, hstays hrc⟩⟩
  · rename_i hd
    have hopen := Bool.eq_false_of_not_eq_true hd
    have hclear := h.whole.clear hopen
    obtain ⟨r', hrun, hshadow, hstays⟩ :=
      clientHandle_led hclear.idle h.attends.toShadows (h.attends.free hopen).2 hcall
    exact ⟨r', hrun, hshadow, fun hrc hover =>
      ⟨clientHandle_whole hclear hcall hover, hstays hrc⟩⟩

/-! ## What is on the wire -/

/-- The answers a client was given, one behind the other. -/
def said (c : Conn H) : Bytes := Responder.answers spoken c.log

/-- What the buffer holds of an answer that is on its way out. -/
def unsent (c : Conn H) : Bytes :=
  if c.cli.draining then c.cli.buf.slice c.cli.sendOff (c.cli.sendLen - c.cli.sendOff) else []

/-- The answers are all out, up to what the buffer holds. -/
theorem Orderly.wire (h : Orderly c r) (hr : responder.Reachable r) :
    c.wire ++ unsent c = said c := by
  have hfaithful := Responder.faithful_reachable hr
  unfold unsent
  split
  · rename_i hd
    obtain ⟨w, resp, hs, hlast, hpos⟩ := h.whole.intact.parked hd
    obtain ⟨resp', hlast', hpending, hlt⟩ := h.attends.parked hd
    obtain rfl := Option.some.inj (hlast.symm.trans hlast')
    have hlen : c.cli.sendLen = resp.length := by rw [hs.len, hd]; rfl
    -- bytes are still owed, so there was no stream
    have hplain : r.streamed = [] := by
      refine hfaithful.last.resolve_right fun hnone => ?_
      rw [hnone] at hpending
      have hleft := congrArg List.length hpending
      rw [List.length_drop, List.length_nil] at hleft
      omega
    rw [hlen, hs.tail, ← hpending, ← h.attends.wire, hfaithful.said, hplain, List.append_nil, said,
      h.attends.log]
  · rename_i hd
    obtain ⟨_, hfree⟩ := h.attends.free (Bool.eq_false_of_not_eq_true hd)
    rw [List.append_nil, ← h.attends.wire, hfaithful.wire_of_free hfree, said, h.attends.log]

/-! ## The slots of an operator -/

/-- A slot between two instructions of its operator's thread. -/
structure SlotShows (code : List Instr) (c : Conn H) (r : Responder Call UInt8) : Prop where
  busy : c.cli.isBusy = true →
    Orderly c r ∨ code.head? = some (.removeByFd c.cli.ctx.fd) ∧ Shadows c r
  idle : c.cli.isBusy = false → Idle c.cli ∧ r.isOpen = false

/-- A step that is not seen to damage a parked answer of slot `idx`. -/
def Spared (idx : Nat) (s : Mailbox H) (act : MailboxAct H) : Prop :=
  ∀ t ∈ (mailbox H).step s act, ∀ c ∈ t.op.clients[idx]?, c.overwrote = false

instance (idx : Nat) (s : Mailbox H) (act : MailboxAct H) : Decidable (Spared idx s act) :=
  inferInstanceAs (Decidable (∀ t ∈ (mailbox H).step s act, ∀ c ∈ t.op.clients[idx]?,
    c.overwrote = false))

/-- What slot `idx` of an operator shows of a responder. -/
def Shows (idx : Nat) (s : Mailbox H) (r : Responder Call UInt8) : Prop :=
  ∀ c, s.op.clients[idx]? = some c → SlotShows s.code c r

/-- A removed client's slot is free, and its connection over. -/
theorem slotShows_shut (code : List Instr) (hbusy : c.cli.isBusy = true) :
    SlotShows code (shutSlot c) { r with isOpen := false } := by
  refine ⟨fun h => absurd h (by simp [shutSlot]), fun _ => ⟨?_, rfl⟩⟩
  simp only [shutSlot, clientShutdown, if_pos hbusy]
  exact ⟨rfl, rfl, rfl⟩

/-- A slot's parser says nothing about its answers. -/
theorem Orderly.parser {p : Option H.Parser} (h : Orderly c r) :
    Orderly { c with cli := { c.cli with httpParser := p } } r := by
  have hclear : Clear c → Clear { c with cli := { c.cli with httpParser := p } } := fun hc =>
    ⟨hc.overwrote, hc.idle.draining, hc.idle.sendOff, hc.idle.sendLen⟩
  refine ⟨⟨⟨h.whole.intact.overwrote, fun hd => ?_⟩, fun hd => hclear (h.whole.clear hd)⟩,
    ⟨⟨h.attends.log, h.attends.wire⟩, fun hd => ?_, h.attends.parked, h.attends.parting⟩⟩
  · obtain ⟨w, resp, hs, hlast⟩ := h.whole.intact.parked hd
    exact ⟨w, resp, ⟨hs.fd, hs.off_le, hs.tail, hs.wire, hs.len, hs.managed⟩, hlast⟩
  · obtain ⟨hi, hfree⟩ := h.attends.free hd
    exact ⟨⟨hi.draining, hi.sendOff, hi.sendLen⟩, hfree⟩

/-- A connection just adopted is one nothing has happened on. -/
theorem orderly_adopted {peer : Nat × Nat} {now : Nat} {fd : Int} (hi : Idle c.cli) :
    Orderly (adopt peer now (op.aim fd c)) (Responder.opened Call UInt8) := by
  have hclear : Clear (adopt peer now (op.aim fd c)) :=
    ⟨rfl, hi.draining, hi.sendOff, hi.sendLen⟩
  refine ⟨⟨hclear.intact, fun _ => hclear⟩, ⟨⟨rfl, rfl⟩, fun _ => ⟨hclear.idle, rfl, rfl⟩,
    fun hd => ?_, fun _ => .inl rfl⟩⟩
  exact absurd (hclear.idle.draining.symm.trans hd) (by simp)

/-- **What a step does to a slot is a run of the slot's responder.** -/
theorem SlotChange.shows {code : List Instr} (hchange : SlotChange op i a new c d)
    (hover : d.overwrote = false) (h : c.cli.isBusy = true → Orderly c r)
    (hidle : c.cli.isBusy = false → Idle c.cli ∧ r.isOpen = false) :
    ∃ r', responder.Steps r r' ∧ SlotShows (new ++ code) d r' := by
  have hstill : ∀ {rc : Option Status}, c.cli.isBusy = true → clientCall op a c = (rc, d) →
      d.cli.isBusy = true ∧ d.cli.ctx = c.cli.ctx := by
    intro rc hbusy hcall
    have hkept := clientCall_identity op a c
    rw [hcall] at hkept
    exact ⟨(congrArg Prod.fst hkept).trans hbusy, ctx_of_identity hkept⟩
  cases hchange with
  | same => exact ⟨r, .refl, fun hbusy => .inl (h hbusy), hidle⟩
  | parser =>
      refine ⟨r, .refl, fun hbusy => .inl (h hbusy).parser, fun hfree => ?_⟩
      obtain ⟨hi, hclosed⟩ := hidle hfree
      exact ⟨⟨hi.draining, hi.sendOff, hi.sendLen⟩, hclosed⟩
  | aimed hfree =>
      obtain ⟨hi, hclosed⟩ := hidle hfree
      exact ⟨r, .refl, fun hbusy => absurd (hbusy.symm.trans hfree) (by simp),
        fun _ => ⟨⟨hi.draining, hi.sendOff, hi.sendLen⟩, hclosed⟩⟩
  | adopted hfree =>
      obtain ⟨hi, hclosed⟩ := hidle hfree
      refine ⟨Responder.opened Call UInt8, .one (a := .accept) (if_neg (by simp [hclosed])),
        fun _ => .inl (orderly_adopted hi), fun hnot => ?_⟩
      exact absurd hnot (by simp [adopt, Conn.fresh])
  | handled hbusy hcall =>
      obtain ⟨hbusy', _⟩ := hstill hbusy hcall
      obtain ⟨r', hrun, _, hfollows⟩ := clientCall_led (h hbusy) hcall
      exact ⟨r', hrun, fun _ => .inl (hfollows rfl hover),
        fun hfree => absurd (hbusy'.symm.trans hfree) (by simp)⟩
  | failed hbusy hcall hhead =>
      obtain ⟨hbusy', hctx⟩ := hstill hbusy hcall
      obtain ⟨r', hrun, hshadow, _⟩ := clientCall_led (h hbusy) hcall
      refine ⟨r', hrun, fun _ => .inr ⟨?_, hshadow⟩,
        fun hfree => absurd (hbusy'.symm.trans hfree) (by simp)⟩
      rw [List.head?_append, hhead, hctx]
      rfl
  | shut hbusy =>
      exact ⟨_, Responder.steps_close, slotShows_shut _ hbusy⟩

/-- **Every slot of an operator is a sequential responder**, over any number of connections. -/
theorem slot_simulates_responder (idx : Nat) :
    Machine.Simulates (mailbox H) (Spared idx) responder (Shows idx) := by
  constructor
  · rintro s ⟨hop, _⟩
    refine ⟨Responder.blank Call UInt8, rfl, fun c hget => ?_⟩
    have hc := List.mem_of_getElem? hget
    rw [hop.clients] at hc
    obtain rfl := List.eq_of_mem_replicate hc
    exact ⟨fun hbusy => absurd hbusy (by simp [Conn.fresh, Client.zeroed]),
      fun _ => ⟨⟨rfl, rfl, rfl⟩, rfl⟩⟩
  · intro s act t r hs hshows hspared hstep
    cases act with
    | thread a =>
        obtain ⟨th, hth, hst⟩ := Option.map_eq_some_iff.mp hstep
        obtain ⟨i, rest, op', new, hcode, hexec, rfl⟩ := Thread.step_eq_some.mp hth
        have hcode' : s.code = i :: rest := hcode
        cases hget' : op'.clients[idx]? with
        | none =>
            refine ⟨r, .refl, fun c hc => ?_⟩
            rw [← hst] at hc
            exact absurd (hget'.symm.trans hc) (by simp)
        | some d =>
            have hover : d.overwrote = false := hspared t hstep d (by rw [← hst]; exact hget')
            obtain ⟨c, hget, hchange⟩ := exec_slots hexec hget'
            have hslot : SlotShows s.code c r := hshows c hget
            -- it is enough to say what the slot shows now
            suffices hsome : ∃ r', responder.Steps r r' ∧ SlotShows (new ++ rest) d r' by
              obtain ⟨r', hrun, hnow⟩ := hsome
              refine ⟨r', hrun, fun e he => ?_⟩
              rw [← hst] at he ⊢
              obtain rfl := Option.some.inj (hget'.symm.trans he)
              exact hnow
            by_cases hin : c.cli.isBusy = true → Orderly c r
            · exact hchange.shows hover hin hslot.idle
            · -- the client's removal is what this step does
              obtain ⟨hbusy, hnot⟩ := Classical.not_imp.mp hin
              obtain ⟨hhead, _⟩ := (hslot.busy hbusy).resolve_left hnot
              rw [hcode'] at hhead
              obtain rfl := Option.some.inj hhead
              obtain rfl := removeByFd_shuts (sound_reachable hs.reachable) hget hbusy hexec hget'
              exact ⟨_, Responder.steps_close, slotShows_shut _ hbusy⟩
    | _ =>
        cases mailbox_step hstep
        exact ⟨r, .refl, hshows⟩

/-! ## The bytes of a connection -/

/-- What the peer was sent: `leaving` if the client is about to be removed. -/
structure Written (leaving : Prop) (c : Conn H) : Prop where
  whole : ¬leaving → c.wire ++ unsent c = said c
  cut : c.wire <+: said c ∨ said c <+: c.wire

theorem Shadows.cut (h : Shadows c r) (hr : responder.Reachable r) :
    c.wire <+: said c ∨ said c <+: c.wire := by
  have hwire := (Responder.faithful_reachable hr).wire
  rwa [h.wire, h.log] at hwire

/-- A slot, in every run. -/
theorem slot_written (h : (mailbox H).ReachableBy (Spared idx) s)
    (hget : s.op.clients[idx]? = some c) (hbusy : c.cli.isBusy = true) :
    Written (s.code.head? = some (.removeByFd c.cli.ctx.fd)) c := by
  obtain ⟨r, hr, hshows⟩ := (slot_simulates_responder idx).reachable h
  rcases (hshows c hget).busy hbusy with hin | ⟨hhead, hshadow⟩
  · exact ⟨fun _ => hin.wire hr, hin.attends.toShadows.cut hr⟩
  · exact ⟨fun hnot => absurd hhead hnot, hshadow.cut hr⟩

theorem responseWriterResume_log (E : Env) (fuel : Nat) (c : Conn H) :
    (responseWriterResume E fuel c).2.log = c.log := by
  unfold responseWriterResume
  split
  · rfl
  · refine andThen_unchanged (trySend_frame E _ fuel c).log fun rc d => ?_
    cases rc with
    | failure => rfl
    | success =>
        rw [resumeRest]
        split
        · rfl
        · unfold resumeDone
          split <;> rfl

/-- A handler that makes a call has nothing on its way out. -/
theorem clientCall_in_turn {o : Option Status} (h : Orderly c r) (hr : responder.Reachable r)
    (hcall : clientCall op a c = (o, d)) (hlog : d.log ≠ c.log) : c.wire = said c := by
  unfold clientCall at hcall
  split at hcall
  · have hsame := responseWriterResume_log a.env a.fuel c
    rw [hcall] at hsame
    exact absurd hsame hlog
  · rename_i hd
    have hwhole := h.wire hr
    rwa [unsent, if_neg hd, List.append_nil] at hwhole

/-- Whatever a step does for a client, it does with all earlier answers out. -/
theorem slot_in_turn {act : MailboxAct H} (h : (mailbox H).ReachableBy (Spared idx) s)
    (hget : s.op.clients[idx]? = some c) (hbusy : c.cli.isBusy = true)
    (hstep : (mailbox H).step s act = some t) (hget' : t.op.clients[idx]? = some d)
    (hbusy' : d.cli.isBusy = true) (hlog : d.log ≠ c.log) : c.wire = said c := by
  obtain ⟨r, hr, hshows⟩ := (slot_simulates_responder idx).reachable h
  cases act with
  | thread a =>
      obtain ⟨th, hth, rfl⟩ := Option.map_eq_some_iff.mp hstep
      obtain ⟨i, rest, op', new, hcode, hexec, rfl⟩ := Thread.step_eq_some.mp hth
      have hcode' : s.code = i :: rest := hcode
      obtain ⟨b, hb, hchange⟩ := exec_slots hexec hget'
      obtain rfl := Option.some.inj (hget.symm.trans hb)
      rcases (hshows c hget).busy hbusy with hin | ⟨hhead, _⟩
      · cases hchange with
        | same => exact absurd rfl hlog
        | parser => exact absurd rfl hlog
        | aimed hfree => exact absurd (hbusy.symm.trans hfree) (by simp)
        | adopted hfree => exact absurd (hbusy.symm.trans hfree) (by simp)
        | handled _ hcall => exact clientCall_in_turn hin hr hcall hlog
        | failed _ hcall _ => exact clientCall_in_turn hin hr hcall hlog
        | shut => exact absurd rfl hlog
      · -- a client about to be removed is removed
        rw [hcode'] at hhead
        obtain rfl := Option.some.inj hhead
        obtain rfl := removeByFd_shuts (sound_reachable h.reachable) hget hbusy hexec hget'
        exact absurd rfl hlog
  | _ =>
      cases mailbox_step hstep
      obtain rfl := Option.some.inj (hget.symm.trans hget')
      exact absurd rfl hlog

/-- A worker's client is never parked, so it works for its responder in every round. -/
theorem Driven.works {fd : Int} {peer : Nat × Nat} {cli : Client H} {bs : Bytes}
    (h : Driven E threadId (adoptedFd E fd peer cli) bs c) :
    Unmanaged c ∧ Works (Responder.opened Call UInt8) c := by
  induction h with
  | start =>
      exact ⟨⟨rfl, rfl⟩, ⟨rfl, rfl, rfl⟩, Responder.opened Call UInt8, .refl, ⟨rfl, rfl⟩,
        rfl, rfl⟩
  | waited _ ih =>
      exact ⟨ih.1, (working_works E _).next _ ih.2⟩
  | handled _ hcall ih =>
      obtain ⟨hun, hi, r₁, hrun, hshadow, hfree⟩ := ih
      have hun' := (lasting_unmanaged E).clientHandle hun hcall
      obtain ⟨r₂, hrest, hshadow', hstays⟩ := clientHandle_led hi hshadow hfree hcall
      obtain ⟨hi', hfree'⟩ := (hstays rfl).free hun'.2
      exact ⟨hun', hi', r₂, hrun.trans hrest, hshadow', hfree'⟩

theorem responder_opened : responder.Reachable (Responder.opened Call UInt8) :=
  .tail (a := .accept) (.init rfl) trivial rfl

/-- In every round of a worker's loop everything answered is out. -/
theorem Driven.written {fd : Int} {peer : Nat × Nat} {cli : Client H} {bs : Bytes}
    (h : Driven E threadId (adoptedFd E fd peer cli) bs c) : c.wire = said c := by
  obtain ⟨_, _, r', hrun, hshadow, hfree⟩ := h.works
  have hall := (Responder.faithful_reachable (responder_opened.steps hrun)).wire_of_free hfree
  rwa [hshadow.wire, hshadow.log] at hall

/--
**Every connection refines a sequential responder.** On an operator's slot, over any number
of connections, for as long as nothing is written over a parked answer; and a connection of an
upload worker, in every round of the worker's loop and behind whatever call the loop makes next.
-/
theorem connections_refine_responder :
    (∀ idx : Nat, Machine.Simulates (mailbox H) (Spared idx) responder (Shows idx)) ∧
    (∀ {E : Env} {threadId : Nat} {fd : Int} {peer : Nat × Nat} {cli : Client H} {bs : Bytes}
      {c : Conn H}, Driven E threadId (adoptedFd E fd peer cli) bs c →
      ∃ r, responder.Reachable r ∧ Shadows c r ∧ r.Free ∧
        ∀ {fuel : Nat} {rc : Status} {d : Conn H}, clientHandle E fuel threadId c = (some rc, d) →
          Led r rc d) := by
  refine ⟨slot_simulates_responder, fun h => ?_⟩
  obtain ⟨_, hi, r, hrun, hshadow, hfree⟩ := h.works
  exact ⟨r, responder_opened.steps hrun, hshadow, hfree,
    fun hcall => clientHandle_led hi hshadow hfree hcall⟩

/-- A worker's first connection, refused by the parser: its responder has answered once. -/
theorem connections_refine_responder_refused : ∃ (c : Conn DbHttp.small)
    (r : Responder Call UInt8), responder.Reachable r ∧ Shadows c r ∧
      r.log = [.respond (errorMessage 400)] ∧ r.wire = errorMessage 400 := by
  let E := Env.smooth { status := 200 }
  let c : Conn DbHttp.small := adoptedFd E 7 (0, 0)
    { Client.zeroed DbHttp.small with ctx := ⟨-1, none, none⟩, httpParser := some () }
  have hcall : clientHandle E 4 0 c = (some .failure, (clientHandle E 4 0 c).2) :=
    Prod.fst_eq_iff.mp (by decide +kernel)
  have hstart : Driven E 0 c [] c := .start
  obtain ⟨r, hr, _, _, hled⟩ := connections_refine_responder.2 hstart
  obtain ⟨r', hrun, hshadow, _⟩ := hled hcall
  exact ⟨_, r', hr.steps hrun, hshadow, hshadow.log.trans (by decide +kernel),
    hshadow.wire.trans (by decide +kernel)⟩

/--
**The answers go out whole and in order**, on every connection of an upload worker, and of an
operator for as long as nothing is written over a parked answer. Between two events everything
answered so far is on the wire or in the buffer; a call into the application finds all of it on
the wire. A connection that ends may lack the rest of its last answer, or have a stream behind all
of them.
-/
theorem answers_go_out_in_order :
    (∀ {idx : Nat} {s : Mailbox H} {c : Conn H}, (mailbox H).ReachableBy (Spared idx) s →
      s.op.clients[idx]? = some c → c.cli.isBusy = true →
      Written (s.code.head? = some (.removeByFd c.cli.ctx.fd)) c ∧
        ∀ {act : MailboxAct H} {t : Mailbox H} {d : Conn H}, (mailbox H).step s act = some t →
          t.op.clients[idx]? = some d → d.cli.isBusy = true → d.log ≠ c.log → c.wire = said c) ∧
    (∀ {E : Env} {threadId : Nat} {fd : Int} {peer : Nat × Nat} {cli : Client H} {bs : Bytes}
      {c d : Conn H} {fuel : Nat} {rc : Status},
      Driven E threadId (adoptedFd E fd peer cli) bs c →
      clientHandle E fuel threadId c = (some rc, d) →
      c.wire = said c ∧ Written (rc = .failure) d) := by
  refine ⟨fun h hget hbusy => ⟨slot_written h hget hbusy, fun hstep hget' hbusy' hlog =>
    slot_in_turn h hget hbusy hstep hget' hbusy' hlog⟩, fun {E _ _ _ _ _ _ _ _ rc} h hcall => ?_⟩
  obtain ⟨hun, hi, r', hrun, hshadow, hfree⟩ := h.works
  obtain ⟨r₂, hrest, hshadow', hstays⟩ := clientHandle_led hi hshadow hfree hcall
  have hr := (responder_opened.steps hrun).steps hrest
  refine ⟨h.written, fun hrc => ?_, hshadow'.cut hr⟩
  have hdone : rc = .success := by
    cases rc with
    | success => rfl
    | failure => exact absurd rfl hrc
  have hopen := ((lasting_unmanaged E).clientHandle hun (hdone ▸ hcall)).2
  have hall := (Responder.faithful_reachable hr).wire_of_free ((hstays hdone).free hopen).2
  rw [unsent, if_neg (by simp [hopen]), List.append_nil, ← hshadow'.wire, hall, hshadow'.log]
  rfl

/-- A refused request whose answer is parked behind its first ten bytes. -/
theorem answers_go_out_in_order_parked : ∃ c : Conn DbHttp.small,
    c.wire = (errorMessage 400).take 10 ∧ c.wire ++ unsent c = errorMessage 400 := by
  have hinit : (mailbox DbHttp.small).ReachableBy (Spared 0) (Mailbox.small 1) :=
    .init ⟨operatorInit_small (by decide), rfl, rfl, rfl⟩
  obtain ⟨s, hs, hparked⟩ := hinit.exists_of_run
    (adoptFirst ++ [.thread (slowAnswers [firstEvent epollIn]), .thread (slowAnswers [])])
    (fun s => (s.op.clients[0]?).any fun c => c.cli.isBusy && c.cli.draining &&
      c.wire == (errorMessage 400).take 10 && said c == errorMessage 400 &&
        s.code.head? != some (.removeByFd c.cli.ctx.fd)) (by decide +kernel)
  simp only [Option.any_eq_true, Bool.and_eq_true, beq_iff_eq, bne_iff_ne] at hparked
  obtain ⟨c, hget, ⟨⟨⟨hbusy, _⟩, hwire⟩, hsaid⟩, hstays⟩ := hparked
  have hwritten := (answers_go_out_in_order.1 hs hget hbusy).1
  exact ⟨c, hwire, (hwritten.whole hstays).trans hsaid⟩

end DBServer.Proof
