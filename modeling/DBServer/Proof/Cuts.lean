import DBServer.Proof.Abreast
import DBServer.Proof.Overheard
import DBServer.Proof.Upload

/-!
# However a message is cut

A message comes in as the socket hands it over: cut into reads, and the reads into readiness
events. What has been heard of it determines the client but for the clocks (`hearing`), as long
as the parser only asks for more, and an incremental parser that is given the last piece answers
what it would have answered to the whole. So the read that brings the end of the message finds
the same client with the same verdict, wherever the cuts before it were.
-/

namespace DBServer.Proof

open DBServer Lib

variable {H : DbHttp} {E E' : Env} {p p₀ q : H.Parser} {bs rest m head body : Bytes}
  {c c₀ c' d e : Conn H} {fuel threadId n : Nat}

/-! ## An incremental parser -/

/-- Feeding consecutive pieces equals feeding them at once, from `p` on. -/
structure Incremental (p : H.Parser) : Prop where
  /-- The parser looks at the bytes it is given. -/
  reads : ∀ (buf buf' : Buf) (k : Nat), buf.slice 0 k = buf'.slice 0 k →
    H.exec p buf k = H.exec p buf' k
  pieces : ∀ (buf : Buf) (j k : Nat), 0 < j → 0 < k → GoesOn (H.exec p buf j) →
    H.exec (H.exec p buf j).2.2 buf k = H.exec p buf (j + k)

/-- A buffer that holds `m`. -/
def holding (m : Bytes) : Buf := Buf.zero.write 0 m

theorem slice_holding {k : Nat} (h : k ≤ m.length) : (holding m).slice 0 k = m.take k := by
  have hall : (holding m).slice 0 m.length = m := Buf.slice_write_self rfl
  rw [← Buf.take_slice h, hall]

/-- **The last piece is answered as the whole would have been.** -/
theorem Fed.exec (hp : Incremental p) (h : Fed p q bs) {buf : Buf} {k : Nat}
    (hbuf : buf.slice 0 bs.length = bs) (hk : 0 < k) :
    H.exec q buf k = H.exec p buf (bs.length + k) := by
  induction h generalizing buf k with
  | start => rw [List.length_nil, Nat.zero_add]
  | @more q bs buf' j _ hfront hj hgo ih =>
      rw [Buf.length_slice] at hbuf ⊢
      -- the pieces so far were answered as one, in whatever buffer they stood
      have hwhole : H.exec q buf' j = H.exec p buf (bs.length + j) :=
        (ih hfront hj).trans (hp.reads _ _ _ hbuf.symm)
      rw [hwhole] at hgo ⊢
      exact hp.pieces buf _ k (by omega) hk hgo

/-- What the parser has been given so far did not decide anything. -/
theorem Fed.goesOn (hp : Incremental p) (h : Fed p q bs) (hne : bs ≠ []) :
    GoesOn (H.exec p (holding bs) bs.length) := by
  cases h with
  | start => exact absurd rfl hne
  | @more q bs buf k h hfront hk hgo =>
      have hwhole := (h.exec hp hfront hk).symm
      have hsame : (holding (buf.slice 0 (bs.length + k))).slice 0 (bs.length + k) =
          buf.slice 0 (bs.length + k) := by
        rw [slice_holding (by rw [Buf.length_slice]), List.take_of_length_le (by simp)]
      rw [Buf.length_slice, hp.reads _ buf _ hsame, hwhole]
      exact hgo

/-! ## A client in the middle of a message -/

/-- A client at a message boundary: nothing has been read of the next message. -/
structure Boundary (p : H.Parser) (c : Conn H) : Prop where
  fd : 0 ≤ c.cli.ctx.fd
  draining : c.cli.draining = false
  lockstep : Lockstep p c []

/-- The client that has heard `bs` since `c₀`; the clocks and the parser tell the rest. -/
def hearing (c₀ : Conn H) (bs : Bytes) (now : Nat) (q : H.Parser) (tick : Nat) : Conn H :=
  { c₀ with
    cli := { c₀.cli with
      buf := c₀.cli.buf.write 0 bs
      bufIdx := bs.length
      lastActivity := now
      httpParser := some q }
    tick := tick
    received := c₀.received + bs.length }

/-- `c` has heard `bs` since `c₀`, and its parser has been given as much. -/
structure Hears (p : H.Parser) (c₀ : Conn H) (bs : Bytes) (c : Conn H) : Prop where
  client : ∃ now q tick, c = hearing c₀ bs now q tick
  lockstep : Lockstep p c bs

theorem Boundary.hears (h : Boundary p c₀) : Hears p c₀ [] c₀ := by
  obtain ⟨q, hparser, _⟩ := h.lockstep.fed
  have hidx : c₀.cli.bufIdx = 0 := h.lockstep.counted.symm
  refine ⟨⟨c₀.cli.lastActivity, q, c₀.tick, ?_⟩, h.lockstep⟩
  rw [hearing, Buf.write_nil, ← hparser]
  show c₀ = { c₀ with cli := { c₀.cli with bufIdx := 0 } }
  rw [← hidx]

theorem Hears.next (h : Hears p c₀ bs c) : Hears p c₀ bs c.next := by
  obtain ⟨now, q, tick, rfl⟩ := h.client
  exact ⟨⟨now, q, tick + 1, rfl⟩, h.lockstep.congr rfl rfl rfl⟩

/-- A read stores what it brings behind what has been heard, whatever the parser says of it. -/
theorem hearing_read (hd : c₀.cli.draining = false) (E : Env) (n : Nat) (now : Nat) (q : H.Parser)
    (tick : Nat) :
    parserFed q (readRequest E n (hearing c₀ bs now q tick)) =
      hearing c₀ (bs ++ heard E (hearing c₀ bs now q tick)
          (readRequest E n (hearing c₀ bs now q tick)).2) (timeHelperGetNow (E.wall tick))
        (H.exec q (readRequest E n (hearing c₀ bs now q tick)).2.cli.buf
          (readRequest E n (hearing c₀ bs now q tick)).1).2.2 (tick + 1) := by
  obtain ⟨k, hk⟩ : ∃ k, min (n + 1) (H.maxBufferLen - bs.length) = k := ⟨_, rfl⟩
  have hheard : heard E (hearing c₀ bs now q tick)
      (readRequest E n (hearing c₀ bs now q tick)).2 =
        Buf.slice E.peer (c₀.received + bs.length) k := by
    have hrec : (readRequest E n (hearing c₀ bs now q tick)).2.received =
        c₀.received + bs.length + k := by
      rw [← hk]
      rfl
    rw [heard, hrec]
    exact congrArg _ (Nat.add_sub_cancel_left _ _)
  -- the two stores lie one behind the other
  have hbuf : (c₀.cli.buf.write 0 bs).write bs.length
      (Buf.slice E.peer (c₀.received + bs.length) k) =
        c₀.cli.buf.write 0 (bs ++ Buf.slice E.peer (c₀.received + bs.length) k) := by
    have happend : (c₀.cli.buf.write 0 bs).write (0 + bs.length)
        (Buf.slice E.peer (c₀.received + bs.length) k) =
          c₀.cli.buf.write 0 (bs ++ Buf.slice E.peer (c₀.received + bs.length) k) :=
      Buf.write_append
    rwa [Nat.zero_add] at happend
  rw [hheard]
  simp only [parserFed, readRequest, hearing, Conn.receive, Conn.writeBuf, Conn.next, hd, hk, hbuf,
    List.length_append, Buf.length_slice, Bool.false_and, Bool.or_false, Nat.add_assoc]

/-- **From read to read.** -/
theorem Reads.hears (hd : c₀.cli.draining = false) (hr : Reads E c e) (h : Hears p c₀ bs c) :
    Hears p c₀ (bs ++ heard E c e) e := by
  refine ⟨?_, hr.lockstep h.lockstep⟩
  induction hr with
  | start =>
      rw [heard_same rfl, List.append_nil]
      exact h.client
  | @more d q n hr hparser _ _ _ ih =>
      obtain ⟨now, r, tick, hclient⟩ := ih
      have hheard : heard E c (parserFed q (readRequest E n d)) =
          heard E c d ++ heard E d (readRequest E n d).2 :=
        heard_trans hr.frame.received (Nat.le_add_right _ _)
      rw [hheard, ← List.append_assoc]
      generalize bs ++ heard E c d = bs' at hclient
      subst hclient
      obtain rfl := Option.some.inj hparser
      exact ⟨_, _, _, hearing_read hd E n now r tick⟩
  | @interrupted d _ _ _ _ _ ih =>
      obtain ⟨now, r, tick, hclient⟩ := ih
      have hheard : heard E c d.next = heard E c d := rfl
      rw [hheard]
      exact ⟨now, r, tick + 1, congrArg Conn.next hclient⟩

/-! ## The loop from read to read -/

/-- The loop comes by every read. -/
theorem Reads.loop (threadId : Nat) (h : Reads E c e) :
    Delays (fun fuel => clientHandleToDrain E threadId fuel c)
      fun fuel => clientHandleToDrain E threadId fuel e := by
  induction h with
  | start => exact .refl _
  | @more d q n hr hparser hroom hread hgo ih =>
      refine ih.succ rfl fun fuel => ?_
      rw [clientHandleToDrain_data hparser hroom hread, afterParse_eq_none.mpr hgo]
      rfl
  | @interrupted d q hr hparser hroom hread ih =>
      refine ih.succ rfl fun fuel => ?_
      rw [clientHandleToDrain, hparser]
      simp only [if_neg (Nat.not_le.mpr hroom), hread]

/-! ## Events -/

/-- The readiness events of a message so far: each was handled, and waits for more. -/
inductive Listened (threadId : Nat) (c₀ : Conn H) : Bytes → Conn H → Prop where
  | start : Listened threadId c₀ [] c₀
  | waited {bs : Bytes} {c : Conn H} : Listened threadId c₀ bs c → Listened threadId c₀ bs c.next
  | event {E : Env} {fuel : Nat} {bs : Bytes} {c d : Conn H} : Listened threadId c₀ bs c →
      clientHandle E fuel threadId c = (some .success, d) → d.cli.draining = false →
      d.cli.requestCount = c.cli.requestCount → Listened threadId c₀ (bs ++ heard E c d) d

theorem Hears.draining (h : Hears p c₀ bs c) : c.cli.draining = c₀.cli.draining := by
  obtain ⟨now, q, tick, rfl⟩ := h.client
  rfl

/-- **From event to event.** -/
theorem Listened.hears (hb : Boundary p c₀) (h : Listened threadId c₀ bs c) :
    Hears p c₀ bs c := by
  induction h with
  | start => exact hb.hears
  | waited _ ih => exact ih.next
  | @event E fuel bs c d _ hcall hopen hcount ih =>
      -- neither a dispatch nor a parked answer leaves the message under way
      rcases clientHandle_success (ih.draining.trans hb.draining) hcall with
        ⟨e, hr, _, rfl⟩ | hadv | ⟨hparked, _⟩
      · exact (hr.hears hb.draining ih).next
      · have := hadv.count
        omega
      · exact absurd (hopen.symm.trans hparked) (by simp)

/-- The peer goes on with `rest`, and the reads of this call stay within it. -/
structure Brings (E : Env) (c : Conn H) (rest : Bytes) : Prop where
  next : Buf.slice E.peer c.received rest.length = rest
  within : ∀ e n, Reads E c e → E.read e.tick = .data n →
    (readRequest E n e).2.received ≤ c.received + rest.length

theorem Brings.heard_prefix (h : Brings E c rest) (hle : d.received ≤ c.received + rest.length) :
    heard E c d <+: rest := by
  have hshort : d.received - c.received ≤ rest.length := by omega
  rw [heard, ← Buf.take_slice hshort, h.next]
  exact List.take_prefix _ _

theorem Brings.received_le (h : Brings E c rest) (hr : Reads E c e) :
    e.received ≤ c.received + rest.length := by
  induction hr with
  | start => exact Nat.le_add_right _ _
  | more hr _ _ hread _ _ => exact h.within _ _ hr hread
  | interrupted _ _ _ _ ih => exact ih

/-- The read that brings the last of `rest`. -/
structure LastRead (E : Env) (c : Conn H) (rest : Bytes) (e : Conn H) (n : Nat) : Prop where
  reads : Reads E c e
  data : E.read e.tick = .data n
  brings : heard E c (readRequest E n e).2 = rest

/--
One way of cutting `m` into readiness events and reads: the calls before the one at `c` wait
for more, and the read of that one at `e` brings the end.
-/
def Cut (E : Env) (threadId : Nat) (c₀ : Conn H) (m : Bytes) (c e : Conn H) : Prop :=
  ∃ bs rest n, Listened threadId c₀ bs c ∧ bs ++ rest = m ∧ LastRead E c rest e n

/-! ## The deciding read -/

/-- What `client_handle` makes of a verdict of the parser that ends its loop. -/
def concluded (E : Env) (fuel threadId : Nat) (out : HttpStatus × Option HttpRequest × H.Parser)
    (c : Conn H) : Option Exit × Conn H :=
  (afterParse E fuel threadId out.1 out.2.1 c).getD (none, c)

theorem GoesOn.afterParse {out : HttpStatus × Option HttpRequest × H.Parser} :
    afterParse E fuel threadId out.1 out.2.1 c = none ↔ GoesOn out := afterParse_eq_none

/-- The client that has just heard the end of `m`. -/
def told (E : Env) (c₀ : Conn H) (p : H.Parser) (m : Bytes) (tick : Nat) : Conn H :=
  hearing c₀ m (timeHelperGetNow (E.wall tick)) (H.exec p (holding m) m.length).2.2 (tick + 1)

/-- What the parser says to a read is what it would say to all of it at once. -/
theorem Hears.exec (hp : Incremental p) (h : Hears p c₀ bs e) (hd : c₀.cli.draining = false)
    (hparser : e.cli.httpParser = some q) (hroom : e.cli.bufIdx < H.maxBufferLen)
    (hm : bs ++ heard E e (readRequest E n e).2 = m) :
    H.exec q (readRequest E n e).2.cli.buf (readRequest E n e).1 =
        H.exec p (holding m) m.length ∧
      parserFed q (readRequest E n e) = told E c₀ p m e.tick ∧ m.length ≤ H.maxBufferLen := by
  obtain ⟨hfits, hidx, hfront, hall⟩ := h.lockstep.readRequest (E := E) n
  obtain ⟨r, hr, hfed⟩ := h.lockstep.fed
  obtain rfl := Option.some.inj (hr.symm.trans hparser)
  have hlen : m.length = bs.length + (readRequest E n e).1 := by
    rw [← hm, ← hall, Buf.length_slice]
  have hexec : H.exec r (readRequest E n e).2.cli.buf (readRequest E n e).1 =
      H.exec p (holding m) m.length := by
    rw [hfed.exec hp hfront (readRequest_pos n hroom), ← hlen]
    refine hp.reads _ _ _ ?_
    rw [slice_holding (Nat.le_refl _), List.take_length, hlen, hall, hm]
  refine ⟨hexec, ?_, by rw [hlen, ← hidx]; exact hfits⟩
  obtain ⟨now, q', tick, rfl⟩ := h.client
  obtain rfl := Option.some.inj hr
  rw [hearing_read hd, hm, hexec]
  rfl

/-- A message under way leaves room for more, or it is as long as the buffer. -/
theorem Hears.room (hp : Incremental p) (h : Hears p c₀ bs e) (hpre : bs <+: m)
    (hlen : m.length ≤ H.maxBufferLen) (hwhole : ¬GoesOn (H.exec p (holding m) m.length)) :
    e.cli.bufIdx < H.maxBufferLen := by
  obtain ⟨r, _, hfed⟩ := h.lockstep.fed
  have hcount := h.lockstep.counted
  by_contra hfull
  have hmax := H.maxBufferLen_ge
  have hle := hpre.length_le
  obtain rfl : bs = m := hpre.eq_of_length (by omega)
  refine hwhole (hfed.goesOn hp fun hnil => ?_)
  rw [hnil, List.length_nil] at hcount
  omega

/-- **The last read decides**, and whatever came before it, it decides the same. -/
theorem Cut.decides (hp : Incremental p) (hb : Boundary p c₀) (h : Cut E threadId c₀ m c e)
    (hlen : m.length ≤ H.maxBufferLen) (hwhole : ¬GoesOn (H.exec p (holding m) m.length)) :
    Delays (fun fuel => clientHandleToDrain E threadId fuel c) fun fuel =>
      concluded E fuel threadId (H.exec p (holding m) m.length) (told E c₀ p m e.tick) := by
  obtain ⟨bs, rest, n, hl, hm, hlast⟩ := h
  have he := hlast.reads.hears hb.draining (hl.hears hb)
  have hpiece : bs ++ heard E c e ++ heard E e (readRequest E n e).2 = m := by
    rw [List.append_assoc, ← heard_trans hlast.reads.frame.received (Nat.le_add_right _ _),
      hlast.brings, hm]
  have hroom := he.room hp ⟨_, hpiece⟩ hlen hwhole
  obtain ⟨q, hparser, _⟩ := he.lockstep.fed
  obtain ⟨hexec, htold, _⟩ := he.exec hp hb.draining hparser hroom hpiece
  refine (hlast.reads.loop threadId).succ rfl fun fuel => ?_
  rw [clientHandleToDrain_data hparser hroom hlast.data, hexec, htold, concluded]
  cases hafter : afterParse E fuel threadId (H.exec p (holding m) m.length).1
      (H.exec p (holding m) m.length).2.1 (told E c₀ p m e.tick) with
  | none => exact absurd (GoesOn.afterParse.mp hafter) hwhole
  | some out => rfl

/-! ## The same verdict -/

variable {out : HttpStatus × Option HttpRequest × H.Parser} {a b fuel' : Nat}

theorem afterAnswer_abreast (h : Abreast E E' a b c d) :
    Pairs (Abreast E E' a b) (afterAnswer c) (afterAnswer d) := by
  have hdraining : d.cli.draining = c.cli.draining := by
    obtain ⟨fd, t, _, _, _, _⟩ := h
    rfl
  exact .ite (by rw [hdraining]) ⟨rfl, h⟩ ⟨rfl, h.reset⟩

/-- A verdict other than a claim, given to two clients abreast. -/
theorem concluded_abreast (hout : out.1 ≠ .headersCompleteStream) (hle : fuel ≤ fuel')
    (h : Abreast E E' a b c d) :
    Carries (Abreast E E' a b) (concluded E fuel threadId out c)
      (concluded E' fuel' threadId out d) := by
  have hpassed : ∀ {o o' : Status × Conn H}, Pairs (Abreast E E' a b) o o' →
      Carries (Abreast E E' a b) (some (Exit.returned o.1), o.2)
        (some (Exit.returned o'.1), o'.2) := by
    intro o o' ho
    rw [← ho.1]
    exact .back _ ho.2
  -- a refusal and what follows it
  have hrefused : ∀ status, Carries (Abreast E E' a b)
      (andThen (responseWriterError E fuel status c) fun _ c =>
        (some (Exit.returned (afterAnswer c).1), (afterAnswer c).2))
      (andThen (responseWriterError E' fuel' status d) fun _ d =>
        (some (Exit.returned (afterAnswer d).1), (afterAnswer d).2)) := fun status =>
    (responseWriterError_abreast status hle h).andThen fun _ _ _ hst =>
      hpassed (afterAnswer_abreast hst)
  obtain ⟨status, req, q⟩ := out
  cases status with
  | headersCompleteStream => exact absurd rfl hout
  | contentTooLarge => exact hrefused 413
  | other => exact hrefused 400
  | ok =>
      cases req with
      | none => exact .back _ h.reset
      | some req =>
          cases hcomplete : req.messageComplete with
          | false =>
              simp only [concluded, afterParse, hcomplete]
              exact .running
          | true =>
              simp only [concluded, afterParse, hcomplete]
              exact (srvRouterDispatch_abreast hle (h.stored req threadId)).andThen
                fun rc _ _ hst => hpassed (afterDispatch_abreast rc hst)

theorem concluded_returned {x : Exit} (hout : out.1 ≠ .headersCompleteStream)
    (h : concluded E fuel threadId out c = (some x, d)) : ∃ rc, x = .returned rc := by
  have hback : ∀ {o : Option Status × Conn H} {k : Status → Conn H → Status × Conn H},
      andThen o (fun a c => (some (Exit.returned (k a c).1), (k a c).2)) = (some x, d) →
        ∃ rc, x = .returned rc := by
    intro o k ho
    obtain ⟨a, e, _, hx⟩ := andThen_eq_some.mp ho
    exact ⟨_, (Option.some.inj (Prod.mk.inj hx).1).symm⟩
  obtain ⟨status, req, q⟩ := out
  cases status with
  | headersCompleteStream => exact absurd rfl hout
  | contentTooLarge => exact hback (k := fun _ c => afterAnswer c) h
  | other => exact hback (k := fun _ c => afterAnswer c) h
  | ok =>
      cases req with
      | none => exact ⟨.failure, (Option.some.inj (Prod.mk.inj h).1).symm⟩
      | some req =>
          cases hcomplete : req.messageComplete with
          | false =>
              simp only [concluded, afterParse, hcomplete] at h
              exact absurd (Prod.mk.inj h).1 (by simp)
          | true =>
              simp only [concluded, afterParse, hcomplete] at h
              exact hback (k := afterDispatch) h

/-- A message that the parser decides on at its last byte, other than by claiming it. -/
structure Message (p : H.Parser) (m : Bytes) : Prop where
  shorter : ∀ k, 0 < k → k < m.length → GoesOn (H.exec p (holding m) k)
  whole : ¬GoesOn (H.exec p (holding m) m.length)
  unclaimed : (H.exec p (holding m) m.length).1 ≠ .headersCompleteStream

theorem Hears.ctx (h : Hears p c₀ bs c) : c.cli.ctx = c₀.cli.ctx := by
  obtain ⟨now, q, tick, rfl⟩ := h.client
  rfl

/-- `client_handle` is its loop, as long as nothing is claimed. -/
theorem clientHandle_loop (hb : Boundary p c₀) (h : Hears p c₀ bs c) :
    clientHandle E fuel threadId c = andThen (clientHandleToDrain E threadId fuel c) fun
      | .returned rc, c => (some rc, c)
      | .atDrain _, c => andThen (drainRejectedBody E fuel c) fun _ c =>
          (some (afterAnswer c).1, (afterAnswer c).2) := by
  obtain ⟨q, hparser, _⟩ := h.lockstep.fed
  have hfd := h.ctx
  have hok : ¬(c.cli.httpParser.isNone ∨ c.cli.ctx.fd < 0) := by
    have hopen := hb.fd
    rw [hparser, hfd]
    simp
    omega
  rw [clientHandle]
  exact if_neg hok

theorem Cut.hears (hb : Boundary p c₀) (h : Cut E threadId c₀ m c e) : ∃ bs, Hears p c₀ bs c := by
  obtain ⟨bs, _, _, hl, _⟩ := h
  exact ⟨bs, hl.hears hb⟩

/-- **The last read brings the verdict on the whole message.** -/
theorem Cut.concludes (hp : Incremental p) (hb : Boundary p c₀) (hmsg : Message p m)
    (hlen : m.length ≤ H.maxBufferLen) (h : Cut E threadId c₀ m c e) {rc : Status}
    (hcall : clientHandle E fuel threadId c = (some rc, d)) : ∃ fuel',
      concluded E fuel' threadId (H.exec p (holding m) m.length) (told E c₀ p m e.tick) =
        (some (.returned rc), d) := by
  obtain ⟨bs, hears⟩ := h.hears hb
  rw [clientHandle_loop hb hears] at hcall
  obtain ⟨x, d', hloop, hrest⟩ := andThen_eq_some.mp hcall
  obtain ⟨fuel', hend⟩ := (h.decides hp hb hlen hmsg.whole).of_some hloop
  obtain ⟨rc', rfl⟩ := concluded_returned hmsg.unclaimed hend
  obtain ⟨hrc, rfl⟩ := Prod.mk.inj hrest
  obtain rfl := Option.some.inj hrc
  exact ⟨fuel', hend⟩

/-- What the loop does with a whole request: store it, route it, get ready for the next one. -/
def dispatch (E : Env) (fuel threadId : Nat) (req : HttpRequest) (c : Conn H) :
    Option Status × Conn H :=
  andThen (srvRouterDispatch E fuel { c with cli := (clientStoreRequest c.cli req threadId).2 })
    fun rc c => (some (afterDispatch rc c).1, (afterDispatch rc c).2)

theorem concluded_dispatch {rc : Status} {req : HttpRequest} (hok : out.1 = .ok)
    (hreq : out.2.1 = some req) (hcomplete : req.messageComplete = true)
    (h : concluded E fuel threadId out c = (some (.returned rc), d)) :
    dispatch E fuel threadId req c = (some rc, d) := by
  simp only [concluded, afterParse, hok, hreq, hcomplete, if_true, Option.getD_some] at h
  obtain ⟨rc', e, hsent, hrest⟩ := andThen_eq_some.mp h
  obtain ⟨hrc, rfl⟩ := Prod.mk.inj hrest
  rw [dispatch, hsent, andThen_some, Exit.returned.inj (Option.some.inj hrc)]

/-- **The same request, wherever the cuts are.** -/
theorem Cut.dispatches (hp : Incremental p) (hb : Boundary p c₀) (hmsg : Message p m)
    (hlen : m.length ≤ H.maxBufferLen) {rc : Status} {req : HttpRequest}
    (hok : (H.exec p (holding m) m.length).1 = .ok)
    (hreq : (H.exec p (holding m) m.length).2.1 = some req) (h : Cut E threadId c₀ m c e)
    (hcall : clientHandle E fuel threadId c = (some rc, d)) :
    ∃ fuel', dispatch E fuel' threadId req (told E c₀ p m e.tick) = (some rc, d) := by
  obtain ⟨fuel', hend⟩ := h.concludes hp hb hmsg hlen hcall
  have hcomplete : req.messageComplete = true := by
    by_contra hmore
    exact hmsg.whole ⟨hok, req, hreq, Bool.eq_false_of_not_eq_true hmore⟩
  exact ⟨fuel', concluded_dispatch hok hreq hcomplete hend⟩

theorem told_abreast (hfd : 0 ≤ c₀.cli.ctx.fd) (hmatch : Matches E E' c.tick d.tick) :
    Abreast E E' (c.tick + 1) (d.tick + 1) (told E c₀ p m c.tick) (told E' c₀ p m d.tick) := by
  have hwall : E'.wall d.tick = E.wall c.tick := hmatch.wall 0
  have haside : told E' c₀ p m d.tick =
      aside c₀.cli.ctx.fd (d.tick + 1) (told E c₀ p m c.tick) := by
    rw [told, hwall]
    rfl
  rw [haside]
  exact .mk _ _ _ hfd hfd (Nat.add_comm _ _) hmatch.next

/--
**The same verdict, wherever the cuts are.** From the last read on the worlds answer alike; then
the second call comes back as the first one did, and leaves the same client behind.
-/
theorem Cut.verdict (hp : Incremental p) (hb : Boundary p c₀) (hmsg : Message p m)
    (hlen : m.length ≤ H.maxBufferLen) {e' : Conn H} {rc : Status}
    (h : Cut E threadId c₀ m c e) (h' : Cut E' threadId c₀ m c' e')
    (hmatch : Matches E E' e.tick e'.tick)
    (hcall : clientHandle E fuel threadId c = (some rc, d)) :
    ∃ fuel₀, ∀ fuel' ≥ fuel₀, ∃ tick,
      clientHandle E' fuel' threadId c' = (some rc, { d with tick := tick }) := by
  obtain ⟨f, hconcluded⟩ := h.concludes hp hb hmsg hlen hcall
  obtain ⟨bs, hears⟩ := h.hears hb
  obtain ⟨bs', hears'⟩ := h'.hears hb
  have hctx : ∀ {E : Env} {fuel : Nat} {bs : Bytes} {c d : Conn H}, Hears p c₀ bs c →
      clientHandle E fuel threadId c = (some rc, d) → d.cli.ctx = c₀.cli.ctx := by
    intro E fuel bs c d hc hcall
    have hkept := clientHandle_identity E fuel threadId c
    rw [hcall] at hkept
    exact (ctx_of_identity hkept).trans hc.ctx
  obtain ⟨f₀, hloop⟩ := (h'.decides hp hb hlen hmsg.whole).eventually
    (P := fun o => ∃ d', o = (some (.returned rc), d') ∧ Abreast E E' _ _ d d')
    ⟨f, fun f' hle =>
      concluded_abreast hmsg.unclaimed hle (told_abreast hb.fd hmatch) _ _ hconcluded⟩
  refine ⟨f₀, fun fuel' hle => ?_⟩
  obtain ⟨d', hd', habreast⟩ := hloop fuel' hle
  have hcall' : clientHandle E' fuel' threadId c' = (some rc, d') := by
    rw [clientHandle_loop hb hears', hd']
    rfl
  have hfd := congrArg FdCtx.fd ((hctx hears' hcall').trans (hctx hears hcall).symm)
  obtain ⟨fd, tick, _, _, _, _⟩ := habreast
  refine ⟨tick, hcall'.trans ?_⟩
  rw [show fd = d.cli.ctx.fd from hfd]
  rfl

/-! ## How a call ends -/

theorem Incremental.exec_prefix (hp : Incremental p) (h : bs <+: m) :
    H.exec p (holding bs) bs.length = H.exec p (holding m) bs.length := by
  refine hp.reads _ _ _ ?_
  rw [slice_holding (Nat.le_refl _), slice_holding h.length_le, List.take_length]
  exact List.prefix_iff_eq_take.mp h

/-- How a call ends whose reads stay within `m`. -/
inductive CallEnds (E : Env) (threadId : Nat) (p : H.Parser) (c₀ c : Conn H) (bs m : Bytes) :
    Exit × Conn H → Prop where
  | waiting {e : Conn H} : Reads E c e → E.read e.tick = .eagain →
      CallEnds E threadId p c₀ c bs m (.returned .success, e.next)
  | broken {e : Conn H} : Reads E c e →
      H.maxBufferLen ≤ e.cli.bufIdx ∨ E.read e.tick = .eof ∨ E.read e.tick = .error →
      CallEnds E threadId p c₀ c bs m (.returned .failure, e.reset)
  | decided {e d : Conn H} {m' : Bytes} {n fuel : Nat} {x : Exit} : Reads E c e →
      E.read e.tick = .data n → bs ++ heard E c (readRequest E n e).2 = m' → m' <+: m → m' ≠ [] →
      m'.length ≤ H.maxBufferLen → ¬GoesOn (H.exec p (holding m) m'.length) →
      concluded E fuel threadId (H.exec p (holding m) m'.length) (told E c₀ p m' e.tick) =
        (some x, d) → CallEnds E threadId p c₀ c bs m (x, d)

theorem Listened.callEnds (hp : Incremental p) (hb : Boundary p c₀) (hl : Listened threadId c₀ bs c)
    (hm : bs ++ rest = m) (hbrings : Brings E c rest) {x : Exit}
    (h : clientHandleToDrain E threadId fuel c = (some x, d)) :
    CallEnds E threadId p c₀ c bs m (x, d) := by
  obtain ⟨e, hr, hend⟩ := clientHandleToDrain_reads .start h
  have he := hr.hears hb.draining (hl.hears hb)
  obtain ⟨q, hparser, _⟩ := he.lockstep.fed
  cases hend with
  | parserless hnone => exact absurd (hparser.symm.trans hnone) (by simp)
  | broken hbroken => exact .broken hr hbroken
  | waiting hwait => exact .waiting hr hwait
  | @parsed q' n f _ _ hparser' hroom hread hparse =>
      obtain ⟨m', hm'⟩ : ∃ m', bs ++ heard E c (readRequest E n e).2 = m' := ⟨_, rfl⟩
      -- what was heard up to the deciding read, and with it
      have hpiece : bs ++ heard E c e ++ heard E e (readRequest E n e).2 = m' := by
        rw [List.append_assoc, ← heard_trans hr.frame.received (Nat.le_add_right _ _), hm']
      have hpre : m' <+: m := by
        rw [← hm, ← hm']
        exact (List.prefix_append_right_inj bs).mpr
          (hbrings.heard_prefix (hbrings.within e n hr hread))
      obtain ⟨hexec, htold, hfits⟩ := he.exec hp hb.draining hparser' hroom hpiece
      rw [htold, hexec, hp.exec_prefix hpre] at hparse
      have hconcluded : concluded E f threadId (H.exec p (holding m) m'.length)
          (told E c₀ p m' e.tick) = (some x, d) := by
        rw [concluded, hparse]
        rfl
      refine .decided hr hread hm' hpre ?_ hfits (fun hgo => ?_) hconcluded
      · intro hnil
        have hpos := readRequest_pos (E := E) n hroom
        have hcount : (heard E e (readRequest E n e).2).length = (readRequest E n e).1 := by
          rw [length_heard]
          exact Nat.add_sub_cancel_left _ _
        rw [hnil] at hpiece
        rw [(List.append_eq_nil_iff.mp hpiece).2, List.length_nil] at hcount
        omega
      · rw [GoesOn.afterParse.mpr hgo] at hparse
        exact absurd hparse (by simp)

/-- How a call ends that is given some of the rest of a message. -/
inductive Outcome (E : Env) (threadId : Nat) (c₀ : Conn H) (bs rest : Bytes) (c : Conn H) :
    Status × Conn H → Prop where
  | waits {d : Conn H} : Listened threadId c₀ (bs ++ heard E c d) d →
      Outcome E threadId c₀ bs rest c (.success, d)
  | lost {e : Conn H} : Reads E c e → E.read e.tick = .eof ∨ E.read e.tick = .error →
      Outcome E threadId c₀ bs rest c (.failure, e.reset)
  | decided {e d : Conn H} {n : Nat} {rc : Status} : LastRead E c rest e n →
      Outcome E threadId c₀ bs rest c (rc, d)

/-- **A message waits until it is whole**, and only losing the peer keeps it from its verdict. -/
theorem Listened.outcome (hp : Incremental p) (hb : Boundary p c₀) (hmsg : Message p m)
    (hlen : m.length ≤ H.maxBufferLen) (hl : Listened threadId c₀ bs c) (hm : bs ++ rest = m)
    (hbrings : Brings E c rest) {rc : Status}
    (hcall : clientHandle E fuel threadId c = (some rc, d)) :
    Outcome E threadId c₀ bs rest c (rc, d) := by
  have hcall' := hcall
  rw [clientHandle_loop hb (hl.hears hb)] at hcall'
  obtain ⟨x, d', hloop, hrest⟩ := andThen_eq_some.mp hcall'
  cases hl.callEnds hp hb hm hbrings hloop with
  | @waiting e hr hwait =>
      obtain ⟨hrc, rfl⟩ := Prod.mk.inj hrest
      obtain rfl := Option.some.inj hrc
      obtain ⟨_, _, _, _, hcli⟩ := hr.frame.cli
      refine .waits (hl.event hcall ?_ ?_)
      · show e.cli.draining = false
        rw [hcli]
        exact (hl.hears hb).draining.trans hb.draining
      · show e.cli.requestCount = c.cli.requestCount
        rw [hcli]
  | @broken e hr hbroken =>
      obtain ⟨hrc, rfl⟩ := Prod.mk.inj hrest
      obtain rfl := Option.some.inj hrc
      have hpre : bs ++ heard E c e <+: m := by
        rw [← hm]
        exact (List.prefix_append_right_inj bs).mpr (hbrings.heard_prefix (hbrings.received_le hr))
      have hroom := (hr.hears hb.draining (hl.hears hb)).room hp hpre hlen hmsg.whole
      exact .lost hr (hbroken.resolve_left (Nat.not_le.mpr hroom))
  | @decided e _ m' n f _ hr hread hm' hpre hne hfits hdec _ =>
      -- the parser only decides at the end
      have hall : m'.length = m.length := by
        rcases Nat.lt_or_ge m'.length m.length with hlt | hge
        · exact absurd (hmsg.shorter _ (List.length_pos_iff.mpr hne) hlt) hdec
        · exact Nat.le_antisymm hpre.length_le hge
      obtain rfl := hpre.eq_of_length hall
      exact .decided ⟨hr, hread, List.append_cancel_left (hm'.trans hm.symm)⟩

end DBServer.Proof
