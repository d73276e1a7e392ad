import DBServer.Proof.Kept

/-!
# Two clients abreast

Answering a request asks the world for a few things only: whether the socket takes the bytes,
whether the registration can be changed, what the clock says, and what `DB_app` answers. Which
number the kernel gave the descriptor and how many calls went before decide nothing. Clients
`Abreast` differ in these two alone, each in a world of its own; as long as the worlds go on
alike (`Matches`), the clients come back with the same verdict, and abreast. The second may be
watched longer.
-/

namespace DBServer.Proof

open DBServer Lib

variable {H : DbHttp} {E E' : Env} {a b t t' : Nat} {c d : Conn H} {fuel fuel' : Nat} {α : Type}
  {s s' : Option Nat × Conn H}

/-- From here on the two worlds answer alike whatever answering a request asks them. -/
structure Matches (E E' : Env) (t t' : Nat) : Prop where
  write : ∀ i, E'.write (t' + i) = E.write (t + i)
  pollOut : ∀ i, E'.pollOut (t' + i) = E.pollOut (t + i)
  reactorMod : ∀ i, E'.reactorMod (t' + i) = E.reactorMod (t + i)
  wall : ∀ i, E'.wall (t' + i) = E.wall (t + i)
  run : ∀ i, E'.run (t' + i) = E.run (t + i)
  adapt : E'.adapt = E.adapt
  headersMax : E'.headersMax = E.headersMax

theorem Matches.refl (E : Env) (t : Nat) : Matches E E t t :=
  ⟨fun _ => rfl, fun _ => rfl, fun _ => rfl, fun _ => rfl, fun _ => rfl, rfl, rfl⟩

/-- One call later. -/
theorem Matches.next (h : Matches E E' t t') : Matches E E' (t + 1) (t' + 1) where
  write i := by rw [Nat.add_assoc, h.write, Nat.add_assoc]
  pollOut i := by rw [Nat.add_assoc, h.pollOut, Nat.add_assoc]
  reactorMod i := by rw [Nat.add_assoc, h.reactorMod, Nat.add_assoc]
  wall i := by rw [Nat.add_assoc, h.wall, Nat.add_assoc]
  run i := by rw [Nat.add_assoc, h.run, Nat.add_assoc]
  adapt := h.adapt
  headersMax := h.headersMax

/-- The same client on another descriptor. -/
def renamed (fd : Int) (c : Conn H) : Conn H :=
  { c with cli := { c.cli with ctx := { c.cli.ctx with fd := fd } } }

section

variable (fd : Int) (c : Conn H)

@[simp] theorem renamed_tick : (renamed fd c).tick = c.tick := rfl

@[simp] theorem renamed_httpParser : (renamed fd c).cli.httpParser = c.cli.httpParser := rfl

@[simp] theorem renamed_buf : (renamed fd c).cli.buf = c.cli.buf := rfl

@[simp] theorem renamed_request : (renamed fd c).cli.httpRequest = c.cli.httpRequest := rfl

end

/-- The same client on another descriptor, after another number of calls. -/
def aside (fd : Int) (t : Nat) (c : Conn H) : Conn H := { renamed fd c with tick := t }

/--
Two clients that differ in nothing but the number of their descriptor and the number of
calls before, `a` and `b` calls after some common point.
-/
inductive Abreast (E E' : Env) (a b : Nat) : Conn H → Conn H → Prop where
  | mk (c : Conn H) (fd : Int) (t : Nat) : 0 ≤ c.cli.ctx.fd → 0 ≤ fd → t + a = c.tick + b →
      Matches E E' c.tick t → Abreast E E' a b c (aside fd t c)

/-- Both have a descriptor. -/
theorem Abreast.fd_neg (h : Abreast E E' a b c d) : c.cli.ctx.fd < 0 ↔ d.cli.ctx.fd < 0 := by
  obtain ⟨fd, t, hc, hd, _, _⟩ := h
  have hfd : (aside fd t c).cli.ctx.fd = fd := rfl
  omega

theorem Abreast.matches (h : Abreast E E' a b c d) : Matches E E' c.tick d.tick := by
  obtain ⟨fd, t, hc, hd, ht, hm⟩ := h
  exact hm

theorem Abreast.next (h : Abreast E E' a b c d) : Abreast E E' a b c.next d.next := by
  obtain ⟨fd, t, hc, hd, ht, hm⟩ := h
  refine .mk c.next fd (t + 1) hc hd ?_ hm.next
  show t + 1 + a = c.tick + 1 + b
  omega

theorem Abreast.call (h : Abreast E E' a b c d) (e : Call) :
    Abreast E E' a b (c.call e) (d.call e) := by
  obtain ⟨fd, t, hc, hd, ht, hm⟩ := h
  exact .mk (c.call e) fd t hc hd ht hm

theorem Abreast.writeBuf (h : Abreast E E' a b c d) (off : Nat) (bs : Bytes) :
    Abreast E E' a b (c.writeBuf off bs) (d.writeBuf off bs) := by
  obtain ⟨fd, t, hc, hd, ht, hm⟩ := h
  exact .mk (c.writeBuf off bs) fd t hc hd ht hm

theorem Abreast.reset (h : Abreast E E' a b c d) : Abreast E E' a b c.reset d.reset := by
  obtain ⟨fd, t, hc, hd, ht, hm⟩ := h
  exact .mk c.reset fd t hc hd ht hm

/-- Of two bounds the larger one has a round left where the smaller one has. -/
theorem exists_succ_of_le (h : fuel + 1 ≤ fuel') : ∃ k, fuel' = k + 1 ∧ fuel ≤ k :=
  ⟨fuel' - 1, by omega, by omega⟩

/-- Two functions that always come back, side by side. -/
def Pairs (R : Conn H → Conn H → Prop) (o o' : α × Conn H) : Prop := o.1 = o'.1 ∧ R o.2 o'.2

section

variable {R : Conn H → Conn H → Prop}

theorem Pairs.back {o o' : α × Conn H} (h : Pairs R o o') :
    Carries R (some o.1, o.2) (some o'.1, o'.2) := by
  rw [← h.1]
  exact .back _ h.2

theorem Pairs.ite {p q : Prop} [Decidable p] [Decidable q] {x y x' y' : α × Conn H} (hpq : p ↔ q)
    (hx : Pairs R x x') (hy : Pairs R y y') :
    Pairs R (if p then x else y) (if q then x' else y') := by
  by_cases hp : p
  · rw [if_pos hp, if_pos (hpq.mp hp)]
    exact hx
  · rw [if_neg hp, if_neg fun hq => hp (hpq.mpr hq)]
    exact hy

end

/-! ## Sending -/

theorem park_abreast (total : Nat) (h : Abreast E E' a b c d) :
    Pairs (Abreast E E' a b) (park E total c) (park E' total d) := by
  have hmod : E'.reactorMod d.tick = E.reactorMod c.tick := h.matches.reactorMod 0
  unfold park
  rw [hmod]
  obtain ⟨fd, t, hc, hd, ht, hm⟩ := h
  have hlater : t + 1 + a = c.tick + 1 + b := by omega
  exact .ite Iff.rfl ⟨rfl, .mk _ fd (t + 1) hc hd hlater hm.next⟩
    ⟨rfl, .mk _ fd (t + 1) hc hd hlater hm.next⟩

theorem Abreast.wrote (h : Abreast E E' a b c d) (n total : Nat) :
    Abreast E E' a b (wrote E n total c) (wrote E' n total d) := by
  have hwall : E'.wall d.tick = E.wall c.tick := h.matches.wall 0
  simp only [DBServer.wrote]
  rw [hwall]
  obtain ⟨fd, t, hc, hd, ht, hm⟩ := h
  exact .mk (DBServer.wrote E n total c) fd (t + 1) hc hd (by show t + 1 + a = c.tick + 1 + b; omega)
    hm.next

theorem trySend_abreast (total : Nat) (hle : fuel ≤ fuel') (h : Abreast E E' a b c d) :
    Carries (Abreast E E' a b) (trySend E total fuel c) (trySend E' total fuel' d) := by
  induction fuel generalizing fuel' c d with
  | zero => exact .running
  | succ fuel ih =>
      obtain ⟨fuel', rfl, hle'⟩ := exists_succ_of_le hle
      have hwrite : E'.write d.tick = E.write c.tick := h.matches.write 0
      have hpoll : E'.pollOut d.tick = E.pollOut c.tick := h.matches.pollOut 0
      have hwrote := h.wrote
      have hparked := park_abreast total h
      have hnext := h.next
      rw [trySend, trySend, hwrite, hpoll]
      obtain ⟨fd, t, hc, hd, ht, hm⟩ := h
      have hlater : t + 1 + a = c.tick + 1 + b := by omega
      refine .ite Iff.rfl ?_ (.back _ (.mk _ fd t hc hd ht hm))
      cases E.write c.tick with
      | wrote n => exact ih hle' (hwrote n total)
      | eintr => exact ih hle' hnext
      | eagain =>
          refine .ite Iff.rfl hparked.back ?_
          exact .ite Iff.rfl (ih hle' hnext) (.back _ (.mk _ fd (t + 1) hc hd hlater hm.next))
      | error => exact .back _ (.mk _ fd (t + 1) hc hd hlater hm.next)

theorem startSend_abreast (total : Nat) (hle : fuel ≤ fuel') (h : Abreast E E' a b c d) :
    Carries (Abreast E E' a b) (startSend E fuel total c) (startSend E' fuel' total d) := by
  obtain ⟨fd, t, hc, hd, ht, hm⟩ := h
  exact trySend_abreast total hle (.mk (started total c) fd t hc hd ht hm)

/-! ## Serializing -/

theorem appendFmt_abreast (bs : Bytes) (h : Pairs (Abreast E E' a b) s s') :
    Pairs (Abreast E E' a b) (appendFmt bs s) (appendFmt bs s') := by
  obtain ⟨o, c⟩ := s
  obtain ⟨o', d⟩ := s'
  obtain ⟨rfl, hcd⟩ := h
  cases o with
  | none => exact ⟨rfl, hcd⟩
  | some off =>
      have hstored := hcd.writeBuf off (bs.take (H.maxBufferLen - off - 1) ++ [0])
      exact .ite Iff.rfl ⟨rfl, hstored⟩ ⟨rfl, hstored⟩

theorem foldl_appendFmt_abreast (hs : List (Bytes × Bytes))
    (h : Pairs (Abreast E E' a b) s s') :
    Pairs (Abreast E E' a b) (hs.foldl (fun s h => appendFmt (headerLine h) s) s)
      (hs.foldl (fun s h => appendFmt (headerLine h) s) s') := by
  induction hs generalizing s s' with
  | nil => exact h
  | cons line hs ih => exact ih (appendFmt_abreast (headerLine line) h)

theorem appendBody_abreast (body : Bytes) (h : Pairs (Abreast E E' a b) s s') :
    Pairs (Abreast E E' a b) (appendBody body s) (appendBody body s') := by
  obtain ⟨o, c⟩ := s
  obtain ⟨o', d⟩ := s'
  obtain ⟨rfl, hcd⟩ := h
  cases o with
  | none => exact ⟨rfl, hcd⟩
  | some off =>
      have hline := hcd.writeBuf off (ascii "\r\n")
      rw [appendBody, appendBody]
      refine .ite Iff.rfl ⟨rfl, hcd⟩ ⟨rfl, ?_⟩
      by_cases hbody : 0 < body.length
      · simp only [if_pos hbody]
        exact hline.writeBuf (off + 2) body
      · simp only [if_neg hbody]
        exact hline

theorem serialize_abreast (res : AppResponse) (h : Abreast E E' a b c d) :
    Pairs (Abreast E E' a b) (serialize E res c) (serialize E' res d) := by
  have hpolicy : d.cli.connectionPolicy = c.cli.connectionPolicy := by
    obtain ⟨fd, t, hc, hd, ht, hm⟩ := h
    rfl
  have hhead : Pairs (Abreast E E' a b)
      (appendFmt (statusHead res (c.cli.connectionPolicy == H.keepAlive)) (some 0, c))
      (appendFmt (statusHead res (c.cli.connectionPolicy == H.keepAlive)) (some 0, d)) :=
    appendFmt_abreast _ ⟨rfl, h⟩
  unfold serialize
  rw [hpolicy, h.matches.headersMax]
  refine appendBody_abreast _ (foldl_appendFmt_abreast _ ?_)
  cases contentTypeLine res with
  | none => exact hhead
  | some line => exact appendFmt_abreast line hhead

/-! ## Answering -/

theorem responseWriterError_abreast (status : Nat) (hle : fuel ≤ fuel')
    (h : Abreast E E' a b c d) :
    Carries (Abreast E E' a b) (responseWriterError E fuel status c)
      (responseWriterError E' fuel' status d) := by
  have hclosing : Abreast E E' a b (closing c) (closing d) := by
    obtain ⟨fd, t, hc, hd, ht, hm⟩ := h
    exact .mk (closing c) fd t hc hd ht hm
  have hs : Pairs (Abreast E E' a b) (appendFmt (errorMessage status) (some 0, closing c))
      (appendFmt (errorMessage status) (some 0, closing d)) := appendFmt_abreast _ ⟨rfl, hclosing⟩
  unfold responseWriterError
  refine .ite h.fd_neg (.back _ h) ?_
  generalize appendFmt (errorMessage status) (some 0, closing c) = s at hs ⊢
  generalize appendFmt (errorMessage status) (some 0, closing d) = s' at hs ⊢
  obtain ⟨o, c'⟩ := s
  obtain ⟨o', d'⟩ := s'
  obtain ⟨rfl, h'⟩ := hs
  cases o with
  | none => exact .back _ h'
  | some n => exact startSend_abreast n hle h'

theorem responseWriterSend_abreast (res : AppResponse) (hle : fuel ≤ fuel')
    (h : Abreast E E' a b c d) :
    Carries (Abreast E E' a b) (responseWriterSend E fuel res c)
      (responseWriterSend E' fuel' res d) := by
  have hs := serialize_abreast res h
  unfold responseWriterSend
  refine .ite (or_congr h.fd_neg Iff.rfl) (.back _ h) ?_
  generalize serialize E res c = s at hs ⊢
  generalize serialize E' res d = s' at hs ⊢
  obtain ⟨o, c'⟩ := s
  obtain ⟨o', d'⟩ := s'
  obtain ⟨rfl, h'⟩ := hs
  cases o with
  | none => exact responseWriterError_abreast 500 hle h'
  | some n => exact startSend_abreast n hle h'

/-! ## Dispatching -/

theorem Abreast.request (h : Abreast E E' a b c d) : d.cli.httpRequest = c.cli.httpRequest := by
  obtain ⟨fd, t, hc, hd, ht, hm⟩ := h
  rfl

theorem handlerDbApp_abreast (hle : fuel ≤ fuel') (h : Abreast E E' a b c d) :
    Carries (Abreast E E' a b) (handlerDbApp E fuel c) (handlerDbApp E' fuel' d) := by
  have hadapt := h.call (.adapt c.cli.httpRequest)
  unfold handlerDbApp
  dsimp only
  rw [h.request, hadapt.request, h.matches.adapt]
  cases E.adapt (c.call (.adapt c.cli.httpRequest)).cli.httpRequest with
  | none => exact responseWriterError_abreast 500 hle hadapt
  | some req =>
      have hrun : E'.run (d.call (.adapt c.cli.httpRequest)).tick =
          E.run (c.call (.adapt c.cli.httpRequest)).tick := hadapt.matches.run 0
      dsimp only
      rw [hrun]
      exact responseWriterSend_abreast _ hle (hadapt.call _).next

theorem srvRouterDispatch_abreast (hle : fuel ≤ fuel') (h : Abreast E E' a b c d) :
    Carries (Abreast E E' a b) (srvRouterDispatch E fuel c) (srvRouterDispatch E' fuel' d) := by
  unfold srvRouterDispatch
  rw [h.request]
  refine .ite Iff.rfl (.back _ h) ?_
  refine .ite Iff.rfl (responseWriterError_abreast 404 hle h) ?_
  exact .ite Iff.rfl (handlerDbApp_abreast hle h) (responseWriterError_abreast 404 hle h)

theorem afterDispatch_abreast (rc : Status) (h : Abreast E E' a b c d) :
    Pairs (Abreast E E' a b) (afterDispatch rc c) (afterDispatch rc d) := by
  obtain ⟨fd, t, hc, hd, ht, hm⟩ := h
  have hcleared : Abreast E E' a b _ _ := .mk { c with cli := { c.cli with
    httpParser := c.cli.httpParser.map H.clear, bufIdx := 0, httpRequest := {} } } fd t hc hd ht hm
  refine .ite Iff.rfl ⟨rfl, hcleared.reset⟩ (.ite Iff.rfl ⟨rfl, hcleared⟩ ?_)
  exact .ite Iff.rfl ⟨rfl, hcleared.reset⟩ ⟨rfl, hcleared⟩

/-- The request of a client, stored. -/
theorem Abreast.stored (h : Abreast E E' a b c d) (req : HttpRequest) (threadId : Nat) :
    Abreast E E' a b { c with cli := (clientStoreRequest c.cli req threadId).2 }
      { d with cli := (clientStoreRequest d.cli req threadId).2 } := by
  obtain ⟨fd, t, hc, hd, ht, hm⟩ := h
  unfold clientStoreRequest
  cases req.messageComplete with
  | false => exact .mk c fd t hc hd ht hm
  | true => exact .mk _ fd t hc hd ht hm

end DBServer.Proof
