import DBServer.Client.ResponseWriter

/-!
# A parked response is delivered exactly once

The state of one send lives in three fields of the client and survives any number
of reactor rounds. `Sending` is the invariant that carries it: what the kernel has
taken is the response up to `send_off`, and the buffer still holds the rest of it.
`trySend_cases` says everything one call of `_try_send` can come back with, or be
in the middle of; the statements about a whole exchange are read off it.
-/

namespace DBServer.Proof

open DBServer Lib

variable {H : DbHttp} {E : Env} {w resp : Bytes} {c c' : Conn H} {fuel n : Nat}

/-! ## What a send leaves alone -/

/-- A send moves the parking fields and the activity stamp of its client, and nothing else of it. -/
structure SendFrame (c c' : Conn H) : Prop where
  cli : ∃ a d o l,
    c'.cli = { c.cli with lastActivity := a, draining := d, sendOff := o, sendLen := l }
  received : c'.received = c.received
  log : c'.log = c.log
  overwrote : c'.overwrote = c.overwrote

theorem SendFrame.refl (c : Conn H) : SendFrame c c := ⟨⟨_, _, _, _, rfl⟩, rfl, rfl, rfl⟩

theorem SendFrame.trans {c₁ c₂ c₃ : Conn H} (h : SendFrame c₁ c₂) (h' : SendFrame c₂ c₃) :
    SendFrame c₁ c₃ := by
  obtain ⟨a, d, o, l, h1⟩ := h.cli
  obtain ⟨a', d', o', l', h2⟩ := h'.cli
  exact ⟨⟨a', d', o', l', by rw [h2, h1]⟩, h'.received.trans h.received, h'.log.trans h.log,
    h'.overwrote.trans h.overwrote⟩

theorem SendFrame.buf (h : SendFrame c c') : c'.cli.buf = c.cli.buf := by
  obtain ⟨_, _, _, _, h⟩ := h.cli; rw [h]

theorem SendFrame.ctx (h : SendFrame c c') : c'.cli.ctx = c.cli.ctx := by
  obtain ⟨_, _, _, _, h⟩ := h.cli; rw [h]

theorem SendFrame.policy (h : SendFrame c c') :
    c'.cli.connectionPolicy = c.cli.connectionPolicy := by
  obtain ⟨_, _, _, _, h⟩ := h.cli; rw [h]

theorem sendFrame_next (c : Conn H) : SendFrame c c.next := ⟨⟨_, _, _, _, rfl⟩, rfl, rfl, rfl⟩

theorem sendFrame_wrote (E : Env) (n total : Nat) (c : Conn H) : SendFrame c (wrote E n total c) :=
  ⟨⟨_, _, _, _, rfl⟩, rfl, rfl, rfl⟩

theorem sendFrame_park (E : Env) (total : Nat) (c : Conn H) : SendFrame c (park E total c).2 := by
  unfold park
  split <;> exact ⟨⟨_, _, _, _, rfl⟩, rfl, rfl, rfl⟩

theorem trySend_frame (E : Env) (total : Nat) :
    ∀ (fuel : Nat) (c : Conn H), SendFrame c (trySend E total fuel c).2
  | 0, c => SendFrame.refl c
  | fuel + 1, c => by
      rw [trySend]
      split
      · split
        · exact (sendFrame_wrote E _ total c).trans (trySend_frame E total fuel _)
        · exact (sendFrame_next c).trans (trySend_frame E total fuel _)
        · split
          · exact sendFrame_park E total c
          · split
            · exact (sendFrame_next c).trans (trySend_frame E total fuel _)
            · exact ⟨⟨_, _, _, _, rfl⟩, rfl, rfl, rfl⟩
        · exact ⟨⟨_, _, _, _, rfl⟩, rfl, rfl, rfl⟩
      · exact ⟨⟨_, _, _, _, rfl⟩, rfl, rfl, rfl⟩

/-! ## The invariant of a send -/

/--
`resp` is on its way out of `cli->buf`: everything the kernel took since `w` is the
first `send_off` bytes of it, and the bytes behind those are still in the buffer.
-/
structure Sending (w resp : Bytes) (c : Conn H) : Prop where
  fd : 0 ≤ c.cli.ctx.fd
  off_le : c.cli.sendOff ≤ resp.length
  tail : c.cli.buf.slice c.cli.sendOff (resp.length - c.cli.sendOff) = resp.drop c.cli.sendOff
  wire : c.wire = w ++ resp.take c.cli.sendOff
  len : c.cli.sendLen = if c.cli.draining then resp.length else 0
  managed : c.cli.draining = true → c.cli.ctx.owner.isSome

/-- The three parking fields are zero. -/
structure Idle (cli : Client H) : Prop where
  draining : cli.draining = false
  sendOff : cli.sendOff = 0
  sendLen : cli.sendLen = 0

theorem idle_clearSend (cli : Client H) : Idle (clearSend cli) := ⟨rfl, rfl, rfl⟩

/-- The bytes of one `write` continue the response where the last one stopped. -/
theorem Sending.take_append_slice (h : Sending w resp c) {k : Nat}
    (hk : c.cli.sendOff + k ≤ resp.length) :
    resp.take c.cli.sendOff ++ c.cli.buf.slice c.cli.sendOff k = resp.take (c.cli.sendOff + k) := by
  have hle : k ≤ resp.length - c.cli.sendOff := by omega
  rw [← Buf.take_slice hle, h.tail, List.take_add]

/-- Behind those bytes the rest of it still follows. -/
theorem Sending.tail_add (h : Sending w resp c) {k : Nat} (hk : c.cli.sendOff + k ≤ resp.length) :
    c.cli.buf.slice (c.cli.sendOff + k) (resp.length - (c.cli.sendOff + k)) =
      resp.drop (c.cli.sendOff + k) := by
  have hcut : resp.length - c.cli.sendOff = k + (resp.length - (c.cli.sendOff + k)) := by omega
  have htail := h.tail
  rw [hcut, Buf.slice_add] at htail
  rw [← List.drop_drop, ← htail, List.drop_left' Buf.length_slice]

theorem Sending.next (h : Sending w resp c) : Sending w resp c.next :=
  ⟨h.fd, h.off_le, h.tail, h.wire, h.len, h.managed⟩

theorem Sending.wrote (h : Sending w resp c) (hlt : c.cli.sendOff < resp.length) :
    Sending w resp (wrote E n resp.length c) := by
  refine ⟨h.fd, ?_, ?_, ?_, h.len, h.managed⟩
  · simp only [DBServer.wrote, Conn.next]; omega
  · exact h.tail_add (by omega)
  · simp only [DBServer.wrote, Conn.next]
    rw [h.wire, List.append_assoc, h.take_append_slice (by omega)]

/--
**Everything `_try_send` can come back with.** It is still running, it parked with
bytes left, it got the whole response out, or a call failed on it.
-/
inductive Sent (w resp : Bytes) (c : Conn H) : Option Status × Conn H → Prop where
  | running {c' : Conn H} : Sending w resp c' → c'.faults = c.faults → Sent w resp c (none, c')
  | parked {c' : Conn H} : Sending w resp c' → c'.cli.draining = true →
      c'.cli.sendOff < resp.length → c'.faults = c.faults → Sent w resp c (some .success, c')
  | done {c' : Conn H} : Idle c'.cli → c'.wire = w ++ resp → c'.faults = c.faults →
      Sent w resp c (some .success, c')
  | failed {c' : Conn H} {k : Nat} : Idle c'.cli → k ≤ resp.length → c'.wire = w ++ resp.take k →
      c'.faults = c.faults + 1 → Sent w resp c (some .failure, c')

theorem Sent.of_faults {o : Option Status × Conn H} (hs : Sent w resp c' o)
    (h : c'.faults = c.faults) : Sent w resp c o := by
  cases hs with
  | running h1 h2 => exact .running h1 (h2.trans h)
  | parked h1 h2 h3 h4 => exact .parked h1 h2 h3 (h4.trans h)
  | done h1 h2 h3 => exact .done h1 h2 (h3.trans h)
  | failed h1 h2 h3 h4 => exact .failed h1 h2 h3 (by rw [h4, h])

theorem park_cases (h : Sending w resp c) (hlt : c.cli.sendOff < resp.length)
    (hown : c.cli.ctx.owner.isSome) :
    Sent w resp c (some (park E resp.length c).1, (park E resp.length c).2) := by
  unfold park
  split
  · exact .parked ⟨h.fd, h.off_le, h.tail, h.wire, rfl, fun _ => hown⟩ rfl hlt rfl
  · exact .failed (idle_clearSend _) h.off_le h.wire rfl

theorem trySend_cases (E : Env) : ∀ (fuel : Nat) {c : Conn H},
    Sending w resp c → Sent w resp c (trySend E resp.length fuel c)
  | 0, _, h => .running h rfl
  | fuel + 1, c, h => by
      rw [trySend]
      split
      · rename_i hlt
        split
        · exact (trySend_cases E fuel (h.wrote hlt)).of_faults rfl
        · exact (trySend_cases E fuel h.next).of_faults rfl
        · split
          · rename_i hown
            exact park_cases h hlt hown
          · rename_i hown
            split
            · exact (trySend_cases E fuel h.next).of_faults rfl
            · -- a client without a reactor was never parked, so its length field is already zero
              have hd : c.cli.draining = false := by
                cases hq : c.cli.draining with
                | false => rfl
                | true => exact absurd (h.managed hq) hown
              have hl : c.cli.sendLen = 0 := by rw [h.len, hd]; rfl
              exact .failed ⟨hd, rfl, hl⟩ h.off_le h.wire rfl
        · exact .failed (idle_clearSend _) h.off_le h.wire rfl
      · rename_i hge
        have hall : c.cli.sendOff = resp.length := Nat.le_antisymm h.off_le (Nat.not_lt.mp hge)
        exact .done (idle_clearSend _) (by rw [h.wire, hall, List.take_length]) rfl

/-! ## Serializing only lays bytes out -/

/-- `c'` is `c` with other bytes in its buffer, and perhaps another connection policy. -/
structure LaidOut (c c' : Conn H) : Prop where
  cli : ∃ b p, c'.cli = { c.cli with buf := b, connectionPolicy := p }
  wire : c'.wire = c.wire
  log : c'.log = c.log
  faults : c'.faults = c.faults
  mask : c'.mask = c.mask
  overwrote : c.cli.draining = false → c'.overwrote = c.overwrote

theorem LaidOut.refl (c : Conn H) : LaidOut c c := ⟨⟨_, _, rfl⟩, rfl, rfl, rfl, rfl, fun _ => rfl⟩

theorem LaidOut.trans {c₁ c₂ c₃ : Conn H} (h : LaidOut c₁ c₂) (h' : LaidOut c₂ c₃) :
    LaidOut c₁ c₃ := by
  obtain ⟨b, p, h1⟩ := h.cli
  obtain ⟨b', p', h2⟩ := h'.cli
  refine ⟨⟨b', p', by rw [h2, h1]⟩, h'.wire.trans h.wire, h'.log.trans h.log,
    h'.faults.trans h.faults, h'.mask.trans h.mask, ?_⟩
  intro hd
  exact (h'.overwrote (by rw [h1]; exact hd)).trans (h.overwrote hd)

theorem LaidOut.ctx (h : LaidOut c c') : c'.cli.ctx = c.cli.ctx := by
  obtain ⟨_, _, h⟩ := h.cli; rw [h]

theorem LaidOut.idle (h : LaidOut c c') (hi : Idle c.cli) : Idle c'.cli := by
  obtain ⟨_, _, h⟩ := h.cli
  exact ⟨by rw [h]; exact hi.draining, by rw [h]; exact hi.sendOff, by rw [h]; exact hi.sendLen⟩

theorem laidOut_writeBuf (c : Conn H) (off : Nat) (bs : Bytes) : LaidOut c (c.writeBuf off bs) := by
  refine ⟨⟨_, _, rfl⟩, rfl, rfl, rfl, rfl, ?_⟩
  intro hd
  simp [Conn.writeBuf, hd]

theorem laidOut_closing (c : Conn H) : LaidOut c (closing c) :=
  ⟨⟨_, _, rfl⟩, rfl, rfl, rfl, rfl, fun _ => rfl⟩

theorem appendFmt_laidOut (bs : Bytes) {s : Option Nat × Conn H} (h : LaidOut c s.2) :
    LaidOut c (appendFmt bs s).2 := by
  obtain ⟨_ | off, c'⟩ := s
  · exact h
  · have hw : LaidOut c (c'.writeBuf off (bs.take (H.maxBufferLen - off - 1) ++ [0])) :=
      h.trans (laidOut_writeBuf _ _ _)
    by_cases hlong : H.maxBufferLen - off ≤ bs.length
    · rw [appendFmt, if_pos hlong]; exact hw
    · rw [appendFmt, if_neg hlong]; exact hw

theorem foldl_appendFmt_laidOut : ∀ (hs : List (Bytes × Bytes)) {s : Option Nat × Conn H},
    LaidOut c s.2 → LaidOut c (hs.foldl (fun s h => appendFmt (headerLine h) s) s).2
  | [], _, h => h
  | _ :: hs, _, h => foldl_appendFmt_laidOut hs (appendFmt_laidOut _ h)

theorem appendBody_laidOut (body : Bytes) {s : Option Nat × Conn H} (h : LaidOut c s.2) :
    LaidOut c (appendBody body s).2 := by
  obtain ⟨_ | off, c'⟩ := s
  · exact h
  · by_cases hroom : H.maxBufferLen - off < 2 + body.length
    · rw [appendBody, if_pos hroom]; exact h
    · have hw : LaidOut c (c'.writeBuf off (ascii "\r\n")) := h.trans (laidOut_writeBuf _ _ _)
      rw [appendBody, if_neg hroom]
      by_cases hb : 0 < body.length
      · simp only [if_pos hb]; exact hw.trans (laidOut_writeBuf _ _ _)
      · simp only [if_neg hb]; exact hw

theorem serialize_laidOut (E : Env) (res : AppResponse) (c : Conn H) :
    LaidOut c (serialize E res c).2 := by
  unfold serialize
  refine appendBody_laidOut _ (foldl_appendFmt_laidOut _ ?_)
  have hhead : LaidOut c (appendFmt (statusHead res (c.cli.connectionPolicy == H.keepAlive))
      (some 0, c)).2 := appendFmt_laidOut _ (LaidOut.refl c)
  split
  · exact appendFmt_laidOut _ hhead
  · exact hhead

theorem errorMessage_pos (status : Nat) : 0 < (errorMessage status).length := by
  have hversion : 0 < (ascii "HTTP/1.1 ").length := by decide
  simp only [errorMessage, List.length_append]
  omega

/-- What `snprintf` appended is counted in full. -/
theorem appendFmt_length {bs : Bytes} {off : Nat} (h : (appendFmt bs (some off, c)).1 = some n) :
    n = off + bs.length := by
  rw [appendFmt] at h
  split at h
  · exact absurd h (by simp)
  · exact (Option.some.inj h).symm

/-- A message that fits has at least its blank line. -/
theorem appendBody_pos {body : Bytes} {s : Option Nat × Conn H}
    (h : (appendBody body s).1 = some n) : 0 < n := by
  obtain ⟨_ | off, d⟩ := s
  · exact absurd h (by simp [appendBody])
  · rw [appendBody] at h
    split at h
    · exact absurd h (by simp)
    · have hn : off + 2 + body.length = n := Option.some.inj h
      omega

/-! ## Handing a response to the socket -/

/-- One of the two calls that start a response. -/
inductive Start where
  | send (res : AppResponse)
  | error (status : Nat)

/-- The call itself. -/
def Start.call (E : Env) (fuel : Nat) (c : Conn H) : Start → Option Status × Conn H
  | .send res => responseWriterSend E fuel res c
  | .error status => responseWriterError E fuel status c

/-- The call serialized `resp` and handed it to the socket. -/
def Start.Hands (E : Env) (start : Start) (c : Conn H) (resp : Bytes) : Prop :=
  ∃ fuel, (start.call E fuel c).2.log = c.log ++ [.respond resp]

/--
**A starting call either refuses at once or hands over one response.** Which of the
two, and which response, does not depend on the kernel.
-/
theorem responseWriterError_split (E : Env) (status : Nat) (c : Conn H) :
    (∃ c', LaidOut c c' ∧ ∀ fuel, responseWriterError E fuel status c = (some .failure, c')) ∨
    (∃ c' n, 0 ≤ c.cli.ctx.fd ∧ 0 < n ∧ LaidOut c c' ∧
      ∀ fuel, responseWriterError E fuel status c = startSend E fuel n c') := by
  by_cases hfd : c.cli.ctx.fd < 0
  · exact .inl ⟨c, LaidOut.refl c, fun _ => by rw [responseWriterError, if_pos hfd]⟩
  · have hl : LaidOut c (appendFmt (errorMessage status) (some 0, closing c)).2 :=
      appendFmt_laidOut _ (laidOut_closing c)
    rcases hs : appendFmt (errorMessage status) (some 0, closing c) with ⟨_ | n, c'⟩
    · rw [hs] at hl
      exact .inl ⟨c', hl, fun _ => by rw [responseWriterError, if_neg hfd, hs]⟩
    · have hn := appendFmt_length (congrArg Prod.fst hs)
      have hpos := errorMessage_pos status
      rw [hs] at hl
      exact .inr ⟨c', n, Int.not_lt.mp hfd, by omega, hl,
        fun _ => by rw [responseWriterError, if_neg hfd, hs]⟩

theorem Start.split (E : Env) (start : Start) (c : Conn H) :
    (∃ c', LaidOut c c' ∧ ∀ fuel, start.call E fuel c = (some .failure, c')) ∨
    (∃ c' n, 0 ≤ c.cli.ctx.fd ∧ 0 < n ∧ LaidOut c c' ∧
      ∀ fuel, start.call E fuel c = startSend E fuel n c') := by
  cases start with
  | error status => exact responseWriterError_split E status c
  | send res =>
      show (∃ c', LaidOut c c' ∧ ∀ fuel, responseWriterSend E fuel res c = (some .failure, c')) ∨
        (∃ c' n, 0 ≤ c.cli.ctx.fd ∧ 0 < n ∧ LaidOut c c' ∧
          ∀ fuel, responseWriterSend E fuel res c = startSend E fuel n c')
      by_cases hbad : c.cli.ctx.fd < 0 ∨ res.status < 100 ∨ 599 < res.status
      · exact .inl ⟨c, LaidOut.refl c, fun _ => by rw [responseWriterSend, if_pos hbad]⟩
      · have hfd : 0 ≤ c.cli.ctx.fd := Int.not_lt.mp fun h => hbad (.inl h)
        have hl := serialize_laidOut E res c
        rcases hs : serialize E res c with ⟨_ | n, c'⟩ <;> rw [hs] at hl
        · -- too large: the answer becomes the fixed 500
          rcases responseWriterError_split E 500 c' with ⟨d, hd, h⟩ | ⟨d, n, _, hn, hd, h⟩
          · exact .inl ⟨d, hl.trans hd, fun fuel => by
              rw [responseWriterSend, if_neg hbad, hs]; exact h fuel⟩
          · exact .inr ⟨d, n, hfd, hn, hl.trans hd, fun fuel => by
              rw [responseWriterSend, if_neg hbad, hs]; exact h fuel⟩
        · have hpos : 0 < n := appendBody_pos (congrArg Prod.fst hs)
          exact .inr ⟨c', n, hfd, hpos, hl, fun _ => by rw [responseWriterSend, if_neg hbad, hs]⟩

/-- A fresh send starts at byte 0 of what the buffer holds. -/
theorem startSend_sending (total : Nat) (hfd : 0 ≤ c.cli.ctx.fd) (hi : Idle c.cli) :
    Sending c.wire (c.cli.buf.slice 0 total) (started total c) := by
  refine ⟨hfd, Nat.zero_le _, by rw [Buf.length_slice]; rfl, ?_, ?_, ?_⟩
  · exact (List.append_nil _).symm
  · show c.cli.sendLen = if c.cli.draining then _ else 0
    rw [hi.draining, hi.sendLen]; rfl
  · intro hd
    exact absurd (hi.draining.symm.trans hd) (by simp)

theorem startSend_cases (E : Env) (fuel total : Nat) (hfd : 0 ≤ c.cli.ctx.fd) (hi : Idle c.cli) :
    Sent c.wire (c.cli.buf.slice 0 total) c (startSend E fuel total c) := by
  have h := trySend_cases E fuel (startSend_sending total hfd hi)
  rw [Buf.length_slice] at h
  exact h.of_faults rfl

theorem startSend_log (E : Env) (fuel total : Nat) (c : Conn H) :
    (startSend E fuel total c).2.log = c.log ++ [.respond (c.cli.buf.slice 0 total)] :=
  (trySend_frame E total fuel _).log

theorem Start.Hands.split {start : Start} (h : start.Hands E c resp) :
    ∃ c' n, 0 ≤ c.cli.ctx.fd ∧ LaidOut c c' ∧ c'.cli.buf.slice 0 n = resp ∧
      ∀ fuel, start.call E fuel c = startSend E fuel n c' := by
  obtain ⟨fuel₀, hlog⟩ := h
  rcases Start.split E start c with ⟨c', hl, hcall⟩ | ⟨c', n, hfd, _, hl, hcall⟩
  · rw [hcall fuel₀, hl.log] at hlog
    exact absurd hlog (by simp)
  · rw [hcall fuel₀, startSend_log, hl.log] at hlog
    exact ⟨c', n, hfd, hl, by simpa using hlog, hcall⟩

/-- What a starting call that hands over `resp` comes back with. -/
theorem Start.Hands.cases {start : Start} (h : start.Hands E c resp) (hi : Idle c.cli)
    (fuel : Nat) : Sent c.wire resp c (start.call E fuel c) := by
  obtain ⟨c', n, hfd, hl, hresp, hcall⟩ := h.split
  have hsent := startSend_cases E fuel n (by rw [hl.ctx]; exact hfd) (hl.idle hi)
  rw [hresp, hl.wire] at hsent
  rw [hcall fuel]
  exact hsent.of_faults hl.faults

/-! ## A whole exchange -/

/--
Every state of one exchange: a response is started once and then resumed any number
of times, every call being watched for any number of its rounds.
-/
inductive Exchange (E : Env) (start : Start) (c₀ : Conn H) : Option Status × Conn H → Prop where
  | started (fuel : Nat) : Exchange E start c₀ (start.call E fuel c₀)
  | resumed {rc : Status} {c : Conn H} (fuel : Nat) : Exchange E start c₀ (some rc, c) →
      Exchange E start c₀ (responseWriterResume E fuel c)

/-- Where an exchange stands: `Sent`, with the verdict of the call that finished it left open. -/
inductive Stage (w resp : Bytes) (f : Nat) : Option Status × Conn H → Prop where
  | running {c : Conn H} : Sending w resp c → c.faults = f → Stage w resp f (none, c)
  | parked {c : Conn H} : Sending w resp c → c.cli.draining = true →
      c.cli.sendOff < resp.length → c.faults = f → Stage w resp f (some .success, c)
  | done {c : Conn H} {rc : Status} : Idle c.cli → c.wire = w ++ resp → f ≤ c.faults →
      Stage w resp f (some rc, c)
  | failed {c : Conn H} {k : Nat} : Idle c.cli → k ≤ resp.length → c.wire = w ++ resp.take k →
      f < c.faults → Stage w resp f (some .failure, c)

theorem Sent.stage {o : Option Status × Conn H} (h : Sent w resp c o) :
    Stage w resp c.faults o := by
  cases h with
  | running h1 h2 => exact .running h1 h2
  | parked h1 h2 h3 h4 => exact .parked h1 h2 h3 h4
  | done h1 h2 h3 => exact .done h1 h2 h3.ge
  | failed h1 h2 h3 h4 => exact .failed h1 h2 h3 (by omega)

/-- A client with nothing parked is refused, and nothing moves. -/
theorem resume_of_idle (E : Env) (fuel : Nat) (h : c.cli.draining = false) :
    responseWriterResume E fuel c = (some .failure, c) := by
  rw [responseWriterResume, if_pos (.inr h)]

theorem resumeDone_stage (hi : Idle c.cli) (hw : c.wire = w ++ resp) :
    Stage w resp c.faults (some (resumeDone E c).1, (resumeDone E c).2) := by
  have hlast : Idle (resumeDone E c).2.cli ∧ (resumeDone E c).2.wire = c.wire ∧
      c.faults ≤ (resumeDone E c).2.faults := by
    unfold resumeDone
    split
    · exact ⟨hi, rfl, Nat.le_refl _⟩
    · exact ⟨hi, rfl, Nat.le_succ _⟩
  exact .done hlast.1 (hlast.2.1.trans hw) hlast.2.2

/-- Resuming a parked response runs `_try_send` on the rest of it, and then settles the verdict. -/
theorem resume_of_parked (E : Env) (fuel : Nat) (h : Sending w resp c)
    (hd : c.cli.draining = true) :
    responseWriterResume E fuel c = andThen (trySend E resp.length fuel c) (resumeRest E) := by
  have hfd := h.fd
  have hlen : c.cli.sendLen = resp.length := by rw [h.len, hd]; rfl
  have hok : ¬(c.cli.ctx.fd < 0 ∨ c.cli.draining = false) := by
    rintro (hneg | hfree)
    · omega
    · exact absurd (hd.symm.trans hfree) (by simp)
  rw [responseWriterResume, if_neg hok, hlen]

theorem resume_stage {rc : Status} {f : Nat} (E : Env) (fuel : Nat)
    (h : Stage w resp f (some rc, c)) : Stage w resp f (responseWriterResume E fuel c) := by
  cases h with
  | parked hs hd hlt hf =>
      rw [resume_of_parked E fuel hs hd, ← hf]
      have hsent := trySend_cases E fuel hs
      generalize trySend E resp.length fuel c = o at hsent ⊢
      cases hsent with
      | running h1 h2 => exact .running h1 h2
      | parked h1 h2 h3 h4 =>
          rw [andThen_some, resumeRest, if_pos h2]
          exact .parked h1 h2 h3 h4
      | done h1 h2 h3 =>
          rw [andThen_some, resumeRest, if_neg (by simp [h1.draining])]
          exact h3 ▸ resumeDone_stage h1 h2
      | failed h1 h2 h3 h4 => exact .failed h1 h2 h3 (by omega)
  | done hi hw hf =>
      rw [resume_of_idle E fuel hi.draining]
      exact .done hi hw hf
  | failed hi hk hw hf =>
      rw [resume_of_idle E fuel hi.draining]
      exact .failed hi hk hw hf

theorem Exchange.stage {start : Start} {o : Option Status × Conn H} (h : Exchange E start c o)
    (hh : start.Hands E c resp) (hi : Idle c.cli) : Stage c.wire resp c.faults o := by
  induction h with
  | started fuel => exact (hh.cases hi fuel).stage
  | resumed fuel _ ih => exact resume_stage E fuel ih

/-! ## The verdict of a resume -/

/--
Without a failed call, a resume comes back with success while bytes are left, and
otherwise with the verdict the exchange had put off.
-/
theorem resume_verdict {rc : Status} (h : Sending w resp c) (hd : c.cli.draining = true)
    (hr : responseWriterResume E fuel c = (some rc, c')) (hf : c'.faults = c.faults) :
    (c'.cli.draining = true ∧ c'.cli.sendOff < resp.length ∧ rc = .success) ∨
    (c'.cli.draining = false ∧ c'.wire = w ++ resp ∧
      rc = if c.cli.connectionPolicy = H.close then .failure else .success) := by
  rw [resume_of_parked E fuel h hd] at hr
  have hsent := trySend_cases E fuel h
  have hframe := trySend_frame E resp.length fuel c
  generalize trySend E resp.length fuel c = o at hsent hframe hr
  cases hsent with
  | running => simp at hr
  | parked h1 h2 h3 h4 =>
      rw [andThen_some, resumeRest, if_pos h2, Prod.mk.injEq, Option.some.injEq] at hr
      obtain ⟨rfl, rfl⟩ := hr
      exact .inl ⟨h2, h3, rfl⟩
  | @done d h1 h2 h3 =>
      rw [andThen_some, resumeRest, if_neg (by simp [h1.draining]), Prod.mk.injEq,
        Option.some.injEq] at hr
      obtain ⟨rfl, rfl⟩ := hr
      by_cases hrearm : d.cli.ctx.owner.isSome ∧ E.reactorMod d.tick
      · rw [resumeDone, if_pos hrearm, hframe.policy]
        exact .inr ⟨h1.draining, h2, rfl⟩
      · -- the re-arm failed, which is a fault
        rw [resumeDone, if_neg hrearm] at hf
        have hfault : d.faults + 1 = c.faults := hf
        omega
  | failed h1 h2 h3 h4 =>
      rw [andThen_some, resumeRest, Prod.mk.injEq] at hr
      obtain ⟨-, rfl⟩ := hr
      omega

/-! ## A call comes back -/

/-- The kernel took something or reported an error: the answer ends or shortens the send. -/
def Moves : WriteReply → Prop
  | .wrote _ | .error => True
  | .eintr | .eagain => False

theorem wrote_remaining (E : Env) (n total : Nat) (hlt : c.cli.sendOff < total) :
    total - (wrote E n total c).cli.sendOff < total - c.cli.sendOff := by
  simp only [wrote]; omega

/--
`_try_send` comes back as soon as the kernel stops answering `EINTR` and `EAGAIN`
for ever: every answer that moves leaves fewer bytes.
-/
theorem trySend_settles (hE : ∀ t, ∃ u ≥ t, Moves (E.write u)) (total : Nat) (c : Conn H) :
    Settles fun fuel => trySend E total fuel c := by
  refine Settles.of_progress (r := fun c fuel => trySend E total fuel c) Conn.tick
    (fun c => total - c.cli.sendOff) hE ?_ c
  intro c hsmaller hlater
  by_cases hlt : c.cli.sendOff < total
  · cases hw : E.write c.tick with
    | wrote n =>
        refine (hsmaller (wrote E n total c) (wrote_remaining E n total hlt)).of_succ ?_
        intro fuel
        rw [trySend, if_pos hlt, hw]
    | eintr =>
        refine (hlater (by rw [hw]; exact id) c.next rfl rfl).of_succ ?_
        intro fuel
        rw [trySend, if_pos hlt, hw]
    | eagain =>
        by_cases hown : c.cli.ctx.owner.isSome
        · exact Settles.const_succ fun fuel => by
            rw [trySend, if_pos hlt, hw]; exact if_pos hown
        · by_cases hready : E.pollOut c.tick = .ready
          · refine (hlater (by rw [hw]; exact id) c.next rfl rfl).of_succ ?_
            intro fuel
            simp only [trySend, if_pos hlt, hw, if_neg hown, if_pos hready]
          · exact Settles.const_succ fun fuel => by
              rw [trySend, if_pos hlt, hw]; exact (if_neg hown).trans (if_neg hready)
    | error => exact Settles.const_succ fun fuel => by rw [trySend, if_pos hlt, hw]
  · exact Settles.const_succ fun fuel => by rw [trySend, if_neg hlt]

theorem startSend_settles (hE : ∀ t, ∃ u ≥ t, Moves (E.write u)) (total : Nat) (c : Conn H) :
    Settles fun fuel => startSend E fuel total c :=
  trySend_settles hE total _

theorem resume_settles (hE : ∀ t, ∃ u ≥ t, Moves (E.write u)) (c : Conn H) :
    Settles fun fuel => responseWriterResume E fuel c := by
  by_cases hbad : c.cli.ctx.fd < 0 ∨ c.cli.draining = false
  · exact Settles.const fun fuel => by rw [responseWriterResume, if_pos hbad]
  · refine Settles.congr (Settles.bind (trySend_settles hE c.cli.sendLen c) ?_)
      fun fuel => by rw [responseWriterResume, if_neg hbad]
    intro rc d
    cases rc with
    | failure => exact Settles.const fun _ => rfl
    | success =>
        by_cases hd : d.cli.draining
        · exact Settles.const fun _ => if_pos hd
        · exact Settles.const fun _ => if_neg hd

theorem Start.call_settles (hE : ∀ t, ∃ u ≥ t, Moves (E.write u)) (start : Start) (c : Conn H) :
    Settles fun fuel => start.call E fuel c := by
  rcases Start.split E start c with ⟨c', _, hcall⟩ | ⟨c', n, _, _, _, hcall⟩
  · exact Settles.const hcall
  · exact (startSend_settles hE n c').congr hcall

/-! ## Exactly once, byte for byte -/

/-- What holds of the socket and of the parking fields in one state of an exchange. -/
structure Delivered (resp : Bytes) (c₀ : Conn H) (o : Option Status × Conn H) : Prop where
  /-- The kernel took a prefix of the response, and `send_off` is its length until the end. -/
  taken : ∃ k ≤ resp.length, o.2.wire = c₀.wire ++ resp.take k ∧
    (o.1 = none ∨ o.2.cli.draining = true → o.2.cli.sendOff = k)
  /-- A call that came back unparked and without an error wrote everything. -/
  whole : o.1 ≠ none → o.2.cli.draining = false → o.2.faults = c₀.faults →
    o.2.wire = c₀.wire ++ resp
  parked : o.2.cli.draining = true → o.2.cli.sendLen = resp.length ∧
    (o.1 ≠ none → o.2.cli.sendOff < resp.length)
  unparked : o.1 ≠ none → o.2.cli.draining = false → o.2.cli.sendOff = 0 ∧ o.2.cli.sendLen = 0
  unmanaged : o.2.cli.ctx.owner = none → o.2.cli.draining = false

theorem Sending.unmanaged (h : Sending w resp c) (hown : c.cli.ctx.owner = none) :
    c.cli.draining = false := by
  cases hd : c.cli.draining with
  | false => rfl
  | true =>
      have howned := h.managed hd
      rw [hown] at howned
      exact absurd howned (by simp)

theorem Stage.delivered {o : Option Status × Conn H} {c₀ : Conn H}
    (h : Stage c₀.wire resp c₀.faults o) : Delivered resp c₀ o := by
  cases h with
  | running h hf =>
      refine ⟨⟨_, h.off_le, h.wire, fun _ => rfl⟩, by simp, ?_, by simp, h.unmanaged⟩
      intro hd
      exact ⟨by rw [h.len]; exact if_pos hd, by simp⟩
  | parked h hd hlt hf =>
      refine ⟨⟨_, h.off_le, h.wire, fun _ => rfl⟩, ?_, ?_, ?_, h.unmanaged⟩
      · intro _ hfree; exact absurd (hd.symm.trans hfree) (by simp)
      · intro _; exact ⟨by rw [h.len]; exact if_pos hd, fun _ => hlt⟩
      · intro _ hfree; exact absurd (hd.symm.trans hfree) (by simp)
  | done hi hw hf =>
      refine ⟨⟨resp.length, Nat.le_refl _, by rw [List.take_length]; exact hw, ?_⟩,
        fun _ _ _ => hw, ?_, fun _ _ => ⟨hi.sendOff, hi.sendLen⟩, fun _ => hi.draining⟩
      · rintro (hn | hd)
        · simp at hn
        · exact absurd (hi.draining.symm.trans hd) (by simp)
      · intro hd; exact absurd (hi.draining.symm.trans hd) (by simp)
  | @failed c k hi hk hw hf =>
      refine ⟨⟨k, hk, hw, ?_⟩, ?_, ?_, fun _ _ => ⟨hi.sendOff, hi.sendLen⟩, fun _ => hi.draining⟩
      · rintro (hn | hd)
        · simp at hn
        · exact absurd (hi.draining.symm.trans hd) (by simp)
      · intro _ _ hclean
        have : c.faults = c₀.faults := hclean
        omega
      · intro hd; exact absurd (hi.draining.symm.trans hd) (by simp)

/--
**A parked response is delivered exactly once.** In every state of every exchange
the bytes on the wire and the parking fields agree; a resume's verdict waits for
the last byte; and every call comes back once the kernel lets the send move.
-/
theorem parked_response_delivered_once {start : Start} {c₀ : Conn H} (hi : Idle c₀.cli)
    (hh : start.Hands E c₀ resp) :
    (∀ o, Exchange E start c₀ o → Delivered resp c₀ o) ∧
    (∀ rc c, Exchange E start c₀ (some rc, c) → c.cli.draining = true →
      ∀ fuel rc' c', responseWriterResume E fuel c = (some rc', c') → c'.faults = c₀.faults →
        (c'.cli.draining = true ∧ c'.cli.sendOff < resp.length ∧ rc' = .success) ∨
        (c'.cli.draining = false ∧ c'.wire = c₀.wire ++ resp ∧
          rc' = if c.cli.connectionPolicy = H.close then .failure else .success)) ∧
    ((∀ t, ∃ u ≥ t, Moves (E.write u)) →
      Settles (fun fuel => start.call E fuel c₀) ∧
      ∀ rc c, Exchange E start c₀ (some rc, c) →
        Settles fun fuel => responseWriterResume E fuel c) := by
  refine ⟨?_, ?_, ?_⟩
  · intro o ho
    exact (ho.stage hh hi).delivered
  · intro rc c hc hd fuel rc' c' hr hf
    have hstage := hc.stage hh hi
    cases hstage with
    | parked h _ _ hfc => exact resume_verdict h hd hr (hf.trans hfc.symm)
    | done hidle => exact absurd (hidle.draining.symm.trans hd) (by simp)
    | failed hidle => exact absurd (hidle.draining.symm.trans hd) (by simp)
  · intro hE
    exact ⟨Start.call_settles hE start c₀, fun _ c _ => resume_settles hE c⟩

/-- A managed client on descriptor 7 of a server with 256 bytes of buffer. -/
def managedClient : Client DbHttp.small :=
  { Client.zeroed _ with isBusy := true, ctx := ⟨7, some 0, some .operatorClient⟩ }

/-- The kernel takes ten bytes, is full twice, and then takes the rest. -/
def slowPeer : Env :=
  { Env.smooth { status := 200 } with
    write := fun t => if t = 0 then .wrote 9 else if t < 4 then .eagain else .wrote 65535 }

theorem parked_response_delivered_once_404 :
    let c₀ := Conn.fresh managedClient
    let parked := responseWriterError slowPeer 2 404 c₀
    parked.1 = some .success ∧ parked.2.cli.draining = true ∧ parked.2.cli.sendOff = 10 ∧
      Delivered (errorMessage 404) c₀ (responseWriterResume slowPeer 3 parked.2) := by
  have hh : (Start.error 404).Hands slowPeer (Conn.fresh managedClient) (errorMessage 404) :=
    ⟨0, by decide +kernel⟩
  have hrun := (parked_response_delivered_once (E := slowPeer) ⟨rfl, rfl, rfl⟩ hh).1
  have hsent : responseWriterError slowPeer 2 404 (Conn.fresh managedClient) =
      (some .success, (responseWriterError slowPeer 2 404 (Conn.fresh managedClient)).2) := by
    have hrc : (responseWriterError slowPeer 2 404 (Conn.fresh managedClient)).1 =
        some .success := by decide +kernel
    rw [← hrc]
  have hstart : Exchange slowPeer (.error 404) (Conn.fresh managedClient)
      (some .success, (responseWriterError slowPeer 2 404 (Conn.fresh managedClient)).2) := by
    rw [← hsent]
    exact .started 2
  exact ⟨by rw [hsent], by decide +kernel, by decide +kernel, hrun _ (.resumed 3 hstart)⟩

end DBServer.Proof
