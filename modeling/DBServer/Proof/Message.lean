import DBServer.Lib.Message
import DBServer.Proof.Serialize
import DBServer.Proof.Upload

/-!
# A response is printed whole or not at all

`response_writer_send` prints into `cli->buf` in four bounded steps, each with a room check
of its own. `Printed` says what the steps have done so far: either the text up to here
stands at the front of the buffer, or it could not have fitted. The checks are stricter
than they would have to be (`snprintf` wants room for a terminator), but never by more than
the blank line that is still to come, so together they accept exactly what fits.
-/

namespace DBServer.Proof

open DBServer Lib

variable {H : DbHttp} {E : Env} {c c' : Conn H} {n : Nat} {bs text : Bytes} {res : AppResponse}
  {s : Option Nat × Conn H}

/-! ## The message -/

/-- The start line of a response. -/
def startLine (status : Nat) : Bytes :=
  ascii "HTTP/1.1 " ++ decimal status ++ ascii " " ++ ascii (reasonPhrase status)

/-- Its fields: the length, the connection's fate, the type of a body that has one, the rest. -/
def fieldsOf (res : AppResponse) (keepAlive : Bool) : List (Bytes × Bytes) :=
  [(ascii "Content-Length", decimal res.body.length),
    (ascii "Connection", ascii (if keepAlive then "keep-alive" else "close"))] ++
  (if 0 < res.body.length then res.contentType.toList.map (ascii "Content-Type", ·) else []) ++
  res.headers

/-- The message a response is to be sent as. -/
def messageOf (res : AppResponse) (keepAlive : Bool) : Bytes :=
  Message.print (startLine res.status) (fieldsOf res keepAlive) res.body

/-- A text that ends no line and no C string. -/
def Plain (bs : Bytes) : Prop := 13 ∉ bs ∧ 10 ∉ bs ∧ 0 ∉ bs

/-- A response of the application as it promises them. -/
structure WellFormed (E : Env) (res : AppResponse) : Prop where
  status : 100 ≤ res.status ∧ res.status ≤ 599
  few : res.headers.length ≤ E.headersMax
  names : ∀ h ∈ res.headers, 58 ∉ h.1 ∧ Plain h.1
  values : ∀ h ∈ res.headers, Plain h.2
  contentType : ∀ t, res.contentType = some t → Plain t

/-- The status a start line carries: the number behind its first nine bytes. -/
def statusOf (start : Bytes) : Option Nat :=
  Message.number ((start.drop 9).takeWhile fun b => b != 32)

theorem decimal_no_space (k : Nat) : ∀ b ∈ decimal k, (b != 32) = true := by
  intro b hb
  obtain ⟨d, hd, rfl⟩ := List.mem_map.mp hb
  have hdigit := Nat.isDigit_of_mem_toDigits (by decide) (by decide) hd
  have hlow := (Message.digit_toUInt8 hdigit).1
  rw [bne_iff_ne]
  intro hspace
  rw [hspace] at hlow
  exact absurd hlow (by decide)

/-- The status reads back. -/
theorem statusOf_startLine (status : Nat) : statusOf (startLine status) = some status := by
  have hskip : (startLine status).drop 9 =
      decimal status ++ (32 :: ascii (reasonPhrase status)) := by
    simp only [startLine, List.append_assoc]
    exact List.drop_left' (by decide)
  rw [statusOf, hskip, List.takeWhile_append_of_pos (decimal_no_space status),
    List.takeWhile_cons_of_neg (by decide), List.append_nil]
  exact Message.number_digits status

theorem startLine_no_cr (status : Nat) : 13 ∉ startLine status := by
  simp only [startLine, List.mem_append, not_or]
  exact ⟨⟨⟨by decide, decimal_no_cr _⟩, by decide⟩, reasonPhrase_no_cr _⟩

theorem oneLine_of {name value : Bytes} (hname : 58 ∉ name ∧ 13 ∉ name) (hvalue : 13 ∉ value) :
    Message.OneLine (name, value) := ⟨hname.1, hname.2, hvalue⟩

theorem fieldsOf_oneLine (h : WellFormed E res) (keepAlive : Bool) :
    ∀ f ∈ fieldsOf res keepAlive, Message.OneLine f := by
  intro f hf
  rw [fieldsOf] at hf
  rcases List.mem_append.mp hf with hf | hf
  · rcases List.mem_append.mp hf with hf | hf
    · rcases List.mem_pair.mp hf with rfl | rfl
      · exact oneLine_of (by decide) (decimal_no_cr _)
      · refine oneLine_of (by decide) ?_
        cases keepAlive with
        | true => decide
        | false => decide
    · split at hf
      · obtain ⟨t, ht, rfl⟩ := List.mem_map.mp hf
        exact oneLine_of (by decide) (h.contentType t (Option.mem_toList.mp ht)).1
      · exact absurd hf List.not_mem_nil
  · exact ⟨(h.names f hf).1, (h.names f hf).2.1, (h.values f hf).1⟩

/-- **The message reads back as what it was printed from.** -/
theorem messageOf_reads (h : WellFormed E res) (keepAlive : Bool) (rest : Bytes) :
    Message.read (messageOf res keepAlive ++ rest) =
      some (startLine res.status, fieldsOf res keepAlive, res.body) :=
  Message.read_print (startLine_no_cr _) (fieldsOf_oneLine h keepAlive)
    (Message.number_digits res.body.length)

/-- The type's line is there exactly when the field is. -/
theorem contentTypeLine_eq (res : AppResponse) : (contentTypeLine res).getD [] =
    ((if 0 < res.body.length then res.contentType.toList.map (ascii "Content-Type", ·)
      else []).map Message.printField).flatten := by
  rw [contentTypeLine]
  split
  · cases res.contentType with
    | none => rfl
    | some t =>
        simp only [Option.map_some, Option.getD_some, Option.toList_some, List.map_cons,
          List.map_nil, List.flatten_cons, List.flatten_nil, List.append_nil]
        rfl
  · rfl

/-- The pieces the function prints, put together, are the message. -/
theorem messageOf_pieces (res : AppResponse) (keepAlive : Bool) : messageOf res keepAlive =
    statusHead res keepAlive ++ (contentTypeLine res).getD [] ++
      (res.headers.map headerLine).flatten ++ ascii "\r\n" ++ res.body := by
  rw [messageOf, Message.print, fieldsOf, List.map_append, List.map_append, List.flatten_append,
    List.flatten_append, ← contentTypeLine_eq]
  simp only [statusHead, startLine, Message.printField, List.map_cons, List.map_nil,
    List.flatten_cons, List.flatten_nil, List.append_assoc]
  rfl

/-! ## What stands in the buffer -/

/--
The steps so far were to print `text`: it stands at the front of the buffer with room
behind it, or it would have filled the buffer. Nothing behind the buffer was touched.
-/
structure Printed (text : Bytes) (c : Conn H) (s : Option Nat × Conn H) : Prop where
  fits : ∀ off, s.1 = some off →
    off = text.length ∧ off < H.maxBufferLen ∧ s.2.cli.buf.slice 0 off = text
  full : s.1 = none → H.maxBufferLen ≤ text.length
  beyond : ∀ i, H.maxBufferLen ≤ i → s.2.cli.buf i = c.cli.buf i

theorem printed_nil (c : Conn H) : Printed [] c (some 0, c) := by
  have hroom := H.maxBufferLen_ge
  refine ⟨fun off hoff => ?_, fun h => absurd h (by simp), fun _ _ => rfl⟩
  obtain rfl := Option.some.inj hoff
  exact ⟨rfl, by omega, rfl⟩

/-- A store that ends inside the buffer leaves the bytes behind it. -/
theorem writeBuf_beyond {off i : Nat} (h : off + bs.length ≤ H.maxBufferLen)
    (hi : H.maxBufferLen ≤ i) : (c.writeBuf off bs).cli.buf i = c.cli.buf i :=
  if_neg (by omega)

/-- What is stored right behind a text continues it. -/
theorem slice_write_append {b : Buf} {off : Nat} (h : b.slice 0 off = text) (bs extra : Bytes) :
    (b.write off (bs ++ extra)).slice 0 (off + bs.length) = text ++ bs := by
  have hfront : (b.write off (bs ++ extra)).slice 0 off = text := by
    rw [Buf.slice_write_of_disjoint (.inl (by omega)), h]
  have hself : (b.write off (bs ++ extra)).slice off (bs ++ extra).length = bs ++ extra :=
    Buf.slice_write_self rfl
  have hback : (b.write off (bs ++ extra)).slice off bs.length = bs := by
    rw [← Buf.take_slice (List.length_append ▸ Nat.le_add_right ..), hself, List.take_left]
  rw [Buf.slice_add, hfront, Nat.zero_add, hback]

theorem Printed.appendFmt (h : Printed text c s) (bs : Bytes) :
    Printed (text ++ bs) c (appendFmt bs s) := by
  obtain ⟨_ | off, d⟩ := s
  · have hfull := h.full rfl
    refine ⟨fun off hoff => absurd hoff (by simp [DBServer.appendFmt]), fun _ => ?_, h.beyond⟩
    rw [List.length_append]
    omega
  · obtain ⟨hlen, hlt, htext⟩ := h.fits off rfl
    -- what is stored never reaches past the buffer: it is cut, or it fits with its terminator
    have hbeyond : ∀ i, H.maxBufferLen ≤ i →
        (d.writeBuf off (bs.take (H.maxBufferLen - off - 1) ++ [0])).cli.buf i = c.cli.buf i := by
      intro i hi
      rw [writeBuf_beyond ?_ hi]
      · exact h.beyond i hi
      · simp only [List.length_append, List.length_take, List.length_singleton]
        omega
    rw [DBServer.appendFmt]
    by_cases hlong : H.maxBufferLen - off ≤ bs.length
    · rw [if_pos hlong]
      refine ⟨fun n hn => absurd hn (by simp), fun _ => ?_, hbeyond⟩
      rw [List.length_append]
      omega
    · rw [if_neg hlong]
      refine ⟨fun n hn => ?_, fun hn => absurd hn (by simp), hbeyond⟩
      obtain rfl : off + bs.length = n := Option.some.inj hn
      have hall : bs.take (H.maxBufferLen - off - 1) = bs := List.take_of_length_le (by omega)
      refine ⟨by rw [List.length_append]; omega, by omega, ?_⟩
      rw [hall]
      exact slice_write_append htext bs [0]

theorem Printed.fields : ∀ (hs : List (Bytes × Bytes)) {text : Bytes} {s : Option Nat × Conn H},
    Printed text c s → Printed (text ++ (hs.map headerLine).flatten) c
      (hs.foldl (fun s h => DBServer.appendFmt (headerLine h) s) s)
  | [], text, _, h => by
      rw [List.map_nil, List.flatten_nil, List.append_nil]
      exact h
  | f :: hs, text, _, h => by
      rw [List.map_cons, List.flatten_cons, ← List.append_assoc]
      exact Printed.fields hs (h.appendFmt (headerLine f))

/-- The whole of `text` stands at the front of the buffer, or it is longer than the buffer. -/
structure WholeOrNone (text : Bytes) (c : Conn H) (s : Option Nat × Conn H) : Prop where
  fits : ∀ n, s.1 = some n → n = text.length ∧ n ≤ H.maxBufferLen ∧ s.2.cli.buf.slice 0 n = text
  full : s.1 = none → H.maxBufferLen < text.length
  beyond : ∀ i, H.maxBufferLen ≤ i → s.2.cli.buf i = c.cli.buf i

/-- The last step needs no terminator, and makes up for those of the steps before it. -/
theorem Printed.appendBody (h : Printed text c s) (body : Bytes) :
    WholeOrNone (text ++ ascii "\r\n" ++ body) c (appendBody body s) := by
  have htwo : (ascii "\r\n").length = 2 := by decide
  obtain ⟨_ | off, d⟩ := s
  · have hfull := h.full rfl
    refine ⟨fun n hn => absurd hn (by simp [DBServer.appendBody]), fun _ => ?_, h.beyond⟩
    rw [List.length_append, List.length_append, htwo]
    omega
  · obtain ⟨hlen, hlt, htext⟩ := h.fits off rfl
    rw [DBServer.appendBody]
    by_cases hroom : H.maxBufferLen - off < 2 + body.length
    · rw [if_pos hroom]
      refine ⟨fun n hn => absurd hn (by simp), fun _ => ?_, h.beyond⟩
      rw [List.length_append, List.length_append, htwo]
      omega
    · rw [if_neg hroom]
      -- the blank line, and the body behind it if there is one
      have hline : (d.writeBuf off (ascii "\r\n")).cli.buf.slice 0 (off + 2) =
          text ++ ascii "\r\n" := by
        have happend := slice_write_append htext (ascii "\r\n") []
        rwa [List.append_nil, htwo] at happend
      have hbeyond : ∀ i, H.maxBufferLen ≤ i →
          (d.writeBuf off (ascii "\r\n")).cli.buf i = c.cli.buf i := by
        intro i hi
        rw [writeBuf_beyond (by omega) hi]
        exact h.beyond i hi
      refine ⟨fun n hn => ?_, fun hn => absurd hn (by simp), ?_⟩
      · obtain rfl : off + 2 + body.length = n := Option.some.inj hn
        refine ⟨by simp only [List.length_append, htwo]; omega, by omega, ?_⟩
        by_cases hbody : 0 < body.length
        · simp only [if_pos hbody]
          have happend := slice_write_append hline body []
          rwa [List.append_nil] at happend
        · obtain rfl : body = [] := List.eq_nil_of_length_eq_zero (by omega)
          rw [List.append_nil]
          exact hline
      · intro i hi
        by_cases hbody : 0 < body.length
        · simp only [if_pos hbody]
          rw [writeBuf_beyond (by omega) hi]
          exact hbeyond i hi
        · simp only [if_neg hbody]
          exact hbeyond i hi

/-- **The room checks accept exactly the messages that fit.** -/
theorem serialize_complete (hfew : res.headers.length ≤ E.headersMax) (c : Conn H) :
    WholeOrNone (messageOf res (c.cli.connectionPolicy == H.keepAlive)) c (serialize E res c) := by
  rw [messageOf_pieces, serialize, List.take_of_length_le hfew]
  refine Printed.appendBody (Printed.fields _ ?_) _
  have hhead := (printed_nil c).appendFmt
    (statusHead res (c.cli.connectionPolicy == H.keepAlive))
  rw [List.nil_append] at hhead
  cases hline : contentTypeLine res with
  | none =>
      rw [Option.getD_none, List.append_nil]
      exact hhead
  | some line => exact hhead.appendFmt line

/-! ## The fixed answers -/

/-- The fields of a fixed answer. -/
def errorFields (status : Nat) : List (Bytes × Bytes) :=
  [(ascii "Content-Length", decimal (errorBody status).2.length),
    (ascii "Content-Type", ascii "application/json"), (ascii "Connection", ascii "close")]

theorem errorMessage_eq (status : Nat) : errorMessage status =
    Message.print (startLine (errorBody status).1) (errorFields status) (errorBody status).2 := by
  simp only [errorMessage, Message.print, errorFields, startLine, Message.printField,
    List.map_cons, List.map_nil, List.flatten_cons, List.flatten_nil, List.append_assoc]
  rfl

/-- A fixed answer reads back, too. -/
theorem errorMessage_reads (status : Nat) (rest : Bytes) :
    Message.read (errorMessage status ++ rest) =
      some (startLine (errorBody status).1, errorFields status, (errorBody status).2) := by
  rw [errorMessage_eq]
  refine Message.read_print (startLine_no_cr _) (fun f hf => ?_) (Message.number_digits _)
  simp only [errorFields, List.mem_cons, List.not_mem_nil, or_false] at hf
  rcases hf with rfl | rfl | rfl
  · exact oneLine_of (by decide) (decimal_no_cr _)
  · exact oneLine_of (by decide) (by decide)
  · exact oneLine_of (by decide) (by decide)

theorem errorMessage_printed (status : Nat) (c : Conn H) :
    Printed (errorMessage status) c (appendFmt (errorMessage status) (some 0, closing c)) := by
  have h := (printed_nil (closing c)).appendFmt (errorMessage status)
  rw [List.nil_append] at h
  exact ⟨h.fits, h.full, h.beyond⟩

/-! ## What the socket gets -/

/-- However the writes go, the kernel takes a prefix of what is left of the buffer's message. -/
theorem trySend_taken (E : Env) (total : Nat) : ∀ (fuel : Nat) {c : Conn H},
    c.cli.sendOff ≤ total → ∃ k ≤ total - c.cli.sendOff,
      (trySend E total fuel c).2.wire = c.wire ++ c.cli.buf.slice c.cli.sendOff k ∧
      ((trySend E total fuel c).1 = some .success →
        (trySend E total fuel c).2.cli.draining = false → k = total - c.cli.sendOff)
  | 0, c, _ => ⟨0, Nat.zero_le _, (List.append_nil _).symm, by simp [trySend]⟩
  | fuel + 1, c, hoff => by
      have hnothing : c.wire = c.wire ++ c.cli.buf.slice c.cli.sendOff 0 :=
        (List.append_nil _).symm
      rw [trySend]
      split
      · rename_i hlt
        split
        · rename_i n _
          obtain ⟨m, hm⟩ : ∃ m, min (n + 1) (total - c.cli.sendOff) = m := ⟨_, rfl⟩
          have hoff' : (wrote E n total c).cli.sendOff = c.cli.sendOff + m := by
            rw [← hm]; rfl
          have hwire : (wrote E n total c).wire = c.wire ++ c.cli.buf.slice c.cli.sendOff m := by
            rw [← hm]; rfl
          obtain ⟨k, hk, htaken, hall⟩ := trySend_taken E total fuel
            (c := wrote E n total c) (by omega)
          refine ⟨m + k, by omega, ?_, fun hrc hd => ?_⟩
          · rw [htaken, hwire, hoff', List.append_assoc, Buf.slice_add]
            rfl
          · have := hall hrc hd
            omega
        · exact trySend_taken E total fuel (c := c.next) hoff
        · split
          · refine ⟨0, Nat.zero_le _, ?_, fun hrc hd => ?_⟩
            · rw [park]
              split <;> exact hnothing
            · -- a parked client is draining, and one that was not parked is a failure
              rw [park] at hrc hd
              split at hrc
              · rename_i hmod
                rw [if_pos hmod] at hd
                exact absurd hd (by simp)
              · exact absurd hrc (by simp)
          · split
            · exact trySend_taken E total fuel (c := c.next) hoff
            · exact ⟨0, Nat.zero_le _, hnothing, fun hrc => absurd hrc (by simp)⟩
        · exact ⟨0, Nat.zero_le _, hnothing, fun hrc => absurd hrc (by simp)⟩
      · exact ⟨0, Nat.zero_le _, hnothing, fun _ _ => by omega⟩

/-- One call handed `text` to the socket, and nothing else. -/
structure HandedOut (text : Bytes) (c : Conn H) (o : Option Status × Conn H) : Prop where
  logged : o.2.log = c.log ++ [.respond text]
  taken : ∃ k ≤ text.length, o.2.wire = c.wire ++ text.take k
  /-- A send that succeeds without being parked is a send of the whole. -/
  whole : o.1 = some .success → o.2.cli.draining = false → o.2.wire = c.wire ++ text
  /-- Whatever it did not get rid of is still in the buffer. -/
  stored : o.2.cli.buf.slice 0 text.length = text
  beyond : ∀ i, H.maxBufferLen ≤ i → o.2.cli.buf i = c.cli.buf i

theorem startSend_handed (E : Env) (fuel : Nat) {d : Conn H} (hl : LaidOut c d)
    (hlen : n = text.length) (htext : d.cli.buf.slice 0 n = text)
    (hbeyond : ∀ i, H.maxBufferLen ≤ i → d.cli.buf i = c.cli.buf i) :
    HandedOut text c (startSend E fuel n d) := by
  have hframe := trySend_frame E n fuel (started n d)
  have hbuf : (startSend E fuel n d).2.cli.buf = d.cli.buf := hframe.buf
  obtain ⟨k, hk, htaken, hall⟩ := trySend_taken E n fuel (c := started n d) (Nat.zero_le n)
  have hslice : ∀ j ≤ text.length, d.cli.buf.slice 0 j = text.take j := by
    intro j hj
    rw [← htext, Buf.take_slice (by omega)]
  have hwire : (startSend E fuel n d).2.wire = c.wire ++ text.take k := by
    rw [← hslice k (by simp [started] at hk; omega), ← hl.wire]
    exact htaken
  refine ⟨?_, ⟨k, by simp [started] at hk; omega, hwire⟩, fun hrc hd => ?_, ?_, fun i hi => ?_⟩
  · rw [startSend_log, htext, hl.log]
  · have hk' : k = n := hall hrc hd
    rw [hwire, hk', hlen, List.take_length]
  · rw [hbuf, ← hlen, htext]
  · rw [hbuf]
    exact hbeyond i hi

/-- Laying out another message first makes no difference. -/
theorem HandedOut.after {d : Conn H} {o : Option Status × Conn H} (h : HandedOut text d o)
    (hl : LaidOut c d) (hbeyond : ∀ i, H.maxBufferLen ≤ i → d.cli.buf i = c.cli.buf i) :
    HandedOut text c o :=
  ⟨by rw [h.logged, hl.log], by rw [← hl.wire]; exact h.taken, by rw [← hl.wire]; exact h.whole,
    h.stored, fun i hi => (h.beyond i hi).trans (hbeyond i hi)⟩

theorem responseWriterError_policy (E : Env) (fuel status : Nat) (hfd : 0 ≤ c.cli.ctx.fd) :
    (responseWriterError E fuel status c).2.cli.connectionPolicy = H.close := by
  have hpolicy := appendFmt_policy (errorMessage status) (some 0, closing c)
  rw [responseWriterError, if_neg (by omega)]
  rcases hs : appendFmt (errorMessage status) (some 0, closing c) with ⟨_ | n, d⟩ <;>
    rw [hs] at hpolicy
  · exact hpolicy
  · exact (trySend_frame E n fuel (started n d)).policy.trans hpolicy

theorem responseWriterError_handed (E : Env) (fuel status : Nat) (hfd : 0 ≤ c.cli.ctx.fd) :
    HandedOut (errorMessage status) c (responseWriterError E fuel status c) := by
  have hlen := errorMessage_length status
  have hroom := H.maxBufferLen_ge
  have hl : LaidOut c (appendFmt (errorMessage status) (some 0, closing c)).2 :=
    appendFmt_laidOut _ (laidOut_closing c)
  have hp := errorMessage_printed status c
  rw [responseWriterError, if_neg (by omega)]
  rcases hs : appendFmt (errorMessage status) (some 0, closing c) with ⟨_ | n, d⟩ <;>
    rw [hs] at hl hp
  · have hfull := hp.full rfl
    omega
  · obtain ⟨hn, _, htext⟩ := hp.fits n rfl
    exact startSend_handed E fuel hl hn htext hp.beyond

/--
**Serialization is exact and never truncated.** A message that fits the buffer is handed to
the socket whole, and reads back as the status, the fields and the body it was made of; a
longer one is not begun, and the fixed 500 with `Connection: close` takes its place. Either
way nothing behind the buffer is written.
-/
theorem response_serialization_exact (hres : WellFormed E res) (hfd : 0 ≤ c.cli.ctx.fd)
    (fuel : Nat) :
    ((messageOf res (c.cli.connectionPolicy == H.keepAlive)).length ≤ H.maxBufferLen →
      HandedOut (messageOf res (c.cli.connectionPolicy == H.keepAlive)) c
        (responseWriterSend E fuel res c)) ∧
    (∀ keepAlive rest, ∃ start,
      Message.read (messageOf res keepAlive ++ rest) =
        some (start, fieldsOf res keepAlive, res.body) ∧ statusOf start = some res.status) ∧
    (H.maxBufferLen < (messageOf res (c.cli.connectionPolicy == H.keepAlive)).length →
      HandedOut (errorMessage 500) c (responseWriterSend E fuel res c) ∧
      (responseWriterSend E fuel res c).2.cli.connectionPolicy = H.close ∧
      ∃ start, Message.read (errorMessage 500) =
        some (start, errorFields 500, jsonError "server_error") ∧ statusOf start = some 500) := by
  have hok : ¬(c.cli.ctx.fd < 0 ∨ res.status < 100 ∨ 599 < res.status) := by
    have hstatus := hres.status
    omega
  have hl := serialize_laidOut E res c
  have hcomplete := serialize_complete (E := E) hres.few c
  rw [responseWriterSend, if_neg hok]
  refine ⟨fun hfits => ?_, fun keepAlive rest => ?_, fun hlong => ?_⟩
  · -- a message that fits is printed whole
    rcases hs : serialize E res c with ⟨_ | n, d⟩ <;> rw [hs] at hl hcomplete
    · have hfull := hcomplete.full rfl
      omega
    · obtain ⟨hn, _, htext⟩ := hcomplete.fits n rfl
      exact startSend_handed E fuel hl hn htext hcomplete.beyond
  · exact ⟨_, messageOf_reads hres keepAlive rest, statusOf_startLine _⟩
  · -- one that does not fit is answered with the fixed 500
    rcases hs : serialize E res c with ⟨_ | n, d⟩ <;> rw [hs] at hl hcomplete
    · have herror := responseWriterError_handed (c := d) E fuel 500 (by rw [hl.ctx]; exact hfd)
      refine ⟨herror.after hl hcomplete.beyond, ?_, ?_⟩
      · exact responseWriterError_policy E fuel 500 (by rw [hl.ctx]; exact hfd)
      · have hread := errorMessage_reads 500 []
        rw [List.append_nil] at hread
        exact ⟨_, hread, statusOf_startLine _⟩
    · obtain ⟨hn, hle, _⟩ := hcomplete.fits n rfl
      omega

/-- A response that fills a buffer of 256 bytes to the last one. -/
def fullResponse : AppResponse where
  status := 200
  contentType := some (ascii "text/plain")
  headers := [(ascii "X-A", ascii "b")]
  body := List.replicate 163 65

theorem response_serialization_exact_full :
    (messageOf fullResponse false).length = DbHttp.small.maxBufferLen ∧
    HandedOut (messageOf fullResponse false) (Conn.fresh managedClient)
      (responseWriterSend slowPeer 3 fullResponse (Conn.fresh managedClient)) := by
  have hres : WellFormed slowPeer fullResponse := by
    refine ⟨by decide, by decide, fun h hh => ?_, fun h hh => ?_, fun t ht => ?_⟩
    · obtain rfl := List.mem_singleton.mp hh
      exact ⟨by decide, by decide, by decide, by decide⟩
    · obtain rfl := List.mem_singleton.mp hh
      exact ⟨by decide, by decide, by decide⟩
    · obtain rfl := Option.some.inj ht
      exact ⟨by decide, by decide, by decide⟩
  have hfull : (messageOf fullResponse false).length = DbHttp.small.maxBufferLen := by
    decide +kernel
  exact ⟨hfull, (response_serialization_exact (c := Conn.fresh managedClient) hres (by decide) 3).1
    (Nat.le_of_eq hfull)⟩

end DBServer.Proof
