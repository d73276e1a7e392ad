import DBServer.Lib.Header
import DBServer.Proof.Delivery
import DBServer.Client.FolderZip

/-!
# What the serializers print

Three functions print a response: `response_writer_send`, `response_writer_error` and the
archive pump. This module reads the `Connection` field back off what each has printed,
whatever the application put into the rest of the message, and ties it to the policy the
client is left with.
-/

namespace DBServer.Proof

open DBServer Lib

variable {H : DbHttp} {E : Env} {c c' : Conn H} {n : Nat} {head bs resp rest : Bytes}
  {s : Option Nat × Conn H}

/-! ## Reading the field back -/

/-- The message's `Connection` field is `word`. -/
def Says (word : String) (resp : Bytes) : Prop :=
  Header.field (ascii "Connection") resp = some (ascii word)

/-- A message cannot say two things. -/
theorem Says.eq {v w : String} (hv : Says v resp) (hw : Says w resp) : ascii v = ascii w :=
  Option.some.inj (hv.symm.trans hw)

theorem decimal_no_cr (k : Nat) : 13 ∉ decimal k := by
  intro h
  obtain ⟨d, hd, hcr⟩ := List.mem_map.mp h
  have hdigit := Nat.isDigit_of_mem_toDigits (by decide) (by decide) hd
  -- a digit is at least `0`, which lies above CR, and fits in a byte
  simp only [Char.isDigit, Bool.and_eq_true, decide_eq_true_eq] at hdigit
  have hlow : 48 ≤ d.toNat := hdigit.1
  have hhigh : d.toNat ≤ 57 := hdigit.2
  have hnat := congrArg UInt8.toNat hcr
  simp at hnat
  omega

theorem reasonPhrase_no_cr (status : Nat) : 13 ∉ ascii (reasonPhrase status) := by
  unfold reasonPhrase
  split <;> decide

/-- A start line, fields of other names, and then the `Connection` field. -/
theorem says_written (start : Bytes) (ls : List Bytes) (rest : Bytes) {word : String}
    (hstart : 13 ∉ start) (hls : ∀ l ∈ ls, Header.Other (ascii "Connection") l)
    (hword : 13 ∉ ascii word)
    (hresp : resp = start ++ Header.crlf ++ ((ls.map (· ++ Header.crlf)).flatten ++
      (ascii "Connection" ++ Header.separator ++ ascii word ++ Header.crlf ++ rest))) :
    Says word resp := by
  rw [Says, hresp]
  exact Header.field_written hstart hls (by decide) hword

/-- What `response_writer_send` prints says what the flag says. -/
theorem statusHead_connection (res : AppResponse) (keepAlive : Bool) (rest : Bytes) :
    Says (if keepAlive then "keep-alive" else "close") (statusHead res keepAlive ++ rest) := by
  have hstart : 13 ∉ ascii "HTTP/1.1 " ++ (decimal res.status ++ (ascii " " ++
      ascii (reasonPhrase res.status))) := by
    simp only [List.mem_append, not_or]
    exact ⟨by decide, decimal_no_cr _, by decide, reasonPhrase_no_cr _⟩
  have hlength : 13 ∉ ascii "Content-Length: " ++ decimal res.body.length := by
    simp only [List.mem_append, not_or]
    exact ⟨by decide, decimal_no_cr _⟩
  have hword : 13 ∉ ascii (if keepAlive then "keep-alive" else "close") := by
    cases keepAlive with
    | true => decide
    | false => decide
  refine says_written _ [ascii "Content-Length: " ++ decimal res.body.length] rest hstart
    (fun l hl => ?_) hword ?_
  · obtain rfl := List.mem_singleton.mp hl
    exact ⟨hlength, by simp [ascii], rfl⟩
  · simp only [statusHead, List.map_cons, List.map_nil, List.flatten_cons, List.flatten_nil,
      List.append_assoc]
    rfl

theorem errorMessage_connection (status : Nat) (rest : Bytes) :
    Says "close" (errorMessage status ++ rest) := by
  have hstart : 13 ∉ ascii "HTTP/1.1 " ++ (decimal (errorBody status).1 ++ (ascii " " ++
      ascii (reasonPhrase (errorBody status).1))) := by
    simp only [List.mem_append, not_or]
    exact ⟨by decide, decimal_no_cr _, by decide, reasonPhrase_no_cr _⟩
  have hlength : 13 ∉ ascii "Content-Length: " ++ decimal (errorBody status).2.length := by
    simp only [List.mem_append, not_or]
    exact ⟨by decide, decimal_no_cr _⟩
  refine says_written _ [ascii "Content-Length: " ++ decimal (errorBody status).2.length,
    ascii "Content-Type: application/json"] (ascii "\r\n" ++ ((errorBody status).2 ++ rest)) hstart
    (fun l hl => ?_) (by decide) ?_
  · rcases List.mem_pair.mp hl with rfl | rfl
    · exact ⟨hlength, by simp [ascii], rfl⟩
    · exact ⟨by decide, by decide, by decide⟩
  · simp only [errorMessage, List.map_cons, List.map_nil, List.flatten_cons, List.flatten_nil,
      List.append_assoc]
    rfl

/-- The name of the archive is stripped of line ends. -/
theorem zipFname_no_cr (arch : Bytes) : 13 ∉ zipFname arch := by
  intro h
  have hmem := List.mem_of_mem_take h
  simp at hmem

theorem zipHead_connection (total : Nat) (arch rest : Bytes) :
    Says "close" (zipHead total arch ++ rest) := by
  have hlength : 13 ∉ ascii "Content-Length: " ++ decimal total := by
    simp only [List.mem_append, not_or]
    exact ⟨by decide, decimal_no_cr _⟩
  have hname : 13 ∉ ascii "Content-Disposition: attachment; filename=\"" ++
      (zipFname arch ++ ascii "\"") := by
    simp only [List.mem_append, not_or]
    exact ⟨by decide, zipFname_no_cr arch, by decide⟩
  have htype : ascii "HTTP/1.1 200 OK\r\nContent-Type: application/zip\r\nContent-Length: " =
      ascii "HTTP/1.1 200 OK" ++ (Header.crlf ++ (ascii "Content-Type: application/zip" ++
        (Header.crlf ++ ascii "Content-Length: "))) := by decide +kernel
  have hend : ascii "\"\r\nCache-Control: private, no-store\r\nConnection: close\r\n\r\n" =
      ascii "\"" ++ (Header.crlf ++ (ascii "Cache-Control: private, no-store" ++ (Header.crlf ++
        (ascii "Connection" ++ (Header.separator ++ (ascii "close" ++ (Header.crlf ++
          ascii "\r\n"))))))) := by decide +kernel
  refine says_written (ascii "HTTP/1.1 200 OK") [ascii "Content-Type: application/zip",
    ascii "Content-Length: " ++ decimal total,
    ascii "Content-Disposition: attachment; filename=\"" ++ (zipFname arch ++ ascii "\""),
    ascii "Cache-Control: private, no-store"] (ascii "\r\n" ++ rest) (by decide)
    (fun l hl => ?_) (by decide) ?_
  · simp only [List.mem_cons, List.not_mem_nil, or_false] at hl
    rcases hl with rfl | rfl | rfl | rfl
    · exact ⟨by decide, by decide, by decide⟩
    · exact ⟨hlength, by simp [ascii], rfl⟩
    · exact ⟨hname, by simp [ascii], rfl⟩
    · exact ⟨by decide, by decide, by decide⟩
  · simp only [zipHead, htype, hend, List.map_cons, List.map_nil, List.flatten_cons,
      List.flatten_nil, List.append_assoc]
    rfl

/-! ## What is laid out in the buffer -/

/-- The message laid out so far begins with `head`. -/
def Begins (head : Bytes) (s : Option Nat × Conn H) : Prop :=
  ∀ off, s.1 = some off → head <+: s.2.cli.buf.slice 0 off

/-- A store behind the message leaves its beginning. -/
theorem begins_writeBuf {off k : Nat} (h : head <+: c.cli.buf.slice 0 off) (bs : Bytes)
    (hk : off ≤ k) : head <+: (c.writeBuf k bs).cli.buf.slice 0 off := by
  have hsame : (c.writeBuf k bs).cli.buf.slice 0 off = c.cli.buf.slice 0 off :=
    Buf.slice_write_of_disjoint (.inl (by omega))
  rwa [hsame]

theorem begins_longer {off k : Nat} (h : head <+: c.cli.buf.slice 0 off) :
    head <+: c.cli.buf.slice 0 (off + k) := by
  rw [Buf.slice_add]
  exact h.trans (List.prefix_append _ _)

/-- The first `snprintf` puts its text at the front. -/
theorem appendFmt_begins_self (bs : Bytes) (c : Conn H) : Begins bs (appendFmt bs (some 0, c)) := by
  intro off hoff
  rw [appendFmt] at hoff ⊢
  by_cases hlong : H.maxBufferLen - 0 ≤ bs.length
  · rw [if_pos hlong] at hoff
    exact absurd hoff (by simp)
  · rw [if_neg hlong] at hoff ⊢
    obtain rfl : 0 + bs.length = off := Option.some.inj hoff
    have hall : bs.take (H.maxBufferLen - 0 - 1) = bs := List.take_of_length_le (by omega)
    have hstored : ((c.cli.buf.write 0 (bs ++ [0])).slice 0 (bs.length + 1)).take bs.length = bs := by
      rw [Buf.slice_write_self (by simp), List.take_left]
    rw [hall, Nat.zero_add]
    show bs <+: (c.cli.buf.write 0 (bs ++ [0])).slice 0 bs.length
    rw [Buf.take_slice (by omega)] at hstored
    exact ⟨[], by rw [List.append_nil, hstored]⟩

theorem Begins.appendFmt (h : Begins head s) (bs : Bytes) : Begins head (appendFmt bs s) := by
  obtain ⟨_ | off, c⟩ := s
  · exact h
  · intro n hn
    rw [DBServer.appendFmt] at hn ⊢
    by_cases hlong : H.maxBufferLen - off ≤ bs.length
    · rw [if_pos hlong] at hn
      exact absurd hn (by simp)
    · rw [if_neg hlong] at hn ⊢
      obtain rfl : off + bs.length = n := Option.some.inj hn
      exact begins_longer (begins_writeBuf (h off rfl) _ (Nat.le_refl off))

theorem Begins.fields : ∀ (hs : List (Bytes × Bytes)) {s : Option Nat × Conn H},
    Begins head s → Begins head (hs.foldl (fun s h => DBServer.appendFmt (headerLine h) s) s)
  | [], _, h => h
  | _ :: hs, _, h => Begins.fields hs (h.appendFmt _)

theorem Begins.appendBody (h : Begins head s) (body : Bytes) : Begins head (appendBody body s) := by
  obtain ⟨_ | off, c⟩ := s
  · exact h
  · intro n hn
    rw [DBServer.appendBody] at hn ⊢
    by_cases hroom : H.maxBufferLen - off < 2 + body.length
    · rw [if_pos hroom] at hn
      exact absurd hn (by simp)
    · rw [if_neg hroom] at hn ⊢
      obtain rfl : off + 2 + body.length = n := Option.some.inj hn
      have hline := begins_writeBuf (h off rfl) (ascii "\r\n") (Nat.le_refl off)
      rw [Nat.add_assoc]
      by_cases hbody : 0 < body.length
      · simp only [if_pos hbody]
        exact begins_longer (begins_writeBuf hline body (by omega))
      · simp only [if_neg hbody]
        exact begins_longer hline

/-- What `response_writer_send` lays out begins with its status line and its two fields. -/
theorem serialize_begins (E : Env) (res : AppResponse) (c : Conn H) :
    Begins (statusHead res (c.cli.connectionPolicy == H.keepAlive)) (serialize E res c) := by
  unfold serialize
  refine Begins.appendBody (Begins.fields _ ?_) _
  have hhead := appendFmt_begins_self (statusHead res (c.cli.connectionPolicy == H.keepAlive)) c
  split
  · exact hhead.appendFmt _
  · exact hhead

/-! ## The policy the client is left with -/

@[simp] theorem appendFmt_policy (bs : Bytes) (s : Option Nat × Conn H) :
    (appendFmt bs s).2.cli.connectionPolicy = s.2.cli.connectionPolicy := by
  obtain ⟨_ | off, c⟩ := s
  · rfl
  · by_cases hlong : H.maxBufferLen - off ≤ bs.length
    · rw [appendFmt, if_pos hlong]; rfl
    · rw [appendFmt, if_neg hlong]; rfl

theorem foldl_appendFmt_policy : ∀ (hs : List (Bytes × Bytes)) (s : Option Nat × Conn H),
    (hs.foldl (fun s h => appendFmt (headerLine h) s) s).2.cli.connectionPolicy =
      s.2.cli.connectionPolicy
  | [], _ => rfl
  | h :: hs, s => (foldl_appendFmt_policy hs _).trans (appendFmt_policy (headerLine h) s)

@[simp] theorem appendBody_policy (body : Bytes) (s : Option Nat × Conn H) :
    (appendBody body s).2.cli.connectionPolicy = s.2.cli.connectionPolicy := by
  obtain ⟨_ | off, c⟩ := s
  · rfl
  · by_cases hroom : H.maxBufferLen - off < 2 + body.length
    · rw [appendBody, if_pos hroom]
    · rw [appendBody, if_neg hroom]
      by_cases hbody : 0 < body.length
      · simp only [if_pos hbody]; rfl
      · simp only [if_neg hbody]; rfl

theorem serialize_policy (E : Env) (res : AppResponse) (c : Conn H) :
    (serialize E res c).2.cli.connectionPolicy = c.cli.connectionPolicy := by
  rw [serialize, appendBody_policy, foldl_appendFmt_policy]
  split <;> simp

/-- What the `Connection` field says for a policy. -/
def policyWord (H : DbHttp) (policy : Nat) : String :=
  if policy == H.keepAlive then "keep-alive" else "close"

theorem policyWord_close : policyWord H H.close = "close" := by
  have hne : (H.close == H.keepAlive) = false := beq_false_of_ne (Ne.symm H.keepAlive_ne_close)
  rw [policyWord, hne]
  rfl

theorem policyWord_keepAlive : policyWord H H.keepAlive = "keep-alive" := by
  rw [policyWord, beq_self_eq_true]
  rfl

/-- The call puts `n` bytes into the buffer that say what the client's policy is from then on. -/
structure Announces (E : Env) (start : Start) (c c' : Conn H) (n : Nat) : Prop where
  laidOut : LaidOut c c'
  call : ∀ fuel, start.call E fuel c = startSend E fuel n c'
  policy : c'.cli.connectionPolicy = c.cli.connectionPolicy ∨ c'.cli.connectionPolicy = H.close
  error : (∃ status, start = .error status) → c'.cli.connectionPolicy = H.close
  message : Says (policyWord H c'.cli.connectionPolicy) (c'.cli.buf.slice 0 n)

theorem responseWriterError_announces (E : Env) (status : Nat) (c : Conn H) :
    (∃ c', LaidOut c c' ∧ ∀ fuel, responseWriterError E fuel status c = (some .failure, c')) ∨
    ∃ c' n, Announces E (.error status) c c' n := by
  by_cases hfd : c.cli.ctx.fd < 0
  · exact .inl ⟨c, LaidOut.refl c, fun _ => by rw [responseWriterError, if_pos hfd]⟩
  · have hl : LaidOut c (appendFmt (errorMessage status) (some 0, closing c)).2 :=
      appendFmt_laidOut _ (laidOut_closing c)
    have hpolicy := appendFmt_policy (errorMessage status) (some 0, closing c)
    have hbegins := appendFmt_begins_self (errorMessage status) (closing c)
    rcases hs : appendFmt (errorMessage status) (some 0, closing c) with ⟨_ | n, c'⟩
    · rw [hs] at hl
      exact .inl ⟨c', hl, fun _ => by rw [responseWriterError, if_neg hfd, hs]⟩
    · rw [hs] at hl hpolicy hbegins
      have hclose : c'.cli.connectionPolicy = H.close := hpolicy
      obtain ⟨rest, hrest⟩ := hbegins n rfl
      have htold := errorMessage_connection status rest
      rw [hrest] at htold
      refine .inr ⟨c', n, hl, fun fuel => ?_, .inr hclose, fun _ => hclose, ?_⟩
      · show responseWriterError E fuel status c = _
        rw [responseWriterError, if_neg hfd, hs]
      · rw [hclose, policyWord_close]
        exact htold

/-- **An answer says what will become of the connection**, or there is none. -/
theorem Start.announces (E : Env) (start : Start) (c : Conn H) :
    (∃ c', LaidOut c c' ∧ ∀ fuel, start.call E fuel c = (some .failure, c')) ∨
    ∃ c' n, Announces E start c c' n := by
  cases start with
  | error status => exact responseWriterError_announces E status c
  | send res =>
      by_cases hbad : c.cli.ctx.fd < 0 ∨ res.status < 100 ∨ 599 < res.status
      · refine .inl ⟨c, LaidOut.refl c, fun fuel => ?_⟩
        show responseWriterSend E fuel res c = _
        rw [responseWriterSend, if_pos hbad]
      · have hl := serialize_laidOut E res c
        have hpolicy := serialize_policy E res c
        have hbegins := serialize_begins E res c
        rcases hs : serialize E res c with ⟨_ | n, c'⟩ <;> rw [hs] at hl hpolicy hbegins
        · -- too large: the fixed 500 is announced instead
          have hcall : ∀ fuel, Start.call E fuel c (.send res) =
              responseWriterError E fuel 500 c' := by
            intro fuel
            show responseWriterSend E fuel res c = _
            rw [responseWriterSend, if_neg hbad, hs]
          rcases responseWriterError_announces E 500 c' with ⟨d, hd, h⟩ | ⟨d, n, h⟩
          · exact .inl ⟨d, hl.trans hd, fun fuel => (hcall fuel).trans (h fuel)⟩
          · exact .inr ⟨d, n, hl.trans h.laidOut, fun fuel => (hcall fuel).trans (h.call fuel),
              .inr (h.error ⟨_, rfl⟩), fun _ => h.error ⟨_, rfl⟩, h.message⟩
        · -- the status head is what was printed first, so its policy is the one of the answer
          obtain ⟨rest, hrest⟩ := hbegins n rfl
          have htold := statusHead_connection res (c.cli.connectionPolicy == H.keepAlive) rest
          rw [hrest] at htold
          refine .inr ⟨c', n, hl, fun fuel => ?_, .inl hpolicy, ?_, ?_⟩
          · show responseWriterSend E fuel res c = _
            rw [responseWriterSend, if_neg hbad, hs]
          · rintro ⟨status, hstart⟩
            exact absurd hstart (by simp)
          · have hsame : c'.cli.connectionPolicy = c.cli.connectionPolicy := hpolicy
            rw [policyWord, hsame]
            exact htold

end DBServer.Proof
