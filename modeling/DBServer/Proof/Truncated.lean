import DBServer.Client.FolderZipExits
import DBServer.Proof.Upload

/-!
# A failed archive is visibly short

Whatever step of the archive pump fails, it fails with some of its own bytes still to
write: `Short c c' whole` says that what went out since `c` is a beginning of `whole`, and
not all of it. Each writing step has a lemma for its failure, and a failure behind a part
that did go out is a failure of the two together (`Short.behind`).

A blob that turns out shorter than recorded leaves open what the archive would have been.
The statements therefore speak of every archive whose blobs continue the ones there are.
-/

namespace DBServer.Proof

open DBServer Lib

variable {H : DbHttp} {E : Env} {c c' d : Conn H} {fuel : Nat} {front back : Bytes}

/-! ## Beginnings -/

/-- Of `whole`, a beginning went out since `c`, but not all of it. -/
def Short (c c' : Conn H) (whole : Bytes) : Prop :=
  ∃ k < whole.length, c'.wire = c.wire ++ whole.take k

/-- Nothing of it went out. -/
theorem Short.nothing {whole : Bytes} (h : 0 < whole.length) (hwire : c'.wire = c.wire) :
    Short c c' whole :=
  ⟨0, h, by rw [hwire, List.take_zero, List.append_nil]⟩

/-- A part cut short is the whole cut short. -/
theorem Short.ahead (h : Short c c' front) (back : Bytes) : Short c c' (front ++ back) := by
  obtain ⟨k, hk, hwire⟩ := h
  refine ⟨k, by rw [List.length_append]; omega, ?_⟩
  rw [hwire, List.take_append_of_le_length (by omega)]

/-- A part that went out, and one cut short behind it. -/
theorem Short.behind (h : Short d c' back) (hfront : d.wire = c.wire ++ front) :
    Short c c' (front ++ back) := by
  obtain ⟨k, hk, hwire⟩ := h
  refine ⟨front.length + k, by rw [List.length_append]; omega, ?_⟩
  rw [hwire, hfront, List.append_assoc, List.take_length_add_append]

/-- Only the wire matters. -/
theorem Short.congr {whole : Bytes} (h : Short c c' whole) (hc : d.wire = c.wire) :
    Short d c' whole := by
  obtain ⟨k, hk, hwire⟩ := h
  exact ⟨k, hk, by rw [hwire, hc]⟩

theorem Short.last {whole : Bytes} (h : Short c c' whole) (hc : d.wire = c'.wire) :
    Short c d whole := by
  obtain ⟨k, hk, hwire⟩ := h
  exact ⟨k, hk, by rw [hc, hwire]⟩

/-! ## The writing steps -/

/-- `_write_all` fails only with bytes left to write. -/
theorem writeAll_short : ∀ {fuel : Nat} {bs : Bytes} {c : Conn H},
    writeAll E fuel bs c = (some .failure, c') → Short c c' bs
  | 0, _, _, h => absurd h (by simp [writeAll])
  | fuel + 1, bs, c, h => by
      rw [writeAll] at h
      by_cases hpos : 0 < bs.length
      · rw [if_pos hpos] at h
        cases hw : E.write c.tick with
        | wrote n =>
            rw [hw] at h
            have hsplit : Short c c' (bs.take (min (n + 1) bs.length) ++ bs.drop _) :=
              (writeAll_short h).behind rfl
            rwa [List.take_append_drop] at hsplit
        | eintr =>
            rw [hw] at h
            exact (writeAll_short h).congr rfl
        | eagain =>
            rw [hw] at h
            dsimp only at h
            split at h
            · exact (writeAll_short h).congr rfl
            · obtain ⟨_, rfl⟩ := Prod.mk.inj h
              exact .nothing hpos rfl
        | error =>
            rw [hw] at h
            obtain ⟨_, rfl⟩ := Prod.mk.inj h
            exact .nothing hpos rfl
      · rw [if_neg hpos] at h
        exact absurd h (by simp)

theorem writeEach_short : ∀ {bss : List Bytes} {c : Conn H},
    writeEach E fuel bss c = (some .failure, c') → Short c c' bss.flatten
  | [], _, h => absurd h (by simp [writeEach])
  | bs :: bss, c, h => by
      rw [writeEach, andThen_eq_some] at h
      obtain ⟨rc, d, hfirst, hrest⟩ := h
      rw [List.flatten_cons]
      cases rc with
      | failure =>
          obtain ⟨_, rfl⟩ := Prod.mk.inj hrest
          exact (writeAll_short hfirst).ahead _
      | success => exact (writeEach_short hrest).behind (writeAll_wire hfirst)

/-- A copy that failed put out less than was recorded, whatever the blob goes on with. -/
theorem streamBlob_short : ∀ {fuel : Nat} {blob blob' : Bytes} {remaining : Nat}
    {crc : BitVec 32} {c : Conn H}, blob <+: blob' → remaining ≤ blob'.length →
    streamBlob E fuel blob remaining crc c = (some none, c') →
    Short c c' (blob'.take remaining)
  | 0, _, _, _, _, _, _, _, h => absurd h (by simp [streamBlob])
  | fuel + 1, blob, blob', remaining, crc, c, hpre, hlong, h => by
      rw [streamBlob] at h
      by_cases hpos : 0 < remaining
      · have hlen : 0 < (blob'.take remaining).length := by
          rw [List.length_take]
          omega
        rw [if_pos hpos] at h
        cases hr : E.blobRead c.tick with
        | data n =>
            rw [hr] at h
            obtain ⟨r, hrdef⟩ : ∃ r, min (min (n + 1) (min remaining H.maxBufferLen))
              blob.length = r := ⟨_, rfl⟩
            simp only [hrdef] at h
            by_cases hend : r = 0
            · rw [if_pos hend] at h
              obtain ⟨_, rfl⟩ := Prod.mk.inj h
              exact .nothing hlen rfl
            · rw [if_neg hend] at h
              have hslice : (c.cli.buf.write 0 (blob.take r)).slice 0 r = blob.take r :=
                Buf.slice_write_self (by rw [List.length_take]; omega)
              simp only [Conn.writeBuf, Conn.next, hslice] at h
              rw [andThen_eq_some] at h
              obtain ⟨rc, d, hw, hrest⟩ := h
              -- what was read is what the longer blob begins with
              obtain ⟨more, rfl⟩ := hpre
              have hfront : (blob ++ more).take remaining =
                  blob.take r ++ ((blob.drop r) ++ more).take (remaining - r) := by
                have hle : r ≤ blob.length := by omega
                conv_lhs => rw [← List.take_append_drop r blob, List.append_assoc]
                rw [List.take_append, List.take_of_length_le (by rw [List.length_take]; omega),
                  List.length_take, Nat.min_eq_left hle]
              rw [hfront]
              cases rc with
              | failure =>
                  obtain ⟨_, rfl⟩ := Prod.mk.inj hrest
                  exact ((writeAll_short hw).congr rfl).ahead _
              | success =>
                  have hrem : remaining - r ≤ ((blob.drop r) ++ more).length := by
                    rw [List.length_append] at hlong
                    rw [List.length_append, List.length_drop]
                    omega
                  have hwire := writeAll_wire hw
                  have hcopied : d.wire = c.wire ++ blob.take r := hwire
                  exact (streamBlob_short (List.prefix_append _ _) hrem hrest).behind hcopied
        | eintr =>
            rw [hr] at h
            exact (streamBlob_short hpre hlong h).congr rfl
        | eagain =>
            rw [hr] at h
            exact (streamBlob_short hpre hlong h).congr rfl
        | eof =>
            rw [hr] at h
            obtain ⟨_, rfl⟩ := Prod.mk.inj h
            exact .nothing hlen rfl
        | error =>
            rw [hr] at h
            obtain ⟨_, rfl⟩ := Prod.mk.inj h
            exact .nothing hlen rfl
      · rw [if_neg hpos] at h
        exact absurd h (by simp)

/-! ## Entries -/

/-- An entry whose blob continues this one's, at least up to the recorded size. -/
structure Continues (e e' : ZipEntry) : Prop where
  name : e'.name = e.name
  size : e'.size = e.size
  blob : e.blob <+: e'.blob
  enough : e.size ≤ e'.blob.length

/-- If nothing was missing, nothing was added. -/
theorem Continues.zipFile {e e' : ZipEntry} (h : Continues e e') (hle : e.size ≤ e.blob.length) :
    zipFile e' = zipFile e := by
  obtain ⟨more, hmore⟩ := h.blob
  rw [Proof.zipFile, Proof.zipFile, h.name, h.size, ← hmore, List.take_append_of_le_length hle]

/-- **An entry that failed, failed within its part of the archive.** -/
theorem zipEntry_short {i : Nat} {e e' : ZipEntry} (hcont : Continues e e')
    (h : zipEntry E fuel i e c = (some none, c')) :
    Short c c' (Zip64.localPart crc32 (zipFile e')) := by
  have hsize : (zipFile e').data.length = e.size := by
    rw [zipFile, List.length_take, hcont.size]
    have henough := hcont.enough
    omega
  have hname : (zipFile e').name = e.name := hcont.name
  have hdata : (zipFile e').data = e'.blob.take e.size := by rw [zipFile, hcont.size]
  -- the entry of the archive that would have been written, cut where the calls are
  have hparts : Zip64.localPart crc32 (zipFile e') =
      [encode (Zip64.localFields e.name.length), e.name,
        encode (Zip64.localExtraFields e.size)].flatten ++
      (e'.blob.take e.size ++
        encode (Zip64.descriptorFields (crc32 (zipFile e').data) e.size)) := by
    rw [Zip64.localPart, hsize, hname, hdata]
    simp only [List.flatten_cons, List.flatten_nil, List.append_nil, List.append_assoc]
  rw [hparts]
  unfold zipEntry at h
  by_cases hopen : E.zipOpen c.tick = true
  · rw [if_neg (by simp [hopen])] at h
    simp only [(lh_filled _ _).slice, (lx_filled _ _).slice, (dd_filled _ _ _).slice] at h
    rw [andThen_eq_some] at h
    obtain ⟨rc, d, hheads, h⟩ := h
    cases rc with
    | failure =>
        obtain ⟨_, rfl⟩ := Prod.mk.inj h
        exact (((writeEach_short hheads).congr rfl).last rfl).ahead _
    | success =>
        have hwire := writeEach_wire hheads
        have hfront : d.wire = c.wire ++ [encode (Zip64.localFields e.name.length), e.name,
            encode (Zip64.localExtraFields e.size)].flatten := hwire
        refine Short.behind ?_ hfront
        simp only [andThen_eq_some] at h
        obtain ⟨out, d', hblob, h⟩ := h
        cases out with
        | none =>
            obtain ⟨_, rfl⟩ := Prod.mk.inj h
            exact ((streamBlob_short hcont.blob hcont.enough hblob).last rfl).ahead _
        | some crc =>
            obtain ⟨hle, hblob', hcrc⟩ := streamBlob_wire hblob
            have hsum : crc.toNat = crc32 (zipFile e').data := by
              rw [hcont.zipFile hle, hcrc, crcUpdate_zero]
              rfl
            obtain ⟨more, hmore⟩ := hcont.blob
            have hcopied : d'.wire = d.wire ++ e'.blob.take e.size := by
              rw [hblob', ← hmore, List.take_append_of_le_length hle]
            simp only [andThen_eq_some] at h
            obtain ⟨rc, d'', hdesc, h⟩ := h
            cases rc with
            | failure =>
                obtain ⟨_, rfl⟩ := Prod.mk.inj h
                rw [hsum] at hdesc
                exact ((writeAll_short hdesc).congr rfl).behind hcopied
            | success => exact absurd h (by simp)
  · rw [if_pos (by simp [hopen])] at h
    obtain ⟨_, rfl⟩ := Prod.mk.inj h
    refine .nothing ?_ rfl
    rw [← hparts, Zip64.localPart, List.length_append]
    have hhead : 0 < (encode (Zip64.localFields (zipFile e').name.length)).length := by
      rw [length_encode]
      exact Nat.zero_lt_succ 29
    omega

/-- Entry by entry. -/
abbrev Continuation (es es' : List ZipEntry) : Prop := List.Forall₂ Continues es es'

theorem Continuation.zipFile {es es' : List ZipEntry} (h : Continuation es es')
    (hle : ∀ e ∈ es, e.size ≤ e.blob.length) : es'.map zipFile = es.map zipFile := by
  induction h with
  | nil => rfl
  | cons hcont _ ih =>
      rw [List.map_cons, List.map_cons, hcont.zipFile (hle _ List.mem_cons_self),
        ih fun e he => hle e (List.mem_cons_of_mem _ he)]

theorem zipEntries_short : ∀ {es es' : List ZipEntry} {i off : Nat}
    {results : List (BitVec 32 × Nat)} {c : Conn H}, Continuation es es' →
    zipEntries E fuel es i off results c = (some none, c') →
    Short c c' (Zip64.localParts crc32 (es'.map zipFile))
  | [], _, _, _, _, _, _, h => absurd h (by simp [zipEntries])
  | e :: es, _, i, off, results, c, hcont, h => by
      cases hcont with
      | cons he hes =>
          rw [zipEntries, andThen_eq_some] at h
          obtain ⟨out, d, hentry, h⟩ := h
          rw [List.map_cons, Zip64.localParts, List.flatMap_cons]
          cases out with
          | none =>
              obtain ⟨_, rfl⟩ := Prod.mk.inj h
              exact (zipEntry_short he hentry).ahead _
          | some crc =>
              obtain ⟨hle, _, hwire⟩ := zipEntry_wire hentry
              rw [he.zipFile hle]
              exact (zipEntries_short hes h).behind hwire

theorem zipCentral_short : ∀ {es : List ZipEntry} {off : Nat} {c : Conn H},
    (∀ e ∈ es, e.size ≤ e.blob.length) →
    zipCentral E fuel (es.zip (noted es off)) c = (some .failure, c') →
    Short c c' (Zip64.centralParts crc32 (es.map zipFile) off)
  | [], _, _, _, h => absurd h (by simp [zipCentral])
  | e :: es, off, c, hall, h => by
      have hle : e.size ≤ e.blob.length := hall e List.mem_cons_self
      have hsize : (zipFile e).data.length = e.size := by
        simp only [zipFile, List.length_take]
        omega
      have hpart : Zip64.centralPart crc32 (zipFile e) off =
          [encode (Zip64.centralFields e.name.length (crc32 (zipFile e).data)), e.name,
            encode (Zip64.centralExtraFields e.size off)].flatten := by
        rw [Zip64.centralPart, hsize]
        simp only [List.flatten_cons, List.flatten_nil, List.append_nil, zipFile]
      rw [noted, List.zip_cons_cons, zipCentral, (cd_filled _ _ _).slice, (cx_filled _ _ _).slice,
        andThen_eq_some] at h
      obtain ⟨rc, d, hhead, h⟩ := h
      rw [List.map_cons, Zip64.centralParts, hpart]
      cases rc with
      | failure =>
          obtain ⟨_, rfl⟩ := Prod.mk.inj h
          exact (writeEach_short hhead).ahead _
      | success =>
          exact (zipCentral_short (fun f hf => hall f (List.mem_cons_of_mem e hf)) h).behind
            (writeEach_wire hhead)

/-- **A stream that failed put out a beginning of head and archive, and not all of it.** -/
theorem zipStream_short {h : FolderZip} {es : List ZipEntry} (hcont : Continuation h.entries es)
    (htotal : archiveLength h.entries < 2 ^ 64)
    (hrc : zipStream E fuel h c = (some .failure, c')) :
    Short c c' (zipHead (zipTotal h.entries) h.archiveName ++
      Zip64.archive crc32 (es.map zipFile)) := by
  simp only [zipStream] at hrc
  split at hrc
  · obtain ⟨_, rfl⟩ := Prod.mk.inj hrc
    rename_i hhuge
    refine .nothing ?_ rfl
    rw [List.length_append]
    omega
  · rw [andThen_eq_some] at hrc
    obtain ⟨rc, d₁, hhead, hrc⟩ := hrc
    cases rc with
    | failure =>
        obtain ⟨_, rfl⟩ := Prod.mk.inj hrc
        exact (writeAll_short hhead).ahead _
    | success =>
        refine Short.behind ?_ (writeAll_wire hhead)
        rw [Zip64.archive]
        simp only [andThen_eq_some] at hrc
        obtain ⟨out, d₂, hfiles, hrc⟩ := hrc
        cases out with
        | none =>
            obtain ⟨_, rfl⟩ := Prod.mk.inj hrc
            exact (zipEntries_short hcont hfiles).ahead _
        | some results =>
            obtain ⟨hall, hnoted, hwire₂⟩ := zipEntries_wire hfiles
            -- from here on the blobs were long enough, so the archive is the one at hand
            rw [hcont.zipFile hall]
            refine Short.behind ?_ hwire₂
            rw [List.nil_append] at hnoted
            simp only [andThen_eq_some, hnoted] at hrc
            obtain ⟨rc, d₃, hdir, hrc⟩ := hrc
            cases rc with
            | failure =>
                obtain ⟨_, rfl⟩ := Prod.mk.inj hrc
                exact (zipCentral_short hall hdir).ahead _
            | success =>
                refine Short.behind ?_ (zipCentral_wire hall hdir)
                have htrailer : zipTrailer E fuel h.entries d₃ = (some .failure, c') := hrc
                rw [zipTrailer, (z64_filled _ _ _ _).slice, (loc_filled _ _).slice,
                  (eo_filled _ _ _).slice, zipBody_exact hall htotal,
                  zipCdBytes_exact htotal] at htrailer
                have hshort := writeEach_short htrailer
                rw [Zip64.trailer, List.length_map]
                simpa only [List.flatten_cons, List.flatten_nil, List.append_nil] using hshort

/-! ## Descriptors and the handle -/

/-- What the first loop logs from entry `i` on: each blob is closed before the next is opened. -/
inductive Visits : Nat → List Call → Prop where
  | done (i : Nat) : Visits i []
  | refused (i : Nat) : Visits i [.zipOpen i false]
  | entry {i : Nat} {calls : List Call} : Visits (i + 1) calls →
      Visits i (.zipOpen i true :: .zipClose i :: calls)

/-- A call about the blob of an entry. -/
def BlobCall : Call → Prop
  | .zipOpen _ _ | .zipClose _ => True
  | _ => False

/-- What a part of the stream logged: calls about blobs, all of them visits once it is back. -/
def Logs {β : Type} (i : Nat) (c : Conn H) (o : Option β × Conn H) : Prop :=
  ∃ calls, o.2.log = c.log ++ calls ∧ (∀ e ∈ calls, BlobCall e) ∧ (o.1 ≠ none → Visits i calls)

/-- Nothing was logged. -/
theorem Logs.nothing {β : Type} {i : Nat} {o : Option β × Conn H} (h : o.2.log = c.log) :
    Logs i c o :=
  ⟨[], by rw [h, List.append_nil], by simp, fun _ => .done i⟩

theorem writeAll_log : ∀ (fuel : Nat) (bs : Bytes) (c : Conn H),
    (writeAll E fuel bs c).2.log = c.log
  | 0, _, _ => rfl
  | fuel + 1, bs, c => by
      rw [writeAll]
      split
      · split
        · exact writeAll_log fuel _ _
        · exact writeAll_log fuel _ _
        · split
          · exact writeAll_log fuel _ _
          · rfl
        · rfl
      · rfl

theorem writeEach_log (E : Env) (fuel : Nat) : ∀ (bss : List Bytes) (c : Conn H),
    (writeEach E fuel bss c).2.log = c.log
  | [], _ => rfl
  | bs :: bss, c => by
      refine andThen_unchanged (v := Conn.log) (writeAll_log fuel bs c) fun rc d => ?_
      cases rc with
      | failure => rfl
      | success => exact writeEach_log E fuel bss d

theorem streamBlob_log : ∀ (fuel : Nat) (blob : Bytes) (remaining : Nat) (crc : BitVec 32)
    (c : Conn H), (streamBlob E fuel blob remaining crc c).2.log = c.log
  | 0, _, _, _, _ => rfl
  | fuel + 1, blob, remaining, crc, c => by
      rw [streamBlob]
      split
      · split
        · dsimp only
          split
          · rfl
          · refine andThen_unchanged (v := Conn.log) (writeAll_log fuel _ _) fun rc d => ?_
            cases rc with
            | failure => rfl
            | success => exact streamBlob_log fuel _ _ _ d
        · exact streamBlob_log fuel _ _ _ _
        · exact streamBlob_log fuel _ _ _ _
        · rfl
        · rfl
      · rfl

theorem zipCentral_log : ∀ (rest : List (ZipEntry × BitVec 32 × Nat)) (c : Conn H),
    (zipCentral E fuel rest c).2.log = c.log
  | [], _ => rfl
  | (e, crc, eoff) :: rest, c => by
      refine andThen_unchanged (v := Conn.log) (writeEach_log E fuel _ c) fun rc d => ?_
      cases rc with
      | failure => rfl
      | success => exact zipCentral_log rest d

/-- **One entry**: not opened, or opened and closed, on each of its five ways out. -/
theorem zipEntry_logs (E : Env) (fuel i : Nat) (e : ZipEntry) (c : Conn H) :
    (∃ calls, (zipEntry E fuel i e c).2.log = c.log ++ calls ∧ ∀ a ∈ calls, BlobCall a) ∧
    ((zipEntry E fuel i e c).1 = some none →
      (zipEntry E fuel i e c).2.log = c.log ++ [.zipOpen i false] ∨
      (zipEntry E fuel i e c).2.log = c.log ++ [.zipOpen i true, .zipClose i]) ∧
    ∀ crc, (zipEntry E fuel i e c).1 = some (some crc) →
      (zipEntry E fuel i e c).2.log = c.log ++ [.zipOpen i true, .zipClose i] := by
  unfold zipEntry
  by_cases hopen : E.zipOpen c.tick = true
  · rw [if_neg (by simp [hopen])]
    -- the blob is open from here on, and closed on every way out
    have hopened : ∃ calls, c.log ++ [Call.zipOpen i true] = c.log ++ calls ∧
        ∀ a ∈ calls, BlobCall a :=
      ⟨_, rfl, fun a ha => by rw [List.mem_singleton.mp ha]; trivial⟩
    have hclosed : ∃ calls, c.log ++ [Call.zipOpen i true, .zipClose i] = c.log ++ calls ∧
        ∀ a ∈ calls, BlobCall a :=
      ⟨_, rfl, fun a ha => by rcases List.mem_pair.mp ha with rfl | rfl <;> trivial⟩
    have hlast : ∀ d : Conn H, d.log = c.log ++ [.zipOpen i true] →
        (d.call (.zipClose i)).log = c.log ++ [.zipOpen i true, .zipClose i] := by
      intro d hd
      rw [Conn.call, hd, List.append_assoc]
      rfl
    dsimp only
    have hheads := writeEach_log E fuel
      [(lh e.name.length (E.stack (c.call (.zipOpen i true)).next.tick)).slice 0 zipLH, e.name,
        (lx e.size (E.stack (c.call (.zipOpen i true)).next.tick)).slice 0 zipLX]
      (c.call (.zipOpen i true)).next
    have hstart : (c.call (.zipOpen i true)).next.log = c.log ++ [.zipOpen i true] := rfl
    rw [hstart] at hheads
    generalize writeEach E fuel _ _ = heads at hheads ⊢
    rcases heads with ⟨_ | rc, d⟩
    · rw [andThen_none, hheads]
      exact ⟨hopened, by simp, by simp⟩
    · rw [andThen_some]
      cases rc with
      | failure =>
          dsimp only
          rw [hlast d hheads]
          exact ⟨hclosed, fun _ => .inr rfl, by simp⟩
      | success =>
          have hblob := streamBlob_log (E := E) fuel e.blob e.size 0 d
          rw [hheads] at hblob
          dsimp only
          generalize streamBlob E fuel e.blob e.size 0 d = copied at hblob ⊢
          rcases copied with ⟨_ | out, d'⟩
          · rw [andThen_none, hblob]
            exact ⟨hopened, by simp, by simp⟩
          · rw [andThen_some]
            cases out with
            | none =>
                dsimp only
                rw [hlast d' hblob]
                exact ⟨hclosed, fun _ => .inr rfl, by simp⟩
            | some crc =>
                dsimp only
                have hdesc := writeAll_log (E := E) fuel
                  ((dd crc e.size (E.stack (d'.call (.zipClose i)).tick)).slice 0 zipDD)
                  (d'.call (.zipClose i))
                rw [hlast d' hblob] at hdesc
                generalize writeAll E fuel _ _ = desc at hdesc ⊢
                rcases desc with ⟨_ | rc, d''⟩
                · rw [andThen_none, hdesc]
                  exact ⟨hclosed, by simp, by simp⟩
                · rw [andThen_some]
                  cases rc with
                  | failure =>
                      dsimp only
                      rw [hdesc]
                      exact ⟨hclosed, fun _ => .inr rfl, by simp⟩
                  | success =>
                      dsimp only
                      rw [hdesc]
                      exact ⟨hclosed, by simp, fun _ _ => rfl⟩
  · rw [if_pos (by simp [hopen])]
    refine ⟨⟨[.zipOpen i false], rfl, fun a ha => ?_⟩, fun _ => .inl rfl, by simp⟩
    rw [List.mem_singleton.mp ha]
    trivial

theorem zipEntries_logs : ∀ (es : List ZipEntry) (i off : Nat) (results : List (BitVec 32 × Nat))
    (c : Conn H), Logs i c (zipEntries E fuel es i off results c)
  | [], _, _, _, _ => .nothing rfl
  | e :: es, i, off, results, c => by
      have hlogs := zipEntry_logs E fuel i e c
      rw [zipEntries]
      generalize zipEntry E fuel i e c = entry at hlogs ⊢
      obtain ⟨⟨calls, hcalls, hblob⟩, hfailed, htaken⟩ := hlogs
      rcases entry with ⟨_ | out, d⟩
      · exact ⟨calls, hcalls, hblob, fun h => absurd rfl h⟩
      · rw [andThen_some]
        cases out with
        | none =>
            refine ⟨calls, hcalls, hblob, fun _ => ?_⟩
            rcases hfailed rfl with hlog | hlog
            · rw [List.append_cancel_left (hcalls.symm.trans hlog)]
              exact .refused i
            · rw [List.append_cancel_left (hcalls.symm.trans hlog)]
              exact .entry (.done (i + 1))
        | some crc =>
            have hlog : d.log = c.log ++ [.zipOpen i true, .zipClose i] := htaken crc rfl
            obtain ⟨rest, hrest, hblob', hvisits⟩ := zipEntries_logs es (i + 1)
              (off + (zipLH + e.name.length + zipLX) + e.size + zipDD) (results ++ [(crc, off)]) d
            refine ⟨.zipOpen i true :: .zipClose i :: rest, ?_, ?_, fun h => .entry (hvisits h)⟩
            · rw [hrest, hlog, List.append_assoc]
              rfl
            · intro a ha
              rcases List.mem_cons.mp ha with rfl | ha
              · trivial
              · rcases List.mem_cons.mp ha with rfl | ha
                · trivial
                · exact hblob' a ha

theorem zipStream_logs (E : Env) (fuel : Nat) (h : FolderZip) (c : Conn H) :
    Logs 0 c (zipStream E fuel h c) := by
  simp only [zipStream]
  split
  · exact .nothing rfl
  · have hhead := writeAll_log (E := E) fuel (zipHead (zipTotal h.entries) h.archiveName) c
    generalize writeAll E fuel _ c = head at hhead ⊢
    rcases head with ⟨_ | rc, d⟩
    · exact .nothing hhead
    · rw [andThen_some]
      cases rc with
      | failure => exact .nothing hhead
      | success =>
          have hd : d.log = c.log := hhead
          obtain ⟨calls, hcalls, hblob, hvisits⟩ := zipEntries_logs h.entries 0 0 [] d
          rw [hd] at hcalls
          dsimp only
          generalize zipEntries E fuel h.entries 0 0 [] d = files at hcalls hvisits ⊢
          rcases files with ⟨_ | out, d'⟩
          · exact ⟨calls, hcalls, hblob, fun h => absurd rfl h⟩
          · rw [andThen_some]
            cases out with
            | none => exact ⟨calls, hcalls, hblob, fun _ => hvisits (by simp)⟩
            | some results =>
                -- the directory and the trailer log nothing
                refine ⟨calls, ?_, hblob, fun _ => hvisits (by simp)⟩
                refine andThen_unchanged (v := Conn.log) ?_ fun rc d'' => ?_
                · rw [zipCentral_log]
                  exact hcalls
                · cases rc with
                  | failure => rfl
                  | success => exact writeEach_log E fuel _ d''

/-- Every blob that was opened is closed once, and no other. -/
theorem Visits.balanced {i : Nat} {calls : List Call} (h : Visits i calls) (j : Nat) :
    calls.count (.zipClose j) = calls.count (.zipOpen j true) ∧
      calls.count (.zipOpen j true) ≤ if i ≤ j then 1 else 0 := by
  induction h with
  | done i => simp
  | refused i => simp
  | @entry i calls _ ih =>
      by_cases hij : i = j
      · subst hij
        have hnone : calls.count (.zipOpen i true) = 0 := by
          have hle := ih.2
          rw [if_neg (by omega)] at hle
          omega
        rw [List.count_cons_of_ne (by simp), List.count_cons_self, List.count_cons_self,
          List.count_cons_of_ne (by simp), ih.1, hnone]
        simp
      · have hne : ∀ e : Call, e = .zipClose j ∨ e = .zipOpen j true →
            (Call.zipOpen i true :: .zipClose i :: calls).count e = calls.count e := by
          rintro e (rfl | rfl)
          · rw [List.count_cons_of_ne (by simp), List.count_cons_of_ne (by simp [hij])]
          · rw [List.count_cons_of_ne (by simp [hij]), List.count_cons_of_ne (by simp)]
        rw [hne _ (.inl rfl), hne _ (.inr rfl)]
        refine ⟨ih.1, ih.2.trans ?_⟩
        split <;> split <;> omega

/-- A call about a blob is no answer, and releases nothing. -/
theorem blobCalls_silent {calls : List Call} (h : ∀ e ∈ calls, BlobCall e) :
    responses calls = 0 ∧ calls.count .zipRelease = 0 := by
  constructor
  · rw [responses, List.countP_eq_zero]
    intro e he
    have hblob := h e he
    cases e <;> simp_all [BlobCall]
  · rw [List.count_eq_zero]
    intro hmem
    exact h _ hmem

/-- What a call that opened the archive logs: clean-up complete, and no answer besides. -/
structure Tidy (delta : List Call) : Prop where
  /-- The handle is released last, behind visits that each close their blob. -/
  order : ∃ calls, delta = .zipBegin true :: (calls ++ [.zipRelease]) ∧ Visits 0 calls
  released : delta.count .zipRelease = 1
  closed : ∀ i, delta.count (.zipClose i) = delta.count (.zipOpen i true)
  once : ∀ i, delta.count (.zipOpen i true) ≤ 1
  unanswered : responses delta = 0

theorem tidy_of_visits {calls : List Call} (h : Visits 0 calls) (hblob : ∀ e ∈ calls, BlobCall e) :
    Tidy (.zipBegin true :: (calls ++ [.zipRelease])) := by
  obtain ⟨hnone, hzero⟩ := blobCalls_silent hblob
  refine ⟨⟨calls, rfl, h⟩, ?_, fun i => ?_, fun i => ?_, ?_⟩
  · rw [List.count_cons_of_ne (by simp), List.count_append, hzero]
    rfl
  · rw [List.count_cons_of_ne (by simp), List.count_cons_of_ne (by simp), List.count_append,
      List.count_append, (h.balanced i).1]
    simp
  · have hle := (h.balanced i).2
    rw [List.count_cons_of_ne (by simp), List.count_append]
    simpa using hle
  · show responses ([.zipBegin true] ++ (calls ++ [.zipRelease])) = 0
    rw [responses_append, responses_append, hnone]
    rfl

/-! ## The whole call -/

/-- The blobs, filled up with zeros to their recorded sizes. -/
def filledUp (es : List ZipEntry) : List ZipEntry :=
  es.map fun e => { e with blob := e.blob ++ List.replicate e.size 0 }

theorem continuation_filledUp : ∀ es : List ZipEntry, Continuation es (filledUp es)
  | [] => .nil
  | e :: es => by
      refine .cons ⟨rfl, rfl, List.prefix_append _ _, ?_⟩ (continuation_filledUp es)
      simp

/-- What of `sent` lies behind the head. -/
def bodySent (h : FolderZip) (sent : Bytes) : Bytes :=
  sent.drop (zipHead (zipTotal h.entries) h.archiveName).length

/-- The client got less than it was promised, and nothing that is not of the archive. -/
structure VisiblyShort (h : FolderZip) (sent : Bytes) : Prop where
  short : (bodySent h sent).length < zipTotal h.entries
  beginning : ∀ es, Continuation h.entries es →
    sent <+: zipHead (zipTotal h.entries) h.archiveName ++ Zip64.archive crc32 (es.map zipFile)
  strict : ∀ es, Continuation h.entries es →
    bodySent h sent <+: Zip64.archive crc32 (es.map zipFile) ∧
      bodySent h sent ≠ Zip64.archive crc32 (es.map zipFile)

theorem length_archive_continuation {es es' : List ZipEntry} (h : Continuation es es') :
    (Zip64.archive crc32 (es'.map zipFile)).length = archiveLength es := by
  have hall : ∀ e' ∈ es', e'.size ≤ e'.blob.length := by
    induction h with
    | nil => simp
    | cons hcont _ ih =>
        intro e' he'
        rcases List.mem_cons.mp he' with rfl | he'
        · rw [hcont.size]
          exact hcont.enough
        · exact ih e' he'
  rw [length_archive hall]
  clear hall
  unfold archiveLength
  induction h with
  | nil => rfl
  | cons hcont _ ih =>
      simp only [List.map_cons, List.sum_cons, hcont.name, hcont.size] at ih ⊢
      omega

theorem Short.visibly {h : FolderZip} {sent : Bytes} (htotal : archiveLength h.entries < 2 ^ 64)
    (hshort : ∀ es, Continuation h.entries es → ∃ k < (zipHead (zipTotal h.entries) h.archiveName ++
      Zip64.archive crc32 (es.map zipFile)).length,
      sent = (zipHead (zipTotal h.entries) h.archiveName ++
        Zip64.archive crc32 (es.map zipFile)).take k) : VisiblyShort h sent := by
  -- what is behind the head is a beginning of the archive, and a shorter one
  have hbody : ∀ es, Continuation h.entries es →
      bodySent h sent <+: Zip64.archive crc32 (es.map zipFile) ∧
        (bodySent h sent).length < zipTotal h.entries := by
    intro es hes
    obtain ⟨k, hk, hsent⟩ := hshort es hes
    have hlen := length_archive_continuation hes
    rw [← zipTotal_eq htotal] at hlen
    have hpos : 0 < zipTotal h.entries := by
      rw [zipTotal_eq htotal, archiveLength]
      exact Nat.add_pos_right _ (by decide)
    rw [List.length_append] at hk
    rw [bodySent, hsent, List.drop_take, List.drop_left]
    refine ⟨List.take_prefix _ _, ?_⟩
    rw [List.length_take]
    omega
  obtain ⟨_, hless⟩ := hbody _ (continuation_filledUp h.entries)
  refine ⟨hless, fun es hes => ?_, fun es hes => ⟨(hbody es hes).1, fun heq => ?_⟩⟩
  · obtain ⟨k, _, hsent⟩ := hshort es hes
    rw [hsent]
    exact List.take_prefix _ _
  · have hlen := length_archive_continuation hes
    rw [heq, hlen, zipTotal_eq htotal] at hless
    omega

/--
**A failed archive stream is visibly short and leaks nothing.** If the archive's length
fits its 64-bit announcement, a call that fails with the archive open has sent a proper
beginning of it and fewer bytes than it announced. Whether it fails or not, it closed each
blob it opened once, released the handle once, as its last act, and answered nothing else.
A call that could not open the archive answered once and released nothing. The call comes
back.
-/
theorem failed_archive_visibly_short (req : AppRequest) (hfd : 0 ≤ c.cli.ctx.fd)
    (hrefusal : ∀ res, E.zipBegin c.tick req = .error res → 100 ≤ res.status ∧ res.status ≤ 599) :
    (∀ h, E.zipBegin c.tick req = .ok h → archiveLength h.entries < 2 ^ 64 →
      ∀ fuel rc c', folderZipPump E fuel req c = (some rc, c') →
        (rc = .failure → ∃ sent, c'.wire = c.wire ++ sent ∧ VisiblyShort h sent) ∧
        (rc = .success → c'.wire = c.wire ++ zipHead (zipTotal h.entries) h.archiveName ++
          Zip64.archive crc32 (h.entries.map zipFile)) ∧
        ∃ delta, c'.log = c.log ++ delta ∧ Tidy delta) ∧
    (∀ res, E.zipBegin c.tick req = .error res → ∀ fuel, ∃ bs,
      (folderZipPump E fuel req c).2.log = c.log ++ [.zipBegin false, .respond bs]) ∧
    ((∀ t, ∃ u ≥ t, Moves (E.write u)) → (∀ t, ∃ u ≥ t, ReadMoves (E.blobRead u)) →
      Settles fun fuel => folderZipPump E fuel req c) := by
  simp only [folderZipPump_eq]
  refine ⟨fun h hbegin htotal fuel rc c' hrun => ?_, fun res hbegin fuel => ?_, fun hE hR => ?_⟩
  · rw [clientFolderZipPump, hbegin] at hrun
    simp only [andThen_eq_some] at hrun
    obtain ⟨rc', d, hstream, hlast⟩ := hrun
    obtain ⟨hrc, rfl⟩ := Prod.mk.inj hlast
    obtain rfl := Option.some.inj hrc
    refine ⟨fun hfailed => ?_, fun hdone => ?_, ?_⟩
    · subst hfailed
      have hcut : ∀ es, Continuation h.entries es → Short c d _ := fun es hes =>
        (zipStream_short hes htotal hstream).congr rfl
      -- what was sent is the same prefix of every continuation
      obtain ⟨k, _, hwire⟩ := hcut _ (continuation_filledUp h.entries)
      refine ⟨_, hwire, Short.visibly htotal fun es hes => ?_⟩
      obtain ⟨k', hk', hwire'⟩ := hcut es hes
      exact ⟨k', hk', List.append_cancel_left (hwire.symm.trans hwire')⟩
    · subst hdone
      exact (zipStream_wire htotal hstream).2
    · obtain ⟨calls, hcalls, hblob, hvisits⟩ :=
        zipStream_logs E fuel h (c.call (.zipBegin true)).next
      rw [hstream] at hcalls hvisits
      refine ⟨_, ?_, tidy_of_visits (hvisits (by simp)) hblob⟩
      have hlog : d.log = c.log ++ [.zipBegin true] ++ calls := hcalls
      rw [Conn.call, hlog, List.append_assoc, List.append_assoc]
      rfl
  · obtain ⟨bs, hbs⟩ := responseWriterSend_log (c := (c.call (.zipBegin false)).next) E fuel hfd
      (hrefusal res hbegin)
    refine ⟨bs, ?_⟩
    rw [clientFolderZipPump, hbegin]
    exact hbs.trans (List.append_assoc _ _ _)
  · cases hbegin : E.zipBegin c.tick req with
    | error res =>
        have hsettles := Start.call_settles hE (.send res) (c.call (.zipBegin false)).next
        exact hsettles.congr fun fuel => by
          rw [clientFolderZipPump, hbegin]
          rfl
    | ok h =>
        simp only [clientFolderZipPump, hbegin]
        exact Settles.bind (zipStream_settles hE hR h _) fun rc d => Settles.const fun _ => rfl

/-- The first blob turns out empty. -/
def emptyBlobs : Env := { smallWorld with blobRead := fun _ => .eof }

theorem failed_archive_visibly_short_empty : ∃ c' sent delta,
    folderZipPump emptyBlobs 5 { method := 1, path := [] } (Conn.fresh managedClient) =
      (some .failure, c') ∧
    c'.wire = sent ∧ VisiblyShort smallFolder sent ∧ c'.log = delta ∧ Tidy delta := by
  have hrc : (folderZipPump emptyBlobs 5 { method := 1, path := [] }
      (Conn.fresh managedClient)).1 = some .failure := by decide +kernel
  have hrun : folderZipPump emptyBlobs 5 { method := 1, path := [] } (Conn.fresh managedClient) =
      (some .failure, (folderZipPump emptyBlobs 5 { method := 1, path := [] }
        (Conn.fresh managedClient)).2) := by
    rw [← hrc]
  obtain ⟨hshort, _, delta, hlog, htidy⟩ := (failed_archive_visibly_short (E := emptyBlobs)
    (c := Conn.fresh managedClient) { method := 1, path := [] } (by decide)
    (fun _ h => absurd h (by simp [emptyBlobs, smallWorld]))).1 smallFolder rfl
    (by decide +kernel) 5 _ _ hrun
  obtain ⟨sent, hwire, hvisible⟩ := hshort rfl
  exact ⟨_, sent, delta, hrun, hwire, hvisible, hlog, htidy⟩

/-- One file whose recorded size is the largest there is, and 256 bytes of it. -/
def hugeFolder : FolderZip where
  archiveName := ascii "folder.zip"
  entries := [⟨ascii "a", 2 ^ 64 - 1, List.replicate 256 0⟩]

/-- The archive of that file. -/
def hugeWorld : Env :=
  { Env.smooth { status := 200 } with zipBegin := fun _ _ => .ok hugeFolder }

/-- The announced length wraps to 247 bytes, and the stream fails 307 bytes into the body. -/
theorem wrapped_archive_looks_complete : ∃ c' : Conn DbHttp.small,
    folderZipPump hugeWorld 5 { method := 1, path := [] } (Conn.fresh managedClient) =
      (some .failure, c') ∧
    zipTotal hugeFolder.entries = 247 ∧ (bodySent hugeFolder c'.wire).length = 307 := by
  have hrun : (folderZipPump hugeWorld 5 { method := 1, path := [] }
      (Conn.fresh managedClient)).1 = some .failure ∧
      (bodySent hugeFolder (folderZipPump hugeWorld 5 { method := 1, path := [] }
        (Conn.fresh managedClient)).2.wire).length = 307 := by decide +kernel
  refine ⟨(folderZipPump hugeWorld 5 { method := 1, path := [] } (Conn.fresh managedClient)).2, ?_,
    by decide +kernel, hrun.2⟩
  rw [← hrun.1]

end DBServer.Proof
