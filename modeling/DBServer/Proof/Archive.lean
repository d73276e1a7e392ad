import DBServer.Client.FolderZip
import DBServer.Lib.Crc
import DBServer.Lib.Zip64
import DBServer.Proof.Delivery

/-!
# The streamed archive decodes to the folder

Three things the pump computes in different places have to agree: the length it
announces, the offsets it notes while it streams, and the directory it rebuilds at
the end. They agree because each is the same function of the entries already
written. `Zip64.archive` is that function; this module shows that a pump that
returns success put exactly it on the wire, and `Zip64.read_archive` does the rest.
-/

namespace DBServer.Proof

open DBServer Lib

variable {H : DbHttp} {E : Env} {c c' : Conn H} {fuel : Nat} {bs : Bytes}

/-! ## The checksum -/

/-- The polynomial of CRC-32, reflected. -/
def crcPoly : BitVec 32 := 0xEDB88320#32

/-- CRC-32, bit by bit. -/
def crc32 (bs : Bytes) : Nat := (Crc.crc crcPoly bs).toNat

theorem crcTable_eq (n : BitVec 32) : crcTable n = (Crc.step crcPoly)^[8] n := by
  have hstep : (fun c : BitVec 32 => if c &&& 1#32 ≠ 0#32 then 0xEDB88320#32 ^^^ (c >>> 1)
      else c >>> 1) = Crc.step crcPoly := by
    funext c
    have hlow : c &&& 1#32 ≠ 0#32 ↔ c.getLsbD 0 = true := by
      rw [BitVec.and_one_eq_setWidth_ofBool_getLsbD]
      cases c.getLsbD 0 <;> decide
    rw [Crc.step, crcPoly]
    exact if_congr hlow rfl rfl
  rw [crcTable, hstep]

/-- The table-driven update is the register of the reflected CRC, complemented on both sides. -/
theorem crcUpdate_eq (crc : BitVec 32) (bs : Bytes) :
    crcUpdate crc bs = ~~~Crc.register crcPoly (~~~crc) bs := by
  have hflip : ∀ x : BitVec 32, x ^^^ 0xFFFFFFFF#32 = ~~~x := fun x => by
    rw [show (0xFFFFFFFF#32 : BitVec 32) = BitVec.allOnes 32 from rfl, BitVec.xor_allOnes]
  have hbyte : (fun (crc : BitVec 32) (b : UInt8) =>
      crcTable ((crc ^^^ b.toBitVec.setWidth 32) &&& 0xFF#32) ^^^ (crc >>> 8)) =
        Crc.byteStep crcPoly := by
    funext crc b
    rw [Crc.byteStep_eq_table, crcTable_eq]
    rfl
  rw [crcUpdate, hflip, hflip, hbyte, Crc.register_eq crcPoly (by decide)]

theorem crcUpdate_append (crc : BitVec 32) (as bs : Bytes) :
    crcUpdate (crcUpdate crc as) bs = crcUpdate crc (as ++ bs) := by
  simp only [crcUpdate_eq, BitVec.not_not]
  rw [Crc.register, Crc.register, Crc.register, List.flatMap_append, List.foldl_append]

theorem crcUpdate_nil (crc : BitVec 32) : crcUpdate crc [] = crc := by
  rw [crcUpdate_eq, Crc.register, List.flatMap_nil, List.foldl_nil, BitVec.not_not]

theorem crcUpdate_zero (bs : Bytes) : (crcUpdate 0 bs).toNat = crc32 bs := by
  rw [crcUpdate_eq, crc32, Crc.crc]
  rfl

/-- A store to each index of a list leaves the stored values there, and the others alone. -/
theorem foldl_set {n : Nat} {α : Type} (f : Fin n → α) (l : List (Fin n)) (table : Vector α n)
    (i : Fin n) : (l.foldl (fun table k => table.set k (f k)) table).get i =
      if i ∈ l then f i else table.get i := by
  induction l generalizing table with
  | nil => simp
  | cons k l ih =>
      rw [List.foldl_cons, ih]
      by_cases hmem : i ∈ l
      · simp [hmem]
      · have hget : (table.set k (f k)).get i = if i = k then f i else table.get i := by
          show (table.set k (f k))[(i : Nat)] = _
          rw [Vector.getElem_set]
          by_cases hik : i = k
          · simp [hik]
          · rw [if_neg fun h => hik (Fin.ext h.symm), if_neg hik]
            rfl
        simp [hmem, hget]

/-- The table `_crc_init` leaves, whatever was there. -/
theorem crcInit_get (table : Vector (BitVec 32) 256) (n : Fin 256) :
    (crcInit table).get n = crcTable (BitVec.ofNat 32 n) := by
  rw [crcInit, foldl_set, if_pos (List.mem_finRange n)]

theorem crcLookup_eq (table : Vector (BitVec 32) 256) (crc : BitVec 32) (p : Bytes) :
    crcLookup (crcInit table) crc p = crcUpdate crc p := by
  have hentry : ∀ (crc : BitVec 32) (b : UInt8), (crcInit table).get (crcIndex crc b) =
      crcTable ((crc ^^^ b.toBitVec.setWidth 32) &&& 0xFF#32) := by
    intro crc b
    rw [crcInit_get, crcIndex, BitVec.ofNat_toNat, BitVec.setWidth_eq]
  simp only [crcLookup, crcUpdate, hentry]

/-- Consecutive pieces, one call each. -/
theorem foldl_crcUpdate (chunks : List Bytes) (crc : BitVec 32) :
    chunks.foldl crcUpdate crc = crcUpdate crc chunks.flatten := by
  induction chunks generalizing crc with
  | nil => exact (crcUpdate_nil crc).symm
  | cons p chunks ih => rw [List.foldl_cons, ih, crcUpdate_append, List.flatten_cons]

/--
**The table-driven checksum is CRC-32.** With the table `_crc_init` builds, updates chained
over any pieces of a message come to the bit-by-bit checksum of the whole, and two updates in
a row to one.
-/
theorem crc_table_driven (table : Vector (BitVec 32) 256) :
    (∀ chunks : List Bytes,
      chunks.foldl (crcLookup (crcInit table)) 0 = Crc.crc crcPoly chunks.flatten) ∧
    ∀ (c : BitVec 32) (as bs : Bytes),
      crcLookup (crcInit table) (crcLookup (crcInit table) c as) bs =
        crcLookup (crcInit table) c (as ++ bs) := by
  have hlookup : crcLookup (crcInit table) = crcUpdate := by
    funext crc p
    exact crcLookup_eq table crc p
  rw [hlookup]
  refine ⟨fun chunks => ?_, crcUpdate_append⟩
  rw [foldl_crcUpdate, crcUpdate_eq, Crc.crc]
  rfl

/-- The check value of CRC-32. -/
example : crc32 "123456789".toUTF8.toList = 0xCBF43926 := by decide +kernel

theorem crc32_lt (bs : Bytes) : crc32 bs < 2 ^ 32 := BitVec.isLt _

/-! ## The records -/

/-- The first `n` bytes of an array are the record `fs`. -/
structure Filled (p : Buf) (n : Nat) (fs : List (Nat × Nat)) : Prop where
  slice : p.slice 0 n = encode fs
  length : n = (encode fs).length

namespace Filled

variable {p : Buf} {n v : Nat} {fs : List (Nat × Nat)}

theorem empty (p : Buf) : Filled p 0 [] := ⟨rfl, rfl⟩

/-- A store right behind what is filled is one more field. -/
theorem field {k : Nat} (h : Filled p n fs) :
    Filled (p.write n (leBytes k v)) (n + k) (fs ++ [(k, v)]) := by
  have hlast : encode (fs ++ [(k, v)]) = encode fs ++ leBytes k v := by
    rw [encode, List.flatMap_append, List.flatMap_cons, List.flatMap_nil, List.append_nil, encode]
  refine ⟨?_, by rw [hlast, List.length_append, ← h.length, length_leBytes]⟩
  have hself : (p.write n (leBytes k v)).slice n k = leBytes k v :=
    Buf.slice_write_self (length_leBytes k v).symm
  rw [Buf.slice_add, Nat.zero_add, hself, Buf.slice_write_of_disjoint (.inl (by omega)), h.slice,
    hlast]

theorem le16 (h : Filled p n fs) : Filled (le16 n v p) (n + 2) (fs ++ [(2, v)]) := h.field (k := 2)
theorem le32 (h : Filled p n fs) : Filled (le32 n v p) (n + 4) (fs ++ [(4, v)]) := h.field (k := 4)
theorem le64 (h : Filled p n fs) : Filled (le64 n v p) (n + 8) (fs ++ [(8, v)]) := h.field

end Filled

theorem lh_filled (nl : Nat) (p : Buf) : Filled (lh nl p) zipLH (Zip64.localFields nl) :=
  (Filled.empty p).le32.le16.le16.le16.le16.le16.le32.le32.le32.le16.le16

theorem lx_filled (sz : Nat) (p : Buf) : Filled (lx sz p) zipLX (Zip64.localExtraFields sz) :=
  (Filled.empty p).le16.le16.le64.le64

theorem dd_filled (crc : BitVec 32) (sz : Nat) (p : Buf) :
    Filled (dd crc sz p) zipDD (Zip64.descriptorFields crc.toNat sz) :=
  (Filled.empty p).le32.le32.le64.le64

theorem cd_filled (crc : BitVec 32) (nl : Nat) (p : Buf) :
    Filled (cd crc nl p) zipCD (Zip64.centralFields nl crc.toNat) :=
  (Filled.empty p).le32.le16.le16.le16.le16.le16.le16.le32.le32.le32.le16.le16.le16.le16.le16.le32
    |>.le32

theorem cx_filled (sz eoff : Nat) (p : Buf) :
    Filled (cx sz eoff p) zipCX (Zip64.centralExtraFields sz eoff) :=
  (Filled.empty p).le16.le16.le64.le64.le64

theorem z64_filled (n cdBytes cdOffset : Nat) (p : Buf) :
    Filled (z64 n cdBytes cdOffset p) zipZ64EOCD (Zip64.end64Fields n cdBytes cdOffset) :=
  (Filled.empty p).le32.le64.le16.le16.le32.le32.le64.le64.le64.le64

theorem loc_filled (off : Nat) (p : Buf) : Filled (loc off p) zipZ64LOC (Zip64.locatorFields off) :=
  (Filled.empty p).le32.le32.le64.le32

theorem eo_filled (n cdBytes : Nat) (p : Buf) :
    Filled (eo n cdBytes p) zipEOCD (Zip64.endFields n cdBytes) := by
  have hsat : ∀ k m : Nat, (if k < m then k else m) = min k m := by
    intro k m
    split <;> omega
  rw [eo, hsat, hsat]
  exact (Filled.empty p).le32.le16.le16.le16.le16.le32.le32.le16

/-! ## What reaches the wire -/

theorem writeAll_wire : ∀ {fuel : Nat} {bs : Bytes} {c : Conn H},
    writeAll E fuel bs c = (some .success, c') → c'.wire = c.wire ++ bs
  | 0, _, _, h => by simp [writeAll] at h
  | fuel + 1, bs, c, h => by
      rw [writeAll] at h
      split at h
      · split at h
        · have hrest := writeAll_wire h
          rw [hrest, List.append_assoc, List.take_append_drop]
        · have hrest := writeAll_wire h
          exact hrest
        · split at h
          · have hrest := writeAll_wire h
            exact hrest
          · simp at h
        · simp at h
      · rename_i hempty
        obtain rfl : c = c' := by simpa using h
        have hnil : bs = [] := List.eq_nil_of_length_eq_zero (by omega)
        rw [hnil, List.append_nil]

theorem writeEach_wire : ∀ {bss : List Bytes} {c : Conn H},
    writeEach E fuel bss c = (some .success, c') → c'.wire = c.wire ++ bss.flatten
  | [], c, h => by
      obtain rfl : c = c' := by simpa [writeEach] using h
      simp
  | bs :: bss, c, h => by
      rw [writeEach, andThen_eq_some] at h
      obtain ⟨rc, d, hfirst, hrest⟩ := h
      cases rc with
      | failure => simp at hrest
      | success =>
          rw [writeEach_wire hrest, writeAll_wire hfirst, List.flatten_cons, List.append_assoc]

/--
A copy that did not fail put the first `remaining` bytes of the blob on the wire, in
whatever pieces they were read, and its checksum is theirs.
-/
theorem streamBlob_wire : ∀ {fuel : Nat} {blob : Bytes} {remaining : Nat} {crc crc' : BitVec 32}
    {c : Conn H}, streamBlob E fuel blob remaining crc c = (some (some crc'), c') →
      remaining ≤ blob.length ∧ c'.wire = c.wire ++ blob.take remaining ∧
        crc' = crcUpdate crc (blob.take remaining)
  | 0, _, _, _, _, _, h => by simp [streamBlob] at h
  | fuel + 1, blob, remaining, crc, crc', c, h => by
      rw [streamBlob] at h
      split at h
      · split at h
        · rename_i n hread
          obtain ⟨r, hr⟩ : ∃ r, min (min (n + 1) (min remaining H.maxBufferLen)) blob.length = r :=
            ⟨_, rfl⟩
          simp only [hr] at h
          split at h
          · simp at h
          · -- what was read is what the buffer holds at its start
            have hlen : (blob.take r).length = r := by rw [List.length_take]; omega
            have hbuf : (c.cli.buf.write 0 (blob.take r)).slice 0 r = blob.take r :=
              Buf.slice_write_self hlen.symm
            simp only [Conn.writeBuf, Conn.next, hbuf] at h
            rw [andThen_eq_some] at h
            obtain ⟨rc, d, hw, hrest⟩ := h
            cases rc with
            | failure => simp at hrest
            | success =>
                obtain ⟨hle, hwire, hcrc⟩ := streamBlob_wire hrest
                have hsplit : blob.take remaining =
                    blob.take r ++ (blob.drop r).take (remaining - r) := by
                  rw [← List.take_add]
                  congr 1
                  omega
                rw [List.length_drop] at hle
                refine ⟨by omega, ?_, ?_⟩
                · rw [hwire, writeAll_wire hw, hsplit, List.append_assoc]
                · rw [hcrc, crcUpdate_append, hsplit]
        · have hrest := streamBlob_wire h
          exact hrest
        · have hrest := streamBlob_wire h
          exact hrest
        · simp at h
        · simp at h
      · have hzero : remaining = 0 := by omega
        simp only [Prod.mk.injEq, Option.some.injEq] at h
        obtain ⟨rfl, rfl⟩ := h
        subst hzero
        exact ⟨Nat.zero_le _, by simp, by rw [List.take_zero, crcUpdate_nil]⟩

/-- An entry as a file of the archive: the first `size` bytes of its blob. -/
def zipFile (e : ZipEntry) : Zip64.Entry := ⟨e.name, e.blob.take e.size⟩

theorem zipEntry_wire {i : Nat} {e : ZipEntry} {crc : BitVec 32}
    (h : zipEntry E fuel i e c = (some (some crc), c')) :
    e.size ≤ e.blob.length ∧ crc.toNat = crc32 (zipFile e).data ∧
      c'.wire = c.wire ++ Zip64.localPart crc32 (zipFile e) := by
  unfold zipEntry at h
  split at h
  · simp at h
  · -- the headers on the stack are filled in whole before they are written
    simp only [(lh_filled _ _).slice, (lx_filled _ _).slice, (dd_filled _ _ _).slice] at h
    rw [andThen_eq_some] at h
    obtain ⟨rc, d, hheads, h⟩ := h
    cases rc with
    | failure => simp at h
    | success =>
        simp only [andThen_eq_some] at h
        obtain ⟨out, d', hblob, h⟩ := h
        cases out with
        | none => simp at h
        | some crc₁ =>
            simp only [andThen_eq_some] at h
            obtain ⟨rc, d'', hdesc, h⟩ := h
            cases rc with
            | failure => simp at h
            | success =>
                obtain ⟨rfl, rfl⟩ : crc₁ = crc ∧ d'' = c' := by simpa using h
                obtain ⟨hle, hwire, hcrc⟩ := streamBlob_wire hblob
                have hsum : crc₁.toNat = crc32 (zipFile e).data := by
                  rw [hcrc, crcUpdate_zero]; rfl
                have hsize : (zipFile e).data.length = e.size := by
                  simp only [zipFile, List.length_take]
                  omega
                have hheads' := writeEach_wire hheads
                have hdesc' := writeAll_wire hdesc
                refine ⟨hle, hsum, ?_⟩
                rw [hdesc', Conn.call, hwire, hheads', Zip64.localPart, hsize, ← hsum]
                simp [Conn.call, Conn.next, zipFile]

/-! ## The loops over the entries -/

theorem length_localPart (e : ZipEntry) (h : e.size ≤ e.blob.length) :
    (Zip64.localPart crc32 (zipFile e)).length =
      zipLH + e.name.length + zipLX + e.size + zipDD := by
  simp only [Zip64.localPart, List.length_append, length_encode, zipFile, List.length_take,
    Nat.min_eq_left h]
  simp only [Zip64.localFields, Zip64.localExtraFields, Zip64.descriptorFields, List.map_cons,
    List.map_nil, List.sum_cons, List.sum_nil, zipLH, zipLX, zipDD]
  omega

/-- What the first loop notes of entries whose local headers start at `off`. -/
def noted : List ZipEntry → Nat → List (BitVec 32 × Nat)
  | [], _ => []
  | e :: es, off => (Crc.crc crcPoly (zipFile e).data, off) ::
      noted es (off + (Zip64.localPart crc32 (zipFile e)).length)

theorem zipEntries_wire : ∀ {es : List ZipEntry} {i off : Nat}
    {results results' : List (BitVec 32 × Nat)} {c : Conn H},
    zipEntries E fuel es i off results c = (some (some results'), c') →
      (∀ e ∈ es, e.size ≤ e.blob.length) ∧ results' = results ++ noted es off ∧
        c'.wire = c.wire ++ Zip64.localParts crc32 (es.map zipFile)
  | [], _, _, results, results', c, h => by
      obtain ⟨rfl, rfl⟩ : results = results' ∧ c = c' := by simpa [zipEntries] using h
      exact ⟨by simp, by simp [noted], by simp [Zip64.localParts]⟩
  | e :: es, i, off, results, results', c, h => by
      rw [zipEntries, andThen_eq_some] at h
      obtain ⟨out, d, hentry, h⟩ := h
      cases out with
      | none => simp at h
      | some crc =>
          obtain ⟨hle, hcrc, hwire⟩ := zipEntry_wire hentry
          obtain ⟨hall, hnoted, hrest⟩ := zipEntries_wire h
          have hoff : off + (zipLH + e.name.length + zipLX) + e.size + zipDD =
              off + (Zip64.localPart crc32 (zipFile e)).length := by
            rw [length_localPart e hle]
            omega
          refine ⟨?_, ?_, ?_⟩
          · intro f hf
            rcases List.mem_cons.mp hf with rfl | hf
            · exact hle
            · exact hall f hf
          · rw [hnoted, hoff, noted, List.append_assoc, List.singleton_append,
              show crc = Crc.crc crcPoly (zipFile e).data from BitVec.eq_of_toNat_eq hcrc]
          · rw [hrest, hwire, List.map_cons, Zip64.localParts, Zip64.localParts,
              List.flatMap_cons, List.append_assoc]

theorem zipCentral_wire : ∀ {es : List ZipEntry} {off : Nat} {c : Conn H},
    (∀ e ∈ es, e.size ≤ e.blob.length) →
    zipCentral E fuel (es.zip (noted es off)) c = (some .success, c') →
      c'.wire = c.wire ++ Zip64.centralParts crc32 (es.map zipFile) off
  | [], _, c, _, h => by
      obtain rfl : c = c' := by simpa [zipCentral] using h
      simp [Zip64.centralParts]
  | e :: es, off, c, hall, h => by
      have hle : e.size ≤ e.blob.length := hall e List.mem_cons_self
      rw [noted, List.zip_cons_cons, zipCentral, andThen_eq_some] at h
      obtain ⟨rc, d, hhead, h⟩ := h
      cases rc with
      | failure => simp at h
      | success =>
          have hrest := zipCentral_wire (fun f hf => hall f (List.mem_cons_of_mem e hf)) h
          have hwire := writeEach_wire hhead
          have hsize : (zipFile e).data.length = e.size := by
            simp only [zipFile, List.length_take]
            omega
          rw [hrest, hwire, List.map_cons, Zip64.centralParts, Zip64.centralPart, hsize,
            (cd_filled _ _ _).slice, (cx_filled _ _ _).slice]
          simp [zipFile, crc32]

/-! ## The announced length -/

/-- The length of the archive of `es`. -/
def archiveLength (es : List ZipEntry) : Nat :=
  (es.map fun e => zipLH + zipLX + e.name.length + e.size + zipDD).sum +
    (es.map fun e => zipCD + zipCX + e.name.length).sum + (zipZ64EOCD + zipZ64LOC + zipEOCD)

theorem foldl_wrap {α : Type} (g : α → Nat) (m : Nat) (xs : List α) (a : Nat) :
    xs.foldl (fun b x => (b + g x) % m) (a % m) = (a + (xs.map g).sum) % m := by
  induction xs generalizing a with
  | nil => simp
  | cons x xs ih =>
      rw [List.foldl_cons, Nat.mod_add_mod, ih, List.map_cons, List.sum_cons, Nat.add_assoc]

theorem length_localParts {es : List ZipEntry} (h : ∀ e ∈ es, e.size ≤ e.blob.length) :
    (Zip64.localParts crc32 (es.map zipFile)).length =
      (es.map fun e => zipLH + zipLX + e.name.length + e.size + zipDD).sum := by
  induction es with
  | nil => rfl
  | cons e es ih =>
      have he := length_localPart e (h e List.mem_cons_self)
      have hes := ih fun f hf => h f (List.mem_cons_of_mem e hf)
      rw [Zip64.localParts] at hes
      rw [Zip64.localParts, List.map_cons, List.flatMap_cons, List.length_append, hes, he,
        List.map_cons, List.sum_cons]
      omega

theorem length_centralParts (es : List ZipEntry) (off : Nat) :
    (Zip64.centralParts crc32 (es.map zipFile) off).length =
      (es.map fun e => zipCD + zipCX + e.name.length).sum := by
  induction es generalizing off with
  | nil => rfl
  | cons e es ih =>
      rw [List.map_cons, Zip64.centralParts, List.length_append, ih, Zip64.length_centralPart,
        List.map_cons, List.sum_cons]
      simp only [zipFile, zipCD, zipCX]
      omega

theorem zipBody_eq (es : List ZipEntry) :
    zipBody es = (es.map fun e => zipLH + zipLX + e.name.length + e.size + zipDD).sum % 2 ^ 64 := by
  have h := foldl_wrap (fun e : ZipEntry => zipLH + zipLX + e.name.length + e.size + zipDD)
    (2 ^ 64) es 0
  rwa [Nat.zero_mod, Nat.zero_add] at h

theorem zipCdBytes_eq (es : List ZipEntry) :
    zipCdBytes es = (es.map fun e => zipCD + zipCX + e.name.length).sum % 2 ^ 64 := by
  have h := foldl_wrap (fun e : ZipEntry => zipCD + zipCX + e.name.length) (2 ^ 64) es 0
  rwa [Nat.zero_mod, Nat.zero_add] at h

/-- Below `2 ^ 64` the running totals are the lengths of the two parts. -/
theorem zipBody_exact {es : List ZipEntry} (hall : ∀ e ∈ es, e.size ≤ e.blob.length)
    (htotal : archiveLength es < 2 ^ 64) :
    zipBody es = (Zip64.localParts crc32 (es.map zipFile)).length := by
  rw [zipBody_eq, length_localParts hall, Nat.mod_eq_of_lt]
  unfold archiveLength at htotal
  omega

theorem zipCdBytes_exact {es : List ZipEntry} (htotal : archiveLength es < 2 ^ 64) :
    zipCdBytes es = (Zip64.centralParts crc32 (es.map zipFile) 0).length := by
  rw [zipCdBytes_eq, length_centralParts, Nat.mod_eq_of_lt]
  unfold archiveLength at htotal
  omega

/-- **A stream that came back with success put the whole archive on the wire.** -/
theorem zipStream_wire {h : FolderZip} (htotal : archiveLength h.entries < 2 ^ 64)
    (hrc : zipStream E fuel h c = (some .success, c')) :
    (∀ e ∈ h.entries, e.size ≤ e.blob.length) ∧
      c'.wire = c.wire ++ zipHead (zipTotal h.entries) h.archiveName ++
        Zip64.archive crc32 (h.entries.map zipFile) := by
  simp only [zipStream] at hrc
  split at hrc
  · simp at hrc
  · rw [andThen_eq_some] at hrc
    obtain ⟨rc, d₁, hhead, hrc⟩ := hrc
    cases rc with
    | failure => simp at hrc
    | success =>
        simp only [andThen_eq_some] at hrc
        obtain ⟨out, d₂, hfiles, hrc⟩ := hrc
        cases out with
        | none => simp at hrc
        | some results =>
            simp only [andThen_eq_some] at hrc
            obtain ⟨rc, d₃, hdir, hrc⟩ := hrc
            cases rc with
            | failure => simp at hrc
            | success =>
                obtain ⟨hall, hnoted, hwire₂⟩ := zipEntries_wire hfiles
                rw [List.nil_append] at hnoted
                rw [hnoted] at hdir
                have hwire₁ := writeAll_wire hhead
                have hwire₃ := zipCentral_wire hall hdir
                have hwire₄ := writeEach_wire hrc
                refine ⟨hall, ?_⟩
                rw [hwire₄, hwire₃, hwire₂, hwire₁, (z64_filled _ _ _ _).slice,
                  (loc_filled _ _).slice, (eo_filled _ _ _).slice, zipBody_exact hall htotal,
                  zipCdBytes_exact htotal, Zip64.archive, Zip64.trailer, List.length_map]
                simp only [List.flatten_cons, List.flatten_nil, List.append_assoc, List.append_nil]

theorem length_archive {es : List ZipEntry} (h : ∀ e ∈ es, e.size ≤ e.blob.length) :
    (Zip64.archive crc32 (es.map zipFile)).length = archiveLength es := by
  rw [Zip64.archive, List.length_append, List.length_append, Zip64.length_trailer,
    length_localParts h, length_centralParts, archiveLength]
  simp only [zipZ64EOCD, zipZ64LOC, zipEOCD]
  omega

theorem zipTotal_eq {es : List ZipEntry} (h : archiveLength es < 2 ^ 64) :
    zipTotal es = archiveLength es := by
  rw [zipTotal, zipBody_eq, zipCdBytes_eq]
  unfold archiveLength at h ⊢
  omega

/-! ## The pump comes back -/

theorem writeAll_settles (hE : ∀ t, ∃ u ≥ t, Moves (E.write u)) (bs : Bytes) (c : Conn H) :
    Settles fun fuel => writeAll E fuel bs c := by
  refine Settles.of_progress (r := fun (s : Bytes × Conn H) fuel => writeAll E fuel s.1 s.2)
    (fun s => s.2.tick) (fun s => s.1.length) hE ?_ (bs, c)
  rintro ⟨bs, c⟩ hsmaller hlater
  by_cases hlen : 0 < bs.length
  · cases hw : E.write c.tick with
    | wrote n =>
        refine (hsmaller (bs.drop (min (n + 1) bs.length), _) ?_).of_succ fun fuel => by
          rw [writeAll, if_pos hlen, hw]
        simp only [List.length_drop]
        omega
    | eintr =>
        exact (hlater (by rw [hw]; exact id) (bs, c.next) rfl rfl).of_succ fun fuel => by
          rw [writeAll, if_pos hlen, hw]
    | eagain =>
        by_cases hready : E.pollOut c.tick = .ready
        · exact (hlater (by rw [hw]; exact id) (bs, c.next) rfl rfl).of_succ fun fuel => by
            rw [writeAll, if_pos hlen, hw]; exact if_pos hready
        · exact Settles.const_succ fun fuel => by
            rw [writeAll, if_pos hlen, hw]; exact if_neg hready
    | error => exact Settles.const_succ fun fuel => by rw [writeAll, if_pos hlen, hw]
  · exact Settles.const_succ fun fuel => by rw [writeAll, if_neg hlen]

theorem writeEach_settles (hE : ∀ t, ∃ u ≥ t, Moves (E.write u)) :
    ∀ (bss : List Bytes) (c : Conn H), Settles fun fuel => writeEach E fuel bss c
  | [], _ => Settles.const fun _ => rfl
  | bs :: bss, c => by
      refine Settles.bind (writeAll_settles hE bs c) ?_
      intro rc d
      cases rc with
      | failure => exact Settles.const fun _ => rfl
      | success => exact writeEach_settles hE bss d

/-- A `read` brought bytes, or ended or broke the stream. -/
def ReadMoves : ReadReply → Prop
  | .data _ | .eof | .error => True
  | .eintr | .eagain => False

/-- The rest of the copying loop, once a slice has been offered to the socket. -/
def afterSlice (E : Env) (blob : Bytes) (remaining : Nat) (crc : BitVec 32) (fuel : Nat) :
    Status → Conn H → Option (Option (BitVec 32)) × Conn H
  | .failure, d => (some none, d)
  | .success, d => streamBlob E fuel blob remaining crc d

theorem streamBlob_settles (hE : ∀ t, ∃ u ≥ t, Moves (E.write u))
    (hR : ∀ t, ∃ u ≥ t, ReadMoves (E.blobRead u)) (blob : Bytes) (remaining : Nat)
    (crc : BitVec 32) (c : Conn H) :
    Settles fun fuel => streamBlob E fuel blob remaining crc c := by
  refine Settles.of_progress
    (r := fun (s : Bytes × Nat × BitVec 32 × Conn H) fuel =>
      streamBlob E fuel s.1 s.2.1 s.2.2.1 s.2.2.2)
    (fun s => s.2.2.2.tick) (fun s => s.2.1) hR ?_ (blob, remaining, crc, c)
  rintro ⟨blob, remaining, crc, c⟩ hsmaller hlater
  by_cases hrem : 0 < remaining
  · cases hr : E.blobRead c.tick with
    | data n =>
        obtain ⟨r, hmin⟩ : ∃ r, min (min (n + 1) (min remaining H.maxBufferLen)) blob.length = r :=
          ⟨_, rfl⟩
        by_cases hzero : r = 0
        · -- the blob is shorter than its entry says
          exact Settles.const_succ fun fuel => by
            rw [streamBlob, if_pos hrem, hr]
            simp only [hmin]
            exact if_pos hzero
        · refine Settles.of_succ (Settles.bind (k := afterSlice E (blob.drop r) (remaining - r)
              (crcUpdate crc ((c.writeBuf 0 (blob.take r)).next.cli.buf.slice 0 r)))
            (writeAll_settles hE ((c.writeBuf 0 (blob.take r)).next.cli.buf.slice 0 r)
              (c.writeBuf 0 (blob.take r)).next) ?_) ?_
          · intro rc d
            cases rc with
            | failure => exact Settles.const fun _ => rfl
            | success =>
                exact hsmaller (blob.drop r, remaining - r, _, d) (by dsimp only; omega)
          · intro fuel
            rw [streamBlob, if_pos hrem, hr]
            simp only [hmin]
            exact if_neg hzero
    | eof => exact Settles.const_succ fun fuel => by rw [streamBlob, if_pos hrem, hr]
    | eintr =>
        exact (hlater (by rw [hr]; exact id) (blob, remaining, crc, c.next) rfl rfl).of_succ
          fun fuel => by rw [streamBlob, if_pos hrem, hr]
    | eagain =>
        exact (hlater (by rw [hr]; exact id) (blob, remaining, crc, c.next) rfl rfl).of_succ
          fun fuel => by rw [streamBlob, if_pos hrem, hr]
    | error => exact Settles.const_succ fun fuel => by rw [streamBlob, if_pos hrem, hr]
  · exact Settles.const_succ fun fuel => by rw [streamBlob, if_neg hrem]

theorem zipEntry_settles (hE : ∀ t, ∃ u ≥ t, Moves (E.write u))
    (hR : ∀ t, ∃ u ≥ t, ReadMoves (E.blobRead u)) (i : Nat) (e : ZipEntry) (c : Conn H) :
    Settles fun fuel => zipEntry E fuel i e c := by
  by_cases hopen : E.zipOpen c.tick
  · simp only [zipEntry, hopen, Bool.not_true, Bool.false_eq_true, if_false]
    refine Settles.bind (writeEach_settles hE _ _) fun rc d => ?_
    cases rc with
    | failure => exact Settles.const fun _ => rfl
    | success =>
        refine Settles.bind (streamBlob_settles hE hR _ _ _ d) fun out d' => ?_
        cases out with
        | none => exact Settles.const fun _ => rfl
        | some crc =>
            refine Settles.bind (writeAll_settles hE _ _) fun rc d'' => ?_
            cases rc with
            | failure => exact Settles.const fun _ => rfl
            | success => exact Settles.const fun _ => rfl
  · simp only [zipEntry, hopen, Bool.not_false, if_true]
    exact Settles.const fun _ => rfl

theorem zipEntries_settles (hE : ∀ t, ∃ u ≥ t, Moves (E.write u))
    (hR : ∀ t, ∃ u ≥ t, ReadMoves (E.blobRead u)) :
    ∀ (es : List ZipEntry) (i off : Nat) (results : List (BitVec 32 × Nat)) (c : Conn H),
      Settles fun fuel => zipEntries E fuel es i off results c
  | [], _, _, _, _ => Settles.const fun _ => rfl
  | e :: es, i, off, results, c => by
      refine Settles.bind (zipEntry_settles hE hR i e c) ?_
      intro out d
      cases out with
      | none => exact Settles.const fun _ => rfl
      | some crc => exact zipEntries_settles hE hR es _ _ _ d

theorem zipCentral_settles (hE : ∀ t, ∃ u ≥ t, Moves (E.write u)) :
    ∀ (rs : List (ZipEntry × BitVec 32 × Nat)) (c : Conn H),
      Settles fun fuel => zipCentral E fuel rs c
  | [], _ => Settles.const fun _ => rfl
  | (e, crc, off) :: rs, c => by
      refine Settles.bind (writeEach_settles hE _ c) ?_
      intro rc d
      cases rc with
      | failure => exact Settles.const fun _ => rfl
      | success => exact zipCentral_settles hE rs d

theorem zipStream_settles (hE : ∀ t, ∃ u ≥ t, Moves (E.write u))
    (hR : ∀ t, ∃ u ≥ t, ReadMoves (E.blobRead u)) (h : FolderZip) (c : Conn H) :
    Settles fun fuel => zipStream E fuel h c := by
  by_cases hhead : 320 ≤ (zipHead (zipTotal h.entries) h.archiveName).length
  · exact Settles.const fun _ => if_pos hhead
  · simp only [zipStream, if_neg hhead]
    refine Settles.bind (writeAll_settles hE _ c) fun rc d₁ => ?_
    cases rc with
    | failure => exact Settles.const fun _ => rfl
    | success =>
        refine Settles.bind (zipEntries_settles hE hR _ _ _ _ d₁) fun out d₂ => ?_
        cases out with
        | none => exact Settles.const fun _ => rfl
        | some results =>
            refine Settles.bind (zipCentral_settles hE _ d₂) fun rc d₃ => ?_
            cases rc with
            | failure => exact Settles.const fun _ => rfl
            | success => exact writeEach_settles hE _ d₃

/-! ## The archive decodes -/

/--
**The streamed archive decodes to the folder.** Whatever way reads and writes are
split: a pump that returns success wrote a head announcing exactly the bytes that
follow it, and the reader gets the entry list back from those bytes. The pump comes
back as soon as the socket and the blobs stop answering `EINTR` and `EAGAIN` for ever.
-/
theorem streamed_archive_decodes (req : AppRequest) (h : FolderZip)
    (hbegin : E.zipBegin c.tick req = .ok h)
    (hname : ∀ e ∈ h.entries, e.name.length < 65536)
    (htotal : archiveLength h.entries < 2 ^ 64) :
    (∀ fuel c', clientFolderZipPump E fuel req c = (some .success, c') →
      ∃ body, c'.wire = c.wire ++ zipHead body.length h.archiveName ++ body ∧
        Zip64.read crc32 body = some (h.entries.map zipFile) ∧
        ∀ e ∈ h.entries, (zipFile e).data.length = e.size) ∧
    ((∀ t, ∃ u ≥ t, Moves (E.write u)) → (∀ t, ∃ u ≥ t, ReadMoves (E.blobRead u)) →
      Settles fun fuel => clientFolderZipPump E fuel req c) := by
  refine ⟨?_, ?_⟩
  · intro fuel c' hrc
    rw [clientFolderZipPump, hbegin] at hrc
    simp only [andThen_eq_some] at hrc
    obtain ⟨rc, d, hstream, hlast⟩ := hrc
    obtain ⟨rfl, rfl⟩ : rc = .success ∧ d.call .zipRelease = c' := by simpa using hlast
    obtain ⟨hall, hwire⟩ := zipStream_wire htotal hstream
    have hlen := length_archive hall
    refine ⟨Zip64.archive crc32 (h.entries.map zipFile), ?_, ?_, ?_⟩
    · rw [hlen, ← zipTotal_eq htotal]
      exact hwire
    · refine Zip64.read_archive _ crc32_lt ?_ (by rw [hlen]; exact htotal)
      intro f hf
      obtain ⟨e, he, rfl⟩ := List.mem_map.mp hf
      exact hname e he
    · intro e he
      have hle := hall e he
      simp only [zipFile, List.length_take]
      omega
  · intro hE hR
    simp only [clientFolderZipPump, hbegin]
    refine Settles.bind (zipStream_settles hE hR h _) fun rc d => ?_
    exact Settles.const fun _ => rfl

/-- Two files, the second of them empty and its blob longer than recorded. -/
def smallFolder : FolderZip where
  archiveName := ascii "folder.zip"
  entries := [⟨ascii "a.txt", 3, ascii "abc"⟩, ⟨ascii "b", 0, ascii "x"⟩]

/-- Everything succeeds, one byte of a blob at a time. -/
def smallWorld : Env :=
  { Env.smooth { status := 200 } with
    zipBegin := fun _ _ => .ok smallFolder
    blobRead := fun _ => .data 0 }

theorem streamed_archive_decodes_small :
    let c₀ := Conn.fresh managedClient
    let c := (clientFolderZipPump smallWorld 5 { method := 1, path := [] } c₀).2
    ∃ body, c.wire = zipHead body.length (ascii "folder.zip") ++ body ∧
      Zip64.read crc32 body = some [⟨ascii "a.txt", ascii "abc"⟩, ⟨ascii "b", []⟩] := by
  have hrun := (streamed_archive_decodes (E := smallWorld) (c := Conn.fresh managedClient)
    { method := 1, path := [] } smallFolder rfl (by decide +kernel) (by decide +kernel)).1
  have hrc : clientFolderZipPump smallWorld 5 { method := 1, path := [] }
      (Conn.fresh managedClient) = (some .success, (clientFolderZipPump smallWorld 5
        { method := 1, path := [] } (Conn.fresh managedClient)).2) := by
    have hfst : (clientFolderZipPump smallWorld 5 { method := 1, path := [] }
        (Conn.fresh managedClient)).1 = some .success := by decide +kernel
    rw [← hfst]
  obtain ⟨body, hwire, hread, -⟩ := hrun 5 _ hrc
  exact ⟨body, hwire, hread⟩

end DBServer.Proof
