import DBServer.Lib.LittleEndian

/-!
# Streamed ZIP64 archives and their reader

The archives here store every file uncompressed, give its sizes in ZIP64 extra
fields, and put its checksum in a data descriptor behind the data. `archive` lays
such a file out. `read` is a reader of it: it starts from the end record, takes the
locator in front of it, follows that to the ZIP64 end record, follows that to the
central directory, and each directory entry to its local header. It refuses the
archive if any of these is not where it was said to be, or if two places disagree
on a name, a size or a checksum. `read_archive` says that reading inverts laying out.
-/

namespace DBServer.Lib.Zip64

/-- A file of an archive. -/
structure Entry where
  name : List UInt8
  data : List UInt8
deriving DecidableEq

/-! ## Layout -/

/-- Local file header. -/
def localFields (nameLen : Nat) : List (Nat × Nat) :=
  [(4, 0x04034b50), (2, 45), (2, 0x0808), (2, 0), (2, 0), (2, 0x0021), (4, 0), (4, 0xFFFFFFFF),
    (4, 0xFFFFFFFF), (2, nameLen), (2, 20)]

/-- ZIP64 extra field of a local header. -/
def localExtraFields (size : Nat) : List (Nat × Nat) := [(2, 1), (2, 16), (8, size), (8, size)]

/-- Data descriptor. -/
def descriptorFields (crc size : Nat) : List (Nat × Nat) :=
  [(4, 0x08074b50), (4, crc), (8, size), (8, size)]

/-- Central directory header. -/
def centralFields (nameLen crc : Nat) : List (Nat × Nat) :=
  [(4, 0x02014b50), (2, 45), (2, 45), (2, 0x0808), (2, 0), (2, 0), (2, 0x0021), (4, crc),
    (4, 0xFFFFFFFF), (4, 0xFFFFFFFF), (2, nameLen), (2, 28), (2, 0), (2, 0), (2, 0), (4, 0),
    (4, 0xFFFFFFFF)]

/-- ZIP64 extra field of a central directory header. -/
def centralExtraFields (size off : Nat) : List (Nat × Nat) :=
  [(2, 1), (2, 24), (8, size), (8, size), (8, off)]

/-- ZIP64 end of central directory. -/
def end64Fields (count cdSize cdOff : Nat) : List (Nat × Nat) :=
  [(4, 0x06064b50), (8, 44), (2, 45), (2, 45), (4, 0), (4, 0), (8, count), (8, count), (8, cdSize),
    (8, cdOff)]

/-- ZIP64 end of central directory locator. -/
def locatorFields (off : Nat) : List (Nat × Nat) := [(4, 0x07064b50), (4, 0), (8, off), (4, 1)]

/-- End of central directory, with what does not fit its narrow fields saturated. -/
def endFields (count cdSize : Nat) : List (Nat × Nat) :=
  [(4, 0x06054b50), (2, 0), (2, 0), (2, min count 0xFFFF), (2, min count 0xFFFF),
    (4, min cdSize 0xFFFFFFFF), (4, 0xFFFFFFFF), (2, 0)]

variable (crc : List UInt8 → Nat)

/-- A file with its headers. -/
def localPart (e : Entry) : List UInt8 :=
  encode (localFields e.name.length) ++ (e.name ++ (encode (localExtraFields e.data.length) ++
    (e.data ++ encode (descriptorFields (crc e.data) e.data.length))))

/-- Its line in the directory. -/
def centralPart (e : Entry) (off : Nat) : List UInt8 :=
  encode (centralFields e.name.length (crc e.data)) ++
    (e.name ++ encode (centralExtraFields e.data.length off))

/-- All files. -/
def localParts (es : List Entry) : List UInt8 := es.flatMap (localPart crc)

/-- The directory of files that start at `off`. -/
def centralParts : List Entry → Nat → List UInt8
  | [], _ => []
  | e :: es, off => centralPart crc e off ++ centralParts es (off + (localPart crc e).length)

/-- What follows the directory. -/
def trailer (count cdSize cdOff : Nat) : List UInt8 :=
  encode (end64Fields count cdSize cdOff) ++
    (encode (locatorFields (cdOff + cdSize)) ++ encode (endFields count cdSize))

/-- The whole archive. -/
def archive (es : List Entry) : List UInt8 :=
  localParts crc es ++ (centralParts crc es 0 ++
    trailer es.length (centralParts crc es 0).length (localParts crc es).length)

/-! ## Reading -/

/-- The widths of a layout's fields. -/
def widths (fs : List (Nat × Nat)) : List Nat := fs.map Prod.fst

/--
The file behind a directory entry: its local header, name and ZIP64 extra field at
`off`, then the data, then the descriptor. All of them must agree with the directory.
-/
def readLocal (a : List UInt8) (off : Nat) (name : List UInt8) (sum size : Nat) : Option Entry := do
  let [sig, _, flags, method, _, _, _, comp, uncomp, nameLen, extraLen] ←
    fields (widths (localFields 0)) a off | none
  guard (sig = 0x04034b50 ∧ flags = 0x0808 ∧ method = 0 ∧ comp = 0xFFFFFFFF ∧
    uncomp = 0xFFFFFFFF ∧ extraLen = 20)
  let name' ← sub a (off + 30) nameLen
  let [tag, len, uncomp, comp] ←
    fields (widths (localExtraFields 0)) a (off + 30 + nameLen) | none
  guard (name' = name ∧ tag = 1 ∧ len = 16 ∧ uncomp = size ∧ comp = size)
  let data ← sub a (off + 30 + nameLen + extraLen) comp
  let [sig, sum', comp', uncomp'] ←
    fields (widths (descriptorFields 0 0)) a (off + 30 + nameLen + extraLen + comp) | none
  guard (sig = 0x08074b50 ∧ sum' = sum ∧ comp' = size ∧ uncomp' = size ∧ crc data = sum)
  return ⟨name, data⟩

/-- `n` directory entries from `off` on, and where they end. -/
def readCentral (a : List UInt8) : Nat → Nat → Option (List Entry × Nat)
  | 0, off => some ([], off)
  | n + 1, off => do
      let [sig, _, _, flags, method, _, _, sum, comp, uncomp, nameLen, extraLen, commentLen, _, _,
        _, lho] ← fields (widths (centralFields 0 0)) a off | none
      guard (sig = 0x02014b50 ∧ flags = 0x0808 ∧ method = 0 ∧ comp = 0xFFFFFFFF ∧
        uncomp = 0xFFFFFFFF ∧ lho = 0xFFFFFFFF ∧ extraLen = 28)
      let name ← sub a (off + 46) nameLen
      let [tag, len, uncomp, comp, lho] ←
        fields (widths (centralExtraFields 0 0)) a (off + 46 + nameLen) | none
      guard (tag = 1 ∧ len = 24 ∧ uncomp = comp)
      let e ← readLocal crc a lho name sum comp
      let (es, last) ← readCentral a n (off + 46 + nameLen + extraLen + commentLen)
      return (e :: es, last)

/-- **The reader.** -/
def read (a : List UInt8) : Option (List Entry) := do
  guard (42 ≤ a.length)
  let [sig, _, _, _, n, cdSize, cdOff, commentLen] ←
    fields (widths (endFields 0 0)) a (a.length - 22) | none
  guard (sig = 0x06054b50 ∧ commentLen = 0)
  let [sig, _, off, _] ← fields (widths (locatorFields 0)) a (a.length - 42) | none
  guard (sig = 0x07064b50)
  let [sig, len, _, _, _, _, n', n64, cdSize64, cdOff64] ←
    fields (widths (end64Fields 0 0 0)) a off | none
  guard (sig = 0x06064b50 ∧ len = 44 ∧ n' = n64 ∧ (n = n64 ∨ n = 0xFFFF) ∧
    (cdSize = cdSize64 ∨ cdSize = 0xFFFFFFFF) ∧ (cdOff = cdOff64 ∨ cdOff = 0xFFFFFFFF))
  let (es, last) ← readCentral crc a n64 cdOff64
  guard (last = cdOff64 + cdSize64 ∧ last = off)
  return es

/-! ## Reading inverts laying out -/

variable {crc} {a : List UInt8}

theorem readLocal_of_at {e : Entry} {off : Nat} (h : At a off (localPart crc e))
    (hcrc : ∀ bs, crc bs < 2 ^ 32) (hname : e.name.length < 2 ^ 16)
    (hsize : e.data.length < 2 ^ 64) :
    readLocal crc a off e.name (crc e.data) e.data.length = some e := by
  have hsum := hcrc e.data
  have hhead : fields (widths (localFields 0)) a off =
      some [0x04034b50, 45, 0x0808, 0, 0, 0x0021, 0, 0xFFFFFFFF, 0xFFFFFFFF, e.name.length, 20] :=
    fields_of_at h.left rfl (by simp [localFields]; omega)
  have h1 : At a (off + 30) _ := h.right (by rw [length_encode]; rfl)
  have hn : sub a (off + 30) e.name.length = some e.name := sub_of_at h1.left rfl
  have h2 := h1.right rfl
  have hextra : fields (widths (localExtraFields 0)) a (off + 30 + e.name.length) =
      some [1, 16, e.data.length, e.data.length] :=
    fields_of_at h2.left rfl (by simp [localExtraFields]; omega)
  have h3 : At a (off + 30 + e.name.length + 20) _ := h2.right (by rw [length_encode]; rfl)
  have hd : sub a (off + 30 + e.name.length + 20) e.data.length = some e.data :=
    sub_of_at h3.left rfl
  have hdesc : fields (widths (descriptorFields 0 0)) a
      (off + 30 + e.name.length + 20 + e.data.length) =
        some [0x08074b50, crc e.data, e.data.length, e.data.length] :=
    fields_of_at (h3.right rfl) rfl (by simp [descriptorFields]; omega)
  simp [readLocal, hhead, hn, hextra, hd, hdesc]

theorem length_centralPart (e : Entry) (off : Nat) :
    (centralPart crc e off).length = 46 + e.name.length + 28 := by
  simp only [centralPart, List.length_append, length_encode]
  simp only [centralFields, centralExtraFields, List.map_cons, List.map_nil, List.sum_cons,
    List.sum_nil]
  omega

/--
The directory leads to every file. The induction is on the files still to be read:
their headers stand at `off`, their directory entries at `cd`.
-/
theorem readCentral_of_at {es : List Entry} {off cd : Nat} (hloc : At a off (localParts crc es))
    (hcd : At a cd (centralParts crc es off)) (hcrc : ∀ bs, crc bs < 2 ^ 32)
    (hname : ∀ e ∈ es, e.name.length < 2 ^ 16) (hlen : a.length < 2 ^ 64) :
    readCentral crc a es.length cd = some (es, cd + (centralParts crc es off).length) := by
  induction es generalizing off cd with
  | nil => rfl
  | cons e es ih =>
      -- the sizes fit because the whole archive does
      have hfits : ∀ {n : Nat} {mid : List UInt8}, At a n mid → n + mid.length ≤ a.length := by
        rintro n mid ⟨pre, post, rfl, rfl⟩
        simp only [List.length_append]
        omega
      have hsum := hcrc e.data
      have he : e.name.length < 2 ^ 16 := hname e List.mem_cons_self
      have hfile : At a off (localPart crc e) := hloc.left
      have hend := hfits hfile
      have hsize : e.data.length < 2 ^ 64 := by
        have hle : e.data.length ≤ (localPart crc e).length := by
          simp only [localPart, List.length_append]
          omega
        omega
      have hread := readLocal_of_at hfile hcrc he hsize
      have hhead : fields (widths (centralFields 0 0)) a cd =
          some [0x02014b50, 45, 45, 0x0808, 0, 0, 0x0021, crc e.data, 0xFFFFFFFF, 0xFFFFFFFF,
            e.name.length, 28, 0, 0, 0, 0, 0xFFFFFFFF] :=
        fields_of_at hcd.left.left rfl (by simp [centralFields]; omega)
      have h1 : At a (cd + 46) _ := hcd.left.right (by rw [length_encode]; rfl)
      have hn : sub a (cd + 46) e.name.length = some e.name := sub_of_at h1.left rfl
      -- sizes and offset are saturated in the record and stand in the extra field
      have hextra : fields (widths (centralExtraFields 0 0)) a (cd + 46 + e.name.length) =
          some [1, 24, e.data.length, e.data.length, off] :=
        fields_of_at (h1.right rfl) rfl (by simp [centralExtraFields]; omega)
      have hrest : readCentral crc a es.length (cd + 46 + e.name.length + 28 + 0) =
          some (es, cd + 46 + e.name.length + 28 + 0 +
            (centralParts crc es (off + (localPart crc e).length)).length) := by
        refine ih (hloc.right rfl) (hcd.right ?_) fun f hf => hname f (List.mem_cons_of_mem e hf)
        rw [length_centralPart]
        omega
      have hlast : cd + 46 + e.name.length + 28 +
          (centralParts crc es (off + (localPart crc e).length)).length =
            cd + (centralParts crc (e :: es) off).length := by
        rw [centralParts, List.length_append, length_centralPart]
        omega
      rw [← hlast]
      simp only [Nat.add_zero] at hrest
      simp [readCentral, hhead, hn, hextra, hread, hrest]

theorem length_le_centralParts (es : List Entry) (off : Nat) :
    es.length ≤ (centralParts crc es off).length := by
  induction es generalizing off with
  | nil => exact Nat.zero_le _
  | cons e es ih =>
      have hrest := ih (off + (localPart crc e).length)
      rw [centralParts, List.length_append, length_centralPart, List.length_cons]
      omega

theorem length_trailer (count cdSize cdOff : Nat) :
    (trailer count cdSize cdOff).length = 98 := by
  simp only [trailer, List.length_append, length_encode]
  rfl

/-- **Reading an archive gives back its files.** -/
theorem read_archive (es : List Entry) (hcrc : ∀ bs, crc bs < 2 ^ 32)
    (hname : ∀ e ∈ es, e.name.length < 2 ^ 16) (hlen : (archive crc es).length < 2 ^ 64) :
    read crc (archive crc es) = some es := by
  obtain ⟨a, ha⟩ : ∃ a, archive crc es = a := ⟨_, rfl⟩
  obtain ⟨cd, hcd⟩ : ∃ cd, (localParts crc es).length = cd := ⟨_, rfl⟩
  obtain ⟨size, hsize⟩ : ∃ size, (centralParts crc es 0).length = size := ⟨_, rfl⟩
  have hcount : es.length ≤ size := hsize ▸ length_le_centralParts es 0
  have hall : At a 0 (archive crc es) := ha ▸ At.self a
  rw [ha] at hlen ⊢
  have htotal : a.length = cd + size + 98 := by
    rw [← ha, archive, List.length_append, List.length_append, length_trailer, hcd, hsize]
    omega
  have hfiles : At a 0 (localParts crc es) := hall.left
  have hmid : At a cd _ := hall.right (by rw [hcd, Nat.zero_add])
  have hdir : At a cd (centralParts crc es 0) := hmid.left
  have htrailer : At a (cd + size) (trailer es.length size cd) := by
    rw [← hcd, ← hsize]
    exact hmid.right (by rw [hcd])
  have hend64 : fields (widths (end64Fields 0 0 0)) a (cd + size) =
      some [0x06064b50, 44, 45, 45, 0, 0, es.length, es.length, size, cd] :=
    fields_of_at htrailer.left rfl (by simp [end64Fields]; omega)
  have hrest : At a (cd + size + 56) _ := htrailer.right (by rw [length_encode]; rfl)
  have hloc : fields (widths (locatorFields 0)) a (a.length - 42) =
      some [0x07064b50, 0, cd + size, 1] := by
    rw [show a.length - 42 = cd + size + 56 by omega]
    exact fields_of_at hrest.left rfl (by simp [locatorFields]; omega)
  -- the end record's own fields are narrow: each is the value itself or all ones
  obtain ⟨n, hn⟩ : ∃ n, min es.length 0xFFFF = n := ⟨_, rfl⟩
  obtain ⟨cdSize, hs⟩ : ∃ k, min size 0xFFFFFFFF = k := ⟨_, rfl⟩
  have hn16 : n < 65536 := by omega
  have hs32 : cdSize < 4294967296 := by omega
  have hend : fields (widths (endFields 0 0)) a (a.length - 22) =
      some [0x06054b50, 0, 0, n, n, cdSize, 0xFFFFFFFF, 0] := by
    rw [← hn, ← hs]
    refine fields_of_at (hrest.right ?_) rfl (by simp [endFields, hn, hs, hn16, hs32])
    rw [length_encode]
    simp only [locatorFields, List.map_cons, List.map_nil, List.sum_cons, List.sum_nil]
    omega
  have hread : readCentral crc a es.length cd = some (es, cd + size) := by
    rw [← hsize]
    exact readCentral_of_at hfiles hdir hcrc hname hlen
  have hn : n = es.length ∨ n = 0xFFFF := by omega
  have hs : cdSize = size ∨ cdSize = 0xFFFFFFFF := by omega
  have h42 : 42 ≤ a.length := by omega
  simp [read, h42, hend, hloc, hend64, hread, hn, hs]

end DBServer.Lib.Zip64
