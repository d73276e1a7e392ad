import DBServer.Client.ResponseWriter

/-!
# Streaming a folder as an archive

`folder_zip_pump.c`. The archive is never held anywhere: its length is computed
from the metadata, the headers go out, every blob is copied through `cli->buf`,
and the directory at the end is rebuilt from the checksums and offsets noted on
the way. The records are C arrays filled at hand-numbered offsets, and are modelled
as such.
-/

namespace DBServer

open Lib

variable {H : DbHttp}

/-! ## CRC-32 and little-endian stores -/

/-- `g_crc_table[n]`, as `_crc_init` computes it. -/
def crcTable (n : BitVec 32) : BitVec 32 :=
  Nat.iterate (fun c => if c &&& 1#32 ≠ 0#32 then 0xEDB88320#32 ^^^ (c >>> 1) else c >>> 1) 8 n

/-- `_crc_update`. -/
def crcUpdate (crc : BitVec 32) (p : Bytes) : BitVec 32 :=
  p.foldl (fun crc b => crcTable ((crc ^^^ b.toBitVec.setWidth 32) &&& 0xFF#32) ^^^ (crc >>> 8))
    (crc ^^^ 0xFFFFFFFF#32) ^^^ 0xFFFFFFFF#32

/-- `_crc_init`: every entry of `g_crc_table`, in order. -/
def crcInit (table : Vector (BitVec 32) 256) : Vector (BitVec 32) 256 :=
  (List.finRange 256).foldl
    (fun table (n : Fin 256) => table.set n (crcTable (BitVec.ofNat 32 n))) table

/-- `(crc ^ p[i]) & 0xFFu`, which is an index of the table. -/
def crcIndex (crc : BitVec 32) (b : UInt8) : Fin 256 :=
  ⟨((crc ^^^ b.toBitVec.setWidth 32) &&& 0xFF#32).toNat, by
    rw [BitVec.toNat_and]
    exact Nat.lt_succ_of_le Nat.and_le_right⟩

/-- `_crc_update`, with the entries read from the table. -/
def crcLookup (table : Vector (BitVec 32) 256) (crc : BitVec 32) (p : Bytes) : BitVec 32 :=
  p.foldl (fun crc b => table.get (crcIndex crc b) ^^^ (crc >>> 8)) (crc ^^^ 0xFFFFFFFF#32) ^^^
    0xFFFFFFFF#32

/-- `_le16`. -/
def le16 (off v : Nat) (p : Buf) : Buf := p.write off [UInt8.ofNat v, UInt8.ofNat (v >>> 8)]

/-- `_le32`. -/
def le32 (off v : Nat) (p : Buf) : Buf :=
  p.write off [UInt8.ofNat v, UInt8.ofNat (v >>> 8), UInt8.ofNat (v >>> 16), UInt8.ofNat (v >>> 24)]

/-- `_le64`. -/
def le64 (off v : Nat) (p : Buf) : Buf :=
  p.write off ((List.range 8).map fun i => UInt8.ofNat (v >>> (8 * i)))

/-! ## The records -/

def zipLH : Nat := 30
def zipLX : Nat := 20
def zipDD : Nat := 24
def zipCD : Nat := 46
def zipCX : Nat := 28
def zipZ64EOCD : Nat := 56
def zipZ64LOC : Nat := 20
def zipEOCD : Nat := 22

/-- `lh`: local file header. -/
def lh (nl : Nat) (p : Buf) : Buf :=
  p |> le32 0 0x04034b50 |> le16 4 45 |> le16 6 0x0808 |> le16 8 0 |> le16 10 0 |> le16 12 0x0021
    |> le32 14 0 |> le32 18 0xFFFFFFFF |> le32 22 0xFFFFFFFF |> le16 26 nl |> le16 28 zipLX

/-- `lx`: its ZIP64 extra field. -/
def lx (sz : Nat) (p : Buf) : Buf :=
  p |> le16 0 0x0001 |> le16 2 16 |> le64 4 sz |> le64 12 sz

/-- `dd`: data descriptor. -/
def dd (crc : BitVec 32) (sz : Nat) (p : Buf) : Buf :=
  p |> le32 0 0x08074b50 |> le32 4 crc.toNat |> le64 8 sz |> le64 16 sz

/-- `cd`: central directory header. -/
def cd (crc : BitVec 32) (nl : Nat) (p : Buf) : Buf :=
  p |> le32 0 0x02014b50 |> le16 4 45 |> le16 6 45 |> le16 8 0x0808 |> le16 10 0 |> le16 12 0
    |> le16 14 0x0021 |> le32 16 crc.toNat |> le32 20 0xFFFFFFFF |> le32 24 0xFFFFFFFF
    |> le16 28 nl |> le16 30 zipCX |> le16 32 0 |> le16 34 0 |> le16 36 0 |> le32 38 0
    |> le32 42 0xFFFFFFFF

/-- `cx`: its ZIP64 extra field. -/
def cx (sz eoff : Nat) (p : Buf) : Buf :=
  p |> le16 0 0x0001 |> le16 2 24 |> le64 4 sz |> le64 12 sz |> le64 20 eoff

/-- `z64`: ZIP64 end of central directory. -/
def z64 (n cdBytes cdOffset : Nat) (p : Buf) : Buf :=
  p |> le32 0 0x06064b50 |> le64 4 (zipZ64EOCD - 12) |> le16 12 45 |> le16 14 45 |> le32 16 0
    |> le32 20 0 |> le64 24 n |> le64 32 n |> le64 40 cdBytes |> le64 48 cdOffset

/-- `loc`: its locator. -/
def loc (z64Eocd : Nat) (p : Buf) : Buf :=
  p |> le32 0 0x07064b50 |> le32 4 0 |> le64 8 z64Eocd |> le32 16 1

/-- `eo`: end of central directory. -/
def eo (n cdBytes : Nat) (p : Buf) : Buf :=
  p |> le32 0 0x06054b50 |> le16 4 0 |> le16 6 0 |> le16 8 (if n < 0xFFFF then n else 0xFFFF)
    |> le16 10 (if n < 0xFFFF then n else 0xFFFF)
    |> le32 12 (if cdBytes < 0xFFFFFFFF then cdBytes else 0xFFFFFFFF) |> le32 16 0xFFFFFFFF
    |> le16 20 0

/-! ## Writing -/

/-- `_write_all`. -/
def writeAll (E : Env) : Nat → Bytes → Conn H → Option Status × Conn H
  | 0, _, c => (none, c)
  | fuel + 1, bs, c =>
      if 0 < bs.length then
        match E.write c.tick with
        | .wrote n =>
            let k := min (n + 1) bs.length
            writeAll E fuel (bs.drop k) { c.next with wire := c.wire ++ bs.take k }
        | .eintr => writeAll E fuel bs c.next
        | .eagain =>
            if E.pollOut c.tick = .ready then writeAll E fuel bs c.next else (some .failure, c.next)
        | .error => (some .failure, c.next)
      else (some .success, c)

/-- `_write_all(…) != 0 || _write_all(…) != 0 || …`. -/
def writeEach (E : Env) (fuel : Nat) : List Bytes → Conn H → Option Status × Conn H
  | [], c => (some .success, c)
  | bs :: rest, c =>
      andThen (writeAll E fuel bs c) fun
        | .failure, c => (some .failure, c)
        | .success, c => writeEach E fuel rest c

/--
The loop that copies `remaining` bytes of an open blob: the checksum, or `none` for
`failed = 1`. `blob` is what is left of the blob behind its file position.
-/
def streamBlob (E : Env) :
    Nat → Bytes → Nat → BitVec 32 → Conn H → Option (Option (BitVec 32)) × Conn H
  | 0, _, _, _, c => (none, c)
  | fuel + 1, blob, remaining, crc, c =>
      if 0 < remaining then
        match E.blobRead c.tick with
        | .data n =>
            let r := min (min (n + 1) (min remaining H.maxBufferLen)) blob.length
            if r = 0 then (some none, c.next)
            else
              let c := (c.writeBuf 0 (blob.take r)).next
              let bs := c.cli.buf.slice 0 r
              andThen (writeAll E fuel bs c) fun
                | .failure, c => (some none, c)
                | .success, c =>
                    streamBlob E fuel (blob.drop r) (remaining - r) (crcUpdate crc bs) c
        | .eintr | .eagain => streamBlob E fuel blob remaining crc c.next
        | .eof | .error => (some none, c.next)
      else (some (some crc), c)

/-! ## The pump -/

/-- `folder_zip_is_zip_path`. -/
def folderZipIsZipPath (path : Bytes) : Bool :=
  let pre := ascii "/api/app/files/folders/zip/"
  decide (pre.length < path.length) && path.take pre.length == pre

/-- `Σ(local hdr + local zip64 extra + name + data + zip64 descriptor)`. -/
def zipBody (es : List ZipEntry) : Nat :=
  es.foldl (fun body e => (body + (zipLH + zipLX + e.name.length + e.size + zipDD)) % 2 ^ 64) 0

/-- `Σ(central hdr + zip64 extra + name)`. -/
def zipCdBytes (es : List ZipEntry) : Nat :=
  es.foldl (fun cdBytes e => (cdBytes + (zipCD + zipCX + e.name.length)) % 2 ^ 64) 0

/-- `total`, the `Content-Length`. -/
def zipTotal (es : List ZipEntry) : Nat :=
  (zipBody es + zipCdBytes es + zipZ64EOCD + zipZ64LOC + zipEOCD) % 2 ^ 64

/-- `fname`: the archive's name without quotes and line ends, cut to its array. -/
def zipFname (arch : Bytes) : Bytes :=
  ((arch.takeWhile (· ≠ 0)).filter fun c => c ≠ 34 ∧ c ≠ 13 ∧ c ≠ 10).take 79

/-- `head`. -/
def zipHead (total : Nat) (arch : Bytes) : Bytes :=
  ascii "HTTP/1.1 200 OK\r\nContent-Type: application/zip\r\nContent-Length: " ++ decimal total ++
    ascii "\r\nContent-Disposition: attachment; filename=\"" ++ zipFname arch ++
    ascii "\"\r\nCache-Control: private, no-store\r\nConnection: close\r\n\r\n"

/-- One round of the first loop: the entry's checksum, or `none` once it failed. -/
def zipEntry (E : Env) (fuel i : Nat) (e : ZipEntry) (c : Conn H) :
    Option (Option (BitVec 32)) × Conn H :=
  if !E.zipOpen c.tick then (some none, (c.call (.zipOpen i false)).next)
  else
    let c := (c.call (.zipOpen i true)).next
    let heads := [(lh e.name.length (E.stack c.tick)).slice 0 zipLH, e.name,
      (lx e.size (E.stack c.tick)).slice 0 zipLX]
    andThen (writeEach E fuel heads c) fun
      | .failure, c => (some none, c.call (.zipClose i))
      | .success, c =>
          andThen (streamBlob E fuel e.blob e.size 0 c) fun
            | none, c => (some none, c.call (.zipClose i))
            | some crc, c =>
                let c := c.call (.zipClose i)
                andThen (writeAll E fuel ((dd crc e.size (E.stack c.tick)).slice 0 zipDD) c) fun
                  | .failure, c => (some none, c)
                  | .success, c => (some (some crc), c)

/-- The first loop: what `db_app_folder_zip_set_result` noted for each entry. -/
def zipEntries (E : Env) (fuel : Nat) : List ZipEntry → Nat → Nat → List (BitVec 32 × Nat) →
    Conn H → Option (Option (List (BitVec 32 × Nat))) × Conn H
  | [], _, _, results, c => (some (some results), c)
  | e :: es, i, off, results, c =>
      andThen (zipEntry E fuel i e c) fun
        | none, c => (some none, c)
        | some crc, c =>
            zipEntries E fuel es (i + 1)
              (off + (zipLH + e.name.length + zipLX) + e.size + zipDD) (results ++ [(crc, off)]) c

/-- The second loop: the central directory. -/
def zipCentral (E : Env) (fuel : Nat) :
    List (ZipEntry × BitVec 32 × Nat) → Conn H → Option Status × Conn H
  | [], c => (some .success, c)
  | (e, crc, eoff) :: rest, c =>
      andThen (writeEach E fuel [(cd crc e.name.length (E.stack c.tick)).slice 0 zipCD, e.name,
          (cx e.size eoff (E.stack c.tick)).slice 0 zipCX] c) fun
        | .failure, c => (some .failure, c)
        | .success, c => zipCentral E fuel rest c

/-- The three records behind the directory. -/
def zipTrailer (E : Env) (fuel : Nat) (es : List ZipEntry) (c : Conn H) : Option Status × Conn H :=
  writeEach E fuel
    [(z64 es.length (zipCdBytes es) (zipBody es) (E.stack c.tick)).slice 0 zipZ64EOCD,
      (loc (zipBody es + zipCdBytes es) (E.stack c.tick)).slice 0 zipZ64LOC,
      (eo es.length (zipCdBytes es) (E.stack c.tick)).slice 0 zipEOCD] c

/-- Everything the pump writes once the archive is open. -/
def zipStream (E : Env) (fuel : Nat) (h : FolderZip) (c : Conn H) : Option Status × Conn H :=
  let head := zipHead (zipTotal h.entries) h.archiveName
  if 320 ≤ head.length then (some .failure, c)
  else
    andThen (writeAll E fuel head c) fun
      | .failure, c => (some .failure, c)
      | .success, c =>
          andThen (zipEntries E fuel h.entries 0 0 [] c) fun
            | none, c => (some .failure, c)
            | some results, c =>
                andThen (zipCentral E fuel (h.entries.zip results) c) fun
                  | .failure, c => (some .failure, c)
                  | .success, c => zipTrailer E fuel h.entries c

/-- `client_folder_zip_pump`. Every way out of the streaming part releases the archive. -/
def clientFolderZipPump (E : Env) (fuel : Nat) (req : AppRequest) (c : Conn H) :
    Option Status × Conn H :=
  match E.zipBegin c.tick req with
  | .error res => responseWriterSend E fuel res (c.call (.zipBegin false)).next
  | .ok h =>
      andThen (zipStream E fuel h (c.call (.zipBegin true)).next) fun rc c =>
        (some rc, c.call .zipRelease)

end DBServer
