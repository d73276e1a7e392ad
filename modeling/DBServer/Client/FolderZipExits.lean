import DBServer.Client.FolderZip

/-!
# The exits of the archive pump, one by one

`client_folder_zip_pump` once more, as it is written: ten ways out, each with its own
clean-up. `clientFolderZipPump` says the same with the release put behind all of them,
which is how the rest of this development speaks of it.
-/

namespace DBServer

open Lib

variable {H : DbHttp}

/-- `db_app_folder_zip_release(h); return …`. -/
def releaseAnd (rc : Status) (c : Conn H) : Option Status × Conn H := (some rc, c.call .zipRelease)

/-- Step 5: the rest of the central directory, and the three records behind it. -/
def folderZipDirectory (E : Env) (fuel : Nat) (es : List ZipEntry) :
    List (ZipEntry × BitVec 32 × Nat) → Conn H → Option Status × Conn H
  | [], c => andThen (zipTrailer E fuel es c) releaseAnd
  | (e, crc, eoff) :: rest, c =>
      andThen (writeEach E fuel [(cd crc e.name.length (E.stack c.tick)).slice 0 zipCD, e.name,
          (cx e.size eoff (E.stack c.tick)).slice 0 zipCX] c) fun
        | .failure, c => releaseAnd .failure c
        | .success, c => folderZipDirectory E fuel es rest c

/-- Step 4 from the `i`-th entry on, and step 5. -/
def folderZipFiles (E : Env) (fuel : Nat) (h : FolderZip) :
    List ZipEntry → Nat → Nat → List (BitVec 32 × Nat) → Conn H → Option Status × Conn H
  | [], _, _, results, c => folderZipDirectory E fuel h.entries (h.entries.zip results) c
  | e :: es, i, off, results, c =>
      if !E.zipOpen c.tick then releaseAnd .failure (c.call (.zipOpen i false)).next
      else
        let c := (c.call (.zipOpen i true)).next
        let heads := [(lh e.name.length (E.stack c.tick)).slice 0 zipLH, e.name,
          (lx e.size (E.stack c.tick)).slice 0 zipLX]
        andThen (writeEach E fuel heads c) fun
          | .failure, c => releaseAnd .failure (c.call (.zipClose i))
          | .success, c =>
              andThen (streamBlob E fuel e.blob e.size 0 c) fun
                | none, c => releaseAnd .failure (c.call (.zipClose i))
                | some crc, c =>
                    let c := c.call (.zipClose i)
                    andThen (writeAll E fuel ((dd crc e.size (E.stack c.tick)).slice 0 zipDD) c) fun
                      | .failure, c => releaseAnd .failure c
                      | .success, c =>
                          folderZipFiles E fuel h es (i + 1)
                            (off + (zipLH + e.name.length + zipLX) + e.size + zipDD)
                            (results ++ [(crc, off)]) c

/-- `client_folder_zip_pump`, exit by exit. -/
def folderZipPump (E : Env) (fuel : Nat) (req : AppRequest) (c : Conn H) :
    Option Status × Conn H :=
  match E.zipBegin c.tick req with
  | .error res => responseWriterSend E fuel res (c.call (.zipBegin false)).next
  | .ok h =>
      let c := (c.call (.zipBegin true)).next
      let head := zipHead (zipTotal h.entries) h.archiveName
      if 320 ≤ head.length then releaseAnd .failure c
      else
        andThen (writeAll E fuel head c) fun
          | .failure, c => releaseAnd .failure c
          | .success, c => folderZipFiles E fuel h h.entries 0 0 [] c

variable {E : Env} {fuel : Nat} {c : Conn H}

theorem folderZipDirectory_eq (es : List ZipEntry) :
    ∀ (rest : List (ZipEntry × BitVec 32 × Nat)) (c : Conn H),
      folderZipDirectory E fuel es rest c =
        andThen (andThen (zipCentral E fuel rest c) fun
          | .failure, c => (some .failure, c)
          | .success, c => zipTrailer E fuel es c) releaseAnd
  | [], _ => by rw [folderZipDirectory, zipCentral, andThen_some]
  | (e, crc, eoff) :: rest, c => by
      rw [folderZipDirectory, zipCentral]
      generalize writeEach E fuel _ c = heads
      rcases heads with ⟨_ | rc, d⟩
      · simp only [andThen_none]
      · cases rc with
        | failure => simp only [andThen_some]
        | success =>
            simp only [andThen_some]
            exact folderZipDirectory_eq es rest d

theorem folderZipFiles_eq (h : FolderZip) :
    ∀ (es : List ZipEntry) (i off : Nat) (results : List (BitVec 32 × Nat)) (c : Conn H),
      folderZipFiles E fuel h es i off results c =
        andThen (andThen (zipEntries E fuel es i off results c) fun
          | none, c => (some .failure, c)
          | some results, c =>
              andThen (zipCentral E fuel (h.entries.zip results) c) fun
                | .failure, c => (some .failure, c)
                | .success, c => zipTrailer E fuel h.entries c) releaseAnd
  | [], _, _, results, c => by
      rw [folderZipFiles, zipEntries, andThen_some]
      exact folderZipDirectory_eq h.entries (h.entries.zip results) c
  | e :: es, i, off, results, c => by
      -- both sides make the same calls; they differ in where an exit releases the archive
      rw [folderZipFiles, zipEntries, zipEntry]
      cases E.zipOpen c.tick with
      | false => simp only [Bool.not_false, if_true, andThen_some, releaseAnd]
      | true =>
          simp only [Bool.not_true, Bool.false_eq_true, if_false]
          generalize writeEach E fuel _ _ = heads
          rcases heads with ⟨_ | rc, d⟩
          · simp only [andThen_none]
          · cases rc with
            | failure => simp only [andThen_some]
            | success =>
                simp only [andThen_some]
                generalize streamBlob E fuel e.blob e.size 0 d = copied
                rcases copied with ⟨_ | out, d⟩
                · simp only [andThen_none]
                · cases out with
                  | none => simp only [andThen_some]
                  | some crc =>
                      simp only [andThen_some]
                      generalize writeAll E fuel _ _ = desc
                      rcases desc with ⟨_ | rc, d⟩
                      · simp only [andThen_none]
                      · cases rc with
                        | failure => simp only [andThen_some]
                        | success =>
                            simp only [andThen_some]
                            exact folderZipFiles_eq h es _ _ _ d

/-- **The two readings of the function agree.** -/
theorem folderZipPump_eq (req : AppRequest) :
    folderZipPump E fuel req c = clientFolderZipPump E fuel req c := by
  unfold folderZipPump clientFolderZipPump
  cases E.zipBegin c.tick req with
  | error res => rfl
  | ok h =>
      simp only [zipStream]
      split
      · simp only [andThen_some, releaseAnd]
      · generalize writeAll E fuel _ _ = head
        rcases head with ⟨_ | rc, d⟩
        · simp only [andThen_none]
        · cases rc with
          | failure => simp only [andThen_some, releaseAnd]
          | success =>
              simp only [andThen_some]
              exact folderZipFiles_eq h h.entries 0 0 [] d

end DBServer
