import Mathlib

/-!
# Little-endian fields and fixed records

A binary record is a run of unsigned fields, each a number of bytes wide and
stored low byte first. `encode` lays out a list of fields; `fields ws bs off`
reads back the values of a record whose widths are `ws` from the bytes at `off`.
A record that was laid out anywhere inside a string reads back field for field
(`fields_of_at`).
-/

namespace DBServer.Lib

/-- The low `k` bytes of `v`, lowest first. -/
def leBytes (k v : Nat) : List UInt8 := (List.range k).map fun i => UInt8.ofNat (v >>> (8 * i))

/-- The number a little-endian string spells. -/
def leNat : List UInt8 → Nat
  | [] => 0
  | b :: bs => b.toNat + 256 * leNat bs

@[simp] theorem length_leBytes (k v : Nat) : (leBytes k v).length = k := by simp [leBytes]

theorem leBytes_succ (k v : Nat) : leBytes (k + 1) v = UInt8.ofNat v :: leBytes k (v / 256) := by
  rw [leBytes, List.range_succ_eq_map, List.map_cons, List.map_map]
  congr 1
  refine List.map_congr_left fun i _ => ?_
  have hshift : v >>> (8 * (i + 1)) = (v / 256) >>> (8 * i) := by
    rw [Nat.mul_succ, Nat.add_comm, Nat.shiftRight_add, Nat.shiftRight_eq_div_pow v 8]
  exact congrArg UInt8.ofNat hshift

/-- Only the low `k` bytes are kept, and those are kept exactly. -/
theorem leNat_leBytes (k v : Nat) : leNat (leBytes k v) = v % 256 ^ k := by
  induction k generalizing v with
  | zero => rw [pow_zero, Nat.mod_one]; rfl
  | succ k ih =>
      have hsplit : v % 256 ^ (k + 1) = v % 256 + 256 * (v / 256 % 256 ^ k) := by
        rw [Nat.pow_succ, Nat.mul_comm (256 ^ k), Nat.mod_mul]
      rw [leBytes_succ, leNat, ih, UInt8.toNat_ofNat', hsplit]

/-! ## Records -/

/-- Lay out fields given as width and value. -/
def encode (fs : List (Nat × Nat)) : List UInt8 := fs.flatMap fun f => leBytes f.1 f.2

/-- Cut a string into fields of the given widths. -/
def decode : List Nat → List UInt8 → List Nat
  | [], _ => []
  | w :: ws, bs => leNat (bs.take w) :: decode ws (bs.drop w)

/-- The `n` bytes at `off`, if the string reaches that far. -/
def sub (bs : List UInt8) (off n : Nat) : Option (List UInt8) :=
  if off + n ≤ bs.length then some ((bs.drop off).take n) else none

/-- The field values of the record at `off`. -/
def fields (ws : List Nat) (bs : List UInt8) (off : Nat) : Option (List Nat) :=
  (sub bs off ws.sum).map (decode ws)

@[simp] theorem encode_nil : encode [] = [] := rfl

theorem encode_cons (f : Nat × Nat) (fs : List (Nat × Nat)) :
    encode (f :: fs) = leBytes f.1 f.2 ++ encode fs := List.flatMap_cons

theorem length_encode (fs : List (Nat × Nat)) : (encode fs).length = (fs.map Prod.fst).sum := by
  induction fs with
  | nil => rfl
  | cons f fs ih =>
      rw [encode_cons, List.length_append, length_leBytes, ih, List.map_cons, List.sum_cons]

theorem decode_encode {fs : List (Nat × Nat)} (h : ∀ f ∈ fs, f.2 < 256 ^ f.1) :
    decode (fs.map Prod.fst) (encode fs) = fs.map Prod.snd := by
  induction fs with
  | nil => rfl
  | cons f fs ih =>
      have hf : f.2 < 256 ^ f.1 := h f List.mem_cons_self
      have hfs : ∀ g ∈ fs, g.2 < 256 ^ g.1 := fun g hg => h g (List.mem_cons_of_mem f hg)
      rw [List.map_cons, List.map_cons, decode, encode_cons,
        List.take_left' (length_leBytes f.1 f.2), List.drop_left' (length_leBytes f.1 f.2),
        leNat_leBytes, Nat.mod_eq_of_lt hf, ih hfs]

/-! ## Where a string stands in another -/

/-- `mid` stands at `off` in `bs`. -/
def At (bs : List UInt8) (off : Nat) (mid : List UInt8) : Prop :=
  ∃ pre post, bs = pre ++ (mid ++ post) ∧ off = pre.length

variable {bs mid mid' : List UInt8} {off : Nat}

theorem At.self (bs : List UInt8) : At bs 0 bs := ⟨[], [], by simp, rfl⟩

theorem At.left (h : At bs off (mid ++ mid')) : At bs off mid := by
  obtain ⟨pre, post, hbs, hoff⟩ := h
  exact ⟨pre, mid' ++ post, by rw [hbs, List.append_assoc], hoff⟩

theorem At.right {off' : Nat} (h : At bs off (mid ++ mid')) (hoff' : off' = off + mid.length) :
    At bs off' mid' := by
  obtain ⟨pre, post, hbs, hoff⟩ := h
  refine ⟨pre ++ mid, post, ?_, ?_⟩
  · rw [hbs, List.append_assoc, List.append_assoc]
  · rw [hoff', hoff, List.length_append]

theorem sub_of_at {n : Nat} (h : At bs off mid) (hn : n = mid.length) : sub bs off n = some mid := by
  obtain ⟨pre, post, rfl, rfl⟩ := h
  subst hn
  rw [sub, if_pos (by simp), List.drop_left, List.take_left]

/-- **A record reads back from wherever it was laid out.** -/
theorem fields_of_at {fs : List (Nat × Nat)} {ws : List Nat} (h : At bs off (encode fs))
    (hws : ws = fs.map Prod.fst) (hfs : ∀ f ∈ fs, f.2 < 256 ^ f.1) :
    fields ws bs off = some (fs.map Prod.snd) := by
  rw [fields, hws, sub_of_at h (length_encode fs).symm, Option.map_some, decode_encode hfs]

end DBServer.Lib
