import Mathlib

/-!
# Byte buffers

A C byte array seen through its index: a total function from offsets to bytes,
written a run of bytes at a time and read back as the list of bytes between two
offsets. Nothing here bounds an offset. Whoever writes into an array of a fixed
size states its own bound.
-/

namespace DBServer.Lib

/-- A byte array, by offset. -/
abbrev Buf := Nat → UInt8

namespace Buf

/-- All bytes zero: what `memset(buf, 0, …)` leaves. -/
def zero : Buf := fun _ => 0

/-- Store `bs` at `off`: what `memcpy(buf + off, bs, n)` or `read(fd, buf + off, …)` does. -/
def write (b : Buf) (off : Nat) (bs : List UInt8) : Buf := fun i =>
  if off ≤ i ∧ i < off + bs.length then bs.getD (i - off) 0 else b i

/-- The `n` bytes from `off` on. -/
def slice (b : Buf) (off n : Nat) : List UInt8 := (List.range n).map fun i => b (off + i)

variable {b b' : Buf} {off n m : Nat} {bs : List UInt8}

@[simp] theorem length_slice : (b.slice off n).length = n := by simp [slice]

@[simp] theorem slice_zero_length : b.slice off 0 = [] := rfl

/-- A slice cut in two. -/
theorem slice_add : b.slice off (m + n) = b.slice off m ++ b.slice (off + m) n := by
  simp only [slice, List.range_add, List.map_append, List.map_map]
  congr 1
  exact List.map_congr_left fun _ _ => by rw [Function.comp_apply, Nat.add_assoc]

theorem take_slice (h : m ≤ n) : (b.slice off n).take m = b.slice off m := by
  obtain ⟨k, rfl⟩ := Nat.exists_eq_add_of_le h
  rw [slice_add, List.take_left' length_slice]

/-- Slices see only the bytes in their range. -/
theorem slice_congr (h : ∀ i, off ≤ i → i < off + n → b i = b' i) :
    b.slice off n = b'.slice off n :=
  List.map_congr_left fun _ hi => h _ (Nat.le_add_right _ _)
    (Nat.add_lt_add_left (List.mem_range.mp hi) _)

/-- What was just stored reads back. -/
theorem slice_write_self (h : n = bs.length) : (b.write off bs).slice off n = bs := by
  subst h
  refine List.ext_getElem length_slice fun i hi hi' => ?_
  simp only [slice, List.getElem_map, List.getElem_range, write]
  rw [if_pos ⟨by omega, by omega⟩, Nat.add_sub_cancel_left, List.getD_eq_getElem?_getD,
    List.getElem?_eq_getElem hi', Option.getD_some]

/-- A store elsewhere does not show. -/
theorem slice_write_of_disjoint (h : off + n ≤ m ∨ m + bs.length ≤ off) :
    (b.write m bs).slice off n = b.slice off n := by
  refine slice_congr fun i h1 h2 => ?_
  rw [write, if_neg]
  omega

@[simp] theorem write_nil : b.write off [] = b := by
  funext i
  rw [write, if_neg]
  simp

/-- Two stores one behind the other are one. -/
theorem write_append {bs' : List UInt8} :
    (b.write off bs).write (off + bs.length) bs' = b.write off (bs ++ bs') := by
  funext i
  simp only [write, List.length_append]
  by_cases hsecond : off + bs.length ≤ i ∧ i < off + bs.length + bs'.length
  · rw [if_pos hsecond, if_pos ⟨by omega, by omega⟩, List.getD_append_right _ _ _ _ (by omega)]
    congr 1
    omega
  · rw [if_neg hsecond]
    by_cases hfirst : off ≤ i ∧ i < off + bs.length
    · rw [if_pos hfirst, if_pos ⟨hfirst.1, by omega⟩, List.getD_append _ _ _ _ (by omega)]
    · rw [if_neg hfirst, if_neg (by omega)]

end Buf

end DBServer.Lib
