import Mathlib

/-!
# Taking turns

The first `k` of an endless walk over a list: how often an element has its turn, and when
nobody has had a second one.
-/

namespace DBServer.Lib

variable {α : Type} {cs : List α} {c : α} {k i j : Nat}

/-- Whose turn it is in each of `k` rounds. -/
def roundRobin (cs : List α) (k : Nat) : List (Option α) :=
  (List.range k).map fun i => cs[i % cs.length]?

theorem exists_of_mem_roundRobin (hne : cs ≠ []) {x : Option α} (h : x ∈ roundRobin cs k) :
    ∃ c ∈ cs, x = some c := by
  obtain ⟨i, _, rfl⟩ := List.mem_map.mp h
  have hlt : i % cs.length < cs.length := Nat.mod_lt _ (List.length_pos_iff.mpr hne)
  exact ⟨_, List.getElem_mem hlt, List.getElem?_eq_getElem hlt⟩

/-- **The turns are shared out evenly**: everybody has as many, but that the first few may have
one more. -/
theorem count_roundRobin [DecidableEq α] (hnd : cs.Nodup) (hc : cs[j]? = some c) :
    (roundRobin cs k).count (some c) = k / cs.length + if j < k % cs.length then 1 else 0 := by
  obtain ⟨hj, rfl⟩ := List.getElem?_eq_some_iff.mp hc
  have hturn : ∀ i, cs[i % cs.length]? = some cs[j] ↔ i ≡ j [MOD cs.length] := by
    intro i
    have hlt : i % cs.length < cs.length := Nat.mod_lt _ (by omega)
    rw [List.getElem?_eq_getElem hlt, Option.some.injEq, hnd.getElem_inj_iff, Nat.ModEq,
      Nat.mod_eq_of_lt hj]
  rw [roundRobin, List.count, List.countP_map]
  have hcount : (List.range k).countP ((· == some cs[j]) ∘ fun i => cs[i % cs.length]?) =
      k.count (· ≡ j [MOD cs.length]) := by
    refine List.countP_congr ?_
    intro i _
    simpa using hturn i
  rw [hcount, Nat.count_modEq_card k (by omega), Nat.mod_eq_of_lt hj]

/-- **Nobody has had two turns** exactly as long as there have been no more than there are to take
them. -/
theorem nodup_roundRobin_iff (hnd : cs.Nodup) (hne : cs ≠ []) :
    (roundRobin cs k).Nodup ↔ k ≤ cs.length := by
  have hpos : 0 < cs.length := List.length_pos_iff.mpr hne
  constructor
  · intro h
    by_contra hlt
    rw [not_le] at hlt
    -- the first has its second turn
    have hinj := List.inj_on_of_nodup_map h (x := 0) (by simp; omega) (y := cs.length)
      (by simpa using hlt) (by simp)
    omega
  · intro hle
    refine List.Nodup.map_on ?_ List.nodup_range
    intro i hi j hj hij
    have hi' : i < cs.length := (List.mem_range.mp hi).trans_le hle
    have hj' : j < cs.length := (List.mem_range.mp hj).trans_le hle
    rw [Nat.mod_eq_of_lt hi', Nat.mod_eq_of_lt hj', List.getElem?_eq_getElem hi',
      List.getElem?_eq_getElem hj', Option.some.injEq, hnd.getElem_inj_iff] at hij
    exact hij

end DBServer.Lib
