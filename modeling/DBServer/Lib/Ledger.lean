import Mathlib

/-!
# What a run acquires and what it gives back

A ledger lists the resources a piece of code acquires and releases, in order.
Reading it against what is held at the start finds every release of a resource
nobody holds; a ledger that reads through from nothing held to nothing held has
released each acquisition exactly once (`Settled`). Code that fails acquires until it
fails and from then on only releases; such a ledger is settled unless it releases
something beyond what it acquired (`Overdraws`).
-/

namespace DBServer.Lib

/-- One use of a resource. -/
inductive Use (R : Type) where
  | acquire (r : R)
  | release (r : R)
deriving DecidableEq, Repr

variable {R : Type} {l l' : List (Use R)} {m m' : Multiset R}

section

variable [DecidableEq R]

/-- What is held after the uses of a ledger, unless one of them releases what is not. -/
def held : List (Use R) → Multiset R → Option (Multiset R)
  | [], m => some m
  | .acquire r :: l, m => held l (r ::ₘ m)
  | .release r :: l, m => if r ∈ m then held l (m.erase r) else none

/-- Every acquisition is released once, later, and nothing else is released. -/
def Settled (l : List (Use R)) : Prop := held l 0 = some 0

instance : Decidable (Settled l) := inferInstanceAs (Decidable (held l 0 = some 0))

theorem held_append : held (l ++ l') m = (held l m).bind (held l') := by
  induction l generalizing m with
  | nil => rfl
  | cons u l ih =>
      cases u with
      | acquire r => exact ih
      | release r =>
          by_cases hr : r ∈ m
          · simp only [List.cons_append, held, hr, if_true]
            exact ih
          · simp only [List.cons_append, held, hr, if_false, Option.bind_none]

@[simp] theorem held_acquires (rs : List R) :
    held (rs.map .acquire) m = some (Multiset.ofList rs + m) := by
  induction rs generalizing m with
  | nil => simp [held]
  | cons r rs ih =>
      simp only [List.map_cons, held, ih]
      rw [Multiset.add_cons, ← Multiset.cons_coe, Multiset.cons_add]

/-- Releases go through exactly when what they release is held. -/
theorem held_releases {rs : List R} : held (rs.map .release) m = some m' ↔ m = rs + m' := by
  induction rs generalizing m with
  | nil => simp [held]
  | cons r rs ih =>
      rw [List.map_cons, ← Multiset.cons_coe, Multiset.cons_add, held]
      by_cases hr : r ∈ m
      · rw [if_pos hr, ih, ← Multiset.cons_inj_right r, Multiset.cons_erase hr]
      · rw [if_neg hr]
        constructor
        · intro h
          cases h
        · rintro rfl
          exact absurd (Multiset.mem_cons_self r _) hr

/-- A ledger that acquires first and releases then is settled when it releases what it acquired. -/
theorem settled_iff_perm {rs rs' : List R} :
    Settled (rs.map .acquire ++ rs'.map .release) ↔ rs'.Perm rs := by
  rw [Settled, held_append, held_acquires, Option.bind_some, held_releases,
    Multiset.add_zero, Multiset.add_zero, Multiset.coe_eq_coe]
  exact List.perm_comm

end

/-! ## What is released too often -/

/--
Of two parts of a ledger the first ends and the second consists of releases, and together
they release, beyond what they acquire, just `extra`.
-/
def Overdraws (l l' : List (Use R)) (extra : List R) : Prop :=
  ∃ got first second : List R, l = got.map .acquire ++ first.map .release ∧
    l' = second.map .release ∧ (first ++ second).Perm (got ++ extra)

variable {extra : List R}

/-- An owner that gives back just what it acquired changes nothing. -/
theorem Overdraws.cons (h : Overdraws l l' extra) {got back : List R} (hperm : back.Perm got) :
    Overdraws (got.map .acquire ++ l) (back.map .release ++ l') extra := by
  obtain ⟨got', first, second, rfl, rfl, hrest⟩ := h
  refine ⟨got ++ got', first, back ++ second, by simp, by simp, ?_⟩
  have hswap : (first ++ back).Perm (back ++ first) := List.perm_append_comm
  calc first ++ (back ++ second)
      _ |>.Perm (back ++ (first ++ second)) := by simpa using hswap.append_right second
      _ |>.Perm (got ++ (got' ++ extra)) := hperm.append hrest
      _ = got ++ got' ++ extra := (List.append_assoc _ _ _).symm

/-- The same when the owner gives it back in the end. -/
theorem Overdraws.around (h : Overdraws l l' extra) {got back : List R} (hperm : back.Perm got) :
    Overdraws (got.map .acquire ++ l) (l' ++ back.map .release) extra := by
  obtain ⟨got', first, second, rfl, rfl, hrest⟩ := h
  refine ⟨got ++ got', first, second ++ back, by simp, by simp, ?_⟩
  calc first ++ (second ++ back)
      _ = first ++ second ++ back := (List.append_assoc _ _ _).symm
      _ |>.Perm (got' ++ extra ++ got) := hrest.append hperm
      _ |>.Perm (got ++ (got' ++ extra)) := List.perm_append_comm
      _ = got ++ got' ++ extra := (List.append_assoc _ _ _).symm

/-- What is released at the end without having been acquired adds to it. -/
theorem Overdraws.append (h : Overdraws l l' extra) (more : List R) :
    Overdraws l (l' ++ more.map .release) (extra ++ more) := by
  obtain ⟨got, first, second, rfl, rfl, hrest⟩ := h
  refine ⟨got, first, second ++ more, rfl, by simp, ?_⟩
  simpa using hrest.append_right more

/-- **A ledger is settled when nothing is released too often.** -/
theorem Overdraws.settled_iff [DecidableEq R] (h : Overdraws l l' extra) :
    Settled (l ++ l') ↔ extra = [] := by
  obtain ⟨got, first, second, rfl, rfl, hperm⟩ := h
  rw [List.append_assoc, ← List.map_append, settled_iff_perm]
  constructor
  · intro h
    have hlen := (hperm.symm.trans h).length_eq
    rw [List.length_append] at hlen
    exact List.length_eq_zero_iff.mp (by omega)
  · rintro rfl
    simpa using hperm

end DBServer.Lib
