import Mathlib

/-!
# Numerals

A numeral is some space, at most one sign and at least one digit. A scanner that skips the
space, takes a sign and then as many digits as there are reads a list to its end exactly if
the list is a numeral, and then it has the numeral's value.
-/

namespace DBServer.Lib

/-- What numerals are written in. -/
structure Script (α : Type) where
  isSpace : α → Bool
  /-- The factor a sign stands for. -/
  sign : α → Option Int
  isDigit : α → Bool
  digit : α → Nat
  base : Nat
  sign_of_space : ∀ a, isSpace a → sign a = none
  space_of_digit : ∀ a, isDigit a → isSpace a = false
  sign_of_digit : ∀ a, isDigit a → sign a = none

/-- How far a scanner came, and the value of what it read. -/
structure Scanned where
  value : Int
  stop : Nat
deriving DecidableEq, Repr

namespace Script

variable {α : Type} (S : Script α)

/-- The value of a row of digits, the first the most significant. -/
def ofDigits (ds : List α) : Nat := ds.foldl (fun n a => S.base * n + S.digit a) 0

/-- A list is a numeral, of this value. -/
inductive Numeral : List α → Int → Prop where
  | unsigned {ws ds : List α} : (∀ a ∈ ws, S.isSpace a) → ds ≠ [] → (∀ a ∈ ds, S.isDigit a) →
      Numeral (ws ++ ds) (S.ofDigits ds)
  | signed {ws ds : List α} {a : α} {z : Int} : (∀ a ∈ ws, S.isSpace a) → S.sign a = some z →
      ds ≠ [] →
      (∀ a ∈ ds, S.isDigit a) → Numeral (ws ++ a :: ds) (z * S.ofDigits ds)

variable {l ws ds : List α} {a : α} {v z : Int}

/-- The sign in front, if there is one, and what is behind it. -/
def splitSign : List α → Int × List α
  | [] => (1, [])
  | a :: l =>
      match S.sign a with
      | some z => (z, l)
      | none => (1, a :: l)

/-- The scanner. Without a digit it has read nothing, whatever it skipped. -/
def scan (l : List α) : Scanned :=
  let body := S.splitSign (l.dropWhile S.isSpace)
  let ds := body.2.takeWhile S.isDigit
  if ds.isEmpty then ⟨0, 0⟩
  else ⟨body.1 * S.ofDigits ds, l.length - body.2.length + ds.length⟩

theorem splitSign_signed (h : S.sign a = some z) : S.splitSign (a :: l) = (z, l) := by
  simp [splitSign, h]

theorem splitSign_unsigned (h : S.sign a = none) : S.splitSign (a :: l) = (1, a :: l) := by
  simp [splitSign, h]

/-- What the sign is cut off from. -/
theorem splitSign_cases (l : List α) :
    S.splitSign l = (1, l) ∨ ∃ a z, S.sign a = some z ∧ l = a :: (S.splitSign l).2 ∧
      (S.splitSign l).1 = z := by
  cases l with
  | nil => exact .inl rfl
  | cons a l =>
      cases h : S.sign a with
      | none => exact .inl (S.splitSign_unsigned h)
      | some z => exact .inr ⟨a, z, h, by simp [S.splitSign_signed h]⟩

theorem splitSign_length_le (l : List α) : (S.splitSign l).2.length ≤ l.length := by
  rcases S.splitSign_cases l with h | ⟨a, z, _, h, _⟩
  · rw [h]
  · have := congrArg List.length h
    simp at this
    omega

/-- A scanner stays inside its list. -/
theorem scan_stop_le (l : List α) : (S.scan l).stop ≤ l.length := by
  have hsign := S.splitSign_length_le (l.dropWhile S.isSpace)
  have hskip := (List.dropWhile_suffix S.isSpace (l := l)).length_le
  have htake := (List.takeWhile_prefix S.isDigit
    (l := (S.splitSign (l.dropWhile S.isSpace)).2)).length_le
  dsimp only [scan]
  split
  · exact Nat.zero_le _
  · dsimp only
    omega

/-- The scan of a list whose parts are known. -/
theorem scan_eq (hskip : l.dropWhile S.isSpace = ws) (hsign : S.splitSign ws = (z, ds))
    (hne : ds ≠ []) (hds : ∀ a ∈ ds, S.isDigit a) (hlen : ds.length ≤ l.length) :
    S.scan l = ⟨z * S.ofDigits ds, l.length⟩ := by
  have htake : ds.takeWhile S.isDigit = ds := List.takeWhile_eq_self_iff.mpr hds
  simp only [scan, hskip, hsign, htake, List.isEmpty_iff, hne, if_false]
  congr 1
  omega

variable {S} in
/-- **A numeral is read to its end, with its value.** -/
theorem Numeral.scan_eq (h : S.Numeral l v) : S.scan l = ⟨v, l.length⟩ := by
  cases h with
  | @unsigned ws ds hws hne hds =>
      obtain ⟨a, ds, rfl⟩ := List.exists_cons_of_ne_nil hne
      have ha := hds a (by simp)
      have hskip : (ws ++ a :: ds).dropWhile S.isSpace = a :: ds := by
        rw [List.dropWhile_append_of_pos hws,
          List.dropWhile_cons_of_neg (by simp [S.space_of_digit a ha])]
      have hsign := S.splitSign_unsigned (l := ds) (S.sign_of_digit a ha)
      simpa using S.scan_eq hskip hsign hne hds (by simp)
  | @signed ws ds a z hws ha hne hds =>
      have hspace : S.isSpace a = false := by
        by_contra hc
        simp [S.sign_of_space a (by simpa using hc)] at ha
      have hskip : (ws ++ a :: ds).dropWhile S.isSpace = a :: ds := by
        rw [List.dropWhile_append_of_pos hws, List.dropWhile_cons_of_neg (by simp [hspace])]
      exact S.scan_eq hskip (S.splitSign_signed ha) hne hds (by simp; omega)

/-- **What is read to its end is a numeral, with the value read.** -/
theorem numeral_of_scan (hne : l ≠ []) (hstop : (S.scan l).stop = l.length) :
    S.Numeral l (S.scan l).value := by
  obtain ⟨ws, hws⟩ : ∃ ws, l.takeWhile S.isSpace = ws := ⟨_, rfl⟩
  obtain ⟨rest, hrest⟩ : ∃ rest, l.dropWhile S.isSpace = rest := ⟨_, rfl⟩
  obtain ⟨ds, hds⟩ : ∃ ds, (S.splitSign rest).2.takeWhile S.isDigit = ds := ⟨_, rfl⟩
  have hl : l = ws ++ rest := by rw [← hws, ← hrest, List.takeWhile_append_dropWhile]
  have hspace : ∀ a ∈ ws, S.isSpace a := fun a ha => List.mem_takeWhile_imp (hws ▸ ha)
  have hdigit : ∀ a ∈ ds, S.isDigit a := fun a ha => List.mem_takeWhile_imp (hds ▸ ha)
  have hscan : S.scan l = if ds.isEmpty then ⟨0, 0⟩ else
      ⟨(S.splitSign rest).1 * S.ofDigits ds,
        l.length - (S.splitSign rest).2.length + ds.length⟩ := by
    simp only [scan, hrest, hds]
  have hdsne : ds ≠ [] := by
    rintro rfl
    rw [hscan] at hstop
    exact hne (List.length_eq_zero_iff.mp hstop.symm)
  rw [hscan, if_neg (by simpa using hdsne)] at hstop ⊢
  -- nothing is behind the digits, since the scan stopped at the end
  have hall : (S.splitSign rest).2 = ds := by
    have hle : (S.splitSign rest).2.length ≤ l.length :=
      (S.splitSign_length_le rest).trans (by rw [hl]; simp)
    have hpre : ds <+: (S.splitSign rest).2 := hds ▸ List.takeWhile_prefix _
    exact (hpre.eq_of_length_le (by simp only at hstop; omega)).symm
  rcases S.splitSign_cases rest with h | ⟨a, z, ha, h, hz⟩
  · have hr : rest = ds := by rw [h] at hall; exact hall
    rw [h, hl, hr]
    simpa using Numeral.unsigned hspace hdsne hdigit
  · rw [hz, hl]
    rw [hall] at h
    rw [h]
    exact Numeral.signed hspace ha hdsne hdigit

end Script

end DBServer.Lib
