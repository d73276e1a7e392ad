import Mathlib

/-!
# The order in which calls may be made

A protocol says, state by state, which call may come next and what state it leads to. A
log follows it if every call in it may come where it comes; then so does every beginning
of the log. What the states say is held is what has been opened and not been closed.
-/

namespace DBServer.Lib

variable {σ α : Type}

/-- The state a call leads to, unless it may not be made. -/
abbrev Protocol (σ α : Type) := σ → α → Option σ

namespace Protocol

variable {P : Protocol σ α} {s t : σ} {a : α} {l l' : List α}

/-- The state behind a log. -/
def after (P : Protocol σ α) (s : σ) (l : List α) : Option σ := l.foldlM P s

theorem after_append : P.after s (l ++ l') = (P.after s l).bind fun t => P.after t l' :=
  List.foldlM_append

/-- One more call. -/
theorem after_call (h : P.after s l = some t) : P.after s (l ++ [a]) = P t a := by
  rw [after_append, h]
  show (P t a).bind some = P t a
  cases P t a with
  | none => rfl
  | some _ => rfl

/-- **Every beginning of a log that follows the protocol follows it.** -/
theorem after_prefix (h : P.after s l = some t) (hl : l' <+: l) : ∃ t', P.after s l' = some t' := by
  obtain ⟨rest, rfl⟩ := hl
  rw [after_append] at h
  obtain ⟨t', ht', -⟩ := Option.bind_eq_some_iff.mp h
  exact ⟨t', ht'⟩

theorem countP_cons_toNat (p : α → Bool) (a : α) (l : List α) :
    (a :: l).countP p = l.countP p + (p a).toNat := by
  rw [List.countP_cons]
  cases p a <;> rfl

variable {holds : σ → Nat} {opens closes : α → Bool}

/-- **What is held is what was opened and has not been closed**, if every call keeps the books. -/
theorem after_balance
    (hstep : ∀ s a t, P s a = some t → holds t + (closes a).toNat = holds s + (opens a).toNat)
    (h : P.after s l = some t) : holds t + l.countP closes = holds s + l.countP opens := by
  induction l generalizing s with
  | nil =>
      obtain rfl := Option.some.inj h
      rfl
  | cons a l ih =>
      obtain ⟨u, hu, hrest⟩ := Option.bind_eq_some_iff.mp h
      have hcall := hstep s a u hu
      have htail := ih hrest
      rw [countP_cons_toNat, countP_cons_toNat]
      omega

/-- **Whatever was opened is held or was closed**, if no call loses anything. -/
theorem after_bound
    (hstep : ∀ s a t, P s a = some t → holds s + (opens a).toNat ≤ holds t + (closes a).toNat)
    (h : P.after s l = some t) : holds s + l.countP opens ≤ holds t + l.countP closes := by
  induction l generalizing s with
  | nil =>
      obtain rfl := Option.some.inj h
      exact Nat.le_refl _
  | cons a l ih =>
      obtain ⟨u, hu, hrest⟩ := Option.bind_eq_some_iff.mp h
      have hcall := hstep s a u hu
      have htail := ih hrest
      rw [countP_cons_toNat, countP_cons_toNat]
      omega

end Protocol

end DBServer.Lib
