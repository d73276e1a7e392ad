import DBServer.Lib.Run

/-!
# Runs from one state to another

`Takes` counts certain steps of a run; a rank that each of them lowers bounds them by the
others. `restrict` is for such a count over the runs that keep to a guard.
`Simulates` is a forward simulation under a guard: every step of the concrete machine is
answered by a run of the abstract one, none at all included, that ends in a related state.
`ReachableBy.project` is for a machine that is a part of another.
-/

namespace DBServer.Lib.Machine

variable {σ α τ β : Type} {M : Machine σ α} {N : Machine τ β} {ok : σ → α → Prop}

/-- A run from one state to another, of any number of steps. -/
inductive Steps (M : Machine σ α) (s : σ) : σ → Prop where
  | refl : Steps M s s
  | tail {t u : σ} {a : α} : Steps M s t → M.step t a = some u → Steps M s u

theorem Steps.one {s t : σ} {a : α} (h : M.step s a = some t) : Steps M s t := .tail .refl h

theorem Steps.trans {s t u : σ} (h : Steps M s t) (h' : Steps M t u) : Steps M s u := by
  induction h' with
  | refl => exact h
  | tail _ hstep ih => exact .tail ih hstep

/-- A run behind a run from the start is a run from the start. -/
theorem Reachable.steps {s t : σ} (hs : M.Reachable s) (h : Steps M s t) : M.Reachable t := by
  induction h with
  | refl => exact hs
  | tail _ hstep ih => exact .tail ih trivial hstep

/-! ## How many steps there can be -/

/-- A run of `n` steps that count and `m` that do not. -/
inductive Takes (M : Machine σ α) (counts : σ → α → Prop) (s : σ) : Nat → Nat → σ → Prop where
  | zero : Takes M counts s 0 0 s
  | succ {n m : Nat} {t u : σ} {a : α} : Takes M counts s n m t → counts t a →
      M.step t a = some u → Takes M counts s (n + 1) m u
  | idle {n m : Nat} {t u : σ} {a : α} : Takes M counts s n m t → ¬ counts t a →
      M.step t a = some u → Takes M counts s n (m + 1) u

/-- **The rank rule.** A rank that falls with every step that counts, and rises by `c` at most
with one that does not, bounds the ones by the others. -/
theorem Takes.rank {counts : σ → α → Prop} {P : σ → Prop} (rank : σ → Nat) (c : Nat)
    (hcounts : ∀ s a t, P s → counts s a → M.step s a = some t → P t ∧ rank t < rank s)
    (hidle : ∀ s a t, P s → ¬ counts s a → M.step s a = some t → P t ∧ rank t ≤ rank s + c)
    {s t : σ} {n m : Nat} (h : Takes M counts s n m t) (hs : P s) :
    P t ∧ n + rank t ≤ rank s + c * m := by
  induction h with
  | zero => exact ⟨hs, by omega⟩
  | succ _ hc ht ih =>
      obtain ⟨hp, hle⟩ := ih
      obtain ⟨hp', hlt⟩ := hcounts _ _ _ hp hc ht
      exact ⟨hp', by omega⟩
  | idle _ hc ht ih =>
      obtain ⟨hp, hle⟩ := ih
      obtain ⟨hp', hrise⟩ := hidle _ _ _ hp hc ht
      refine ⟨hp', ?_⟩
      rw [Nat.mul_succ]
      omega

/-- A schedule of steps that all count, replayed. -/
theorem Takes.run {counts : σ → α → Prop} [∀ s a, Decidable (counts s a)] {s t u : σ} {n m : Nat}
    {as : List α} (h : Takes M counts s n m t) (hrun : M.run counts t as = some u) :
    Takes M counts s (n + as.length) m u := by
  induction as generalizing n t with
  | nil =>
      obtain rfl := Option.some.inj hrun
      exact h
  | cons a as ih =>
      obtain ⟨hc, v, hstep, hrest⟩ := run_cons.mp hrun
      have hout := ih (h.succ hc hstep) hrest
      rwa [Nat.add_assoc, Nat.add_comm 1] at hout

theorem Takes.exists_of_run {counts : σ → α → Prop} [∀ s a, Decidable (counts s a)] {s t : σ}
    {n m : Nat} (h : Takes M counts s n m t) (as : List α) (p : σ → Bool)
    (hrun : (M.run counts t as).any p = true) :
    ∃ u, Takes M counts s (n + as.length) m u ∧ p u = true := by
  cases hu : M.run counts t as with
  | none => rw [hu] at hrun; exact absurd hrun (by simp)
  | some u => rw [hu] at hrun; exact ⟨u, h.run hu, hrun⟩

/-! ## Runs that keep to a guard -/

/-- The machine with every step refused that breaks the guard. -/
def restrict (M : Machine σ α) (ok : σ → α → Prop) [∀ s a, Decidable (ok s a)] : Machine σ α where
  init := M.init
  step s a := if ok s a then M.step s a else none

theorem restrict_step [∀ s a, Decidable (ok s a)] {s t : σ} {a : α} :
    (M.restrict ok).step s a = some t ↔ ok s a ∧ M.step s a = some t :=
  Option.ite_none_right_eq_some

/-! ## One machine implements another -/

/-- Every guarded step of `M` is a run of `N`, seen through `R`. -/
structure Simulates (M : Machine σ α) (ok : σ → α → Prop) (N : Machine τ β) (R : σ → τ → Prop) :
    Prop where
  init : ∀ s, M.init s → ∃ t, N.init t ∧ R s t
  step : ∀ s a s' t, M.ReachableBy ok s → R s t → ok s a → M.step s a = some s' →
    ∃ t', Steps N t t' ∧ R s' t'

/-- **Every state of a guarded run shows a state of an abstract run.** -/
theorem Simulates.reachable {R : σ → τ → Prop} (h : Simulates M ok N R) {s : σ}
    (hs : M.ReachableBy ok s) : ∃ t, N.Reachable t ∧ R s t := by
  induction hs with
  | init hinit =>
      obtain ⟨t, ht, hr⟩ := h.init _ hinit
      exact ⟨t, .init ht, hr⟩
  | tail hreach hok hstep ih =>
      obtain ⟨t, ht, hr⟩ := ih
      obtain ⟨t', hrun, hr'⟩ := h.step _ _ _ _ hreach hr hok hstep
      exact ⟨t', ht.steps hrun, hr'⟩

/-- **A part of a machine runs by itself.** Each guarded step leaves the part alone or is a step of
its own, so what holds of the part's guarded runs holds of it inside the whole. -/
theorem ReachableBy.project {part : σ → τ} {ok' : τ → β → Prop}
    (hinit : ∀ s, M.init s → N.ReachableBy ok' (part s))
    (hstep : ∀ s a s', M.ReachableBy ok s → ok s a → M.step s a = some s' →
      part s' = part s ∨ ∃ b, ok' (part s) b ∧ N.step (part s) b = some (part s'))
    {s : σ} (h : M.ReachableBy ok s) : N.ReachableBy ok' (part s) := by
  induction h with
  | init hs => exact hinit _ hs
  | tail hreach hok ht ih =>
      rcases hstep _ _ _ hreach hok ht with hsame | ⟨b, hok', hb⟩
      · rw [hsame]
        exact ih
      · exact .tail ih hok' hb

end DBServer.Lib.Machine
