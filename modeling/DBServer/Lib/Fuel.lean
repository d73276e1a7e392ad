import Mathlib

/-!
# Loops that run for as long as the world lets them

A loop whose end depends on answers from outside has no bound of its own. It is
written with a bound on its rounds: the function returns `(none, s)` when the
bound ran out in state `s`, and `(some a, s)` when it came back with `a`.
`Settles f` says that some bound is enough, and that no larger one changes the
outcome; it is how "the call returns" is stated about such a function.
-/

namespace DBServer.Lib

variable {σ α β : Type} {f g : Nat → Option α × σ}

/-- From some bound on, `f` comes back, always with the same result in the same state. -/
def Settles (f : Nat → Option α × σ) : Prop :=
  ∃ n a s, ∀ m ≥ n, f m = (some a, s)

/-- Go on from the state a call left, if it came back. -/
def andThen (o : Option α × σ) (k : α → σ → Option β × σ) : Option β × σ :=
  match o with
  | (none, s) => (none, s)
  | (some a, s) => k a s

@[simp] theorem andThen_none (s : σ) (k : α → σ → Option β × σ) :
    andThen (none, s) k = (none, s) := rfl

@[simp] theorem andThen_some (a : α) (s : σ) (k : α → σ → Option β × σ) :
    andThen (some a, s) k = k a s := rfl

/-- Two calls in a row came back: so did the first one. -/
theorem andThen_eq_some {o : Option α × σ} {k : α → σ → Option β × σ} {b : β} {t : σ} :
    andThen o k = (some b, t) ↔ ∃ a s, o = (some a, s) ∧ k a s = (some b, t) := by
  obtain ⟨_ | a, s⟩ := o
  · simp
  · simp

/-- What both calls leave unchanged, the two of them leave unchanged. -/
theorem andThen_unchanged {γ : Type} {v : σ → γ} {w : γ} {o : Option α × σ}
    {k : α → σ → Option β × σ} (ho : v o.2 = w) (hk : ∀ a t, v (k a t).2 = v t) :
    v (andThen o k).2 = w := by
  obtain ⟨_ | a, t⟩ := o
  · exact ho
  · exact (hk a t).trans ho

/-- What both calls preserve, the two of them preserve. -/
theorem andThen_preserves {P : σ → Prop} {o : Option α × σ} {k : α → σ → Option β × σ}
    (ho : P o.2) (hk : ∀ a t, P t → P (k a t).2) : P (andThen o k).2 := by
  obtain ⟨_ | a, t⟩ := o
  · exact ho
  · exact hk a t ho

/-! ## Two calls side by side -/

section Carries

variable {τ : Type} {R : σ → τ → Prop} {s : σ} {t : τ}

/-- If the first call comes back, so does the second, with the same result in a related state. -/
def Carries (R : σ → τ → Prop) (o : Option α × σ) (o' : Option α × τ) : Prop :=
  ∀ a s, o = (some a, s) → ∃ t, o' = (some a, t) ∧ R s t

/-- A call that is still running says nothing about the other. -/
theorem Carries.running {o' : Option α × τ} : Carries R (none, s) o' := by
  intro a u hu
  exact absurd (congrArg Prod.fst hu) (by simp)

theorem Carries.back (a : α) (h : R s t) : Carries R (some a, s) (some a, t) := by
  intro b u hu
  obtain ⟨hb, rfl⟩ := Prod.mk.inj hu
  exact ⟨t, by rw [hb], h⟩

theorem Carries.mono {R' : σ → τ → Prop} {o : Option α × σ} {o' : Option α × τ}
    (h : Carries R o o') (hR : ∀ s t, R s t → R' s t) : Carries R' o o' := by
  intro a s hs
  obtain ⟨t, ht, hst⟩ := h a s hs
  exact ⟨t, ht, hR s t hst⟩

/-- Two calls in a row. -/
theorem Carries.andThen {o : Option α × σ} {o' : Option α × τ} {k : α → σ → Option β × σ}
    {k' : α → τ → Option β × τ} (ho : Carries R o o')
    (hk : ∀ a s t, R s t → Carries R (k a s) (k' a t)) :
    Carries R (Lib.andThen o k) (Lib.andThen o' k') := by
  intro b u hu
  obtain ⟨a, s, rfl, hs⟩ := andThen_eq_some.mp hu
  obtain ⟨t, rfl, hst⟩ := ho a s rfl
  exact hk a s t hst b u hs

/-- Both calls branch the same way. -/
theorem Carries.ite {p q : Prop} [Decidable p] [Decidable q] {x y : Option α × σ}
    {x' y' : Option α × τ} (hpq : p ↔ q) (hx : Carries R x x') (hy : Carries R y y') :
    Carries R (if p then x else y) (if q then x' else y') := by
  by_cases hp : p
  · rw [if_pos hp, if_pos (hpq.mp hp)]
    exact hx
  · rw [if_neg hp, if_neg fun hq => hp (hpq.mpr hq)]
    exact hy

/--
Two calls that come back, each watched for as long as it takes: they come back with the
same result, in states related to the one both come to under the larger bound.
-/
theorem Carries.twin {R' : τ → τ → Prop} {f : Nat → Option α × σ} {g : Nat → Option α × τ}
    {n m : Nat} {a b : α} (hfg : ∀ {n m}, n ≤ m → Carries R (f n) (g m))
    (hgg : ∀ {n m}, n ≤ m → Carries R' (g n) (g m)) (hf : f n = (some a, s))
    (hg : g m = (some b, t)) : a = b ∧ ∃ u, R s u ∧ R' t u := by
  obtain ⟨u, hu, hsu⟩ := hfg (Nat.le_max_left n m) a s hf
  obtain ⟨u', hu', htu⟩ := hgg (Nat.le_max_right n m) b t hg
  obtain ⟨hab, rfl⟩ := Prod.mk.inj (hu.symm.trans hu')
  exact ⟨Option.some.inj hab, u, hsu, htu⟩

end Carries

/-! ## One loop inside another -/

section Delays

variable {h : Nat → Option α × σ}

/-- `f` does what `g` does, some rounds later, and does not come back before. -/
def Delays (f g : Nat → Option α × σ) : Prop :=
  ∃ k, (∀ n, f (n + k) = g n) ∧ ∀ n, n < k → (f n).1 = none

theorem Delays.refl (f : Nat → Option α × σ) : Delays f f :=
  ⟨0, fun _ => rfl, fun _ hlt => absurd hlt (Nat.not_lt_zero _)⟩

/-- One round more. -/
theorem Delays.succ (hfg : Delays f g) (hzero : (g 0).1 = none) (hsucc : ∀ n, g (n + 1) = h n) :
    Delays f h := by
  obtain ⟨k, hrun, hshort⟩ := hfg
  refine ⟨k + 1, fun n => ?_, fun n hlt => ?_⟩
  · rw [← Nat.add_assoc, Nat.add_right_comm, hrun (n + 1), hsucc]
  · rcases Nat.lt_succ_iff_lt_or_eq.mp hlt with hlt | rfl
    · exact hshort n hlt
    · have hlast := hrun 0
      rw [Nat.zero_add] at hlast
      rw [hlast]
      exact hzero

theorem Delays.of_some (hfg : Delays f g) {n : Nat} {a : α} {s : σ} (hf : f n = (some a, s)) :
    ∃ m, g m = (some a, s) := by
  obtain ⟨k, hrun, hshort⟩ := hfg
  by_cases hlt : n < k
  · exact absurd (hshort n hlt) (by rw [hf]; simp)
  · refine ⟨n - k, ?_⟩
    rw [← hrun, Nat.sub_add_cancel (Nat.not_lt.mp hlt), hf]

/-- What holds of `g` from some bound on holds of `f` from some bound on. -/
theorem Delays.eventually (hfg : Delays f g) {P : Option α × σ → Prop}
    (hg : ∃ m, ∀ n ≥ m, P (g n)) : ∃ m, ∀ n ≥ m, P (f n) := by
  obtain ⟨k, hrun, _⟩ := hfg
  obtain ⟨m, hm⟩ := hg
  refine ⟨m + k, fun n hn => ?_⟩
  rw [← Nat.sub_add_cancel (show k ≤ n by omega), hrun]
  exact hm _ (by omega)

end Delays

namespace Settles

theorem const {a : α} {s : σ} (h : ∀ m, f m = (some a, s)) : Settles f :=
  ⟨0, a, s, fun m _ => h m⟩

/-- One round of a loop: what the rest of the rounds settles to, the whole loop settles to. -/
theorem of_succ (hf : Settles f) (h : ∀ m, g (m + 1) = f m) : Settles g := by
  obtain ⟨n, a, s, hn⟩ := hf
  refine ⟨n + 1, a, s, ?_⟩
  intro m hm
  obtain ⟨k, rfl⟩ : ∃ k, m = k + 1 := ⟨m - 1, by omega⟩
  rw [h k]
  exact hn k (by omega)

/-- A round that comes back at once. -/
theorem const_succ {a : α} {s : σ} (h : ∀ m, g (m + 1) = (some a, s)) : Settles g :=
  (const (f := fun _ => (some a, s)) fun _ => rfl).of_succ h

theorem congr (hf : Settles f) (h : ∀ m, g m = f m) : Settles g := by
  obtain ⟨n, a, s, hn⟩ := hf
  exact ⟨n, a, s, fun m hm => (h m).trans (hn m hm)⟩

/-- Two calls in a row. -/
theorem bind {k : Nat → α → σ → Option β × σ} (hf : Settles f)
    (hk : ∀ a s, Settles fun m => k m a s) : Settles fun m => andThen (f m) (k m) := by
  obtain ⟨n, a, s, hn⟩ := hf
  obtain ⟨n', b, s', hn'⟩ := hk a s
  refine ⟨max n n', b, s', ?_⟩
  intro m hm
  show andThen (f m) (k m) = (some b, s')
  rw [hn m (by omega), andThen_some]
  exact hn' m (by omega)

/--
**The rule for loops.** Each round either makes something smaller or only lets time
pass. If time cannot pass for ever without an answer that moves the loop, the loop
comes back. The induction is on the size, and inside it on the time to that answer.
-/
theorem of_progress {ι : Type} {r : ι → Nat → Option α × σ} (tick size : ι → Nat)
    {moves : Nat → Prop} (hmoves : ∀ t, ∃ u ≥ t, moves u)
    (hround : ∀ s, (∀ s', size s' < size s → Settles (r s')) →
      (¬moves (tick s) → ∀ s', size s' = size s → tick s' = tick s + 1 → Settles (r s')) →
      Settles (r s)) (s : ι) : Settles (r s) := by
  obtain ⟨m, hm⟩ : ∃ m, size s = m := ⟨_, rfl⟩
  induction m using Nat.strongRecOn generalizing s with
  | _ m ihm =>
    have hsmaller : ∀ s', size s' < m → Settles (r s') := fun s' hs' => ihm _ hs' s' rfl
    obtain ⟨u, hu, hmove⟩ := hmoves (tick s)
    obtain ⟨d, hd⟩ : ∃ d, u - tick s = d := ⟨_, rfl⟩
    induction d generalizing s with
    | zero =>
        have hnow : u = tick s := by omega
        refine hround s (fun s' hs' => hsmaller s' (hm ▸ hs')) ?_
        intro hstuck
        exact absurd (hnow ▸ hmove) hstuck
    | succ d ihd =>
        refine hround s (fun s' hs' => hsmaller s' (hm ▸ hs')) ?_
        intro _ s' hsize htick
        exact ihd s' (hsize.trans hm) (by omega) (by omega)

end Settles

end DBServer.Lib
