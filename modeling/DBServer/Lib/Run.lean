import Mathlib

/-!
# Guarded runs of an executable step function

A machine is a set of initial states and a step function: `step s a` is `some t`
when action `a` is enabled in `s` and leads to `t`, and `none` when it is not.
`Reachable` collects the states of every run. `ReachableBy ok` collects the states
of the runs in which every step taken satisfies `ok`, which is how a theorem says
"as long as nobody does *that*, this holds". `run` replays a concrete schedule under
such a guard, so that one interleaving can be exhibited by evaluation. What a theorem says
of the steps of a run rather than of its states is kept in a ghost beside it.
-/

namespace DBServer.Lib

/-- Initial states, and a step function that refuses disabled actions. -/
structure Machine (σ α : Type) where
  init : σ → Prop
  step : σ → α → Option σ

namespace Machine

variable {σ α : Type} {M : Machine σ α} {ok : σ → α → Prop}

/-- The states of runs all of whose steps satisfy `ok`. -/
inductive ReachableBy (M : Machine σ α) (ok : σ → α → Prop) : σ → Prop where
  | init {s : σ} : M.init s → ReachableBy M ok s
  | tail {s t : σ} {a : α} :
      ReachableBy M ok s → ok s a → M.step s a = some t → ReachableBy M ok t

/-- The states of all runs. -/
abbrev Reachable (M : Machine σ α) : σ → Prop := ReachableBy M fun _ _ => True

/-- **The invariant rule.** A step may use that the state it starts from is itself reachable. -/
theorem ReachableBy.invariant {P : σ → Prop} (hinit : ∀ s, M.init s → P s)
    (hstep : ∀ s a t, ReachableBy M ok s → P s → ok s a → M.step s a = some t → P t)
    {s : σ} (h : ReachableBy M ok s) : P s := by
  induction h with
  | init hs => exact hinit _ hs
  | tail hr ha hs ih => exact hstep _ _ _ hr ih ha hs

/-- Weakening the guard keeps every run. -/
theorem ReachableBy.mono {ok' : σ → α → Prop} (hok : ∀ s a, ok s a → ok' s a) {s : σ}
    (h : ReachableBy M ok s) : ReachableBy M ok' s := by
  induction h with
  | init hs => exact .init hs
  | tail _ ha hs ih => exact .tail ih (hok _ _ ha) hs

/-- Forget the guard. -/
theorem ReachableBy.reachable {s : σ} (h : ReachableBy M ok s) : Reachable M s :=
  h.mono fun _ _ _ => trivial

/-- The same machine, picked up in the middle of a run. -/
def startingAt (M : Machine σ α) (s : σ) : Machine σ α := { M with init := (· = s) }

/-- A run picked up in the middle of another goes on from there. -/
theorem ReachableBy.of_startingAt {s t : σ} (hs : M.Reachable s)
    (h : (M.startingAt s).ReachableBy ok t) : M.Reachable t := by
  induction h with
  | init heq => exact heq ▸ hs
  | tail _ _ hstep ih => exact .tail ih trivial hstep

/-- The machine with a ghost beside it, which `upd` carries along and no step looks at. -/
def ghosted {γ : Type} (M : Machine σ α) (g₀ : γ) (upd : σ → α → σ → γ → γ) :
    Machine (σ × γ) α where
  init r := M.init r.1 ∧ r.2 = g₀
  step r a := (M.step r.1 a).map fun t => (t, upd r.1 a t r.2)

/-- A ghost that is a record, to which every step adds what `note` has to say of it. -/
abbrev recording {ε : Type} (M : Machine σ α) (note : σ → α → σ → List ε) :
    Machine (σ × List ε) α :=
  M.ghosted [] fun s a t l => l ++ note s a t

section

variable {γ ε : Type} {g₀ : γ} {upd : σ → α → σ → γ → γ} {note : σ → α → σ → List ε}

/-- Without its ghost, a run is a run. -/
theorem ReachableBy.unghosted {r : σ × γ}
    (h : (M.ghosted g₀ upd).ReachableBy (fun r => ok r.1) r) : M.ReachableBy ok r.1 := by
  refine h.invariant (P := fun r => M.ReachableBy ok r.1) ?_ ?_
  · intro r hr
    exact .init hr.1
  · intro r a r' _ hr ha hstep
    obtain ⟨t, ht, rfl⟩ := Option.map_eq_some_iff.mp hstep
    exact .tail hr ha ht

theorem Reachable.unghosted {r : σ × γ} (h : (M.ghosted g₀ upd).Reachable r) : M.Reachable r.1 :=
  ReachableBy.unghosted h

/-- Every run has its ghost. -/
theorem ReachableBy.ghosted {s : σ} (h : M.ReachableBy ok s) :
    ∃ g, (M.ghosted g₀ upd).ReachableBy (fun r => ok r.1) (s, g) := by
  induction h with
  | init hs => exact ⟨g₀, .init ⟨hs, rfl⟩⟩
  | tail _ ha hstep ih =>
      obtain ⟨g, hg⟩ := ih
      exact ⟨_, .tail hg ha (congrArg (Option.map _) hstep)⟩

/-- What holds of everything a step notes holds of the whole record. -/
theorem ReachableBy.forall_noted {Q : ε → Prop} {r : σ × List ε}
    (hnote : ∀ s a t, M.ReachableBy ok s → ok s a → M.step s a = some t → ∀ e ∈ note s a t, Q e)
    (h : (M.recording note).ReachableBy (fun r => ok r.1) r) : ∀ e ∈ r.2, Q e := by
  refine h.invariant (P := fun r => ∀ e ∈ r.2, Q e) ?_ ?_
  · rintro r ⟨_, hr⟩ e he
    rw [hr] at he
    exact absurd he List.not_mem_nil
  · intro r a r' hreach hr ha hstep e he
    obtain ⟨t, ht, rfl⟩ := Option.map_eq_some_iff.mp hstep
    rcases List.mem_append.mp he with hold | hnew
    · exact hr e hold
    · exact hnote r.1 a t hreach.unghosted ha ht e hnew

end

/-- Replay a schedule; `none` if a step of it is disabled or breaks the guard. -/
def run (M : Machine σ α) (ok : σ → α → Prop) [∀ s a, Decidable (ok s a)] :
    σ → List α → Option σ
  | s, [] => some s
  | s, a :: as => if ok s a then (M.step s a).bind fun t => run M ok t as else none

variable [∀ s a, Decidable (ok s a)]

theorem run_cons {s t : σ} {a : α} {as : List α} :
    M.run ok s (a :: as) = some t ↔
      ok s a ∧ ∃ u, M.step s a = some u ∧ M.run ok u as = some t := by
  rw [run]
  split
  · rename_i ha
    rw [Option.bind_eq_some_iff]
    exact ⟨fun h => ⟨ha, h⟩, fun h => h.2⟩
  · rename_i ha
    exact ⟨fun h => absurd h (by simp), fun h => absurd h.1 ha⟩

/-- A replayed schedule stays among the states of guarded runs. -/
theorem ReachableBy.run {s t : σ} (hs : ReachableBy M ok s) {as : List α}
    (h : M.run ok s as = some t) : ReachableBy M ok t := by
  induction as generalizing s with
  | nil => rw [Machine.run, Option.some.injEq] at h; exact h ▸ hs
  | cons a as ih =>
      obtain ⟨ha, u, hu, hut⟩ := run_cons.mp h
      exact ih (.tail hs ha hu) hut

/-- A schedule that ends where `p` holds reaches such a state. -/
theorem ReachableBy.exists_of_run {s : σ} (hs : ReachableBy M ok s) (as : List α) (p : σ → Bool)
    (h : (M.run ok s as).any p = true) : ∃ t, ReachableBy M ok t ∧ p t = true := by
  cases hrun : M.run ok s as with
  | none => rw [hrun] at h; exact absurd h (by simp)
  | some t => rw [hrun] at h; exact ⟨t, hs.run hrun, h⟩

end Machine

end DBServer.Lib
