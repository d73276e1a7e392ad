import Mathlib

/-!
# Threads as stacks of instructions

A thread is the state it works on together with the instructions it has yet to
execute, the next one first. Executing one replaces it by the instructions it
calls for, so a call returns by running out of its own instructions, and several
threads are interleaved by stepping them in any order. An instruction may be
refused: the thread is then blocked on it.

What is still to come can be weighed (`weigh`). A quantity that every instruction
preserves together with the weight of what it leaves behind is preserved by every
step of the thread.
-/

namespace DBServer.Lib

variable {σ ι ω : Type}

/-- A state, and the instructions still to be executed on it. -/
structure Thread (σ ι : Type) where
  state : σ
  code : List ι

/-- The effect of one instruction under the system's answers, and the instructions it calls for. -/
abbrev Exec (σ ι ω : Type) := σ → ι → ω → Option (σ × List ι)

variable {exec : Exec σ ι ω} {t t' : Thread σ ι} {w : ω}

/-- Execute the next instruction. A thread with none left has exited. -/
def Thread.step (exec : Exec σ ι ω) (t : Thread σ ι) (w : ω) : Option (Thread σ ι) :=
  match t.code with
  | [] => none
  | i :: rest => (exec t.state i w).map fun r => ⟨r.1, r.2 ++ rest⟩

theorem Thread.step_eq_some : t.step exec w = some t' ↔ ∃ i rest s new,
    t.code = i :: rest ∧ exec t.state i w = some (s, new) ∧ t' = ⟨s, new ++ rest⟩ := by
  obtain ⟨s, code⟩ := t
  cases code with
  | nil => simp [Thread.step]
  | cons i rest =>
      simp only [Thread.step, Option.map_eq_some_iff, Prod.exists, List.cons.injEq]
      constructor
      · rintro ⟨s', new, hexec, rfl⟩
        exact ⟨i, rest, s', new, ⟨rfl, rfl⟩, hexec, rfl⟩
      · rintro ⟨_, _, s', new, ⟨rfl, rfl⟩, hexec, rfl⟩
        exact ⟨s', new, hexec, rfl⟩

/-! ## The weight of what is to come -/

/-- The instructions of `code`, each counted as often as `f` says. -/
def weigh (f : ι → Nat) (code : List ι) : Nat := (code.map f).sum

variable {f : ι → Nat} {i : ι} {code code' : List ι}

@[simp] theorem weigh_nil : weigh f [] = 0 := rfl

@[simp] theorem weigh_cons : weigh f (i :: code) = f i + weigh f code := by simp [weigh]

@[simp] theorem weigh_append : weigh f (code ++ code') = weigh f code + weigh f code' := by
  simp [weigh]

/-- Nothing weighs anything in code none of whose instructions do. -/
theorem weigh_eq_zero (h : ∀ i ∈ code, f i = 0) : weigh f code = 0 := by
  induction code with
  | nil => rfl
  | cons i code ih =>
      rw [weigh_cons, h i (.head _), ih fun j hj => h j (.tail _ hj)]

end DBServer.Lib
