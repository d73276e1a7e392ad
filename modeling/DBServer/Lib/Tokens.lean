import Mathlib

/-!
# Fields and tokens

A list cut at every separator has fields, and some of them may be empty. A tokenizer that
skips a whole run of separators in front of each token, as `strtok_r` does, sees the fields
that are not empty and nothing of where the others were.
-/

namespace DBServer.Lib

variable {α : Type} [DecidableEq α] {sep x : α} {l w rest : List α}

/-- One call of a tokenizer: the next token, and what is behind the separator that ended it. -/
def nextToken (sep : α) (l : List α) : Option (List α × List α) :=
  let l := l.dropWhile (· == sep)
  if l = [] then none else some (l.takeWhile (· != sep), (l.dropWhile (· != sep)).tail)

/-- The fields that are not empty. -/
def tokens (sep : α) (l : List α) : List (List α) := (l.splitOn sep).filter (· ≠ [])

@[simp] theorem tokens_nil : tokens sep [] = [] := by simp [tokens]

theorem tokens_cons_self : tokens sep (sep :: l) = tokens sep l := by
  simp [tokens, List.splitOn_cons_eq_if_modifyHead]

theorem nextToken_cons_self : nextToken sep (sep :: l) = nextToken sep l := by
  simp [nextToken]

theorem tokens_of_word (hw : ∀ y ∈ w, y ≠ sep) (hne : w ≠ []) : tokens sep w = [w] := by
  have hone : w.splitOn sep = [w] :=
    List.splitOn_eq_singleton_of_beq_eq_false fun y hy => beq_eq_false_iff_ne.mpr (hw y hy)
  rw [tokens, hone]
  simp [hne]

theorem tokens_word_append (hw : ∀ y ∈ w, y ≠ sep) (hne : w ≠ []) :
    tokens sep (w ++ sep :: rest) = w :: tokens sep rest := by
  have hcut : (w ++ sep :: rest).splitOn sep = w :: rest.splitOn sep := by
    rw [List.splitOn_eq_splitOnP, List.splitOn_eq_splitOnP]
    exact List.splitOnP_append_cons_of_forall_mem
      (fun y hy => beq_eq_false_iff_ne.mpr (hw y hy)) sep (beq_self_eq_true sep) rest
  rw [tokens, hcut, List.filter_cons_of_pos (by simpa using hne)]
  rfl

/-- **A tokenizer finds the fields that are not empty, one after the other.** -/
theorem nextToken_tokens (sep : α) : ∀ l : List α,
    (nextToken sep l = none → tokens sep l = []) ∧
      ∀ w rest, nextToken sep l = some (w, rest) → tokens sep l = w :: tokens sep rest
  | [] => by simp [nextToken]
  | x :: l => by
      by_cases hx : x = sep
      · subst hx
        rw [nextToken_cons_self, tokens_cons_self]
        exact nextToken_tokens x l
      · -- the token runs up to the next separator or to the end
        obtain ⟨w, hw⟩ : ∃ w, (x :: l).takeWhile (· != sep) = w := ⟨_, rfl⟩
        obtain ⟨rest, hrest⟩ : ∃ rest, (x :: l).dropWhile (· != sep) = rest := ⟨_, rfl⟩
        have hskip : (x :: l).dropWhile (· == sep) = x :: l := by simp [hx]
        have hnext : nextToken sep (x :: l) = some (w, rest.tail) := by
          rw [nextToken, hskip, hw, hrest]
          rfl
        have hl : x :: l = w ++ rest := by
          rw [← hw, ← hrest, List.takeWhile_append_dropWhile]
        have hword : ∀ y ∈ w, y ≠ sep := fun y hy => by
          rw [← hw] at hy
          simpa using List.mem_takeWhile_imp hy
        have hne : w ≠ [] := by
          rw [← hw]
          simp [hx]
        rw [hnext, hl]
        refine ⟨nofun, fun w' rest' hfound => ?_⟩
        obtain ⟨rfl, rfl⟩ := Prod.mk.inj (Option.some.inj hfound)
        -- what follows the token is nothing, or a separator that both sides skip
        cases rest with
        | nil =>
            rw [List.append_nil, tokens_of_word hword hne]
            exact congrArg (w :: ·) tokens_nil.symm
        | cons y rest =>
            have hy : y = sep := by
              have hstop := List.head?_dropWhile_not (· != sep) (x :: l)
              rw [hrest] at hstop
              simpa using hstop
            subst hy
            exact tokens_word_append hword hne

theorem tokens_eq_of_forall_ne (h : [] ∉ l.splitOn sep) : tokens sep l = l.splitOn sep :=
  List.filter_eq_self.mpr fun w hw => by
    have hne : w ≠ [] := fun heq => h (heq ▸ hw)
    simpa using hne

theorem length_tokens_lt (h : [] ∈ l.splitOn sep) : (tokens sep l).length < (l.splitOn sep).length :=
  List.length_filter_lt_length_iff_exists.mpr ⟨[], h, by simp⟩

theorem mem_tokens_iff (hw : w ≠ []) : w ∈ tokens sep l ↔ w ∈ l.splitOn sep := by
  simp [tokens, hw]

end DBServer.Lib
