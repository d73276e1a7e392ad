import Mathlib

/-!
# Circular queues

A queue in an array, as it is written in C: an index to take from, an index to put to,
and a count, each index going back to the start behind the last cell. `contents` walks
the array from the head and gives the queue it stands for. Nothing here bounds the count
by less than the array's size; a caller may do so.
-/

namespace DBServer.Lib

variable {α : Type}

/-- The array, and where in it the queue lies. -/
structure RingQueue (α : Type) where
  cells : List α
  head : Nat
  tail : Nat
  count : Nat
deriving DecidableEq, Repr

namespace RingQueue

variable {size : Nat} {q : RingQueue α} {x : α}

/-- Nothing in `size` cells. -/
def empty (size : Nat) (x : α) : RingQueue α := ⟨List.replicate size x, 0, 0, 0⟩

/-- Put an element behind the last one. -/
def push (size : Nat) (x : α) (q : RingQueue α) : RingQueue α :=
  { q with cells := q.cells.set q.tail x, tail := (q.tail + 1) % size, count := q.count + 1 }

/-- The oldest element. -/
def front [Inhabited α] (q : RingQueue α) : α := q.cells.getD q.head default

/-- Leave the oldest element behind. -/
def pop (size : Nat) (q : RingQueue α) : RingQueue α :=
  { q with head := (q.head + 1) % size, count := q.count - 1 }

/-- As many elements, from a cell on. -/
def walk (cells : List α) (size : Nat) : Nat → Nat → List α
  | 0, _ => []
  | n + 1, i => cells[i]?.toList ++ walk cells size n ((i + 1) % size)

/-- The queue, the oldest element first. -/
def contents (size : Nat) (q : RingQueue α) : List α := walk q.cells size q.count q.head

/-- The head is in the array, and the tail as far behind it as the count says. -/
structure Wrapped (size : Nat) (q : RingQueue α) : Prop where
  cells : q.cells.length = size
  head : q.head < size
  count : q.count ≤ size
  tail : q.tail = (q.head + q.count) % size

theorem Wrapped.tail_lt (h : Wrapped size q) : q.tail < size := by
  rw [h.tail]
  exact Nat.mod_lt _ (Nat.zero_lt_of_lt h.head)

theorem Wrapped.push (h : Wrapped size q) (x : α) (hroom : q.count < size) :
    Wrapped size (q.push size x) := by
  refine ⟨?_, h.head, hroom, ?_⟩
  · exact (List.length_set ..).trans h.cells
  · simp only [RingQueue.push, h.tail, Nat.mod_add_mod, Nat.add_assoc]

theorem Wrapped.pop (h : Wrapped size q) (hsome : 0 < q.count) : Wrapped size (q.pop size) := by
  refine ⟨h.cells, Nat.mod_lt _ (Nat.zero_lt_of_lt h.head), ?_, ?_⟩
  · exact Nat.le_trans (Nat.sub_le ..) h.count
  · have hcount : q.head + 1 + (q.count - 1) = q.head + q.count := by omega
    simp only [RingQueue.pop, h.tail, Nat.mod_add_mod, hcount]

/-- The walk's last element stands alone. -/
theorem walk_succ (cells : List α) : ∀ (n i : Nat), i < size →
    walk cells size (n + 1) i = walk cells size n i ++ cells[(i + n) % size]?.toList
  | 0, i, hi => by simp [walk, Nat.mod_eq_of_lt hi]
  | n + 1, i, hi => by
      have hnext : (i + 1) % size < size := Nat.mod_lt _ (Nat.zero_lt_of_lt hi)
      have ih := walk_succ cells n ((i + 1) % size) hnext
      have hlast : ((i + 1) % size + n) % size = (i + (n + 1)) % size := by
        rw [Nat.mod_add_mod, Nat.add_assoc, Nat.add_comm 1 n]
      rw [walk, ih, hlast, ← List.append_assoc, ← walk]

/-- A cell that the walk does not reach does not matter to it. -/
theorem walk_set (cells : List α) (x : α) (k : Nat) : ∀ (n i : Nat),
    (∀ d < n, (i + d) % size ≠ k) → i < size → walk (cells.set k x) size n i = walk cells size n i
  | 0, _, _, _ => rfl
  | n + 1, i, hk, hi => by
      have hne : k ≠ i := fun heq => hk 0 (Nat.succ_pos n) (by
        rw [Nat.add_zero, Nat.mod_eq_of_lt hi, heq])
      have hnext : (i + 1) % size < size := Nat.mod_lt _ (Nat.zero_lt_of_lt hi)
      rw [walk, walk, List.getElem?_set_ne hne, walk_set cells x k n _ ?_ hnext]
      intro d hd
      have hfar := hk (d + 1) (Nat.succ_lt_succ hd)
      rwa [Nat.mod_add_mod, Nat.add_assoc, Nat.add_comm 1 d]

/-- Fewer than `size` steps do not come round. -/
theorem add_mod_ne {i d n : Nat} (hd : d < n) (hn : n < size) : (i + d) % size ≠ (i + n) % size := by
  intro heq
  have hdvd : size ∣ n - d := by
    have hsub := Nat.sub_mod_eq_zero_of_mod_eq heq.symm
    rw [Nat.add_sub_add_left] at hsub
    exact Nat.dvd_of_mod_eq_zero hsub
  have hle := Nat.le_of_dvd (Nat.sub_pos_of_lt hd) hdvd
  omega

/-- **Pushing appends.** -/
theorem contents_push (h : Wrapped size q) (hroom : q.count < size) :
    (q.push size x).contents size = q.contents size ++ [x] := by
  have hlt : q.tail < q.cells.length := h.cells.symm ▸ h.tail_lt
  have hcell : (q.cells.set q.tail x)[(q.head + q.count) % size]? = some x := by
    rw [← h.tail, List.getElem?_set_self hlt]
  unfold contents push
  dsimp only
  rw [walk_succ _ _ _ h.head, hcell, walk_set _ _ _ _ _ ?_ h.head]
  · rfl
  · intro d hd
    rw [h.tail]
    exact add_mod_ne hd hroom

/-- **Popping takes the front.** -/
theorem contents_pop [Inhabited α] (h : Wrapped size q) (hsome : 0 < q.count) :
    q.contents size = q.front :: (q.pop size).contents size := by
  obtain ⟨n, hn⟩ : ∃ n, q.count = n + 1 := ⟨q.count - 1, by omega⟩
  have hlt : q.head < q.cells.length := h.cells.symm ▸ h.head
  have hfront : q.cells[q.head]?.toList = [q.front] := by
    simp [front, List.getD_eq_getElem?_getD, hlt]
  unfold contents pop
  dsimp only
  rw [hn, walk, hfront]
  rfl

theorem length_walk (cells : List α) (hcells : cells.length = size) : ∀ (n i : Nat), i < size →
    (walk cells size n i).length = n
  | 0, _, _ => rfl
  | n + 1, i, hi => by
      have hnext : (i + 1) % size < size := Nat.mod_lt _ (Nat.zero_lt_of_lt hi)
      have hlt : i < cells.length := hcells.symm ▸ hi
      rw [walk, List.length_append, length_walk cells hcells n _ hnext,
        List.getElem?_eq_getElem hlt]
      exact Nat.add_comm 1 n

theorem length_contents (h : Wrapped size q) : (q.contents size).length = q.count :=
  length_walk q.cells h.cells q.count q.head h.head

theorem contents_of_count_eq_zero (h : q.count = 0) : q.contents size = [] := by
  rw [contents, h]
  rfl

end RingQueue

end DBServer.Lib
