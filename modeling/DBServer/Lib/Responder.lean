import DBServer.Lib.Steps

/-!
# A sequential responder

One connection after another, and on each of them one answer after another: nothing is
done for the connection while an answer is still on its way out. What is done is kept in
a log whose entries may be answers; an answer is first pending and goes out in pieces of
any size. The last thing a connection gets may be a stream, which is no entry of the log;
whatever is noted behind it, or behind the last answer, only winds the connection up.
-/

namespace DBServer.Lib

/-- A responder's connection. Entries are of type `ω`, the elements of an answer of type `β`. -/
structure Responder (ω β : Type) where
  log : List ω
  wire : List β
  pending : List β
  streamed : List β
  isOpen : Bool

inductive ResponderAct (ω β : Type) where
  | accept
  /-- An entry made for an open connection that is owed nothing. -/
  | work (e : ω)
  | transmit (k : Nat)
  | stream (bs : List β)
  /-- An entry behind which there are no answers any more. -/
  | settle (e : ω)
  | close

namespace Responder

variable {ω β : Type} {voice : ω → Option (List β)} {r t : Responder ω β}

/-- No connection yet. -/
def blank (ω β : Type) : Responder ω β := ⟨[], [], [], [], false⟩

/-- A connection nothing has happened on. -/
def opened (ω β : Type) : Responder ω β := { blank ω β with isOpen := true }

/-- Nothing is owed to an open connection. -/
def Free (r : Responder ω β) : Prop := r.isOpen = true ∧ r.pending = []

instance [DecidableEq β] : Decidable r.Free := inferInstanceAs (Decidable (_ ∧ _))

/-- The answers of a log, one behind the other. -/
def answers (voice : ω → Option (List β)) (log : List ω) : List β := (log.filterMap voice).flatten

/-- What an entry makes pending. -/
def note (voice : ω → Option (List β)) (e : ω) (r : Responder ω β) : Responder ω β :=
  { r with log := r.log ++ [e], pending := (voice e).getD [] }

def transmit (k : Nat) (r : Responder ω β) : Responder ω β :=
  { r with wire := r.wire ++ r.pending.take k, pending := r.pending.drop k }

/-- `voice e` is what an entry answers, if it answers anything. -/
def machine [DecidableEq β] (voice : ω → Option (List β)) :
    Machine (Responder ω β) (ResponderAct ω β) where
  init r := r = blank ω β
  step r
    | .accept => if r.isOpen then none else some (opened ω β)
    | .work e => if r.Free then some (r.note voice e) else none
    | .transmit k => some (r.transmit k)
    | .stream bs =>
        if r.Free then some { r with wire := r.wire ++ bs, streamed := bs, isOpen := false }
        else none
    | .settle e =>
        if (voice e).isNone then some { r with log := r.log ++ [e], isOpen := false } else none
    | .close => some { r with isOpen := false }

@[simp] theorem answers_nil : answers voice [] = [] := rfl

theorem answers_append (l m : List ω) :
    answers voice (l ++ m) = answers voice l ++ answers voice m := by
  rw [answers, List.filterMap_append, List.flatten_append]; rfl

theorem answers_concat (l : List ω) (e : ω) :
    answers voice (l ++ [e]) = answers voice l ++ (voice e).getD [] := by
  rw [answers_append]
  cases h : voice e with
  | none => simp [answers, h]
  | some bs => simp [answers, h]

/-! ## What goes out is what was answered -/

/-- What is out and what is pending are the answers of the log, and the stream behind them. -/
structure Faithful (voice : ω → Option (List β)) (r : Responder ω β) : Prop where
  said : r.wire ++ r.pending = answers voice r.log ++ r.streamed
  plain : r.isOpen = true → r.streamed = []
  last : r.streamed = [] ∨ r.pending = []

/-- Nothing is out but the answers, in order, and a stream behind all of them. -/
theorem Faithful.wire (h : Faithful voice r) :
    r.wire <+: answers voice r.log ∨ answers voice r.log <+: r.wire := by
  have hsaid := h.said
  rcases h.last with hplain | hnone
  · rw [hplain, List.append_nil] at hsaid
    exact .inl ⟨r.pending, hsaid⟩
  · rw [hnone, List.append_nil] at hsaid
    exact .inr ⟨r.streamed, hsaid.symm⟩

/-- Everything answered is out when nothing is owed. -/
theorem Faithful.wire_of_free (h : Faithful voice r) (hfree : r.Free) :
    r.wire = answers voice r.log := by
  have hsaid := h.said
  rwa [hfree.2, h.plain hfree.1, List.append_nil, List.append_nil] at hsaid

theorem Faithful.note {e : ω} (h : Faithful voice r) (hfree : r.Free) :
    Faithful voice (r.note voice e) := by
  refine ⟨?_, h.plain, .inl (h.plain hfree.1)⟩
  show r.wire ++ (voice e).getD [] = answers voice (r.log ++ [e]) ++ r.streamed
  rw [answers_concat, h.plain hfree.1, List.append_nil, h.wire_of_free hfree]

theorem Faithful.transmit {k : Nat} (h : Faithful voice r) : Faithful voice (r.transmit k) := by
  refine ⟨?_, h.plain, h.last.imp_right fun hnone => ?_⟩
  · show r.wire ++ r.pending.take k ++ r.pending.drop k = answers voice r.log ++ r.streamed
    rw [List.append_assoc, List.take_append_drop]
    exact h.said
  · show r.pending.drop k = []
    rw [hnone, List.drop_nil]

variable [DecidableEq β]

theorem faithful_step {a : ResponderAct ω β} (h : Faithful voice r)
    (hstep : (machine voice).step r a = some t) : Faithful voice t := by
  cases a with
  | accept =>
      obtain ⟨_, ⟨⟩⟩ := Option.ite_none_left_eq_some.mp hstep
      exact ⟨rfl, fun _ => rfl, .inl rfl⟩
  | work e =>
      obtain ⟨hfree, ⟨⟩⟩ := Option.ite_none_right_eq_some.mp hstep
      exact h.note hfree
  | transmit k =>
      obtain rfl := Option.some.inj hstep
      exact h.transmit
  | stream bs =>
      obtain ⟨hfree, ⟨⟩⟩ := Option.ite_none_right_eq_some.mp hstep
      refine ⟨?_, fun hopen => absurd hopen (by simp), .inr hfree.2⟩
      show r.wire ++ bs ++ r.pending = answers voice r.log ++ bs
      rw [hfree.2, List.append_nil, h.wire_of_free hfree]
  | settle e =>
      obtain ⟨hsilent, ⟨⟩⟩ := Option.ite_none_right_eq_some.mp hstep
      refine ⟨?_, fun hopen => absurd hopen (by simp), h.last⟩
      show r.wire ++ r.pending = answers voice (r.log ++ [e]) ++ r.streamed
      rw [answers_concat, Option.isNone_iff_eq_none.mp hsilent, h.said]
      simp
  | close =>
      obtain rfl := Option.some.inj hstep
      exact ⟨h.said, fun hopen => absurd hopen (by simp), h.last⟩

/-- **In every run.** -/
theorem faithful_reachable (h : (machine voice).Reachable r) : Faithful voice r := by
  refine h.invariant ?_ fun _ _ _ _ hr _ hstep => faithful_step hr hstep
  rintro r rfl
  exact ⟨rfl, fun _ => rfl, .inl rfl⟩

/-! ## Runs of several steps -/

theorem steps_work {e : ω} (hfree : r.Free) : (machine voice).Steps r (r.note voice e) :=
  .one (a := .work e) (if_pos hfree)

theorem steps_transmit (k : Nat) : (machine voice).Steps r (r.transmit k) :=
  .one (a := .transmit k) rfl

theorem steps_close : (machine voice).Steps r { r with isOpen := false } := .one (a := .close) rfl

/-- Entries that answer nothing, the last there are. -/
theorem steps_settle : ∀ (es : List ω) {r : Responder ω β}, r.isOpen = false →
    (∀ e ∈ es, voice e = none) →
    (machine voice).Steps r { r with log := r.log ++ es, isOpen := false }
  | [], r, hopen, _ => by
      obtain ⟨log, wire, pending, streamed, isOpen⟩ := r
      obtain rfl : isOpen = false := hopen
      rw [List.append_nil]
      exact .refl
  | e :: es, r, _, hes => by
      have hsilent : (voice e).isNone := Option.isNone_iff_eq_none.mpr (hes e List.mem_cons_self)
      have hfirst : (machine voice).Steps r { r with log := r.log ++ [e], isOpen := false } :=
        .one (a := .settle e) (if_pos hsilent)
      have hrest := steps_settle es (r := { r with log := r.log ++ [e], isOpen := false }) rfl
        fun e he => hes e (.tail _ he)
      simp only [List.append_assoc, List.singleton_append] at hrest
      exact hfirst.trans hrest

end Responder

end DBServer.Lib
