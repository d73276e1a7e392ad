import DBServer.Proof.Occupancy

/-!
# What happens to a slot

A slot changes in six ways, and only on its operator's thread: its parser is set up,
`_operator_add_client` fills its context in or hands it to a client, its client's
handler runs, or the client is shut down. `SlotChange` says so for every instruction,
the handler's own outcome included, which the table of the operator does not show.
What every change keeps, every slot has in every state.
-/

namespace DBServer.Proof

open DBServer Lib Operator

variable {H : DbHttp} {op op' : Operator H} {i : Instr} {w : Answers H} {new : List Instr}
  {idx j : Nat} {c c' : Conn H} {s : Mailbox H}

/-- The handler `_operator_handle_client_event` calls for a client. -/
def clientCall (op : Operator H) (w : Answers H) (c : Conn H) : Option Status × Conn H :=
  if c.cli.draining then responseWriterResume w.env w.fuel c
  else clientHandle w.env w.fuel op.id c

theorem clientCall_identity (op : Operator H) (w : Answers H) (c : Conn H) :
    identity (clientCall op w c).2 = identity c := by
  unfold clientCall
  split
  · exact responseWriterResume_identity w.env w.fuel c
  · exact clientHandle_identity w.env w.fuel op.id c

/-- How an instruction `i` that calls for `new` changes a slot. -/
inductive SlotChange (op : Operator H) (i : Instr) (w : Answers H) (new : List Instr)
    (c : Conn H) : Conn H → Prop where
  | same : SlotChange op i w new c c
  | parser {k : Nat} {p : H.Parser} : i = .initParsers → w.parser k = some p →
      SlotChange op i w new c { c with cli := { c.cli with httpParser := some p } }
  | aimed {fd : Int} : c.cli.isBusy = false → SlotChange op i w new c (op.aim fd c)
  | adopted {fd : Int} : c.cli.isBusy = false →
      SlotChange op i w new c (adopt w.peer (timeHelperGetNow w.wall) (op.aim fd c))
  | handled {c' : Conn H} : c.cli.isBusy = true → clientCall op w c = (some .success, c') →
      SlotChange op i w new c c'
  | failed {c' : Conn H} : c.cli.isBusy = true → clientCall op w c = (some .failure, c') →
      new.head? = some (.removeByFd c.cli.ctx.fd) → SlotChange op i w new c c'
  | shut : c.cli.isBusy = true → SlotChange op i w new c (shutSlot c)

/-- A slot after another, or the same one, has been changed. -/
theorem setSlot_getElem? {f : Conn H → Conn H} (h : (op.setSlot idx f).clients[j]? = some c') :
    ∃ c, op.clients[j]? = some c ∧ c' = if idx = j then f c else c := by
  rw [setSlot, List.getElem?_modify] at h
  obtain ⟨c, hget, rfl⟩ := Option.map_eq_some_iff.mp h
  exact ⟨c, hget, rfl⟩

/-- The change of one slot is a change of every slot. -/
theorem SlotChange.setSlot {f : Conn H → Conn H} (hget : op.clients[idx]? = some c)
    (hchange : SlotChange op i w new c (f c)) (h : (op.setSlot idx f).clients[j]? = some c') :
    ∃ d, op.clients[j]? = some d ∧ SlotChange op i w new d c' := by
  obtain ⟨d, hd, rfl⟩ := setSlot_getElem? h
  refine ⟨d, hd, ?_⟩
  split
  · rename_i heq
    subst heq
    obtain rfl := Option.some.inj (hget.symm.trans hd)
    exact hchange
  · exact .same

theorem parserInit_getElem? :
    ∀ (k : Nat) (cs : List (Conn H)) {j : Nat} {c' : Conn H},
      (parserInit w.parser k cs).2[j]? = some c' →
      ∃ c, cs[j]? = some c ∧ SlotChange op .initParsers w new c c'
  | _, [], _, _, h => by
      rw [parserInit] at h
      exact absurd h (by simp)
  | k, c :: cs, j, c', h => by
      rw [parserInit] at h
      cases hp : w.parser k with
      | none =>
          rw [hp] at h
          exact ⟨c', h, .same⟩
      | some p =>
          rw [hp] at h
          cases j with
          | zero =>
              obtain rfl := Option.some.inj h
              exact ⟨c, rfl, .parser rfl hp⟩
          | succ j => exact parserInit_getElem? (k + 1) cs h

/-- The client's own handler. -/
theorem handleClientEvent_slots (h : op.handleClientEvent idx w = some (op', new))
    (hget : op'.clients[j]? = some c') :
    ∃ c, op.clients[j]? = some c ∧ SlotChange op i w new c c' := by
  unfold handleClientEvent at h
  cases hslot : op.clients[idx]? with
  | none =>
      simp only [hslot, Option.some.injEq, Prod.mk.injEq] at h
      obtain ⟨rfl, rfl⟩ := h
      exact ⟨c', hget, .same⟩
  | some c =>
      simp only [hslot] at h
      split at h
      · obtain ⟨rfl, rfl⟩ := Prod.mk.inj (Option.some.inj h)
        exact ⟨c', hget, .same⟩
      · rename_i hready
        have hbusy : c.cli.isBusy = true := by
          by_contra hnot
          exact hready (.inr (Bool.eq_false_of_not_eq_true hnot))
        have hcall : clientCall op w c = if c.cli.draining then responseWriterResume w.env w.fuel c
            else clientHandle w.env w.fuel op.id c := rfl
        have hkept := clientCall_identity op w c
        rw [← hcall] at h
        generalize hout : clientCall op w c = out at h hkept
        obtain ⟨_ | rc, d⟩ := out
        · exact absurd h (by simp)
        · cases rc with
          | success =>
              obtain ⟨rfl, rfl⟩ := Prod.mk.inj (Option.some.inj h)
              exact SlotChange.setSlot hslot (.handled hbusy hout) hget
          | failure =>
              obtain ⟨rfl, rfl⟩ := Prod.mk.inj (Option.some.inj h)
              refine SlotChange.setSlot hslot (.failed hbusy hout ?_) hget
              rw [← ctx_of_identity hkept]
              rfl

theorem SlotChange.append {more : List Instr} (h : SlotChange op i w new c c') :
    SlotChange op i w (new ++ more) c c' := by
  cases h with
  | same => exact .same
  | parser hi hp => exact .parser hi hp
  | aimed hidle => exact .aimed hidle
  | adopted hidle => exact .adopted hidle
  | handled hbusy hcall => exact .handled hbusy hcall
  | failed hbusy hcall hhead =>
      refine .failed hbusy hcall ?_
      rw [List.head?_append, hhead]
      rfl
  | shut hbusy => exact .shut hbusy

theorem handleEvent_slots {e : Event} {es : List Event}
    (h : op.handleEvent e es w = some (op', new)) (hget : op'.clients[j]? = some c') :
    ∃ c, op.clients[j]? = some c ∧ SlotChange op i w new c c' := by
  have hsame : op'.clients = op.clients → ∃ c, op.clients[j]? = some c ∧
      SlotChange op i w new c c' := by
    intro heq
    exact ⟨c', heq ▸ hget, .same⟩
  unfold Operator.handleEvent at h
  split at h
  · obtain ⟨rfl, rfl⟩ := Prod.mk.inj (Option.some.inj h)
    exact hsame rfl
  · obtain ⟨rfl, rfl⟩ := Prod.mk.inj (Option.some.inj h)
    exact hsame rfl
  · obtain ⟨rfl, rfl⟩ := Prod.mk.inj (Option.some.inj h)
    exact hsame rfl
  · split at h
    · obtain ⟨rfl, rfl⟩ := Prod.mk.inj (Option.some.inj h)
      obtain ⟨p, hp⟩ := timerUpdate_eq op
      exact hsame (by rw [hp])
    · obtain ⟨rfl, rfl⟩ := Prod.mk.inj (Option.some.inj h)
      exact hsame rfl
  · split at h
    · obtain ⟨⟨op₁, new₁⟩, hcli, hout⟩ := Option.map_eq_some_iff.mp h
      obtain ⟨rfl, rfl⟩ := Prod.mk.inj hout
      obtain ⟨c, hc, hchange⟩ := handleClientEvent_slots hcli hget
      exact ⟨c, hc, hchange.append⟩
    · exact absurd h (by simp)
  · exact absurd h (by simp)

/-- **Every instruction changes every slot in one of the six ways, or not at all.** -/
theorem exec_slots (h : exec op i w = some (op', new)) (hget : op'.clients[j]? = some c') :
    ∃ c, op.clients[j]? = some c ∧ SlotChange op i w new c c' := by
  have hsame : op'.clients = op.clients → ∃ c, op.clients[j]? = some c ∧
      SlotChange op i w new c c' := by
    intro heq
    exact ⟨c', heq ▸ hget, .same⟩
  cases i with
  | events es =>
      cases es with
      | nil =>
          obtain ⟨rfl, rfl⟩ := Prod.mk.inj (Option.some.inj h)
          exact hsame rfl
      | cons e es => exact handleEvent_slots h hget
  | initParsers =>
      obtain ⟨rfl, rfl⟩ := Prod.mk.inj (Option.some.inj h)
      exact parserInit_getElem? 0 op.clients hget
  | addClient fd =>
      cases exec_executes h with
      | addNoSlot => exact hsame rfl
      | addRefused => exact hsame rfl
      | addUnwatched hfree =>
          obtain ⟨c, hc, hidle⟩ := getAvailableClientSlot_free hfree
          exact SlotChange.setSlot hc (.aimed hidle) hget
      | added hfree =>
          obtain ⟨c, hc, hidle⟩ := getAvailableClientSlot_free hfree
          exact SlotChange.setSlot hc (.adopted hidle) hget
  | removeByFd fd =>
      cases exec_executes h with
      | removeMissing => exact hsame rfl
      | removed hfound =>
          obtain ⟨c, hc, hbusy, _⟩ := slotOf_busy hfound
          exact SlotChange.setSlot hc (.shut hbusy) hget
  | cleanClients k now =>
      cases exec_executes h with
      | cleaned => exact hsame rfl
      | spared => exact hsame rfl
      | evicted hc hexp => exact SlotChange.setSlot hc (.shut (expired_busy hexp)) hget
  | crash => exact absurd h (by simp [exec])
  | _ =>
      -- the rest of the instructions leave the slots alone
      refine hsame ?_
      cases exec_executes h <;> rfl

end DBServer.Proof
