import Mathlib

/-!
# The header fields of a message

A message begins with lines that end in CR LF: a start line, then one line a field,
then a blank line. `field` looks a field up by its name as a reader does who takes the
first line that has it. What a writer says is read back from the front, one line at a
time, whatever comes behind.
-/

namespace DBServer.Lib.Header

variable {l name value rest : List UInt8}

/-- CR LF. -/
def crlf : List UInt8 := [13, 10]

/-- One more byte in front of the first line, or in front of the LF that ends one. -/
def push (b : UInt8) : List (List UInt8) → List (List UInt8)
  | [] => [[b]]
  | l :: ls => if b = 13 ∧ l.head? = some 10 then [] :: l.tail :: ls else (b :: l) :: ls

/-- The lines of a text, without their line ends. -/
def lines : List UInt8 → List (List UInt8)
  | [] => [[]]
  | b :: bs => push b (lines bs)

/-- What stands between a field's name and its value. -/
def separator : List UInt8 := [58, 32]

/-- The first line of that name, up to the blank line. -/
def fieldIn (name : List UInt8) : List (List UInt8) → Option (List UInt8)
  | [] => none
  | l :: ls =>
      if l = [] then none
      else if (name ++ separator).isPrefixOf l then some (l.drop (name ++ separator).length)
      else fieldIn name ls

/-- The value of a message's first field of that name. -/
def field (name text : List UInt8) : Option (List UInt8) := fieldIn name (lines text).tail

theorem lines_ne_nil (text : List UInt8) : lines text ≠ [] := by
  cases text with
  | nil => simp [lines]
  | cons b bs =>
      rw [lines]
      cases lines bs with
      | nil => simp [push]
      | cons l ls =>
          rw [push]
          split <;> simp

/-- A byte that is not CR goes on the line. -/
theorem lines_cons {b : UInt8} {ls : List (List UInt8)} (hb : b ≠ 13) {text : List UInt8}
    (h : lines text = l :: ls) : lines (b :: text) = (b :: l) :: ls := by
  rw [lines, h, push, if_neg (fun hcr => hb hcr.1)]

/-- **A line without CR is read off the front.** -/
theorem lines_append (hl : 13 ∉ l) : lines (l ++ crlf ++ rest) = l :: lines rest := by
  induction l with
  | nil =>
      obtain ⟨l', ls, hrest⟩ := List.exists_cons_of_ne_nil (lines_ne_nil rest)
      have hlf : lines (10 :: rest) = (10 :: l') :: ls := lines_cons (by decide) hrest
      show lines (13 :: 10 :: rest) = [] :: lines rest
      rw [lines, hlf, hrest]
      rfl
  | cons b bs ih =>
      have hb : b ≠ 13 := fun h => hl (by simp [h])
      exact lines_cons hb (ih fun h => hl (List.mem_cons_of_mem b h))

/-- A line that is no field of that name. -/
structure Other (name l : List UInt8) : Prop where
  no_cr : 13 ∉ l
  nonempty : l ≠ []
  named : (name ++ separator).isPrefixOf l = false

/-- Fields of other names are passed over. -/
theorem fieldIn_others {ls : List (List UInt8)} (h : ∀ l ∈ ls, Other name l) :
    fieldIn name (lines ((ls.map (· ++ crlf)).flatten ++ rest)) = fieldIn name (lines rest) := by
  induction ls with
  | nil => rfl
  | cons l ls ih =>
      have hl := h l (List.mem_cons_self ..)
      rw [List.map_cons, List.flatten_cons, List.append_assoc, lines_append hl.no_cr, fieldIn,
        if_neg hl.nonempty, hl.named]
      exact ih fun l' hl' => h l' (List.mem_cons_of_mem l hl')

/-- **A field is read back as it was written.** -/
theorem fieldIn_self (hname : 13 ∉ name) (hvalue : 13 ∉ value) :
    fieldIn name (lines (name ++ separator ++ value ++ crlf ++ rest)) = some value := by
  have hl : 13 ∉ name ++ separator ++ value := by
    simp [separator, hname, hvalue]
  have hne : name ++ separator ++ value ≠ [] := by simp [separator]
  have hpre : (name ++ separator).isPrefixOf (name ++ separator ++ value) = true := by
    rw [List.isPrefixOf_iff_prefix]
    exact List.prefix_append _ _
  rw [lines_append hl, fieldIn, if_neg hne, if_pos hpre, List.drop_left']
  rfl

/-- **What a writer says of itself is read back.** The fields in front of it have other names. -/
theorem field_written {start : List UInt8} {ls : List (List UInt8)} (hstart : 13 ∉ start)
    (hls : ∀ l ∈ ls, Other name l) (hname : 13 ∉ name) (hvalue : 13 ∉ value) :
    field name (start ++ crlf ++ ((ls.map (· ++ crlf)).flatten ++
      (name ++ separator ++ value ++ crlf ++ rest))) = some value := by
  rw [field, lines_append hstart, List.tail_cons, fieldIn_others hls]
  exact fieldIn_self hname hvalue

end DBServer.Lib.Header
