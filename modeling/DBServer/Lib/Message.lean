import DBServer.Lib.Header

/-!
# Whole messages

A message is a start line, a list of named fields, a blank line and a body of the length
that its `Content-Length` field announces. `print` writes one; `read` takes the first one
off a stream, the way a receiver frames it: line by line up to the blank line, each line
split at its first `": "`, and then as many bytes as were announced. What was printed is
read back, whatever follows it on the stream (`read_print`).
-/

namespace DBServer.Lib.Message

open Header

variable {l name value rest body text : List UInt8} {fields : List (List UInt8 × List UInt8)}

/-! ## Numbers -/

/-- A number in decimal. -/
def digits (n : Nat) : List UInt8 := (Nat.toDigits 10 n).map fun c => c.toNat.toUInt8

/-- What a row of decimal digits says, continuing from `acc`; `none` if there is another byte. -/
def numberFrom (acc : Nat) : List UInt8 → Option Nat
  | [] => some acc
  | b :: bs => if 48 ≤ b ∧ b ≤ 57 then numberFrom (10 * acc + (b.toNat - 48)) bs else none

/-- A number in decimal, read back. -/
def number (bs : List UInt8) : Option Nat := if bs = [] then none else numberFrom 0 bs

/-- A digit is stored as its ASCII code. -/
theorem digit_toUInt8 {c : Char} (h : c.isDigit = true) :
    48 ≤ c.toNat.toUInt8 ∧ c.toNat.toUInt8 ≤ 57 ∧ c.toNat.toUInt8.toNat = c.toNat := by
  simp only [Char.isDigit, Bool.and_eq_true, decide_eq_true_eq] at h
  have hlow : 48 ≤ c.toNat := h.1
  have hhigh : c.toNat ≤ 57 := h.2
  have hnat : c.toNat.toUInt8.toNat = c.toNat := by
    rw [Nat.toUInt8_eq, UInt8.toNat_ofNat']
    exact Nat.mod_eq_of_lt (by omega)
  refine ⟨?_, ?_, hnat⟩
  · rw [UInt8.le_iff_toNat_le, hnat]; exact hlow
  · rw [UInt8.le_iff_toNat_le, hnat]; exact hhigh

theorem numberFrom_map : ∀ {cs : List Char} {acc : Nat}, (∀ c ∈ cs, c.isDigit = true) →
    numberFrom acc (cs.map fun c => c.toNat.toUInt8) = some (Nat.ofDigitChars 10 cs acc)
  | [], _, _ => rfl
  | c :: cs, acc, h => by
      obtain ⟨hlow, hhigh, hnat⟩ := digit_toUInt8 (h c (List.mem_cons_self ..))
      have hrest : ∀ d ∈ cs, d.isDigit = true := fun d hd => h d (List.mem_cons_of_mem c hd)
      rw [List.map_cons, numberFrom, if_pos ⟨hlow, hhigh⟩, hnat, numberFrom_map hrest,
        Nat.ofDigitChars_cons]
      rfl

theorem number_digits (n : Nat) : number (digits n) = some n := by
  have hne : digits n ≠ [] := by simp [digits]
  have hdigit : ∀ c ∈ Nat.toDigits 10 n, c.isDigit = true := fun c hc =>
    Nat.isDigit_of_mem_toDigits (by decide) (by decide) hc
  rw [number, if_neg hne, digits, numberFrom_map hdigit, Nat.ofDigitChars_ten_toDigits]

/-! ## Reading -/

/-- The first line, without its line end, and what follows it. -/
def cutLine : List UInt8 → Option (List UInt8 × List UInt8)
  | a :: b :: bs =>
      if a = 13 ∧ b = 10 then some ([], bs)
      else (cutLine (b :: bs)).map fun (l, rest) => (a :: l, rest)
  | _ => none

/-- A line split at its first `": "`. -/
def splitField : List UInt8 → Option (List UInt8 × List UInt8)
  | a :: b :: bs =>
      if a = 58 ∧ b = 32 then some ([], bs)
      else (splitField (b :: bs)).map fun (name, value) => (a :: name, value)
  | _ => none

/-- The fields up to the blank line, and what follows it. `fuel` bounds the number of lines. -/
def readFields : Nat → List UInt8 → Option (List (List UInt8 × List UInt8) × List UInt8)
  | 0, _ => none
  | fuel + 1, text =>
      (cutLine text).bind fun (l, rest) =>
        if l = [] then some ([], rest)
        else
          (splitField l).bind fun field =>
            (readFields fuel rest).map fun (fields, rest) => (field :: fields, rest)

/-- `Content-Length`. -/
def contentLength : List UInt8 :=
  [67, 111, 110, 116, 101, 110, 116, 45, 76, 101, 110, 103, 116, 104]

/-- The length the first `Content-Length` field announces. -/
def announced (fields : List (List UInt8 × List UInt8)) : Option Nat :=
  (fields.find? fun f => f.1 = contentLength).bind fun f => number f.2

/-- The first message of a stream: its start line, its fields and its body. -/
def read (text : List UInt8) :
    Option (List UInt8 × List (List UInt8 × List UInt8) × List UInt8) :=
  (cutLine text).bind fun (start, rest) =>
    (readFields (text.length + 1) rest).bind fun (fields, rest) =>
      (announced fields).bind fun n =>
        if n ≤ rest.length then some (start, fields, rest.take n) else none

/-! ## Printing -/

/-- One field on its line. -/
def printField (f : List UInt8 × List UInt8) : List UInt8 := f.1 ++ separator ++ f.2 ++ crlf

/-- A message. -/
def print (start : List UInt8) (fields : List (List UInt8 × List UInt8)) (body : List UInt8) :
    List UInt8 :=
  start ++ crlf ++ (fields.map printField).flatten ++ crlf ++ body

/-- A line without CR is cut off the front. -/
theorem cutLine_append : ∀ {l : List UInt8}, 13 ∉ l →
    cutLine (l ++ crlf ++ rest) = some (l, rest)
  | [], _ => rfl
  | a :: l, hl => by
      have ha : a ≠ 13 := fun h => hl (by simp [h])
      have ih := cutLine_append fun h => hl (List.mem_cons_of_mem a h)
      obtain ⟨b, bs, hcons⟩ : ∃ b bs, l ++ crlf ++ rest = b :: bs := by
        cases l with
        | nil => exact ⟨13, 10 :: rest, rfl⟩
        | cons b l => exact ⟨b, l ++ crlf ++ rest, rfl⟩
      rw [hcons] at ih
      rw [List.cons_append, List.cons_append, hcons, cutLine, if_neg (fun h => ha h.1), ih]
      rfl

/-- A name without `:` is split off, whatever its value. -/
theorem splitField_append : ∀ {name : List UInt8}, 58 ∉ name →
    splitField (name ++ separator ++ value) = some (name, value)
  | [], _ => rfl
  | a :: name, hname => by
      have ha : a ≠ 58 := fun h => hname (by simp [h])
      have ih := splitField_append fun h => hname (List.mem_cons_of_mem a h)
      obtain ⟨b, bs, hcons⟩ : ∃ b bs, name ++ separator ++ value = b :: bs := by
        cases name with
        | nil => exact ⟨58, 32 :: value, rfl⟩
        | cons b name => exact ⟨b, name ++ separator ++ value, rfl⟩
      rw [hcons] at ih
      rw [List.cons_append, List.cons_append, hcons, splitField, if_neg (fun h => ha h.1), ih]
      rfl

/-- A field that stays on its line and can be split again. -/
structure OneLine (f : List UInt8 × List UInt8) : Prop where
  name_no_colon : 58 ∉ f.1
  name_no_cr : 13 ∉ f.1
  value_no_cr : 13 ∉ f.2

theorem readFields_print (hfields : ∀ f ∈ fields, OneLine f) : ∀ {fuel : Nat},
    fields.length < fuel →
    readFields fuel ((fields.map printField).flatten ++ crlf ++ rest) = some (fields, rest) := by
  induction fields with
  | nil =>
      intro fuel hfuel
      obtain ⟨k, rfl⟩ : ∃ k, fuel = k + 1 := ⟨fuel - 1, by simp at hfuel; omega⟩
      rfl
  | cons f fields ih =>
      intro fuel hfuel
      obtain ⟨k, rfl⟩ : ∃ k, fuel = k + 1 := ⟨fuel - 1, by simp at hfuel; omega⟩
      have hf := hfields f (List.mem_cons_self ..)
      have hline : 13 ∉ f.1 ++ separator ++ f.2 := by
        simp [separator, hf.name_no_cr, hf.value_no_cr]
      have hne : f.1 ++ separator ++ f.2 ≠ [] := by simp [separator]
      have hshort : fields.length < k := by simp at hfuel; omega
      have hrest := ih (fun g hg => hfields g (List.mem_cons_of_mem f hg)) hshort
      rw [List.map_cons, List.flatten_cons, printField, List.append_assoc, List.append_assoc,
        ← List.append_assoc _ crlf, readFields, cutLine_append hline, Option.bind_some]
      simp only [if_neg hne, splitField_append hf.name_no_colon, Option.bind_some, hrest,
        Option.map_some]

/-- There are no more fields than bytes. -/
theorem length_le_flatten (fields : List (List UInt8 × List UInt8)) :
    fields.length ≤ ((fields.map printField).flatten).length := by
  induction fields with
  | nil => simp
  | cons f fields ih =>
      have hline : 0 < (printField f).length := by simp [printField, crlf]
      rw [List.map_cons, List.flatten_cons, List.length_append, List.length_cons]
      omega

/-- **What was printed is read back**, whatever follows it. -/
theorem read_print {start : List UInt8} (hstart : 13 ∉ start)
    (hfields : ∀ f ∈ fields, OneLine f) (hlength : announced fields = some body.length) :
    read (print start fields body ++ rest) = some (start, fields, body) := by
  have hshape : print start fields body ++ rest =
      start ++ crlf ++ ((fields.map printField).flatten ++ crlf ++ (body ++ rest)) := by
    simp only [print, List.append_assoc]
  have hmany : fields.length < (print start fields body ++ rest).length + 1 := by
    have hle := length_le_flatten fields
    rw [hshape]
    simp only [List.length_append]
    omega
  rw [read]
  generalize (print start fields body ++ rest).length + 1 = fuel at hmany
  rw [hshape, cutLine_append hstart, Option.bind_some]
  simp only [readFields_print hfields hmany, Option.bind_some, hlength]
  rw [if_pos (by simp), List.take_left]

end DBServer.Lib.Message
