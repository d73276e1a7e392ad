import Mathlib

/-!
# Reflected cyclic redundancy checks

The register of a reflected CRC takes one message bit at a time, low bit of each
byte first: the bit is added at the register's low end, and the register moves
down one place, adding the polynomial when a one falls out. That is `crc`. One
move of the register is linear in exclusive or, which is the reason why a byte
can be taken at once (`byteStep`) and why the eight moves can be looked up in a
table indexed by the low byte (`byteStep_eq_table`).
-/

namespace DBServer.Lib.Crc

variable {w : Nat} (poly : BitVec w)

/-- The register moves down one place. -/
def step (c : BitVec w) : BitVec w :=
  if c.getLsbD 0 then poly ^^^ (c >>> 1) else c >>> 1

/-- One message bit. -/
def bitStep (c : BitVec w) (b : Bool) : BitVec w := step poly (c ^^^ (BitVec.ofBool b).setWidth w)

/-- The bits of a byte, low bit first. -/
def byteBits (b : UInt8) : List Bool := (List.range 8).map b.toBitVec.getLsbD

/-- The register after a message. -/
def register (c : BitVec w) (bs : List UInt8) : BitVec w :=
  (bs.flatMap byteBits).foldl (bitStep poly) c

/-- **The check value**: start from all ones, complement at the end. -/
def crc (bs : List UInt8) : BitVec w := ~~~register poly (BitVec.allOnes w) bs

/-- One message byte. -/
def byteStep (c : BitVec w) (b : UInt8) : BitVec w := (step poly)^[8] (c ^^^ b.toBitVec.setWidth w)

/-! ## Linearity -/

theorem step_xor (x y : BitVec w) : step poly (x ^^^ y) = step poly x ^^^ step poly y := by
  unfold step
  rw [BitVec.getLsbD_xor, BitVec.ushiftRight_xor_distrib]
  cases x.getLsbD 0 with
  | false =>
      cases y.getLsbD 0 with
      | false => rfl
      | true => simp only [Bool.false_xor, if_true, Bool.false_eq_true, if_false]; ac_rfl
  | true =>
      cases y.getLsbD 0 with
      | false => simp only [Bool.xor_false, if_true, Bool.false_eq_true, if_false]; ac_rfl
      | true =>
          -- both ones fall out, and the two polynomials cancel
          have hcancel : ∀ a b : BitVec w, a ^^^ b = poly ^^^ a ^^^ (poly ^^^ b) := by
            intro a b
            rw [BitVec.xor_comm poly a, BitVec.xor_assoc, ← BitVec.xor_assoc poly poly,
              BitVec.xor_self, BitVec.zero_xor]
          exact hcancel _ _

theorem steps_xor (n : Nat) (x y : BitVec w) :
    (step poly)^[n] (x ^^^ y) = (step poly)^[n] x ^^^ (step poly)^[n] y := by
  induction n generalizing x y with
  | zero => rfl
  | succ n ih => simp only [Function.iterate_succ_apply, step_xor, ih]

/-- Zeros falling out add nothing: the register only moves. -/
theorem steps_of_clear {n : Nat} {x : BitVec w} (h : ∀ i < n, x.getLsbD i = false) :
    (step poly)^[n] x = x >>> n := by
  induction n with
  | zero => simp
  | succ n ih =>
      have hlow : (x >>> n).getLsbD 0 = false := by
        rw [BitVec.getLsbD_ushiftRight]
        exact h (n + 0) (Nat.lt_succ_self n)
      rw [Function.iterate_succ_apply', ih fun i hi => h i (Nat.lt_succ_of_lt hi), step, hlow,
        if_neg (by simp), BitVec.shiftRight_add]

/-! ## A byte at a time -/

/-- The first `n` bits of `x`, taken one at a time. -/
theorem foldl_bitStep (x : BitVec 8) (c : BitVec w) :
    ∀ n ≤ 8, n ≤ w → ((List.range n).map x.getLsbD).foldl (bitStep poly) c =
      (step poly)^[n] (c ^^^ (x.setWidth n).setWidth w)
  | 0, _, _ => by
      have hzero : (x.setWidth 0).setWidth w = 0#w := by
        apply BitVec.eq_of_getLsbD_eq
        intro i hi
        simp
      simp [hzero]
  | n + 1, h8, hw => by
      -- the next bit, brought in at the bottom, is the bit in place before the `n` steps
      have hbit : (BitVec.ofBool (x.getLsbD n)).setWidth w =
          (step poly)^[n] ((BitVec.ofBool (x.getLsbD n)).setWidth w <<< n) := by
        rw [steps_of_clear poly (by intro i hi; simp [hi])]
        apply BitVec.eq_of_getLsbD_eq
        intro i hi
        by_cases h0 : i = 0
        · subst h0
          simp
          omega
        · simp [BitVec.getLsbD_ofBool, h0]
      have hlow : (x.setWidth n).setWidth w ^^^ (BitVec.ofBool (x.getLsbD n)).setWidth w <<< n =
          (x.setWidth (n + 1)).setWidth w := by
        apply BitVec.eq_of_getLsbD_eq
        intro i hi
        rcases Nat.lt_trichotomy i n with hlt | rfl | hgt
        · simp [hi, hlt, Nat.lt_succ_of_lt hlt]
        · simp [hi]
        · have h1 : ¬i < n := by omega
          have h2 : ¬i < n + 1 := by omega
          have h3 : ¬i - n = 0 := by omega
          simp [hi, h1, h2, h3]
      rw [List.range_succ, List.map_append, List.foldl_append,
        foldl_bitStep x c n (by omega) (by omega), List.map_singleton, List.foldl_cons,
        List.foldl_nil, bitStep, hbit, ← steps_xor, Function.iterate_succ_apply', BitVec.xor_assoc,
        hlow]

theorem foldl_byteBits (hw : 8 ≤ w) (c : BitVec w) (b : UInt8) :
    (byteBits b).foldl (bitStep poly) c = byteStep poly c b := by
  rw [byteBits, foldl_bitStep poly _ c 8 (Nat.le_refl 8) hw, byteStep, BitVec.setWidth_eq]

theorem register_eq (hw : 8 ≤ w) (c : BitVec w) (bs : List UInt8) :
    register poly c bs = bs.foldl (byteStep poly) c := by
  induction bs generalizing c with
  | nil => rfl
  | cons b bs ih =>
      rw [List.foldl_cons, ← ih, register, List.flatMap_cons, List.foldl_append,
        foldl_byteBits poly hw, register]

/-! ## A table of the low bytes -/

/-- The low byte of a register, and the rest of it. -/
theorem low_xor_high (x : BitVec w) :
    x = (x &&& (255#8).setWidth w) ^^^ (x &&& ~~~(255#8).setWidth w) := by
  apply BitVec.eq_of_getLsbD_eq
  intro i hi
  rw [BitVec.getLsbD_xor, BitVec.getLsbD_and, BitVec.getLsbD_and, BitVec.getLsbD_not]
  cases x.getLsbD i <;> cases ((255#8).setWidth w).getLsbD i <;> simp [hi]

theorem getLsbD_low (i : Nat) (hi : i < w) : ((255#8).setWidth w).getLsbD i = decide (i < 8) := by
  have h255 : ∀ j < 8, (255#8).getLsbD j = true := by decide
  rw [BitVec.getLsbD_setWidth]
  by_cases h8 : i < 8
  · simp [hi, h8, h255 i h8]
  · simp [h8, BitVec.getLsbD_of_ge (255#8) i (by omega)]

theorem steps_high (x : BitVec w) :
    (step poly)^[8] (x &&& ~~~(255#8).setWidth w) = x >>> 8 := by
  rw [steps_of_clear]
  · apply BitVec.eq_of_getLsbD_eq
    intro i hi
    by_cases hin : 8 + i < w
    · simp only [BitVec.getLsbD_ushiftRight, BitVec.getLsbD_and, BitVec.getLsbD_not,
        getLsbD_low _ hin]
      simp [hin]
    · rw [BitVec.getLsbD_ushiftRight, BitVec.getLsbD_ushiftRight,
        BitVec.getLsbD_of_ge _ _ (by omega), BitVec.getLsbD_of_ge _ _ (by omega)]
  · intro i hi
    by_cases hin : i < w
    · rw [BitVec.getLsbD_and, BitVec.getLsbD_not, getLsbD_low i hin]
      simp [hi]
    · exact BitVec.getLsbD_of_ge _ _ (by omega)

/-- **Eight moves at once**: the table's entry for the low byte, and the rest moved down. -/
theorem byteStep_eq_table (c : BitVec w) (b : UInt8) :
    byteStep poly c b =
      (step poly)^[8] ((c ^^^ b.toBitVec.setWidth w) &&& (255#8).setWidth w) ^^^ (c >>> 8) := by
  have hb : b.toBitVec.setWidth w >>> 8 = 0#w := by
    apply BitVec.eq_of_getLsbD_eq
    intro i hi
    simp
  rw [byteStep]
  conv_lhs => rw [low_xor_high (c ^^^ b.toBitVec.setWidth w)]
  rw [steps_xor, steps_high, BitVec.ushiftRight_xor_distrib, hb, BitVec.xor_zero]

end DBServer.Lib.Crc
