import DBServer.Listener.SdActivation
import DBServer.Lib.Numeral

/-!
# Strings of the environment

What `getenv` returns, and `strtol` with everything its callers look at behind it: the
value, where `end` points, and `errno`.
-/

namespace DBServer

open Lib

/-- A string of C: the bytes in front of its terminating zero. -/
structure CString where
  bytes : Bytes
  noZero : 0 ∉ bytes

/-- `s[i]`, up to the terminating zero. -/
def CString.get (s : CString) (i : Nat) : UInt8 := s.bytes.getD i 0

/-- The environment, as `getenv` finds it; `none` is `NULL`. -/
abbrev Getenv := String → Option CString

theorem CString.get_eq_zero {s : CString} {i : Nat} : s.get i = 0 ↔ s.bytes.length ≤ i := by
  unfold CString.get
  constructor
  · intro h
    by_contra hlt
    have hmem : s.bytes.getD i 0 ∈ s.bytes := by
      rw [List.getD_eq_getElem _ _ (by omega)]
      exact List.getElem_mem _
    exact s.noZero (h ▸ hmem)
  · exact List.getD_eq_default _ _

theorem CString.get_zero_ne {s : CString} (h : s.bytes ≠ []) : s.get 0 ≠ 0 := by
  rw [Ne, CString.get_eq_zero]
  simpa using h

/-! ## `strtol` -/

/-- The signs. -/
def signOf (b : UInt8) : Option Int :=
  if b = 45 then some (-1) else if b = 43 then some 1 else none

/-- The decimal numerals of the C locale. -/
def cDecimal : Script UInt8 where
  isSpace := isSpace
  sign := signOf
  isDigit := isDigit
  digit b := b.toNat - 48
  base := 10
  sign_of_space := by decide +kernel
  space_of_digit := by decide +kernel
  sign_of_digit := by decide +kernel

/-- `LONG_MIN`. -/
def longMin : Int := -(2 ^ 63)

/-- `LONG_MAX`. -/
def longMax : Int := 2 ^ 63 - 1

/-- What `strtol(s, &end, 10)` leaves. -/
structure Strtol where
  value : Int
  /-- `end - s`. -/
  stop : Nat
  /-- Whether `errno` has become `ERANGE`; it is left alone otherwise. -/
  erange : Bool
deriving DecidableEq, Repr

/-- `strtol(s, &end, 10)`. -/
def strtolEnd (s : Bytes) : Strtol :=
  let n := cDecimal.scan s
  let v := max longMin (min longMax n.value)
  ⟨v, n.stop, v != n.value⟩

/-- **A numeral is read to its end, and saturates.** -/
theorem strtolEnd_of_numeral {s : Bytes} {v : Int} (h : cDecimal.Numeral s v) :
    strtolEnd s = ⟨max longMin (min longMax v), s.length, max longMin (min longMax v) != v⟩ := by
  simp only [strtolEnd, h.scan_eq]

/-- **A string that is read to its end is a numeral.** -/
theorem numeral_of_strtolEnd {s : CString} (hne : s.bytes ≠ [])
    (hend : s.get (strtolEnd s.bytes).stop = 0) : ∃ v, cDecimal.Numeral s.bytes v := by
  refine ⟨_, cDecimal.numeral_of_scan hne (le_antisymm (cDecimal.scan_stop_le s.bytes) ?_)⟩
  exact CString.get_eq_zero.mp hend

end DBServer
