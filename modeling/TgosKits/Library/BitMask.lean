import Mathlib.Data.Nat.Bitwise
import Mathlib.Tactic.Ring

/-! # Power-of-two masks -/

namespace BitMask

/-- Masking with the complement of the `bits` low ones in a word of `width`
bits drops the remainder modulo `2 ^ bits`. -/
theorem land_high_mask {width bits value : Nat} (fits : bits ≤ width)
    (bounded : value < 2 ^ width) :
    value &&& (2 ^ width - 1 - (2 ^ bits - 1)) = value - value % 2 ^ bits := by
  have smaller : 2 ^ bits ≤ 2 ^ width := Nat.pow_le_pow_right (by omega) fits
  have rounded : value - value % 2 ^ bits = 2 ^ bits * (value / 2 ^ bits) := by
    have split := Nat.div_add_mod value (2 ^ bits)
    omega
  have complement : 2 ^ width - 1 - (2 ^ bits - 1) = 2 ^ width - (2 ^ bits - 1 + 1) := by
    omega
  rw [rounded, complement]
  apply Nat.eq_of_testBit_eq
  intro index
  rw [Nat.testBit_and, Nat.testBit_two_pow_sub_succ (by omega),
    Nat.testBit_two_pow_sub_one, Nat.testBit_two_pow_mul,
    Nat.testBit_div_two_pow]
  by_cases low : index < bits
  · simp [low, Nat.not_le.mpr low]
  have high : bits ≤ index := Nat.not_lt.mp low
  by_cases inside : index < width
  · simp [low, high, inside, Nat.sub_add_cancel high]
  · have cleared : value.testBit index = false := Nat.testBit_lt_two_pow <|
        bounded.trans_le <| Nat.pow_le_pow_right (by omega) (Nat.not_lt.mp inside)
    simp [cleared, Nat.sub_add_cancel high]

theorem round_up_least {align value multiple : Nat} (positive : 0 < align)
    (above : value ≤ multiple) (aligned : align ∣ multiple) :
    (value + (align - 1)) - (value + (align - 1)) % align ≤ multiple := by
  obtain ⟨quotient, rfl⟩ := aligned
  have split := Nat.div_add_mod (value + (align - 1)) align
  have bound : (value + (align - 1)) / align ≤ quotient := by
    apply Nat.le_of_lt_succ
    apply (Nat.div_lt_iff_lt_mul positive).mpr
    rw [Nat.succ_mul, Nat.mul_comm quotient align]
    omega
  have scaled := Nat.mul_le_mul_left align bound
  omega

theorem round_up_ge {align value : Nat} (positive : 0 < align) :
    value ≤ (value + (align - 1)) - (value + (align - 1)) % align := by
  have remainder := Nat.mod_lt (value + (align - 1)) positive
  omega

end BitMask
