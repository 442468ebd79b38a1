import Mathlib.Algebra.Group.Nat.Defs
import Mathlib.Algebra.Ring.Int.Defs
import Mathlib.Data.List.Basic

/-! # Wrapping time -/

namespace WrappingTime

open BitVec

variable {width : Nat} {base value reference : BitVec width} {length : Nat}
  {values : List (BitVec width)}

/-- The distance of a point from the beginning of a window. -/
def offset (base value : BitVec width) : Nat := (value - base).toNat

/-- All points lie in a window of the given length from `base` on. -/
def Within (base : BitVec width) (length : Nat) (values : List (BitVec width)) : Prop :=
  ∀ value ∈ values, offset base value < length

instance : Decidable (Within base length values) := List.decidableBAll _ values

/-- All points lie in some window of the given length. -/
def InWindow (length : Nat) (values : List (BitVec width)) : Prop :=
  ∃ base, Within base length values

theorem Within.subset {values' : List (BitVec width)}
    (within : Within base length values) (subset : values' ⊆ values) : Within base length values' :=
  fun value member => within value (subset member)

theorem offset_inj : offset base value = offset base reference ↔ value = reference := by
  unfold offset
  rw [← toNat_eq]
  constructor
  · intro same
    have shifted := congrArg (· + base) same
    simpa using shifted
  · rintro rfl
    rfl

theorem toInt_sub_eq (near : 2 * offset base value < 2 ^ width)
    (nearReference : 2 * offset base reference < 2 ^ width) :
    (value - reference).toInt = (offset base value : Int) - offset base reference := by
  have shifted : value - reference = (value - base) - (reference - base) := by
    grind
  unfold offset at near nearReference ⊢
  rw [shifted, toInt_sub, toInt_eq_toNat_of_lt near, toInt_eq_toNat_of_lt nearReference]
  apply Int.bmod_eq_of_le
  · omega
  · omega

theorem offset_add_ofInt {delta : Int} (lower : 0 ≤ (offset base value : Int) + delta)
    (upper : (offset base value : Int) + delta < 2 ^ width) :
    (offset base (value + .ofInt width delta) : Int) = offset base value + delta := by
  have shifted : value + .ofInt width delta - base = (value - base) + .ofInt width delta :=
    BitVec.add_sub_comm
  unfold offset at lower upper ⊢
  have joined : (value - base) + .ofInt width delta =
      .ofInt width ((value - base).toNat + delta) := by
    rw [ofInt_add, ofInt_natCast, ofNat_toNat, setWidth_eq]
  rw [shifted, joined, toNat_ofInt, Int.emod_eq_of_lt lower (by push_cast; exact upper),
    Int.toNat_of_nonneg lower]

end WrappingTime
