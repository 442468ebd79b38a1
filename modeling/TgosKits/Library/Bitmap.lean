import Mathlib.Data.Finset.Card
import Mathlib.Data.Nat.Bitwise

/-! # Bitmaps -/

namespace Bitmap

open Function Finset BitVec

variable {width : Nat} (words : Nat → BitVec width)

def get (index : Nat) : Bool :=
  (words (index / width)).getLsbD (index % width)

def set (index : Nat) : Nat → BitVec width :=
  update words (index / width) (words (index / width) ||| twoPow width (index % width))

def clear (index : Nat) : Nat → BitVec width :=
  update words (index / width) (words (index / width) &&& ~~~ twoPow width (index % width))

/-- The place of the lowest set bit of a word, its width if there is none. -/
def trailingZeros (word : BitVec width) : Nat :=
  ((List.range width).find? (fun place => word.getLsbD place)).getD width

/-- The lowest index that is set. -/
def firstSet (count : Nat) (words : Nat → BitVec width) : Option Nat :=
  ((List.range count).find? (fun word => words word ≠ 0)).map
    (fun word => word * width + trailingZeros (words word))

/-- The first `count` bits are set. -/
def fill (count : Nat) : Nat → BitVec width := fun word =>
    if word < count / width then allOnes width
    else if word = count / width then BitVec.ofNat width (2 ^ (count % width) - 1)
    else 0

/-- How many bits below `limit` are set. -/
def ones (limit : Nat) (words : Nat → BitVec width) : Nat :=
  ((range limit).filter (fun index => get words index)).card

variable {words : Nat → BitVec width} {index other count limit : Nat}

/-! ## Single bits -/

theorem place_eq_iff (sameWord : other / width = index / width) :
    index % width = other % width ↔ other = index := by
  constructor
  · intro samePlace
    rw [← Nat.div_add_mod index width, ← Nat.div_add_mod other width, sameWord, samePlace]
  · rintro rfl
    rfl

section

variable (positive : 0 < width)
include positive

theorem get_set : get (set words index) other = (get words other || decide (other = index)) := by
  unfold get set
  by_cases sameWord : other / width = index / width
  · rw [sameWord, update_self, getLsbD_or, getLsbD_twoPow]
    congr 1
    have inside : index % width < width := Nat.mod_lt _ positive
    simp [inside, place_eq_iff sameWord]
  · have different : other ≠ index := fun same => sameWord (by rw [same])
    rw [update_of_ne sameWord]
    simp [different]

theorem get_clear : get (clear words index) other =
      (get words other && decide (other ≠ index)) := by
  unfold get clear
  by_cases sameWord : other / width = index / width
  · rw [sameWord, update_self, getLsbD_and, getLsbD_not, getLsbD_twoPow]
    congr 1
    have inside : index % width < width := Nat.mod_lt _ positive
    have otherInside : other % width < width := Nat.mod_lt _ positive
    simp [inside, otherInside, place_eq_iff sameWord]
  · have different : other ≠ index := fun same => sameWord (by rw [same])
    rw [update_of_ne sameWord]
    simp [different]

theorem get_fill : get (fill count : Nat → BitVec width) index = decide (index < count) := by
  unfold get fill
  have place : index % width < width := Nat.mod_lt _ positive
  have split := Nat.div_add_mod index width
  have countSplit := Nat.div_add_mod count width
  have countPlace : count % width < width := Nat.mod_lt _ positive
  by_cases below : index / width < count / width
  · have scaled : width * (index / width + 1) ≤ width * (count / width) :=
      Nat.mul_le_mul_left width below
    rw [Nat.mul_add] at scaled
    have inside : index < count := by omega
    simp [below, place, inside]
  · by_cases equal : index / width = count / width
    · have iff : index < count ↔ index % width < count % width := by
        rw [equal] at split
        omega
      rw [if_neg below, if_pos equal, getLsbD_ofNat, Nat.testBit_two_pow_sub_one]
      simp [place, iff]
    · have scaled : width * (count / width + 1) ≤ width * (index / width) :=
        Nat.mul_le_mul_left width (by omega)
      rw [Nat.mul_add] at scaled
      have outside : ¬ index < count := by omega
      simp [below, equal, outside]

end

/-! ## Searching -/

private theorem getLsbD_trailingZeros {word : BitVec width} (nonzero : word ≠ 0) :
    trailingZeros word < width ∧ word.getLsbD (trailingZeros word) = true := by
  unfold trailingZeros
  cases found : (List.range width).find? (fun place => word.getLsbD place) with
  | none =>
    exfalso
    apply nonzero
    apply eq_of_getLsbD_eq
    intro place inside
    have clear := List.find?_eq_none.mp found place (List.mem_range.mpr inside)
    simpa using clear
  | some place =>
    refine ⟨List.mem_range.mp (List.mem_of_find?_eq_some found), ?_⟩
    simpa using List.find?_some found

theorem firstSet_some (found : firstSet count words = some index) :
    index < count * width ∧ get words index = true := by
  obtain ⟨word, wordFound, rfl⟩ := Option.map_eq_some_iff.mp found
  have inside := List.mem_range.mp (List.mem_of_find?_eq_some wordFound)
  have nonzero : words word ≠ 0 := by simpa using List.find?_some wordFound
  obtain ⟨place, bit⟩ := getLsbD_trailingZeros nonzero
  have scaled : (word + 1) * width ≤ count * width := Nat.mul_le_mul_right width inside
  rw [Nat.succ_mul] at scaled
  refine ⟨by omega, ?_⟩
  unfold get
  rw [Nat.mul_comm, Nat.mul_add_div (by omega), Nat.mul_add_mod,
    Nat.div_eq_of_lt place, Nat.mod_eq_of_lt place]
  exact bit

/-! ## Counting -/

theorem ones_set (positive : 0 < width) (inside : index < limit) (unset : get words index = false) :
    ones limit (set words index) = ones limit words + 1 := by
  unfold ones
  have grown : (range limit).filter (fun other => get (set words index) other) =
      insert index ((range limit).filter (fun other => get words other)) := by
    ext other
    simp only [mem_filter, mem_range, mem_insert,
      get_set positive, Bool.or_eq_true, decide_eq_true_eq]
    by_cases same : other = index
    · simp [same, inside]
    · simp [same]
  rw [grown, card_insert_of_notMem]
  simp [unset]

theorem ones_clear (positive : 0 < width) (inside : index < limit)
    (isSet : get words index = true) : ones limit (clear words index) + 1 = ones limit words := by
  unfold ones
  have shrunk : (range limit).filter (fun other => get (clear words index) other) =
      ((range limit).filter (fun other => get words other)).erase index := by
    ext other
    simp only [mem_filter, mem_range, mem_erase,
      get_clear positive, Bool.and_eq_true, decide_eq_true_eq]
    tauto
  rw [shrunk]
  apply card_erase_add_one
  simp [inside, isSet]

theorem ones_fill (positive : 0 < width) (small : count ≤ limit) :
    ones limit (fill count : Nat → BitVec width) = count := by
  unfold ones
  have low : (range limit).filter (fun other => get (fill count : Nat → BitVec width) other) =
      range count := by
    ext other
    simp only [mem_filter, mem_range, get_fill positive, decide_eq_true_eq]
    omega
  rw [low, card_range]

theorem ones_eq_zero : ones limit words = 0 ↔ ∀ index < limit, get words index = false := by
  unfold ones
  rw [card_eq_zero, filter_eq_empty_iff]
  simp

theorem get_of_ones_eq (within : ∀ index, get words index = true → index < count)
    (full : ones limit words = count) (inside : index < count) : get words index = true := by
  have subset : (range limit).filter (fun other => get words other) ⊆ range count := by
    intro other member
    exact mem_range.mpr (within other (mem_filter.mp member).2)
  have equal := eq_of_subset_of_card_le subset (by rw [card_range]; exact full.ge)
  have member := mem_range.mpr inside
  rw [← equal] at member
  exact (mem_filter.mp member).2

end Bitmap
