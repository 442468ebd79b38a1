import TgosKits.MemorySet.GapIndex
import Mathlib.Order.Bounds.Basic

/-! # First-fit search -/

namespace TgosKits

open GapTree

/-- A search for `size` addresses from `lower` on and below `upper`. -/
structure GapSearch where
  lower : Nat
  upper : Nat
  size : Nat
  align : Nat
  deriving DecidableEq, Repr

namespace GapSearch

def new (lower upper size align : Nat) : Option GapSearch :=
  if size = 0 ∨ ¬ align.isPowerOfTwo ∨ size % align ≠ 0 then
    none
  else
    match checkedAdd lower size with
    | none => none
    | some stop =>
      if upper < stop then none else some ⟨lower, upper, size, align⟩

def inGap (search : GapSearch) (range : AddrRange) : Option Nat :=
  match checkedAdd (max range.start search.lower) (search.align - 1) with
  | none => none
  | some raised =>
    match checkedAdd (alignDown raised search.align) search.size with
    | none => none
    | some stop =>
      if stop ≤ min range.stop search.upper then
        some (alignDown raised search.align)
      else
        none

def inTree (search : GapSearch) : GapTree → Option Nat
  | .nil => none
  | .node range left right _ maxLength =>
    if maxLength < search.size then
      none
    else if range.stop ≤ search.lower then
      inTree search right
    else if search.upper ≤ range.start then
      inTree search left
    else
      ((inTree search left).or (search.inGap range)).or (inTree search right)

end GapSearch

/-- The first fit in the tree, or else in the implicit tail. -/
def GapIndex.find (index : GapIndex) (lower upper size align : Nat) : Option Nat :=
  match GapSearch.new lower upper size align with
  | none => none
  | some search =>
    (search.inTree index.root).or (search.inGap ⟨index.tailStart, usizeMax⟩)

namespace GapSearch

variable {left right : GapTree} {maxLength height : Nat}

/-- The answer is the least number of a kind, or there is none. -/
def Finds (fits : Nat → Prop) : Option Nat → Prop
  | some start => IsLeast {address | fits address} start
  | none => ∀ start, ¬ fits start

theorem Finds.or {first second : Nat → Prop} {one two : Option Nat} (findsFirst : Finds first one)
    (findsSecond : Finds second two) (before : ∀ low high, first low → second high → low ≤ high) :
    Finds (fun start => first start ∨ second start) (one.or two) := by
  cases one with
  | some low =>
    refine ⟨.inl findsFirst.1, ?_⟩
    rintro start (inFirst | inSecond)
    · exact findsFirst.2 inFirst
    · exact before low start findsFirst.1 inSecond
  | none =>
    have same : (fun start => first start ∨ second start) = second := by
      funext start
      simp [findsFirst start]
    rw [same]
    exact findsSecond

theorem Finds.congr {fits others : Nat → Prop} {answer : Option Nat} (finds : Finds fits answer)
    (same : ∀ start, others start ↔ fits start) : Finds others answer := by
  have equal : others = fits := funext fun start => propext (same start)
  exact equal ▸ finds

structure Valid (search : GapSearch) : Prop where
  positive : 0 < search.size
  powerOfTwo : search.align.isPowerOfTwo
  multiple : search.align ∣ search.size
  bounded : search.lower + search.size ≤ usizeMax
  room : search.lower + search.size ≤ search.upper

theorem new_eq_some_iff {lower upper size align : Nat} {search : GapSearch} :
    new lower upper size align = some search ↔ search = ⟨lower, upper, size, align⟩ ∧
        Valid ⟨lower, upper, size, align⟩ := by
  unfold new
  split_ifs with refused
  · simp only [false_iff, not_and]
    intro _ valid
    rcases refused with empty | notPower | notMultiple
    · exact absurd empty (pos_iff_ne_zero.mp valid.positive)
    · exact notPower valid.powerOfTwo
    · exact notMultiple (Nat.mod_eq_zero_of_dvd valid.multiple)
  · have accepted : size ≠ 0 ∧ align.isPowerOfTwo ∧ size % align = 0 := by
      simpa only [not_or, not_not] using refused
    obtain ⟨nonzero, power, divides⟩ := accepted
    cases sum : checkedAdd lower size with
    | none =>
      simp only [reduceCtorEq, false_iff, not_and]
      intro _ valid
      exact absurd valid.bounded (not_le.mpr (checkedAdd_eq_none_iff.mp sum))
    | some stop =>
      obtain ⟨rfl, fits⟩ := checkedAdd_eq_some_iff.mp sum
      simp only
      split_ifs with short
      · simp only [false_iff, not_and]
        intro _ valid
        have := valid.room
        simp only at this
        omega
      · constructor
        · intro made
          cases made
          exact ⟨rfl, pos_of_ne_zero nonzero, power,
            Nat.dvd_of_mod_eq_zero divides, fits, Nat.not_lt.mp short⟩
        · intro made
          rw [made.1]

def Fits (search : GapSearch) (range : AddrRange) (start : Nat) : Prop :=
  search.align ∣ start ∧ search.lower ≤ start ∧ start + search.size ≤ search.upper ∧
    range.start ≤ start ∧ start + search.size ≤ range.stop

variable {search : GapSearch}

variable {range : AddrRange}

/-- Within one gap, rounding the lower bound up finds the first fit.  The
intermediate sums cannot overflow when something fits, because the size is a
multiple of the alignment. -/
theorem inGap_finds (valid : Valid search) (bounded : range.stop ≤ usizeMax) :
    Finds (search.Fits range) (search.inGap range) := by
  have alignPos := Nat.pos_of_isPowerOfTwo valid.powerOfTwo
  have alignSize := Nat.le_of_dvd valid.positive valid.multiple
  have sizeBound := valid.bounded
  unfold inGap
  cases raisedSum : checkedAdd (max range.start search.lower) (search.align - 1) with
  | none =>
    intro start fits
    obtain ⟨-, lowerLe, -, startLe, stopLe⟩ := fits
    have overflow := checkedAdd_eq_none_iff.mp raisedSum
    omega
  | some raised =>
    obtain ⟨rfl, raisedBound⟩ := checkedAdd_eq_some_iff.mp raisedSum
    have rounded := alignDown_eq raisedBound valid.powerOfTwo (by omega)
    have least : ∀ start, search.Fits range start →
        alignDown (max range.start search.lower + (search.align - 1)) search.align ≤ start := by
      intro start fits
      rw [rounded]
      exact BitMask.round_up_least alignPos (Nat.max_le.mpr ⟨fits.2.2.2.1, fits.2.1⟩) fits.1
    have above : max range.start search.lower ≤ _ := BitMask.round_up_ge alignPos
    have aligned := Nat.dvd_sub_mod (n := search.align)
      (max range.start search.lower + (search.align - 1))
    rw [← rounded] at above aligned
    simp only
    cases stopSum : checkedAdd (alignDown
        (max range.start search.lower + (search.align - 1)) search.align)
        search.size with
    | none =>
      intro start fits
      have low := least start fits
      have overflow := checkedAdd_eq_none_iff.mp stopSum
      have stopLe := fits.2.2.2.2
      omega
    | some stop =>
      obtain ⟨rfl, stopBound⟩ := checkedAdd_eq_some_iff.mp stopSum
      simp only
      split_ifs with inside
      · refine ⟨⟨aligned, ?_, ?_, ?_, ?_⟩, fun start fits =>
          least start fits⟩ <;> omega
      intro start fits
      have low := least start fits
      obtain ⟨-, -, upperLe, -, stopLe⟩ := fits
      omega

def FitsTree (search : GapSearch) (tree : GapTree) (start : Nat) : Prop :=
  ∃ gap ∈ tree, search.Fits gap start

theorem fitsTree_node {start : Nat} :
    search.FitsTree (.node range left right height maxLength) start ↔
      (search.FitsTree left start ∨ search.Fits range start) ∨ search.FitsTree right start := by
  simp only [FitsTree, AvlTree.mem_node, or_and_right, exists_or, exists_eq_left, or_assoc]

/-- The gaps of a node's left subtree end before it, those of its right subtree
start behind it, and both are gaps again. -/
private theorem gaps_node (gaps : GapIndex.Gaps (.node range left right height maxLength)) :
    GapIndex.Gaps left ∧ GapIndex.Gaps right ∧ (∀ gap ∈ left, gap.stop < range.start) ∧
      (∀ gap ∈ right, range.stop < gap.start) := by
  obtain ⟨ordered, ⟨balancedLeft, balancedRight, -⟩, nonempty, apart⟩ := gaps
  obtain ⟨leftBelow, rightAbove, leftOrdered, rightOrdered⟩ := ordered_node.mp ordered
  have inLeft : ∀ gap ∈ left, gap ∈ AvlTree.node range left right height maxLength :=
    fun gap member => AvlTree.mem_node.mpr (.inl member)
  have atRoot : range ∈ AvlTree.node range left right height maxLength :=
    AvlTree.mem_node.mpr (.inr (.inl rfl))
  have inRight : ∀ gap ∈ right, gap ∈ AvlTree.node range left right height maxLength :=
    fun gap member => AvlTree.mem_node.mpr (.inr (.inr member))
  refine ⟨⟨leftOrdered, balancedLeft, ?_, ?_⟩, ⟨rightOrdered, balancedRight, ?_, ?_⟩, ?_, ?_⟩
  · exact fun gap member => nonempty gap (inLeft gap member)
  · exact fun first one second two =>
      apart first (inLeft first one) second (inLeft second two)
  · exact fun gap member => nonempty gap (inRight gap member)
  · exact fun first one second two =>
      apart first (inRight first one) second (inRight second two)
  · exact fun gap member => apart gap (inLeft gap member) range atRoot (leftBelow gap member)
  · exact fun gap member => apart range atRoot gap (inRight gap member) (rightAbove gap member)

/-- Neither the subtree pruning nor the two cut-offs skip a fit. -/
private theorem inTree_finds (valid : Valid search) {tree : GapTree} (gaps : GapIndex.Gaps tree)
    (bounded : ∀ gap ∈ tree, gap.stop ≤ usizeMax) :
    Finds (search.FitsTree tree) (search.inTree tree) := by
  have positive := valid.positive
  induction tree with
  | nil =>
    rintro start ⟨gap, member, -⟩
    exact absurd member AvlTree.not_mem_nil
  | node range left right height maxLength leftIh rightIh =>
    obtain ⟨leftGaps, rightGaps, leftBefore, rightBehind⟩ := gaps_node gaps
    simp only [AvlTree.mem_node] at bounded
    have rangeNonempty := gaps.nonempty range (AvlTree.mem_node.mpr (.inr (.inl rfl)))
    have leftFinds := leftIh leftGaps (fun gap member => bounded gap (.inl member))
    have rightFinds := rightIh rightGaps (fun gap member => bounded gap (.inr (.inr member)))
    have rangeFinds := inGap_finds valid (bounded range (.inr (.inl rfl)))
    simp only [inTree]
    split_ifs with tooShort endsEarly startsLate
    · rintro start ⟨gap, member, -, -, -, above, within⟩
      have longest : _ ≤ maxLength := length_le_summary gaps.balanced member
      omega
    · refine rightFinds.congr (fun start => ?_)
      rw [fitsTree_node]
      constructor
      · rintro ((⟨gap, member, -, _, -, -, _⟩ | ⟨-, _, -, -, _⟩) | inRight)
        · have before := leftBefore gap member
          omega
        · omega
        · exact inRight
      · exact .inr
    · refine leftFinds.congr (fun start => ?_)
      rw [fitsTree_node]
      constructor
      · rintro ((inLeft | ⟨-, -, _, _, -⟩) | ⟨gap, member, -, -, _, _, -⟩)
        · exact inLeft
        · omega
        · have behind := rightBehind gap member
          omega
      · exact fun inLeft => .inl (.inl inLeft)
    · refine .congr ((leftFinds.or rangeFinds ?_).or rightFinds ?_) (fun start => fitsTree_node)
      · rintro low high ⟨gap, member, -, -, -, -, within⟩ ⟨-, -, -, above, -⟩
        have before := leftBefore gap member
        omega
      · rintro low high early ⟨gap, member, -, -, -, above, -⟩
        have behind := rightBehind gap member
        rcases early with ⟨other, otherMember, -, -, -, -, within⟩ | ⟨-, -, -, -, within⟩
        · have before := leftBefore other otherMember
          omega
        · omega

end GapSearch

namespace GapIndex

variable {index : GapIndex} {lower upper size align : Nat}

/-- The request as a whole: an aligned start in bounds with only free addresses
behind it. -/
def FitsFree (index : GapIndex) (lower upper size align start : Nat) : Prop :=
  align ∣ start ∧ lower ≤ start ∧ start + size ≤ upper ∧ start + size ≤ usizeMax ∧
    ∀ addr, start ≤ addr → addr < start + size → index.Free addr

/-- First fit: a search with acceptable parameters answers with the least start
that fits. -/
theorem find_finds (wellFormed : WellFormed index)
    (valid : GapSearch.Valid ⟨lower, upper, size, align⟩) :
    GapSearch.Finds (index.FitsFree lower upper size align)
      (index.find lower upper size align) := by
  have made : GapSearch.new lower upper size align = some ⟨lower, upper, size, align⟩ :=
    GapSearch.new_eq_some_iff.mpr ⟨rfl, valid⟩
  have positive : 0 < size := valid.positive
  have treeFinds := GapSearch.inTree_finds valid wellFormed.gaps (fun gap member =>
      (wellFormed.belowTail gap member).le.trans wellFormed.bounded)
  have tailFinds := GapSearch.inGap_finds valid
    (show (⟨index.tailStart, usizeMax⟩ : AddrRange).stop ≤ usizeMax from le_rfl)
  unfold find
  rw [made]
  refine (treeFinds.or tailFinds ?_).congr (fun start => ?_)
  · rintro low high ⟨gap, member, -, -, -, -, within⟩ ⟨-, -, -, above, -⟩
    have below := wellFormed.belowTail gap member
    simp only at above
    omega
  · constructor
    · rintro ⟨aligned, lowerLe, upperLe, bounded, free⟩
      rcases wellFormed.gap_of_free (by omega) free with ⟨gap, member, above, within⟩ | inTail
      · exact .inl ⟨gap, member, aligned, lowerLe, upperLe, above, within⟩
      · exact .inr ⟨aligned, lowerLe, upperLe, inTail, bounded⟩
    · rintro (⟨gap, member, aligned, lowerLe, upperLe, above, within⟩ |
        ⟨aligned, lowerLe, upperLe, above, within⟩)
      · have below := wellFormed.belowTail gap member
        have tailBound := wellFormed.bounded
        refine ⟨aligned, lowerLe, upperLe, ?_, ?_⟩
        · exact within.trans (below.le.trans tailBound)
        · intro addr low high
          exact .inl ⟨gap, member, above.trans low, high.trans_le within⟩
      · refine ⟨aligned, lowerLe, upperLe, within, ?_⟩
        intro addr low high
        exact .inr (above.trans low)

theorem find_eq_none (refused : ¬ GapSearch.Valid ⟨lower, upper, size, align⟩) :
    index.find lower upper size align = none := by
  unfold find
  cases made : GapSearch.new lower upper size align with
  | none => rfl
  | some search =>
    exact absurd (GapSearch.new_eq_some_iff.mp made).2 refused

end GapIndex

end TgosKits
