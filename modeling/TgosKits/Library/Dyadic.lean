import Mathlib.Data.Nat.Bitwise
import Mathlib.Data.Set.Lattice
import Mathlib.Order.CompletePartialOrder
import Mathlib.Tactic.Ring

/-!
# Dyadic blocks and their tilings

A dyadic block has a power of two as its size and a multiple of its size as its start.
-/

namespace DyadicTiling

open Set

/-- `2 ^ order` points from `start` on. -/
structure Block where
  start : Nat
  order : Nat
  deriving DecidableEq, Repr

namespace Block

def size (block : Block) : Nat := 2 ^ block.order

def Aligned (block : Block) : Prop := 2 ^ block.order ∣ block.start

def Covers (block : Block) (point : Nat) : Prop :=
  block.start ≤ point ∧ point < block.start + block.size

/-- The block that completes `block` to a block of the next order. -/
def buddy (block : Block) : Block := ⟨block.start ^^^ 2 ^ block.order, block.order⟩

def parent (block : Block) : Block := ⟨min block.start block.buddy.start, block.order + 1⟩

def lower (start order : Nat) : Block := ⟨start, order⟩

def upper (start order : Nat) : Block := ⟨start + 2 ^ order, order⟩

variable {block other : Block} {point : Nat}

theorem size_pos (block : Block) : 0 < block.size := Nat.two_pow_pos block.order

theorem covers_start (block : Block) : block.Covers block.start :=
  ⟨le_rfl, Nat.lt_add_of_pos_right block.size_pos⟩

theorem Aligned.covers_iff (aligned : block.Aligned) : block.Covers point ↔
      point / 2 ^ block.order = block.start / 2 ^ block.order := by
  obtain ⟨index, startEq⟩ := aligned
  have positive : 0 < 2 ^ block.order := Nat.two_pow_pos _
  rw [Covers, size, startEq, Nat.mul_div_cancel_left _ positive, Nat.div_eq_iff positive,
    mul_comm index]
  omega

section

variable (aligned : block.Aligned) (covered : block.Covers point)
include aligned covered

theorem Aligned.nested (otherAligned : other.Aligned)
    (order : block.order ≤ other.order) (otherCovered : other.Covers point)
    {further : Nat} (inside : block.Covers further) : other.Covers further := by
  rw [aligned.covers_iff] at covered inside
  rw [otherAligned.covers_iff] at otherCovered ⊢
  have split : 2 ^ other.order = 2 ^ block.order * 2 ^ (other.order - block.order) := by
    rw [← pow_add, Nat.add_sub_cancel' order]
  have quotient : further / 2 ^ other.order = point / 2 ^ other.order := by
    rw [split, ← Nat.div_div_eq_div_mul, ← Nat.div_div_eq_div_mul, inside, covered]
  exact quotient.trans otherCovered

theorem Aligned.start_eq (divides : 2 ^ block.order ∣ point) : block.start = point := by
  rw [aligned.covers_iff] at covered
  rw [← Nat.div_mul_cancel aligned, ← Nat.div_mul_cancel divides, covered]

theorem Aligned.eq_of_order (otherAligned : other.Aligned)
    (order : block.order = other.order) (otherCovered : other.Covers point) : block = other := by
  rw [aligned.covers_iff] at covered
  rw [otherAligned.covers_iff, ← order] at otherCovered
  have startEq : block.start = other.start := by
    rw [← Nat.div_mul_cancel aligned, ← Nat.div_mul_cancel (show 2 ^ block.order ∣ other.start from
        order ▸ otherAligned), ← covered, otherCovered]
  cases block
  simp only at order startEq
  rw [order, startEq]

end

/-! ## Buddies -/

private theorem xor_one (index : Nat) : index ^^^ 1 = 2 * (index / 2) + (index + 1) % 2 := by
  have quotient : (index ^^^ 1) / 2 = index / 2 := by
    rw [Nat.xor_div_two]
    simp
  have remainder : (index ^^^ 1) % 2 = (index + 1) % 2 := Nat.xor_mod_two_eq
  have division := Nat.div_add_mod (index ^^^ 1) 2
  rw [quotient, remainder] at division
  exact division.symm

/-- The buddy lies right behind or right before the block, and the parent starts
with the first of the two. -/
theorem Aligned.buddy_start (aligned : block.Aligned) : (2 ^ (block.order + 1) ∣ block.start ∧
        block.buddy.start = block.start + block.size) ∨
      (2 ^ (block.order + 1) ∣ block.buddy.start ∧
        block.start = block.buddy.start + block.size) := by
  obtain ⟨index, startEq⟩ := aligned
  have buddyEq : block.buddy.start = 2 ^ block.order * (index ^^^ 1) := by
    have shifted : (index ^^^ 1) <<< block.order = index <<< block.order ^^^ 1 <<< block.order :=
      Nat.shiftLeft_xor_distrib
    simp only [Nat.shiftLeft_eq, Nat.one_mul] at shifted
    rw [buddy, startEq, mul_comm _ (index ^^^ 1), shifted, mul_comm index]
  rw [xor_one] at buddyEq
  have doubled : 2 ^ (block.order + 1) * (index / 2) = 2 ^ block.order * (2 * (index / 2)) := by
    rw [pow_succ, mul_assoc]
  rcases Nat.mod_two_eq_zero_or_one index with even | odd
  · left
    have indexEq : 2 * (index / 2) = index := by omega
    refine ⟨⟨index / 2, ?_⟩, ?_⟩
    · rw [doubled, indexEq, startEq]
    · rw [buddyEq, startEq, size, indexEq, show (index + 1) % 2 = 1 by omega, mul_add, mul_one]
  · right
    have indexEq : 2 * (index / 2) + 1 = index := by omega
    rw [show (index + 1) % 2 = 0 by omega, add_zero] at buddyEq
    refine ⟨⟨index / 2, ?_⟩, ?_⟩
    · rw [doubled, buddyEq]
    · rw [buddyEq, startEq, size]
      nth_rewrite 1 [← indexEq]
      rw [mul_add, mul_one]

theorem size_buddy (block : Block) : block.buddy.size = block.size := rfl

private theorem size_parent (block : Block) : block.parent.size = 2 * block.size := by
  simp only [size, parent, pow_succ]
  ring

theorem buddy_buddy (block : Block) : block.buddy.buddy = block := by
  simp [buddy]

theorem buddy_ne (block : Block) : block.buddy ≠ block := by
  intro equal
  have same : block.start ^^^ 2 ^ block.order = block.start := congrArg start equal
  have zero : 2 ^ block.order = 0 := by
    have cancelled := congrArg (block.start ^^^ ·) same
    simpa only [← Nat.xor_assoc, Nat.xor_self, Nat.zero_xor] using cancelled
  exact absurd zero (Nat.two_pow_pos _).ne'

section

variable (aligned : block.Aligned)
include aligned

theorem Aligned.buddy : block.buddy.Aligned := by
  have twice : 2 ^ block.order ∣ 2 ^ (block.order + 1) := pow_dvd_pow 2 (Nat.le_succ _)
  rcases aligned.buddy_start with ⟨-, startEq⟩ | ⟨divides, -⟩
  · unfold Aligned
    rw [startEq]
    exact Nat.dvd_add aligned (dvd_refl _)
  · exact twice.trans divides

theorem Aligned.parent : block.parent.Aligned := by
  change 2 ^ (block.order + 1) ∣ min block.start block.buddy.start
  rcases aligned.buddy_start with ⟨divides, startEq⟩ | ⟨divides, startEq⟩
  · rw [min_eq_left (by omega)]
    exact divides
  · rw [min_eq_right (by omega)]
    exact divides

theorem Aligned.covers_parent :
    block.parent.Covers point ↔ block.Covers point ∨ block.buddy.Covers point := by
  have parentSize := block.size_parent
  have buddySize := block.size_buddy
  have parentStart : block.parent.start = min block.start block.buddy.start := rfl
  unfold Covers
  rcases aligned.buddy_start with ⟨-, startEq⟩ | ⟨-, startEq⟩ <;> omega

end

/-! ## Halves -/

theorem buddy_lower {start order : Nat} (divides : 2 ^ (order + 1) ∣ start) :
    (lower start order).buddy = upper start order := by
  have aligned : (lower start order).Aligned := (pow_dvd_pow 2 (Nat.le_succ order)).trans divides
  rcases aligned.buddy_start with ⟨-, startEq⟩ | ⟨buddyDivides, startEq⟩
  · simp only [Block.mk.injEq, Block.buddy, upper, lower, and_true]
    exact startEq
  have apart : 2 ^ (order + 1) ∣ 2 ^ order := by
    have sum : start = (lower start order).buddy.start + 2 ^ order := startEq
    exact (Nat.dvd_add_right buddyDivides).mp (sum ▸ divides)
  have bound := Nat.le_of_dvd (Nat.two_pow_pos order) apart
  omega

theorem parent_lower {start order : Nat} (divides : 2 ^ (order + 1) ∣ start) :
    (lower start order).parent = ⟨start, order + 1⟩ := by
  rw [parent, buddy_lower divides]
  simp only [lower, upper, Block.mk.injEq, and_true]
  omega

end Block

/-! ## Tilings -/

/-- The blocks cut the interval `[0, total)` into aligned pieces. -/
structure Tiling (total : Nat) (blocks : Set Block) : Prop where
  aligned : ∀ block ∈ blocks, block.Aligned
  within : ∀ block ∈ blocks, block.start + block.size ≤ total
  covered : ∀ point < total, ∃ block ∈ blocks, block.Covers point
  disjoint : ∀ block ∈ blocks, ∀ other ∈ blocks, ∀ point,
    block.Covers point → other.Covers point → block = other

/-- Below the greatest order no buddy of a block is there too. -/
def Coalesced (greatest : Nat) (blocks : Set Block) : Prop :=
  ∀ block ∈ blocks, block.order < greatest → block.buddy ∉ blocks

namespace Tiling

open Block

variable {total greatest : Nat} {blocks others : Set Block} {block : Block}

theorem buddy_head (tiling : Tiling total blocks) (member : block ∈ blocks)
    (below : block.buddy.start < total) :
    ∃ other ∈ blocks, other.start = block.buddy.start ∧ other.order ≤ block.order := by
  obtain ⟨other, otherMember, covered⟩ := tiling.covered _ below
  have aligned := tiling.aligned block member
  have otherAligned := tiling.aligned other otherMember
  have small : other.order ≤ block.order := by
    by_contra larger
    have nested : other.Covers block.start := aligned.parent.nested
      (aligned.covers_parent.mpr (.inr block.buddy.covers_start)) otherAligned
      (show block.order + 1 ≤ other.order by omega) covered
      (aligned.covers_parent.mpr (.inl block.covers_start))
    obtain rfl := tiling.disjoint block member other otherMember _ block.covers_start nested
    exact larger le_rfl
  refine ⟨other, otherMember, ?_, small⟩
  exact otherAligned.start_eq covered ((pow_dvd_pow 2 small).trans aligned.buddy)

/-- In a coalesced tiling, a block that meets an admissible block is at least as
large: a smaller one inside it would have a buddy that is in the tiling. -/
theorem order_le (tiling : Tiling total blocks) (coalesced : Coalesced greatest blocks)
    (aligned : block.Aligned) (capped : block.order ≤ greatest)
    (within : block.start + block.size ≤ total) {other : Block} (member : other ∈ blocks)
    {point : Nat} (covered : block.Covers point) (otherCovered : other.Covers point) :
    block.order ≤ other.order := by
  by_contra smaller
  have strictlySmaller : other.order < block.order := by omega
  -- No member inside the block has an order below that of the block.
  have noneInside : ∀ order < block.order, ∀ inner ∈ blocks,
      inner.order = order → ∀ point, block.Covers point → ¬ inner.Covers point := by
    intro order
    induction order using Nat.strong_induction_on with
    | h order ih =>
      intro below inner innerMember orderEq point covered innerCovered
      have innerAligned := tiling.aligned inner innerMember
      have buddyInside : block.Covers inner.buddy.start := innerAligned.parent.nested
        (innerAligned.covers_parent.mpr (.inl innerCovered)) aligned
        (show inner.order + 1 ≤ block.order by omega) covered
        (innerAligned.covers_parent.mpr (.inr inner.buddy.covers_start))
      have buddyBelow : inner.buddy.start < total := by
        have := buddyInside.2
        omega
      obtain ⟨second, secondMember, startEq, orderLe⟩ := tiling.buddy_head innerMember buddyBelow
      rcases lt_or_eq_of_le orderLe with less | equal
      · exact ih second.order (by omega) (by omega)
          second secondMember rfl inner.buddy.start buddyInside
          (startEq ▸ second.covers_start)
      apply coalesced inner innerMember (by omega)
      have same : second = inner.buddy := by
        cases second
        simp only at startEq equal
        rw [startEq, equal]
        rfl
      exact same ▸ secondMember
  exact noneInside other.order strictlySmaller other member rfl point covered otherCovered

section

variable (tiling : Tiling total blocks) (otherTiling : Tiling total others)
  (coalesced : Coalesced greatest blocks) (otherCoalesced : Coalesced greatest others)
  (capped : ∀ block ∈ blocks, block.order ≤ greatest)
  (otherCapped : ∀ block ∈ others, block.order ≤ greatest)
include tiling otherTiling coalesced otherCoalesced capped otherCapped

theorem subset : blocks ⊆ others := by
  intro block member
  have within := tiling.within block member
  have positive := block.size_pos
  obtain ⟨other, otherMember, covered⟩ := otherTiling.covered block.start (by omega)
  have upward := otherTiling.order_le otherCoalesced (tiling.aligned block member)
    (capped block member) within otherMember block.covers_start covered
  have downward := tiling.order_le coalesced (otherTiling.aligned other otherMember)
    (otherCapped other otherMember) (otherTiling.within other otherMember) member covered
    block.covers_start
  have same := (tiling.aligned block member).eq_of_order
    block.covers_start (otherTiling.aligned other otherMember) (by omega) covered
  exact same ▸ otherMember

/-- An interval has at most one coalesced tiling with a given greatest order. -/
theorem unique : blocks = others :=
  Subset.antisymm (subset tiling otherTiling coalesced otherCoalesced capped otherCapped)
    (subset otherTiling tiling otherCoalesced coalesced otherCapped capped)

end

/-! ## Splitting and merging -/

theorem exchange {kept old fresh : Set Block}
    (tiling : Tiling total (kept ∪ old)) (apart : Disjoint kept old)
    (aligned : ∀ block ∈ fresh, block.Aligned)
    (disjoint : ∀ block ∈ fresh, ∀ other ∈ fresh, ∀ point,
      block.Covers point → other.Covers point → block = other)
    (same : ∀ point, (∃ block ∈ fresh, block.Covers point) ↔ ∃ block ∈ old, block.Covers point) :
    Tiling total (kept ∪ fresh) := by
  have separate : ∀ block ∈ kept, ∀ other ∈ fresh, ∀ point,
      block.Covers point → ¬ other.Covers point := by
    intro block member other otherMember point covered otherCovered
    obtain ⟨third, thirdMember, thirdCovered⟩ := (same point).mp ⟨other, otherMember, otherCovered⟩
    have equal := tiling.disjoint block (.inl member) third
      (.inr thirdMember) point covered thirdCovered
    exact disjoint_left.mp apart member (equal ▸ thirdMember)
  refine ⟨?_, ?_, ?_, ?_⟩
  · intro block member
    rcases member with inKept | inFresh
    · exact tiling.aligned block (.inl inKept)
    · exact aligned block inFresh
  · intro block member
    rcases member with inKept | inFresh
    · exact tiling.within block (.inl inKept)
    have positive := block.size_pos
    obtain ⟨other, otherMember, covered⟩ := (same (block.start + block.size - 1)).mp
        ⟨block, inFresh, ⟨by omega, by omega⟩⟩
    have within := tiling.within other (.inr otherMember)
    have := covered.2
    omega
  · intro point below
    obtain ⟨block, member, covered⟩ := tiling.covered point below
    rcases member with inKept | inOld
    · exact ⟨block, .inl inKept, covered⟩
    · obtain ⟨other, otherMember, otherCovered⟩ := (same point).mpr ⟨block, inOld, covered⟩
      exact ⟨other, .inr otherMember, otherCovered⟩
  · intro block member other otherMember point covered otherCovered
    rcases member with inKept | inFresh <;> rcases otherMember with otherKept | otherFresh
    · exact tiling.disjoint block (.inl inKept) other (.inl otherKept) point covered otherCovered
    · exact absurd otherCovered (separate block inKept other otherFresh point covered)
    · exact absurd covered (separate other otherKept block inFresh point otherCovered)
    · exact disjoint block inFresh other otherFresh point covered otherCovered

variable {kept : Set Block}

theorem merge (tiling : Tiling total (kept ∪ {block, block.buddy}))
    (apart : Disjoint kept {block, block.buddy}) : Tiling total (kept ∪ {block.parent}) := by
  have aligned := tiling.aligned block (.inr (.inl rfl))
  apply tiling.exchange apart
  · intro other member
    rw [mem_singleton_iff.mp member]
    exact aligned.parent
  · intro first firstMember second secondMember _ _ _
    rw [mem_singleton_iff.mp firstMember, mem_singleton_iff.mp secondMember]
  · intro point
    simp only [mem_singleton_iff, mem_insert_iff, exists_eq_left, exists_eq_or_imp]
    exact aligned.covers_parent

theorem split {start order : Nat} (tiling : Tiling total (kept ∪ {⟨start, order + 1⟩}))
    (apart : Disjoint kept {⟨start, order + 1⟩}) :
    Tiling total (kept ∪ {lower start order, upper start order}) := by
  have divides : 2 ^ (order + 1) ∣ start := tiling.aligned ⟨start, order + 1⟩ (.inr rfl)
  have lowerAligned : (lower start order).Aligned :=
    (pow_dvd_pow 2 (Nat.le_succ order)).trans divides
  have upperAligned : (upper start order).Aligned := buddy_lower divides ▸ lowerAligned.buddy
  apply tiling.exchange apart
  · intro block member
    rcases member with rfl | rfl
    · exact lowerAligned
    · exact upperAligned
  · intro first firstMember second secondMember point firstCovers secondCovers
    rcases firstMember with rfl | rfl <;> rcases secondMember with rfl | rfl
    · rfl
    · exact lowerAligned.eq_of_order firstCovers upperAligned rfl secondCovers
    · exact upperAligned.eq_of_order firstCovers lowerAligned rfl secondCovers
    · rfl
  · intro point
    simp only [mem_singleton_iff, mem_insert_iff, exists_eq_left, exists_eq_or_imp]
    rw [← parent_lower divides, lowerAligned.covers_parent, buddy_lower divides]

theorem empty : Tiling 0 ∅ where
  aligned _ member := absurd member (notMem_empty _)
  within _ member := absurd member (notMem_empty _)
  covered _ below := absurd below (Nat.not_lt_zero _)
  disjoint _ member := absurd member (notMem_empty _)

theorem extend {order : Nat} (tiling : Tiling total blocks) (divides : 2 ^ order ∣ total) :
    Tiling (total + 2 ^ order) (blocks ∪ {⟨total, order⟩}) := by
  have below : ∀ block ∈ blocks, ∀ point, block.Covers point →
      ¬ (⟨total, order⟩ : Block).Covers point := by
    intro block member point covered last
    have within := tiling.within block member
    have := covered.2
    have := last.1
    simp only at this
    omega
  refine ⟨?_, ?_, ?_, ?_⟩
  · intro block member
    rcases member with old | rfl
    · exact tiling.aligned block old
    · exact divides
  · intro block member
    rcases member with old | rfl
    · exact (tiling.within block old).trans (Nat.le_add_right _ _)
    · exact le_rfl
  · intro point pointBelow
    by_cases old : point < total
    · obtain ⟨block, member, covered⟩ := tiling.covered point old
      exact ⟨block, .inl member, covered⟩
    · exact ⟨⟨total, order⟩, .inr rfl, not_lt.mp old, pointBelow⟩
  · intro block member other otherMember point covered otherCovered
    rcases member with old | rfl <;> rcases otherMember with otherOld | rfl
    · exact tiling.disjoint block old other otherOld point covered otherCovered
    · exact absurd otherCovered (below block old point covered)
    · exact absurd covered (below other otherOld point otherCovered)
    · rfl

end Tiling

end DyadicTiling
