import Mathlib.Algebra.BigOperators.Group.Finset.Basic
import TgosKits.Buddy.Section
import TgosKits.Library.Dyadic

/-!
# The invariant of a section

The free lists name the free blocks.
-/

namespace TgosKits

open DyadicTiling Function Set FreeLists

/-- The blocks on the free lists. -/
def blocksOf (free : Nat → List Nat) : Set Block :=
  {block | block.start ∈ free block.order}

/-- How many pages the free lists hold. -/
def pagesOf (free : Nat → List Nat) : Nat :=
  ∑ order ∈ Finset.range (maxOrder + 1), (free order).length * 2 ^ order

def withBlock (free : Nat → List Nat) (block : Block) : Nat → List Nat :=
  update free block.order (block.start :: free block.order)

def withoutBlock (free : Nat → List Nat) (block : Block) : Nat → List Nat :=
  update free block.order ((free block.order).erase block.start)

/-- Free blocks, live blocks and the blocks in the hand of an operation. -/
structure Arranged (total : Nat) (lists : FreeLists) (free : Nat → List Nat)
    (live hand : Set Block) : Prop where
  tiling : Tiling total ((blocksOf free ∪ live) ∪ hand)
  apartLive : Disjoint (blocksOf free) live
  apartHand : Disjoint (blocksOf free ∪ live) hand
  capped : ∀ block ∈ blocksOf free ∪ live, block.order ≤ maxOrder
  holds : ∀ order ≤ maxOrder, lists.Holds order (free order)
  freeMarked : ∀ block ∈ blocksOf free, (lists.pageMeta block.start).flags = .free ∧
      (lists.pageMeta block.start).order = block.order
  liveMarked : ∀ block ∈ live, (lists.pageMeta block.start).flags ≠ .free ∧
      (lists.pageMeta block.start).order = block.order
  coalesced : Coalesced maxOrder (blocksOf free)

section Lists

variable {free : Nat → List Nat} {block : Block}

theorem blocksOf_withBlock (free : Nat → List Nat) (block : Block) :
    blocksOf (withBlock free block) = insert block (blocksOf free) := by
  ext ⟨start, order⟩
  obtain ⟨first, level⟩ := block
  simp only [blocksOf, withBlock, mem_ofPred_eq, mem_insert_iff, Block.mk.injEq]
  rcases eq_or_ne order level with rfl | different
  · simp
  · simp [different]

theorem blocksOf_withoutBlock {free : Nat → List Nat} (block : Block)
    (nodup : (free block.order).Nodup) :
    blocksOf (withoutBlock free block) = blocksOf free \ {block} := by
  ext ⟨start, order⟩
  obtain ⟨first, level⟩ := block
  simp only [blocksOf, withoutBlock, mem_ofPred_eq, mem_sdiff, mem_singleton_iff, Block.mk.injEq]
  rcases eq_or_ne order level with rfl | different
  · simp only [update_self, and_true]
    rw [nodup.mem_erase_iff, and_comm]
  · simp [different]

theorem pagesOf_update
    (free : Nat → List Nat) {order : Nat} (bounded : order ≤ maxOrder) (items : List Nat) :
    pagesOf (update free order items) + (free order).length * 2 ^ order =
      pagesOf free + items.length * 2 ^ order := by
  have member : order ∈ Finset.range (maxOrder + 1) := Finset.mem_range.mpr (by omega)
  unfold pagesOf
  rw [← Finset.add_sum_erase _ _ member, ← Finset.add_sum_erase _ _ member]
  have rest : ∑ other ∈ (Finset.range (maxOrder + 1)).erase order,
      (update free order items other).length * 2 ^ other =
      ∑ other ∈ (Finset.range (maxOrder + 1)).erase order, (free other).length * 2 ^ other := by
    apply Finset.sum_congr rfl
    intro other otherMember
    rw [update_of_ne (Finset.ne_of_mem_erase otherMember)]
  rw [rest, update_self]
  omega

theorem pagesOf_withBlock (free : Nat → List Nat) (bounded : block.order ≤ maxOrder) :
    pagesOf (withBlock free block) = pagesOf free + block.size := by
  have updated := pagesOf_update free bounded (block.start :: free block.order)
  rw [List.length_cons, add_mul, one_mul] at updated
  unfold withBlock Block.size
  omega

theorem pagesOf_withoutBlock (bounded : block.order ≤ maxOrder) (member : block ∈ blocksOf free) :
    pagesOf (withoutBlock free block) + block.size = pagesOf free := by
  have updated := pagesOf_update free bounded ((free block.order).erase block.start)
  have nonempty := List.length_pos_of_mem member
  have split : (free block.order).length * 2 ^ block.order =
      ((free block.order).length - 1) * 2 ^ block.order + 2 ^ block.order := by
    rw [← Nat.succ_mul]
    congr 1
    omega
  rw [List.length_erase_of_mem member] at updated
  unfold withoutBlock Block.size
  omega

end Lists

namespace Arranged

variable {total : Nat} {lists : FreeLists} {free : Nat → List Nat} {live hand : Set Block}
  {block other : Block}

section

variable (arranged : Arranged total lists free live hand)
include arranged

theorem eq_of_start (member : block ∈ (blocksOf free ∪ live) ∪ hand)
    (otherMember : other ∈ (blocksOf free ∪ live) ∪ hand)
    (startEq : block.start = other.start) : block = other :=
  arranged.tiling.disjoint block member other otherMember block.start
    block.covers_start (startEq ▸ other.covers_start)

theorem lists_apart : ∀ first ≤ maxOrder, ∀ second ≤ maxOrder, ∀ item,
      item ∈ free first → item ∈ free second → first = second := by
  intro first _ second _ item inFirst inSecond
  have same : (⟨item, first⟩ : Block) = ⟨item, second⟩ :=
    arranged.eq_of_start (.inl (.inl inFirst)) (.inl (.inl inSecond)) rfl
  exact congrArg Block.order same

theorem start_lt (member : block ∈ (blocksOf free ∪ live) ∪ hand) : block.start < total := by
  have within := arranged.tiling.within block member
  have positive := block.size_pos
  omega

theorem nodup {order : Nat} (bounded : order ≤ maxOrder) : (free order).Nodup :=
  (arranged.holds order bounded).nodup

theorem take (member : block ∈ blocksOf free) :
    Arranged total (lists.freeListRemove block.start block.order)
      (withoutBlock free block) live (insert block hand) := by
  have bounded := arranged.capped block (.inl member)
  have marks := lists.sameMarks_freeListRemove block.start block.order
  have removed := blocksOf_withoutBlock block (arranged.nodup bounded)
  have notLive : block ∉ live := disjoint_left.mp arranged.apartLive member
  have union : (blocksOf (withoutBlock free block) ∪ live) ∪ insert block hand =
      (blocksOf free ∪ live) ∪ hand := by
    rw [removed]
    ext candidate
    rcases eq_or_ne candidate block with rfl | different
    · simp [member]
    · simp [different]
  refine ⟨union ▸ arranged.tiling, ?_, ?_, ?_, ?_, ?_, ?_, ?_⟩
  · rw [removed]
    exact arranged.apartLive.mono_left sdiff_subset
  · rw [removed, disjoint_left]
    intro candidate inside inHand
    rcases inHand with rfl | inHand
    · rcases inside with inFree | inLive
      · exact inFree.2 rfl
      · exact notLive inLive
    · apply disjoint_left.mp arranged.apartHand _ inHand
      exact inside.imp_left (fun inFree => inFree.1)
  · rw [removed]
    intro candidate inside
    exact arranged.capped candidate (inside.imp_left (fun inFree => inFree.1))
  · exact holds_freeListRemove arranged.holds arranged.lists_apart bounded member
  · rw [removed]
    intro candidate inside
    rw [(marks _).1, (marks _).2]
    exact arranged.freeMarked candidate inside.1
  · intro candidate inside
    rw [(marks _).1, (marks _).2]
    exact arranged.liveMarked candidate inside
  · rw [removed]
    intro candidate inside below buddyInside
    exact arranged.coalesced candidate inside.1 below buddyInside.1

theorem mark (member : block ∈ hand) {change : PageMeta → PageMeta}
    (keeps : ∀ entry, (change entry).prev = entry.prev ∧ (change entry).next = entry.next) :
    Arranged total (lists.modify block.start change) free live hand := by
  have untouched : ∀ candidate ∈ blocksOf free ∪ live,
      (lists.modify block.start change).pageMeta candidate.start =
        lists.pageMeta candidate.start := by
    intro candidate inside
    apply update_of_ne
    intro startEq
    have same := arranged.eq_of_start (.inl inside) (.inr member) startEq
    exact disjoint_left.mp arranged.apartHand inside (same ▸ member)
  refine ⟨arranged.tiling, arranged.apartLive, arranged.apartHand,
    arranged.capped, ?_, ?_, ?_, arranged.coalesced⟩
  · intro order bounded
    unfold FreeLists.Holds
    rw [links_mark keeps]
    exact arranged.holds order bounded
  · intro candidate inside
    rw [untouched candidate (.inl inside)]
    exact arranged.freeMarked candidate inside
  · intro candidate inside
    rw [untouched candidate (.inr inside)]
    exact arranged.liveMarked candidate inside

end

theorem put (arranged : Arranged total lists free live (insert block hand))
    (kept : block ∉ hand) (bounded : block.order ≤ maxOrder) (small : total ≤ u32Max)
    (lonely : block.order < maxOrder → block.buddy ∉ blocksOf free) :
    Arranged total (lists.putFree block.start block.order) (withBlock free block) live hand := by
  have inHand : block ∈ insert block hand := mem_insert block hand
  have below : block.start < total := arranged.start_lt (.inr inHand)
  have sameFrame : toU32 block.start = block.start := by
    unfold toU32 u32Max at *
    omega
  have notFree : block ∉ blocksOf free ∪ live := fun inside =>
    disjoint_left.mp arranged.apartHand inside inHand
  have marked := arranged.mark inHand (show ∀ entry : PageMeta,
      ({ entry with flags := .free, order := block.order } : PageMeta).prev =
        entry.prev ∧ _ from fun _ => ⟨rfl, rfl⟩)
  have fresh : ∀ order ≤ maxOrder, block.start ∉ free order := by
    intro order _ inside
    have same : (⟨block.start, order⟩ : Block) = block :=
      arranged.eq_of_start (.inl (.inl inside)) (.inr inHand) rfl
    exact notFree (.inl (same ▸ inside))
  have added := blocksOf_withBlock free block
  have union : (blocksOf (withBlock free block) ∪ live) ∪ hand =
      (blocksOf free ∪ live) ∪ insert block hand := by
    rw [added]
    ext candidate
    simp only [mem_union, mem_insert_iff]
    tauto
  unfold putFree
  rw [sameFrame]
  have marks := sameMarks_freeListPush (lists.modify block.start
      (fun entry => { entry with flags := .free, order := block.order }))
    block.start block.order
  refine ⟨union ▸ arranged.tiling, ?_, ?_, ?_, ?_, ?_, ?_, ?_⟩
  · rw [added, disjoint_insert_left]
    exact ⟨fun inside => notFree (.inr inside), arranged.apartLive⟩
  · rw [added, insert_union, disjoint_insert_left]
    exact ⟨kept, arranged.apartHand.mono_right (subset_insert _ _)⟩
  · rw [added]
    intro candidate inside
    rw [insert_union] at inside
    rcases inside with rfl | inside
    · exact bounded
    · exact arranged.capped candidate inside
  · apply holds_freeListPush marked.holds marked.lists_apart bounded fresh
    unfold pfnNone
    omega
  · rw [added]
    intro candidate inside
    rw [(marks _).1, (marks _).2]
    rcases inside with rfl | inside
    · simp [FreeLists.modify]
    · exact marked.freeMarked candidate inside
  · intro candidate inside
    rw [(marks _).1, (marks _).2]
    exact marked.liveMarked candidate inside
  · rw [added]
    intro candidate inside candidateBelow buddyInside
    rcases inside with rfl | inside
    · rcases buddyInside with same | buddyFree
      · exact candidate.buddy_ne same
      · exact lonely candidateBelow buddyFree
    rcases buddyInside with same | buddyFree
    · -- The block put down would be the buddy of a free block.
      have back : candidate = block.buddy := by
        rw [← same, Block.buddy_buddy]
      exact lonely (same ▸ candidateBelow) (back ▸ inside)
    · exact arranged.coalesced candidate inside candidateBelow buddyFree

theorem regroup {others : Set Block} (arranged : Arranged total lists free live hand)
    (tiling : Tiling total ((blocksOf free ∪ live) ∪ others))
    (apart : Disjoint (blocksOf free ∪ live) others) : Arranged total lists free live others :=
  ⟨tiling, arranged.apartLive, apart, arranged.capped, arranged.holds,
    arranged.freeMarked, arranged.liveMarked, arranged.coalesced⟩

theorem handOut (arranged : Arranged total lists free live {block})
    (bounded : block.order ≤ maxOrder) (marked : (lists.pageMeta block.start).flags ≠ .free ∧
      (lists.pageMeta block.start).order = block.order) :
    Arranged total lists free (insert block live) ∅ := by
  have notFree : block ∉ blocksOf free ∪ live := fun inside =>
    disjoint_left.mp arranged.apartHand inside rfl
  have union : (blocksOf free ∪ insert block live) ∪ ∅ = (blocksOf free ∪ live) ∪ {block} := by
    ext candidate
    simp only [mem_union, mem_insert_iff, mem_singleton_iff, mem_empty_iff_false]
    tauto
  refine ⟨union ▸ arranged.tiling, ?_, disjoint_empty _, ?_,
    arranged.holds, arranged.freeMarked, ?_, arranged.coalesced⟩
  · rw [disjoint_insert_right]
    exact ⟨fun inside => notFree (.inl inside), arranged.apartLive⟩
  · intro candidate inside
    rcases inside with inFree | rfl | inLive
    · exact arranged.capped candidate (.inl inFree)
    · exact bounded
    · exact arranged.capped candidate (.inr inLive)
  · intro candidate inside
    rcases inside with rfl | inLive
    · exact marked
    · exact arranged.liveMarked candidate inLive

theorem takeBack (arranged : Arranged total lists free live ∅) (member : block ∈ live) :
    Arranged total lists free (live \ {block}) {block} := by
  have notFree : block ∉ blocksOf free := disjoint_right.mp arranged.apartLive member
  have union : (blocksOf free ∪ (live \ {block})) ∪ {block} = (blocksOf free ∪ live) ∪ ∅ := by
    ext candidate
    rcases eq_or_ne candidate block with rfl | different
    · simp [member]
    · simp [different]
  refine ⟨union ▸ arranged.tiling,
    arranged.apartLive.mono_right sdiff_subset, ?_, ?_, arranged.holds,
    arranged.freeMarked, ?_, arranged.coalesced⟩
  · rw [disjoint_singleton_right]
    intro inside
    rcases inside with inFree | inLive
    · exact notFree inFree
    · exact inLive.2 rfl
  · intro candidate inside
    exact arranged.capped candidate (inside.imp_right (fun inLive => inLive.1))
  · intro candidate inside
    exact arranged.liveMarked candidate inside.1

end Arranged

end TgosKits
