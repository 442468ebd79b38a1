import TgosKits.Buddy.Operations

/-! # Initialisation of a section -/

namespace TgosKits.BuddySection

open DyadicTiling

variable {total pfn : Nat} {free : Nat → List Nat} {state : BuddySection}

theorem fittingOrder_spec (below : pfn < total) (bound : Nat) :
    fittingOrder total pfn bound ≤ bound ∧ 2 ^ fittingOrder total pfn bound ≤ total - pfn ∧
      2 ^ fittingOrder total pfn bound ∣ pfn ∧
      (fittingOrder total pfn bound < bound →
        ¬ (2 ^ (fittingOrder total pfn bound + 1) ≤ total - pfn ∧
          2 ^ (fittingOrder total pfn bound + 1) ∣ pfn)) := by
  induction bound with
  | zero =>
    refine ⟨le_rfl, ?_, ?_, fun less => absurd less (lt_irrefl 0)⟩
    · simp only [fittingOrder, pow_zero]
      omega
    · simp only [fittingOrder, pow_zero]
      exact one_dvd pfn
  | succ bound ih =>
    by_cases fits : 2 ^ (bound + 1) ≤ total - pfn ∧ pfn &&& (2 ^ (bound + 1) - 1) = 0
    · have divides : 2 ^ (bound + 1) ∣ pfn := by
        apply Nat.dvd_of_mod_eq_zero
        rw [← Nat.and_two_pow_sub_one_eq_mod]
        exact fits.2
      simp only [fittingOrder, if_pos fits]
      exact ⟨le_rfl, fits.1, divides, fun less => absurd less (lt_irrefl _)⟩
    · obtain ⟨bounded, small, divides, greatest⟩ := ih
      simp only [fittingOrder, if_neg fits]
      refine ⟨by omega, small, divides, fun _ => ?_⟩
      rcases lt_or_eq_of_le bounded with less | equal
      · exact greatest less
      rw [equal]
      intro larger
      apply fits
      rw [Nat.and_two_pow_sub_one_eq_mod]
      exact ⟨larger.1, Nat.mod_eq_zero_of_dvd larger.2⟩

/-- The blocks cut so far tile the frames up to `pfn`, and none of them could
have been taken with the next order. -/
structure CutUpTo (total pfn : Nat) (lists : FreeLists) (free : Nat → List Nat) : Prop where
  arranged : Arranged pfn lists free ∅ ∅
  greedy : ∀ block ∈ blocksOf free, block.order < maxOrder →
    ¬ (2 ^ (block.order + 1) ≤ total - block.start ∧ 2 ^ (block.order + 1) ∣ block.start)
  counted : pagesOf free = pfn

private theorem cutUpTo_blank (total : Nat) :
    CutUpTo total 0 ⟨fun _ => .new, fun _ => pfnNone⟩ (fun _ => []) := by
  have none : blocksOf (fun _ => []) = ∅ := by
    ext block
    simp [blocksOf]
  refine ⟨⟨?_, ?_, ?_, ?_, ?_, ?_, ?_, ?_⟩, ?_, by simp [pagesOf]⟩
  · rw [none]
    simpa using Tiling.empty
  · rw [none]
    exact Set.empty_disjoint _
  · exact Set.disjoint_empty _
  · rw [none]
    simp
  · exact fun _ _ => ⟨rfl, List.nodup_nil⟩
  · rw [none]
    simp
  · simp
  · rw [none]
    intro block member
    exact absurd member (Set.notMem_empty block)
  · rw [none]
    simp

theorem CutUpTo.next {lists : FreeLists} (cut : CutUpTo total pfn lists free)
    (small : total ≤ u32Max) (below : pfn < total) :
    CutUpTo total (pfn + 2 ^ fittingOrder total pfn maxOrder)
      (lists.putFree pfn (fittingOrder total pfn maxOrder))
      (withBlock free ⟨pfn, fittingOrder total pfn maxOrder⟩) := by
  obtain ⟨bounded, fits, divides, greatest⟩ := fittingOrder_spec below maxOrder
  generalize fittingOrder total pfn maxOrder = order at *
  have arranged := cut.arranged
  have oldTiling : Tiling pfn (blocksOf free ∪ ∅) := by
    simpa using arranged.tiling
  have apart : Disjoint (blocksOf free ∪ ∅) {(⟨pfn, order⟩ : Block)} := by
    rw [Set.disjoint_singleton_right]
    intro inside
    have within := oldTiling.within _ inside
    have positive := (⟨pfn, order⟩ : Block).size_pos
    simp only at within
    omega
  have extended : Arranged (pfn + 2 ^ order) lists free ∅ (insert ⟨pfn, order⟩ ∅) := by
    rw [insert_empty_eq]
    exact ⟨oldTiling.extend divides, arranged.apartLive, apart,
      arranged.capped, arranged.holds, arranged.freeMarked,
      arranged.liveMarked, arranged.coalesced⟩
  -- A free buddy would lie right before, and could have been taken with its
  -- parent.
  have lonely : order < maxOrder → (⟨pfn, order⟩ : Block).buddy ∉ blocksOf free := by
    intro notGreatest inside
    have within := oldTiling.within _ (.inl inside)
    have aligned : (⟨pfn, order⟩ : Block).Aligned := divides
    rcases aligned.buddy_start with ⟨-, startEq⟩ | ⟨buddyDivides, startEq⟩
    · simp only [Block.size] at startEq
      omega
    apply cut.greedy _ inside notGreatest
    refine ⟨?_, buddyDivides⟩
    simp only [Block.size] at startEq
    change 2 ^ (order + 1) ≤ total - (⟨pfn, order⟩ : Block).buddy.start
    omega
  refine ⟨extended.put (Set.notMem_empty _) bounded (by omega) lonely, ?_,
    by rw [pagesOf_withBlock free bounded, cut.counted]; rfl⟩
  rw [blocksOf_withBlock]
  intro block member notGreatest
  rcases member with equal | old
  · rw [equal] at notGreatest ⊢
    exact greatest notGreatest
  · exact cut.greedy block old notGreatest

theorem sameHeap_cutIntoBlocks (fuel pfn : Nat) (state : BuddySection) :
    state.SameHeap (cutIntoBlocks fuel pfn state) := by
  induction fuel generalizing pfn state with
  | zero => rfl
  | succ fuel ih =>
    unfold cutIntoBlocks
    split
    · exact ih _ _
    · rfl

/-- The whole loop: the section is tiled, and all its pages are free. -/
private theorem cutIntoBlocks_spec (fuel : Nat) (small : state.totalPages ≤ u32Max)
    (cut : CutUpTo state.totalPages pfn state.lists free) (counted : state.freePages = pfn)
    (reached : pfn ≤ state.totalPages) (enough : state.totalPages - pfn ≤ fuel) :
    ∃ freeAfter, Arranged state.totalPages (cutIntoBlocks fuel pfn state).lists freeAfter ∅ ∅ ∧
      pagesOf freeAfter = state.totalPages ∧
      (cutIntoBlocks fuel pfn state).freePages = state.totalPages := by
  induction fuel generalizing pfn state free with
  | zero =>
    obtain rfl : pfn = state.totalPages := by omega
    exact ⟨free, cut.arranged, cut.counted, counted⟩
  | succ fuel ih =>
    unfold cutIntoBlocks
    split
    · rename_i below
      obtain ⟨bounded, fits, -, -⟩ := fittingOrder_spec below maxOrder
      have next := cut.next small below
      generalize fittingOrder state.totalPages pfn maxOrder = order at *
      have positive := Nat.two_pow_pos order
      exact ih (show ({ state with
          lists := state.lists.putFree pfn order
          freePages := state.freePages + 2 ^ order } :
            BuddySection).totalPages ≤ u32Max from small) next
        (by simp only; omega) (by simp only; omega) (by simp only; omega)
    · rename_i atEnd
      obtain rfl : pfn = state.totalPages := by omega
      exact ⟨free, cut.arranged, cut.counted, counted⟩

/-- An accepted heap whose frame numbers fit gives a sound section without live
blocks, all of whose pages are free. -/
theorem initAt_sound {pageSize : Nat} {spec : SectionInitSpec}
    (small : spec.heapSize / pageSize ≤ u32Max) (done : initAt pageSize spec = .ok state) :
    state.Sound pageSize ∅ ∧ state.freePages = state.totalPages ∧
      (blank pageSize spec).SameHeap state := by
  unfold initAt at done
  split at done
  · cases done
  rename_i powerOfTwo
  have power : pageSize.isPowerOfTwo := not_not.mp powerOfTwo
  split at done
  · cases done
  rename_i accepted
  split at done
  · cases done
  cases done
  have same := sameHeap_cutIntoBlocks (spec.heapSize / pageSize) 0 (blank pageSize spec)
  obtain ⟨freeAfter, arranged, pages, allFree⟩ := cutIntoBlocks_spec
    (spec.heapSize / pageSize) (show (blank pageSize spec).totalPages ≤ u32Max from small)
    (cutUpTo_blank _) rfl (Nat.zero_le _) (Nat.sub_le _ _)
  have aligned : pageSize ∣ spec.heapStart := by
    apply Nat.dvd_of_mod_eq_zero
    rw [← alignOffset_eq power]
    simpa [isAligned] using not_or.mp accepted |>.1
  generalize cutIntoBlocks (spec.heapSize / pageSize) 0 (blank pageSize spec) = result at *
  refine ⟨?_, allFree.trans (by rw [same]), same⟩
  rw [same]
  exact ⟨power, aligned, rfl, rfl, small, freeAfter, arranged, allFree.trans pages.symm⟩

end TgosKits.BuddySection
