import Mathlib.Data.Nat.ModEq
import TgosKits.Buddy.SplitMerge

/-! # Operations of a section -/

namespace TgosKits

open DyadicTiling LinkedList

structure BuddySection.Sound (pageSize : Nat) (state : BuddySection) (live : Set Block) : Prop where
  powerOfTwo : pageSize.isPowerOfTwo
  aligned : pageSize ∣ state.heapStart
  pagesEq : state.totalPages = state.heapSize / pageSize
  maxPagesEq : state.maxPages = state.totalPages
  small : state.totalPages ≤ u32Max
  arranged : ∃ free, Arranged state.totalPages state.lists free live ∅ ∧
    state.freePages = pagesOf free

namespace BuddySection

/-! ## Walking the lists -/

variable {first order searchOrder blockPfn target align : Nat}

private theorem scanList_eq {links : Links Nat} {accept : Nat → Option Nat}
    {items : List Nat} {before : Nat} (chain : links.Chain pfnNone before first items) {fuel : Nat}
    (enough : items.length < fuel) :
    scanList links.next accept fuel first = items.findSome? (fun pfn =>
        (accept pfn).map (fun target => (pfn, target))) := by
  induction items generalizing before first fuel with
  | nil =>
    cases fuel with
    | zero => omega
    | succ fuel => simp [scanList, show first = pfnNone from chain]
  | cons item rest ih =>
    obtain ⟨rfl, itemNe, -, tail⟩ := chain
    cases fuel with
    | zero => omega
    | succ fuel =>
      rw [List.length_cons] at enough
      simp only [scanList, if_neg itemNe, List.findSome?_cons]
      cases accept first with
      | some target => rfl
      | none => exact ih tail (by omega)

variable {total : Nat} {lists : FreeLists} {free : Nat → List Nat} {live hand : Set Block}

theorem length_le (arranged : Arranged total lists free live hand) (bounded : order ≤ maxOrder) :
    (free order).length ≤ total := by
  rw [← List.toFinset_card_of_nodup (arranged.nodup bounded), ← Finset.card_range total]
  apply Finset.card_le_card
  intro item member
  rw [List.mem_toFinset] at member
  rw [Finset.mem_range]
  exact arranged.start_lt (show (⟨item, order⟩ : Block) ∈ _ from .inl (.inl member))

variable {state : BuddySection}

section

variable (arranged : Arranged state.totalPages state.lists free live hand)
include arranged

theorem searchLists_eq_some {accept : Nat → Nat → Option Nat}
    (found : state.searchLists order accept = some (searchOrder, blockPfn, target)) :
    order ≤ searchOrder ∧ blockPfn ∈ free searchOrder ∧
      accept searchOrder blockPfn = some target := by
  obtain ⟨level, inRange, scanned⟩ := List.exists_of_findSome?_eq_some found
  obtain ⟨above, below⟩ := List.mem_range'_1.mp inRange
  have bounded : level ≤ maxOrder := by omega
  have visits : scanList _ (accept level) _ _ = _ := scanList_eq
    (arranged.holds level bounded).chain (Nat.lt_succ_of_le (length_le arranged bounded))
  obtain ⟨pair, first, pairEq⟩ := Option.map_eq_some_iff.mp scanned
  cases pairEq
  obtain ⟨item, member, accepted⟩ := List.exists_of_findSome?_eq_some (visits.symm.trans first)
  rw [Option.map_eq_some_iff] at accepted
  obtain ⟨place, acceptEq, placeEq⟩ := accepted
  cases placeEq
  exact ⟨above, member, acceptEq⟩

end

/-! ## Aligned places in a block -/

theorem two_pow_dvd_of_le {second : Nat} (le : 2 ^ first ≤ 2 ^ second) : 2 ^ first ∣ 2 ^ second :=
  pow_dvd_pow 2 ((Nat.pow_le_pow_iff_right (by omega)).mp le)

/-- The page arithmetic of an alignment beyond the block: the frame found makes
the page number a multiple of the alignment. -/
private theorem aligned_page {pages : Nat} (positive : 0 < pages) (heap block : Nat) :
    pages ∣ heap + (block + ((pages - heap % pages) % pages + pages - block % pages) % pages) := by
  have heapBelow := Nat.mod_lt heap positive
  have blockBelow := Nat.mod_lt block positive
  generalize offsetEq : (pages - heap % pages) % pages = offset
  generalize deltaEq : (offset + pages - block % pages) % pages = delta
  have offsetSum : offset + heap % pages ≡ 0 [MOD pages] := by
    have congruent : offset ≡ pages - heap % pages [MOD pages] := offsetEq ▸ Nat.mod_modEq _ _
    calc offset + heap % pages ≡ pages - heap % pages + heap % pages [MOD pages] :=
          congruent.add_right _
      _ = pages := Nat.sub_add_cancel heapBelow.le
      _ ≡ 0 [MOD pages] := (Nat.modEq_zero_iff_dvd).mpr dvd_rfl
  have deltaSum : delta + block % pages ≡ offset [MOD pages] := by
    have congruent : delta ≡ offset + pages - block % pages [MOD pages] :=
      deltaEq ▸ Nat.mod_modEq _ _
    calc delta + block % pages ≡ offset + pages - block % pages + block % pages [MOD pages] :=
          congruent.add_right _
      _ = offset + pages := Nat.sub_add_cancel (by omega)
      _ ≡ offset [MOD pages] := Nat.add_modEq_right
  apply Nat.modEq_zero_iff_dvd.mp
  calc heap + (block + delta) ≡ heap % pages + (block % pages + delta) [MOD pages] :=
        ((Nat.mod_modEq heap pages).symm).add (((Nat.mod_modEq block pages).symm).add_right _)
    _ = delta + block % pages + heap % pages := by omega
    _ ≡ offset + heap % pages [MOD pages] := deltaSum.add_right _
    _ ≡ 0 [MOD pages] := offsetSum

private theorem findAlignedPfnInBlock_eq_some {pageSize heapStart blockOrder allocOrder : Nat}
    (pagePower : pageSize.isPowerOfTwo) (alignPower : align.isPowerOfTwo)
    (atLeastPage : pageSize ≤ align) (heapAligned : pageSize ∣ heapStart)
    (blockAligned : 2 ^ blockOrder ∣ blockPfn) (smaller : allocOrder ≤ blockOrder)
    (found : findAlignedPfnInBlock pageSize heapStart blockPfn blockOrder
      allocOrder align = some target) :
    blockPfn ≤ target ∧ target + 2 ^ allocOrder ≤ blockPfn + 2 ^ blockOrder ∧
      2 ^ allocOrder ∣ target ∧
      align ∣ heapStart + target * pageSize := by
  obtain ⟨pageBits, rfl⟩ := pagePower
  obtain ⟨alignBits, rfl⟩ := alignPower
  obtain ⟨heapPages, rfl⟩ := heapAligned
  have bitsLe : pageBits ≤ alignBits := (Nat.pow_le_pow_iff_right (by omega)).mp atLeastPage
  have alignPages : 2 ^ alignBits / 2 ^ pageBits = 2 ^ (alignBits - pageBits) :=
    Nat.pow_div bitsLe (by omega)
  have alignEq : 2 ^ alignBits = 2 ^ pageBits * 2 ^ (alignBits - pageBits) := by
    rw [← pow_add, Nat.add_sub_cancel' bitsLe]
  have pagePositive : 0 < 2 ^ pageBits := Nat.two_pow_pos pageBits
  have sizes : 2 ^ allocOrder ≤ 2 ^ blockOrder := Nat.pow_le_pow_right (by omega) smaller
  have subAligned : 2 ^ allocOrder ∣ blockPfn := (pow_dvd_pow 2 smaller).trans blockAligned
  simp only [findAlignedPfnInBlock, alignPages,
    Nat.and_two_pow_sub_one_eq_mod, Nat.mul_div_cancel_left _ pagePositive]
    at found
  generalize pagesEq : 2 ^ (alignBits - pageBits) = pages at *
  -- An address is aligned when its page number is.
  have addressAligned : ∀ pfn, pages ∣ heapPages + pfn →
      2 ^ alignBits ∣ 2 ^ pageBits * heapPages + pfn * 2 ^ pageBits := by
    intro pfn divides
    rw [alignEq, mul_comm pfn, ← mul_add]
    exact mul_dvd_mul_left _ divides
  split_ifs at found with large heapDivides fits offsetDivides fits
  · cases found
    refine ⟨le_rfl, by omega, subAligned, addressAligned _ ?_⟩
    have heapMultiple : pages ∣ heapPages := by
      have whole : 2 ^ alignBits ∣ 2 ^ pageBits * heapPages :=
        Nat.dvd_of_mod_eq_zero (not_not.mp heapDivides)
      rw [alignEq] at whole
      exact Nat.dvd_of_mul_dvd_mul_left pagePositive whole
    have pagesDivide : pages ∣ 2 ^ allocOrder := by
      rw [← pagesEq] at large ⊢
      exact two_pow_dvd_of_le large
    exact Nat.dvd_add heapMultiple (pagesDivide.trans subAligned)
  · cases found
    have positive : 0 < pages := by
      rw [← pagesEq]
      exact Nat.two_pow_pos _
    have subDivides : 2 ^ allocOrder ∣ pages := by
      rw [← pagesEq] at large ⊢
      exact two_pow_dvd_of_le (by omega)
    have offsetMultiple := Nat.dvd_of_mod_eq_zero (not_not.mp offsetDivides)
    have remMultiple : 2 ^ allocOrder ∣ blockPfn % pages :=
      (Nat.dvd_mod_iff subDivides).mpr subAligned
    refine ⟨Nat.le_add_right _ _, by omega, ?_,
      addressAligned _ (aligned_page positive heapPages blockPfn)⟩
    apply Nat.dvd_add subAligned
    apply (Nat.dvd_mod_iff subDivides).mpr
    exact Nat.dvd_sub (Nat.dvd_add offsetMultiple subDivides) remMultiple

/-! ## Allocation -/

/-- Only the lists and the page count of a section change. -/
def SameHeap (state after : BuddySection) : Prop := after =
    { state with lists := after.lists, freePages := after.freePages }

private theorem takeBlock_spec (small : state.totalPages ≤ u32Max)
    (arranged : Arranged state.totalPages state.lists free live ∅)
    (member : blockPfn ∈ free searchOrder) (smaller : order ≤ searchOrder)
    (above : blockPfn ≤ target) (below : target + 2 ^ order ≤ blockPfn + 2 ^ searchOrder)
    (divides : 2 ^ order ∣ target) :
    ∃ freeAfter, (state.takeBlock searchOrder blockPfn target order).1 = target ∧
      Arranged state.totalPages
        (state.takeBlock searchOrder blockPfn target order).2.lists freeAfter
        (insert ⟨target, order⟩ live) ∅ ∧
      (⟨target, order⟩ : Block) ∉ live ∧
      pagesOf freeAfter + 2 ^ order = pagesOf free := by
  have inFree : (⟨blockPfn, searchOrder⟩ : Block) ∈ blocksOf free := member
  have bounded : searchOrder ≤ maxOrder := arranged.capped _ (.inl inFree)
  have taken := arranged.take inFree
  have stepsEq : order + (searchOrder - order) = searchOrder := Nat.add_sub_cancel' smaller
  have inHand : Arranged state.totalPages (state.lists.freeListRemove blockPfn searchOrder)
      (withoutBlock free ⟨blockPfn, searchOrder⟩) live
      {⟨blockPfn, order + (searchOrder - order)⟩} := by
    rw [stepsEq]
    simpa using taken
  obtain ⟨freeAfter, pfnEq, after, pages⟩ := splitDown_spec small divides
    (searchOrder - order) inHand (by omega)
    (by rw [stepsEq]; exact ⟨above, by simp only [Block.size]; omega⟩)
  have removed := pagesOf_withoutBlock bounded inFree
  rw [stepsEq] at pages
  simp only [Block.size] at removed
  have marked := after.mark (Set.mem_singleton _) (show ∀ entry : PageMeta,
      ({ entry with flags := .allocated, order := order } : PageMeta).prev =
        entry.prev ∧ _ from fun _ => ⟨rfl, rfl⟩)
  refine ⟨freeAfter, pfnEq, ?_, ?_, by omega⟩
  · simp only [takeBlock, pfnEq]
    exact marked.handOut (show order ≤ maxOrder by omega) (by simp [FreeLists.modify])
  · exact fun inside =>
      Set.disjoint_left.mp after.apartHand (.inr inside) rfl

inductive Allocated (pageSize order align : Nat) (state : BuddySection) (live : Set Block) :
    Except AllocError Nat × BuddySection → Prop where
  | refused : Allocated pageSize order align state live (.error .noMemory, state)
  | granted (target : Nat) (after : BuddySection)
      (sound : after.Sound pageSize (insert ⟨target, order⟩ live))
      (fresh : (⟨target, order⟩ : Block) ∉ live)
      (aligned : align ∣ state.heapStart + target * pageSize) (same : state.SameHeap after) :
      Allocated pageSize order align state live (.ok (state.heapStart + target * pageSize), after)

variable {pageSize : Nat}

section

variable (sound : state.Sound pageSize live) (alignPower : align.isPowerOfTwo)
  (atLeastPage : pageSize ≤ align)
include sound alignPower atLeastPage

theorem granted_of_found (arranged : Arranged state.totalPages state.lists free live ∅)
    (pagesEq : state.freePages = pagesOf free) (smaller : order ≤ searchOrder)
    (member : blockPfn ∈ free searchOrder)
    (accepted : findAlignedPfnInBlock pageSize state.heapStart blockPfn
      searchOrder order align = some target) :
    (state.takeBlock searchOrder blockPfn target order).1 = target ∧
      Allocated pageSize order align state live (.ok (state.heapStart + target * pageSize),
          (state.takeBlock searchOrder blockPfn target order).2) := by
  have blockAligned : 2 ^ searchOrder ∣ blockPfn :=
    arranged.tiling.aligned ⟨blockPfn, searchOrder⟩ (.inl (.inl member))
  obtain ⟨above, below, divides, addressAligned⟩ :=
    findAlignedPfnInBlock_eq_some sound.powerOfTwo alignPower atLeastPage
      sound.aligned blockAligned smaller accepted
  obtain ⟨freeAfter, pfnEq, after, fresh, pages⟩ := takeBlock_spec sound.small
    arranged member smaller above below divides
  refine ⟨pfnEq, .granted target _ ?_ fresh addressAligned rfl⟩
  refine ⟨sound.powerOfTwo, sound.aligned, sound.pagesEq, sound.maxPagesEq,
    sound.small, freeAfter, after, ?_⟩
  change state.freePages - 2 ^ order = pagesOf freeAfter
  omega

theorem allocFromSectionAligned_spec : Allocated pageSize order align state live
      (allocFromSectionAligned pageSize order align state) := by
  obtain ⟨free, arranged, pagesEq⟩ := sound.arranged
  unfold allocFromSectionAligned
  split
  · exact .refused
  rename_i searchOrder blockPfn target found
  obtain ⟨smaller, member, accepted⟩ := searchLists_eq_some arranged found
  obtain ⟨pfnEq, granted⟩ := granted_of_found sound alignPower atLeastPage arranged pagesEq
    smaller member accepted
  simp only [pfnEq]
  exact granted

theorem allocLowmemFromSection_spec (virtToPhys : Nat → Nat) :
    Allocated pageSize order align state live
      (allocLowmemFromSection virtToPhys pageSize order align state) := by
  obtain ⟨free, arranged, pagesEq⟩ := sound.arranged
  unfold allocLowmemFromSection
  split
  · exact .refused
  rename_i searchOrder blockPfn target found
  obtain ⟨smaller, member, accepted⟩ := searchLists_eq_some arranged found
  exact (granted_of_found sound alignPower atLeastPage arranged pagesEq smaller member
    (Option.filter_eq_some_iff.mp accepted).1).2

end

/-! ## Deallocation -/

theorem deallocInSection_spec (sound : state.Sound pageSize live) {pfn : Nat}
    (member : (⟨pfn, order⟩ : Block) ∈ live) :
    (state.deallocInSection pfn order).Sound pageSize (live \ {⟨pfn, order⟩}) ∧
      state.SameHeap (state.deallocInSection pfn order) := by
  obtain ⟨free, arranged, pagesEq⟩ := sound.arranged
  have bounded : order ≤ maxOrder := arranged.capped _ (.inr member)
  obtain ⟨freeAfter, merged, lists, equation, after, capped, lonely, pages⟩ :=
    coalesce_spec sound.small (maxOrder - order) (arranged.takeBack member) (by omega)
  have put := (show Arranged state.totalPages lists freeAfter _
    (insert merged ∅) by simpa using after).put (Set.notMem_empty merged) capped sound.small lonely
  have total := pagesOf_withBlock freeAfter capped
  rw [← sound.maxPagesEq] at equation
  unfold deallocInSection
  rw [equation]
  refine ⟨⟨sound.powerOfTwo, sound.aligned, sound.pagesEq, sound.maxPagesEq,
    sound.small, withBlock freeAfter merged, put, ?_⟩, rfl⟩
  simp only
  omega

end BuddySection

end TgosKits
