import TgosKits.Buddy.Invariant

/-! # Splitting and merging -/

namespace TgosKits

open DyadicTiling Block

variable {total : Nat} {lists : FreeLists} {free : Nat → List Nat} {live : Set Block}

namespace Arranged

private theorem buddy_free_iff {block : Block} (arranged : Arranged total lists free live {block})
    (below : block.buddy.start < total) : ((lists.pageMeta block.buddy.start).flags = .free ∧
        (lists.pageMeta block.buddy.start).order = block.order) ↔
      block.buddy ∈ blocksOf free := by
  constructor
  · intro marked
    obtain ⟨head, member, startEq, -⟩ := arranged.tiling.buddy_head (.inr rfl) below
    rw [← startEq] at marked
    rcases member with (inFree | inLive) | inHand
    · have accurate := (arranged.freeMarked head inFree).2
      have same : head = block.buddy := by
        obtain ⟨start, order⟩ := head
        simp only at startEq accurate marked
        rw [startEq, ← accurate, marked.2]
        rfl
      exact same ▸ inFree
    · exact absurd marked.1 (arranged.liveMarked head inLive).1
    · -- A block does not start where its buddy starts.
      rw [Set.mem_singleton_iff.mp inHand] at startEq
      have same : block.buddy = block := by
        obtain ⟨start, order⟩ := block
        rw [buddy, mk.injEq]
        exact ⟨startEq.symm, rfl⟩
      exact absurd same block.buddy_ne
  · intro member
    exact arranged.freeMarked block.buddy member

private theorem mergeBuddy {block : Block} (arranged : Arranged total lists free live {block})
    (member : block.buddy ∈ blocksOf free) :
    Arranged total (lists.freeListRemove block.buddy.start block.order)
      (withoutBlock free block.buddy) live {block.parent} := by
  have taken := arranged.take member
  rw [Set.pair_comm] at taken
  have merged := taken.tiling.merge taken.apartHand
  apply taken.regroup merged
  rw [Set.disjoint_singleton_right]
  intro inside
  -- The parent covers the block, which is not among the others.
  have aligned := arranged.tiling.aligned block (.inr rfl)
  have covers := aligned.covers_parent.mpr (.inl block.covers_start)
  have same := taken.tiling.disjoint block.parent (.inl inside) block
    (.inr (.inl rfl)) block.start covers block.covers_start
  have orders : block.order + 1 = block.order := congrArg order same
  omega

theorem splitOff {kept freed : Block} {start order : Nat}
    (arranged : Arranged total lists free live {⟨start, order + 1⟩})
    (small : total ≤ u32Max) (bounded : order + 1 ≤ maxOrder)
    (halves : (kept = .lower start order ∧ freed = .upper start order) ∨
      (kept = .upper start order ∧ freed = .lower start order)) :
    Arranged total (lists.putFree freed.start order) (withBlock free freed) live {kept} := by
  have divides : 2 ^ (order + 1) ∣ start := arranged.tiling.aligned ⟨start, order + 1⟩ (.inr rfl)
  have buddies : freed.buddy = kept := by
    rcases halves with ⟨rfl, rfl⟩ | ⟨rfl, rfl⟩
    · rw [← buddy_lower divides, buddy_buddy]
    · exact buddy_lower divides
  have pair : ({lower start order, upper start order} : Set Block) = {freed, kept} := by
    rcases halves with ⟨rfl, rfl⟩ | ⟨rfl, rfl⟩
    · exact Set.pair_comm _ _
    · rfl
  have freedOrder : freed.order = order := by
    rcases halves with ⟨-, rfl⟩ | ⟨-, rfl⟩ <;> rfl
  have tiling := arranged.tiling.split arranged.apartHand
  rw [pair] at tiling
  -- The halves lie in the block in the hand, apart from all others.
  have apart : Disjoint (blocksOf free ∪ live) {freed, kept} := by
    rw [Set.disjoint_left]
    intro candidate inside inPair
    have covered : (⟨start, order + 1⟩ : Block).Covers candidate.start := by
      rw [← parent_lower divides, (show (lower start order).Aligned from
          (pow_dvd_pow 2 (Nat.le_succ order)).trans divides).covers_parent,
        buddy_lower divides]
      rw [← pair] at inPair
      rcases inPair with rfl | rfl
      · exact .inl (covers_start _)
      · exact .inr (covers_start _)
    have same := arranged.tiling.disjoint candidate (.inl inside)
      ⟨start, order + 1⟩ (.inr rfl) candidate.start candidate.covers_start
      covered
    exact Set.disjoint_left.mp arranged.apartHand inside (same ▸ rfl)
  have regrouped := arranged.regroup tiling apart
  have freedNe : freed ∉ ({kept} : Set Block) := by
    intro equal
    have same : freed.buddy = freed := buddies.trans (Set.mem_singleton_iff.mp equal).symm
    exact freed.buddy_ne same
  have done := regrouped.put freedNe (by omega) small (fun _ inside => by
    rw [buddies] at inside
    exact Set.disjoint_left.mp apart (.inl inside) (.inr rfl))
  rw [freedOrder] at done
  exact done

end Arranged

namespace BuddySection

variable {order pfn : Nat}

/-- The splitting loop ends with the block that starts at the target. -/
theorem splitDown_spec {target : Nat} (small : total ≤ u32Max) (divides : 2 ^ order ∣ target)
    (steps : Nat) (arranged : Arranged total lists free live {⟨pfn, order + steps⟩})
    (bounded : order + steps ≤ maxOrder) (covered : (⟨pfn, order + steps⟩ : Block).Covers target) :
    ∃ freeAfter, (splitDown target order steps pfn lists).1 = target ∧
      Arranged total (splitDown target order steps pfn lists).2 freeAfter live {⟨target, order⟩} ∧
      pagesOf freeAfter + 2 ^ order = pagesOf free + 2 ^ (order + steps) := by
  induction steps generalizing pfn lists free with
  | zero =>
    obtain rfl : pfn = target := (arranged.tiling.aligned _ (.inr rfl)).start_eq covered divides
    exact ⟨free, rfl, arranged, rfl⟩
  | succ steps ih =>
    have doubled : 2 ^ (order + steps + 1) = 2 * 2 ^ (order + steps) := Nat.pow_succ'
    obtain ⟨above, below⟩ := covered
    simp only [size, ← add_assoc, doubled] at above below
    have half : order + steps ≤ maxOrder := by omega
    have whole : Arranged total lists free live {⟨pfn, (order + steps) + 1⟩} := arranged
    by_cases right : pfn + 2 ^ (order + steps) ≤ target
    · have next : Arranged total (lists.putFree pfn (order + steps))
          (withBlock free (.lower pfn (order + steps))) live {.upper pfn (order + steps)} :=
        whole.splitOff small bounded (.inr ⟨rfl, rfl⟩)
      obtain ⟨freeAfter, pfnEq, after, pages⟩ := ih next half ⟨right, by simp only [size]; omega⟩
      rw [pagesOf_withBlock free half] at pages
      simp only [splitDown, if_pos right]
      refine ⟨freeAfter, pfnEq, after, ?_⟩
      simp only [size, lower] at pages
      rw [← add_assoc, doubled]
      omega
    · have next : Arranged total (lists.putFree (pfn + 2 ^ (order + steps)) (order + steps))
          (withBlock free (.upper pfn (order + steps))) live {.lower pfn (order + steps)} :=
        whole.splitOff small bounded (.inl ⟨rfl, rfl⟩)
      obtain ⟨freeAfter, pfnEq, after, pages⟩ := ih next half ⟨above, by simp only [size]; omega⟩
      rw [pagesOf_withBlock free half] at pages
      simp only [splitDown, if_neg right]
      refine ⟨freeAfter, pfnEq, after, ?_⟩
      simp only [size, upper] at pages
      rw [← add_assoc, doubled]
      omega

/-- The merging loop ends with a block whose buddy is not free. -/
theorem coalesce_spec (small : total ≤ u32Max) (steps : Nat)
    (arranged : Arranged total lists free live {⟨pfn, order⟩}) (level : order + steps = maxOrder) :
    ∃ freeAfter merged listsAfter, coalesce total steps pfn order lists =
        (merged.start, merged.order, listsAfter) ∧
      Arranged total listsAfter freeAfter live {merged} ∧
      merged.order ≤ maxOrder ∧
      (merged.order < maxOrder → merged.buddy ∉ blocksOf freeAfter) ∧
      pagesOf freeAfter + merged.size = pagesOf free + 2 ^ order := by
  induction steps generalizing pfn order lists free with
  | zero =>
    have atGreatest : order = maxOrder := level
    exact ⟨free, ⟨pfn, order⟩, lists, rfl, arranged, atGreatest.le,
      fun below => absurd atGreatest below.ne, rfl⟩
  | succ steps ih =>
    have capped : order ≤ maxOrder := by omega
    simp only [coalesce]
    split_ifs with outside occupied
    · refine ⟨free, ⟨pfn, order⟩, lists, rfl, arranged, capped, fun _ inside => ?_, rfl⟩
      have below := arranged.start_lt (.inl (.inl inside))
      simp only [buddy] at below
      omega
    all_goals
      have below : (⟨pfn, order⟩ : Block).buddy.start < total := not_le.mp outside
      have readable := arranged.buddy_free_iff below
    · refine ⟨free, ⟨pfn, order⟩, lists, rfl, arranged, capped, fun _ inside => ?_, rfl⟩
      obtain ⟨isFree, sameOrder⟩ := readable.mpr inside
      exact occupied.elim (fun different => different isFree) (fun different => different sameOrder)
    · have member : (⟨pfn, order⟩ : Block).buddy ∈ blocksOf free := readable.mp (by tauto)
      have sameFrame : toU32 (pfn ^^^ 2 ^ order) = pfn ^^^ 2 ^ order := by
        unfold toU32 u32Max at *
        omega
      rw [sameFrame]
      have next : Arranged total (lists.freeListRemove (pfn ^^^ 2 ^ order) order)
          (withoutBlock free (⟨pfn, order⟩ : Block).buddy) live
          {⟨min pfn (pfn ^^^ 2 ^ order), order + 1⟩} :=
        arranged.mergeBuddy member
      obtain ⟨freeAfter, merged, listsAfter, equation, after, capped,
        lonely, pages⟩ := ih next (by omega)
      refine ⟨freeAfter, merged, listsAfter, equation, after, capped, lonely, ?_⟩
      have removed := pagesOf_withoutBlock (arranged.capped _ (.inl member)) member
      simp only [size_buddy] at removed
      simp only [size] at removed pages ⊢
      omega

end BuddySection

end TgosKits
