import TgosKits.Buddy.Overflow

/-! # The layout of every reachable section -/

namespace TgosKits

open DyadicTiling BuddyRun

structure BuddySection.Layout (pageSize : Nat) (state : BuddySection) (live : List LiveBlock)
    (free : Nat → List Nat) : Prop where
  /-- Free and live blocks cut the frames into aligned blocks. -/
  partition : Tiling state.totalPages (blocksOf free ∪ liveIn pageSize state live)
  apart : Disjoint (blocksOf free) (liveIn pageSize state live)
  capped : ∀ block ∈ blocksOf free, block.order ≤ maxOrder
  linked : ∀ order ≤ maxOrder, state.lists.Holds order (free order)
  /-- The lists hold the head frames that are marked free with their order. -/
  heads : ∀ pfn order, pfn ∈ free order ↔ (∃ block ∈ blocksOf free ∪ liveIn pageSize state live,
      block.start = pfn) ∧
    (state.lists.pageMeta pfn).flags = .free ∧
    (state.lists.pageMeta pfn).order = order
  counted : state.freePages = pagesOf free
  coalesced : Coalesced maxOrder (blocksOf free)

theorem BuddySection.Sound.layout {pageSize : Nat} {state : BuddySection} {live : List LiveBlock}
    (sound : state.Sound pageSize (liveIn pageSize state live)) :
    ∃ free, state.Layout pageSize live free := by
  obtain ⟨free, arranged, counted⟩ := sound.arranged
  have tiling : Tiling state.totalPages (blocksOf free ∪ liveIn pageSize state live) := by
    simpa using arranged.tiling
  refine ⟨free, tiling, arranged.apartLive, fun block member => arranged.capped block (.inl member),
    arranged.holds, ?_, counted, arranged.coalesced⟩
  intro pfn order
  constructor
  · intro member
    have inFree : (⟨pfn, order⟩ : Block) ∈ blocksOf free := member
    exact ⟨⟨⟨pfn, order⟩, .inl inFree, rfl⟩, arranged.freeMarked _ inFree⟩
  · rintro ⟨⟨block, member, rfl⟩, isFree, orderEq⟩
    rcases member with inFree | inLive
    · have accurate := (arranged.freeMarked block inFree).2
      rw [← orderEq, accurate]
      exact inFree
    · exact absurd isFree (arranged.liveMarked block inLive).1

/-- In every run whose heaps fit: every section has its layout, the live blocks
belong to sections and lie apart, and a granted block lies in a heap, is aligned
and large enough and meets no live block. -/
theorem reachable_buddy_layout {virtToPhys : Nat → Nat} {pageSize : Nat} {run : BuddyRun}
    (reachable : Reachable virtToPhys pageSize run) :
    (∀ state ∈ run.allocator.sections, ∃ free, state.Layout pageSize run.live free) ∧
    (∀ block ∈ run.live, ∃ state ∈ run.allocator.sections, ∃ pfn < state.totalPages,
        block.addr = state.heapStart + pfn * pageSize) ∧
    (∀ first ∈ run.live, ∀ second ∈ run.live, first ≠ second →
      first.addr + 2 ^ first.order * pageSize ≤ second.addr ∨
        second.addr + 2 ^ second.order * pageSize ≤ first.addr) ∧
    (∀ count align addr after, run.allocator.allocPages pageSize count align = (.ok addr, after) →
        Grant pageSize run count align addr) ∧
    (∀ count align addr after, run.allocator.allocPagesLowmem virtToPhys pageSize count align =
        (.ok addr, after) →
        Grant pageSize run count align addr) := by
  have invariant := reachable.invariant
  refine ⟨fun state member => (invariant.sound state member).layout, invariant.owned, ?_, ?_, ?_⟩
  · intro first firstMember second secondMember different
    exact invariant.live_apart firstMember secondMember different
  · intro count align addr after granted
    exact (invariant.allocPages granted).2 addr rfl
  · intro count align addr after granted
    exact (invariant.allocPagesLowmem granted).2 addr rfl

/-- A section of five pages, two of which have been handed out. -/
def fivePages : BuddyRun := (start.perform id 0x1000
    (.addRegion ⟨0x1000, 0x10000, 60, 0x2000, 0x5000⟩)).perform id 0x1000 (.allocPages 2 0)

theorem reachable_fivePages : Reachable id 0x1000 fivePages := (Relation.ReflTransGen.single
    ⟨.addRegion ⟨0x1000, 0x10000, 60, 0x2000, 0x5000⟩, show 0x1000 ≤ 0x2000 by decide,
      show 0x5000 / 0x1000 ≤ u32Max by decide, rfl⟩).tail
    ⟨.allocPages 2 0, trivial, trivial, rfl⟩

theorem fivePages_layout : Reachable id 0x1000 fivePages ∧ fivePages.live = [⟨0x2000, 1⟩] ∧
      (fivePages.allocator.allocPages 0x1000 1 0).1 = .ok 0x6000 ∧
      Grant 0x1000 fivePages 1 0 0x6000 := by
  have granted : (fivePages.allocator.allocPages 0x1000 1 0).1 = .ok 0x6000 := by decide
  exact ⟨reachable_fivePages, by decide, granted,
    (reachable_buddy_layout reachable_fivePages).2.2.2.1 1 0 0x6000 _ (Prod.ext granted rfl)⟩

/-- The heap with too many frames has no layout: frame 0 is on the list of order
0, but it is marked with the greatest order. -/
theorem hugeRun_no_layout : Relation.ReflTransGen (Step id 0x1000) start hugeRun ∧
      ∃ state ∈ hugeRun.allocator.sections, ¬ ∃ free, state.Layout 0x1000 hugeRun.live free := by
  refine ⟨reachable_hugeRun id, hugeSection, List.mem_singleton.mpr rfl, ?_⟩
  rintro ⟨free, layout⟩
  have after := BuddySection.afterLast_hugeSection
  have onList : 0 ∈ free 0 := by
    have first := (layout.linked 0 (by decide)).chain.first_eq
    rw [after.firstHead] at first
    exact first.resolve_left (by decide)
  have marked := ((layout.heads 0 0).mp onList).2.2
  rw [after.first] at marked
  cases marked

end TgosKits
