import TgosKits.Buddy.Layout

/-! # Freeing everything -/

namespace TgosKits

open DyadicTiling LinkedList BuddyRun BuddySection BuddyAllocator FreeLists List

namespace BuddySection

def walkList (next : Nat → Nat) : Nat → Nat → List Nat
  | 0, _ => []
  | fuel + 1, pfn =>
    if pfn = pfnNone then [] else pfn :: walkList next fuel (next pfn)

/-- The blocks on the free lists.  A list has at most one entry per page, which
bounds the walk. -/
def freeBlocks (state : BuddySection) : Set Block :=
  {block | block.order ≤ maxOrder ∧
    block.start ∈ walkList (fun pfn => (state.lists.pageMeta pfn).next)
      (state.totalPages + 1) (state.lists.heads block.order)}

private theorem walkList_eq {links : Links Nat} {items : List Nat} {before first : Nat}
    (chain : links.Chain pfnNone before first items) {fuel : Nat} (enough : items.length < fuel) :
    walkList links.next fuel first = items := by
  induction items generalizing before first fuel with
  | nil =>
    cases fuel with
    | zero => omega
    | succ fuel => exact if_pos chain
  | cons item rest ih =>
    obtain ⟨rfl, itemNe, -, tail⟩ := chain
    cases fuel with
    | zero => omega
    | succ fuel =>
      rw [length_cons] at enough
      rw [walkList, if_neg itemNe, ih tail (by omega)]

variable {state : BuddySection} {free : Nat → List Nat} {live hand : Set Block}

theorem freeBlocks_eq (arranged : Arranged state.totalPages state.lists free live hand) :
    state.freeBlocks = blocksOf free := by
  ext block
  have walked : block.order ≤ maxOrder → walkList (fun pfn => (state.lists.pageMeta pfn).next)
        (state.totalPages + 1) (state.lists.heads block.order) =
        free block.order :=
    fun bounded => walkList_eq (arranged.holds block.order bounded).chain
      (Nat.lt_succ_of_le (length_le arranged bounded))
  constructor
  · rintro ⟨bounded, member⟩
    rwa [walked bounded] at member
  · intro member
    have bounded := arranged.capped block (.inl member)
    exact ⟨bounded, by rwa [walked bounded]⟩

/-- Two sound sections of the same size without live blocks have the same free
blocks and the same page count. -/
private theorem Sound.freeBlocks_unique {pageSize : Nat} {other : BuddySection}
    (sound : state.Sound pageSize ∅) (otherSound : other.Sound pageSize ∅)
    (sameSize : state.totalPages = other.totalPages) :
    state.freeBlocks = other.freeBlocks ∧ state.freePages = other.freePages := by
  obtain ⟨free, arranged, counted⟩ := sound.arranged
  obtain ⟨otherFree, otherArranged, otherCounted⟩ := otherSound.arranged
  have same : blocksOf free = blocksOf otherFree := by
    have tiling : Tiling other.totalPages (blocksOf free) := by
      simpa [sameSize] using arranged.tiling
    have otherTiling : Tiling other.totalPages (blocksOf otherFree) := by
      simpa using otherArranged.tiling
    exact tiling.unique otherTiling arranged.coalesced otherArranged.coalesced
      (fun block member => arranged.capped block (.inl member))
      (fun block member => otherArranged.capped block (.inl member))
  constructor
  · rw [freeBlocks_eq arranged, freeBlocks_eq otherArranged, same]
  · rw [counted, otherCounted]
    apply Finset.sum_congr rfl
    intro order member
    have bounded : order ≤ maxOrder := Nat.le_of_lt_succ (Finset.mem_range.mp member)
    have permuted : (free order).Perm (otherFree order) := by
      rw [perm_ext_iff_of_nodup (arranged.nodup bounded) (otherArranged.nodup bounded)]
      intro start
      exact Set.ext_iff.mp same ⟨start, order⟩
    rw [permuted.length_eq]

end BuddySection

/-- In every run whose heaps fit, once no block is live, every section has the
free blocks that `init_at` made for it, and all its pages are free. -/
theorem drained_run_restores {virtToPhys : Nat → Nat} {pageSize : Nat} {run : BuddyRun}
    (reachable : Reachable virtToPhys pageSize run) (drained : run.live = []) :
    ∀ state ∈ run.allocator.sections, ∃ spec fresh, initAt pageSize spec = .ok fresh ∧
      fresh.SameHeap state ∧
      state.freeBlocks = fresh.freeBlocks ∧
      state.freePages = state.totalPages := by
  intro state member
  have invariant := reachable.invariant
  have sound := invariant.sound state member
  have nothingLive : liveIn pageSize state run.live = ∅ := by
    rw [drained]
    ext block
    simp [liveIn]
  rw [nothingLive] at sound
  obtain ⟨spec, fresh, initialised, small, same⟩ := invariant.origin state member
  obtain ⟨freshSound, allFree, -⟩ := initAt_sound small initialised
  have sameSize : state.totalPages = fresh.totalPages := by rw [same]
  obtain ⟨blocksEq, pagesEq⟩ := sound.freeBlocks_unique freshSound sameSize
  exact ⟨spec, fresh, initialised, same, blocksEq, pagesEq.trans (allFree.trans sameSize.symm)⟩

def fivePagesFreed : BuddyRun := fivePages.perform id 0x1000 (.deallocPages ⟨0x2000, 1⟩ 2)

theorem fivePagesFreed_restored : (Reachable id 0x1000 fivePagesFreed ∧ fivePagesFreed.live = []) ∧
      ∀ state ∈ fivePagesFreed.allocator.sections, state.freePages = state.totalPages := by
  have reachable : Reachable id 0x1000 fivePagesFreed := reachable_fivePages.tail
      ⟨.deallocPages ⟨0x2000, 1⟩ 2,
        show (⟨0x2000, 1⟩ : LiveBlock) ∈ fivePages.live by decide, trivial,
        rfl⟩
  have drained : fivePagesFreed.live = [] := by decide
  refine ⟨⟨reachable, drained⟩, fun state member => ?_⟩
  obtain ⟨_, _, _, _, _, allFree⟩ := drained_run_restores reachable drained state member
  exact allFree

/-! ## The heap with too many frames -/

namespace BuddySection

variable {state : BuddySection}

/-- A section after frame 0 has been handed out as a page of its own. -/
def firstPageTaken (state : BuddySection) : BuddySection :=
  { state with
    lists := (state.lists.freeListRemove 0 0).modify 0
      (fun entry => { entry with flags := .allocated, order := 0 })
    freePages := state.freePages - 1 }

section

variable (after : AfterLast state)
include after

theorem AfterLast.alloc (heapStart : state.heapStart = 2 ^ 40) :
    allocFromSectionAligned 0x1000 0 0x1000 state = (.ok (2 ^ 40), state.firstPageTaken) := by
  have found : state.searchLists 0 (fun searchOrder blockPfn =>
      findAlignedPfnInBlock 0x1000 state.heapStart blockPfn searchOrder 0
        0x1000) = some (0, 0, 0) := by
    unfold searchLists
    rw [show range' 0 (maxOrder + 1 - 0) = 0 :: range' 1 20 from rfl,
      findSome?_cons, after.firstHead, scanList, if_neg (by decide),
      heapStart]
    rfl
  unfold allocFromSectionAligned
  rw [found]
  simp [takeBlock, splitDown, heapStart, firstPageTaken]

theorem AfterLast.pageMeta_taken :
    state.firstPageTaken.lists.pageMeta 0 = ⟨.allocated, 0, pfnNone, pfnNone⟩ ∧
      state.firstPageTaken.lists.pageMeta 1 = .new ∧
      state.firstPageTaken.lists.pageMeta 2 = .new := by
  have links : (state.lists.pageMeta 0).prev = pfnNone ∧
      (state.lists.pageMeta 0).next = pfnNone := by
    rw [after.first]
    exact ⟨rfl, rfl⟩
  simp only [firstPageTaken, FreeLists.freeListRemove, FreeLists.modify,
    setHead, links.1, links.2, ne_eq, not_true, if_false]
  refine ⟨by simp, ?_, ?_⟩
  · rw [Function.update_of_ne (by decide), Function.update_of_ne (by decide)]
    exact after.second
  · rw [Function.update_of_ne (by decide), Function.update_of_ne (by decide)]
    exact after.third

theorem AfterLast.dealloc (maxPages : state.maxPages = hugePages) :
    (state.firstPageTaken.deallocInSection 0 0).lists.heads 1 = 0 := by
  obtain ⟨-, second, third⟩ := after.pageMeta_taken
  have maxPagesEq : state.firstPageTaken.maxPages = hugePages := maxPages
  have thirdAfter : ((state.firstPageTaken.lists.freeListRemove 1 0).pageMeta 2).order = 0 := by
    rw [(sameMarks_freeListRemove _ 1 0 2).2, third]
    rfl
  have merged : coalesce state.firstPageTaken.maxPages (maxOrder - 0) 0 0
      state.firstPageTaken.lists =
      (0, 1, state.firstPageTaken.lists.freeListRemove 1 0) := by
    rw [maxPagesEq, show maxOrder - 0 = 18 + 1 + 1 from rfl, coalesce]
    simp only [show (0 : Nat) ^^^ 2 ^ 0 = 1 from rfl, second]
    rw [if_neg (by decide), if_neg (by decide),
      show min 0 1 = 0 from rfl, show toU32 1 = 1 from rfl, coalesce]
    simp only [show (0 : Nat) ^^^ 2 ^ (0 + 1) = 2 from rfl, thirdAfter]
    rw [if_neg (by decide), if_pos (.inr (by decide))]
  unfold deallocInSection
  rw [merged]
  simp only [putFree, heads_freeListPush]
  rfl

end

theorem sameHeap_freed (state : BuddySection) :
    state.SameHeap (state.firstPageTaken.deallocInSection 0 0) := rfl

theorem mem_freeBlocks_of_head (headEq : state.lists.heads 1 = 0) :
    (⟨0, 1⟩ : Block) ∈ state.freeBlocks := by
  refine ⟨by decide, ?_⟩
  simp only [headEq, walkList]
  rw [if_neg (by decide)]
  exact mem_cons_self

theorem not_mem_freeBlocks_of_head (headEq : state.lists.heads 1 = pfnNone) :
    (⟨0, 1⟩ : Block) ∉ state.freeBlocks := by
  rintro ⟨-, member⟩
  simp only [headEq, walkList, if_true] at member
  exact absurd member not_mem_nil

end BuddySection

theorem sameHeap_hugeSection : (blank 0x1000 hugeSpec).SameHeap hugeSection :=
  sameHeap_cutIntoBlocks _ _ _

theorem heapStart_hugeSection : hugeSection.heapStart = 2 ^ 40 := by
  rw [sameHeap_hugeSection]
  rfl

private theorem maxPages_hugeSection : hugeSection.maxPages = hugePages := by
  rw [sameHeap_hugeSection]
  rfl

private theorem heapSize_hugeSection : hugeSection.heapSize = hugePages * 0x1000 := by
  rw [sameHeap_hugeSection]
  rfl

def hugeRunTaken : BuddyRun := ⟨⟨[hugeSection.firstPageTaken]⟩, [⟨2 ^ 40, 0⟩]⟩

def hugeRunDrained : BuddyRun := ⟨⟨[hugeSection.firstPageTaken.deallocInSection 0 0]⟩, []⟩

theorem perform_alloc_hugeRun : hugeRun.perform id 0x1000 (.allocPages 1 0) = hugeRunTaken := by
  have request : checkRequest 0x1000 1 0 = .ok (0, 0x1000) := by decide
  simp only [perform, hugeRun, allocPages, request,
    allocFirst, afterLast_hugeSection.alloc heapStart_hugeSection]
  rfl

private theorem perform_dealloc_hugeRunTaken :
    hugeRunTaken.perform id 0x1000 (.deallocPages ⟨2 ^ 40, 0⟩ 1) =
      hugeRunDrained := by
  have contains : hugeSection.firstPageTaken.containsHeapAddr (2 ^ 40) = true := by
    simp only [containsHeapAddr, firstPageTaken, heapStart_hugeSection, heapSize_hugeSection]
    decide
  have frame : (2 ^ 40 - hugeSection.firstPageTaken.heapStart) / 0x1000 = 0 := by
    simp only [firstPageTaken, heapStart_hugeSection]
    decide
  have order : (hugeSection.firstPageTaken.lists.pageMeta 0).order = 0 := by
    rw [afterLast_hugeSection.pageMeta_taken.1]
  simp only [perform, hugeRunTaken, deallocPages, deallocFirst, contains, if_true, frame, order,
    erase_cons_head]
  rfl

/-- A page allocated and freed again: nothing is live, but the free blocks are
not those that `init_at` made. -/
theorem hugeRunDrained_not_restored : (Relation.ReflTransGen (Step id 0x1000) start hugeRunDrained ∧
      hugeRunDrained.live = []) ∧
    initAt 0x1000 hugeSpec = .ok hugeSection ∧
    ∃ state ∈ hugeRunDrained.allocator.sections, hugeSection.SameHeap state ∧
        state.freeBlocks ≠ hugeSection.freeBlocks := by
  have reachable : Relation.ReflTransGen (Step id 0x1000) start hugeRunDrained :=
    ((reachable_hugeRun id).tail ⟨.allocPages 1 0, trivial, perform_alloc_hugeRun⟩).tail
      ⟨.deallocPages ⟨2 ^ 40, 0⟩ 1, mem_singleton.mpr rfl, perform_dealloc_hugeRunTaken⟩
  refine ⟨⟨reachable, rfl⟩, rfl, _, mem_singleton.mpr rfl,
    sameHeap_freed hugeSection, fun equal => ?_⟩
  have after := afterLast_hugeSection
  have present := mem_freeBlocks_of_head (after.dealloc maxPages_hugeSection)
  rw [equal] at present
  exact not_mem_freeBlocks_of_head after.secondHead present

end TgosKits
