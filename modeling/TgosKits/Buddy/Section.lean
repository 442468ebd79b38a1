import TgosKits.Buddy.PageMeta
import TgosKits.MemoryAddr

/-!
# Buddy sections (`buddy/mod.rs`)

A section manages the page frames of one heap.  The free frames are kept in
blocks of a power of two; an allocation splits a block down to the order it
needs, a deallocation merges a block with its buddy as often as possible.

The metadata array is a function of the frame number, so the pointers to the
section and to its array are left out.  Frame numbers pass through `u32` where
the source casts them.
-/

namespace TgosKits

def maxOrder : Nat := 20

def dma32Limit : Nat := 0x100000000

inductive AllocError where
  | invalidParam
  | memoryOverlap
  | noMemory
  deriving DecidableEq, Repr

structure BuddySection where
  regionStart : Nat
  regionSize : Nat
  maxPages : Nat
  heapStart : Nat
  heapSize : Nat
  lists : FreeLists
  freePages : Nat
  totalPages : Nat

structure SectionInitSpec where
  regionStart : Nat
  regionSize : Nat
  metaSize : Nat
  heapStart : Nat
  heapSize : Nat

def FreeLists.putFree (lists : FreeLists) (pfn order : Nat) : FreeLists := (lists.modify pfn
    (fun entry => { entry with flags := .free, order := order })).freeListPush (toU32 pfn) order

namespace BuddySection

/-! ## Initialisation -/

/-- Bytes of metadata for a heap: one entry of 12 bytes per page. -/
def requiredMetaSize (pageSize heapSize : Nat) : Nat := heapSize / pageSize * 12

/-- The greatest order, from `order` downwards, of a block that can start at
`pfn`. -/
def fittingOrder (totalPages pfn : Nat) : Nat → Nat
  | 0 => 0
  | order + 1 =>
    if 2 ^ (order + 1) ≤ totalPages - pfn ∧ pfn &&& (2 ^ (order + 1) - 1) = 0 then
      order + 1
    else fittingOrder totalPages pfn order

/-- The loop that cuts the heap into free blocks.  Every round consumes a page,
so the number of pages bounds the loop. -/
def cutIntoBlocks : Nat → Nat → BuddySection → BuddySection
  | 0, _, state => state
  | fuel + 1, pfn, state =>
    if pfn < state.totalPages then
      let order := fittingOrder state.totalPages pfn maxOrder
      cutIntoBlocks fuel (pfn + 2 ^ order)
        { state with
          lists := state.lists.putFree pfn order
          freePages := state.freePages + 2 ^ order }
    else state

/-- The section before the first block has been put on a list. -/
def blank (pageSize : Nat) (spec : SectionInitSpec) : BuddySection where
  regionStart := spec.regionStart
  regionSize := spec.regionSize
  maxPages := spec.heapSize / pageSize
  heapStart := spec.heapStart
  heapSize := spec.heapSize
  lists := ⟨fun _ => .new, fun _ => pfnNone⟩
  freePages := 0
  totalPages := spec.heapSize / pageSize

def initAt (pageSize : Nat) (spec : SectionInitSpec) : Except AllocError BuddySection :=
  if ¬ pageSize.isPowerOfTwo then
    .error .invalidParam
  else if isAligned spec.heapStart pageSize = false ∨ spec.heapSize = 0 then
    .error .invalidParam
  else if spec.metaSize < requiredMetaSize pageSize spec.heapSize then
    .error .invalidParam
  else
    .ok (cutIntoBlocks (spec.heapSize / pageSize) 0 (blank pageSize spec))

variable (state : BuddySection)

def containsHeapAddr (addr : Nat) : Bool :=
  decide (state.heapStart ≤ addr ∧ addr < state.heapStart + state.heapSize)

/-! ## Allocation -/

/-- The first frame of a block of `allocOrder` inside a free block that starts
at an aligned address. -/
def findAlignedPfnInBlock (pageSize heapStart blockPfn blockOrder allocOrder align : Nat) :
    Option Nat :=
  let subblockPages := 2 ^ allocOrder
  let alignPages := align / pageSize
  let heapPageOffset := (heapStart / pageSize) &&& (alignPages - 1)
  let offset := (alignPages - heapPageOffset) &&& (alignPages - 1)
  let lastStart := blockPfn + 2 ^ blockOrder - subblockPages
  if alignPages ≤ subblockPages then
    if heapStart % align ≠ 0 then none
    else if blockPfn ≤ lastStart then some blockPfn else none
  else
    if offset % subblockPages ≠ 0 then none
    else
      let rem := blockPfn &&& (alignPages - 1)
      let delta := (offset + alignPages - rem) &&& (alignPages - 1)
      if blockPfn + delta ≤ lastStart then some (blockPfn + delta) else none

/-- Walk a free list up to the first block that is accepted. -/
def scanList (next : Nat → Nat) (accept : Nat → Option Nat) : Nat → Nat → Option (Nat × Nat)
  | 0, _ => none
  | fuel + 1, pfn =>
    if pfn = pfnNone then none
    else
      match accept pfn with
      | some target => some (pfn, target)
      | none => scanList next accept fuel (next pfn)

/-- Walk the free lists of the orders from `order` to `MAX_ORDER`.  The answer
is the order of the list, the block and the target in it.  A list has at most
one entry per page, which bounds the walk. -/
def searchLists (order : Nat) (accept : Nat → Nat → Option Nat) : Option (Nat × Nat × Nat) :=
  (List.range' order (maxOrder + 1 - order)).findSome? (fun searchOrder =>
    (scanList (fun pfn => (state.lists.pageMeta pfn).next)
      (accept searchOrder) (state.totalPages + 1)
      (state.lists.heads searchOrder)).map (fun found => (searchOrder, found)))

/-- Split a block of order `order + steps` down to `order`, keeping the half
with the target and freeing the other one. -/
def splitDown (target order : Nat) : Nat → Nat → FreeLists → Nat × FreeLists
  | 0, pfn, lists => (pfn, lists)
  | steps + 1, pfn, lists =>
    let currentOrder := order + steps
    let rightPfn := pfn + 2 ^ currentOrder
    if rightPfn ≤ target then
      splitDown target order steps rightPfn (lists.putFree pfn currentOrder)
    else
      splitDown target order steps pfn (lists.putFree rightPfn currentOrder)

/-- Take a block off its list, split it down to `order` and mark the part that
is left as allocated.  Both allocation functions of the source end like this. -/
def takeBlock (searchOrder blockPfn target order : Nat) :
    Nat × BuddySection :=
  match splitDown target order (searchOrder - order) blockPfn
      (state.lists.freeListRemove blockPfn searchOrder) with
  | (pfn, lists) =>
    (pfn,
      { state with
        lists := lists.modify pfn
          (fun entry => { entry with flags := .allocated, order := order })
        freePages := state.freePages - 2 ^ order })

def allocFromSectionAligned (pageSize order align : Nat) (state : BuddySection) :
    Except AllocError Nat × BuddySection :=
  match state.searchLists order (fun searchOrder blockPfn =>
      findAlignedPfnInBlock pageSize state.heapStart blockPfn searchOrder order align) with
  | none => (.error .noMemory, state)
  | some (searchOrder, blockPfn, target) =>
    match state.takeBlock searchOrder blockPfn target order with
    | (pfn, after) => (.ok (state.heapStart + pfn * pageSize), after)

/-- Whether a block at `target` lies below the DMA32 limit and is aligned.  The
sum wraps as a machine word does. -/
def lowmemAccepts (virtToPhys : Nat → Nat) (pageSize heapStart order align target : Nat) : Bool :=
  let addr := heapStart + target * pageSize
  decide ((virtToPhys addr + 2 ^ order * pageSize) % 2 ^ 64 ≤ dma32Limit ∧ addr % align = 0)

def allocLowmemFromSection (virtToPhys : Nat → Nat) (pageSize order align : Nat)
    (state : BuddySection) : Except AllocError Nat × BuddySection :=
  match state.searchLists order (fun searchOrder blockPfn =>
      (findAlignedPfnInBlock pageSize state.heapStart blockPfn searchOrder order align).filter
          (lowmemAccepts virtToPhys pageSize state.heapStart order align)) with
  | none => (.error .noMemory, state)
  | some (searchOrder, blockPfn, target) =>
    match state.takeBlock searchOrder blockPfn target order with
    | (_, after) => (.ok (state.heapStart + target * pageSize), after)

/-! ## Deallocation -/

def coalesce (maxPages : Nat) : Nat → Nat → Nat → FreeLists → Nat × Nat × FreeLists
  | 0, pfn, order, lists => (pfn, order, lists)
  | steps + 1, pfn, order, lists =>
    let buddyPfn := pfn ^^^ 2 ^ order
    if maxPages ≤ buddyPfn then
      (pfn, order, lists)
    else if (lists.pageMeta buddyPfn).flags ≠ .free ∨ (lists.pageMeta buddyPfn).order ≠ order then
      (pfn, order, lists)
    else
      coalesce maxPages steps (min pfn buddyPfn) (order + 1)
        (lists.freeListRemove (toU32 buddyPfn) order)

def deallocInSection (pfn order : Nat) : BuddySection :=
  match coalesce state.maxPages (maxOrder - order) pfn order state.lists with
  | (pfn, merged, lists) =>
    { state with
      lists := lists.putFree pfn merged
      freePages := state.freePages + 2 ^ order }

end BuddySection

/-! ## The allocator -/

/-- The sections in the order of their registration. -/
structure BuddyAllocator where
  sections : List BuddySection

namespace BuddyAllocator

def new : BuddyAllocator := ⟨[]⟩

def regionsMeet (spec : SectionInitSpec) (existing : BuddySection) : Bool :=
  decide (spec.regionStart < existing.regionStart + existing.regionSize ∧
    existing.regionStart < spec.regionStart + spec.regionSize)

def addRegionRaw (pageSize : Nat) (allocator : BuddyAllocator) (spec : SectionInitSpec) :
    Except AllocError BuddyAllocator :=
  match checkedAdd spec.regionStart spec.regionSize, checkedAdd spec.heapStart spec.heapSize with
  | some regionEnd, some heapEnd =>
    if regionEnd < heapEnd then
      .error .invalidParam
    else if allocator.sections.any (regionsMeet spec) then
      .error .memoryOverlap
    else
      match BuddySection.initAt pageSize spec with
      | .error error => .error error
      | .ok fresh => .ok ⟨allocator.sections ++ [fresh]⟩
  | _, _ => .error .invalidParam

/-- `count.next_power_of_two().trailing_zeros()`, the order of the smallest block
that holds `count` pages. -/
def orderFor (count : Nat) : Nat :=
  if count ≤ 1 then 0 else Nat.log2 (count - 1) + 1

def allocFirst (alloc : BuddySection → Except AllocError Nat × BuddySection) :
    List BuddySection → Except AllocError Nat × List BuddySection
  | [] => (.error .noMemory, [])
  | state :: rest =>
    match alloc state with
    | (.ok addr, after) => (.ok addr, after :: rest)
    | (.error _, after) =>
      match allocFirst alloc rest with
      | (answer, others) => (answer, after :: others)

/-- The checks that both allocation functions begin with: the order of the
block and the alignment. -/
def checkRequest (pageSize count align : Nat) : Except AllocError (Nat × Nat) :=
  if count = 0 then
    .error .invalidParam
  else
    let align := if align = 0 then pageSize else align
    if ¬ align.isPowerOfTwo ∨ align < pageSize then
      .error .invalidParam
    else if maxOrder < orderFor count then
      .error .invalidParam
    else
      .ok (orderFor count, align)

def allocPages (pageSize : Nat) (allocator : BuddyAllocator) (count align : Nat) :
    Except AllocError Nat × BuddyAllocator :=
  match checkRequest pageSize count align with
  | .error error => (.error error, allocator)
  | .ok (order, align) =>
    match allocFirst (BuddySection.allocFromSectionAligned pageSize order
        align) allocator.sections with
    | (answer, sections) => (answer, ⟨sections⟩)

def allocPagesLowmem (virtToPhys : Nat → Nat) (pageSize : Nat) (allocator : BuddyAllocator)
    (count align : Nat) : Except AllocError Nat × BuddyAllocator :=
  match checkRequest pageSize count align with
  | .error error => (.error error, allocator)
  | .ok (order, align) =>
    match allocFirst (BuddySection.allocLowmemFromSection virtToPhys pageSize
        order align) allocator.sections with
    | (answer, sections) => (answer, ⟨sections⟩)

def deallocFirst (pageSize addr : Nat) : List BuddySection → List BuddySection
  | [] => []
  | state :: rest =>
    if state.containsHeapAddr addr then
      let pfn := (addr - state.heapStart) / pageSize
      state.deallocInSection pfn (state.lists.pageMeta pfn).order :: rest
    else state :: deallocFirst pageSize addr rest

/-- `dealloc_pages`; the page count only feeds debug assertions. -/
def deallocPages (pageSize : Nat) (allocator : BuddyAllocator) (addr _count : Nat) :
    BuddyAllocator :=
  ⟨deallocFirst pageSize addr allocator.sections⟩

end BuddyAllocator

end TgosKits
