import TgosKits.PageTable.Region

/-! # Region mapping is atomic -/

namespace TgosKits

open PteFormat PageTableRef

namespace PageTableRef

variable {Pte Config : Type} {format : PteFormat Pte Config} {layout : TableMeta}
  {alloc : Nat → Option Nat} {table : PageTableRef} {config : Config}
  {selection : RegionPageSelection} {getPaddr : Nat → Except PagingError Nat}
  {start size offset : Nat} {before now : PageTables Pte} {blocks : List MappedBlock}

/-- What a call leaves behind: the walks it found if it failed, the whole region
if it succeeded. -/
structure RegionOutcome (format : PteFormat Pte Config) (layout : TableMeta)
    (alloc : Nat → Option Nat) (table : PageTableRef) (config : Config)
    (getPaddr : Nat → Except PagingError Nat) (selection : RegionPageSelection) (start size : Nat)
    (before : PageTables Pte) (run : Except PagingError Unit × PageTables Pte) : Prop where
  failed : ∀ error, run.1 = .error error → ∀ addr,
    (format.tree layout).lookup run.2.memory layout.ptLevel table.root addr =
      (format.tree layout).lookup before.memory layout.ptLevel table.root addr
  mapped : run.1 = .ok () → ∃ blocks, RegionMapped format layout alloc table
    config getPaddr selection start size before run.2 blocks

theorem RegionOutcome.refused {error : PagingError} :
    RegionOutcome format layout alloc table config getPaddr selection start size
      before (.error error, before) where
  failed := fun _ _ _ => rfl
  mapped := by simp

section

variable (mapped : RegionMapped format layout alloc table config getPaddr selection start offset
  before now blocks)
  (startAligned : start % layout.pageSize = 0) (offsetAligned : offset % layout.pageSize = 0)
  (fits : start + size ≤ usizeMax) (order : offset ≤ size)
include mapped startAligned offsetAligned fits order

theorem RegionOutcome.rolledBack {operation : String} {error : PagingError}
    (width : validateAddressWidth layout start size operation = .ok ()) :
    RegionOutcome format layout alloc table config getPaddr selection start size
      before (table.rollback format layout start offset error now) := by
  rcases mapped.rolledBack startAligned offsetAligned fits order width with ⟨after, ran, restored⟩
  rw [ran]
  exact ⟨fun _ _ => restored, by simp⟩

/-- One round of the loop installs a leaf or fails; the rest of the region is
the induction on the fuel. -/
private theorem regionLoop_outcome {fuel : Nat} {operation : String}
    (machine : ∀ vaddr paddr, getPaddr vaddr = .ok paddr → paddr ≤ usizeMax)
    (sizeAligned : size % layout.pageSize = 0)
    (width : validateAddressWidth layout start size operation = .ok ())
    (enough : size - offset ≤ fuel) :
    RegionOutcome format layout alloc table config getPaddr selection start size
      before (table.regionLoop format layout alloc getPaddr start size config
        selection fuel offset now) := by
  induction fuel generalizing offset now blocks with
  | zero =>
    obtain rfl : offset = size := by omega
    exact ⟨by simp [regionLoop], fun _ => ⟨blocks, mapped⟩⟩
  | succ fuel ih =>
    unfold regionLoop
    by_cases finished : offset ≥ size
    · obtain rfl : offset = size := by omega
      rw [if_pos finished]
      exact ⟨by simp, fun _ => ⟨blocks, mapped⟩⟩
    rw [if_neg finished]
    have sum : checkedAdd start offset = some (start + offset) :=
      checkedAdd_eq_some_iff.mpr ⟨rfl, by omega⟩
    simp only [sum]
    cases resolved : getPaddr (start + offset) with
    | error error =>
      exact .rolledBack mapped startAligned offsetAligned fits order width
    | ok paddr =>
      simp only
      by_cases unaligned : (paddr % layout.pageSize != 0) = true
      · rw [if_pos unaligned]
        exact .rolledBack mapped startAligned offsetAligned fits order width
      rw [if_neg unaligned]
      have vaddrDvd : layout.pageSize ∣ start + offset :=
        Nat.dvd_add (Nat.dvd_of_mod_eq_zero startAligned) (Nat.dvd_of_mod_eq_zero offsetAligned)
      have paddrDvd : layout.pageSize ∣ paddr := Nat.dvd_of_mod_eq_zero (by simpa using unaligned)
      have room : layout.pageSize ≤ size - offset := Nat.le_of_dvd (by omega) (Nat.dvd_sub
          (Nat.dvd_of_mod_eq_zero sizeAligned) (Nat.dvd_of_mod_eq_zero offsetAligned))
      have chosen : ∃ bottom, SizeOfLevel layout (start + offset) paddr
          (size - offset) (selectedPageSize layout selection (start + offset)
            paddr (size - offset)) bottom :=
        selectedPageSize_level vaddrDvd paddrDvd room
      rcases chosen with ⟨bottom, sizeOfLevel⟩
      have huge := selectedPageSize_huge sizeOfLevel
      generalize selectedPageSize layout selection (start + offset) paddr
        (size - offset) = pageSize at sizeOfLevel ⊢
      have sizeEq := sizeOfLevel.size_eq
      have within := sizeOfLevel.enough
      have vaddrEq : alignDown (start + offset) pageSize = start + offset :=
        sizeEq ▸ alignDown_levelSize (by omega) (sizeEq ▸ sizeOfLevel.vaddrAligned)
      have paddrEq : alignDown paddr pageSize = paddr :=
        sizeEq ▸ alignDown_levelSize (machine _ _ resolved) (sizeEq ▸ sizeOfLevel.paddrAligned)
      rw [vaddrEq, paddrEq]
      rcases map_outcome sizeOfLevel mapped.wellFormed mapped.freshFrames with ⟨fresh, outcome⟩
      generalize table.map format layout alloc (start + offset) paddr pageSize
        config (decide (pageSize > layout.pageSize)) now = run at outcome ⊢
      rcases run with ⟨error | done, after⟩
      · exact .rolledBack (mapped.refused outcome) startAligned offsetAligned fits order width
      have next : checkedAdd offset pageSize = some (offset + pageSize) :=
        checkedAdd_eq_some_iff.mpr ⟨rfl, by omega⟩
      simp only [next]
      rw [sizeEq] at within ⊢
      have pageDvd : layout.pageSize ∣ layout.levelSize bottom := by
        rw [← layout.levelSize_one]
        exact layout.levelSize_dvd sizeOfLevel.positive
      have positive := layout.levelSize_pos bottom
      refine ih (mapped.install ?_ outcome) ?_ (by omega) (by omega)
      · exact ⟨sizeOfLevel.positive, sizeOfLevel.inside,
          sizeEq ▸ sizeOfLevel.vaddrAligned, Nat.le_add_right _ _,
          (add_assoc _ _ _).le, resolved,
          sizeEq ▸ sizeOfLevel.paddrAligned, huge⟩
      · exact Nat.mod_eq_zero_of_dvd (Nat.dvd_add (Nat.dvd_of_mod_eq_zero offsetAligned) pageDvd)

end

theorem mapRegionWithSelection_outcome
    (machine : ∀ vaddr paddr, getPaddr vaddr = .ok paddr → paddr ≤ usizeMax)
    (wellFormed : table.WellFormed format layout before.memory)
    (freshFrames : FreshFrames format alloc before.requests
      ((format.tree layout).frames before.memory layout.ptLevel table.root)) :
    RegionOutcome format layout alloc table config getPaddr selection start size
      before (table.mapRegionWithSelection format layout alloc start getPaddr size
        config selection before) := by
  unfold mapRegionWithSelection
  split_ifs with empty unaligned
  · exact .refused
  · exact .refused
  split
  · exact .refused
  rename_i stop sum
  rcases checkedAdd_eq_some_iff.mp sum with ⟨_, fits⟩
  split
  · exact .refused
  rename_i width
  simp only [Bool.or_eq_true, bne_iff_ne, ne_eq, not_or, not_not] at unaligned
  exact regionLoop_outcome (.nothing wellFormed freshFrames) unaligned.1
    (Nat.zero_mod _) fits (Nat.zero_le _) machine unaligned.2 width (Nat.sub_le _ _)

/-! ## Translations -/

section

variable {memory memory' : FrameMemory Pte} {vaddr : Nat}

theorem findOccupiedLeaf_eq_lookup :
    format.findOccupiedLeaf layout memory layout.ptLevel table.root vaddr =
      match (format.tree layout).lookup memory layout.ptLevel table.root vaddr with
      | none => .error .notMapped
      | some (level, pte) => format.leafResult level pte := by
  rw [findOccupiedLeaf_eq layout.ptLevel_pos]
  unfold RadixTree.lookup
  cases (format.tree layout).endSlot memory layout.ptLevel table.root vaddr <;>
    rfl

theorem query_congr (same : (format.tree layout).lookup memory' layout.ptLevel table.root vaddr =
      (format.tree layout).lookup memory layout.ptLevel table.root vaddr) :
    table.query format layout memory' vaddr = table.query format layout memory vaddr := by
  have walk : format.findOccupiedLeaf layout memory' layout.ptLevel table.root vaddr =
      format.findOccupiedLeaf layout memory layout.ptLevel table.root vaddr := by
    rw [findOccupiedLeaf_eq_lookup, findOccupiedLeaf_eq_lookup, same]
  unfold query translateWithLevel translateRecursiveWithLevel
  rw [walk]

/-- The format keeps the address and the configuration of a leaf, and reads the
entry back as a present leaf. -/
structure Encodes (format : PteFormat Pte Config) (paddr : Nat)
    (config : Config) (isHuge : Bool) : Prop where
  used : format.unused (format.newPage paddr config isHuge) = false
  present : format.present (format.newPage paddr config isHuge) = true
  block : isHuge = true → format.huge (format.newPage paddr config isHuge) true = true
  address : format.paddr (format.newPage paddr config isHuge) isHuge = paddr
  attributes : format.config (format.newPage paddr config isHuge) isHuge = config

theorem query_of_lookup {bottom paddr : Nat} (positive : 0 < bottom)
    (encodes : Encodes format paddr config (decide (bottom > 1)))
    (inWidth : layout.strictAddressWidth = true → layout.isAddrInWidth vaddr = true)
    (found : (format.tree layout).lookup memory layout.ptLevel table.root vaddr =
      some (bottom, format.blockEntry bottom paddr config)) :
    table.query format layout memory vaddr = .ok (paddr + vaddr % layout.levelSize bottom, config,
        layout.levelSize bottom) := by
  have valid : ¬ (layout.strictAddressWidth && !layout.isAddrInWidth vaddr) =
      true := by
    cases strict : layout.strictAddressWidth with
    | false => simp
    | true => simp [inWidth strict]
  have isLeaf : format.isLeaf bottom (format.newPage paddr config
      (decide (bottom > 1))) = true := by
    unfold isLeaf
    by_cases above : bottom > 1
    · have block := encodes.block
      rw [decide_eq_true above] at block ⊢
      simp [block]
    · have lowest : bottom = 1 := by omega
      simp [lowest]
  have offset : (if format.huge (format.newPage paddr config
        (decide (bottom > 1))) (decide (bottom > 1)) = true then
      vaddr % layout.levelSize bottom else vaddr % layout.pageSize) =
      vaddr % layout.levelSize bottom := by
    by_cases above : bottom > 1
    · have block := encodes.block
      rw [decide_eq_true above] at block ⊢
      rw [if_pos (block rfl)]
    · have lowest : bottom = 1 := by omega
      rw [lowest, layout.levelSize_one, ite_self]
  unfold query translateWithLevel translateRecursiveWithLevel
  rw [if_neg valid, findOccupiedLeaf_eq_lookup, found]
  simp only [blockEntry, leafResult, isLeaf, if_true,
    encodes.present, Bool.not_true, Bool.false_eq_true, if_false,
    encodes.address]
  split_ifs at offset ⊢ with huge
  · simp [encodes.attributes]
  · simp [encodes.attributes, offset]

end

/-! ## The three calls -/

/-- A request to map a region: by a resolver that can fail, by one that cannot,
or linearly from a physical address. -/
inductive RegionRequest where
  | checked (getPaddr : Nat → Except PagingError Nat)
  | total (getPaddr : Nat → Nat)
  | linear (startPaddr : Nat) (allowHuge : Bool)

namespace RegionRequest

/-- The resolver the call hands to `map_region_with_selection`. -/
def resolve (start : Nat) : RegionRequest → Nat → Except PagingError Nat
  | .checked getPaddr => getPaddr
  | .total getPaddr => fun vaddr => .ok (getPaddr vaddr)
  | .linear startPaddr _ => linearPaddr start startPaddr

def pageSelection : RegionRequest → RegionPageSelection
  | .checked _ => .basePages
  | .total _ => .basePages
  | .linear _ allowHuge => .linear allowHuge

def run (format : PteFormat Pte Config) (layout : TableMeta)
    (alloc : Nat → Option Nat) (table : PageTableRef) (start size : Nat)
    (config : Config) (tables : PageTables Pte) :
    RegionRequest → Except PagingError Unit × PageTables Pte
  | .checked getPaddr =>
    table.mapRegionChecked format layout alloc start getPaddr size config tables
  | .total getPaddr =>
    table.mapRegion format layout alloc start getPaddr size config tables
  | .linear startPaddr allowHuge =>
    table.mapLinearPages format layout alloc start startPaddr size config allowHuge tables

/-- The physical address a request asks for; resolvers answer for pages. -/
def target (layout : TableMeta) (start vaddr : Nat) : RegionRequest → Except PagingError Nat
  | .checked getPaddr =>
    (getPaddr (vaddr - vaddr % layout.pageSize)).map (· + vaddr % layout.pageSize)
  | .total getPaddr =>
    .ok (getPaddr (vaddr - vaddr % layout.pageSize) + vaddr % layout.pageSize)
  | .linear startPaddr _ => .ok (startPaddr + (vaddr - start))

def Machine (request : RegionRequest) (start : Nat) : Prop :=
  ∀ vaddr paddr, request.resolve start vaddr = .ok paddr → paddr ≤ usizeMax

/-- The format encodes every leaf the request can install. -/
def Encoded (format : PteFormat Pte Config) (layout : TableMeta)
    (start size : Nat) (config : Config) (request : RegionRequest) : Prop :=
  ∀ level vaddr paddr, 0 < level → level ≤ layout.ptLevel → start ≤ vaddr → vaddr < start + size →
    request.resolve start vaddr = .ok paddr →
    layout.levelSize level ∣ vaddr → layout.levelSize level ∣ paddr →
    (1 < level → request.pageSelection = .linear true ∧ level ≤ layout.maxBlockLevel) →
    Encodes format paddr config (decide (level > 1))

variable {request : RegionRequest}

theorem mapRegionWithSelection_accepted
    (ran : (table.mapRegionWithSelection format layout alloc start getPaddr size
      config selection before).1 = .ok ()) :
    start + size ≤ usizeMax ∧ validateAddressWidth layout start size "map_region" = .ok () := by
  unfold mapRegionWithSelection at ran
  split_ifs at ran
  split at ran
  · cases ran
  rename_i stop sum
  split at ran
  · cases ran
  rename_i width
  exact ⟨(checkedAdd_eq_some_iff.mp sum).2, width⟩

theorem run_accepted
    (ran : (request.run format layout alloc table start size config before).1 = .ok ()) :
    start + size ≤ usizeMax ∧ validateAddressWidth layout start size "map_region" = .ok () := by
  cases request with
  | checked | total => exact mapRegionWithSelection_accepted ran
  | linear startPaddr allowHuge =>
    simp only [run, mapLinearPages] at ran
    split_ifs at ran
    split at ran
    · cases ran
    split at ran
    · cases ran
    exact mapRegionWithSelection_accepted ran

private theorem target_of_block {block : MappedBlock} {vaddr : Nat}
    (placed : BlockPlaced layout (request.resolve start) request.pageSelection start size block)
    (lower : block.vaddr ≤ vaddr) (upper : vaddr < block.vaddr + layout.levelSize block.bottom) :
    request.target layout start vaddr =
      .ok (block.paddr + vaddr % layout.levelSize block.bottom) := by
  have offset : vaddr % layout.levelSize block.bottom = vaddr - block.vaddr := by
    rcases placed.aligned with ⟨quotient, base⟩
    rw [base] at lower upper ⊢
    have split : vaddr = layout.levelSize block.bottom * quotient +
        (vaddr - layout.levelSize block.bottom * quotient) := by omega
    nth_rewrite 1 [split]
    rw [Nat.mul_add_mod]
    exact Nat.mod_eq_of_lt (by omega)
  have resolved := placed.resolved
  have basePage : request.pageSelection = .basePages →
      vaddr % layout.pageSize = vaddr - block.vaddr := by
    intro base
    have lowest : block.bottom = 1 := by
      by_contra above
      have huge := (placed.huge (by have := placed.positive; omega)).1
      rw [base] at huge
      cases huge
    rw [← offset, lowest, layout.levelSize_one]
  rw [offset]
  cases request with
  | checked getPaddr =>
    have pageOffset := basePage rfl
    have page : vaddr - (vaddr - block.vaddr) = block.vaddr := by omega
    simp only [resolve] at resolved
    simp [target, pageOffset, page, resolved, Except.map]
  | total getPaddr =>
    have pageOffset := basePage rfl
    have page : vaddr - (vaddr - block.vaddr) = block.vaddr := by omega
    simp only [resolve, Except.ok.injEq] at resolved
    simp [target, pageOffset, page, resolved]
  | linear startPaddr allowHuge =>
    simp only [resolve, linearPaddr] at resolved
    split_ifs at resolved
    split at resolved
    · cases resolved
    rename_i paddr sum
    cases resolved
    rw [(checkedAdd_eq_some_iff.mp sum).1]
    simp only [target]
    congr 1
    omega

/-- The request is carried out, or nothing changes. -/
structure Atomic (format : PteFormat Pte Config) (layout : TableMeta)
    (table : PageTableRef) (config : Config) (request : RegionRequest)
    (start size : Nat) (before after : PageTables Pte)
    (result : Except PagingError Unit) : Prop where
  inside : result = .ok () → request.Encoded format layout start size config →
    ∀ vaddr, start ≤ vaddr → vaddr < start + size → ∃ paddr leafSize,
      request.target layout start vaddr = .ok paddr ∧
      table.query format layout after.memory vaddr = .ok (paddr, config, leafSize)
  outside : result = .ok () → ∀ vaddr, vaddr ≤ usizeMax → (vaddr < start ∨ start + size ≤ vaddr) →
    (layout.strictAddressWidth = true ∨ ∀ other, start ≤ other → other < start + size →
      vaddr % 2 ^ layout.validBits ≠ other % 2 ^ layout.validBits) →
    table.query format layout after.memory vaddr = table.query format layout before.memory vaddr
  failed : ∀ error, result = .error error → ∀ vaddr, table.query format layout after.memory vaddr =
      table.query format layout before.memory vaddr

/-- Addresses a strict layout accepts have no alias. -/
private theorem eq_of_mod_eq {vaddr other : Nat}
    (machine : vaddr ≤ usizeMax) (otherMachine : other ≤ usizeMax)
    (inWidth : layout.isAddrInWidth vaddr = true) (otherInWidth : layout.isAddrInWidth other = true)
    (same : vaddr % 2 ^ layout.validBits = other % 2 ^ layout.validBits) : vaddr = other := by
  have bound : ∀ addr, addr ≤ usizeMax → layout.isAddrInWidth addr = true →
      addr < 2 ^ layout.validBits := by
    intro addr small accepted
    simp only [TableMeta.isAddrInWidth, Bool.or_eq_true, decide_eq_true_eq] at accepted
    rcases accepted with wide | narrow
    · have power : 2 ^ 64 ≤ 2 ^ layout.validBits := Nat.pow_le_pow_right (by omega) wide
      have word : usizeMax < 2 ^ 64 := by decide
      omega
    · exact narrow
  rwa [Nat.mod_eq_of_lt (bound vaddr machine inWidth),
    Nat.mod_eq_of_lt (bound other otherMachine otherInWidth)] at same

end RegionRequest

end PageTableRef

/-! ## A region beside a mapped page -/

def twoFrames (request : Nat) : Option Nat :=
  if request < 2 then some (0x10000 + 0x1000 * request) else none

private theorem sparse_twoFrames_fresh (layout : TableMeta)
    (away : ∀ frame ∈ (plainFormat.tree layout).frames sparseTables.memory
      layout.ptLevel sparseRef.root, frame < 0x10000) :
    FreshFrames plainFormat twoFrames sparseTables.requests
      ((plainFormat.tree layout).frames sparseTables.memory layout.ptLevel sparseRef.root) where
  notUsed := by
    intro request _ frame granted member
    have small := away frame member
    unfold twoFrames at granted
    split_ifs at granted
    cases granted
    omega
  distinct := by
    intro request other _ _ frame granted again
    unfold twoFrames at granted again
    split_ifs at granted again
    simp only [Option.some.injEq] at granted again
    omega
  linkable := by
    intro request _ frame _ level above
    have notLeaf : (level == 1) = false := by
      rw [beq_eq_false_iff_ne]
      omega
    simp [entryKind, isLeaf, plainFormat, notLeaf]

/-- The layout without the check of the address width. -/
def laxSv39 : TableMeta :=
  { sv39 with strictAddressWidth := false }

end TgosKits
