import TgosKits.PageTable.Unmap

/-!
# Installing mappings (`map_range_recursive`, `map_region*`)

The frame allocator is an oracle: `alloc n` is the answer to the `n`-th request,
counted from the creation of the system, and `none` is a failed allocation.  A
resolver is asked for every address of a region at most once and in increasing
order, so that a stateful one is a function of the address here.
-/

namespace TgosKits

/-- The mapping of a range of a table, as a function of the frame, the two ends of
the virtual range and the first physical address. -/
abbrev MapWalk (Pte : Type) := Nat → Nat → Nat → Nat → PageTables Pte →
    Except PagingError Unit × PageTables Pte

namespace PteFormat

variable {Pte Config : Type} (format : PteFormat Pte Config)
  (layout : TableMeta) (alloc : Nat → Option Nat)

def newFrame (tables : PageTables Pte) : Option Nat × PageTables Pte :=
  match alloc tables.requests with
  | none => (none, { tables with requests := tables.requests + 1 })
  | some frame =>
    (some frame,
      { tables with
        memory := Function.update tables.memory frame fun _ => format.zero
        requests := tables.requests + 1 })

/-- Whether a block of a level may start at the cursor. -/
def hugeFits (layout : TableMeta) (allowHuge : Bool) (level vaddr paddr remaining : Nat) : Bool :=
  allowHuge && decide (level > 1) && decide (level ≤ layout.maxBlockLevel) &&
    decide (layout.levelSize level ≤ remaining) &&
    vaddr % layout.levelSize level == 0 && paddr % layout.levelSize level == 0

def advanceBoth (vaddr paddr amount : Nat) : Except PagingError (Nat × Nat) :=
  match checkedAdd vaddr amount with
  | none => .error (.addressOverflow "Virtual address overflow in map_range_recursive")
  | some nextVaddr =>
    match checkedAdd paddr amount with
    | none => .error (.addressOverflow "Physical address overflow in map_range_recursive")
    | some nextPaddr => .ok (nextVaddr, nextPaddr)

def writeLeaf (level frame vaddr paddr amount : Nat) (config : Config)
    (isHuge : Bool) (tables : PageTables Pte) : Except PagingError (Nat × Nat) × PageTables Pte :=
  let index := layout.virtToIndex vaddr level
  let pte := tables.memory frame index
  if !format.unused pte then
    (.error (.mappingConflict vaddr (format.paddr pte isHuge)), tables)
  else
    (advanceBoth vaddr paddr amount, tables.write frame index (format.newPage paddr config isHuge))

/-- The table behind an entry, linked first if the entry is unused. -/
def childTable (level frame vaddr : Nat) (tables : PageTables Pte) :
    Except PagingError Nat × PageTables Pte :=
  let index := layout.virtToIndex vaddr level
  let currentPte := tables.memory frame index
  if !format.unused currentPte then
    if format.huge currentPte true then
      (.error (.mappingConflict vaddr (format.paddr currentPte true)), tables)
    else if !format.present currentPte then
      (.error (.hierarchyError "Non-present intermediate entry is not a leaf"), tables)
    else
      (.ok (format.paddr currentPte true), tables)
  else
    match format.newFrame alloc tables with
    | (none, tables) => (.error .noMemory, tables)
    | (some newFrame, tables) =>
      (.ok newFrame, tables.write frame index (format.newTable newFrame))

def mapEntry (child : MapWalk Pte) (level frame stop : Nat) (allowHuge : Bool)
    (config : Config) (vaddr paddr : Nat) (tables : PageTables Pte) :
    Except PagingError (Nat × Nat) × PageTables Pte :=
  let levelSize := layout.levelSize level
  if hugeFits layout allowHuge level vaddr paddr (stop - vaddr) then
    format.writeLeaf layout level frame vaddr paddr levelSize config true tables
  else if level == 1 then
    format.writeLeaf layout level frame vaddr paddr layout.pageSize config false tables
  else
    match format.childTable layout alloc level frame vaddr tables with
    | (.error error, tables) => (.error error, tables)
    | (.ok childFrame, tables) =>
      match entryStop "Page-table entry end overflow in map_range_recursive"
          vaddr levelSize stop with
      | .error error => (.error error, tables)
      | .ok nextLevelVaddr =>
        match child childFrame vaddr nextLevelVaddr paddr tables with
        | (.error error, tables) => (.error error, tables)
        | (.ok (), tables) =>
          match checkedAdd paddr (nextLevelVaddr - vaddr) with
          | none => (.error (.addressOverflow
              "Physical address overflow in map_range_recursive"), tables)
          | some nextPaddr => (.ok (nextLevelVaddr, nextPaddr), tables)

/-- The loop of `map_range_recursive`; the length of the range is enough
fuel. -/
def mapLoop (child : MapWalk Pte) (level frame stop : Nat) (allowHuge : Bool) (config : Config) :
    Nat → Nat → Nat → PageTables Pte → Except PagingError Unit × PageTables Pte
  | 0, _, _, tables => (.ok (), tables)
  | fuel + 1, vaddr, paddr, tables =>
    if vaddr < stop then
      match format.mapEntry layout alloc child level frame stop allowHuge config
          vaddr paddr tables with
      | (.error error, tables) => (.error error, tables)
      | (.ok (nextVaddr, nextPaddr), tables) =>
        mapLoop child level frame stop allowHuge config fuel nextVaddr nextPaddr tables
    else
      (.ok (), tables)

def mapRangeRecursive (allowHuge : Bool) (config : Config) : Nat → MapWalk Pte
  | 0 => fun _ _ _ _ tables =>
    (.error (.hierarchyError "Invalid level"), tables)
  | level + 1 => fun frame start stop paddr tables =>
    format.mapLoop layout alloc (mapRangeRecursive allowHuge config level)
      (level + 1) frame stop allowHuge config (stop - start) start paddr tables

end PteFormat

inductive RegionPageSelection where
  | basePages
  | linear (allowHuge : Bool)
  deriving DecidableEq, Repr

namespace PageTableRef

variable {Pte Config : Type} (format : PteFormat Pte Config)
  (layout : TableMeta) (alloc : Nat → Option Nat) (table : PageTableRef)

def validateMapping (vaddr paddr size : Nat) : Except PagingError Unit :=
  if size == 0 then
    .error (.invalidSize "Size cannot be zero")
  else if vaddr % layout.pageSize != 0 then
    .error (.alignmentError "Virtual address not page aligned")
  else if paddr % layout.pageSize != 0 then
    .error (.alignmentError "Physical address not page aligned")
  else if (checkedAdd vaddr size).isNone || (checkedAdd paddr size).isNone then
    .error (.addressOverflow "Virtual or physical address overflow")
  else
    validateAddressWidth layout vaddr size "map"

def map (vaddr paddr size : Nat) (config : Config) (allowHuge : Bool)
    (tables : PageTables Pte) : Except PagingError Unit × PageTables Pte :=
  match validateMapping layout vaddr paddr size with
  | .error error => (.error error, tables)
  | .ok () =>
    match checkedAdd vaddr size with
    | none =>
      (.error (.addressOverflow "Virtual address overflow in map"), tables)
    | some stop =>
      format.mapRangeRecursive layout alloc allowHuge config layout.ptLevel
        table.root vaddr stop paddr tables

def largestPageSize (vaddr paddr remaining : Nat) (allowHuge : Bool) : Nat :=
  if allowHuge then
    let maxLevel := min layout.ptLevel layout.maxBlockLevel
    match (List.range' 2 (maxLevel - 1)).reverse.find? fun level =>
        isAligned vaddr (layout.levelSize level) && isAligned paddr (layout.levelSize level) &&
          decide (remaining ≥ layout.levelSize level) with
    | some level => layout.levelSize level
    | none => layout.pageSize
  else
    layout.pageSize

/-- Removes the mappings a failed call installed and returns its error, or the
error of the removal. -/
def rollback (start offset : Nat) (error : PagingError)
    (tables : PageTables Pte) : Except PagingError Unit × PageTables Pte :=
  if offset == 0 then
    (.error error, tables)
  else
    match table.unmapWithConfig format layout start offset tables with
    | (.ok (), tables) => (.error error, tables)
    | (.error rollbackError, tables) => (.error rollbackError, tables)

def selectedPageSize (selection : RegionPageSelection) (vaddr paddr remaining : Nat) : Nat :=
  match selection with
  | .basePages => layout.pageSize
  | .linear allowHuge => largestPageSize layout vaddr paddr remaining allowHuge

/-- The loop of `map_region_with_selection`; the size of the region is enough
fuel. -/
def regionLoop (getPaddr : Nat → Except PagingError Nat) (start size : Nat)
    (config : Config) (selection : RegionPageSelection) :
    Nat → Nat → PageTables Pte → Except PagingError Unit × PageTables Pte
  | 0, _, tables => (.ok (), tables)
  | fuel + 1, offset, tables =>
    if offset ≥ size then
      (.ok (), tables)
    else
      match checkedAdd start offset with
      | none => (.error (.addressOverflow "Virtual address overflow in map_region"), tables)
      | some vaddr =>
        match getPaddr vaddr with
        | .error error => table.rollback format layout start offset error tables
        | .ok paddr =>
          if paddr % layout.pageSize != 0 then
            table.rollback format layout start offset (.alignmentError
                "Physical resolver returned an unaligned base page") tables
          else
            let pageSize := selectedPageSize layout selection vaddr paddr (size - offset)
            match table.map format layout alloc (alignDown vaddr pageSize)
                (alignDown paddr pageSize) pageSize config
                (decide (pageSize > layout.pageSize)) tables with
            | (.error error, tables) =>
              table.rollback format layout start offset error tables
            | (.ok (), tables) =>
              match checkedAdd offset pageSize with
              | some offset =>
                regionLoop getPaddr start size config selection fuel offset tables
              | none =>
                (.error (.addressOverflow "Mapping offset overflow in map_region"),
                  (table.unmapWithConfig format layout start offset tables).2)

def mapRegionWithSelection (start : Nat)
    (getPaddr : Nat → Except PagingError Nat) (size : Nat) (config : Config)
    (selection : RegionPageSelection) (tables : PageTables Pte) :
    Except PagingError Unit × PageTables Pte :=
  if size == 0 then
    (.error (.invalidSize "Region size cannot be zero"), tables)
  else if start % layout.pageSize != 0 || size % layout.pageSize != 0 then
    (.error (.alignmentError "Region start and size must be base-page aligned"), tables)
  else
    match checkedAdd start size with
    | none => (.error (.addressOverflow "Virtual address overflow in map_region"), tables)
    | some _ =>
      match validateAddressWidth layout start size "map_region" with
      | .error error => (.error error, tables)
      | .ok () =>
        table.regionLoop format layout alloc getPaddr start size config selection size 0 tables

def mapRegionChecked (start : Nat) (getPaddr : Nat → Except PagingError Nat)
    (size : Nat) (config : Config) (tables : PageTables Pte) :
    Except PagingError Unit × PageTables Pte :=
  table.mapRegionWithSelection format layout alloc start getPaddr size config .basePages tables

def mapRegion (start : Nat) (getPaddr : Nat → Nat) (size : Nat)
    (config : Config) (tables : PageTables Pte) : Except PagingError Unit × PageTables Pte :=
  table.mapRegionChecked format layout alloc start
    (fun vaddr => .ok (getPaddr vaddr)) size config tables

def linearPaddr (start startPaddr vaddr : Nat) : Except PagingError Nat :=
  if vaddr < start then
    .error (.addressOverflow "Virtual address precedes linear mapping start")
  else
    match checkedAdd startPaddr (vaddr - start) with
    | none => .error (.addressOverflow "Physical address overflow in linear mapping")
    | some paddr => .ok paddr

def mapLinearPages (start startPaddr size : Nat) (config : Config)
    (allowHuge : Bool) (tables : PageTables Pte) : Except PagingError Unit × PageTables Pte :=
  if size == 0 || size % layout.pageSize != 0 then
    (.error (.invalidSize "Linear mapping size must be base-page aligned"), tables)
  else
    match checkedAdd start size with
    | none => (.error (.addressOverflow "Virtual address overflow in map_linear_pages"), tables)
    | some _ =>
      match checkedAdd startPaddr size with
      | none => (.error (.addressOverflow "Physical address overflow in map_linear_pages"), tables)
      | some _ =>
        table.mapRegionWithSelection format layout alloc start
          (linearPaddr start startPaddr) size config (.linear allowHuge) tables

def translateWithLevel (memory : FrameMemory Pte) (vaddr : Nat) :
    Except PagingError (Nat × Pte × Nat) :=
  if layout.strictAddressWidth && !layout.isAddrInWidth vaddr then
    .error (.addressOverflow "translate")
  else
    match format.translateRecursiveWithLevel layout memory layout.ptLevel table.root vaddr with
    | .error error => .error error
    | .ok (pte, level) =>
      let ptePaddr := format.paddr pte (decide (level > 1))
      if format.huge pte (decide (level > 1)) then
        .ok (ptePaddr + vaddr % layout.levelSize level, pte, level)
      else
        .ok (ptePaddr + vaddr % layout.pageSize, pte, level)

def query (memory : FrameMemory Pte) (vaddr : Nat) : Except PagingError (Nat × Config × Nat) :=
  match table.translateWithLevel format layout memory vaddr with
  | .error error => .error error
  | .ok (paddr, pte, level) =>
    .ok (paddr, format.config pte (decide (level > 1)), layout.levelSize level)

end PageTableRef

end TgosKits
