import Mathlib.Algebra.Order.BigOperators.Group.List
import TgosKits.Library.RadixTree
import TgosKits.MemoryAddr

/-!
# Page tables: level layout, entries and walks (`page-table-generic`)

A page table is a radix tree in physical memory.  `TableMeta` keeps the level
layout of the source's trait of that name, `PteFormat` its `PageTableEntry`
trait.  The entries of a table frame are addressed by the frame's physical
address and the entry's index; a root made of several contiguous frames is one
longer array at the address of the first.

TLB maintenance and the virtual mapping of the frames are left out.
-/

namespace TgosKits

open List

/-- The errors of `PagingError` that the modelled operations return. -/
inductive PagingError where
  | noMemory
  | alignmentError (details : String)
  | mappingConflict (vaddr existingPaddr : Nat)
  | addressOverflow (details : String)
  | invalidSize (details : String)
  | hierarchyError (details : String)
  | invalidRange (details : String)
  | notMapped
  deriving DecidableEq, Repr

/-- A page-table entry format.  The arguments of type `Bool` are the source's
`is_huge` and `is_dir`. -/
structure PteFormat (Pte Config : Type) where
  newPage : Nat → Config → Bool → Pte
  newTable : Nat → Pte
  paddr : Pte → Bool → Nat
  config : Pte → Bool → Config
  present : Pte → Bool
  huge : Pte → Bool → Bool
  unused : Pte → Bool
  clear : Pte → Pte
  zero : Pte
  unused_clear : ∀ pte, unused (clear pte) = true
  unused_zero : unused zero = true
  /-- A block is not read as a pointer to a table: it is a block for `huge`, or
  takes no part in translation. -/
  block_not_table : ∀ paddr config, huge (newPage paddr config true) true = true ∨
      present (newPage paddr config true) = false

/-- The level layout of a page table.  `levelBits` goes from the root to the
leaf tables; `len` is the number of entries in one frame. -/
structure TableMeta where
  pageShift : Nat
  levelBits : List Nat
  maxBlockLevel : Nat
  strictAddressWidth : Bool
  len : Nat
  levels_pos : levelBits ≠ []
  len_pos : 0 < len
  bits_fit : ∀ bits ∈ levelBits.tail, 2 ^ bits ≤ len
  bits_width : pageShift + levelBits.tail.sum < 64

namespace TableMeta

variable (layout : TableMeta)

def pageSize : Nat := 2 ^ layout.pageShift

def ptLevel : Nat := layout.levelBits.length

def validBits : Nat := layout.levelBits.sum + layout.pageShift

def bitsAt (level : Nat) : Nat := layout.levelBits.getD (layout.ptLevel - level) 0

/-- The number of address bits below the index of a level. -/
def levelShift (level : Nat) : Nat := layout.pageShift +
    (layout.levelBits.drop (layout.ptLevel - level + 1)).sum

def levelSize (level : Nat) : Nat := 2 ^ layout.levelShift level

def virtToIndex (vaddr level : Nat) : Nat :=
  vaddr / 2 ^ layout.levelShift level % 2 ^ layout.bitsAt level

def rootLen : Nat := (2 ^ layout.bitsAt layout.ptLevel + layout.len - 1) / layout.len * layout.len

def slotCount (level : Nat) : Nat :=
  if level < layout.ptLevel then layout.len else layout.rootLen

def isAddrInWidth (addr : Nat) : Bool :=
  decide (64 ≤ layout.validBits) || decide (addr < 2 ^ layout.validBits)

theorem ptLevel_pos : 0 < layout.ptLevel := length_pos_iff.mpr layout.levels_pos

theorem levelSize_pos (level : Nat) : 0 < layout.levelSize level := Nat.two_pow_pos _

theorem levelShift_one : layout.levelShift 1 = layout.pageShift := by
  have full : layout.levelBits.length ≤ layout.levelBits.length - 1 + 1 := by omega
  simp [levelShift, ptLevel, drop_eq_nil_of_le full]

theorem levelSize_one : layout.levelSize 1 = layout.pageSize := by
  rw [levelSize, layout.levelShift_one, pageSize]

variable {first second level : Nat}

theorem levelShift_le (order : first ≤ second) :
    layout.levelShift first ≤ layout.levelShift second := by
  apply Nat.add_le_add_left
  apply Sublist.sum_le_sum
  · apply drop_sublist_drop_left
    omega
  · intro bits _
    exact Nat.zero_le bits

theorem sum_drop_level (positive : 0 < level) :
    (layout.levelBits.drop (layout.ptLevel - level)).sum = layout.bitsAt level +
        (layout.levelBits.drop (layout.ptLevel - level + 1)).sum := by
  have inside : layout.ptLevel - level < layout.levelBits.length := by
    have := layout.ptLevel_pos
    unfold ptLevel at this ⊢
    omega
  rw [drop_eq_getElem_cons inside, sum_cons, bitsAt, getD_eq_getElem _ _ inside]

theorem levelShift_succ (positive : 0 < level) (below : level < layout.ptLevel) :
    layout.levelShift (level + 1) = layout.levelShift level + layout.bitsAt level := by
  have next : layout.ptLevel - (level + 1) + 1 = layout.ptLevel - level := by
    omega
  unfold levelShift
  rw [next, layout.sum_drop_level positive]
  omega

theorem validBits_eq : layout.validBits =
      layout.levelShift layout.ptLevel + layout.bitsAt layout.ptLevel := by
  have total := layout.sum_drop_level layout.ptLevel_pos
  rw [Nat.sub_self, drop_zero] at total
  unfold validBits levelShift
  rw [Nat.sub_self, total]
  omega

private theorem levelShift_lt (level : Nat) : layout.levelShift level < 64 := by
  refine lt_of_le_of_lt ?_ layout.bits_width
  apply Nat.add_le_add_left
  rw [← drop_one]
  apply Sublist.sum_le_sum
  · apply drop_sublist_drop_left
    omega
  · intro bits _
    exact Nat.zero_le bits

theorem levelSize_le_usizeMax (level : Nat) : layout.levelSize level ≤ usizeMax := by
  have bound : layout.levelSize level ≤ 2 ^ 63 := Nat.pow_le_pow_right (by omega) (by
      have := layout.levelShift_lt level
      omega)
  unfold usizeMax
  omega

theorem levelSize_dvd (order : first ≤ second) : layout.levelSize first ∣ layout.levelSize second :=
  pow_dvd_pow 2 (layout.levelShift_le order)

private theorem two_pow_bits_le_rootLen : 2 ^ layout.bitsAt layout.ptLevel ≤ layout.rootLen := by
  unfold rootLen
  have rounded := Nat.div_add_mod (2 ^ layout.bitsAt layout.ptLevel + layout.len - 1) layout.len
  have remainder := Nat.mod_lt (2 ^ layout.bitsAt layout.ptLevel + layout.len - 1) layout.len_pos
  rw [Nat.mul_comm] at rounded
  omega

theorem two_pow_bits_le_slotCount (level : Nat) :
    2 ^ layout.bitsAt level ≤ layout.slotCount level := by
  unfold slotCount
  split_ifs with below
  · unfold bitsAt
    by_cases inside : layout.ptLevel - level < layout.levelBits.length
    · apply layout.bits_fit
      rw [getD_eq_getElem _ _ inside, mem_iff_getElem]
      refine ⟨layout.ptLevel - level - 1, ?_, ?_⟩
      · rw [length_tail]
        omega
      · rw [getElem_tail]
        congr 1
        omega
    · rw [getD_eq_default _ _ (by omega)]
      exact layout.len_pos
  · have top : layout.bitsAt level = layout.bitsAt layout.ptLevel := by
      unfold bitsAt
      congr 1
      omega
    rw [top]
    exact layout.two_pow_bits_le_rootLen

end TableMeta

/-- The physical memory of the tables and what the frame allocator was asked:
the frames given back and the number of frames requested. -/
structure PageTables (Pte : Type) where
  memory : FrameMemory Pte
  freed : List Nat
  requests : Nat

namespace PageTables

variable {Pte : Type} (tables : PageTables Pte)

def write (frame index : Nat) (pte : Pte) : PageTables Pte :=
  { tables with memory := tables.memory.store frame index pte }

def deallocFrame (frame : Nat) : PageTables Pte :=
  { tables with freed := tables.freed ++ [frame] }

@[simp]
theorem memory_write (frame index : Nat) (pte : Pte) :
    (tables.write frame index pte).memory = tables.memory.store frame index pte :=
  rfl

@[simp]
theorem memory_deallocFrame (frame : Nat) : (tables.deallocFrame frame).memory = tables.memory :=
  rfl

end PageTables

namespace PteFormat

variable {Pte Config : Type} (format : PteFormat Pte Config) (layout : TableMeta)

def findOccupiedLeaf (memory : FrameMemory Pte) : Nat → Nat → Nat → Except PagingError (Pte × Nat)
  | 0, _, _ =>
    .error (.hierarchyError "Invalid page table level during translation")
  | level + 1, frame, vaddr =>
    let pte := memory frame (layout.virtToIndex vaddr (level + 1))
    if format.unused pte then
      .error .notMapped
    else if format.huge pte (decide (level + 1 > 1)) || level + 1 == 1 then
      .ok (pte, level + 1)
    else if !format.present pte then
      .error (.hierarchyError "Non-present intermediate entry is not a leaf")
    else
      findOccupiedLeaf memory level (format.paddr pte true) vaddr

def translateRecursiveWithLevel (memory : FrameMemory Pte)
    (level frame vaddr : Nat) : Except PagingError (Pte × Nat) :=
  match format.findOccupiedLeaf layout memory level frame vaddr with
  | .error error => .error error
  | .ok (pte, level) =>
    if !format.present pte then .error .notMapped else .ok (pte, level)

def isLeaf (level : Nat) (pte : Pte) : Bool := format.huge pte (decide (level > 1)) || level == 1

/-- How a walk reads an entry.  A non-present entry above the leaf tables that is
not a block ends the walk as well. -/
def entryKind (level : Nat) (pte : Pte) : EntryKind :=
  if format.unused pte then
    .empty
  else if !format.isLeaf level pte && format.present pte then
    .table (format.paddr pte true)
  else
    .final

def leafResult (level : Nat) (pte : Pte) : Except PagingError (Pte × Nat) :=
  if format.isLeaf level pte then
    .ok (pte, level)
  else
    .error (.hierarchyError "Non-present intermediate entry is not a leaf")

def tree : RadixTree Pte where
  size := layout.levelSize
  radix := fun level => 2 ^ layout.bitsAt level
  slots := layout.slotCount
  unused := format.unused
  kind := format.entryKind
  size_pos := layout.levelSize_pos
  size_dvd := fun level => layout.levelSize_dvd (Nat.le_succ level)
  radix_pos := fun _ => Nat.two_pow_pos _
  radix_le := layout.two_pow_bits_le_slotCount
  kind_eq_empty := by
    intro level pte
    unfold entryKind
    split_ifs with unused <;> simp [unused]

variable {format layout} {memory : FrameMemory Pte} {level frame vaddr : Nat}

@[simp]
theorem tree_index : (format.tree layout).index level vaddr = layout.virtToIndex vaddr level :=
  rfl

@[simp]
theorem tree_size : (format.tree layout).size level = layout.levelSize level :=
  rfl

@[simp]
theorem tree_slots : (format.tree layout).slots level = layout.slotCount level :=
  rfl

variable {pte : Pte}

@[simp]
theorem tree_kind : (format.tree layout).kind level pte = format.entryKind level pte :=
  rfl

theorem findOccupiedLeaf_succ : format.findOccupiedLeaf layout memory (level + 1) frame vaddr =
      match format.entryKind (level + 1) (memory frame (layout.virtToIndex vaddr (level + 1))) with
      | .empty => .error .notMapped
      | .final => format.leafResult (level + 1)
        (memory frame (layout.virtToIndex vaddr (level + 1)))
      | .table child =>
        format.findOccupiedLeaf layout memory level child vaddr := by
  simp only [findOccupiedLeaf, entryKind, leafResult, isLeaf]
  generalize memory frame (layout.virtToIndex vaddr (level + 1)) = pte
  by_cases unused : format.unused pte = true
  · simp [unused]
  by_cases leaf : (format.huge pte (decide (level + 1 > 1)) || level + 1 == 1) = true
  · simp only [unused, leaf, if_true, Bool.not_true, Bool.false_and]
    rfl
  rw [Bool.not_eq_true] at leaf
  cases present : format.present pte <;>
    simp only [unused, leaf, if_false, if_true, Bool.not_true,
      Bool.not_false, Bool.true_and, Bool.false_eq_true]

theorem entryKind_one_ne_table {below : Nat} : format.entryKind 1 pte ≠ .table below := by
  unfold entryKind isLeaf
  split_ifs <;> simp_all

theorem findOccupiedLeaf_eq (positive : 0 < level) :
    format.findOccupiedLeaf layout memory level frame vaddr =
      match (format.tree layout).endSlot memory level frame vaddr with
      | none => .error .notMapped
      | some slot =>
        format.leafResult slot.level (memory slot.frame slot.index) := by
  induction level, positive using Nat.le_induction generalizing frame with
  | base =>
    rw [findOccupiedLeaf_succ, RadixTree.endSlot]
    cases kind : format.entryKind 1 (memory frame (layout.virtToIndex vaddr 1)) with
    | empty => simp [kind]
    | final => simp [kind]
    | table child => exact absurd kind entryKind_one_ne_table
  | succ level _ ih =>
    rw [findOccupiedLeaf_succ, RadixTree.endSlot]
    cases kind : format.entryKind (level + 1)
        (memory frame (layout.virtToIndex vaddr (level + 1))) with
    | empty => simp [kind]
    | final => simp [kind]
    | table child =>
      simp only [tree_kind, tree_index, kind]
      exact ih

private theorem leafResult_ne_notMapped : format.leafResult level pte ≠ .error .notMapped := by
  unfold leafResult
  split_ifs <;> simp

variable (positive : 0 < level)
include positive

theorem findOccupiedLeaf_eq_ok_iff {leaf : Pte × Nat} :
    format.findOccupiedLeaf layout memory level frame vaddr = .ok leaf ↔ ∃ slot,
        (format.tree layout).endSlot memory level frame vaddr = some slot ∧
        format.isLeaf slot.level (memory slot.frame slot.index) = true ∧
        (memory slot.frame slot.index, slot.level) = leaf := by
  rw [findOccupiedLeaf_eq positive]
  cases (format.tree layout).endSlot memory level frame vaddr with
  | none => simp
  | some slot =>
    simp only [leafResult, Option.some.injEq, exists_eq_left']
    split_ifs with leaf <;> simp [leaf]

theorem findOccupiedLeaf_of_thinner {memory' : FrameMemory Pte}
    (thinner : (format.tree layout).Thinner memory memory')
    (inUse : format.findOccupiedLeaf layout memory' level frame vaddr ≠ .error .notMapped) :
    format.findOccupiedLeaf layout memory' level frame vaddr =
      format.findOccupiedLeaf layout memory level frame vaddr := by
  rw [findOccupiedLeaf_eq positive] at inUse ⊢
  rw [findOccupiedLeaf_eq positive]
  cases found : (format.tree layout).endSlot memory' level frame vaddr with
  | none => simp [found] at inUse
  | some slot =>
    have same := thinner.eq_of_kind (by simp) (RadixTree.endSlot_kind found)
    simp [thinner.endSlot found, same]

theorem findOccupiedLeaf_ne_notMapped {slot : EntrySlot}
    (found : (format.tree layout).endSlot memory level frame vaddr = some slot) :
    format.findOccupiedLeaf layout memory level frame vaddr ≠ .error .notMapped := by
  simp only [findOccupiedLeaf_eq positive, found]
  exact leafResult_ne_notMapped

end PteFormat

/-- `PageTableRef`: the root frame and the root entries whose tables are never
detached. -/
structure PageTableRef where
  root : Nat
  retainedRootEntries : Option (Nat × Nat)
  deriving DecidableEq, Repr

namespace PageTableRef

variable {Pte Config : Type} (format : PteFormat Pte Config)
  (layout : TableMeta) (table : PageTableRef)

def queryOccupied (memory : FrameMemory Pte) (vaddr : Nat) : Except PagingError (Pte × Nat) :=
  if layout.strictAddressWidth && !layout.isAddrInWidth vaddr then
    .error (.addressOverflow "query_occupied")
  else
    format.findOccupiedLeaf layout memory layout.ptLevel table.root vaddr

/-- Every table frame is reachable through exactly one entry. -/
def WellFormed (memory : FrameMemory Pte) : Prop :=
  (format.tree layout).WellFormed memory layout.ptLevel table.root

def validateAddressWidth (start size : Nat) (operation : String) : Except PagingError Unit :=
  if !layout.strictAddressWidth then
    .ok ()
  else
    match checkedAdd start size with
    | none => .error (.addressOverflow "Virtual address range overflow")
    | some stop =>
      if !layout.isAddrInWidth start || !layout.isAddrInWidth (stop - 1) then
        .error (.addressOverflow operation)
      else
        .ok ()

def validateUnmapParams (start size : Nat) : Except PagingError Unit :=
  if size == 0 then
    .error (.invalidSize "Size cannot be zero in unmap")
  else if start % layout.pageSize != 0 then
    .error (.alignmentError "Start virtual address not page aligned in unmap")
  else if size % layout.pageSize != 0 then
    .error (.alignmentError "Size not page aligned in unmap")
  else
    .ok ()

end PageTableRef

end TgosKits
