import TgosKits.PageTable.Layout

/-!
# Removing a range of mappings (`Frame::unmap_range_recursive`)

The walk moves a cursor over the entries of a table.  Over an entry that is not
a table it adds the size of the entry to the cursor, wherever in the entry the
cursor is; only a table brings it back to an entry boundary.  A cursor that
starts inside an entry therefore skips the head of the next one.  `Reached` says
which addresses the cursor does not skip, from the tables found before the call.
-/

namespace TgosKits

open FrameMemory

namespace PteFormat

variable {Pte Config : Type} (format : PteFormat Pte Config) (layout : TableMeta)

def checkedAdvance (vaddr amount : Nat) : Except PagingError Nat :=
  match checkedAdd vaddr amount with
  | some next => .ok next
  | none => .error (.addressOverflow "page-table address advance overflow")

/-- The end of the entry around a cursor, at most the end of the range; the
recursive walks differ in the text of the error. -/
def entryStop (overflow : String) (vaddr size stop : Nat) : Except PagingError Nat :=
  let entryBase := vaddr / size * size
  match checkedAdd entryBase size with
  | some entryEnd => .ok (min entryEnd stop)
  | none =>
    if stop > entryBase then
      .ok stop
    else
      .error (.addressOverflow overflow)

/-- Whether an index is one of the retained root entries. -/
def isRetained (retained : Option (Nat × Nat)) (index : Nat) : Bool :=
  match retained with
  | some (first, last) => decide (first ≤ index ∧ index < last)
  | none => false

def allUnused (memory : FrameMemory Pte) (level frame : Nat) : Bool :=
  (List.range (layout.slotCount level)).all fun index =>
    format.unused (memory frame index)

/-- The removal of a range of a table, as a state-passing function of the frame,
the start and the end of the range. -/
abbrev TableWalk (Pte Result : Type) :=
  Nat → Nat → Nat → PageTables Pte → Except PagingError Result × PageTables Pte

/-- One round of the loop of `unmap_range_recursive`: the next cursor and
whether the table can still be reclaimed. -/
def unmapEntry (child : TableWalk Pte Bool) (level frame stop : Nat)
    (retained : Option (Nat × Nat)) (vaddr : Nat) (canReclaim : Bool) (tables : PageTables Pte) :
    Except PagingError (Nat × Bool) × PageTables Pte :=
  let index := layout.virtToIndex vaddr level
  let levelSize := layout.levelSize level
  let remainingSize := stop - vaddr
  let pte := tables.memory frame index
  if format.unused pte then
    ((checkedAdvance vaddr (min levelSize remainingSize)).map (·, canReclaim), tables)
  else if !format.present pte then
    ((checkedAdvance vaddr (min levelSize remainingSize)).map (·, canReclaim),
      tables.write frame index (format.clear pte))
  else
    let isHuge := format.huge pte (decide (level > 1))
    if level == 1 || isHuge then
      ((checkedAdvance vaddr (if isHuge then levelSize else layout.pageSize)).map (·, canReclaim),
        tables.write frame index (format.clear pte))
    else
      let childPaddr := format.paddr pte true
      match entryStop "Page-table entry end overflow in unmap_range_recursive"
          vaddr levelSize stop with
      | .error error => (.error error, tables)
      | .ok nextLevelVaddr =>
        match child childPaddr vaddr nextLevelVaddr tables with
        | (.error error, tables) => (.error error, tables)
        | (.ok childCanReclaim, tables) =>
          if childCanReclaim && isRetained retained index then
            (.ok (nextLevelVaddr, false), tables)
          else if childCanReclaim then
            (.ok (nextLevelVaddr, canReclaim),
              (tables.write frame index (format.clear pte)).deallocFrame childPaddr)
          else
            (.ok (nextLevelVaddr, false), tables)

/-- The loop of `unmap_range_recursive`.  Every round advances the cursor, so
the length of the range is enough fuel. -/
def unmapLoop (child : TableWalk Pte Bool) (level frame stop : Nat)
    (retained : Option (Nat × Nat)) :
    Nat → Nat → Bool → PageTables Pte → Except PagingError Bool × PageTables Pte
  | 0, _, canReclaim, tables =>
    (.ok (canReclaim && format.allUnused layout tables.memory level frame), tables)
  | fuel + 1, vaddr, canReclaim, tables =>
    if vaddr < stop then
      match format.unmapEntry layout child level frame stop retained vaddr canReclaim tables with
      | (.error error, tables) => (.error error, tables)
      | (.ok (next, canReclaim), tables) =>
        unmapLoop child level frame stop retained fuel next canReclaim tables
    else
      (.ok (canReclaim && format.allUnused layout tables.memory level frame), tables)

/-- `unmap_range_recursive`: whether the table is empty afterwards and can be
reclaimed by its caller.  There are no tables of level zero: entries of level one
are leaves, and `virt_to_index` panics for another level. -/
def unmapRangeRecursive : Nat → Option (Nat × Nat) → TableWalk Pte Bool
  | 0, _ => fun _ _ _ tables =>
    (.error (.hierarchyError "Invalid level"), tables)
  | level + 1, retained => fun frame start stop tables =>
    format.unmapLoop layout (unmapRangeRecursive level none) (level + 1) frame
      stop retained (stop - start) start true tables

end PteFormat

namespace PageTableRef

variable {Pte Config : Type} (format : PteFormat Pte Config)
  (layout : TableMeta) (table : PageTableRef)

/-- The common body of `unmap` and `unmap_with_config`, which differ in the
texts of their errors and in TLB maintenance. -/
def unmapNamed (overflow operation : String) (start size : Nat)
    (tables : PageTables Pte) : Except PagingError Unit × PageTables Pte :=
  match validateUnmapParams layout start size with
  | .error error => (.error error, tables)
  | .ok () =>
    match checkedAdd start size with
    | none => (.error (.addressOverflow overflow), tables)
    | some stop =>
      match validateAddressWidth layout start size operation with
      | .error error => (.error error, tables)
      | .ok () =>
        match format.unmapRangeRecursive layout layout.ptLevel
            table.retainedRootEntries table.root start stop tables with
        | (.error error, tables) => (.error error, tables)
        | (.ok _, tables) => (.ok (), tables)

def unmap (start size : Nat) (tables : PageTables Pte) : Except PagingError Unit × PageTables Pte :=
  table.unmapNamed format layout "Virtual address overflow in unmap" "unmap" start size tables

def unmapWithConfig (start size : Nat) (tables : PageTables Pte) :
    Except PagingError Unit × PageTables Pte :=
  table.unmapNamed format layout "Virtual address overflow in unmap_with_config"
    "unmap_with_config" start size tables

end PageTableRef

/-! ## The addresses the cursor does not skip -/

namespace RadixTree

variable {Entry : Type} (tree : RadixTree Entry)

/-- The entry with a number, counted from address zero, is a table. -/
def TableAt (memory : FrameMemory Entry) (level frame entry : Nat) : Prop :=
  ∃ child, tree.kind level (memory frame (entry % tree.radix level)) = .table child

/-- The cursor of a walk from `start` does not skip the address: either a table
before the address brought the cursor back to an entry boundary, or the cursor
enters the entry of the address before it, and so on in the table below. -/
def Reached (memory : FrameMemory Entry) : Nat → Nat → Nat → Nat → Prop
  | 0, _, _, _ => True
  | level + 1, frame, start, addr =>
    let size := tree.size (level + 1)
    (∃ entry, start / size ≤ entry ∧ entry < addr / size ∧
        tree.TableAt memory (level + 1) frame entry) ∨
      (start % size ≤ addr % size ∧
        match tree.kind (level + 1) (memory frame (tree.index (level + 1) addr)) with
        | .table child =>
          Reached memory level child (addr / size * size + start % size) addr
        | _ => True)

def Hit (memory : FrameMemory Entry) (level frame start stop : Nat) (slot : EntrySlot) : Prop :=
  ∃ addr, start ≤ addr ∧ addr < stop ∧ tree.endSlot memory level frame addr = some slot ∧
    tree.Reached memory level frame start addr

variable {tree} {memory : FrameMemory Entry} {level frame start addr : Nat}

theorem index_eq_of_div_eq (same : addr / tree.size level = start / tree.size level) :
    tree.index level addr = tree.index level start := by
  simp [index, same]

theorem reached_congr {memory' : FrameMemory Entry}
    (same : ∀ other ∈ tree.frames memory level frame, memory' other = memory other) :
    tree.Reached memory' level frame start addr ↔ tree.Reached memory level frame start addr := by
  induction level generalizing frame start with
  | zero => rfl
  | succ level ih =>
    have here : memory' frame = memory frame := same frame frame_mem_frames
    simp only [Reached, TableAt, here]
    cases kind : tree.kind (level + 1) (memory frame (tree.index (level + 1) addr)) with
    | table child =>
      refine or_congr_right (and_congr_right fun _ => ih ?_)
      intro other member
      exact same other (frames_subset_of_table (tree.index_lt _ _) kind member)
    | empty => rfl
    | final => rfl

theorem reached_of_dvd (aligned : tree.size level ∣ start) :
    tree.Reached memory level frame start addr := by
  induction level generalizing frame start with
  | zero => trivial
  | succ level ih =>
    refine .inr ⟨?_, ?_⟩
    · rw [Nat.mod_eq_zero_of_dvd aligned]
      exact Nat.zero_le _
    · split
      · apply ih
        rw [Nat.mod_eq_zero_of_dvd aligned, Nat.add_zero]
        exact (tree.size_dvd level).trans (dvd_mul_left _ _)
      · trivial

section

variable (order : start ≤ addr)
  (same : addr / tree.size (level + 1) = start / tree.size (level + 1))
include order same

theorem reached_same_entry (notTable : ∀ child, tree.kind (level + 1)
      (memory frame (tree.index (level + 1) start)) ≠ .table child) :
    tree.Reached memory (level + 1) frame start addr := by
  refine .inr ⟨?_, ?_⟩
  · have first := Nat.div_add_mod start (tree.size (level + 1))
    have second := Nat.div_add_mod addr (tree.size (level + 1))
    rw [same] at second
    omega
  · rw [index_eq_of_div_eq same]
    split
    · rename_i child kind
      exact absurd kind (notTable child)
    · trivial

theorem reached_same_table {child : Nat}
    (isTable : tree.kind (level + 1) (memory frame (tree.index (level + 1) start)) = .table child) :
    tree.Reached memory (level + 1) frame start addr ↔
      tree.Reached memory level child start addr := by
  have first := Nat.div_add_mod start (tree.size (level + 1))
  have second := Nat.div_add_mod addr (tree.size (level + 1))
  rw [same] at second
  have offsets : start % tree.size (level + 1) ≤ addr % tree.size (level + 1) := by
    omega
  have cursor : start / tree.size (level + 1) * tree.size (level + 1) +
      start % tree.size (level + 1) = start := Nat.div_add_mod' _ _
  simp only [Reached, index_eq_of_div_eq same, isTable, same, cursor, offsets,
    true_and, or_iff_right_iff_imp]
  intro ⟨entry, lower, upper, _⟩
  omega

end

theorem div_add_size : (start + tree.size level) / tree.size level = start / tree.size level + 1 :=
  Nat.add_div_right _ (tree.size_pos level)

section

variable (notTable : ∀ child, tree.kind (level + 1) (memory frame (tree.index (level + 1) start)) ≠
  .table child)
include notTable

/-- Without a table the cursor skips the head of the next entry. -/
theorem not_reached_head (later : start / tree.size (level + 1) < addr / tree.size (level + 1))
    (head : addr < start + tree.size (level + 1)) :
    ¬ tree.Reached memory (level + 1) frame start addr := by
  have next : addr / tree.size (level + 1) = start / tree.size (level + 1) + 1 := by
    have upper := Nat.div_le_div_right (show addr ≤ start + tree.size (level + 1) by omega)
      (c := tree.size (level + 1))
    rw [div_add_size] at upper
    omega
  intro reached
  rcases reached with ⟨entry, lower, upper, child, isTable⟩ | ⟨offsets, _⟩
  · have here : entry = start / tree.size (level + 1) := by omega
    subst entry
    exact notTable child isTable
  have first := Nat.div_add_mod start (tree.size (level + 1))
  have second := Nat.div_add_mod addr (tree.size (level + 1))
  rw [next, Nat.mul_add] at second
  omega

theorem reached_advance :
    tree.Reached memory (level + 1) frame (start + tree.size (level + 1)) addr ↔
      tree.Reached memory (level + 1) frame start addr := by
  simp only [Reached, div_add_size, Nat.add_mod_right]
  refine or_congr_left ⟨?_, ?_⟩
  · intro ⟨entry, lower, upper, isTable⟩
    exact ⟨entry, by omega, upper, isTable⟩
  · intro ⟨entry, lower, upper, child, isTable⟩
    refine ⟨entry, ?_, upper, child, isTable⟩
    have different : entry ≠ start / tree.size (level + 1) := by
      intro equal
      subst entry
      exact notTable child isTable
    omega

end

theorem reached_store {index : Nat} {entry : Entry}
    (wellFormed : tree.WellFormed memory (level + 1) frame) (unused : tree.unused entry = true)
    (notTable : ∀ child, tree.kind (level + 1) (memory frame index) ≠ .table child) :
    tree.Reached (memory.store frame index entry) (level + 1) frame start addr ↔
      tree.Reached memory (level + 1) frame start addr := by
  have nowEmpty : tree.kind (level + 1) entry = .empty := (tree.kind_eq_empty _ _).mpr unused
  have tables : ∀ number, tree.TableAt (memory.store frame index entry) (level + 1) frame number ↔
      tree.TableAt memory (level + 1) frame number := by
    intro number
    by_cases same : number % tree.radix (level + 1) = index
    · simp [TableAt, same, nowEmpty, notTable]
    · simp [TableAt, store_of_index_ne same]
  simp only [Reached, tables]
  refine or_congr_right (and_congr_right fun _ => ?_)
  by_cases same : tree.index (level + 1) addr = index
  · rw [same, store_same, nowEmpty]
    cases kind : tree.kind (level + 1) (memory frame index) with
    | table child => exact absurd kind (notTable child)
    | empty => rfl
    | final => rfl
  · rw [store_of_index_ne same]
    cases kind : tree.kind (level + 1) (memory frame (tree.index (level + 1) addr)) with
    | table child =>
      apply reached_congr
      intro other member
      apply store_of_frame_ne
      intro equal
      subst other
      exact wellFormed.frame_not_mem (tree.index_lt _ _) kind member
    | empty => rfl
    | final => rfl

end RadixTree

end TgosKits
