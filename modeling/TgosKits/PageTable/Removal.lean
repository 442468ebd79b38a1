import TgosKits.PageTable.Unmap

/-! # What the removal of a range leaves behind -/

namespace TgosKits

open RadixTree PteFormat Prod

namespace RadixTree

variable {Entry : Type} {tree : RadixTree Entry}
  {before middle after : FrameMemory Entry} {level frame cursor next stop : Nat}

section

variable (notTable : ∀ child, tree.kind (level + 1) (before frame (tree.index (level + 1) cursor)) ≠
  .table child)
include notTable

theorem Prunes.advance (inRange : cursor < stop) (advanced : next = cursor + tree.size (level + 1) ∨
      next = stop ∧ stop ≤ cursor + tree.size (level + 1))
    (entry : tree.Prunes before middle (level + 1) frame
      (fun slot => slot = ⟨frame, tree.index (level + 1) cursor, level + 1⟩))
    (sameCursor : ∀ addr, tree.Reached middle (level + 1) frame next addr ↔
      tree.Reached before (level + 1) frame next addr)
    (rest : tree.Prunes middle after (level + 1) frame
      (tree.Hit middle (level + 1) frame next stop)) :
    tree.Prunes before after (level + 1) frame (tree.Hit before (level + 1) frame cursor stop) := by
  apply (entry.trans rest).congr
  intro addr slot found
  constructor
  · rintro (rfl | ⟨reached, lower, upper, leaf, visited⟩)
    · exact ⟨cursor, le_rfl, inRange, endSlot_of_final (endSlot_kind found),
        reached_same_entry le_rfl rfl notTable⟩
    · have whole : next = cursor + tree.size (level + 1) := by omega
      subst next
      refine ⟨reached, by omega, upper, entry.thinner.endSlot leaf, ?_⟩
      exact (reached_advance notTable).mp ((sameCursor reached).mp visited)
  · rintro ⟨reached, lower, upper, leaf, visited⟩
    by_cases here : slot = ⟨frame, tree.index (level + 1) cursor, level + 1⟩
    · exact .inl here
    right
    have different : reached / tree.size (level + 1) ≠ cursor / tree.size (level + 1) := by
      intro same
      rcases endSlot_cases leaf with ⟨_, isSlot⟩ | ⟨child, kind, _⟩
      · exact here (by rw [isSlot, index_eq_of_div_eq same])
      · rw [index_eq_of_div_eq same] at kind
        exact notTable child kind
    have order := Nat.div_le_div_right lower (c := tree.size (level + 1))
    have beyond : cursor + tree.size (level + 1) ≤ reached := by
      by_contra head
      exact not_reached_head notTable (by omega) (by omega) visited
    have whole : next = cursor + tree.size (level + 1) := by omega
    subst next
    refine ⟨reached, beyond, upper, entry.endSlot_of_not_hit leaf here, ?_⟩
    exact (sameCursor reached).mpr ((reached_advance notTable).mpr visited)

end

theorem Prunes.descend {child : Nat} (isTable : tree.kind (level + 1)
      (before frame (tree.index (level + 1) cursor)) = .table child)
    (advanced : next = min stop ((cursor / tree.size (level + 1) + 1) * tree.size (level + 1)))
    (entry : tree.Prunes before middle (level + 1) frame (tree.Hit before level child cursor next))
    (rest : tree.Prunes middle after (level + 1) frame
      (tree.Hit middle (level + 1) frame next stop)) :
    tree.Prunes before after (level + 1) frame (tree.Hit before (level + 1) frame cursor stop) := by
  have boundary : ∀ addr, addr < (cursor / tree.size (level + 1) + 1) * tree.size (level + 1) ↔
        addr / tree.size (level + 1) < cursor / tree.size (level + 1) + 1 :=
    fun addr => (Nat.div_lt_iff_lt_mul (tree.size_pos (level + 1))).symm
  have cursorInside := (boundary cursor).mpr (Nat.lt_succ_self _)
  have inEntry : ∀ addr, cursor ≤ addr → addr < stop → (addr < next ↔ addr / tree.size (level + 1) =
        cursor / tree.size (level + 1)) := by
    intro addr lower upper
    have order := Nat.div_le_div_right lower (c := tree.size (level + 1))
    have within := boundary addr
    omega
  have selected : ∀ addr, addr / tree.size (level + 1) = cursor / tree.size (level + 1) →
      tree.endSlot before (level + 1) frame addr = tree.endSlot before level child addr := by
    intro addr same
    apply endSlot_of_table
    rw [index_eq_of_div_eq same]
    exact isTable
  apply (entry.trans rest).congr
  intro addr slot found
  constructor
  · rintro (⟨reached, lower, upper, leaf, visited⟩ | ⟨reached, lower, upper, leaf, _⟩)
    · have below : reached < stop := by omega
      have same := (inEntry reached lower below).mp upper
      refine ⟨reached, lower, below, (selected reached same).trans leaf, ?_⟩
      exact (reached_same_table lower same isTable).mpr visited
    · have order : cursor ≤ reached := by omega
      refine ⟨reached, order, upper, entry.thinner.endSlot leaf, ?_⟩
      refine .inl ⟨_, le_rfl, ?_, child, isTable⟩
      have outside := (inEntry reached order upper).not.mp (by omega)
      have monotone := Nat.div_le_div_right order (c := tree.size (level + 1))
      omega
  · rintro ⟨reached, lower, upper, leaf, visited⟩
    by_cases inside : reached < next
    · have same := (inEntry reached lower upper).mp inside
      exact .inl ⟨reached, lower, inside, (selected reached same).symm.trans leaf,
        (reached_same_table lower same isTable).mp visited⟩
    by_cases gone : tree.Hit before level child cursor next slot
    · exact .inl gone
    refine .inr ⟨reached, by omega, upper, entry.endSlot_of_not_hit leaf gone, reached_of_dvd ?_⟩
    have aligned : next = (cursor / tree.size (level + 1) + 1) * tree.size (level + 1) := by
      omega
    exact aligned ▸ dvd_mul_left _ _

end RadixTree

namespace PteFormat

variable {Pte Config : Type} {format : PteFormat Pte Config} {layout : TableMeta}
  {level frame start stop vaddr next : Nat} {retained : Option (Nat × Nat)}
  {tables tables' : PageTables Pte} {amount size : Nat} {child : TableWalk Pte Bool}

private theorem checkedAdvance_eq_ok (advanced : checkedAdvance vaddr amount = .ok next) :
    next = vaddr + amount := by
  unfold checkedAdvance at advanced
  split at advanced
  · rename_i sum accepted
    cases advanced
    exact (checkedAdd_eq_some_iff.mp accepted).1
  · cases advanced

theorem entryStop_eq {overflow : String} (inRange : vaddr < stop) (fits : stop ≤ usizeMax) :
    entryStop overflow vaddr size stop = .ok (min stop ((vaddr / size + 1) * size)) := by
  have base := Nat.div_mul_le_self vaddr size
  simp only [entryStop]
  rw [Nat.add_mul, Nat.one_mul]
  split
  · rename_i sum accepted
    rw [(checkedAdd_eq_some_iff.mp accepted).1, Nat.min_comm]
  rename_i tooLarge
  rw [if_pos (by omega)]
  unfold checkedAdd at tooLarge
  split_ifs at tooLarge with small
  rw [Nat.min_eq_left (by omega)]

theorem allUnused_eq_true_iff {memory : FrameMemory Pte} :
    format.allUnused layout memory level frame = true ↔ ∀ index < layout.slotCount level,
        format.unused (memory frame index) = true := by
  simp [allUnused]

/-- The walk of a table below prunes what its cursor reaches, and reports a
table as reclaimable only if all of its entries are unused. -/
def PrunesTable (format : PteFormat Pte Config) (layout : TableMeta)
    (level : Nat) (walk : TableWalk Pte Bool) : Prop :=
  ∀ frame start stop tables tables' canReclaim,
    (format.tree layout).WellFormed tables.memory level frame →
    stop ≤ usizeMax →
    walk frame start stop tables = (.ok canReclaim, tables') →
    (format.tree layout).Prunes tables.memory tables'.memory level frame
        ((format.tree layout).Hit tables.memory level frame start stop) ∧
      (canReclaim = true → ∀ index < layout.slotCount level,
        format.unused (tables'.memory frame index) = true)

structure PlainRound (format : PteFormat Pte Config) (layout : TableMeta)
    (level frame stop vaddr next : Nat) (tables tables' : PageTables Pte) : Prop where
  notTable : ∀ child, format.entryKind level
    (tables.memory frame (layout.virtToIndex vaddr level)) ≠ .table child
  advanced : next = vaddr + layout.levelSize level ∨
    next = stop ∧ stop ≤ vaddr + layout.levelSize level
  effect : (tables' = tables ∧ format.unused
      (tables.memory frame (layout.virtToIndex vaddr level)) = true) ∨
    tables' = tables.write frame (layout.virtToIndex vaddr level)
      (format.clear (tables.memory frame (layout.virtToIndex vaddr level)))

structure TableRound (format : PteFormat Pte Config) (layout : TableMeta)
    (child : TableWalk Pte Bool) (level frame stop vaddr next : Nat)
    (tables tables' : PageTables Pte) (below : Nat) : Prop where
  isTable : format.entryKind level
    (tables.memory frame (layout.virtToIndex vaddr level)) = .table below
  advanced : next = min stop ((vaddr / layout.levelSize level + 1) * layout.levelSize level)
  effect : ∃ childCanReclaim walked, child below vaddr next tables = (.ok childCanReclaim, walked) ∧
    (tables' = walked ∨ childCanReclaim = true ∧
      tables' = (walked.write frame (layout.virtToIndex vaddr level)
        (format.clear (tables.memory frame (layout.virtToIndex vaddr level)))).deallocFrame below)

theorem checkedAdvance_map_eq_ok {flag flag' : Bool}
    (advanced : (checkedAdvance vaddr amount).map (·, flag) = .ok (next, flag')) :
    next = vaddr + amount := by
  cases result : checkedAdvance vaddr amount with
  | error error => simp [result, Except.map] at advanced
  | ok value =>
    simp only [result, Except.map, Except.ok.injEq, Prod.mk.injEq] at advanced
    rw [← advanced.1]
    exact checkedAdvance_eq_ok result

theorem unmapEntry_cases {canReclaim canReclaim' : Bool} (inRange : vaddr < stop)
    (stopFits : stop ≤ usizeMax)
    (ran : format.unmapEntry layout child level frame stop retained vaddr
      canReclaim tables = (.ok (next, canReclaim'), tables')) :
    PlainRound format layout level frame stop vaddr next tables tables' ∨
      ∃ below, TableRound format layout child level frame stop vaddr next tables tables' below := by
  unfold unmapEntry at ran
  simp only at ran
  split at ran
  · rename_i unused
    rcases Prod.mk.inj ran with ⟨advanced, same⟩
    have nextEq := checkedAdvance_map_eq_ok advanced
    refine .inl ⟨?_, by omega, .inl ⟨same.symm, unused⟩⟩
    intro below
    simp [entryKind, unused]
  rename_i unused
  split at ran
  · rename_i absent
    rcases Prod.mk.inj ran with ⟨advanced, same⟩
    have nextEq := checkedAdvance_map_eq_ok advanced
    refine .inl ⟨?_, by omega, .inr same.symm⟩
    intro below
    rw [Bool.not_eq_true'] at absent
    simp [entryKind, unused, absent]
  rename_i absent
  split at ran
  · rename_i leaf
    rcases Prod.mk.inj ran with ⟨advanced, same⟩
    refine .inl ⟨?_, .inl ?_, .inr same.symm⟩
    · intro below
      rw [Bool.or_comm] at leaf
      simp only [entryKind, unused, isLeaf, leaf, Bool.not_true, Bool.false_and]
      simp
    · rw [checkedAdvance_map_eq_ok advanced]
      split_ifs with huge
      · rfl
      · have bottom : level = 1 := by simpa [huge] using leaf
        rw [bottom, layout.levelSize_one]
  rename_i leaf
  have isTable : format.entryKind level (tables.memory frame (layout.virtToIndex vaddr level)) =
      .table (format.paddr (tables.memory frame (layout.virtToIndex vaddr level)) true) := by
    rw [Bool.or_comm, Bool.not_eq_true] at leaf
    rw [Bool.not_eq_true, Bool.not_eq_false'] at absent
    simp only [entryKind, unused, isLeaf, leaf, absent, Bool.not_false, Bool.true_and]
    simp
  split at ran
  · simp at ran
  rename_i nextLevel clipped
  split at ran
  · simp at ran
  rename_i childCanReclaim walked walk
  obtain rfl : nextLevel = next := by
    split_ifs at ran <;>
      exact (Prod.mk.inj (Except.ok.inj (Prod.mk.inj ran).1)).1
  have boundary := Except.ok.inj (clipped.symm.trans (entryStop_eq inRange stopFits))
  refine .inr ⟨_, isTable, boundary, childCanReclaim, walked, walk, ?_⟩
  split_ifs at ran with keep reclaim
  · exact .inl (Prod.mk.inj ran).2.symm
  · exact .inr ⟨reclaim, (Prod.mk.inj ran).2.symm⟩
  · exact .inl (Prod.mk.inj ran).2.symm

section

variable (wellFormed : (format.tree layout).WellFormed tables.memory (level + 1) frame)
include wellFormed

/-- A round that met no table prunes the leaf of the entry and leaves the cursor
of the rest of the walk as it was. -/
theorem PlainRound.prunes
    (round : PlainRound format layout (level + 1) frame stop vaddr next tables tables') :
    (format.tree layout).Prunes tables.memory tables'.memory (level + 1) frame (fun slot =>
          slot = ⟨frame, layout.virtToIndex vaddr (level + 1), level + 1⟩) ∧
      ∀ addr, (format.tree layout).Reached tables'.memory (level + 1) frame next addr ↔
        (format.tree layout).Reached tables.memory (level + 1) frame next
          addr := by
  rcases round.effect with ⟨rfl, unused⟩ | rfl
  · refine ⟨?_, fun _ => .rfl⟩
    apply (Prunes.refl _ (level + 1) frame).congr
    intro addr slot found
    simp only [false_iff]
    rintro rfl
    have leaf := endSlot_kind found
    rw [((format.tree layout).kind_eq_empty _ _).mpr unused] at leaf
    cases leaf
  · exact ⟨.clear wellFormed (format.unused_clear _) round.notTable,
      fun _ => reached_store wellFormed (format.unused_clear _) round.notTable⟩

variable (below_prunes : PrunesTable format layout level child)
include below_prunes

theorem TableRound.prunes {below : Nat} (stopFits : stop ≤ usizeMax)
    (round : TableRound format layout child (level + 1) frame stop vaddr next tables tables'
      below) : (format.tree layout).Prunes tables.memory tables'.memory (level + 1) frame
      ((format.tree layout).Hit tables.memory level below vaddr next) := by
  rcases round.effect with ⟨childCanReclaim, walked, walk, effect⟩
  have bound := (format.tree layout).index_lt (level + 1) vaddr
  have nextFits : next ≤ usizeMax := by
    have advanced := round.advanced
    omega
  have walkPrunes := below_prunes below vaddr next tables walked
    childCanReclaim (wellFormed.child bound round.isTable) nextFits walk
  have kept : walked.memory frame = tables.memory frame :=
    walkPrunes.1.outside frame (wellFormed.frame_not_mem bound round.isTable)
  have lifted := Prunes.ofChild wellFormed bound round.isTable walkPrunes.1 (fun slot hit => by
      rcases hit with ⟨addr, _, _, found, _⟩
      exact endSlot_frame_mem found)
  rcases effect with rfl | ⟨reclaim, rfl⟩
  · exact lifted
  have stillTable : (format.tree layout).kind (level + 1)
      (walked.memory frame (layout.virtToIndex vaddr (level + 1))) =
      .table below := by
    rw [kept]
    exact round.isTable
  have detaching := Prunes.detach
    (wellFormed.thinner lifted.thinner) stillTable (walkPrunes.2 reclaim)
    (format.unused_clear (tables.memory frame (layout.virtToIndex vaddr (level + 1))))
  simpa using lifted.trans detaching

theorem unmapLoop_prunes {fuel : Nat} {canReclaim canReclaim' : Bool} (stopFits : stop ≤ usizeMax)
    (enough : stop - vaddr ≤ fuel)
    (ran : format.unmapLoop layout child (level + 1) frame stop retained fuel
      vaddr canReclaim tables = (.ok canReclaim', tables')) :
    (format.tree layout).Prunes tables.memory tables'.memory (level + 1) frame
        ((format.tree layout).Hit tables.memory (level + 1) frame vaddr stop) ∧
      (canReclaim' = true → ∀ index < layout.slotCount (level + 1),
        format.unused (tables'.memory frame index) = true) := by
  have finished : ∀ {cursor : Nat} {flag : Bool} {now : PageTables Pte}, stop ≤ cursor →
      ((.ok (flag && format.allUnused layout now.memory (level + 1) frame), now)
        : Except PagingError Bool × PageTables Pte) = (.ok canReclaim', tables') →
      (format.tree layout).Prunes now.memory tables'.memory (level + 1) frame
          ((format.tree layout).Hit now.memory (level + 1) frame cursor stop) ∧
        (canReclaim' = true → ∀ index < layout.slotCount (level + 1),
          format.unused (tables'.memory frame index) = true) := by
    intro cursor flag now done ended
    rcases Prod.mk.inj ended with ⟨result, rfl⟩
    constructor
    · apply (Prunes.refl now.memory (level + 1) frame).congr
      intro addr slot _
      simp only [false_iff]
      intro ⟨_, lower, upper, _⟩
      omega
    · intro reclaim
      rw [reclaim] at result
      have both := Except.ok.inj result
      rw [Bool.and_eq_true] at both
      exact allUnused_eq_true_iff.mp both.2
  induction fuel generalizing vaddr canReclaim tables with
  | zero => exact finished (by omega) ran
  | succ fuel ih =>
    rw [unmapLoop] at ran
    split_ifs at ran with inRange
    · split at ran
      · simp at ran
      rename_i next nextReclaim nextTables entry
      rcases unmapEntry_cases inRange stopFits entry with
        plain | ⟨below, descends⟩
      · have step := plain.prunes wellFormed
        have sizePos := layout.levelSize_pos (level + 1)
        have advanced := plain.advanced
        have rest := ih (wellFormed.thinner step.1.thinner) (by omega) ran
        exact ⟨.advance plain.notTable inRange plain.advanced step.1 step.2 rest.1, rest.2⟩
      · have step := descends.prunes wellFormed below_prunes stopFits
        have progress : vaddr < next := by
          rw [descends.advanced]
          apply lt_min inRange
          rw [add_mul, one_mul]
          exact Nat.lt_div_mul_add (layout.levelSize_pos (level + 1))
        have rest := ih (wellFormed.thinner step.thinner) (by omega) ran
        exact ⟨.descend descends.isTable descends.advanced step rest.1, rest.2⟩
    · exact finished (by omega) ran

end

/-- `unmap_range_recursive` clears the leaves its cursor reaches and no
other. -/
theorem unmapRangeRecursive_prunes (level : Nat) (retained : Option (Nat × Nat)) :
    PrunesTable format layout level (format.unmapRangeRecursive layout level retained) := by
  induction level generalizing retained with
  | zero =>
    intro frame start stop tables tables' canReclaim _ _ ran
    simp [unmapRangeRecursive] at ran
  | succ level ih =>
    intro frame start stop tables tables' canReclaim wellFormed stopFits ran
    exact unmapLoop_prunes wellFormed (ih none) stopFits le_rfl ran

end PteFormat

namespace PageTableRef

variable {Pte Config : Type} {format : PteFormat Pte Config}
  {layout : TableMeta} {table : PageTableRef} {start size : Nat} {tables tables' : PageTables Pte}

def leafSlot (format : PteFormat Pte Config) (layout : TableMeta)
    (table : PageTableRef) (memory : FrameMemory Pte) (vaddr : Nat) : Option EntrySlot :=
  ((format.tree layout).endSlot memory layout.ptLevel table.root vaddr).filter
    fun slot => format.isLeaf slot.level (memory slot.frame slot.index)

variable {memory before after : FrameMemory Pte} {vaddr : Nat} {overflow operation : String}

theorem leafSlot_eq_some_iff {slot : EntrySlot} :
    table.leafSlot format layout memory vaddr = some slot ↔
      (format.tree layout).endSlot memory layout.ptLevel table.root vaddr = some slot ∧
        format.isLeaf slot.level (memory slot.frame slot.index) = true :=
  Option.filter_eq_some_iff

/-- The cursor of an `unmap` from `start` does not skip the address. -/
def Reached (format : PteFormat Pte Config) (layout : TableMeta)
    (table : PageTableRef) (memory : FrameMemory Pte) (start vaddr : Nat) : Prop :=
  (format.tree layout).Reached memory layout.ptLevel table.root start vaddr

section

variable (ran : table.unmapNamed format layout overflow operation start size tables =
  (.ok (), tables'))
include ran

theorem unmapNamed_ok :
    start + size ≤ usizeMax ∧ validateAddressWidth layout start size operation = .ok () ∧
      ∃ canReclaim, format.unmapRangeRecursive layout layout.ptLevel
        table.retainedRootEntries table.root start (start + size) tables =
          (.ok canReclaim, tables') := by
  unfold unmapNamed at ran
  split at ran
  · simp at ran
  split at ran
  · simp at ran
  rename_i stop accepted
  rcases checkedAdd_eq_some_iff.mp accepted with ⟨rfl, fits⟩
  split at ran
  · simp at ran
  rename_i width
  split at ran
  · simp at ran
  rename_i canReclaim walked walk
  refine ⟨fits, width, canReclaim, ?_⟩
  rw [walk, (Prod.mk.inj ran).2]

theorem unmap_prunes (wellFormed : table.WellFormed format layout tables.memory) :
    (format.tree layout).Prunes tables.memory tables'.memory layout.ptLevel
      table.root ((format.tree layout).Hit tables.memory layout.ptLevel
        table.root start (start + size)) := by
  rcases unmapNamed_ok ran with ⟨fits, _, canReclaim, walk⟩
  exact (unmapRangeRecursive_prunes layout.ptLevel
    table.retainedRootEntries table.root start (start + size) tables tables'
    canReclaim wellFormed fits walk).1

end

theorem isAddrInWidth_of_validate (strict : layout.strictAddressWidth = true)
    (width : validateAddressWidth layout start size operation = .ok ())
    (upper : vaddr < start + size) : layout.isAddrInWidth vaddr = true := by
  unfold validateAddressWidth at width
  rw [strict, Bool.not_true, if_neg (by simp)] at width
  split at width
  · simp at width
  rename_i stop accepted
  rcases checkedAdd_eq_some_iff.mp accepted with ⟨rfl, _⟩
  split_ifs at width with outside
  have last : layout.isAddrInWidth (start + size - 1) = true := by
    by_contra no
    simp [no] at outside
  unfold TableMeta.isAddrInWidth at last ⊢
  simp only [Bool.or_eq_true, decide_eq_true_eq] at last ⊢
  omega

section

variable (width : layout.strictAddressWidth = true → layout.isAddrInWidth vaddr = true)
include width

private theorem queryOccupied_eq : table.queryOccupied format layout memory vaddr =
      format.findOccupiedLeaf layout memory layout.ptLevel table.root vaddr := by
  unfold queryOccupied
  rw [if_neg]
  intro refused
  rw [Bool.and_eq_true, Bool.not_eq_true'] at refused
  rw [width refused.1] at refused
  exact absurd refused.2 (by simp)

theorem queryOccupied_eq_ok_iff {leaf : Pte × Nat} :
    table.queryOccupied format layout memory vaddr = .ok leaf ↔
      ∃ slot, table.leafSlot format layout memory vaddr = some slot ∧
        (memory slot.frame slot.index, slot.level) = leaf := by
  rw [queryOccupied_eq width, findOccupiedLeaf_eq_ok_iff layout.ptLevel_pos]
  simp [leafSlot_eq_some_iff, and_assoc]

theorem queryOccupied_ne_ok_iff :
    (∀ leaf, table.queryOccupied format layout memory vaddr ≠ .ok leaf) ↔
      table.leafSlot format layout memory vaddr = none := by
  rw [Option.eq_none_iff_forall_ne_some]
  constructor
  · intro none slot found
    exact none _ ((queryOccupied_eq_ok_iff width).mpr ⟨slot, found, rfl⟩)
  · intro absent leaf occupied
    rcases (queryOccupied_eq_ok_iff width).mp occupied with ⟨slot, found, _⟩
    exact absent slot found

end

theorem leafSlot_of_prunes {hit : EntrySlot → Prop} {slot : EntrySlot}
    (prunes : (format.tree layout).Prunes before after layout.ptLevel table.root hit)
    (found : table.leafSlot format layout before vaddr = some slot) :
    table.leafSlot format layout after vaddr = none ↔ hit slot := by
  rcases leafSlot_eq_some_iff.mp found with ⟨ends, leaf⟩
  by_cases gone : hit slot
  · simp [leafSlot, prunes.endSlot_of_hit ends gone, gone]
  · have kept := prunes.endSlot_of_not_hit ends gone
    have same := prunes.thinner.eq_of_kind (by simp) (endSlot_kind kept)
    simp [leafSlot, kept, same, leaf, gone]

def RangeCleared (format : PteFormat Pte Config) (layout : TableMeta)
    (table : PageTableRef) (memory : FrameMemory Pte) (start size : Nat) : Prop :=
  ∀ vaddr, start ≤ vaddr → vaddr < start + size →
    ∀ leaf, table.queryOccupied format layout memory vaddr ≠ .ok leaf

/-- Every leaf of the range maps an address of the range that the cursor does
not skip. -/
def NoLeafSkipped (format : PteFormat Pte Config) (layout : TableMeta)
    (table : PageTableRef) (memory : FrameMemory Pte) (start size : Nat) : Prop :=
  ∀ vaddr slot, start ≤ vaddr → vaddr < start + size →
    table.leafSlot format layout memory vaddr = some slot →
    ∃ other, start ≤ other ∧ other < start + size ∧
      table.leafSlot format layout memory other = some slot ∧
      table.Reached format layout memory start other

def OtherLeavesKept (format : PteFormat Pte Config) (layout : TableMeta)
    (table : PageTableRef) (before after : FrameMemory Pte) (start size : Nat) : Prop :=
  ∀ vaddr leaf, table.queryOccupied format layout before vaddr = .ok leaf →
    (∀ other, start ≤ other → other < start + size → table.leafSlot format layout before other ≠
        table.leafSlot format layout before vaddr) →
    table.queryOccupied format layout after vaddr = .ok leaf

section

variable (wellFormed : table.WellFormed format layout tables.memory)
  (ran : table.unmapNamed format layout overflow operation start size tables = (.ok (), tables'))
include wellFormed ran

theorem unmapNamed_rangeCleared_iff : table.RangeCleared format layout tables'.memory start size ↔
      table.NoLeafSkipped format layout tables.memory start size := by
  have prunes := unmap_prunes ran wellFormed
  rcases unmapNamed_ok ran with ⟨_, width, _⟩
  constructor
  · intro cleared vaddr slot lower upper found
    have absent := (queryOccupied_ne_ok_iff fun strict =>
      isAddrInWidth_of_validate strict width upper).mp (cleared vaddr lower upper)
    rcases (leafSlot_of_prunes prunes found).mp absent with
      ⟨other, otherLower, otherUpper, same, reached⟩
    refine ⟨other, otherLower, otherUpper, ?_, reached⟩
    exact leafSlot_eq_some_iff.mpr ⟨same, (leafSlot_eq_some_iff.mp found).2⟩
  · intro reached vaddr lower upper
    apply (queryOccupied_ne_ok_iff fun strict =>
      isAddrInWidth_of_validate strict width upper).mpr
    cases found : table.leafSlot format layout tables.memory vaddr with
    | none =>
      rw [Option.eq_none_iff_forall_ne_some] at found ⊢
      intro slot later
      rcases leafSlot_eq_some_iff.mp later with ⟨ends, leaf⟩
      rw [prunes.thinner.eq_of_kind (by simp) (endSlot_kind ends)] at leaf
      exact found slot (leafSlot_eq_some_iff.mpr ⟨prunes.thinner.endSlot ends, leaf⟩)
    | some slot =>
      apply (leafSlot_of_prunes prunes found).mpr
      rcases reached vaddr slot lower upper found with
        ⟨other, otherLower, otherUpper, same, visited⟩
      exact ⟨other, otherLower, otherUpper, (leafSlot_eq_some_iff.mp same).1, visited⟩

theorem unmapNamed_otherLeavesKept :
    table.OtherLeavesKept format layout tables.memory tables'.memory start
      size := by
  have prunes := unmap_prunes ran wellFormed
  intro vaddr leaf occupied apart
  unfold queryOccupied at occupied ⊢
  split_ifs at occupied ⊢ with outside
  rcases (findOccupiedLeaf_eq_ok_iff layout.ptLevel_pos).mp occupied
    with ⟨slot, ends, isLeaf, entry⟩
  have here : table.leafSlot format layout tables.memory vaddr = some slot :=
    leafSlot_eq_some_iff.mpr ⟨ends, isLeaf⟩
  have kept : (format.tree layout).endSlot tables'.memory layout.ptLevel
      table.root vaddr = some slot := by
    apply prunes.endSlot_of_not_hit ends
    intro ⟨other, lower, upper, same, _⟩
    apply apart other lower upper
    rw [here]
    exact leafSlot_eq_some_iff.mpr ⟨same, isLeaf⟩
  rw [findOccupiedLeaf_of_thinner layout.ptLevel_pos prunes.thinner
    (findOccupiedLeaf_ne_notMapped layout.ptLevel_pos kept)]
  exact occupied

end

/-- After an accepted `unmap` or `unmap_with_config` the range is free of
occupied leaves exactly if the cursor skips none of them; leaves that map no
address of the range are kept in any case. -/
theorem unmap_clears_range_iff (wellFormed : table.WellFormed format layout tables.memory)
    (ran : table.unmap format layout start size tables = (.ok (), tables') ∨
      table.unmapWithConfig format layout start size tables = (.ok (), tables')) :
    (table.RangeCleared format layout tables'.memory start size ↔
        table.NoLeafSkipped format layout tables.memory start size) ∧
      table.OtherLeavesKept format layout tables.memory tables'.memory start
        size := by
  rcases ran with ran | ran
  · exact ⟨unmapNamed_rangeCleared_iff wellFormed ran, unmapNamed_otherLeavesKept wellFormed ran⟩
  · exact ⟨unmapNamed_rangeCleared_iff wellFormed ran, unmapNamed_otherLeavesKept wellFormed ran⟩

end PageTableRef

/-! ## A sparse table -/

/-- Entries that hold a physical address and whether it is a table's. -/
def plainFormat : PteFormat (Option (Nat × Bool)) Unit where
  newPage := fun paddr _ _ => some (paddr, false)
  newTable := fun paddr => some (paddr, true)
  paddr := fun pte _ => (pte.map Prod.fst).getD 0
  config := fun _ _ => ()
  present := fun pte => pte.isSome
  huge := fun pte isDir => isDir && (pte.map fun entry => !entry.2).getD false
  unused := fun pte => pte.isNone
  clear := fun _ => none
  zero := none
  unused_clear := fun _ => rfl
  unused_zero := rfl
  block_not_table := fun _ _ => .inl rfl

private theorem nineBits_fit : ∀ bits ∈ [9, 9], 2 ^ bits ≤ 512 := by
  simp

private theorem nineBits_width : 12 + [9, 9].sum < 64 := by
  simp

def sv39 : TableMeta where
  pageShift := 12
  levelBits := [9, 9, 9]
  maxBlockLevel := 3
  strictAddressWidth := true
  len := 512
  levels_pos := List.cons_ne_nil _ _
  len_pos := Nat.succ_pos _
  bits_fit := nineBits_fit
  bits_width := nineBits_width

/-- One page at 0x200000; the 2M below it are not mapped. -/
def sparseTables : PageTables (Option (Nat × Bool)) where
  memory := fun frame index =>
    if frame = 0x1000 ∧ index = 0 then some (0x2000, true)
    else if frame = 0x2000 ∧ index = 1 then some (0x3000, true)
    else if frame = 0x3000 ∧ index = 0 then some (0x80000000, false)
    else none
  freed := []
  requests := 0

def sparseRef : PageTableRef := ⟨0x1000, none⟩

theorem sparse_wellFormed : sparseRef.WellFormed plainFormat sv39 sparseTables.memory := by
  unfold PageTableRef.WellFormed WellFormed
  decide +kernel

/-- The 4M from address zero hold the page, and the walk of them starts on an
entry boundary of every level. -/
theorem sparse_unmap_aligned :
    (sparseRef.unmap plainFormat sv39 0 0x400000 sparseTables).1 = .ok () ∧
      sparseRef.RangeCleared plainFormat sv39
        (sparseRef.unmap plainFormat sv39 0 0x400000 sparseTables).2.memory
        0 0x400000 ∧
      sparseRef.OtherLeavesKept plainFormat sv39 sparseTables.memory
        (sparseRef.unmap plainFormat sv39 0 0x400000 sparseTables).2.memory
        0 0x400000 := by
  have accepted : (sparseRef.unmap plainFormat sv39 0 0x400000 sparseTables).1 = .ok () := by
    decide +kernel
  have result := PageTableRef.unmap_clears_range_iff sparse_wellFormed
    (.inl (fst_eq_iff.mp accepted))
  refine ⟨accepted, result.1.mpr ?_, result.2⟩
  intro vaddr slot lower upper found
  exact ⟨vaddr, lower, upper, found, reached_of_dvd (dvd_zero _)⟩

theorem sparse_unmap_skips : sparseRef.WellFormed plainFormat sv39 sparseTables.memory ∧
      (sparseRef.unmap plainFormat sv39 0x1000 0x200000 sparseTables).1 = .ok () ∧
      sparseRef.queryOccupied plainFormat sv39
        (sparseRef.unmap plainFormat sv39 0x1000 0x200000 sparseTables).2.memory
        0x200000 = .ok (some (0x80000000, false), 1) := by
  refine ⟨sparse_wellFormed, ?_, ?_⟩
  · decide +kernel
  · decide +kernel

end TgosKits
