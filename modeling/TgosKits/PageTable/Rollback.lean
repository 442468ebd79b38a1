import TgosKits.PageTable.Mapping

/-! # Where the removal of a range cannot fail -/

namespace TgosKits

namespace RadixTree

variable {Entry : Type} {tree : RadixTree Entry}
  {memory : FrameMemory Entry} {level frame start stop cursor addr child : Nat}

/-- The cursor is on an entry boundary of the level, or inside a table in which it
is one. -/
def CursorOk (tree : RadixTree Entry) (memory : FrameMemory Entry) : Nat → Nat → Nat → Prop
  | 0, _, _ => True
  | level + 1, frame, cursor =>
    tree.size (level + 1) ∣ cursor ∨ ∃ child, tree.kind (level + 1)
          (memory frame (tree.index (level + 1) cursor)) = .table child ∧
        CursorOk tree memory level child cursor

/-- Every final entry of the range ends inside it. -/
def EndsInside (tree : RadixTree Entry) (memory : FrameMemory Entry)
    (level frame start stop : Nat) : Prop :=
  ∀ addr, start ≤ addr → addr < stop → ∀ slot, tree.endSlot memory level frame addr = some slot →
    (addr / tree.size slot.level + 1) * tree.size slot.level ≤ stop

theorem size_dvd_of_le {lower : Nat} (order : lower ≤ level) :
    tree.size lower ∣ tree.size level := by
  induction level, order using Nat.le_induction with
  | base => exact dvd_refl _
  | succ level _ ih => exact ih.trans (tree.size_dvd level)

theorem CursorOk.reached (cursorOk : tree.CursorOk memory level frame start)
    (order : start ≤ addr) : tree.Reached memory level frame start addr := by
  induction level generalizing frame with
  | zero => trivial
  | succ level ih =>
    rcases cursorOk with aligned | ⟨child, isTable, below⟩
    · exact reached_of_dvd aligned
    have monotone := Nat.div_le_div_right order (c := tree.size (level + 1))
    by_cases same : addr / tree.size (level + 1) = start / tree.size (level + 1)
    · exact (reached_same_table order same isTable).mpr (ih below)
    · exact .inl ⟨_, le_rfl, by omega, child, isTable⟩

theorem PathTo.cursorOk {bottom : Nat} (path : tree.PathTo memory bottom level frame cursor)
    (aligned : tree.size bottom ∣ cursor) : tree.CursorOk memory level frame cursor := by
  induction level generalizing frame with
  | zero => trivial
  | succ level ih =>
    rcases path with arrived | ⟨child, isTable, below⟩
    · exact .inl ((size_dvd_of_le arrived).trans aligned)
    · exact .inr ⟨child, isTable, ih below⟩

theorem CursorOk.aligned (cursorOk : tree.CursorOk memory (level + 1) frame cursor)
    (notTable : ∀ child, tree.kind (level + 1)
      (memory frame (tree.index (level + 1) cursor)) ≠ .table child) :
    tree.size (level + 1) ∣ cursor := by
  rcases cursorOk with aligned | ⟨child, isTable, _⟩
  · exact aligned
  · exact absurd isTable (notTable child)

theorem cursorOk_of_dvd (aligned : tree.size level ∣ cursor) :
    tree.CursorOk memory level frame cursor := by
  cases level with
  | zero => trivial
  | succ level => exact .inl aligned

theorem CursorOk.below (cursorOk : tree.CursorOk memory (level + 1) frame cursor)
    (isTable : tree.kind (level + 1)
      (memory frame (tree.index (level + 1) cursor)) = .table child) :
    tree.CursorOk memory level child cursor := by
  rcases cursorOk with aligned | ⟨other, isOther, below⟩
  · exact cursorOk_of_dvd ((tree.size_dvd level).trans aligned)
  · rw [isTable] at isOther
    cases isOther
    exact below

theorem EndsInside.below (inside : tree.EndsInside memory (level + 1) frame cursor stop)
    (isTable : tree.kind (level + 1)
      (memory frame (tree.index (level + 1) cursor)) = .table child) :
    tree.EndsInside memory level child cursor (min stop
        ((cursor / tree.size (level + 1) + 1) * tree.size (level + 1))) := by
  intro addr lower upper slot found
  have sizePos := tree.size_pos (level + 1)
  have slotPos := tree.size_pos slot.level
  have boundary : addr < (cursor / tree.size (level + 1) + 1) * tree.size (level + 1) := by
    omega
  have same : addr / tree.size (level + 1) = cursor / tree.size (level + 1) := by
    have upperQuotient := (Nat.div_lt_iff_lt_mul sizePos).mpr boundary
    have lowerQuotient := Nat.div_le_div_right lower (c := tree.size (level + 1))
    omega
  have here : tree.endSlot memory (level + 1) frame addr = some slot := by
    rw [endSlot_of_table (by rw [index_eq_of_div_eq same]; exact isTable)]
    exact found
  apply Nat.le_min.mpr
  refine ⟨inside addr lower (by omega) slot here, ?_⟩
  have levels : slot.level ≤ level + 1 := (endSlot_level here).2
  have divides : tree.size slot.level ∣ tree.size (level + 1) := size_dvd_of_le levels
  rcases divides with ⟨factor, size⟩
  rw [size] at boundary ⊢
  have quotient : addr / tree.size slot.level <
      (cursor / (tree.size slot.level * factor) + 1) * factor := by
    apply (Nat.div_lt_iff_lt_mul slotPos).mpr
    calc addr < _ := boundary
      _ = _ := by ring
  calc (addr / tree.size slot.level + 1) * tree.size slot.level
      ≤ ((cursor / (tree.size slot.level * factor) + 1) * factor) *
          tree.size slot.level := Nat.mul_le_mul_right _ quotient
    _ = _ := by ring

end RadixTree

namespace PteFormat

variable {Pte Config : Type} {format : PteFormat Pte Config} {layout : TableMeta}
  {level frame start stop vaddr : Nat} {retained : Option (Nat × Nat)} {tables : PageTables Pte}

/-- The walk of a table succeeds on ranges its cursor can move over. -/
def SucceedsInside (format : PteFormat Pte Config) (layout : TableMeta)
    (level : Nat) (walk : TableWalk Pte Bool) : Prop :=
  ∀ frame start stop tables, (format.tree layout).WellFormed tables.memory level frame →
    stop ≤ usizeMax →
    (format.tree layout).CursorOk tables.memory level frame start →
    (format.tree layout).EndsInside tables.memory level frame start stop →
    ∃ canReclaim tables', walk frame start stop tables = (.ok canReclaim, tables')

theorem checkedAdvance_eq {amount : Nat} (fits : vaddr + amount ≤ usizeMax) :
    checkedAdvance vaddr amount = .ok (vaddr + amount) := by
  simp [checkedAdvance, checkedAdd, fits]

variable {child : TableWalk Pte Bool}

section

variable (stopFits : stop ≤ usizeMax)
  (wellFormed : (format.tree layout).WellFormed tables.memory (level + 1) frame)
include stopFits wellFormed

section

variable (inRange : vaddr < stop)
  (cursorOk : (format.tree layout).CursorOk tables.memory (level + 1) frame vaddr)
include inRange cursorOk

private theorem unmapEntry_succeeds {canReclaim : Bool}
    (below : 0 < level → SucceedsInside format layout level child)
    (inside : (format.tree layout).EndsInside tables.memory (level + 1) frame vaddr stop) :
    ∃ next canReclaim' tables', format.unmapEntry layout child (level + 1) frame stop retained vaddr
        canReclaim tables = (.ok (next, canReclaim'), tables') := by
  have shortStep : checkedAdvance vaddr
      (min (layout.levelSize (level + 1)) (stop - vaddr)) = .ok _ :=
    checkedAdvance_eq (by omega)
  unfold unmapEntry
  simp only [shortStep]
  by_cases unused : format.unused
      (tables.memory frame (layout.virtToIndex vaddr (level + 1))) = true
  · rw [if_pos unused]
    exact ⟨_, _, _, rfl⟩
  rw [if_neg unused]
  by_cases absent : (!format.present
      (tables.memory frame (layout.virtToIndex vaddr (level + 1)))) = true
  · rw [if_pos absent]
    exact ⟨_, _, _, rfl⟩
  rw [if_neg absent]
  by_cases leaf : (level + 1 == 1 || format.huge
      (tables.memory frame (layout.virtToIndex vaddr (level + 1))) (decide (level + 1 > 1))) = true
  · have isFinal : format.entryKind (level + 1)
        (tables.memory frame (layout.virtToIndex vaddr (level + 1))) =
        .final := by
      have isLeaf : format.isLeaf (level + 1)
          (tables.memory frame (layout.virtToIndex vaddr (level + 1))) =
          true := by
        unfold isLeaf
        rw [Bool.or_comm]
        exact leaf
      simp [entryKind, unused, isLeaf]
    have aligned : layout.levelSize (level + 1) ∣ vaddr := cursorOk.aligned (fun below isTable => by
        rw [tree_kind, tree_index, isFinal] at isTable
        cases isTable)
    have ends : (vaddr / layout.levelSize (level + 1) + 1) * layout.levelSize (level + 1) ≤ stop :=
      inside vaddr le_rfl inRange _ (RadixTree.endSlot_of_final isFinal)
    rw [Nat.add_mul, Nat.div_mul_cancel aligned, Nat.one_mul] at ends
    have amount : (if format.huge (tables.memory frame (layout.virtToIndex vaddr (level + 1)))
          (decide (level + 1 > 1)) = true
        then layout.levelSize (level + 1) else layout.pageSize) =
        layout.levelSize (level + 1) := by
      split_ifs with huge
      · rfl
      · rw [Bool.not_eq_true] at huge
        rw [huge, Bool.or_false, beq_iff_eq] at leaf
        rw [leaf, layout.levelSize_one]
    rw [if_pos leaf, amount, checkedAdvance_eq (ends.trans stopFits)]
    exact ⟨_, _, _, rfl⟩
  have isTable : format.entryKind (level + 1)
      (tables.memory frame (layout.virtToIndex vaddr (level + 1))) =
      .table (format.paddr (tables.memory frame (layout.virtToIndex vaddr (level + 1))) true) := by
    have notLeaf : format.isLeaf (level + 1)
        (tables.memory frame (layout.virtToIndex vaddr (level + 1))) =
        false := by
      unfold isLeaf
      rw [Bool.or_comm, ← Bool.not_eq_true]
      exact leaf
    rw [Bool.not_eq_true, Bool.not_eq_false'] at absent
    simp [entryKind, unused, notLeaf, absent]
  have positive : 0 < level := by
    rcases eq_zero_or_pos level with zero | positive
    · subst level
      exact absurd isTable entryKind_one_ne_table
    · exact positive
  rw [if_neg leaf, entryStop_eq inRange stopFits]
  rcases below positive _ vaddr _ tables
    (wellFormed.child ((format.tree layout).index_lt (level + 1) vaddr) isTable)
    (le_trans (min_le_left _ _) stopFits) (cursorOk.below isTable)
    (inside.below isTable) with ⟨childCanReclaim, walked, walk⟩
  simp only [tree_size] at walk
  simp only [walk]
  split_ifs
  · exact ⟨_, _, _, rfl⟩
  · exact ⟨_, _, _, rfl⟩
  · exact ⟨_, _, _, rfl⟩

private theorem unmapEntry_advances {next : Nat} {canReclaim canReclaim' : Bool}
    {tables' : PageTables Pte} (below : PrunesTable format layout level child)
    (ran : format.unmapEntry layout child (level + 1) frame stop retained vaddr
      canReclaim tables = (.ok (next, canReclaim'), tables')) :
    (format.tree layout).Thinner tables.memory tables'.memory ∧ vaddr < next ∧
      (layout.levelSize (level + 1) ∣ next ∨ stop ≤ next) := by
  have sizePos := layout.levelSize_pos (level + 1)
  rcases unmapEntry_cases inRange stopFits ran with plain | ⟨below', descends⟩
  · have aligned : layout.levelSize (level + 1) ∣ vaddr := cursorOk.aligned plain.notTable
    refine ⟨(plain.prunes wellFormed).1.thinner, ?_, ?_⟩
    · have advanced := plain.advanced
      omega
    · rcases plain.advanced with whole | ⟨last, _⟩
      · rw [whole]
        exact .inl ((Nat.dvd_add_right aligned).mpr (Nat.dvd_refl _))
      · exact .inr last.ge
  · refine ⟨(descends.prunes wellFormed below stopFits).thinner, ?_, ?_⟩
    · rw [descends.advanced]
      apply lt_min inRange
      rw [add_mul, one_mul]
      exact Nat.lt_div_mul_add sizePos
    · rw [descends.advanced]
      rcases min_choice stop ((vaddr / layout.levelSize (level + 1) + 1) *
          layout.levelSize (level + 1)) with last | boundary
      · exact .inr last.ge
      · rw [boundary]
        exact .inl (dvd_mul_left _ _)

end

theorem unmapLoop_succeeds {fuel : Nat} {canReclaim : Bool}
    (prunes : PrunesTable format layout level child)
    (below : 0 < level → SucceedsInside format layout level child)
    (cursorOk : (format.tree layout).CursorOk tables.memory (level + 1) frame vaddr ∨ stop ≤ vaddr)
    (inside : (format.tree layout).EndsInside tables.memory (level + 1) frame vaddr stop) :
    ∃ canReclaim' tables', format.unmapLoop layout child (level + 1) frame stop retained fuel vaddr
        canReclaim tables = (.ok canReclaim', tables') := by
  induction fuel generalizing vaddr canReclaim tables with
  | zero => exact ⟨_, _, rfl⟩
  | succ fuel ih =>
    rw [unmapLoop]
    split_ifs with inRange
    · have here := cursorOk.resolve_right (by omega)
      have succeeds : ∃ next nextReclaim nextTables,
          format.unmapEntry layout child (level + 1) frame stop retained vaddr
            canReclaim tables = (.ok (next, nextReclaim), nextTables) :=
        unmapEntry_succeeds stopFits wellFormed inRange here below inside
      rcases succeeds with ⟨next, nextReclaim, nextTables, entry⟩
      rcases unmapEntry_advances stopFits wellFormed inRange here prunes entry
        with ⟨thinner, progress, boundary⟩
      rw [entry]
      apply ih (wellFormed.thinner thinner) _ fun addr lower upper slot found =>
        inside addr (progress.le.trans lower) upper slot (thinner.endSlot found)
      exact boundary.imp RadixTree.cursorOk_of_dvd id
    · exact ⟨_, _, rfl⟩

end

/-- `unmap_range_recursive` succeeds where its cursor can move. -/
theorem unmapRangeRecursive_succeeds (level : Nat) (retained : Option (Nat × Nat)) :
    SucceedsInside format layout (level + 1)
      (format.unmapRangeRecursive layout (level + 1) retained) := by
  induction level generalizing retained with
  | zero =>
    intro frame start stop tables wellFormed stopFits cursorOk inside
    exact unmapLoop_succeeds stopFits wellFormed (unmapRangeRecursive_prunes 0 none) (by simp)
      (.inl cursorOk) inside
  | succ level ih =>
    intro frame start stop tables wellFormed stopFits cursorOk inside
    exact unmapLoop_succeeds stopFits wellFormed (unmapRangeRecursive_prunes (level + 1) none)
      (fun _ => ih none) (.inl cursorOk) inside

end PteFormat

end TgosKits
