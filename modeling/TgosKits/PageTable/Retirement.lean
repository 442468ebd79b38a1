import TgosKits.Library.RadixSweep
import TgosKits.PageTable.Deferred
import TgosKits.PageTable.Removal

/-! # What deferred removal leaves behind -/

namespace TgosKits

open PteFormat DeferredRetirement

namespace DeferredRetirement

/-- No batch exceeds the capacity and `push` never failed. -/
structure Bounded (gather : DeferredRetirement) : Prop where
  tables : gather.tables.length ≤ maxDeferredPageTableLevels
  retired : ∀ batch ∈ gather.retired, batch.length ≤ maxDeferredPageTableLevels
  panicked : gather.panicked = false

variable {gather : DeferredRetirement} {frame : Nat}

theorem all_finish : gather.finish.all = gather.all := by
  simp [all, finish]

theorem Bounded.finish (bounded : gather.Bounded) : gather.finish.Bounded where
  tables := by simp [DeferredRetirement.finish]
  retired := by
    intro batch member
    simp only [DeferredRetirement.finish, List.mem_append, List.mem_singleton] at member
    rcases member with earlier | last
    · exact bounded.retired batch earlier
    · exact last ▸ bounded.tables
  panicked := bounded.panicked

theorem all_reserve : gather.reserve.all = gather.all := by
  unfold reserve
  split_ifs
  · exact all_finish
  · rfl

theorem Bounded.reserve (bounded : gather.Bounded) : gather.reserve.Bounded := by
  unfold DeferredRetirement.reserve
  split_ifs
  · exact bounded.finish
  · exact bounded

theorem Bounded.reserve_lt (bounded : gather.Bounded) :
    gather.reserve.tables.length < maxDeferredPageTableLevels := by
  have atMost := bounded.tables
  unfold DeferredRetirement.reserve
  split_ifs with full
  · simp [DeferredRetirement.finish, maxDeferredPageTableLevels]
  · simp only [beq_iff_eq] at full
    omega

theorem all_tableRemoved (room : gather.tables.length < maxDeferredPageTableLevels) :
    (gather.tableRemoved frame).all = gather.all ++ [frame] := by
  simp [all, tableRemoved, room]

theorem Bounded.tableRemoved (bounded : gather.Bounded)
    (room : gather.tables.length < maxDeferredPageTableLevels) :
    (gather.tableRemoved frame).Bounded := by
  unfold DeferredRetirement.tableRemoved
  rw [if_pos room]
  refine ⟨?_, bounded.retired, bounded.panicked⟩
  rw [List.length_append, List.length_singleton]
  exact room

end DeferredRetirement

namespace PteFormat

variable {Pte Config : Type} {format : PteFormat Pte Config}
  {layout : TableMeta} {level frame start cursor stop address : Nat} {retained : Option (Nat × Nat)}
  {before middle after state state' : RemovalState Pte}
  {leaves : List EntrySlot} {detached : List Nat}

/-- What a walk of a range did to the state: the range is swept, the leaves are
counted and the detached frames gathered; the tables behind retained entries stay
attached. -/
structure RemovalOf (format : PteFormat Pte Config) (layout : TableMeta)
    (level frame start stop : Nat) (retained : Option (Nat × Nat))
    (before after : RemovalState Pte) (leaves : List EntrySlot) (detached : List Nat) : Prop where
  sweeps : (format.tree layout).Sweeps before.memory after.memory level frame
    start stop leaves detached
  counted : after.removed = before.removed + leaves.length
  gathered : after.gather.all = before.gather.all ++ detached
  bounded : after.gather.Bounded
  caused : detached ≠ [] → leaves ≠ []
  areLeaves : ∀ slot ∈ leaves, format.isLeaf slot.level (before.memory slot.frame slot.index) = true
  kept : ∀ index, isRetained retained index = true → ∀ child,
    format.entryKind level (before.memory frame index) = .table child →
    after.memory frame index = before.memory frame index

theorem RemovalOf.nothing (bounded : state.gather.Bounded)
    (noLeaf : ∀ addr, start ≤ addr → addr < stop →
      (format.tree layout).endSlot state.memory level frame addr = none) :
    RemovalOf format layout level frame start stop retained state state [] [] where
  sweeps := .nothing noLeaf
  counted := by simp
  gathered := by simp
  bounded := bounded
  caused := fun none => absurd rfl none
  areLeaves := by simp
  kept := fun _ _ _ _ => rfl

theorem RemovalOf.trans {leaves' : List EntrySlot} {detached' : List Nat} (wellFormed :
      (format.tree layout).WellFormed before.memory level frame)
    (lower : start ≤ cursor) (upper : cursor ≤ stop)
    (first : RemovalOf format layout level frame start cursor retained before
      middle leaves detached)
    (second : RemovalOf format layout level frame cursor stop retained middle
      after leaves' detached') :
    RemovalOf format layout level frame start stop retained before after
      (leaves ++ leaves') (detached ++ detached') where
  sweeps := first.sweeps.trans wellFormed lower upper second.sweeps
  counted := by
    rw [second.counted, first.counted, List.length_append, add_assoc]
  gathered := by
    rw [second.gathered, first.gathered, List.append_assoc]
  bounded := second.bounded
  caused := by
    intro some
    rw [ne_eq, List.append_eq_nil_iff] at some ⊢
    intro none
    by_cases early : detached = []
    · exact second.caused (fun late => some ⟨early, late⟩) none.2
    · exact first.caused early none.1
  areLeaves := by
    intro slot member
    rcases List.mem_append.mp member with early | late
    · exact first.areLeaves slot early
    rcases (second.sweeps.mem_leaves slot).mp late with ⟨addr, _, _, found⟩
    have same := first.sweeps.prunes.thinner.eq_of_kind (by simp) (RadixTree.endSlot_kind found)
    rw [← same]
    exact second.areLeaves slot late
  kept := by
    intro index retains child isTable
    have early := first.kept index retains child isTable
    rw [second.kept index retains child (by rw [early]; exact isTable), early]

/-! ## One round -/

theorem removalNext_bounds (layout : TableMeta) (level : Nat) (inRange : address < stop) :
    address < removalNext layout level address stop ∧
      removalNext layout level address stop ≤ stop := by
  have offset := Nat.mod_lt address (layout.levelSize_pos level)
  simp only [removalNext]
  omega

theorem removalNext_inEntry {addr : Nat} (lower : address ≤ addr)
    (upper : addr < removalNext layout level address stop) :
    layout.virtToIndex addr level = layout.virtToIndex address level := by
  have same : addr / layout.levelSize level = address / layout.levelSize level := by
    simp only [removalNext] at upper
    have decomposed := Nat.div_add_mod address (layout.levelSize level)
    apply Nat.div_eq_of_lt_le
    · rw [Nat.mul_comm]
      omega
    · rw [add_mul, one_mul, mul_comm]
      omega
  unfold TableMeta.virtToIndex
  rw [show (2 ^ layout.levelShift level) = layout.levelSize level from rfl, same]

/-- A block that starts in the entry around the cursor ends there, too. -/
theorem block_le_removalNext {failing leafLevel : Nat} (below : leafLevel ≤ level)
    (aligned : layout.levelSize leafLevel ∣ failing)
    (upper : failing < removalNext layout (level + 1) address stop)
    (inside : failing + layout.levelSize leafLevel ≤ stop) :
    failing + layout.levelSize leafLevel ≤ removalNext layout (level + 1) address stop := by
  have boundary : layout.levelSize leafLevel ∣ address +
      (layout.levelSize (level + 1) - address % layout.levelSize (level + 1)) := by
    have size := Nat.mod_lt address (layout.levelSize_pos (level + 1))
    have whole := Nat.div_add_mod address (layout.levelSize (level + 1))
    refine (layout.levelSize_dvd (by omega : leafLevel ≤ level + 1)).trans
      ⟨address / layout.levelSize (level + 1) + 1, ?_⟩
    rw [mul_add, mul_one]
    omega
  simp only [removalNext] at upper ⊢
  have next := Nat.le_of_dvd (by omega) (Nat.dvd_sub boundary aligned)
  omega

def InUse (format : PteFormat Pte Config) (layout : TableMeta)
    (memory : FrameMemory Pte) (level frame : Nat) : Prop :=
  ∃ index < layout.slotCount level, format.unused (memory frame index) = false

/-- The walk of the address ends at the entry that stops a removal up to `stop` with the
error: a leaf whose block does not lie in the rest of the range, or an entry that is
neither leaf nor table. -/
def Raises (format : PteFormat Pte Config) (layout : TableMeta) (memory : FrameMemory Pte)
    (level frame address stop : Nat) (error : PagingError) : Prop :=
  (∃ pte leafLevel, format.findOccupiedLeaf layout memory level frame address =
        .ok (pte, leafLevel) ∧ leafLevel ≤ level ∧
      ¬ (layout.levelSize leafLevel ∣ address ∧ address + layout.levelSize leafLevel ≤ stop) ∧
      error = .invalidRange "Unmap range intersects a partial huge leaf") ∨
    format.findOccupiedLeaf layout memory level frame address = .error error ∧ error ≠ .notMapped

theorem Raises.ne_notMapped {address stop : Nat} {error : PagingError} {memory : FrameMemory Pte}
    (raises : format.Raises layout memory level frame address stop error) :
    format.findOccupiedLeaf layout memory level frame address ≠ .error .notMapped := by
  rcases raises with ⟨pte, leafLevel, found, -⟩ | ⟨found, other⟩
  · simp [found]
  · simpa [found] using other

/-- The removal went on up to an entry that raises the error. -/
abbrev StopsWith (format : PteFormat Pte Config) (layout : TableMeta)
    (level frame start stop : Nat) (retained : Option (Nat × Nat))
    (before after : RemovalState Pte) (error : PagingError) : Prop :=
  ∃ failing leaves detached, start ≤ failing ∧ failing < stop ∧
    RemovalOf format layout level frame start failing retained before after leaves detached ∧
    format.Raises layout after.memory level frame failing stop error

structure RemovesRange (format : PteFormat Pte Config) (layout : TableMeta)
    (level : Nat) (retained : Option (Nat × Nat)) (walk : RangeWalk Pte) : Prop where
  ok : ∀ {frame start stop : Nat} {state state' : RemovalState Pte}
    {result : RangeRemoval}, (format.tree layout).WellFormed state.memory level frame →
    start < stop → state.gather.Bounded →
    walk frame start stop state = (.ok result, state') →
    ∃ leaves detached, RemovalOf format layout level frame start stop retained state state'
        leaves detached ∧
      (result.empty = true → ∀ index < layout.slotCount level,
        format.unused (state'.memory frame index) = true) ∧
      (result.changed = true → leaves ≠ [] ∧ format.InUse layout state.memory level frame)
  error : ∀ {frame start stop : Nat} {state state' : RemovalState Pte}
    {error : PagingError}, (format.tree layout).WellFormed state.memory level frame →
    0 < level → start < stop → state.gather.Bounded →
    walk frame start stop state = (.error error, state') →
    StopsWith format layout level frame start stop retained state state' error

section

variable {child : RangeWalk Pte} {changed changed' : Bool} {below : Nat} {failure : PagingError}

inductive RemovalRound (format : PteFormat Pte Config) (layout : TableMeta)
    (child : RangeWalk Pte) (level frame stop : Nat)
    (retained : Option (Nat × Nat)) (address : Nat) (changed : Bool) (state : RemovalState Pte) :
    Except PagingError Bool → RemovalState Pte → Prop where
  | skip : format.entryKind level (state.memory frame (layout.virtToIndex address level)) = .empty →
      RemovalRound format layout child level frame stop retained address changed
        state (.ok changed) state
  | leaf : format.entryKind level (state.memory frame (layout.virtToIndex address level)) = .final →
      format.isLeaf level (state.memory frame (layout.virtToIndex address level)) = true →
      RemovalRound format layout child level frame stop retained address changed state (.ok true)
        { memory := state.memory.store frame (layout.virtToIndex address level)
            (format.clear
              (state.memory frame (layout.virtToIndex address level)))
          removed := state.removed + 1
          gather := state.gather.reserve }
  | stuck {error : PagingError} : format.Raises layout state.memory level frame address stop error →
      RemovalRound format layout child level frame stop retained address changed
        state (.error error) state
  | stuckBelow {below : Nat} {error : PagingError}
      {state' : RemovalState Pte} :
      format.entryKind level (state.memory frame (layout.virtToIndex address level)) =
          .table below →
      child below address (removalNext layout level address stop) state = (.error error, state') →
      RemovalRound format layout child level frame stop retained address changed
        state (.error error) state'
  | table {below : Nat} {result : RangeRemoval} {state' : RemovalState Pte} : format.entryKind level
        (state.memory frame (layout.virtToIndex address level)) = .table below →
      child below address (removalNext layout level address stop) state = (.ok result, state') →
      RemovalRound format layout child level frame stop retained address changed
        state (.ok (changed || result.changed)) state'
  | detach {below : Nat} {result : RangeRemoval}
      {state' : RemovalState Pte} :
      format.entryKind level (state.memory frame (layout.virtToIndex address level)) =
          .table below →
      child below address (removalNext layout level address stop) state = (.ok result, state') →
      result.empty = true → result.changed = true →
      isRetained retained (layout.virtToIndex address level) = false →
      RemovalRound format layout child level frame stop retained address changed state (.ok true)
        { state' with
          memory := state'.memory.store frame (layout.virtToIndex address level)
            (format.clear
              (state.memory frame (layout.virtToIndex address level)))
          gather := state'.gather.reserve.tableRemoved below }

theorem removeEntry_round (format : PteFormat Pte Config) (layout : TableMeta)
    (child : RangeWalk Pte) (level frame stop : Nat) (retained : Option (Nat × Nat)) (address : Nat)
    (changed : Bool) (state : RemovalState Pte) :
    RemovalRound format layout child (level + 1) frame stop retained address changed state
      (format.removeEntry layout child (level + 1) frame stop retained address changed state).1
      (format.removeEntry layout child (level + 1) frame stop retained address
        changed state).2 := by
  have dirAgrees : ∀ pte : Pte, (level + 1 == 1 || format.huge pte true) =
        (format.huge pte (decide (level + 1 > 1)) || level + 1 == 1) := by
    intro pte
    cases level with
    | zero => simp
    | succ level => simp
  unfold removeEntry
  simp only [dirAgrees]
  split
  · exact .skip (by simp [entryKind, *])
  split
  · rename_i unused leaf
    have kind : format.entryKind (level + 1)
        (state.memory frame (layout.virtToIndex address (level + 1))) = .final := by
      rw [entryKind, if_neg unused, isLeaf, leaf]
      rfl
    split_ifs with cut
    · refine .stuck (.inl ⟨state.memory frame (layout.virtToIndex address (level + 1)), level + 1,
        ?_, le_rfl, ?_, rfl⟩)
      · rw [findOccupiedLeaf_succ, kind]
        exact if_pos leaf
      · rintro ⟨aligned, inside⟩
        rw [Nat.dvd_iff_mod_eq_zero] at aligned
        simp only [removalNext, aligned, bne_self_eq_false, Bool.false_or, bne_iff_ne] at cut
        omega
    · exact .leaf kind leaf
  split
  · exact .stuck (.inr ⟨by simp_all [findOccupiedLeaf], by simp⟩)
  have kind : format.entryKind (level + 1)
      (state.memory frame (layout.virtToIndex address (level + 1))) =
      .table (format.paddr (state.memory frame (layout.virtToIndex address (level + 1))) true) := by
    simp_all [entryKind, isLeaf]
  split
  · rename_i error state' walk
    exact .stuckBelow kind walk
  rename_i result state' walk
  split_ifs with detaches
  · simp only [Bool.and_eq_true, Bool.not_eq_true'] at detaches
    exact .detach kind walk detaches.1.1 detaches.1.2 detaches.2
  · exact .table kind walk

theorem inUse_of_entryKind {kind : EntryKind}
    (known : format.entryKind level (state.memory frame (layout.virtToIndex address level)) = kind)
    (notEmpty : kind ≠ .empty) : format.InUse layout state.memory level frame := by
  refine ⟨_, (format.tree layout).index_lt level address, ?_⟩
  by_contra used
  rw [Bool.not_eq_false] at used
  have empty := ((format.tree layout).kind_eq_empty level _).mpr used
  exact notEmpty (known.symm.trans empty)

section

variable (wellFormed : (format.tree layout).WellFormed state.memory (level + 1) frame)
  (inEntry : ∀ addr, address ≤ addr → addr < stop → layout.virtToIndex addr (level + 1) =
    layout.virtToIndex address (level + 1))
include wellFormed inEntry

theorem RemovalOf.ofChild (isTable : format.entryKind (level + 1)
      (state.memory frame (layout.virtToIndex address (level + 1))) = .table below)
    (removal : RemovalOf format layout level below address stop none state state' leaves detached) :
    RemovalOf format layout (level + 1) frame address stop retained state
      state' leaves detached where
  sweeps := removal.sweeps.ofChild wellFormed inEntry isTable
  counted := removal.counted
  gathered := removal.gathered
  bounded := removal.bounded
  caused := removal.caused
  areLeaves := removal.areLeaves
  kept := by
    intro index _ _ _
    have apart := wellFormed.frame_not_mem
      ((format.tree layout).index_lt (level + 1) address) isTable
    rw [removal.sweeps.prunes.outside frame apart]

end

theorem RemovalOf.detach (wellFormed :
      (format.tree layout).WellFormed state.memory (level + 2) frame)
    (isTable : format.entryKind (level + 2)
      (state.memory frame (layout.virtToIndex address (level + 2))) = .table below)
    (notRetained : isRetained retained (layout.virtToIndex address (level + 2)) = false)
    (allUnused : ∀ index < layout.slotCount (level + 1),
      format.unused (state'.memory below index) = true)
    (inUse : format.InUse layout state.memory (level + 1) below) (some : leaves ≠ [])
    (here : state'.memory frame = state.memory frame)
    (removal : RemovalOf format layout (level + 2) frame address stop retained
      state state' leaves detached) :
    RemovalOf format layout (level + 2) frame address stop retained state
      { state' with
        memory := state'.memory.store frame
          (layout.virtToIndex address (level + 2)) (format.clear
            (state.memory frame (layout.virtToIndex address (level + 2))))
        gather := state'.gather.reserve.tableRemoved below }
      leaves (detached ++ [below]) where
  sweeps := removal.sweeps.detach wellFormed ((format.tree layout).index_lt (level + 2) address)
    (by rw [here]; exact isTable) allUnused inUse (format.unused_clear _)
  counted := removal.counted
  gathered := by
    rw [all_tableRemoved removal.bounded.reserve_lt,
      all_reserve, removal.gathered, List.append_assoc]
  bounded := removal.bounded.reserve.tableRemoved removal.bounded.reserve_lt
  caused := fun _ => some
  areLeaves := removal.areLeaves
  kept := by
    intro index retains child isChild
    have different : index ≠ layout.virtToIndex address (level + 2) := by
      intro equal
      rw [equal, notRetained] at retains
      cases retains
    exact (FrameMemory.store_of_index_ne different).trans (removal.kept index retains child isChild)

section

variable (walks : RemovesRange format layout level none child)
  (wellFormed : (format.tree layout).WellFormed state.memory (level + 1) frame)
  (inRange : address < stop) (bounded : state.gather.Bounded)
include walks wellFormed inRange bounded

theorem RemovalRound.ok (round : RemovalRound format layout child (level + 1) frame stop retained
      address changed state (.ok changed') state') :
    ∃ leaves detached, RemovalOf format layout (level + 1) frame address
        (removalNext layout (level + 1) address stop) retained state state'
        leaves detached ∧
      (changed' = true → changed = true ∨
        leaves ≠ [] ∧ format.InUse layout state.memory (level + 1) frame) := by
  have advances := removalNext_bounds layout (level + 1) inRange
  have bound := (format.tree layout).index_lt (level + 1) address
  have inEntry : ∀ addr, address ≤ addr → addr < removalNext layout (level + 1) address stop →
      layout.virtToIndex addr (level + 1) = layout.virtToIndex address (level + 1) :=
    fun addr lower upper => removalNext_inEntry lower upper
  cases round with
  | skip isEmpty =>
    refine ⟨[], [], .nothing bounded ?_, .inl⟩
    intro addr lower upper
    apply RadixTree.endSlot_of_empty
    rw [tree_index, inEntry addr lower upper]
    exact isEmpty
  | leaf isFinal isLeaf =>
    refine ⟨[⟨frame, layout.virtToIndex address (level + 1), level + 1⟩], [],
      { sweeps := .clear wellFormed advances.1 inEntry isFinal (format.unused_clear _)
        counted := rfl
        gathered := by simp [all_reserve]
        bounded := bounded.reserve
        caused := by simp
        areLeaves := by simpa using isLeaf
        kept := ?_ }, fun _ => .inr ⟨by simp, inUse_of_entryKind isFinal (by simp)⟩⟩
    intro index _ child isTable
    apply FrameMemory.store_of_index_ne
    intro equal
    rw [equal, isFinal] at isTable
    cases isTable
  | table isTable walk =>
    rcases walks.ok (wellFormed.child bound isTable) advances.1 bounded walk
      with ⟨leaves, detached, removal, _, changes⟩
    refine ⟨leaves, detached, removal.ofChild wellFormed inEntry isTable, ?_⟩
    intro either
    rw [Bool.or_eq_true] at either
    rcases either with already | now
    · exact .inl already
    · exact .inr ⟨(changes now).1, inUse_of_entryKind isTable (by simp)⟩
  | detach isTable walk empty changes notRetained =>
    cases level with
    | zero => exact absurd isTable entryKind_one_ne_table
    | succ level =>
      rcases walks.ok (wellFormed.child bound isTable) advances.1 bounded
        walk with ⟨leaves, detached, removal, allUnused, used⟩
      have here := removal.sweeps.prunes.outside frame (wellFormed.frame_not_mem bound isTable)
      have lifted : RemovalOf format layout (level + 2) frame address
          (removalNext layout (level + 2) address stop) retained state _
          leaves detached :=
        removal.ofChild wellFormed inEntry isTable
      refine ⟨leaves, _, lifted.detach wellFormed isTable notRetained
        (allUnused empty) (used changes).2 (used changes).1 here, ?_⟩
      intro _
      exact .inr ⟨(used changes).1, inUse_of_entryKind isTable (by simp)⟩

theorem RemovalRound.error (round : RemovalRound format layout child (level + 1) frame stop retained
      address changed state (.error failure) state') :
    StopsWith format layout (level + 1) frame address stop retained state state' failure := by
  have advances := removalNext_bounds layout (level + 1) inRange
  have bound := (format.tree layout).index_lt (level + 1) address
  cases round with
  | stuck raises =>
    exact ⟨address, [], [], le_rfl, inRange, .nothing bounded (by omega), raises⟩
  | stuckBelow isTable walk =>
    have positive : 0 < level := by
      rw [Nat.pos_iff_ne_zero]
      rintro rfl
      exact entryKind_one_ne_table isTable
    rcases walks.error (wellFormed.child bound isTable) positive advances.1 bounded walk with
      ⟨failing, leaves, detached, lower, upper, removal, raises⟩
    have inEntry : ∀ addr, address ≤ addr → addr < failing + 1 →
        layout.virtToIndex addr (level + 1) = layout.virtToIndex address (level + 1) :=
      fun addr low high => removalNext_inEntry low
        (show addr < removalNext layout (level + 1) address stop by omega)
    refine ⟨failing, leaves, detached, lower, by omega, removal.ofChild wellFormed
        (fun addr low high => inEntry addr low (by omega)) isTable, ?_⟩
    have here := removal.sweeps.prunes.outside frame (wellFormed.frame_not_mem bound isTable)
    rw [Raises, findOccupiedLeaf_succ, here, inEntry failing lower (by omega), isTable]
    refine raises.imp_left ?_
    rintro ⟨pte, leafLevel, found, below, cut, rfl⟩
    refine ⟨pte, leafLevel, found, by omega, fun ⟨aligned, inside⟩ => cut ⟨aligned, ?_⟩, rfl⟩
    exact block_le_removalNext below aligned upper inside

end

variable (walks : RemovesRange format layout level none child)
  (wellFormed : (format.tree layout).WellFormed state.memory (level + 1) frame)
  (bounded : state.gather.Bounded)
include walks wellFormed bounded

private theorem removeLoop_ok {fuel : Nat} {result : RangeRemoval}
    (enough : stop - address ≤ fuel) (order : address ≤ stop)
    (ran : format.removeLoop layout child (level + 1) frame stop retained fuel
      address changed state = (.ok result, state')) :
    ∃ leaves detached, RemovalOf format layout (level + 1) frame address stop retained state
        state' leaves detached ∧
      (result.empty = true → ∀ index < layout.slotCount (level + 1),
        format.unused (state'.memory frame index) = true) ∧
      (result.changed = true → changed = true ∨
        leaves ≠ [] ∧ format.InUse layout state.memory (level + 1) frame) := by
  induction fuel generalizing address changed state with
  | zero =>
    cases ran
    exact ⟨[], [], .nothing bounded (by omega), allUnused_eq_true_iff.mp, .inl⟩
  | succ fuel ih =>
    rw [removeLoop] at ran
    split_ifs at ran with inRange
    · have round := removeEntry_round format layout child level
        frame stop retained address changed state
      split at ran
      · simp at ran
      rename_i nextChanged nextState entry
      rw [entry] at round
      have advances := removalNext_bounds layout (level + 1) inRange
      rcases round.ok walks wellFormed inRange bounded with ⟨leaves, detached, step, stepChanged⟩
      rcases ih (step.sweeps.wellFormed wellFormed) step.bounded (by omega)
        advances.2 ran with ⟨leaves', detached', rest, empty, restChanged⟩
      refine ⟨_, _, step.trans wellFormed advances.1.le advances.2 rest, empty, ?_⟩
      intro changes
      rcases restChanged changes with before | ⟨some, inUse⟩
      · rcases stepChanged before with already | ⟨some, inUse⟩
        · exact .inl already
        · exact .inr ⟨by simp [some], inUse⟩
      · obtain ⟨index, bound, used⟩ := inUse
        refine .inr ⟨by simp [some], index, bound, ?_⟩
        rcases step.sweeps.prunes.thinner frame index with same | unused
        · rwa [← same]
        · cases used.symm.trans unused
    · cases ran
      exact ⟨[], [], .nothing bounded (by omega), allUnused_eq_true_iff.mp, .inl⟩

private theorem removeLoop_error {fuel : Nat}
    (ran : format.removeLoop layout child (level + 1) frame stop retained fuel
      address changed state = (.error failure, state')) :
    StopsWith format layout (level + 1) frame address stop retained state state' failure := by
  induction fuel generalizing address changed state with
  | zero => simp [removeLoop] at ran
  | succ fuel ih =>
    rw [removeLoop] at ran
    split_ifs at ran with inRange
    · have round := removeEntry_round format layout child level
        frame stop retained address changed state
      have advances := removalNext_bounds layout (level + 1) inRange
      split at ran
      · rename_i error nextState entry
        rw [entry] at round
        cases ran
        exact round.error walks wellFormed inRange bounded
      rename_i nextChanged nextState entry
      rw [entry] at round
      rcases round.ok walks wellFormed inRange bounded with ⟨leaves, detached, step, _⟩
      rcases ih (step.sweeps.wellFormed wellFormed) step.bounded ran with
        ⟨failing, leaves', detached', lower, upper, rest, raises⟩
      exact ⟨failing, _, _, by omega, upper, step.trans wellFormed advances.1.le lower rest, raises⟩
    · simp at ran

end

/-- `remove_range` sweeps its range, up to the entry it fails at if it fails. -/
theorem removeRange_removesRange (format : PteFormat Pte Config)
    (layout : TableMeta) (level : Nat) (retained : Option (Nat × Nat)) :
    RemovesRange format layout level retained (format.removeRange layout level retained) := by
  induction level generalizing retained with
  | zero =>
    refine ⟨?_, ?_⟩
    · intro frame start stop state state' result _ _ _ ran
      simp [removeRange] at ran
    · intro frame start stop state state' error _ positive
      exact absurd positive (lt_irrefl 0)
  | succ level ih =>
    refine ⟨?_, ?_⟩
    · intro frame start stop state state' result wellFormed order bounded ran
      rcases removeLoop_ok (ih none) wellFormed bounded le_rfl order.le ran
        with ⟨leaves, detached, removal, empty, changes⟩
      exact ⟨leaves, detached, removal, empty, fun changed =>
        (changes changed).resolve_left (by simp)⟩
    · intro frame start stop state state' error wellFormed _ _ bounded ran
      exact removeLoop_error (ih none) wellFormed bounded ran

end PteFormat

namespace PageTableRef

variable {Pte Config : Type} {format : PteFormat Pte Config} {layout : TableMeta}
  {table : PageTableRef} {start stop : Nat} {memory memory' : FrameMemory Pte}
  {gather : DeferredRetirement} {outcome : Except PagingError Nat}

def tableFrames (format : PteFormat Pte Config) (layout : TableMeta)
    (table : PageTableRef) (memory : FrameMemory Pte) : List Nat :=
  (format.tree layout).frames memory layout.ptLevel table.root

/-- What `unmap_range_deferred` did, up to the address `reach`. -/
structure DeferredRemoval (format : PteFormat Pte Config) (layout : TableMeta)
    (table : PageTableRef) (start stop : Nat)
    (memory memory' : FrameMemory Pte) (gather : DeferredRetirement)
    (outcome : Except PagingError Nat) (reach : Nat) (leaves : List EntrySlot) : Prop where
  /-- `leaves` are the occupied leaves of the range before `reach`. -/
  leaves_nodup : leaves.Nodup
  mem_leaves : ∀ slot, slot ∈ leaves ↔ ∃ vaddr, start ≤ vaddr ∧
    vaddr < reach ∧ table.leafSlot format layout memory vaddr = some slot
  cleared : ∀ vaddr slot, table.leafSlot format layout memory vaddr = some slot → slot ∈ leaves →
    table.leafSlot format layout memory' vaddr = none
  intact : ∀ vaddr slot, table.leafSlot format layout memory vaddr = some slot → slot ∉ leaves →
    table.queryOccupied format layout memory' vaddr = table.queryOccupied format layout memory vaddr
  /-- On success the whole range is cleared and its leaves are counted. -/
  success : ∀ count, outcome = .ok count → reach = stop ∧ count = leaves.length
  /-- On failure the entry at `reach`, inside the range, is intact, and it is the one that
  raised the error unless the hierarchy is too deep to start. -/
  failure : ∀ error, outcome = .error error → start ≤ reach ∧ reach < stop ∧
    table.queryOccupied format layout memory' reach =
      table.queryOccupied format layout memory reach ∧
    (format.Raises layout memory layout.ptLevel table.root reach stop error ∨
      maxDeferredPageTableLevels < layout.ptLevel ∧
        error = .hierarchyError "Page-table depth exceeds deferred reclaim capacity")
  /-- Every table frame is still reachable or handed to `retire`. -/
  frames : (table.tableFrames format layout memory).Perm
    (table.tableFrames format layout memory' ++ gather.retired.flatten)
  nodup : (table.tableFrames format layout memory' ++ gather.retired.flatten).Nodup
  /-- A retired frame has no entry in use, and had one before the call. -/
  retired_unused : ∀ frame ∈ gather.retired.flatten,
    ∀ index < layout.len, format.unused (memory' frame index) = true
  retired_was_used : ∀ frame ∈ gather.retired.flatten,
    ∃ index < layout.len, format.unused (memory frame index) = false
  retained : ∀ index, isRetained table.retainedRootEntries index = true → ∀ child,
    format.entryKind layout.ptLevel (memory table.root index) = .table child →
    memory' table.root index = memory table.root index
  handedOver : gather.tables = []
  bounded : gather.Bounded

theorem empty_bounded : (⟨[], [], false⟩ : DeferredRetirement).Bounded := ⟨by simp, by simp, rfl⟩

theorem DeferredRemoval.untouched {reach : Nat} (wellFormed : table.WellFormed format layout memory)
    (success : ∀ count, outcome = .ok count → reach = stop ∧ count = 0)
    (failure : ∀ error, outcome = .error error → reach < stop ∧
      maxDeferredPageTableLevels < layout.ptLevel ∧
      error = .hierarchyError "Page-table depth exceeds deferred reclaim capacity")
    (atStart : reach = start) :
    DeferredRemoval format layout table start stop memory memory ⟨[], [], false⟩
      outcome reach [] where
  leaves_nodup := List.nodup_nil
  mem_leaves := by
    simp only [List.not_mem_nil, false_iff]
    omega
  cleared := by simp
  intact := fun _ _ _ _ => rfl
  success := success
  failure := fun error failed =>
    ⟨atStart.ge, (failure error failed).1, rfl, .inr (failure error failed).2⟩
  frames := by simp
  nodup := by
    rw [List.flatten_nil, List.append_nil]
    exact wellFormed
  retired_unused := by simp
  retired_was_used := by simp
  retained := fun _ _ _ _ => rfl
  handedOver := rfl
  bounded := empty_bounded

theorem slotCount_of_lt {level : Nat} (below : level < layout.ptLevel) :
    layout.slotCount level = layout.len := by
  unfold TableMeta.slotCount
  rw [if_pos below]

theorem DeferredRemoval.ofRemoval {reach : Nat} {state' : RemovalState Pte}
    {leaves : List EntrySlot} {detached : List Nat}
    (wellFormed : table.WellFormed format layout memory)
    (removal : PteFormat.RemovalOf format layout layout.ptLevel table.root start
      reach table.retainedRootEntries ⟨memory, 0, ⟨[], [], false⟩⟩ state' leaves
      detached) (success : ∀ count, outcome = .ok count → reach = stop ∧ count = leaves.length)
    (failure : ∀ error, outcome = .error error → start ≤ reach ∧ reach < stop ∧
      format.Raises layout state'.memory layout.ptLevel table.root reach stop error) :
    DeferredRemoval format layout table start stop memory state'.memory
      (if state'.removed != 0 then state'.gather.finish else state'.gather)
      outcome reach leaves := by
  have counted : state'.removed = leaves.length := by
    rw [removal.counted, zero_add]
  have gathered : state'.gather.all = detached := by
    rw [removal.gathered]
    rfl
  generalize final : (if state'.removed != 0 then state'.gather.finish else state'.gather) = gather
  have closed : gather.retired.flatten = detached ∧ gather.tables = [] ∧ gather.Bounded := by
    subst final
    split_ifs with some
    · refine ⟨?_, rfl, removal.bounded.finish⟩
      rw [← gathered, ← all_finish]
      simp [all, finish]
    have noLeaves : leaves = [] := by
      simpa [counted] using some
    have noFrames : detached = [] := by
      by_contra frames
      exact removal.caused frames noLeaves
    rw [noFrames, all, List.append_eq_nil_iff] at gathered
    exact ⟨gathered.1.trans noFrames.symm, gathered.2, removal.bounded⟩
  have sweeps : (format.tree layout).Sweeps memory state'.memory layout.ptLevel
      table.root start reach leaves detached := removal.sweeps
  have thinner := sweeps.prunes.thinner
  refine
    { leaves_nodup := sweeps.leaves_nodup
      mem_leaves := ?_
      cleared := fun vaddr slot found member =>
        (leafSlot_of_prunes sweeps.prunes found).mpr member
      intact := ?_
      success := success
      failure := ?_
      frames := ?_
      nodup := ?_
      retired_unused := ?_
      retired_was_used := ?_
      retained := removal.kept
      handedOver := closed.2.1
      bounded := closed.2.2 }
  · intro slot
    rw [sweeps.mem_leaves]
    constructor
    · intro ⟨vaddr, lower, upper, ends⟩
      refine ⟨vaddr, lower, upper, leafSlot_eq_some_iff.mpr ⟨ends, ?_⟩⟩
      exact removal.areLeaves slot ((sweeps.mem_leaves slot).mpr ⟨vaddr, lower, upper, ends⟩)
    · intro ⟨vaddr, lower, upper, found⟩
      exact ⟨vaddr, lower, upper, (leafSlot_eq_some_iff.mp found).1⟩
  · intro vaddr slot found notMember
    have kept := sweeps.prunes.endSlot_of_not_hit (leafSlot_eq_some_iff.mp found).1 notMember
    unfold queryOccupied
    split_ifs
    · rfl
    · exact findOccupiedLeaf_of_thinner layout.ptLevel_pos thinner
        (findOccupiedLeaf_ne_notMapped layout.ptLevel_pos kept)
  · intro error failed
    rcases failure error failed with ⟨lower, upper, raises⟩
    have same := findOccupiedLeaf_of_thinner layout.ptLevel_pos thinner raises.ne_notMapped
    rw [Raises, same] at raises
    refine ⟨lower, upper, ?_, .inl raises⟩
    unfold queryOccupied
    rw [same]
  · rw [closed.1]
    exact sweeps.frames
  · rw [closed.1]
    exact sweeps.frames.nodup_iff.mp wellFormed
  · rw [closed.1]
    intro frame member index bound
    rcases sweeps.emptied frame member with ⟨level, _, below, emptied⟩
    apply emptied.1 index
    rw [tree_slots, slotCount_of_lt below]
    exact bound
  · rw [closed.1]
    intro frame member
    rcases sweeps.emptied frame member with ⟨level, _, below, emptied⟩
    rcases emptied.2 with ⟨index, bound, used⟩
    rw [tree_slots, slotCount_of_lt below] at bound
    exact ⟨index, bound, used⟩

/-- Deferred removal of an accepted range clears its leaves, up to the entry it
fails at if it fails, and accounts for every table frame. -/
theorem unmapRangeDeferred_accounts (wellFormed : table.WellFormed format layout memory)
    (accepted : validateOwnedUnmapRange layout start stop = .ok ())
    (ran : table.unmapRangeDeferred format layout start stop memory = (outcome, memory', gather)) :
    ∃ reach leaves, DeferredRemoval format layout table start stop memory
      memory' gather outcome reach leaves := by
  have order : start ≤ stop := by
    by_contra reversed
    simp [validateOwnedUnmapRange, show stop < start by omega] at accepted
  unfold unmapRangeDeferred at ran
  simp only [accepted] at ran
  split at ran
  · cases ran
    refine ⟨start, [], .untouched wellFormed ?_ (by simp) rfl⟩
    intro count counted
    cases counted
    exact ⟨by omega, rfl⟩
  split at ran
  · cases ran
    refine ⟨start, [], .untouched wellFormed (by simp) ?_ rfl⟩
    rintro error ⟨⟩
    exact ⟨by omega, by omega, rfl⟩
  have walks := removeRange_removesRange format layout layout.ptLevel table.retainedRootEntries
  have rootWellFormed : (format.tree layout).WellFormed
      (⟨memory, 0, ⟨[], [], false⟩⟩ : RemovalState Pte).memory layout.ptLevel
      table.root := wellFormed
  cases walk : format.removeRange layout layout.ptLevel
      table.retainedRootEntries table.root start stop
      ⟨memory, 0, ⟨[], [], false⟩⟩ with
  | mk result state' =>
    rw [walk] at ran
    cases ran
    cases result with
    | ok removed =>
      rcases walks.ok rootWellFormed (by omega) empty_bounded walk with
        ⟨leaves, detached, removal, _⟩
      refine ⟨stop, leaves, .ofRemoval wellFormed removal ?_ (by simp [Except.map])⟩
      intro count counted
      cases counted
      exact ⟨rfl, by rw [removal.counted, zero_add]⟩
    | error error =>
      rcases walks.error rootWellFormed layout.ptLevel_pos (by omega) empty_bounded walk with
        ⟨failing, leaves, detached, lower, upper, removal, raises⟩
      refine ⟨failing, leaves, .ofRemoval wellFormed removal (by simp [Except.map]) ?_⟩
      rintro error ⟨⟩
      exact ⟨lower, upper, raises⟩

/-- The only page of the sparse table takes its two tables with it. -/
theorem sparse_unmapRangeDeferred_accounts :
    (sparseRef.unmapRangeDeferred plainFormat sv39 0x200000 0x201000
        sparseTables.memory).1 = .ok 1 ∧
      (sparseRef.unmapRangeDeferred plainFormat sv39 0x200000 0x201000
        sparseTables.memory).2.2.retired = [[0x3000, 0x2000]] ∧
      ∃ reach leaves, DeferredRemoval plainFormat sv39 sparseRef 0x200000
        0x201000 sparseTables.memory
        (sparseRef.unmapRangeDeferred plainFormat sv39 0x200000 0x201000 sparseTables.memory).2.1
        (sparseRef.unmapRangeDeferred plainFormat sv39 0x200000 0x201000 sparseTables.memory).2.2
        (sparseRef.unmapRangeDeferred plainFormat sv39 0x200000 0x201000
          sparseTables.memory).1 reach leaves := by
  refine ⟨by decide +kernel, by decide +kernel, ?_⟩
  exact unmapRangeDeferred_accounts sparse_wellFormed (by decide +kernel)
    (by rw [Prod.mk.eta])

end PageTableRef

end TgosKits
