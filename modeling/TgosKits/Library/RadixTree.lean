import Mathlib.Data.List.Flatten
import Mathlib.Data.List.Nodup
import Mathlib.Data.List.Range

/-!
# Radix trees kept in memory

A node is an array of entries at a frame of memory; an entry is empty, a pointer to the
node one level below, or final: the walks that select it end there.
-/

namespace TgosKits

open List

/-- What an entry of a table leads to. -/
inductive EntryKind where
  | empty
  | final
  | table (frame : Nat)
  deriving DecidableEq, Repr

abbrev FrameMemory (Entry : Type) := Nat → Nat → Entry

/-- How entries are read and which part of an address selects them. -/
structure RadixTree (Entry : Type) where
  size : Nat → Nat
  /-- The number of entries of a level that addresses select. -/
  radix : Nat → Nat
  slots : Nat → Nat
  unused : Entry → Bool
  kind : Nat → Entry → EntryKind
  size_pos : ∀ level, 0 < size level
  size_dvd : ∀ level, size level ∣ size (level + 1)
  radix_pos : ∀ level, 0 < radix level
  radix_le : ∀ level, radix level ≤ slots level
  kind_eq_empty : ∀ level entry, kind level entry = .empty ↔ unused entry = true

structure EntrySlot where
  frame : Nat
  index : Nat
  level : Nat
  deriving DecidableEq, Repr

namespace FrameMemory

variable {Entry : Type} {memory : FrameMemory Entry} {frame other index : Nat} {entry : Entry}

def store (memory : FrameMemory Entry) (frame index : Nat) (entry : Entry) : FrameMemory Entry :=
  Function.update memory frame (Function.update (memory frame) index entry)

@[simp]
theorem store_same (memory : FrameMemory Entry) (frame index : Nat) (entry : Entry) :
    memory.store frame index entry frame index = entry := by
  simp [store]

theorem store_of_frame_ne (different : other ≠ frame) :
    memory.store frame index entry other = memory other := by
  simp [store, different]

theorem store_of_index_ne (different : other ≠ index) :
    memory.store frame index entry frame other = memory frame other := by
  simp [store, different]

end FrameMemory

namespace RadixTree

open FrameMemory

variable {Entry : Type} (tree : RadixTree Entry)

/-- The entry of a level that an address selects. -/
def index (level addr : Nat) : Nat := addr / tree.size level % tree.radix level

theorem index_lt (level addr : Nat) : tree.index level addr < tree.slots level :=
  (Nat.mod_lt _ (tree.radix_pos level)).trans_le (tree.radix_le level)

/-- Where the walk of an address from a frame ends, if at a final entry. -/
def endSlot (memory : FrameMemory Entry) : Nat → Nat → Nat → Option EntrySlot
  | 0, _, _ => none
  | level + 1, frame, addr =>
    match tree.kind (level + 1) (memory frame (tree.index (level + 1) addr)) with
    | .final => some ⟨frame, tree.index (level + 1) addr, level + 1⟩
    | .table child => endSlot memory level child addr
    | .empty => none

/-- The frames of the nodes reachable from a frame, itself included. -/
def frames (memory : FrameMemory Entry) : Nat → Nat → List Nat
  | 0, _ => []
  | level + 1, frame =>
    frame :: (range (tree.slots (level + 1))).flatMap fun index =>
      match tree.kind (level + 1) (memory frame index) with
      | .table child => frames memory level child
      | _ => []

variable (memory : FrameMemory Entry)

/-- No frame is reached twice. -/
def WellFormed (level frame : Nat) : Prop :=
  (tree.frames memory level frame).Nodup

section

variable {tree} {memory : FrameMemory Entry} {level frame addr child index : Nat}

theorem endSlot_of_final
    (isLeaf : tree.kind (level + 1) (memory frame (tree.index (level + 1) addr)) = .final) :
    tree.endSlot memory (level + 1) frame addr =
      some ⟨frame, tree.index (level + 1) addr, level + 1⟩ := by
  simp [endSlot, isLeaf]

theorem endSlot_of_table
    (isTable : tree.kind (level + 1) (memory frame (tree.index (level + 1) addr)) = .table child) :
    tree.endSlot memory (level + 1) frame addr = tree.endSlot memory level child addr := by
  simp [endSlot, isTable]

theorem endSlot_of_empty
    (isEmpty : tree.kind (level + 1) (memory frame (tree.index (level + 1) addr)) = .empty) :
    tree.endSlot memory (level + 1) frame addr = none := by
  simp [endSlot, isEmpty]

theorem frame_mem_frames : frame ∈ tree.frames memory (level + 1) frame := by
  simp [frames]

theorem frames_subset_of_table (bound : index < tree.slots (level + 1))
    (isTable : tree.kind (level + 1) (memory frame index) = .table child) :
    tree.frames memory level child ⊆ tree.frames memory (level + 1) frame := by
  intro other member
  apply mem_cons_of_mem
  refine mem_flatMap.mpr ⟨index, mem_range.mpr bound, ?_⟩
  simpa only [isTable] using member

variable {slot : EntrySlot}

theorem endSlot_cases (found : tree.endSlot memory (level + 1) frame addr = some slot) :
    tree.kind (level + 1) (memory frame (tree.index (level + 1) addr)) = .final ∧
        slot = ⟨frame, tree.index (level + 1) addr, level + 1⟩ ∨
      ∃ child, tree.kind (level + 1) (memory frame (tree.index (level + 1) addr)) = .table child ∧
        tree.endSlot memory level child addr = some slot := by
  cases kind : tree.kind (level + 1) (memory frame (tree.index (level + 1) addr)) with
  | final =>
    rw [endSlot_of_final kind] at found
    exact .inl ⟨rfl, (Option.some.inj found).symm⟩
  | table child =>
    rw [endSlot_of_table kind] at found
    exact .inr ⟨child, rfl, found⟩
  | empty => simp [endSlot_of_empty kind] at found

variable (found : tree.endSlot memory level frame addr = some slot)
include found

@[elab_as_elim]
theorem endSlot_induction {motive : Nat → Nat → Prop} (final : ∀ level frame, tree.kind (level + 1)
        (memory frame (tree.index (level + 1) addr)) = .final →
      slot = ⟨frame, tree.index (level + 1) addr, level + 1⟩ →
      motive (level + 1) frame) (table : ∀ level frame child, tree.kind (level + 1)
        (memory frame (tree.index (level + 1) addr)) = .table child →
      motive level child → motive (level + 1) frame) : motive level frame := by
  induction level generalizing frame with
  | zero => simp [endSlot] at found
  | succ level ih =>
    rcases endSlot_cases found with ⟨kind, isSlot⟩ | ⟨child, kind, below⟩
    · exact final level frame kind isSlot
    · exact table level frame child kind (ih below)

theorem endSlot_frame_mem : slot.frame ∈ tree.frames memory level frame := by
  refine endSlot_induction found ?_ ?_
  · rintro level frame kind rfl
    exact frame_mem_frames
  · intro level frame child kind below
    exact frames_subset_of_table (tree.index_lt _ _) kind below

theorem endSlot_level : 0 < slot.level ∧ slot.level ≤ level := by
  refine endSlot_induction found ?_ ?_
  · rintro level frame kind rfl
    exact ⟨Nat.succ_pos level, le_rfl⟩
  · intro level frame child kind below
    exact ⟨below.1, below.2.trans (Nat.le_succ level)⟩

theorem endSlot_kind : tree.kind slot.level (memory slot.frame slot.index) = .final := by
  refine endSlot_induction found ?_ ?_
  · rintro level frame kind rfl
    exact kind
  · exact fun _ _ _ _ below => below

end

/-! ## Well-formed trees -/

section

variable {tree} {memory : FrameMemory Entry} {level frame index below : Nat}
  {memory' : FrameMemory Entry}

section

variable (wellFormed : tree.WellFormed memory (level + 1) frame)
  (bound : index < tree.slots (level + 1))
  (isTable : tree.kind (level + 1) (memory frame index) = .table below)
include wellFormed bound isTable

theorem WellFormed.frame_not_mem : frame ∉ tree.frames memory level below := by
  intro member
  have notBelow := (nodup_cons.mp wellFormed).1
  apply notBelow
  refine mem_flatMap.mpr ⟨index, mem_range.mpr bound, ?_⟩
  simpa only [isTable] using member

theorem WellFormed.child : tree.WellFormed memory level below := by
  have nodup := (nodup_flatMap.mp (nodup_cons.mp wellFormed).2).1 index (mem_range.mpr bound)
  simp only [isTable] at nodup
  exact nodup

end

theorem WellFormed.children_disjoint {first second firstChild secondChild : Nat}
    (wellFormed : tree.WellFormed memory (level + 1) frame)
    (firstBound : first < tree.slots (level + 1)) (secondBound : second < tree.slots (level + 1))
    (firstTable : tree.kind (level + 1) (memory frame first) = .table firstChild)
    (secondTable : tree.kind (level + 1) (memory frame second) = .table secondChild)
    (different : first ≠ second) :
    (tree.frames memory level firstChild).Disjoint (tree.frames memory level secondChild) := by
  have apart := (nodup_flatMap.mp (nodup_cons.mp wellFormed).2).2
  have symmetric : Std.Symm (Function.onFun Disjoint fun index =>
      match tree.kind (level + 1) (memory frame index) with
      | .table child => tree.frames memory level child
      | _ => []) :=
    ⟨fun _ _ disjoint _ inFirst inSecond => disjoint inSecond inFirst⟩
  have disjoint := apart.forall (mem_range.mpr firstBound) (mem_range.mpr secondBound) different
  simpa only [Function.onFun, firstTable, secondTable] using disjoint

variable (same : ∀ other ∈ tree.frames memory level frame, memory' other = memory other)
include same

theorem endSlot_congr (addr : Nat) :
    tree.endSlot memory' level frame addr = tree.endSlot memory level frame addr := by
  induction level generalizing frame with
  | zero => rfl
  | succ level ih =>
    have here : memory' frame = memory frame := same frame frame_mem_frames
    simp only [endSlot, here]
    cases kind : tree.kind (level + 1) (memory frame (tree.index (level + 1) addr)) with
    | table child =>
      apply ih
      intro other member
      exact same other (frames_subset_of_table (tree.index_lt _ _) kind member)
    | empty | final => rfl

theorem frames_congr : tree.frames memory' level frame = tree.frames memory level frame := by
  induction level generalizing frame with
  | zero => rfl
  | succ level ih =>
    have here : memory' frame = memory frame := same frame frame_mem_frames
    simp only [frames, here]
    congr 1
    apply flatMap_congr
    intro index member
    cases kind : tree.kind (level + 1) (memory frame index) with
    | table child =>
      apply ih
      intro other below
      exact same other (frames_subset_of_table (mem_range.mp member) kind below)
    | empty | final => rfl

end

/-! ## Thinning: entries only ever become unused -/

/-- Entries change only by being cleared. -/
def Thinner (before after : FrameMemory Entry) : Prop :=
  ∀ frame index, after frame index = before frame index ∨ tree.unused (after frame index) = true

section Thinning

variable {tree} {before middle after : FrameMemory Entry} {level frame addr index : Nat}

theorem Thinner.refl : tree.Thinner memory memory :=
  fun _ _ => .inl rfl

theorem Thinner.trans (first : tree.Thinner before middle) (second : tree.Thinner middle after) :
    tree.Thinner before after := by
  intro frame index
  rcases second frame index with same | unused
  · rw [same]
    exact first frame index
  · exact .inr unused

theorem Thinner.store {memory : FrameMemory Entry} {entry : Entry}
    (unused : tree.unused entry = true) : tree.Thinner memory (memory.store frame index entry) := by
  intro other position
  rcases eq_or_ne other frame with rfl | different
  · rcases eq_or_ne position index with rfl | different
    · simp [unused]
    · exact .inl (store_of_index_ne different)
  · exact .inl (congrFun (store_of_frame_ne different) position)

section

variable (thinner : tree.Thinner before after)
include thinner

theorem Thinner.eq_of_kind {kind : EntryKind} (notEmpty : kind ≠ .empty)
    (known : tree.kind level (after frame index) = kind) :
    after frame index = before frame index := by
  rcases thinner frame index with same | unused
  · exact same
  · rw [(tree.kind_eq_empty level _).mpr unused] at known
    exact absurd known.symm notEmpty

theorem Thinner.endSlot {slot : EntrySlot}
    (found : tree.endSlot after level frame addr = some slot) :
    tree.endSlot before level frame addr = some slot := by
  refine endSlot_induction found ?_ ?_
  · intro level frame kind isSlot
    rw [thinner.eq_of_kind (by simp) kind] at kind
    rw [endSlot_of_final kind, isSlot]
  · intro level frame child kind below
    rw [thinner.eq_of_kind (by simp) kind] at kind
    rw [endSlot_of_table kind, below]

theorem Thinner.frames :
    (tree.frames after level frame).Sublist (tree.frames before level frame) := by
  induction level generalizing frame with
  | zero => exact .refl _
  | succ level ih =>
    apply Sublist.cons_cons
    apply Sublist.flatMap_right
    intro index member
    cases kind : tree.kind (level + 1) (after frame index) with
    | table child =>
      rw [thinner.eq_of_kind (by simp) kind] at kind
      simpa only [kind] using ih
    | empty | final => exact nil_sublist _

end

theorem WellFormed.thinner (wellFormed : tree.WellFormed before level frame)
    (thinner : tree.Thinner before after) : tree.WellFormed after level frame :=
  thinner.frames.nodup wellFormed

end Thinning

/-! ## Pruning: clearing a set of final entries -/

/-- The memory lost the final entries in `hit` below a frame, and nothing else
that a walk can tell. -/
structure Prunes (before after : FrameMemory Entry) (level frame : Nat)
    (hit : EntrySlot → Prop) : Prop where
  thinner : tree.Thinner before after
  outside : ∀ other, other ∉ tree.frames before level frame → after other = before other
  lost : ∀ addr slot, tree.endSlot before level frame addr = some slot →
    (tree.endSlot after level frame addr = none ↔ hit slot)

variable {tree} {before middle after : FrameMemory Entry}
  {level frame addr index below : Nat} {hit : EntrySlot → Prop}

section

variable (prunes : tree.Prunes before after level frame hit)
include prunes

theorem Prunes.endSlot_of_not_hit {slot : EntrySlot}
    (found : tree.endSlot before level frame addr = some slot) (kept : ¬ hit slot) :
    tree.endSlot after level frame addr = some slot := by
  cases now : tree.endSlot after level frame addr with
  | none => exact absurd ((prunes.lost addr slot found).mp now) kept
  | some other => exact (prunes.thinner.endSlot now).symm.trans found

theorem Prunes.endSlot_of_hit {slot : EntrySlot}
    (found : tree.endSlot before level frame addr = some slot) (gone : hit slot) :
    tree.endSlot after level frame addr = none :=
  (prunes.lost addr slot found).mpr gone

theorem Prunes.endSlot_of_none (absent : tree.endSlot before level frame addr = none) :
    tree.endSlot after level frame addr = none := by
  cases now : tree.endSlot after level frame addr with
  | none => rfl
  | some slot => simp [prunes.thinner.endSlot now] at absent

end

theorem Prunes.refl (level frame : Nat) :
    tree.Prunes memory memory level frame (fun _ => False) where
  thinner := .refl memory
  outside := fun _ _ => rfl
  lost := by
    intro addr slot found
    simp [found]

theorem Prunes.congr {hit' : EntrySlot → Prop} (prunes : tree.Prunes before after level frame hit)
    (same : ∀ addr slot, tree.endSlot before level frame addr = some slot →
      (hit slot ↔ hit' slot)) : tree.Prunes before after level frame hit' where
  thinner := prunes.thinner
  outside := prunes.outside
  lost := fun addr slot found =>
    (prunes.lost addr slot found).trans (same addr slot found)

theorem Prunes.trans {hit' : EntrySlot → Prop} (first : tree.Prunes before middle level frame hit)
    (second : tree.Prunes middle after level frame hit') :
    tree.Prunes before after level frame (fun slot => hit slot ∨ hit' slot) where
  thinner := first.thinner.trans second.thinner
  outside := by
    intro other notMember
    have notThen : other ∉ tree.frames middle level frame :=
      fun member => notMember (first.thinner.frames.subset member)
    rw [second.outside other notThen, first.outside other notMember]
  lost := by
    intro addr slot found
    by_cases gone : hit slot
    · have absent := first.endSlot_of_hit found gone
      simp [gone, second.endSlot_of_none absent]
    · have present := first.endSlot_of_not_hit found gone
      simp [gone, second.lost addr slot present]

variable {memory : FrameMemory Entry} {entry : Entry}

private theorem endSlot_store_same (unused : tree.unused entry = true)
    (selected : tree.index (level + 1) addr = index) :
    tree.endSlot (memory.store frame index entry) (level + 1) frame addr =
      none := by
  apply endSlot_of_empty
  rw [selected, store_same]
  exact (tree.kind_eq_empty _ _).mpr unused

section

variable (wellFormed : tree.WellFormed memory (level + 1) frame)
include wellFormed

theorem endSlot_store_other (notSelected : tree.index (level + 1) addr ≠ index) :
    tree.endSlot (memory.store frame index entry) (level + 1) frame addr =
      tree.endSlot memory (level + 1) frame addr := by
  simp only [endSlot, store_of_index_ne notSelected]
  cases kind : tree.kind (level + 1) (memory frame (tree.index (level + 1) addr)) with
  | table child =>
    apply endSlot_congr
    intro other member
    exact store_of_frame_ne fun equal =>
      wellFormed.frame_not_mem (tree.index_lt _ _) kind (equal ▸ member)
  | empty | final => rfl

theorem index_eq_of_endSlot
    (found : tree.endSlot memory (level + 1) frame addr = some ⟨frame, index, level + 1⟩) :
    tree.index (level + 1) addr = index := by
  rcases endSlot_cases found with ⟨_, isSlot⟩ | ⟨child, kind, below⟩
  · simpa using isSlot.symm
  · exact absurd (endSlot_frame_mem below) (wellFormed.frame_not_mem (tree.index_lt _ _) kind)

end

theorem store_outside {other : Nat} (notMember : other ∉ tree.frames memory (level + 1) frame) :
    memory.store frame index entry other = memory other :=
  store_of_frame_ne fun same => notMember (same ▸ frame_mem_frames)

theorem Prunes.clear (wellFormed : tree.WellFormed memory (level + 1) frame)
    (unused : tree.unused entry = true)
    (notTable : ∀ child, tree.kind (level + 1) (memory frame index) ≠ .table child) :
    tree.Prunes memory (memory.store frame index entry) (level + 1) frame
      (fun slot => slot = ⟨frame, index, level + 1⟩) where
  thinner := .store unused
  outside := fun _ notMember => store_outside notMember
  lost := by
    intro addr slot found
    by_cases selected : tree.index (level + 1) addr = index
    · simp only [endSlot_store_same unused selected, true_iff]
      subst index
      rcases endSlot_cases found with ⟨_, isSlot⟩ | ⟨child, kind, _⟩
      · exact isSlot
      · exact absurd kind (notTable child)
    · have different : slot ≠ ⟨frame, index, level + 1⟩ := fun equal =>
        selected (index_eq_of_endSlot wellFormed (equal ▸ found))
      simp [endSlot_store_other wellFormed selected, found, different]

/-- Pruning the table behind an entry prunes the table that holds it. -/
theorem Prunes.ofChild (wellFormed : tree.WellFormed before (level + 1) frame)
    (bound : index < tree.slots (level + 1))
    (isTable : tree.kind (level + 1) (before frame index) = .table below)
    (prunes : tree.Prunes before after level below hit)
    (inside : ∀ slot, hit slot → slot.frame ∈ tree.frames before level below) :
    tree.Prunes before after (level + 1) frame hit where
  thinner := prunes.thinner
  outside := by
    intro other notMember
    apply prunes.outside
    exact fun member => notMember (frames_subset_of_table bound isTable member)
  lost := by
    intro addr slot found
    have here : after frame = before frame :=
      prunes.outside frame (wellFormed.frame_not_mem bound isTable)
    by_cases selected : tree.index (level + 1) addr = index
    · subst index
      rw [endSlot_of_table isTable] at found
      rw [endSlot_of_table (by rw [here]; exact isTable)]
      exact prunes.lost addr slot found
    rcases endSlot_cases found with ⟨kind, rfl⟩ | ⟨other, kind, found⟩
    · have notHit : ¬ hit ⟨frame, tree.index (level + 1) addr, level + 1⟩ :=
        fun gone => wellFormed.frame_not_mem bound isTable (inside _ gone)
      rw [endSlot_of_final (by rw [here]; exact kind)]
      simp [notHit]
    · have apart := wellFormed.children_disjoint bound (tree.index_lt _ _)
        isTable kind (.symm selected)
      rw [endSlot_of_table (by rw [here]; exact kind)]
      have untouched : ∀ reached ∈ tree.frames before level other, after reached = before reached :=
        fun reached member => prunes.outside reached (fun inBelow => apart inBelow member)
      have same := endSlot_congr untouched addr
      have notHit : ¬ hit slot := by
        intro gone
        exact apart (inside slot gone) (endSlot_frame_mem found)
      simp [same, found, notHit]

private theorem endSlot_eq_none_of_unused (unused : ∀ index < tree.slots level,
      tree.unused (memory frame index) = true) : tree.endSlot memory level frame addr = none := by
  cases level with
  | zero => rfl
  | succ level =>
    apply endSlot_of_empty
    exact (tree.kind_eq_empty _ _).mpr (unused _ (tree.index_lt _ _))

/-- Clearing the entry of a table whose own entries are all unused loses
nothing. -/
theorem Prunes.detach (wellFormed : tree.WellFormed memory (level + 1) frame)
    (isTable : tree.kind (level + 1) (memory frame index) = .table below)
    (allUnused : ∀ position < tree.slots level, tree.unused (memory below position) = true)
    (unused : tree.unused entry = true) :
    tree.Prunes memory (memory.store frame index entry) (level + 1) frame (fun _ => False) where
  thinner := .store unused
  outside := fun _ notMember => store_outside notMember
  lost := by
    intro addr slot found
    by_cases selected : tree.index (level + 1) addr = index
    · subst index
      rw [endSlot_of_table isTable, endSlot_eq_none_of_unused allUnused] at found
      simp at found
    · simp [endSlot_store_other wellFormed selected, found]

end RadixTree

end TgosKits
