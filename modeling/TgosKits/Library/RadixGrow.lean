import TgosKits.Library.RadixSweep

/-!
# Adding to a radix tree

A walk that adds an entry may link fresh tables on its way.
-/

namespace TgosKits.RadixTree

open List

open FrameMemory

variable {Entry : Type} {tree : RadixTree Entry}

/-- The final entry that the walk of an address ends at, with its level. -/
def lookup (tree : RadixTree Entry) (memory : FrameMemory Entry)
    (level frame addr : Nat) : Option (Nat × Entry) :=
  (tree.endSlot memory level frame addr).map fun slot =>
    (slot.level, memory slot.frame slot.index)

/-- The addresses select the same entry at every level from `bottom` up. -/
def Selects (tree : RadixTree Entry) (bottom level addr base : Nat) : Prop :=
  ∀ lower, bottom ≤ lower → lower ≤ level → tree.index lower addr = tree.index lower base

section Lookup

variable {memory memory' : FrameMemory Entry} {level bottom frame addr base child : Nat}

theorem lookup_of_final
    (isFinal : tree.kind (level + 1) (memory frame (tree.index (level + 1) addr)) = .final) :
    tree.lookup memory (level + 1) frame addr =
      some (level + 1, memory frame (tree.index (level + 1) addr)) := by
  simp [lookup, endSlot_of_final isFinal]

theorem lookup_of_table
    (isTable : tree.kind (level + 1) (memory frame (tree.index (level + 1) addr)) = .table child) :
    tree.lookup memory (level + 1) frame addr = tree.lookup memory level child addr := by
  simp [lookup, endSlot_of_table isTable]

theorem lookup_of_empty
    (isEmpty : tree.kind (level + 1) (memory frame (tree.index (level + 1) addr)) = .empty) :
    tree.lookup memory (level + 1) frame addr = none := by
  simp [lookup, endSlot_of_empty isEmpty]

theorem lookup_of_entry_eq (same : memory' frame (tree.index (level + 1) addr) =
      memory frame (tree.index (level + 1) addr)) (below : ∀ child, tree.kind (level + 1)
      (memory frame (tree.index (level + 1) addr)) = .table child →
      ∀ reached ∈ tree.frames memory level child, memory' reached = memory reached) :
    tree.lookup memory' (level + 1) frame addr = tree.lookup memory (level + 1) frame addr := by
  cases kind : tree.kind (level + 1) (memory frame (tree.index (level + 1) addr)) with
  | empty =>
    rw [lookup_of_empty kind, lookup_of_empty (by rw [same]; exact kind)]
  | final =>
    rw [lookup_of_final kind, lookup_of_final (by rw [same]; exact kind), same]
  | table child =>
    rw [lookup_of_table kind, lookup_of_table (by rw [same]; exact kind)]
    unfold lookup
    rw [endSlot_congr (below child kind)]
    cases found : tree.endSlot memory level child addr with
    | none => rfl
    | some slot =>
      simp [below child kind slot.frame (endSlot_frame_mem found)]

theorem selects_succ (order : bottom ≤ level) : tree.Selects bottom (level + 1) addr base ↔
      tree.index (level + 1) addr = tree.index (level + 1) base ∧
        tree.Selects bottom level addr base := by
  constructor
  · intro selects
    exact ⟨selects (level + 1) (by omega) le_rfl,
      fun lower low high => selects lower low (by omega)⟩
  · intro ⟨here, below⟩ lower low high
    rcases eq_or_ne lower (level + 1) with rfl | notTop
    · exact here
    · exact below lower low (by omega)

theorem selects_same : tree.Selects level level addr base ↔
      tree.index level addr = tree.index level base := by
  constructor
  · intro selects
    exact selects level le_rfl le_rfl
  · intro here lower low high
    obtain rfl : lower = level := by omega
    exact here

theorem selects_of_endSlot_eq {slot : EntrySlot} (wellFormed : tree.WellFormed memory level frame)
    (first : tree.endSlot memory level frame addr = some slot)
    (second : tree.endSlot memory level frame base = some slot) :
    tree.Selects slot.level level addr base := by
  induction level generalizing frame with
  | zero => simp [endSlot] at first
  | succ level ih =>
    rcases endSlot_cases first with ⟨_, rfl⟩ | ⟨child, kind, first⟩
    · rw [selects_same]
      exact (index_eq_of_endSlot wellFormed second).symm
    have notHere := wellFormed.frame_not_mem (tree.index_lt _ _) kind
    rcases endSlot_cases second with ⟨_, rfl⟩ | ⟨other, otherKind, second⟩
    · exact absurd (endSlot_frame_mem first) notHere
    have same : tree.index (level + 1) addr = tree.index (level + 1) base := by
      by_contra different
      have apart := wellFormed.children_disjoint (tree.index_lt _ _)
        (tree.index_lt _ _) kind otherKind different
      exact apart (endSlot_frame_mem first) (endSlot_frame_mem second)
    rw [same, otherKind] at kind
    cases kind
    have below := ih (wellFormed.child (tree.index_lt _ _) otherKind) first second
    by_cases low : slot.level ≤ level
    · exact (selects_succ low).mpr ⟨same, below⟩
    intro lower lowerBound upperBound
    obtain rfl : lower = level + 1 := by omega
    exact same

theorem endSlot_eq_of_selects {slot : EntrySlot}
    (found : tree.endSlot memory level frame base = some slot) (reaches : bottom ≤ slot.level)
    (selects : tree.Selects bottom level addr base) :
    tree.endSlot memory level frame addr = some slot := by
  induction level generalizing frame with
  | zero => simp [endSlot] at found
  | succ level ih =>
    have slotLevel : slot.level ≤ level + 1 := (endSlot_level found).2
    have same : tree.index (level + 1) addr = tree.index (level + 1) base :=
      selects (level + 1) (by omega) le_rfl
    rcases endSlot_cases found with ⟨kind, isSlot⟩ | ⟨child, kind, found⟩
    · rw [endSlot_of_final (by rw [same]; exact kind), same, isSlot]
    · rw [endSlot_of_table (by rw [same]; exact kind)]
      exact ih found (fun lower low high => selects lower low (by omega))

end Lookup

/-! ## Growth -/

/-- The reachable frames grew by the fresh ones, and entries in use are as they
were. -/
structure Grows (tree : RadixTree Entry) (before after : FrameMemory Entry)
    (level frame : Nat) (fresh : List Nat) : Prop where
  frames : (tree.frames after level frame).Perm (tree.frames before level frame ++ fresh)
  outside : ∀ other, other ∉ tree.frames before level frame →
    other ∉ fresh → after other = before other
  kept : ∀ other ∈ tree.frames before level frame, ∀ index,
    tree.unused (before other index) = false →
    after other index = before other index

variable {before middle after : FrameMemory Entry}
  {level frame addr child index : Nat} {fresh fresh' : List Nat}

theorem Grows.refl (memory : FrameMemory Entry) (level frame : Nat) :
    tree.Grows memory memory level frame [] where
  frames := by simp
  outside := fun _ _ _ => rfl
  kept := fun _ _ _ _ => rfl

theorem Grows.trans (first : tree.Grows before middle level frame fresh)
    (second : tree.Grows middle after level frame fresh') :
    tree.Grows before after level frame (fresh ++ fresh') where
  frames := by
    refine second.frames.trans ?_
    rw [← append_assoc]
    exact first.frames.append_right _
  outside := by
    intro other notBefore notFresh
    rw [mem_append, not_or] at notFresh
    have notMiddle : other ∉ tree.frames middle level frame := by
      intro member
      rcases mem_append.mp (first.frames.mem_iff.mp member) with old | new
      · exact notBefore old
      · exact notFresh.1 new
    rw [second.outside other notMiddle notFresh.2, first.outside other notBefore notFresh.1]
  kept := by
    intro other member index used
    have same := first.kept other member index used
    have grown := first.frames.mem_iff.mpr (mem_append_left _ member)
    rw [second.kept other grown index (by rw [same]; exact used), same]

theorem Grows.wellFormed (wellFormed : tree.WellFormed before level frame)
    (grows : tree.Grows before after level frame fresh) (nodup : fresh.Nodup)
    (apart : ∀ other ∈ fresh, other ∉ tree.frames before level frame) :
    tree.WellFormed after level frame := by
  apply grows.frames.nodup_iff.mpr
  apply Nodup.append wellFormed nodup
  intro other old new
  exact apart other new old

theorem Grows.store {memory : FrameMemory Entry} {entry : Entry}
    (wellFormed : tree.WellFormed memory (level + 1) frame) (bound : index < tree.slots (level + 1))
    (wasUnused : tree.unused (memory frame index) = true)
    (notTable : ∀ below, tree.kind (level + 1) entry ≠ .table below) :
    tree.Grows memory (memory.store frame index entry) (level + 1) frame [] where
  frames := by
    have empty : tree.kind (level + 1) (memory frame index) = .empty :=
      (tree.kind_eq_empty _ _).mpr wasUnused
    rw [append_nil]
    have grown : (tree.frames memory (level + 1) frame).Perm
        (tree.frames (memory.store frame index entry) (level + 1) frame ++ []) := by
      apply frames_perm_of_entry bound
      · intro other _ different
        exact store_of_index_ne different
      · intro other inside _ below isTable
        exact frames_child_store wellFormed inside isTable
      · rw [store_same, empty]
        cases kind : tree.kind (level + 1) entry with
        | table below => exact absurd kind (notTable below)
        | empty | final => exact .refl _
    rw [append_nil] at grown
    exact grown.symm
  outside := fun _ notMember _ => store_outside notMember
  kept := by
    intro other _ position used
    rcases eq_or_ne other frame with rfl | otherFrame
    · apply store_of_index_ne
      rintro rfl
      cases wasUnused.symm.trans used
    · exact congrFun (store_of_frame_ne otherFrame) position

theorem lookup_store {memory : FrameMemory Entry} {entry : Entry}
    (wellFormed : tree.WellFormed memory (level + 1) frame)
    (notTable : ∀ below, tree.kind (level + 1) entry ≠ .table below) :
    tree.lookup (memory.store frame index entry) (level + 1) frame addr =
      if tree.index (level + 1) addr = index then
        if tree.unused entry then none else some (level + 1, entry)
      else tree.lookup memory (level + 1) frame addr := by
  split_ifs with selected unused
  · apply lookup_of_empty
    rw [selected, store_same]
    exact (tree.kind_eq_empty _ _).mpr unused
  · have final : tree.kind (level + 1) entry = .final := by
      cases kind : tree.kind (level + 1) entry with
      | table below => exact absurd kind (notTable below)
      | empty => exact absurd ((tree.kind_eq_empty _ _).mp kind) unused
      | final => rfl
    rw [lookup_of_final (by rw [selected, store_same]; exact final), selected, store_same]
  · apply lookup_of_entry_eq (store_of_index_ne selected)
    intro below kind other member
    apply store_of_frame_ne
    rintro rfl
    exact wellFormed.frame_not_mem (tree.index_lt _ _) kind member

section

variable (wellFormed : tree.WellFormed before (level + 1) frame)
  (bound : index < tree.slots (level + 1))
  (isTable : tree.kind (level + 1) (before frame index) = .table child)
include wellFormed bound isTable

variable (grows : tree.Grows before after level child fresh)
  (apart : ∀ other ∈ fresh, other ∉ tree.frames before (level + 1) frame)
include grows apart

theorem Grows.frame_eq : after frame = before frame := by
  apply grows.outside frame (wellFormed.frame_not_mem bound isTable)
  exact fun new => apart frame new frame_mem_frames

theorem Grows.sibling {other sibling : Nat} (otherBound : other < tree.slots (level + 1))
    (different : other ≠ index)
    (isSibling : tree.kind (level + 1) (before frame other) = .table sibling) :
    ∀ reached ∈ tree.frames before level sibling, after reached = before reached := by
  intro reached member
  apply grows.outside reached
  · intro below
    exact wellFormed.children_disjoint otherBound bound isSibling isTable different member below
  · intro new
    exact apart reached new (frames_subset_of_table otherBound isSibling member)

theorem Grows.ofChild : tree.Grows before after (level + 1) frame fresh where
  frames := by
    have here := grows.frame_eq wellFormed bound isTable apart
    apply frames_perm_of_entry bound
    · intro other _ _
      rw [here]
    · intro other inside different sibling isSibling
      rw [here] at isSibling
      exact (frames_congr (grows.sibling wellFormed bound isTable apart inside
        different isSibling)).symm
    · rw [here, isTable]
      exact grows.frames
  outside := by
    intro other notMember notFresh
    apply grows.outside other _ notFresh
    exact fun below => notMember (frames_subset_of_table bound isTable below)
  kept := by
    intro other member position used
    by_cases below : other ∈ tree.frames before level child
    · exact grows.kept other below position used
    · rw [grows.outside other below (fun new => apart other new member)]

theorem Grows.lookup_ofChild : tree.lookup after (level + 1) frame addr =
      if tree.index (level + 1) addr = index then
        tree.lookup after level child addr
      else tree.lookup before (level + 1) frame addr := by
  have here := grows.frame_eq wellFormed bound isTable apart
  split_ifs with selected
  · rw [lookup_of_table (by rw [here, selected]; exact isTable)]
  apply lookup_of_entry_eq (by rw [here])
  intro sibling kind
  exact grows.sibling wellFormed bound isTable apart (tree.index_lt _ _) selected kind

end

/-- The memory with an emptied frame linked at an entry. -/
def link (memory : FrameMemory Entry) (frame index child : Nat)
    (blank : Nat → Entry) (entry : Entry) : FrameMemory Entry :=
  FrameMemory.store (Function.update memory child blank) frame index entry

variable {memory : FrameMemory Entry} {blank : Nat → Entry} {entry : Entry}

theorem link_of_ne {other : Nat} (notFrame : other ≠ frame) (notChild : other ≠ child) :
    link memory frame index child blank entry other = memory other := by
  unfold link
  rw [store_of_frame_ne notFrame, Function.update_of_ne notChild]

theorem link_child (different : child ≠ frame) :
    link memory frame index child blank entry child = blank := by
  unfold link
  rw [store_of_frame_ne different, Function.update_self]

theorem link_entry : link memory frame index child blank entry frame index =
    entry := by
  simp [link]

theorem link_other {other : Nat} (notChild : frame ≠ child) (different : other ≠ index) :
    link memory frame index child blank entry frame other = memory frame other := by
  unfold link
  rw [store_of_index_ne different, Function.update_of_ne notChild]

theorem link_sibling {other sibling : Nat} (wellFormed : tree.WellFormed memory (level + 1) frame)
    (isFresh : child ∉ tree.frames memory (level + 1) frame)
    (otherBound : other < tree.slots (level + 1))
    (isSibling : tree.kind (level + 1) (memory frame other) = .table sibling) :
    ∀ reached ∈ tree.frames memory level sibling,
      link memory frame index child blank entry reached = memory reached := by
  intro reached member
  apply link_of_ne
  · rintro rfl
    exact wellFormed.frame_not_mem otherBound isSibling member
  · rintro rfl
    exact isFresh (frames_subset_of_table otherBound isSibling member)

variable (wellFormed : tree.WellFormed memory (level + 2) frame)
  (isFresh : child ∉ tree.frames memory (level + 2) frame)
include wellFormed isFresh

variable (wasUnused : tree.unused (memory frame index) = true)
  (allUnused : ∀ position, tree.unused (blank position) = true)
  (isTable : tree.kind (level + 2) entry = .table child)
include wasUnused allUnused isTable

/-- Linking an emptied fresh frame at an unused entry. -/
theorem Grows.link (bound : index < tree.slots (level + 2)) :
    tree.Grows memory (RadixTree.link memory frame index child blank entry)
      (level + 2) frame [child] where
  frames := by
    have notFrame : child ≠ frame := fun equal => isFresh (equal ▸ frame_mem_frames)
    apply frames_perm_of_entry bound
    · intro other _ different
      exact (link_other notFrame.symm different).symm
    · intro other inside different sibling isSibling
      rw [link_other notFrame.symm different] at isSibling
      exact (frames_congr (link_sibling wellFormed isFresh inside isSibling)).symm
    · rw [link_entry, isTable, (tree.kind_eq_empty _ _).mpr wasUnused]
      simp only [nil_append]
      rw [frames_of_all_unused]
      intro position _
      rw [link_child notFrame]
      exact allUnused position
  outside := by
    intro other notMember notFresh
    apply link_of_ne
    · exact fun equal => notMember (equal ▸ frame_mem_frames)
    · exact fun equal => notFresh (equal ▸ mem_singleton_self _)
  kept := by
    intro other member position used
    have notChild : other ≠ child := fun equal => isFresh (equal ▸ member)
    rcases eq_or_ne other frame with rfl | otherFrame
    · apply link_other notChild
      rintro rfl
      cases wasUnused.symm.trans used
    · rw [link_of_ne otherFrame notChild]

theorem lookup_link : tree.lookup (RadixTree.link memory frame index child blank entry)
      (level + 2) frame addr = tree.lookup memory (level + 2) frame addr := by
  have notFrame : child ≠ frame := fun equal => isFresh (equal ▸ frame_mem_frames)
  by_cases selected : tree.index (level + 2) addr = index
  · have empty : tree.kind (level + 2) (memory frame (tree.index (level + 2) addr)) = .empty := by
      rw [selected]
      exact (tree.kind_eq_empty _ _).mpr wasUnused
    rw [lookup_of_empty empty, lookup_of_table (by rw [selected, link_entry]; exact isTable)]
    apply lookup_of_empty
    rw [link_child notFrame]
    exact (tree.kind_eq_empty _ _).mpr (allUnused _)
  · apply lookup_of_entry_eq (link_other notFrame.symm selected)
    intro sibling kind
    exact link_sibling wellFormed isFresh (tree.index_lt _ _) kind

end TgosKits.RadixTree
