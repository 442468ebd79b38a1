import TgosKits.Library.RadixTree

/-!
# Sweeping a range of a radix tree

A sweep of a range of addresses clears the final entries (leaves) it covers and detaches
tables that became empty on the way.
-/

namespace TgosKits

open List

theorem flatMap_perm_of_update {Item Part : Type} {items : List Item} {item : Item}
    {before after : Item → List Part} {extra : List Part} (nodup : items.Nodup)
    (member : item ∈ items) (others : ∀ other ∈ items, other ≠ item → after other = before other)
    (changed : (before item).Perm (after item ++ extra)) :
    (items.flatMap before).Perm (items.flatMap after ++ extra) := by
  induction items with
  | nil => simp at member
  | cons first rest ih =>
    rcases nodup_cons.mp nodup with ⟨notMember, restNodup⟩
    rw [flatMap_cons, flatMap_cons]
    rcases eq_or_ne first item with rfl | here
    · have same : rest.flatMap after = rest.flatMap before := by
        apply flatMap_congr
        intro other inRest
        apply others other (mem_cons_of_mem _ inRest)
        intro equal
        exact notMember (equal ▸ inRest)
      rw [same]
      refine (changed.append_right _).trans ?_
      rw [append_assoc, append_assoc]
      exact perm_append_comm.append_left _
    · have inRest := mem_of_ne_of_mem here.symm member
      rw [others first (mem_cons_self ..) here, append_assoc]
      apply List.Perm.append_left
      exact ih restNodup inRest (fun other inside => others other (mem_cons_of_mem _ inside))

namespace RadixTree

open FrameMemory

variable {Entry : Type} {tree : RadixTree Entry}

/-- The walk of an address of the range ends at the slot. -/
def Covered (tree : RadixTree Entry) (memory : FrameMemory Entry)
    (level frame start stop : Nat) (slot : EntrySlot) : Prop :=
  ∃ addr, start ≤ addr ∧ addr < stop ∧ tree.endSlot memory level frame addr = some slot

/-- A frame of a node whose entries are unused now and were not all unused
before. -/
def Emptied (tree : RadixTree Entry) (before after : FrameMemory Entry)
    (level frame : Nat) : Prop :=
  (∀ index < tree.slots level, tree.unused (after frame index) = true) ∧
    ∃ index < tree.slots level, tree.unused (before frame index) = false

/-- The range was swept: its leaves are gone, and so are the detached frames,
which were emptied on the way. -/
structure Sweeps (tree : RadixTree Entry) (before after : FrameMemory Entry)
    (level frame start stop : Nat) (leaves : List EntrySlot) (detached : List Nat) : Prop where
  prunes : tree.Prunes before after level frame (· ∈ leaves)
  leaves_nodup : leaves.Nodup
  mem_leaves : ∀ slot, slot ∈ leaves ↔ tree.Covered before level frame start stop slot
  frames : (tree.frames before level frame).Perm (tree.frames after level frame ++ detached)
  emptied : ∀ other ∈ detached, ∃ lower, 0 < lower ∧ lower < level ∧
    tree.Emptied before after lower other

variable {before middle after : FrameMemory Entry}
  {level frame start cursor next stop index below : Nat} {leaves : List EntrySlot}
  {detached : List Nat} {memory : FrameMemory Entry}

theorem Sweeps.nothing
    (noLeaf : ∀ addr, start ≤ addr → addr < stop → tree.endSlot memory level frame addr = none) :
    tree.Sweeps memory memory level frame start stop [] [] where
  prunes := (Prunes.refl memory level frame).congr (by simp)
  leaves_nodup := nodup_nil
  mem_leaves := by
    intro slot
    simp only [not_mem_nil, false_iff]
    intro ⟨addr, lower, upper, found⟩
    rw [noLeaf addr lower upper] at found
    cases found
  frames := by simp
  emptied := by simp

theorem Emptied.mono {before' after' : FrameMemory Entry}
    (emptied : tree.Emptied before after level frame) (same : after' frame = after frame)
    (thinner : tree.Thinner before' before) : tree.Emptied before' after' level frame := by
  rcases emptied with ⟨unused, position, bound, used⟩
  refine ⟨by simpa only [same] using unused, position, bound, ?_⟩
  rcases thinner frame position with kept | nowUnused
  · rw [← kept]
    exact used
  · simp [nowUnused] at used

theorem Sweeps.wellFormed (wellFormed : tree.WellFormed before level frame)
    (sweeps : tree.Sweeps before after level frame start stop leaves detached) :
    tree.WellFormed after level frame :=
  wellFormed.thinner sweeps.prunes.thinner

theorem Sweeps.trans {leaves' : List EntrySlot} {detached' : List Nat}
    (wellFormed : tree.WellFormed before level frame)
    (lower : start ≤ cursor) (upper : cursor ≤ stop)
    (first : tree.Sweeps before middle level frame start cursor leaves detached)
    (second : tree.Sweeps middle after level frame cursor stop leaves' detached') :
    tree.Sweeps before after level frame start stop (leaves ++ leaves')
      (detached ++ detached') where
  prunes := by
    apply (first.prunes.trans second.prunes).congr
    intro addr slot _
    rw [mem_append]
  leaves_nodup := by
    apply List.Nodup.append first.leaves_nodup second.leaves_nodup
    intro slot inFirst inSecond
    rcases (second.mem_leaves slot).mp inSecond with ⟨addr, _, _, found⟩
    have earlier := first.prunes.thinner.endSlot found
    rw [first.prunes.endSlot_of_hit earlier inFirst] at found
    cases found
  mem_leaves := by
    intro slot
    rw [mem_append, first.mem_leaves, second.mem_leaves]
    constructor
    · rintro (⟨addr, low, high, found⟩ | ⟨addr, low, high, found⟩)
      · exact ⟨addr, low, by omega, found⟩
      · exact ⟨addr, by omega, high, first.prunes.thinner.endSlot found⟩
    · rintro ⟨addr, low, high, found⟩
      by_cases early : tree.Covered before level frame start cursor slot
      · exact .inl early
      have notHit : slot ∉ leaves := fun member => early ((first.mem_leaves slot).mp member)
      have late : cursor ≤ addr := by
        by_contra before
        exact early ⟨addr, low, by omega, found⟩
      exact .inr ⟨addr, late, high, first.prunes.endSlot_of_not_hit found notHit⟩
  frames := by
    refine first.frames.trans ?_
    refine (second.frames.append_right detached).trans ?_
    rw [append_assoc]
    exact perm_append_comm.append_left _
  emptied := by
    intro other member
    rcases mem_append.mp member with inFirst | inSecond
    · rcases first.emptied other inFirst with ⟨lower, positive, small, emptied⟩
      refine ⟨lower, positive, small, emptied.mono ?_ (.refl before)⟩
      apply second.prunes.outside
      intro reachable
      have nodup := first.frames.nodup_iff.mp wellFormed
      exact (nodup_append.mp nodup).2.2 other reachable other inFirst rfl
    · rcases second.emptied other inSecond with ⟨lower, positive, small, emptied⟩
      exact ⟨lower, positive, small, emptied.mono rfl first.prunes.thinner⟩

theorem frames_perm_of_entry {extra : List Nat} (bound : index < tree.slots (level + 1))
    (others : ∀ other < tree.slots (level + 1), other ≠ index →
      after frame other = before frame other)
    (below : ∀ other < tree.slots (level + 1), other ≠ index →
      ∀ child, tree.kind (level + 1) (before frame other) = .table child →
      tree.frames after level child = tree.frames before level child)
    (changed : (match tree.kind (level + 1) (before frame index) with
        | .table child => tree.frames before level child
        | _ => []).Perm
      ((match tree.kind (level + 1) (after frame index) with
        | .table child => tree.frames after level child
        | _ => []) ++ extra)) :
    (tree.frames before (level + 1) frame).Perm (tree.frames after (level + 1) frame ++ extra) := by
  simp only [frames, cons_append]
  apply List.Perm.cons
  apply flatMap_perm_of_update nodup_range (mem_range.mpr bound) _ changed
  intro other member different
  have inside := mem_range.mp member
  rw [others other inside different]
  cases kind : tree.kind (level + 1) (before frame other) with
  | table child => exact below other inside different child kind
  | empty | final => rfl

section

variable (wellFormed : tree.WellFormed memory (level + 1) frame)
include wellFormed

theorem frames_child_store {entry : Entry} {other child : Nat}
    (bound : other < tree.slots (level + 1))
    (isTable : tree.kind (level + 1) (memory frame other) = .table child) :
    tree.frames (memory.store frame index entry) level child = tree.frames memory level child := by
  apply frames_congr
  intro reached member
  apply store_of_frame_ne
  rintro rfl
  exact wellFormed.frame_not_mem bound isTable member

theorem Sweeps.clear {entry : Entry} (inRange : cursor < next)
    (inEntry : ∀ addr, cursor ≤ addr → addr < next →
      tree.index (level + 1) addr = tree.index (level + 1) cursor)
    (isFinal : tree.kind (level + 1) (memory frame (tree.index (level + 1) cursor)) = .final)
    (unused : tree.unused entry = true) :
    tree.Sweeps memory (memory.store frame (tree.index (level + 1) cursor) entry) (level + 1)
      frame cursor next [⟨frame, tree.index (level + 1) cursor, level + 1⟩]
      [] where
  prunes := by
    apply (Prunes.clear wellFormed unused _).congr
    · simp
    · simp [isFinal]
  leaves_nodup := nodup_singleton _
  mem_leaves := by
    intro slot
    rw [mem_singleton]
    constructor
    · rintro rfl
      exact ⟨cursor, le_rfl, inRange, endSlot_of_final isFinal⟩
    · intro ⟨addr, lower, upper, found⟩
      have same := inEntry addr lower upper
      rw [endSlot_of_final (by rw [same]; exact isFinal), same] at found
      exact (Option.some.inj found).symm
  frames := by
    apply frames_perm_of_entry (tree.index_lt _ _)
    · intro other _ different
      exact store_of_index_ne different
    · intro other bound _ child isTable
      exact frames_child_store wellFormed bound isTable
    · rw [store_same, isFinal, (tree.kind_eq_empty _ _).mpr unused]
      exact .refl _
  emptied := by simp

end

theorem Sweeps.ofChild (wellFormed : tree.WellFormed before (level + 1) frame)
    (inEntry : ∀ addr, cursor ≤ addr → addr < next →
      tree.index (level + 1) addr = tree.index (level + 1) cursor)
    (isTable : tree.kind (level + 1) (before frame (tree.index (level + 1) cursor)) = .table below)
    (sweeps : tree.Sweeps before after level below cursor next leaves detached) :
    tree.Sweeps before after (level + 1) frame cursor next leaves detached where
  prunes := by
    apply Prunes.ofChild wellFormed (tree.index_lt _ _) isTable sweeps.prunes
    intro slot member
    rcases (sweeps.mem_leaves slot).mp member with ⟨addr, _, _, found⟩
    exact endSlot_frame_mem found
  leaves_nodup := sweeps.leaves_nodup
  mem_leaves := by
    intro slot
    rw [sweeps.mem_leaves]
    refine exists_congr fun addr => and_congr_right fun lower =>
      and_congr_right fun upper => ?_
    rw [endSlot_of_table (by rw [inEntry addr lower upper]; exact isTable)]
  frames := by
    have notBelow := wellFormed.frame_not_mem (tree.index_lt _ _) isTable
    have here : after frame = before frame := sweeps.prunes.outside frame notBelow
    apply frames_perm_of_entry (tree.index_lt (level + 1) cursor)
    · intro other _ _
      rw [here]
    · intro other bound different child isChild
      apply frames_congr
      intro reached member
      apply sweeps.prunes.outside
      intro inBelow
      exact wellFormed.children_disjoint bound (tree.index_lt _ _) isChild
        isTable different member inBelow
    · rw [here, isTable]
      exact sweeps.frames
  emptied := by
    intro other member
    rcases sweeps.emptied other member with ⟨lower, positive, small, emptied⟩
    exact ⟨lower, positive, by omega, emptied⟩

theorem frames_of_all_unused
    (allUnused : ∀ position < tree.slots (level + 1), tree.unused (memory frame position) = true) :
    tree.frames memory (level + 1) frame = [frame] := by
  simp only [frames, cons.injEq, true_and, flatMap_eq_nil_iff]
  intro position member
  rw [(tree.kind_eq_empty _ _).mpr (allUnused position (mem_range.mp member))]

theorem Sweeps.detach {entry : Entry} (wellFormed : tree.WellFormed before (level + 2) frame)
    (bound : index < tree.slots (level + 2))
    (isTable : tree.kind (level + 2) (after frame index) = .table below)
    (allUnused : ∀ position < tree.slots (level + 1), tree.unused (after below position) = true)
    (wasUsed : ∃ position < tree.slots (level + 1), tree.unused (before below position) = false)
    (unused : tree.unused entry = true)
    (sweeps : tree.Sweeps before after (level + 2) frame start stop leaves detached) :
    tree.Sweeps before (after.store frame index entry) (level + 2) frame start
      stop leaves (detached ++ [below]) where
  prunes := by
    have detaching := Prunes.detach (sweeps.wellFormed wellFormed) isTable allUnused unused
    apply (sweeps.prunes.trans detaching).congr
    simp
  leaves_nodup := sweeps.leaves_nodup
  mem_leaves := sweeps.mem_leaves
  frames := by
    have thinned := sweeps.wellFormed wellFormed
    have lost : (tree.frames after (level + 2) frame).Perm
        (tree.frames (after.store frame index entry) (level + 2) frame ++ [below]) := by
      apply frames_perm_of_entry bound
      · intro other _ different
        exact store_of_index_ne different
      · intro other inside _ child isChild
        exact frames_child_store thinned inside isChild
      · rw [store_same, isTable, (tree.kind_eq_empty _ _).mpr unused]
        simp only [nil_append]
        rw [frames_of_all_unused allUnused]
    refine sweeps.frames.trans ?_
    refine (lost.append_right detached).trans ?_
    rw [append_assoc]
    exact perm_append_comm.append_left _
  emptied := by
    have thinned := sweeps.wellFormed wellFormed
    have notHere : ∀ other ∈ detached ++ [below], other ≠ frame := by
      rintro other member rfl
      rcases mem_append.mp member with early | last
      · have nodup := sweeps.frames.nodup_iff.mp wellFormed
        exact (nodup_append.mp nodup).2.2 other frame_mem_frames other early rfl
      · obtain rfl := mem_singleton.mp last
        exact thinned.frame_not_mem bound isTable frame_mem_frames
    intro other member
    have same : after.store frame index entry other = after other :=
      store_of_frame_ne (notHere other member)
    rcases mem_append.mp member with early | last
    · rcases sweeps.emptied other early with ⟨lower, positive, small, emptied⟩
      exact ⟨lower, positive, small, emptied.mono same (Thinner.refl before)⟩
    obtain rfl := mem_singleton.mp last
    refine ⟨level + 1, by omega, by omega, ?_, wasUsed⟩
    rw [same]
    exact allUnused

end RadixTree

end TgosKits
