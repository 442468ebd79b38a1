import TgosKits.Ext4.Node

/-! # Merging neighbouring extents -/

namespace TgosKits

open Ext4Extent List

def mergedLeafExtentLen (left right : Ext4Extent) : Except Ext4Error (Option Nat) :=
  if left.isUnwritten != right.isUnwritten then
    .ok none
  else if left.eeBlock + left.len ≥ 2 ^ 32 ∨
      left.eeBlock + left.len ≠ right.eeBlock then
    .ok none
  else if left.startBlock + left.len ≥ 2 ^ 64 ∨
      left.startBlock + left.len ≠ right.startBlock then
    .ok none
  else if left.len + right.len > maxLen left.isUnwritten then
    .ok none
  else
    match left.buildLenLike (left.len + right.len) with
    | some mergedLen => .ok (some mergedLen)
    | none => .error (Ext4Error.corrupted.withOperation "extent:merge_length")

/-- The loop over `merge_leaf_extent_right` at one place: the extents behind it are
merged into it as long as they can be. -/
def mergeLeafExtentsRight (left : Ext4Extent) : List Ext4Extent → Except Ext4Error (List Ext4Extent)
  | [] => .ok [left]
  | right :: rest =>
    match mergedLeafExtentLen left right with
    | .error error => .error error
    | .ok none => .ok (left :: right :: rest)
    | .ok (some mergedLen) =>
      mergeLeafExtentsRight { left with eeLen := mergedLen } rest

def mergeLeafExtentNeighbors (before : List Ext4Extent) (extent : Ext4Extent)
    (after : List Ext4Extent) : Except Ext4Error (List Ext4Extent) :=
  match before.getLast? with
  | none => mergeLeafExtentsRight extent after
  | some left =>
    match mergedLeafExtentLen left extent with
    | .error error => .error error
    | .ok none =>
      (mergeLeafExtentsRight extent after).map fun merged => before ++ merged
    | .ok (some mergedLen) =>
      (mergeLeafExtentsRight { left with eeLen := mergedLen } after).map
        fun merged => before.dropLast ++ merged

def insertAndMergeLeafExtent (entries : List Ext4Extent) (insertedIndex : Nat)
    (newExtent : Ext4Extent) : Except Ext4Error (List Ext4Extent) :=
  mergeLeafExtentNeighbors (entries.take insertedIndex) newExtent (entries.drop insertedIndex)

/-! ## Extents inside bounds -/

/-- Extents in order, inside `[lo, hi)`. -/
structure ExtentsIn (lo hi : Nat) (extents : List Ext4Extent) : Prop where
  apart : extents.Pairwise fun left right =>
    left.eeBlock + left.len ≤ right.eeBlock
  inside : ∀ extent ∈ extents, lo ≤ extent.eeBlock ∧ 0 < extent.len ∧
    extent.eeBlock + extent.len ≤ hi

variable {extents before after old new : List Ext4Extent}
  {left right extent : Ext4Extent} {lo hi mergedLen lblock : Nat}

theorem items_iff_extentsIn {geometry : ExtentGeometry} :
    (extentTree geometry).Items lo hi extents ↔ ExtentsIn lo hi extents := by
  have bounds : ∀ extent : Ext4Extent, (lo ≤ extent.eeBlock ∧
      extent.eeBlock < extent.eeBlock + extent.len ∧
      extent.eeBlock + extent.len ≤ hi) ↔ (lo ≤ extent.eeBlock ∧
      0 < extent.len ∧ extent.eeBlock + extent.len ≤ hi) := by
    intro extent
    omega
  exact ⟨fun items => ⟨items.apart, fun extent member =>
      (bounds extent).mp (items.inside extent member)⟩,
    fun inside => ⟨inside.apart, fun extent member =>
      (bounds extent).mpr (inside.inside extent member)⟩⟩

theorem extentsIn_append : ExtentsIn lo hi (before ++ after) ↔
      ExtentsIn lo hi before ∧ ExtentsIn lo hi after ∧
        ∀ extent ∈ before, ExtentsIn (extent.eeBlock + extent.len) hi after := by
  constructor
  · intro inside
    rcases pairwise_append.mp inside.apart with ⟨first, second, cross⟩
    have behind : ∀ extent ∈ after, lo ≤ extent.eeBlock ∧ 0 < extent.len ∧
        extent.eeBlock + extent.len ≤ hi := fun extent member =>
      inside.inside extent (mem_append_right _ member)
    refine ⟨⟨first, fun extent member =>
      inside.inside extent (mem_append_left _ member)⟩,
      ⟨second, behind⟩, ?_⟩
    intro extent member
    exact ⟨second, fun other otherMember =>
      ⟨cross extent member other otherMember, (behind other otherMember).2⟩⟩
  · intro ⟨first, second, cross⟩
    refine ⟨pairwise_append.mpr ⟨first.apart, second.apart, ?_⟩, ?_⟩
    · intro extent member other otherMember
      exact ((cross extent member).inside other otherMember).1
    · intro extent member
      rcases mem_append.mp member with member | member
      · exact first.inside extent member
      · exact second.inside extent member

theorem extentsIn_cons : ExtentsIn lo hi (extent :: after) ↔ lo ≤ extent.eeBlock ∧ 0 < extent.len ∧
        extent.eeBlock + extent.len ≤ hi ∧
        ExtentsIn (extent.eeBlock + extent.len) hi after := by
  constructor
  · intro inside
    rcases pairwise_cons.mp inside.apart with ⟨behind, apart⟩
    have here := inside.inside extent mem_cons_self
    refine ⟨here.1, here.2.1, here.2.2, apart, fun other member => ?_⟩
    exact ⟨behind other member, (inside.inside other (mem_cons_of_mem _ member)).2⟩
  · intro ⟨lower, positive, upper, rest⟩
    refine ⟨pairwise_cons.mpr ⟨fun other member =>
      (rest.inside other member).1, rest.apart⟩, ?_⟩
    intro other member
    rcases mem_cons.mp member with rfl | member
    · exact ⟨lower, positive, upper⟩
    · have bounds := rest.inside other member
      omega

theorem mappingOf_append : mappingOf (before ++ after) lblock =
      (mappingOf before lblock).or (mappingOf after lblock) := by
  unfold mappingOf
  rw [map_append, RunMap.lookup_append]

theorem mappingOf_cons : mappingOf (extent :: after) lblock =
      if extent.eeBlock ≤ lblock ∧ lblock < extent.eeBlock + extent.len then
        some (extent.eeStart + (lblock - extent.eeBlock), extent.isUnwritten)
      else mappingOf after lblock := by
  unfold mappingOf
  rw [map_cons, RunMap.lookup_cons]
  exact if_congr Run.covers_iff rfl rfl

theorem mappingOf_of_le (inside : ExtentsIn lo hi extents)
    (behind : hi ≤ lblock) : mappingOf extents lblock = none := by
  refine RunMap.lookup_eq_none_of_le fun run member => ?_
  rcases mem_map.mp member with ⟨extent, listed, rfl⟩
  exact (inside.inside extent listed).2.2.trans behind

theorem mappingOf_of_lt (inside : ExtentsIn lo hi extents)
    (before : lblock < lo) : mappingOf extents lblock = none := by
  refine RunMap.lookup_eq_none_of_lt fun run member => ?_
  rcases mem_map.mp member with ⟨extent, listed, rfl⟩
  exact before.trans_le (inside.inside extent listed).1

/-! ## What merging keeps -/

/-- One list of extents stands for the same mapping as another one and keeps its
bounds. -/
structure MergesTo (old new : List Ext4Extent) : Prop where
  mapping : ∀ lblock, mappingOf new lblock = mappingOf old lblock
  first : new.head?.map eeBlock = old.head?.map eeBlock
  bounds : ∀ lo hi, ExtentsIn lo hi old → ExtentsIn lo hi new

theorem MergesTo.refl : MergesTo old old := ⟨fun _ => rfl, rfl, fun _ _ => id⟩

theorem MergesTo.trans {newer : List Ext4Extent} (first : MergesTo old new)
    (second : MergesTo new newer) : MergesTo old newer :=
  ⟨fun lblock => (second.mapping lblock).trans (first.mapping lblock),
    second.first.trans first.first,
    fun lo hi inside => second.bounds lo hi (first.bounds lo hi inside)⟩

theorem MergesTo.append (merges : MergesTo old new) : MergesTo (before ++ old) (before ++ new) := by
  refine ⟨?_, ?_, ?_⟩
  · intro lblock
    rw [mappingOf_append, mappingOf_append, merges.mapping]
  · cases before with
    | nil => exact merges.first
    | cons extent before => rfl
  · intro lo hi inside
    rw [extentsIn_append] at inside ⊢
    exact ⟨inside.1, merges.bounds lo hi inside.2.1, fun extent member =>
      merges.bounds _ hi (inside.2.2 extent member)⟩

section

variable (ran : mergedLeafExtentLen left right = .ok (some mergedLen))
include ran

private theorem mergedLeafExtentLen_some :
    left.isUnwritten = right.isUnwritten ∧ left.eeBlock + left.len = right.eeBlock ∧
      left.eeStart + left.len = right.eeStart ∧
      left.buildLenLike (left.len + right.len) = some mergedLen := by
  unfold mergedLeafExtentLen at ran
  split_ifs at ran with state logical physical long
  · cases ran
  · cases ran
  · cases ran
  · cases ran
  split at ran
  · rename_i coded
    simp only [Except.ok.injEq, Option.some.injEq] at ran
    subst ran
    simp only [bne_iff_ne, ne_eq, not_not] at state
    have physical' : left.eeStart + left.len = right.eeStart := by
      by_contra other
      exact physical (.inr other)
    exact ⟨state, by omega, physical', coded⟩
  · cases ran

theorem mergesTo_of_merged :
    MergesTo (left :: right :: after) ({ left with eeLen := mergedLen } :: after) := by
  rcases mergedLeafExtentLen_some ran with ⟨state, logical, physical, coded⟩
  have run : run { left with eeLen := mergedLen } =
      ⟨left.eeBlock, left.len + right.len, left.eeStart, left.isUnwritten⟩ :=
    run_of_buildLenLike coded
  have length : len { left with eeLen := mergedLen } =
      left.len + right.len := congrArg Run.count run
  have sameState : isUnwritten { left with eeLen := mergedLen } =
      left.isUnwritten := congrArg Run.state run
  refine ⟨?_, rfl, ?_⟩
  · intro lblock
    rw [mappingOf_cons, mappingOf_cons, mappingOf_cons, length, sameState]
    dsimp only
    by_cases inLeft : left.eeBlock ≤ lblock ∧ lblock < left.eeBlock + left.len
    · rw [if_pos (by omega), if_pos inLeft]
    rw [if_neg inLeft]
    by_cases inRight : right.eeBlock ≤ lblock ∧ lblock < right.eeBlock + right.len
    · rw [if_pos (by omega), if_pos inRight, state]
      congr 2
      omega
    · rw [if_neg (by omega), if_neg inRight]
  · intro lo hi inside
    rw [extentsIn_cons, extentsIn_cons] at inside
    rw [extentsIn_cons, length]
    have same : left.eeBlock + (left.len + right.len) = right.eeBlock + right.len := by omega
    rw [same]
    exact ⟨inside.1, by omega, inside.2.2.2.2.2.1, inside.2.2.2.2.2.2⟩

end

theorem map_eq_ok_iff {Value Result : Type} {outcome : Except Ext4Error Value}
    {convert : Value → Result} {result : Result} :
    outcome.map convert = .ok result ↔ ∃ value, outcome = .ok value ∧ convert value = result := by
  cases outcome <;> simp [Except.map]

theorem mergesTo_of_mergedRight (ran : mergeLeafExtentsRight left after = .ok new) :
    MergesTo (left :: after) new := by
  induction after generalizing left with
  | nil =>
    cases ran
    exact .refl
  | cons right rest ih =>
    unfold mergeLeafExtentsRight at ran
    split at ran
    · cases ran
    · cases ran
      exact .refl
    · rename_i mergedLen merged
      exact (mergesTo_of_merged merged).trans (ih ran)

theorem mergesTo_of_mergedNeighbors (ran : mergeLeafExtentNeighbors before extent after = .ok new) :
    MergesTo (before ++ extent :: after) new := by
  unfold mergeLeafExtentNeighbors at ran
  split at ran
  · rename_i empty
    rw [getLast?_eq_none_iff] at empty
    subst empty
    exact mergesTo_of_mergedRight ran
  rename_i left last
  split at ran
  · cases ran
  · rcases map_eq_ok_iff.mp ran with ⟨merged, done, rfl⟩
    exact (mergesTo_of_mergedRight done).append
  rename_i mergedLen merged
  rcases map_eq_ok_iff.mp ran with ⟨rest, done, rfl⟩
  have shape : before ++ extent :: after = before.dropLast ++ left :: extent :: after := by
    have split := dropLast_append_getLast? left last
    rw [append_cons before.dropLast, split]
  rw [shape]
  exact ((mergesTo_of_merged merged).trans (mergesTo_of_mergedRight done)).append

/-! ## Changing a mapping in one place -/

/-- The new extents map every block as `change` says. -/
def Remaps (change : Nat → Option (Nat × Bool) → Option (Nat × Bool))
    (old new : List Ext4Extent) : Prop :=
  ∀ lblock, mappingOf new lblock = change lblock (mappingOf old lblock)

theorem ExtentsIn.mono {lo' hi' : Nat} (inside : ExtentsIn lo hi extents)
    (lower : lo' ≤ lo) (upper : hi ≤ hi') : ExtentsIn lo' hi' extents :=
  ⟨inside.apart, fun extent member => by
    have bounds := inside.inside extent member
    omega⟩

theorem ExtentsIn.append {mid : Nat} (left : ExtentsIn lo mid before)
    (right : ExtentsIn mid hi after) (low : lo ≤ mid) (high : mid ≤ hi) :
    ExtentsIn lo hi (before ++ after) := by
  refine extentsIn_append.mpr ⟨left.mono le_rfl high, right.mono low le_rfl, ?_⟩
  intro extent member
  exact right.mono (left.inside extent member).2.2 le_rfl

theorem Remaps.between {start stop : Nat} {change : Nat → Option (Nat × Bool) → Option (Nat × Bool)}
    (remaps : Remaps change old new)
    (inside : ∀ lblock mapping, ¬ (start ≤ lblock ∧ lblock < stop) →
      change lblock mapping = mapping)
    (left : ExtentsIn lo start before) (right : ExtentsIn stop hi after) :
    Remaps change (before ++ (old ++ after)) (before ++ (new ++ after)) := by
  intro lblock
  simp only [mappingOf_append]
  by_cases here : start ≤ lblock ∧ lblock < stop
  · rw [mappingOf_of_le left here.1, mappingOf_of_lt right here.2,
      Option.none_or, Option.none_or, Option.or_none, Option.or_none, remaps]
  · rw [remaps, inside lblock _ here, inside lblock _ here]

end TgosKits
