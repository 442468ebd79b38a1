import TgosKits.MemorySet.Runs

/-! # Refinement of the pointwise map -/

namespace TgosKits

open MappingBackend AddrRange SortedMap FlatBackend MemoryArea MemorySet List

open MappingBackend (Flags)

structure Cooperative (B : Type) [MappingBackend B] : Prop where
  map : ∀ (backend : B) start size flags context table,
    (map backend start size flags context table).1 = true
  validateMap : ∀ (backend : B) start size flags table,
    validateMap backend start size flags table = true
  unmap : ∀ (backend : B) start size context table,
    (unmap backend start size context table).1 = true
  validateUnmap : ∀ (backend : B) start size table, validateUnmap backend start size table = true
  protect : ∀ (backend : B) start size flags context table,
    (protect backend start size flags context table).1 = true
  validateProtect : ∀ (backend : B) start size flags table,
    validateProtect backend start size flags table = true
  split : ∀ (backend : B) offset, ((split backend offset).1).isSome = true
  shrinkLeft : ∀ (backend : B) size, (shrinkLeft backend size).1 = true
  shrinkRight : ∀ (backend : B) size, (shrinkRight backend size).1 = true

variable {B : Type} [MappingBackend B]

/-! ## Cooperative areas -/

namespace Cooperative

variable (cooperative : Cooperative B)
include cooperative

variable {area : MemoryArea B} {areas : Areas B} {range : AddrRange}

theorem shrinkRightMetadata {newSize : Nat} (positive : 0 < newSize)
    (shorter : newSize < area.stop - area.start) :
    ∃ shrunk, area.shrinkRightMetadata newSize = (.ok (), shrunk) := by
  have sizeEq := area.size_eq
  unfold MemoryArea.shrinkRightMetadata
  rw [dif_neg (by omega), if_pos (by omega)]
  have agrees := cooperative.shrinkRight area.backend (area.size - newSize)
  split
  · rename_i refusal
    cases refusal ▸ agrees
  · exact ⟨_, rfl⟩

theorem shrinkLeftMetadata {newSize : Nat} (positive : 0 < newSize)
    (shorter : newSize < area.stop - area.start) :
    ∃ shrunk, area.shrinkLeftMetadata newSize = (.ok (), shrunk) := by
  have sizeEq := area.size_eq
  have bounded := area.stop_le_usizeMax
  unfold MemoryArea.shrinkLeftMetadata
  rw [dif_neg (by omega), if_pos (by omega)]
  have agrees := cooperative.shrinkLeft area.backend (area.size - newSize)
  split
  · rename_i refusal
    cases refusal ▸ agrees
  · exact ⟨_, rfl⟩

theorem split_area {position : Nat} (above : area.start < position) (below : position < area.stop) :
    ∃ left right, area.split position = (.ok (some right), left) := by
  unfold MemoryArea.split
  rw [dif_pos ⟨above, below⟩]
  have agrees := cooperative.split area.backend (position - area.start)
  split
  · rename_i refusal
    cases refusal ▸ agrees
  · exact ⟨_, _, rfl⟩

/-! ## Cooperative surgery -/

theorem trimBefore (tiled : areas.Tiled) (nonempty : range.start < range.stop) :
    ∃ after, trimBefore range areas = .ok after := by
  unfold MemorySet.trimBefore
  cases answer : areas.lastBelow range.start with
  | none => exact ⟨_, rfl⟩
  | some entry =>
    obtain ⟨bound, starts, -⟩ := lastBelow_eq_some answer
    have startEq : entry.2.start = entry.1 := tiled.keyed bound
    simp only
    split
    · exact ⟨_, rfl⟩
    split
    · obtain ⟨left, shrinks⟩ := cooperative.shrinkRightMetadata
        (show 0 < range.start - entry.1 by omega)
        (show range.start - entry.1 < entry.2.stop - entry.2.start by omega)
      rw [shrinks]
      exact ⟨_, rfl⟩
    · obtain ⟨leftPart, rightPart, splits⟩ := cooperative.split_area
        (show entry.2.start < range.stop by omega) (show range.stop < entry.2.stop by omega)
      obtain ⟨leftStart, leftStop, rightStart, -⟩ := split_ok splits
      obtain ⟨left, shrinks⟩ := cooperative.shrinkRightMetadata
        (show 0 < range.start - entry.1 by omega)
        (show range.start - entry.1 < leftPart.stop - leftPart.start by omega)
      simp only [splits, shrinks]
      rw [if_neg (by omega)]
      exact ⟨_, rfl⟩

theorem trimAfter (tiled : areas.Tiled)
    (crossing : ∀ key area, areas.get? key = some area → range.start ≤ key →
      key < range.stop → range.stop < area.stop) :
    ∃ after, trimAfter range areas = .ok after := by
  unfold MemorySet.trimAfter
  cases answer : areas.firstFrom range.start with
  | none => exact ⟨_, rfl⟩
  | some entry =>
    obtain ⟨bound, starts, -⟩ := firstFrom_eq_some answer
    have startEq : entry.2.start = entry.1 := tiled.keyed bound
    simp only
    split
    · rename_i inside
      have crosses := crossing _ _ bound starts inside
      obtain ⟨right, shrinks⟩ := cooperative.shrinkLeftMetadata
        (show 0 < entry.2.stop - range.stop by omega)
        (show entry.2.stop - range.stop < entry.2.stop - entry.2.start by omega)
      have shrunk := shrinkLeftMetadata_ok shrinks
      simp only [shrinks]
      rw [if_neg (by omega)]
      exact ⟨_, rfl⟩
    · exact ⟨_, rfl⟩

theorem prepareUnmapMetadata {set : MemorySet B} (tiled : set.areas.Tiled)
    (nonempty : range.start < range.stop) :
    ∃ after, set.prepareUnmapMetadata range = .ok after := by
  obtain ⟨removedTiled, -, removedCrossing⟩ := Areas.removeInside_spec _ range tiled le_rfl
  obtain ⟨trimmed, beforeOk⟩ := cooperative.trimBefore removedTiled nonempty
  have spec := Areas.trimBefore_spec removedTiled nonempty beforeOk
  obtain ⟨after, afterOk⟩ := cooperative.trimAfter spec.tiled
    (fun key area bound above below => removedCrossing key area
      (spec.inside key area bound above below) above below)
  unfold MemorySet.prepareUnmapMetadata
  simp only [beforeOk, afterOk]
  exact ⟨_, rfl⟩

theorem carve {low high : Nat} (bound : areas.get? area.start = some area)
    (above : area.start ≤ low) (nonempty : low < high) (within : high ≤ area.stop) :
    ∃ after middle, carve areas area.start low high = .ok (after, middle) := by
  unfold MemorySet.carve
  simp only [bound]
  have leftDone : ∃ rest middle, splitOffLeft (areas.erase area.start) area.start area low =
        .ok (rest, middle) ∧ middle.start = low ∧ middle.stop = area.stop := by
    unfold splitOffLeft
    split
    · obtain ⟨left, right, splits⟩ := cooperative.split_area
        (show area.start < low by omega) (show low < area.stop by omega)
      obtain ⟨-, -, rightStart, rightStop, -⟩ := split_ok splits
      simp only [splits]
      exact ⟨_, _, rfl, rightStart, rightStop⟩
    · exact ⟨_, _, rfl, by omega, rfl⟩
  obtain ⟨rest, middle, leftOk, middleStart, middleStop⟩ := leftDone
  simp only [leftOk]
  unfold splitOffRight
  split
  · obtain ⟨left, right, splits⟩ := cooperative.split_area
      (show middle.start < high by omega) (show high < middle.stop by omega)
    simp only [splits]
    exact ⟨_, _, rfl⟩
  · exact ⟨_, _, rfl⟩

end Cooperative

/-! ## The visited pieces -/

namespace MemorySet

variable {set : MemorySet B} {range : AddrRange} {area : MemoryArea B} {world after : World B}
  {start size : Nat}

/-- The areas that `iter_overlapping` yields for a non-empty range are those
that meet it. -/
theorem mem_iterOverlapping (tiled : set.areas.Tiled) (nonempty : range.start < range.stop) :
    area ∈ set.iterOverlapping range ↔
      set.areas.get? area.start = some area ∧ area.start < range.stop ∧
        range.start < area.stop := by
  have reaching : ∀ key other, set.areas.get? key = some other → range.start ≤ key →
      range.start < other.stop := by
    intro key other bound above
    have := tiled.nonempty bound
    have : other.start = key := tiled.keyed bound
    omega
  -- Where the iteration starts, and that no area that meets the range is below.
  obtain ⟨first, shape, firstLe, below⟩ : ∃ first, set.iterOverlapping range =
        (set.areas.between first range.stop).map Prod.snd ∧
      (∀ key other, set.areas.get? key = some other → first ≤ key →
        key < range.stop → range.start < other.stop) ∧
      ∀ key other, set.areas.get? key = some other → key < first → other.stop ≤ range.start := by
    unfold iterOverlapping
    rw [if_neg (not_isEmpty_iff.mpr nonempty)]
    cases answer : set.areas.lastBelow range.start with
    | none =>
      refine ⟨range.start, rfl, fun key other bound above _ => reaching key other bound above, ?_⟩
      intro key other bound less
      have := lastBelow_eq_none answer bound
      omega
    | some entry =>
      obtain ⟨entryBound, entryBelow, last⟩ := lastBelow_eq_some answer
      have keyEq : entry.2.start = entry.1 := tiled.keyed entryBound
      by_cases reaches : range.start < entry.2.stop
      · refine ⟨entry.1, by simp [Option.filter_some, reaches], ?_, ?_⟩
        · intro key other bound above _
          by_cases early : key < range.start
          · obtain rfl := le_antisymm (last key other bound early) above
            cases entryBound.symm.trans bound
            exact reaches
          · exact reaching key other bound (not_lt.mp early)
        · intro key other bound less
          have := tiled.ordered bound entryBound less
          omega
      · refine ⟨range.start, by simp [Option.filter_some, reaches],
          fun key other bound above _ => reaching key other bound above, ?_⟩
        intro key other bound less
        rcases (last key other bound less).eq_or_lt with rfl | earlier
        · cases entryBound.symm.trans bound
          omega
        · have := tiled.ordered bound entryBound earlier
          omega
  rw [shape, mem_map]
  constructor
  · rintro ⟨⟨key, other⟩, member, rfl⟩
    obtain ⟨bound, above, less⟩ := mem_between_iff.mp member
    obtain rfl : other.start = key := tiled.keyed bound
    exact ⟨bound, less, firstLe _ _ bound above less⟩
  · rintro ⟨bound, less, reaches⟩
    refine ⟨(area.start, area), mem_between_iff.mpr ⟨bound, ?_, less⟩, rfl⟩
    by_contra early
    have := below _ _ bound (not_le.mp early)
    omega

private theorem iterOverlapping_ordered (tiled : set.areas.Tiled) (range : AddrRange) :
    (set.iterOverlapping range).Pairwise (fun earlier later => earlier.stop ≤ later.start) := by
  apply pairwise_map.mpr
  apply Pairwise.imp_of_mem _ (set.areas.sorted.filter _)
  intro earlier later earlierMember laterMember order
  exact tiled.ordered (get?_eq_some_iff.mpr (mem_of_mem_filter earlierMember))
    (get?_eq_some_iff.mpr (mem_of_mem_filter laterMember))
    order

/-- A visited sub-range with the area that owns it. -/
structure Piece (B : Type) [MappingBackend B] where
  area : MemoryArea B
  start : Nat
  size : Nat

def clip (range : AddrRange) (area : MemoryArea B) : Piece B := ⟨area, max area.start range.start,
    min area.stop range.stop - max area.start range.start⟩

/-- What `for_each_intersecting_area` visits, in order. -/
def pieces (set : MemorySet B) (range : AddrRange) : List (Piece B) :=
  match (set.find range.start).filter (fun area => decide (range.stop ≤ area.stop)) with
  | some area => [⟨area, range.start, range.size⟩]
  | none => (set.iterOverlapping range).map (clip range)

/-- The pieces lie in the range and in their areas, do not meet, and exhaust the
mapped part of the range. -/
structure Partitions (set : MemorySet B) (range : AddrRange) (pieces : List (Piece B)) : Prop where
  owned : ∀ piece ∈ pieces, 0 < piece.size ∧ range.start ≤ piece.start ∧
    piece.start + piece.size ≤ range.stop ∧
    ∀ addr, piece.start ≤ addr → addr < piece.start + piece.size → set.find addr = some piece.area
  disjoint : pieces.Pairwise (fun earlier later => earlier.start + earlier.size ≤ later.start)
  complete : ∀ addr, range.Contains addr → ∀ area, set.find addr = some area →
    ∃ piece ∈ pieces, piece.area = area ∧ piece.start ≤ addr ∧ addr < piece.start + piece.size

private theorem pieces_partitions (tiled : set.areas.Tiled) (nonempty : range.start < range.stop) :
    Partitions set range (set.pieces range) := by
  unfold pieces
  split
  · rename_i area found
    simp only [Option.filter_eq_some_iff, decide_eq_true_eq] at found
    obtain ⟨owner, reaches⟩ := found
    obtain ⟨bound, starts, -⟩ := tiled.at_eq_some owner
    have sizeEq : range.size = range.stop - range.start := rfl
    have allOwned : ∀ addr, range.start ≤ addr → addr < range.stop → set.find addr = some area :=
      fun addr above below =>
        tiled.at_of_get? bound (by omega) (by omega)
    refine ⟨?_, pairwise_singleton _ _, ?_⟩
    · intro piece member
      obtain rfl := mem_singleton.mp member
      refine ⟨by simp only; omega, le_rfl, by simp only; omega, ?_⟩
      intro addr above below
      exact allOwned addr above (by simp only at below; omega)
    · intro addr contained other otherOwner
      cases (allOwned addr contained.1 contained.2).symm.trans otherOwner
      have below := contained.2
      exact ⟨_, mem_singleton.mpr rfl, rfl, contained.1, by simp only; omega⟩
  · refine ⟨?_, ?_, ?_⟩
    · intro piece member
      obtain ⟨area, areaMember, rfl⟩ := mem_map.mp member
      obtain ⟨bound, starts, reaches⟩ := (mem_iterOverlapping tiled nonempty).mp areaMember
      have positive := tiled.nonempty bound
      simp only [clip]
      refine ⟨by omega, by omega, by omega, fun addr above below => ?_⟩
      exact tiled.at_of_get? bound (by omega) (by omega)
    · apply pairwise_map.mpr
      apply Pairwise.imp_of_mem _ (iterOverlapping_ordered tiled range)
      intro earlier later earlierMember laterMember order
      have earlierMeets := (mem_iterOverlapping tiled nonempty).mp earlierMember
      have positive := tiled.nonempty earlierMeets.1
      simp only [clip]
      omega
    · intro addr contained area owner
      obtain ⟨bound, above, below⟩ := tiled.at_eq_some owner
      obtain ⟨startLe, stopGt⟩ := contained
      refine ⟨clip range area, mem_map_of_mem ((mem_iterOverlapping tiled nonempty).mpr
          ⟨bound, by omega, by omega⟩), rfl, ?_, ?_⟩
      all_goals
        simp only [clip]
        omega

/-! ## Calls -/

/-- A visitor that notes one call per visit, whatever its answer. -/
def Notes (visit : MemoryArea B → Nat → Nat → World B → Except MappingError Unit × World B)
    (call : MemoryArea B → Nat → Nat → HookCall B) : Prop :=
  ∀ area start size world, (visit area start size world).2.calls =
      world.calls ++ [call area start size]

variable {visit : MemoryArea B → Nat → Nat → World B → Except MappingError Unit × World B}
  {call : MemoryArea B → Nat → Nat → HookCall B}

def callsFor (call : MemoryArea B → Nat → Nat → HookCall B)
    (pieces : List (Piece B)) : List (HookCall B) :=
  pieces.map (fun piece => call piece.area piece.start piece.size)

private theorem visitEach_calls (notes : Notes visit call) (areas : List (MemoryArea B))
    (visited : visitEach visit range areas world = (.ok (), after)) :
    after.calls = world.calls ++ callsFor call (areas.map (clip range)) := by
  induction areas generalizing world with
  | nil =>
    cases visited
    simp [callsFor]
  | cons area rest ih =>
    have noted := notes area (max area.start range.start)
      (min area.stop range.stop - max area.start range.start) world
    simp only [visitEach] at visited
    split at visited
    · cases visited
    rename_i between first
    rw [first] at noted
    rw [ih visited, noted]
    simp [callsFor, clip]

theorem forEachIntersectingArea_calls (notes : Notes visit call)
    (visited : set.forEachIntersectingArea range visit world = (.ok (), after)) :
    after.calls = world.calls ++ callsFor call (set.pieces range) := by
  unfold forEachIntersectingArea at visited
  unfold pieces
  cases found : (set.find range.start).filter (fun area => decide (range.stop ≤ area.stop)) with
  | some area =>
    have noted := notes area range.start range.size world
    rw [found] at visited
    simp only at visited
    rw [visited] at noted
    simpa [callsFor] using noted
  | none =>
    rw [found] at visited
    exact visitEach_calls notes _ visited

def preflightCall (area : MemoryArea B) (start size : Nat) : HookCall B :=
  .validateUnmap area.backend start size

def unmapCall (area : MemoryArea B) (start size : Nat) : HookCall B :=
  .unmap area.backend start size

/-- A successful `unmap` calls the backends on the pieces of the range: first
every preflight, then every unmap. -/
theorem unmap_calls (tiled : set.areas.Tiled)
    (success : (set.unmap start size world).result = .ok ()) :
    ∃ pieces, Partitions set ⟨start, start + size⟩ pieces ∧
      (set.validateUnmap start size world).1 = .ok () ∧
      (set.validateUnmap start size world).2.calls = world.calls ++ callsFor preflightCall pieces ∧
      (set.unmap start size world).world.calls = world.calls ++ callsFor preflightCall pieces ++
          callsFor unmapCall pieces := by
  unfold unmap at success ⊢
  cases accepted : tryFromStartSize start size with
  | none =>
    rw [accepted] at success
    cases success
  | some range =>
    obtain rfl := tryFromStartSize_eq_some accepted
    rw [accepted] at success
    simp only at success ⊢
    by_cases empty : isEmpty ⟨start, start + size⟩ = true
    · have validated : set.validateUnmap start size world = (.ok (), world) := by
        simp [validateUnmap, accepted, empty]
      rw [if_pos empty, validated]
      refine ⟨[], ⟨?_, .nil, ?_⟩, rfl, ?_, ?_⟩
      · exact fun _ member => absurd member not_mem_nil
      · intro addr contained
        exact absurd empty (not_isEmpty_iff.mpr (contained.1.trans_lt contained.2))
      · simp [callsFor]
      · simp [callsFor]
    · have nonempty := not_isEmpty_iff.mp empty
      rw [if_neg empty] at success ⊢
      have preflight : set.validateUnmap start size world =
          set.forEachIntersectingArea ⟨start, start + size⟩ validateUnmapRange world := by
        simp [validateUnmap, accepted, empty]
      split at success
      · cases success
      rename_i validated validation
      split at success
      · cases success
      rename_i prepared preparedOk
      split at success
      · cases success
      rename_i unmapped unmapping
      have validatedCalls := forEachIntersectingArea_calls
        (show Notes _ preflightCall from fun _ _ _ _ => rfl) (preflight.symm.trans validation)
      have unmappedCalls := forEachIntersectingArea_calls
        (show Notes _ unmapCall from fun _ _ _ _ => rfl) unmapping
      rw [validation]
      simp only
      exact ⟨set.pieces ⟨start, start + size⟩, pieces_partitions tiled nonempty, trivial,
        validatedCalls, by rw [unmappedCalls, validatedCalls]⟩

/-! ## Success of the operations -/

theorem Effect.achieved {α : Type} {value : α} {contents : AddressMap (Attributes B)}
    {outcome : Outcome B α} (effect : Effect set contents outcome)
    (success : outcome.result = .ok value) : Achieves value contents outcome := by
  cases effect with
  | failed error resultEq kept =>
    cases resultEq.symm.trans success
  | done other achieved =>
    cases achieved.resultEq.symm.trans success
    exact achieved

def Agrees (visit : MemoryArea B → Nat → Nat → World B →
      Except MappingError Unit × World B) : Prop :=
  ∀ area start size world, (visit area start size world).1 = .ok ()

theorem visitEach_agrees (agrees : Agrees visit) (range : AddrRange) (areas : List (MemoryArea B))
    (world : World B) : (visitEach visit range areas world).1 = .ok () := by
  induction areas generalizing world with
  | nil => rfl
  | cons area rest ih =>
    have first := agrees area (max area.start range.start)
      (min area.stop range.stop - max area.start range.start) world
    simp only [visitEach]
    split
    · rename_i refusal
      cases refusal ▸ first
    · exact ih _

theorem forEachIntersectingArea_agrees
    (agrees : Agrees visit) (set : MemorySet B) (range : AddrRange) (world : World B) :
    ∃ after, set.forEachIntersectingArea range visit world = (.ok (), after) := by
  refine ⟨_, Prod.ext ?_ rfl⟩
  unfold forEachIntersectingArea
  split
  · exact agrees _ _ _ _
  · exact visitEach_agrees agrees range _ world

private theorem agrees_validateUnmapRange (cooperative : Cooperative B) :
    Agrees (validateUnmapRange (B := B)) := by
  intro area start size world
  simp [validateUnmapRange, okOrBadState, World.validateUnmap, cooperative.validateUnmap]

private theorem agrees_unmapRange (cooperative : Cooperative B) : Agrees (unmapRange (B := B)) := by
  intro area start size world
  simp [unmapRange, okOrBadState, World.unmap, World.after, cooperative.unmap]

theorem tryFromStartSize_of_le (fits : start + size ≤ usizeMax) :
    tryFromStartSize start size = some ⟨start, start + size⟩ := by
  simp [tryFromStartSize, checkedAdd, fits]

section

variable (cooperative : Cooperative B)
include cooperative

theorem unmap_succeeds (tiled : set.areas.Tiled) (fits : start + size ≤ usizeMax)
    (world : World B) : (set.unmap start size world).result = .ok () := by
  have accepted := tryFromStartSize_of_le fits
  by_cases empty : isEmpty ⟨start, start + size⟩ = true
  · simp [unmap, accepted, empty]
  have nonempty := not_isEmpty_iff.mp empty
  obtain ⟨validated, validatedEq⟩ :=
    forEachIntersectingArea_agrees (agrees_validateUnmapRange cooperative) set
      ⟨start, start + size⟩ world
  obtain ⟨unmapped, unmappedEq⟩ :=
    forEachIntersectingArea_agrees (agrees_unmapRange cooperative) set
      ⟨start, start + size⟩ validated
  obtain ⟨prepared, preparedEq⟩ := cooperative.prepareUnmapMetadata tiled nonempty
  simp [unmap, validateUnmap, accepted, empty, validatedEq, preparedEq, unmappedEq]

private theorem unmapMetadata_succeeds (tiled : set.areas.Tiled) (fits : start + size ≤ usizeMax)
    (world : World B) : (set.unmapMetadata start size world).result = .ok () := by
  have accepted := tryFromStartSize_of_le fits
  unfold unmapMetadata
  simp only [accepted]
  split
  · rfl
  rename_i notEmpty
  obtain ⟨prepared, preparedEq⟩ := cooperative.prepareUnmapMetadata tiled
      (not_isEmpty_iff.mp notEmpty)
  simp [preparedEq]

theorem installArea_succeeds (invariant : set.Invariant)
    (backup : Option (MemorySet B)) (nonempty : area.start < area.stop)
    (vacant : ∀ addr, area.vaRange.Contains addr → set.contents addr = none) (world : World B) :
    (set.installArea backup area world).result = .ok () := by
  have mapped : area.mapArea world =
      (.ok (), (world.map area.backend area.start area.size area.flags).2) := by
    simp [mapArea, okOrBadState, World.map, World.after, cooperative.map]
  have free := invariant.tiled.get?_eq_none (vacant area.start ⟨le_rfl, nonempty⟩)
  simp only [installArea, mapped, free, area.checkedAdd_start_size]
  exact (invariant.insert nonempty vacant _).resultEq

theorem map_succeeds (invariant : set.Invariant) (nonempty : area.start < area.stop)
    (world : World B) : (set.map area true world).result = .ok () := by
  have notEmpty : ¬ area.vaRange.isEmpty = true := not_isEmpty_iff.mpr nonempty
  have stopEq := area.start_add_size
  unfold map
  rw [if_neg notEmpty]
  by_cases overlap : set.overlaps area.vaRange
  · have unmapOk := unmap_succeeds cooperative invariant.tiled
      (stopEq.symm ▸ area.stop_le_usizeMax) world
    have achieved := (unmap_effect invariant area.start area.size world).achieved unmapOk
    rw [if_pos overlap, if_pos rfl]
    simp only [Outcome.andThen, unmapOk]
    apply installArea_succeeds cooperative achieved.invariant _ nonempty
    intro addr contained
    rw [achieved.contentsEq, stopEq]
    exact if_pos contained
  · have validated : area.validateMap world =
        (.ok (), (world.validateMap area.backend area.start area.size area.flags).2) := by
      simp [MemoryArea.validateMap, okOrBadState, World.validateMap, cooperative.validateMap]
    rw [if_neg overlap]
    simp only [validated]
    exact installArea_succeeds cooperative invariant none nonempty
      (fun addr => overlaps_eq_false invariant.tiled (Bool.not_eq_true _ ▸ overlap)) _

private theorem replaceAreaMetadata_succeeds (tiled : set.areas.Tiled) {old : MemoryArea B}
    (nonempty : area.start < area.stop) (contained : set.find area.start = some old)
    (within : area.stop ≤ old.stop) (world : World B) :
    (set.replaceAreaMetadata area world).result = .ok () := by
  obtain ⟨bound, starts, reaches⟩ := tiled.at_eq_some contained
  have last : set.areas.lastAtMost area.start = some (old.start, old) := by
    simp only [find, stab, Option.filter_eq_some_iff, Option.map_eq_some_iff] at contained
    obtain ⟨⟨⟨key, value⟩, found, rfl⟩, -⟩ := contained
    have keyEq : value.start = key := tiled.keyed (lastAtMost_eq_some found).1
    rw [found, keyEq]
  have chosen : set.containingAreaForMetadataReplacement area = .ok old.start := by
    unfold containingAreaForMetadataReplacement
    rw [if_neg (not_isEmpty_iff.mpr nonempty), last]
    simp [Option.filter_some, starts, within]
  obtain ⟨areas, middle, carved⟩ := cooperative.carve bound starts nonempty within
  have spec := Areas.carve_spec tiled bound starts nonempty within carved
  have free : areas.get? area.start = none :=
    spec.tiled.get?_eq_none (by rw [spec.viewEq, if_pos ⟨le_rfl, nonempty⟩])
  simp [replaceAreaMetadata, chosen, carved, free]

private theorem prepareProtect_succeeds {original prepared : Areas B} {stop : Nat}
    {updateFlags : Flags B → Flags B → Option (Flags B × Flags B)}
    (operations : List (ProtectOperation B)) (originalTiled : original.Tiled)
    (tiled : prepared.Tiled)
    (collected : Areas.Collected original start stop updateFlags operations)
    (untouched : ∀ operation ∈ operations,
      prepared.get? operation.areaStart = original.get? operation.areaStart) (world : World B) :
    ∃ after worldAfter, prepareProtect original operations prepared world =
        (.ok after, worldAfter) := by
  induction operations generalizing prepared world with
  | nil => exact ⟨_, _, rfl⟩
  | cons operation rest ih =>
    obtain ⟨area, bound, concern⟩ := collected.concerns operation mem_cons_self
    have preparedBound : prepared.get? operation.areaStart = some area :=
      (untouched operation mem_cons_self).trans bound
    obtain ⟨validatedWorld, validated⟩ : ∃ after,
        world.validateProtect area.backend operation.protectStart
          operation.size operation.newFlags = (true, after) :=
      ⟨_, Prod.ext (cooperative.validateProtect area.backend
        operation.protectStart operation.size operation.newFlags
        world.pageTable) rfl⟩
    have low := concern.protectStartEq
    have high := concern.protectEndEq
    obtain ⟨carvedAreas, middle, carved⟩ := cooperative.carve (concern.startEq ▸ preparedBound)
        (show area.start ≤ operation.protectStart by omega)
        concern.nonempty (show operation.protectEnd ≤ area.stop by omega)
    rw [← concern.startEq] at carved
    obtain ⟨changedTiled, -, -, changedBehind⟩ :=
      Areas.changed_spec tiled preparedBound concern carved
    simp only [prepareProtect, bound, validated, carved]
    exact ih changedTiled collected.tail
      (collected.untouched_tail originalTiled bound untouched changedBehind) _

theorem applyProtect_succeeds {original : Areas B} (operations done : List (ProtectOperation B))
    (present : ∀ operation ∈ operations, ∃ area, original.get? operation.areaStart = some area)
    (world : World B) :
    ∃ worldAfter, applyProtect original done operations world = (.ok (), worldAfter) := by
  induction operations generalizing done world with
  | nil => exact ⟨_, rfl⟩
  | cons operation rest ih =>
    obtain ⟨area, bound⟩ := present operation mem_cons_self
    have protects : area.protectRange operation.protectStart operation.size
        operation.newFlags world = (.ok (), (world.protect area.backend operation.protectStart
            operation.size operation.newFlags).2) := by
      simp [protectRange, okOrBadState, World.protect, World.after, cooperative.protect]
    simp only [applyProtect, bound, protects]
    exact ih (operation :: done) (fun later member => present later (mem_cons_of_mem _ member)) _

theorem protectWithReportedFlags_succeeds (tiled : set.areas.Tiled) (fits : start + size ≤ usizeMax)
    (updateFlags : Flags B → Flags B → Option (Flags B × Flags B)) (world : World B) :
    (set.protectWithReportedFlags start size updateFlags world).result = .ok () := by
  have sum : checkedAdd start size = some (start + size) := checkedAdd_eq_some_iff.mpr ⟨rfl, fits⟩
  unfold protectWithReportedFlags
  simp only [sum]
  by_cases zero : size = 0
  · rw [if_pos zero]
  obtain ⟨collected, -, -⟩ := Areas.collectOperations_spec updateFlags tiled
      (show start < start + size by omega)
      set.areas.entries set.areas.sorted
      (fun entry member => get?_eq_some_iff.mpr member)
  obtain ⟨prepared, afterPrepare, preparedEq⟩ :=
    prepareProtect_succeeds cooperative _ tiled tiled collected (fun _ _ => rfl) world
  obtain ⟨afterApply, appliedEq⟩ := applyProtect_succeeds cooperative _ []
      (fun operation member => by
        obtain ⟨area, bound, -⟩ := collected.concerns operation member
        exact ⟨area, bound⟩) afterPrepare
  rw [if_neg zero]
  simp [preparedEq, appliedEq]

end

/-! ## Refinement -/

/-- A reachable memory set is an address map.  When they succeed, `unmap` and
`unmap_metadata` clear a range, `protect_with_reported_flags` updates one,
`replace_area_metadata` and `map` fill one, and nothing else changes; with
cooperative backends they do succeed.  `unmap` asks the owning areas about
pieces that partition the mapped part of the range, and the preflight asks about
the same pieces. -/
theorem refines_address_map (reachable : Reachable set) (world : World B) : (∀ start size,
      (Cooperative B → start + size ≤ usizeMax → (set.unmap start size world).result = .ok ()) ∧
      ((set.unmap start size world).result = .ok () → (∀ addr,
          ((set.unmap start size world).set.find addr).map attributes =
            if start ≤ addr ∧ addr < start + size then none
            else (set.find addr).map attributes) ∧
        ∃ pieces, Partitions set ⟨start, start + size⟩ pieces ∧
          (set.validateUnmap start size world).1 = .ok () ∧
          (set.validateUnmap start size world).2.calls =
            world.calls ++ callsFor preflightCall pieces ∧
          (set.unmap start size world).world.calls = world.calls ++ callsFor preflightCall pieces ++
              callsFor unmapCall pieces)) ∧
    (∀ start size, (Cooperative B → start + size ≤ usizeMax →
        (set.unmapMetadata start size world).result = .ok ()) ∧
      ((set.unmapMetadata start size world).result = .ok () → ∀ addr,
        ((set.unmapMetadata start size world).set.find addr).map attributes =
          if start ≤ addr ∧ addr < start + size then none
          else (set.find addr).map attributes)) ∧
    (∀ start size updateFlags, (Cooperative B → start + size ≤ usizeMax →
        (set.protectWithReportedFlags start size updateFlags world).result = .ok ()) ∧
      ((set.protectWithReportedFlags start size updateFlags world).result = .ok () → ∀ addr,
        ((set.protectWithReportedFlags start size updateFlags world).set.find addr).map attributes =
          if start ≤ addr ∧ addr < start + size then
            ((set.find addr).map attributes).map (reflag updateFlags)
          else (set.find addr).map attributes)) ∧
    (∀ area, (Cooperative B → area.start < area.stop →
        (∃ old, set.find area.start = some old ∧ area.stop ≤ old.stop) →
        (set.replaceAreaMetadata area world).result = .ok ()) ∧
      ((set.replaceAreaMetadata area world).result = .ok () → ∀ addr,
        ((set.replaceAreaMetadata area world).set.find addr).map attributes =
          if area.start ≤ addr ∧ addr < area.stop then some area.attributes
          else (set.find addr).map attributes)) ∧
    (∀ area, (Cooperative B → area.start < area.stop → (set.map area true world).result = .ok ()) ∧
      ((set.map area true world).result = .ok () → ∀ addr,
        ((set.map area true world).set.find addr).map attributes =
          if area.start ≤ addr ∧ addr < area.stop then some area.attributes
          else (set.find addr).map attributes)) := by
  have invariant := reachable.invariant
  have tiled := invariant.tiled
  refine ⟨?_, ?_, ?_, ?_, ?_⟩
  · intro start size
    refine ⟨fun cooperative fits =>
      unmap_succeeds cooperative tiled fits world, fun success => ?_⟩
    exact ⟨congrFun ((unmap_effect invariant start size world).achieved
      success).contentsEq, unmap_calls tiled success⟩
  · intro start size
    refine ⟨fun cooperative fits =>
      unmapMetadata_succeeds cooperative tiled fits world, fun success => ?_⟩
    exact congrFun ((unmapMetadata_effect invariant start size world).achieved success).contentsEq
  · intro start size updateFlags
    refine ⟨fun cooperative fits => protectWithReportedFlags_succeeds
      cooperative tiled fits updateFlags world, fun success => ?_⟩
    exact congrFun ((protectWithReportedFlags_effect invariant start size
      updateFlags world).achieved success).contentsEq
  · intro area
    refine ⟨fun cooperative nonempty contained => ?_, fun success => ?_⟩
    · obtain ⟨old, found, within⟩ := contained
      exact replaceAreaMetadata_succeeds cooperative tiled nonempty found within world
    · exact congrFun ((replaceAreaMetadata_effect invariant area world).achieved success).contentsEq
  · intro area
    refine ⟨fun cooperative nonempty =>
      map_succeeds cooperative invariant nonempty world, fun success => ?_⟩
    exact congrFun ((map_effect invariant area true world).achieved success).contentsEq

theorem cooperative_flatBackend : Cooperative (FlatBackend false) where
  map _ _ _ _ _ _ := rfl
  validateMap _ _ _ _ _ := rfl
  unmap _ _ _ _ _ := rfl
  validateUnmap _ _ _ _ := rfl
  protect _ _ _ _ _ _ := rfl
  validateProtect _ _ _ _ _ := rfl
  split _ _ := rfl
  shrinkLeft _ _ := rfl
  shrinkRight _ _ := rfl

def fourPages : MemorySet (FlatBackend false) :=
  ((Operation.insertPreparedArea (fourPagesAt false)).run new (idleWorld false)).set

theorem reachable_fourPages : Reachable fourPages :=
  .single ⟨_, idleWorld false, rfl⟩

/-- Unmapping the middle of the area leaves its two ends. -/
theorem fourPages_refines : Reachable fourPages ∧
      (fourPages.unmap 0x2000 0x1000 (idleWorld false)).result = .ok () ∧
      ((fourPages.unmap 0x2000 0x1000 (idleWorld false)).set.find 0x2fff).map attributes = none ∧
      ((fourPages.unmap 0x2000 0x1000 (idleWorld false)).set.find
        0x3000).map attributes = (fourPages.find 0x3000).map attributes := by
  have refined := (refines_address_map reachable_fourPages (idleWorld false)).1 0x2000 0x1000
  have success := refined.1 cooperative_flatBackend (by decide)
  exact ⟨reachable_fourPages, success, (refined.2 success).1 0x2fff, (refined.2 success).1 0x3000⟩

end MemorySet

end TgosKits
