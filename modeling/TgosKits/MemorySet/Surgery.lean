import TgosKits.MemorySet.Set

/-! # Surgery on the area map -/

namespace TgosKits

open SortedMap MemoryArea SortedMap.Tiled

variable {B : Type} [MappingBackend B]

/-- Areas are non-empty, stored under their start, and disjoint. -/
def Areas.Tiled (areas : Areas B) : Prop := SortedMap.Tiled start stop areas

def Areas.at (areas : Areas B) (addr : Nat) : Option (MemoryArea B) := stab start stop areas addr

def Areas.view (areas : Areas B) (addr : Nat) : Option (Attributes B) :=
  (areas.at addr).map attributes

namespace Areas

variable {areas after : Areas B} {range : AddrRange} {addr key position : Nat}
  {area old before left middle : MemoryArea B}

theorem view_eq_none : areas.view addr = none ↔ areas.at addr = none := by
  simp [view]

section

variable (tiled : areas.Tiled)
include tiled

theorem Tiled.at_of_get? (bound : areas.get? key = some area)
    (above : area.start ≤ addr) (below : addr < area.stop) : areas.at addr = some area :=
  stab_of_bound tiled bound above below

theorem Tiled.view_of_get? (bound : areas.get? key = some area) (above : area.start ≤ addr)
    (below : addr < area.stop) : areas.view addr = some area.attributes := by
  rw [view, tiled.at_of_get? bound above below]
  rfl

theorem Tiled.get?_eq_none (unmapped : areas.view addr = none) : areas.get? addr = none := by
  cases bound : areas.get? addr with
  | none => rfl
  | some area =>
    have startEq : area.start = addr := tiled.keyed bound
    have nonempty := tiled.nonempty bound
    rw [tiled.view_of_get? bound startEq.le (by omega)] at unmapped
    cases unmapped

theorem Tiled.at_eq_some (found : areas.at addr = some area) :
    areas.get? area.start = some area ∧ area.start ≤ addr ∧ addr < area.stop :=
  (stab_eq_some_iff tiled).mp found

theorem Tiled.at_eq_none : areas.at addr = none ↔ ∀ key area, areas.get? key = some area →
        area.start ≤ addr → area.stop ≤ addr :=
  stab_eq_none_iff tiled

theorem Tiled.erased (bound : areas.get? key = some old) : Tiled (areas.erase key) ∧
      ∀ addr, view (areas.erase key) addr = if old.start ≤ addr ∧ addr < old.stop then none
        else areas.view addr := by
  refine ⟨SortedMap.Tiled.erase tiled key, fun addr => ?_⟩
  have erased := stab_erase tiled bound addr
  unfold view Areas.at
  rw [erased]
  split_ifs <;> rfl

theorem Tiled.inserted (nonempty : area.start < area.stop)
    (vacant : ∀ addr, area.start ≤ addr → addr < area.stop → areas.view addr = none) :
    Tiled (areas.insert area.start area) ∧ ∀ addr, view (areas.insert area.start area) addr =
        if area.start ≤ addr ∧ addr < area.stop then some area.attributes
        else areas.view addr := by
  have vacantAt : ∀ addr, area.start ≤ addr → addr < area.stop →
      stab start stop areas addr = none :=
    fun addr above below => view_eq_none.mp (vacant addr above below)
  refine ⟨SortedMap.Tiled.insert tiled nonempty vacantAt, fun addr => ?_⟩
  have inserted := stab_insert tiled nonempty vacantAt addr
  unfold view Areas.at
  rw [inserted]
  split_ifs <;> rfl

theorem Tiled.shrunk (bound : areas.get? area.start = some old)
    (nonempty : area.start < area.stop) (within : area.stop ≤ old.stop) :
    Tiled (areas.insert area.start area) ∧ ∀ addr, view (areas.insert area.start area) addr =
        if area.start ≤ addr ∧ addr < area.stop then some area.attributes
        else if old.start ≤ addr ∧ addr < old.stop then none
        else areas.view addr := by
  have sameStart := tiled.keyed bound
  obtain ⟨erasedTiled, erasedView⟩ := tiled.erased bound
  obtain ⟨insertedTiled, insertedView⟩ := erasedTiled.inserted nonempty (fun addr above below => by
      rw [erasedView, if_pos]
      omega)
  rw [insert_erase_self] at insertedTiled insertedView
  refine ⟨insertedTiled, fun addr => ?_⟩
  rw [insertedView, erasedView]

theorem Tiled.shortened {shorter : MemoryArea B} (bound : areas.get? area.start = some area)
    (startEq : shorter.start = area.start) (attributesEq : shorter.attributes = area.attributes)
    (above : area.start < shorter.stop) (below : shorter.stop ≤ area.stop) :
    Tiled (areas.insert area.start shorter) ∧ ∀ addr, view (areas.insert area.start shorter) addr =
        if shorter.stop ≤ addr ∧ addr < area.stop then none else areas.view addr := by
  obtain ⟨shrunkTiled, shrunkView⟩ := tiled.shrunk (startEq.symm ▸ bound) (by omega) below
  rw [startEq] at shrunkTiled shrunkView
  refine ⟨shrunkTiled, fun addr => ?_⟩
  rw [shrunkView, attributesEq]
  split_ifs with kept
  · omega
  · rw [tiled.view_of_get? bound kept.1 (by omega)]
  all_goals first | rfl | omega

end

/-! ## Cutting out a range -/

open MemorySet (removeInside trimBefore trimAfter splitOffLeft splitOffRight carve)

/-- The loop removes areas inside the range only, and leaves none that starts
in the range and ends by its end. -/
theorem removeInside_spec
    (fuel : Nat) (range : AddrRange) (tiled : areas.Tiled) (enough : areas.entries.length ≤ fuel) :
    Tiled (removeInside fuel range areas) ∧ (∀ addr, ¬ range.Contains addr →
        view (removeInside fuel range areas) addr = areas.view addr) ∧
      ∀ key area, (removeInside fuel range areas).get? key = some area →
        range.start ≤ key → key < range.stop → range.stop < area.stop := by
  -- Each round removes one area, so the fuel outlasts the map.
  induction fuel generalizing areas with
  | zero =>
    have noEntries : areas.entries = [] := List.length_eq_zero_iff.mp (Nat.le_zero.mp enough)
    refine ⟨tiled, fun _ _ => rfl, fun key area bound => ?_⟩
    have member := get?_eq_some_iff.mp bound
    simp [removeInside, noEntries] at member
  | succ fuel ih =>
    rw [removeInside]
    cases answer : areas.firstIn range.start range.stop with
    | none =>
      refine ⟨tiled, fun _ _ => rfl, fun key area bound above below => ?_⟩
      have := firstIn_eq_none answer bound above
      omega
    | some entry =>
      rcases entry with ⟨areaStart, first⟩
      have first_in := firstIn_eq_some answer
      simp only at first_in
      obtain ⟨firstBound, firstAbove, least⟩ := first_in
      have startEq : first.start = areaStart := tiled.keyed firstBound
      dsimp only
      split_ifs with crosses
      · refine ⟨tiled, fun _ _ => rfl, fun key area bound above below => ?_⟩
        rcases (least key area bound above).eq_or_lt with rfl | later
        · cases firstBound.symm.trans bound
          exact crosses
        -- A later start inside the range would lie in `first`.
        have := tiled.ordered firstBound bound later
        have := tiled.keyed bound
        omega
      · have shorter := erase_length_lt firstBound
        obtain ⟨erasedTiled, erasedView⟩ := tiled.erased firstBound
        obtain ⟨restTiled, restView, restBounds⟩ := ih erasedTiled (by omega)
        refine ⟨restTiled, fun addr outside => ?_, restBounds⟩
        rw [restView addr outside, erasedView, if_neg]
        unfold AddrRange.Contains at outside
        omega

/-- What `trimBefore` establishes: nothing outside the range changes, no area
from before the range reaches into it, and the areas that start in the range are
untouched. -/
structure TrimmedBefore (range : AddrRange) (areas after : Areas B) : Prop where
  tiled : after.Tiled
  outside : ∀ addr, ¬ range.Contains addr → after.view addr = areas.view addr
  before : ∀ key area, after.get? key = some area → key < range.start → area.stop ≤ range.start
  inside : ∀ key area, after.get? key = some area → range.start ≤ key →
    key < range.stop → areas.get? key = some area

section

variable (tiled : areas.Tiled) (bound : areas.get? before.start = some before)
  (starts : before.start < range.start)
  (last : ∀ key area, areas.get? key = some area → key < range.start → key ≤ before.start)
  (startEq : left.start = before.start) (stopEq : left.stop = range.start)
  (attributesEq : left.attributes = before.attributes)
include tiled bound starts last startEq stopEq attributesEq

theorem trimmedBefore_shrunk (reaches : range.start < before.stop) :
    Tiled (areas.insert before.start left) ∧ (∀ addr, view (areas.insert before.start left) addr =
        if range.start ≤ addr ∧ addr < before.stop then none
        else areas.view addr) ∧
      ∀ key area, (areas.insert before.start left).get? key = some area →
        key < range.start → area.stop ≤ range.start := by
  obtain ⟨shrunkTiled, shrunkView⟩ :=
    tiled.shortened bound startEq attributesEq (by omega) (by omega)
  rw [stopEq] at shrunkView
  refine ⟨shrunkTiled, shrunkView, fun key area keyBound below => ?_⟩
  rw [get?_insert] at keyBound
  split_ifs at keyBound with same
  · cases keyBound
    exact stopEq.le
  · have order := last key area keyBound below
    have := tiled.ordered keyBound bound (by omega)
    omega

private theorem trimmedBefore_split {right : MemoryArea B} (nonempty : range.start < range.stop)
    (crosses : range.stop < before.stop)
    (rightStart : right.start = range.stop) (rightStop : right.stop = before.stop)
    (rightAttributes : right.attributes = before.attributes) :
    TrimmedBefore range areas ((areas.insert before.start left).insert range.stop right) := by
  obtain ⟨shrunkTiled, shrunkView, shrunkBefore⟩ :=
    trimmedBefore_shrunk tiled bound starts last startEq stopEq attributesEq (by omega)
  obtain ⟨insertedTiled, insertedView⟩ :=
    shrunkTiled.inserted (show right.start < right.stop by omega)
      fun addr above below => by rw [shrunkView, if_pos (by omega)]
  rw [rightStart] at insertedTiled insertedView
  refine ⟨insertedTiled, fun addr outside => ?_,
    fun key area keyBound below => ?_, fun key area keyBound above below => ?_⟩
  · unfold AddrRange.Contains at outside
    rw [insertedView, shrunkView, rightStop]
    by_cases kept : range.stop ≤ addr ∧ addr < before.stop
    · rw [if_pos kept, rightAttributes, tiled.view_of_get? bound (by omega) kept.2]
    · rw [if_neg kept, if_neg (by omega)]
  · rw [get?_insert, if_neg (by omega)] at keyBound
    exact shrunkBefore key area keyBound below
  · rw [get?_insert, if_neg (by omega), get?_insert, if_neg (by omega)] at keyBound
    exact keyBound

end

theorem trimBefore_spec (tiled : areas.Tiled) (nonempty : range.start < range.stop)
    (trimmed : trimBefore range areas = .ok after) : TrimmedBefore range areas after := by
  unfold trimBefore at trimmed
  cases answer : areas.lastBelow range.start with
  | none =>
    rw [answer] at trimmed
    cases trimmed
    refine ⟨tiled, fun _ _ => rfl, fun key area bound below => ?_, fun _ _ bound _ _ => bound⟩
    have := lastBelow_eq_none answer bound
    omega
  | some entry =>
    rcases entry with ⟨beforeStart, before⟩
    have last_below := lastBelow_eq_some answer
    simp only at last_below
    obtain ⟨bound, starts, last⟩ := last_below
    obtain rfl : before.start = beforeStart := tiled.keyed bound
    rw [answer] at trimmed
    simp only at trimmed
    split at trimmed
    · rename_i early
      cases trimmed
      refine ⟨tiled, fun _ _ => rfl, fun key area keyBound below => ?_,
        fun _ _ keyBound _ _ => keyBound⟩
      rcases (last key area keyBound below).eq_or_lt with rfl | earlier
      · cases bound.symm.trans keyBound
        exact early
      · have := tiled.ordered keyBound bound earlier
        omega
    · rename_i reaches
      split at trimmed
      · rename_i within
        split at trimmed
        · cases trimmed
        rename_i left shrinks
        cases trimmed
        obtain ⟨leftStart, leftStop, leftAttributes⟩ := shrinkRightMetadata_ok shrinks
        obtain ⟨shrunkTiled, shrunkView, shrunkBefore⟩ :=
          trimmedBefore_shrunk tiled bound starts last leftStart (by omega) leftAttributes
            (by omega)
        refine ⟨shrunkTiled, fun addr outside => ?_, shrunkBefore,
          fun key area keyBound above below => ?_⟩
        · rw [shrunkView, if_neg]
          unfold AddrRange.Contains at outside
          omega
        · rw [get?_insert, if_neg (by omega)] at keyBound
          exact keyBound
      · rename_i crosses
        split at trimmed
        · cases trimmed
        · cases trimmed
        rename_i rightPart leftPart splits
        obtain ⟨partStart, partStop, rightStart, rightStop, partAttributes, rightAttributes⟩ :=
          split_ok splits
        split at trimmed
        · cases trimmed
        rename_i left shrinks
        obtain ⟨leftStart, leftStop, leftAttributes⟩ := shrinkRightMetadata_ok shrinks
        rw [if_neg (by omega)] at trimmed
        cases trimmed
        exact trimmedBefore_split tiled bound starts last (leftStart.trans partStart)
          (by omega) (leftAttributes.trans partAttributes) nonempty (by omega)
          rightStart rightStop rightAttributes

private theorem trimAfter_spec (tiled : areas.Tiled) (nonempty : range.start < range.stop)
    (before : ∀ key area, areas.get? key = some area → key < range.start → area.stop ≤ range.start)
    (crossing : ∀ key area, areas.get? key = some area → range.start ≤ key →
      key < range.stop → range.stop < area.stop) (trimmed : trimAfter range areas = .ok after) :
    Tiled after ∧ ∀ addr, after.view addr =
        if range.Contains addr then none else areas.view addr := by
  -- An address of the range that no area starting in the range covers.
  have unmapped : ∀ addr, range.Contains addr →
      (∀ key area, areas.get? key = some area → range.start ≤ key →
        key < range.stop → addr < area.start ∨ area.stop ≤ addr) →
      areas.view addr = none := by
    intro addr contained uncovered
    rw [view_eq_none, tiled.at_eq_none]
    intro key area bound above
    have keyEq : area.start = key := tiled.keyed bound
    unfold AddrRange.Contains at contained
    by_cases early : key < range.start
    · have := before key area bound early
      omega
    · have := uncovered key area bound (by omega) (by omega)
      omega
  unfold trimAfter at trimmed
  cases answer : areas.firstFrom range.start with
  | none =>
    rw [answer] at trimmed
    cases trimmed
    refine ⟨tiled, fun addr => ?_⟩
    split_ifs with contained
    · apply unmapped addr contained
      intro key area bound above _
      have := firstFrom_eq_none answer bound
      omega
    · rfl
  | some entry =>
    rcases entry with ⟨afterStart, newArea⟩
    have first_from := firstFrom_eq_some answer
    simp only at first_from
    obtain ⟨bound, starts, least⟩ := first_from
    obtain rfl : newArea.start = afterStart := tiled.keyed bound
    rw [answer] at trimmed
    simp only at trimmed
    split at trimmed
    · rename_i inside
      have crosses := crossing _ _ bound starts inside
      split at trimmed
      · cases trimmed
      rename_i right shrinks
      obtain ⟨rightStart, rightStop, rightAttributes⟩ := shrinkLeftMetadata_ok shrinks
      have rightAt : right.start = range.stop := by omega
      rw [if_neg (by omega)] at trimmed
      cases trimmed
      obtain ⟨erasedTiled, erasedView⟩ := tiled.erased bound
      obtain ⟨insertedTiled, insertedView⟩ :=
        erasedTiled.inserted (show right.start < right.stop by omega)
          fun addr above below => by rw [erasedView, if_pos (by omega)]
      rw [rightAt] at insertedTiled insertedView
      refine ⟨insertedTiled, fun addr => ?_⟩
      rw [insertedView, erasedView, rightStop]
      split_ifs with kept contained cut contained contained
      · exact absurd contained.2 (not_lt.mpr kept.1)
      · rw [rightAttributes, tiled.view_of_get? bound (by omega) kept.2]
      · rfl
      · exact absurd ⟨by omega, by omega⟩ contained
      · apply unmapped addr contained
        intro key area keyBound above below
        rcases (least key area keyBound above).eq_or_lt with rfl | later
        · cases bound.symm.trans keyBound
          omega
        · have := tiled.ordered bound keyBound later
          have := tiled.keyed keyBound
          omega
      · rfl
    · rename_i late
      cases trimmed
      refine ⟨tiled, fun addr => ?_⟩
      split_ifs with contained
      · apply unmapped addr contained
        intro key area keyBound above below
        have := least key area keyBound above
        omega
      · rfl

/-- Cutting a range out of the map unmaps the range and nothing else. -/
theorem prepareUnmapMetadata_spec {set : MemorySet B} (tiled : set.areas.Tiled)
    (nonempty : range.start < range.stop) (prepared : set.prepareUnmapMetadata range = .ok after) :
    Tiled after ∧ ∀ addr, after.view addr =
        if range.Contains addr then none else set.areas.view addr := by
  obtain ⟨removedTiled, removedOutside, removedCrossing⟩ := removeInside_spec _ range tiled le_rfl
  unfold MemorySet.prepareUnmapMetadata at prepared
  split at prepared
  · cases prepared
  rename_i trimmed beforeOk
  have trimmedBefore := trimBefore_spec removedTiled nonempty beforeOk
  have crossing : ∀ key area, trimmed.get? key = some area →
      range.start ≤ key → key < range.stop → range.stop < area.stop :=
    fun key area bound above below =>
      removedCrossing key area (trimmedBefore.inside key area bound above below) above below
  obtain ⟨afterTiled, afterView⟩ :=
    trimAfter_spec trimmedBefore.tiled nonempty trimmedBefore.before crossing prepared
  refine ⟨afterTiled, fun addr => ?_⟩
  rw [afterView]
  split_ifs with contained
  · rfl
  · rw [trimmedBefore.outside addr contained, removedOutside addr contained]

/-! ## Carving a piece out of one area -/

section

variable (tiled : areas.Tiled)
  (vacant : ∀ addr, area.start ≤ addr → addr < area.stop → areas.view addr = none)
include tiled vacant

private theorem splitOffLeft_spec (above : area.start ≤ position) (below : position < area.stop)
    (done : splitOffLeft areas area.start area position = .ok (after, middle)) :
    Tiled after ∧ middle.start = position ∧ middle.stop = area.stop ∧
      middle.attributes = area.attributes ∧
      (∀ addr, after.view addr = if area.start ≤ addr ∧ addr < position then some area.attributes
        else areas.view addr) ∧
      ∀ key, key ≠ area.start → after.get? key = areas.get? key := by
  unfold splitOffLeft at done
  split at done
  · split at done
    · cases done
    · cases done
    rename_i right left splits
    cases done
    obtain ⟨leftStart, leftStop, rightStart, rightStop, leftAttributes, rightAttributes⟩ :=
      split_ok splits
    obtain ⟨insertedTiled, insertedView⟩ := tiled.inserted (show left.start < left.stop by omega)
      fun addr low high => vacant addr (by omega) (by omega)
    rw [leftStart] at insertedTiled insertedView
    refine ⟨insertedTiled, rightStart, rightStop, rightAttributes,
      fun addr => ?_, fun key differs => ?_⟩
    · rw [insertedView, leftStop, leftAttributes]
    · rw [get?_insert, if_neg differs]
  · cases done
    refine ⟨tiled, by omega, rfl, rfl, fun addr => ?_, fun _ _ => rfl⟩
    rw [if_neg (by omega)]

private theorem splitOffRight_spec (above : area.start < position) (below : position ≤ area.stop)
    (done : splitOffRight areas area position = .ok (after, middle)) :
    Tiled after ∧ middle.start = area.start ∧ middle.stop = position ∧
      middle.attributes = area.attributes ∧
      (∀ addr, after.view addr = if position ≤ addr ∧ addr < area.stop then some area.attributes
        else areas.view addr) ∧
      ∀ key, ¬ (area.start ≤ key ∧ key < area.stop) → after.get? key = areas.get? key := by
  unfold splitOffRight at done
  split at done
  · split at done
    · cases done
    · cases done
    rename_i right left splits
    cases done
    obtain ⟨leftStart, leftStop, rightStart, rightStop, leftAttributes, rightAttributes⟩ :=
      split_ok splits
    obtain ⟨insertedTiled, insertedView⟩ := tiled.inserted (show right.start < right.stop by omega)
        fun addr low high => vacant addr (by omega) (by omega)
    refine ⟨insertedTiled, leftStart, leftStop, leftAttributes,
      fun addr => ?_, fun key outside => ?_⟩
    · rw [insertedView, rightStart, rightStop, rightAttributes]
    · rw [get?_insert, if_neg (by omega)]
  · cases done
    refine ⟨tiled, rfl, by omega, rfl, fun addr => ?_, fun _ _ => rfl⟩
    rw [if_neg (by omega)]

end

/-- A carved piece is no longer mapped, the rest of its area still is, and the
other areas are untouched. -/
structure Carved (areas : Areas B) (area : MemoryArea B) (low high : Nat)
    (after : Areas B) (middle : MemoryArea B) : Prop where
  tiled : after.Tiled
  startEq : middle.start = low
  stopEq : middle.stop = high
  attributesEq : middle.attributes = area.attributes
  viewEq : ∀ addr, after.view addr =
    if low ≤ addr ∧ addr < high then none else areas.view addr
  others : ∀ key, ¬ (area.start ≤ key ∧ key < area.stop) → after.get? key = areas.get? key

theorem carve_spec (tiled : areas.Tiled) {low high : Nat}
    (bound : areas.get? area.start = some area) (above : area.start ≤ low) (nonempty : low < high)
    (within : high ≤ area.stop) (carved : carve areas area.start low high = .ok (after, middle)) :
    Carved areas area low high after middle := by
  unfold carve at carved
  rw [bound] at carved
  simp only at carved
  obtain ⟨erasedTiled, erasedView⟩ := tiled.erased bound
  split at carved
  · cases carved
  rename_i leftAreas rightPart leftDone
  obtain ⟨leftTiled, rightStart, rightStop, rightAttributes, leftView, leftOthers⟩ :=
    splitOffLeft_spec erasedTiled (fun addr low high => by rw [erasedView, if_pos ⟨low, high⟩])
      above (by omega) leftDone
  obtain ⟨rightTiled, middleStart, middleStop, middleAttributes, rightView, rightOthers⟩ :=
    splitOffRight_spec leftTiled (fun addr low high => by
        rw [leftView, if_neg (by omega), erasedView, if_pos (by omega)])
      (by omega) (by omega) carved
  refine ⟨rightTiled, middleStart.trans rightStart, middleStop,
    middleAttributes.trans rightAttributes, fun addr => ?_,
    fun key outside => ?_⟩
  · rw [rightView, leftView, erasedView, rightStop, rightAttributes]
    by_cases owned : area.start ≤ addr ∧ addr < area.stop
    · rw [tiled.view_of_get? bound owned.1 owned.2, if_pos owned]
      split_ifs <;> first | rfl | omega
    · rw [if_neg (by omega), if_neg (by omega), if_neg owned, if_neg (by omega)]
  · have keyNe : key ≠ area.start := by omega
    rw [rightOthers key (by omega), leftOthers key keyNe, get?_erase, if_neg keyNe]

end Areas

end TgosKits
