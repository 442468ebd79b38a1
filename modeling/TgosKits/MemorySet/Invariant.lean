import TgosKits.MemorySet.Protect

/-!
# The invariant of a memory set

The areas tile their addresses and the gap index is their complement.
-/

namespace TgosKits

open SortedMap

open MappingBackend (Flags)

/-- The abstract contents of a memory set: an optional value per address. -/
def AddressMap (α : Type) : Type := Nat → Option α

namespace AddressMap

variable {α : Type} (map : AddressMap α) (range : AddrRange)

def clear : AddressMap α :=
  fun addr => if range.Contains addr then none else map addr

def fill (value : α) : AddressMap α :=
  fun addr => if range.Contains addr then some value else map addr

/-- Change the values of the mapped addresses of a range. -/
def update (change : α → α) : AddressMap α :=
  fun addr => if range.Contains addr then (map addr).map change else map addr

variable {map : AddressMap α} {range : AddrRange} {value : α} {addr : Nat}

theorem clear_of_not_contains (outside : ¬ range.Contains addr) : map.clear range addr = map addr :=
  if_neg outside

theorem fill_of_contains (inside : range.Contains addr) : map.fill range value addr = some value :=
  if_pos inside

theorem fill_of_not_contains (outside : ¬ range.Contains addr) :
    map.fill range value addr = map addr :=
  if_neg outside

theorem clear_empty (empty : ¬ range.start < range.stop) : map.clear range = map := by
  funext addr
  apply clear_of_not_contains
  unfold AddrRange.Contains
  omega

theorem fill_empty (empty : ¬ range.start < range.stop) : map.fill range value = map := by
  funext addr
  apply fill_of_not_contains
  unfold AddrRange.Contains
  omega

theorem update_of_contains {change : α → α} (inside : range.Contains addr) :
    map.update range change addr = (map addr).map change :=
  if_pos inside

theorem update_of_not_contains {change : α → α} (outside : ¬ range.Contains addr) :
    map.update range change addr = map addr :=
  if_neg outside

theorem fill_clear : (map.clear range).fill range value = map.fill range value := by
  funext addr
  by_cases inside : range.Contains addr
  · rw [fill_of_contains inside, fill_of_contains inside]
  · rw [fill_of_not_contains inside, fill_of_not_contains inside, clear_of_not_contains inside]

end AddressMap

variable {B : Type} [MappingBackend B]

namespace MemorySet

structure Invariant (set : MemorySet B) : Prop where
  tiled : set.areas.Tiled
  gaps : set.gaps.WellFormed
  complement : ∀ addr, set.gaps.Free addr ↔ set.areas.at addr = none

def contents (set : MemorySet B) : AddressMap (Attributes B) := set.areas.view

variable {set : MemorySet B} {α : Type}

/-- A successful end: the answer, the invariant, and the new contents. -/
structure Achieves (value : α) (contents : AddressMap (Attributes B))
    (outcome : Outcome B α) : Prop where
  resultEq : outcome.result = .ok value
  invariant : outcome.set.Invariant
  contentsEq : outcome.set.contents = contents

/-- How an operation may end: with an error and the set unchanged, or normally
with the stated contents. -/
inductive Effect (set : MemorySet B) (contents : AddressMap (Attributes B))
    (outcome : Outcome B α) : Prop where
  | failed (error : MappingError)
      (resultEq : outcome.result = .err error) (kept : outcome.set = set)
  | done (value : α) (achieved : Achieves value contents outcome)

theorem Effect.void {contents : AddressMap (Attributes B)} {outcome : Outcome B α}
    (effect : Effect set contents outcome) : Effect set contents outcome.void := by
  cases effect with
  | failed error resultEq kept =>
    exact .failed error (by simp [Outcome.void, resultEq, Answer.void]) kept
  | done value achieved =>
    exact .done () ⟨by simp [Outcome.void, achieved.resultEq, Answer.void],
      achieved.invariant, achieved.contentsEq⟩

theorem invariant_new : Invariant (new : MemorySet B) where
  tiled := tiled_empty
  gaps := GapIndex.wellFormed_new
  complement addr := by
    simp only [GapIndex.free_new, new, true_iff]
    rfl

theorem contents_eq_none {addr : Nat} : set.contents addr = none ↔ set.areas.at addr = none :=
  Areas.view_eq_none

variable {range : AddrRange}

theorem Invariant.release (invariant : set.Invariant) {areas : Areas B}
    (nonempty : range.start < range.stop) (tiled : areas.Tiled)
    (viewEq : areas.view = set.contents.clear range) :
    Invariant ⟨areas, set.gaps.release range⟩ := by
  obtain ⟨wellFormed, free⟩ := GapIndex.release_spec invariant.gaps nonempty
  refine ⟨tiled, wellFormed, fun addr => ?_⟩
  rw [free addr, invariant.complement addr, ← contents_eq_none, ← Areas.view_eq_none, viewEq]
  unfold AddressMap.clear
  split_ifs with contained
  · simp [contained]
  · simp [contained]

theorem Invariant.occupy (invariant : set.Invariant) {areas : Areas B} {attributes : Attributes B}
    (nonempty : range.start < range.stop) (bounded : range.stop ≤ usizeMax)
    (vacant : ∀ addr, range.Contains addr → set.contents addr = none) (tiled : areas.Tiled)
    (viewEq : areas.view = set.contents.fill range attributes) (world : World B) :
    Achieves () (set.contents.fill range attributes)
      (MemorySet.occupy areas set.gaps range world) := by
  obtain ⟨after, occupied, wellFormed, free⟩ := GapIndex.occupy_spec invariant.gaps nonempty bounded
      (fun addr contained => (invariant.complement addr).mpr
        (contents_eq_none.mp (vacant addr contained)))
  unfold MemorySet.occupy
  rw [occupied]
  refine ⟨rfl, ⟨tiled, wellFormed, fun addr => ?_⟩, viewEq⟩
  rw [free addr, invariant.complement addr, ← contents_eq_none, ← Areas.view_eq_none, viewEq]
  unfold AddressMap.fill
  split_ifs with contained
  · simp [contained]
  · simp [contained]

/-! ## Queries -/

theorem overlaps_eq_false (tiled : set.areas.Tiled) (apart : set.overlaps range = false)
    {addr : Nat} (contained : range.Contains addr) : set.contents addr = none := by
  simp only [overlaps, Bool.or_eq_false_iff, Option.any_eq_false,
    AddrRange.overlaps, decide_eq_false_iff_not] at apart
  obtain ⟨beforeApart, afterApart⟩ := apart
  rw [contents_eq_none, tiled.at_eq_none]
  intro key area bound above
  have keyEq : area.start = key := tiled.keyed bound
  obtain ⟨low, high⟩ := contained
  by_cases early : key < range.start
  · cases answer : set.areas.lastBelow range.start with
    | none =>
      have := lastBelow_eq_none answer bound
      omega
    | some entry =>
      obtain ⟨entryBound, entryBelow, last⟩ := lastBelow_eq_some answer
      have entryApart := beforeApart entry answer
      have startEq : entry.2.start = entry.1 := tiled.keyed entryBound
      change ¬ (entry.2.start < range.stop ∧ range.start < entry.2.stop) at entryApart
      rcases (last key area bound early).eq_or_lt with same | earlier
      · rw [← same, bound] at entryBound
        cases entryBound
        omega
      · have := tiled.ordered bound entryBound earlier
        omega
  · cases answer : set.areas.firstFrom range.start with
    | none =>
      have := firstFrom_eq_none answer bound
      omega
    | some entry =>
      obtain ⟨entryBound, entryAbove, first⟩ := firstFrom_eq_some answer
      have entryApart := afterApart entry answer
      have startEq : entry.2.start = entry.1 := tiled.keyed entryBound
      have nonempty := tiled.nonempty entryBound
      have order := first key area bound (by omega)
      change ¬ (entry.2.start < range.stop ∧ range.start < entry.2.stop) at entryApart
      omega

theorem findStart_eq_some (tiled : set.areas.Tiled) {addr areaStart : Nat}
    (found : set.findStart addr = some areaStart) :
    ∃ area, set.areas.get? areaStart = some area ∧
      set.areas.at addr = some area ∧ area.start = areaStart := by
  simp only [findStart, Option.map_eq_some_iff, Option.filter_eq_some_iff,
    decide_eq_true_eq] at found
  obtain ⟨⟨key, area⟩, ⟨last, contained⟩, rfl⟩ := found
  obtain ⟨bound, -, -⟩ := lastAtMost_eq_some last
  exact ⟨area, bound, tiled.at_of_get? bound contained.1 contained.2, tiled.keyed bound⟩

end MemorySet

end TgosKits
