import TgosKits.MemorySet.Effects
import TgosKits.MemorySet.FlatBackend

/-! # Runs of a memory set -/

namespace TgosKits

variable {B : Type} [MappingBackend B]

namespace MemorySet

def Step (before after : MemorySet B) : Prop :=
  ∃ operation world, (Operation.run operation before world).set = after

def Reachable (set : MemorySet B) : Prop := Relation.ReflTransGen Step new set

variable {set : MemorySet B}

section

variable (invariant : set.Invariant)
include invariant

theorem Effect.safe {contents : AddressMap (Attributes B)} {outcome : Outcome B Unit}
    (effect : Effect set contents outcome) :
    outcome.result ≠ .panicked ∧ outcome.set.Invariant := by
  cases effect with
  | failed error resultEq kept =>
    exact ⟨by simp [resultEq], kept ▸ invariant⟩
  | done value achieved =>
    exact ⟨by simp [achieved.resultEq], achieved.invariant⟩

/-- Every operation but the rollback has an effect. -/
theorem run_effect (operation : Operation B) (world : World B)
    (other : ∀ addr additionalSize, operation ≠ .rollbackExtendArea addr additionalSize) :
    ∃ contents, Effect set contents (operation.run set world) := by
  cases operation with
  | map area unmapOverlap => exact ⟨_, map_effect invariant area unmapOverlap world⟩
  | insertPreparedArea area => exact ⟨_, insertPreparedArea_effect invariant area world⟩
  | extendArea addr additionalSize =>
    exact ⟨_, extendArea_effect invariant addr additionalSize world⟩
  | rollbackExtendArea addr additionalSize => exact absurd rfl (other addr additionalSize)
  | unmap start size => exact ⟨_, unmap_effect invariant start size world⟩
  | unmapMetadata start size => exact ⟨_, unmapMetadata_effect invariant start size world⟩
  | unmapExact start size => exact ⟨_, (unmapExact_effect invariant start size world).void⟩
  | replaceExactBackend start size backend =>
    exact ⟨_, (replaceExactBackend_effect invariant start size backend world).void⟩
  | replaceAreaMetadata area => exact ⟨_, replaceAreaMetadata_effect invariant area world⟩
  | protectWithReportedFlags start size updateFlags =>
    exact ⟨_, protectWithReportedFlags_effect invariant start size updateFlags world⟩
  | clear => exact ⟨_, clear_effect set world⟩

theorem run_safe (operation : Operation B) (world : World B) :
    (operation.run set world).result ≠ .panicked ∧ (operation.run set world).set.Invariant := by
  by_cases rollback : ∃ addr additionalSize, operation = .rollbackExtendArea addr additionalSize
  · obtain ⟨addr, additionalSize, rfl⟩ := rollback
    cases rollbackExtendArea_end invariant addr additionalSize world with
    | effect effect => exact effect.safe invariant
    | refused area backend found _ _ _ _ resultEq setEq =>
      obtain ⟨bound, -, -⟩ := invariant.tiled.at_eq_some found
      refine ⟨by simp [Operation.run, resultEq], ?_⟩
      change Invariant (set.rollbackExtendArea addr additionalSize world).set
      rw [setEq]
      exact (invariant.withBackend backend bound).1
  · simp only [not_exists] at rollback
    obtain ⟨_, effect⟩ := run_effect invariant operation world rollback
    exact effect.safe invariant

end

theorem Reachable.invariant (reachable : Reachable set) : set.Invariant := by
  induction reachable with
  | refl => exact invariant_new
  | tail _ step ih =>
    obtain ⟨operation, world, rfl⟩ := step
    exact (run_safe ih operation world).2

/-! ## Layout of reachable sets -/

theorem Invariant.tail_empty_iff (invariant : set.Invariant) : set.gaps.tailStart = usizeMax ↔
      ∃ key area, set.areas.get? key = some area ∧ area.stop = usizeMax := by
  have positive : 0 < usizeMax := by decide
  have bounded := invariant.gaps.bounded
  have complement := invariant.complement (usizeMax - 1)
  constructor
  · intro atEnd
    cases owner : set.areas.at (usizeMax - 1) with
    | none =>
      rcases complement.mpr owner with ⟨gap, member, inside⟩ | inTail
      · have below := invariant.gaps.belowTail gap member
        have := inside.2
        omega
      · omega
    | some area =>
      obtain ⟨bound, -, below⟩ := invariant.tiled.at_eq_some owner
      have := area.stop_le_usizeMax
      exact ⟨area.start, area, bound, by omega⟩
  · rintro ⟨key, area, bound, atEnd⟩
    have nonempty := invariant.tiled.nonempty bound
    have owner := invariant.tiled.at_of_get? bound (show area.start ≤ usizeMax - 1 by omega)
      (show usizeMax - 1 < area.stop by omega)
    by_contra free
    rw [complement.mp (.inr (by omega))] at owner
    cases owner

/-- In every reachable set the areas are non-empty, stored under their start
and disjoint, the gaps are non-empty, apart from each other and from the tail,
and gaps and areas are complements; the tail is empty exactly when an area ends
at the last address.  No operation panics there. -/
theorem reachable_layout (reachable : Reachable set) : (∀ key area, set.areas.get? key = some area →
      area.start = key ∧ area.start < area.stop) ∧
    (∀ key area other otherArea, set.areas.get? key = some area →
      set.areas.get? other = some otherArea → key ≠ other →
      ∀ addr, ¬ (area.vaRange.Contains addr ∧ otherArea.vaRange.Contains addr)) ∧
    (∀ gap ∈ set.gaps.root, gap.start < gap.stop) ∧
    (∀ gap ∈ set.gaps.root, ∀ other ∈ set.gaps.root, gap ≠ other →
      gap.stop < other.start ∨ other.stop < gap.start) ∧
    (∀ gap ∈ set.gaps.root, gap.stop < set.gaps.tailStart) ∧
    (set.gaps.tailStart ≤ usizeMax ∧ (set.gaps.tailStart = usizeMax ↔
        ∃ key area, set.areas.get? key = some area ∧ area.stop = usizeMax)) ∧
    (∀ addr < usizeMax, ((∃ gap ∈ set.gaps.root, gap.Contains addr) ∨ set.gaps.tailStart ≤ addr) ↔
        ∀ key area, set.areas.get? key = some area → ¬ area.vaRange.Contains addr) ∧
    (∀ operation world, (Operation.run operation set world).result ≠ .panicked) := by
  have invariant := reachable.invariant
  have tiled := invariant.tiled
  refine ⟨fun key area bound => ⟨tiled.keyed bound, tiled.nonempty bound⟩, ?_,
    invariant.gaps.gaps.nonempty, ?_, invariant.gaps.belowTail,
    ⟨invariant.gaps.bounded, invariant.tail_empty_iff⟩, ?_,
    fun operation world => (run_safe invariant operation world).1⟩
  · intro key area other otherArea bound otherBound differs addr both
    have owner := tiled.at_of_get? bound both.1.1 both.1.2
    have otherOwner := tiled.at_of_get? otherBound both.2.1 both.2.2
    rw [owner] at otherOwner
    cases otherOwner
    exact differs ((tiled.keyed bound).symm.trans (tiled.keyed otherBound))
  · intro gap member other otherMember differs
    by_contra touching
    exact differs (invariant.gaps.gaps.eq_of_touching member otherMember (by omega) (by omega))
  · intro addr _
    rw [show ((∃ gap ∈ set.gaps.root, gap.Contains addr) ∨
      set.gaps.tailStart ≤ addr) ↔ set.gaps.Free addr from .rfl,
      invariant.complement addr, tiled.at_eq_none]
    constructor
    · intro unmapped key area bound contained
      exact absurd (unmapped key area bound contained.1) (not_le.mpr contained.2)
    · intro unmapped key area bound above
      by_contra below
      exact unmapped key area bound ⟨above, not_le.mp below⟩

/-- A set with one area at the very end of the address space. -/
def lastPage : MemorySet (FlatBackend false) :=
  ((Operation.insertPreparedArea (FlatBackend.areaAt false (usizeMax - 1) 1 7
    (by decide))).run new (FlatBackend.idleWorld false)).set

theorem reachable_lastPage : Reachable lastPage :=
  Relation.ReflTransGen.single ⟨_, FlatBackend.idleWorld false, rfl⟩

/-- The implicit tail of a reachable set can be empty. -/
theorem lastPage_tail_empty : Reachable lastPage ∧ ¬ lastPage.gaps.tailStart < usizeMax :=
  ⟨reachable_lastPage, by decide⟩

theorem lastPage_layout : Reachable lastPage ∧ (lastPage.gaps.tailStart = usizeMax ↔
        ∃ key area, lastPage.areas.get? key = some area ∧ area.stop = usizeMax) :=
  ⟨reachable_lastPage, (reachable_layout reachable_lastPage).2.2.2.2.2.1.2⟩

end MemorySet

end TgosKits
