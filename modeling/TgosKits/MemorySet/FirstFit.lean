import TgosKits.MemorySet.Refinement

/-! # `find_free_area` is first fit -/

namespace TgosKits.MemorySet

open SortedMap FlatBackend

variable {B : Type} [MappingBackend B] {set : MemorySet B}

/-- An aligned start in bounds whose run of `size` addresses meets no area. -/
def Suits (set : MemorySet B) (hint size : Nat) (limit : AddrRange) (align start : Nat) : Prop :=
  align ∣ start ∧ max hint limit.start ≤ start ∧
    start + size ≤ limit.stop ∧ start + size ≤ usizeMax ∧
    ∀ key area, set.areas.get? key = some area → ∀ addr, start ≤ addr → addr < start + size →
        ¬ area.vaRange.Contains addr

theorem Invariant.suits_iff (invariant : set.Invariant) (hint size : Nat) (limit : AddrRange)
    (align start : Nat) :
    set.Suits hint size limit align start ↔
      set.gaps.FitsFree (max hint limit.start) limit.stop size align start := by
  refine and_congr_right fun _ => and_congr_right fun _ =>
    and_congr_right fun _ => and_congr_right fun _ => ?_
  constructor
  · intro apart addr above below
    rw [invariant.complement, invariant.tiled.at_eq_none]
    intro key area bound starts
    by_contra ends
    exact apart key area bound addr above below ⟨starts, not_le.mp ends⟩
  · intro free key area bound addr above below contained
    have unmapped := (invariant.complement addr).mp (free addr above below)
    rw [invariant.tiled.at_of_get? bound contained.1 contained.2] at unmapped
    cases unmapped

def Acceptable (size align : Nat) : Prop := 0 < size ∧ align.isPowerOfTwo ∧ align ∣ size

theorem Suits.valid {hint size align start : Nat} {limit : AddrRange}
    (suits : set.Suits hint size limit align start) (acceptable : Acceptable size align) :
    GapSearch.Valid ⟨max hint limit.start, limit.stop, size, align⟩ := by
  obtain ⟨positive, power, multiple⟩ := acceptable
  obtain ⟨-, lowerLe, upperLe, fits, -⟩ := suits
  exact ⟨positive, power, multiple, by simp only; omega, by simp only; omega⟩

theorem Invariant.findFreeArea_finds
    (invariant : set.Invariant) (hint size : Nat) (limit : AddrRange) (align : Nat) :
    GapSearch.Finds (fun start => Acceptable size align ∧ set.Suits hint size limit align start)
      (set.findFreeArea hint size limit align) := by
  unfold findFreeArea
  by_cases valid : GapSearch.Valid ⟨max hint limit.start, limit.stop, size, align⟩
  · refine (GapIndex.find_finds invariant.gaps valid).congr fun start => ?_
    rw [invariant.suits_iff]
    exact and_iff_right ⟨valid.positive, valid.powerOfTwo, valid.multiple⟩
  · rw [GapIndex.find_eq_none valid]
    intro start both
    exact valid (both.2.valid both.1)

/-- `find_free_area` answers with `start` exactly when the parameters are
acceptable and `start` is the least suitable one, and it answers at all exactly
when there is a suitable one. -/
theorem findFreeArea_first_fit (reachable : Reachable set) (hint size : Nat) (limit : AddrRange)
    (align : Nat) :
    (∀ start, set.findFreeArea hint size limit align = some start ↔ Acceptable size align ∧
        IsLeast {other | set.Suits hint size limit align other} start) ∧
    ((set.findFreeArea hint size limit align).isSome ↔ Acceptable size align ∧
        ∃ start, set.Suits hint size limit align start) := by
  have finds := reachable.invariant.findFreeArea_finds hint size limit align
  cases answer : set.findFreeArea hint size limit align with
  | none =>
    rw [answer] at finds
    refine ⟨fun start => ?_, ?_⟩
    · simp only [reduceCtorEq, false_iff, not_and]
      intro acceptable least
      exact finds start ⟨acceptable, least.1⟩
    · simp only [Option.isSome_none, Bool.false_eq_true, false_iff, not_and]
      rintro acceptable ⟨start, suits⟩
      exact finds start ⟨acceptable, suits⟩
  | some found =>
    rw [answer] at finds
    obtain ⟨⟨acceptable, suits⟩, first⟩ := finds
    have least : IsLeast {other | set.Suits hint size limit align other} found :=
      ⟨suits, fun other otherSuits => first ⟨acceptable, otherSuits⟩⟩
    refine ⟨fun start => ?_, ?_⟩
    · rw [Option.some.injEq]
      constructor
      · rintro rfl
        exact ⟨acceptable, least⟩
      · intro both
        exact least.unique both.2
    · simp only [Option.isSome_some, true_iff]
      exact ⟨acceptable, found, suits⟩

/-- The hint lies in the mapped pages; the first fit is behind them. -/
theorem fourPages_first_fit : Acceptable 0x2000 0x1000 ∧
      IsLeast {other | fourPages.Suits 0x2000 0x2000 ⟨0, 0x9000⟩ 0x1000 other} 0x5000 :=
  ((findFreeArea_first_fit reachable_fourPages 0x2000 0x2000 ⟨0, 0x9000⟩ 0x1000).1 0x5000).mp
    (by decide)

/-- What is found can be mapped, and no area has to go for it. -/
theorem found_area_maps (reachable : Reachable set) (cooperative : Cooperative B)
    {area : MemoryArea B} {hint align : Nat} {limit : AddrRange}
    (found : set.findFreeArea hint area.size limit align = some area.start) (world : World B) :
    (set.map area false world).result = .ok () ∧ (set.map area false world).set.contents =
      set.contents.fill area.vaRange area.attributes := by
  have invariant := reachable.invariant
  have finds := invariant.findFreeArea_finds hint area.size limit align
  rw [found] at finds
  obtain ⟨⟨⟨positive, -⟩, -, -, -, -, apart⟩, -⟩ := finds
  have stopEq := area.start_add_size
  have misses : ∀ {key other}, set.areas.get? key = some other →
      other.vaRange.overlaps area.vaRange = false := by
    intro key other bound
    have nonempty := invariant.tiled.nonempty bound
    refine decide_eq_false fun (both : other.start < area.stop ∧ area.start < other.stop) => ?_
    exact apart key other bound (max area.start other.start) (le_max_left _ _) (by omega)
      ⟨le_max_right _ _, max_lt both.2 nonempty⟩
  have clear : set.overlaps area.vaRange = false := by
    simp only [overlaps, Bool.or_eq_false_iff, Option.any_eq_false]
    exact ⟨fun _ isBefore => misses (lastBelow_eq_some isBefore).1,
      fun _ isAfter => misses (firstFrom_eq_some isAfter).1⟩
  have same : set.map area false world = set.map area true world := by simp [map, clear]
  have mapped := map_succeeds cooperative invariant (by omega : area.start < area.stop) world
  exact same ▸ ⟨mapped, ((map_effect invariant area true world).achieved mapped).contentsEq⟩

theorem fifthPage_maps :
    (fourPages.map (areaAt false 0x5000 0x1000 7 (by decide)) false (idleWorld false)).result =
      .ok () :=
  (@found_area_maps _ _ _ reachable_fourPages cooperative_flatBackend
    (areaAt false 0x5000 0x1000 7 (by decide)) 0x2000 0x1000 ⟨0, 0x9000⟩ (by decide) _).1

end TgosKits.MemorySet
