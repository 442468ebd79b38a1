import TgosKits.Library.SortedMap

/-!
# Maps of disjoint intervals

A sorted map whose values carry half-open intervals is *tiled* when every value is
stored under its own lower end and no two intervals meet.
-/

universe u v

namespace SortedMap

open Option

variable {κ : Type u} {α : Type v} [LinearOrder κ] {start stop : α → κ}

/-- Every value is stored under its own start, is not empty, and ends before
the next one begins. -/
structure Tiled (start stop : α → κ) (map : SortedMap κ α) : Prop where
  keyed : ∀ {key value}, map.get? key = some value → start value = key
  nonempty : ∀ {key value}, map.get? key = some value → start value < stop value
  ordered : ∀ {low high first second}, map.get? low = some first → map.get? high = some second →
      low < high → stop first ≤ start second

/-- The value whose interval contains `point`: the last one that starts at or
before it, provided that it reaches beyond it. -/
def stab (start stop : α → κ) (map : SortedMap κ α) (point : κ) : Option α :=
  ((map.lastAtMost point).map Prod.snd).filter
    (fun value => decide (start value ≤ point ∧ point < stop value))

theorem tiled_empty : Tiled start stop (empty : SortedMap κ α) where
  keyed bound := by simp at bound
  nonempty bound := by simp at bound
  ordered bound := by simp at bound

@[simp]
theorem stab_empty (point : κ) : stab start stop (empty : SortedMap κ α) point = none := rfl

namespace Tiled

variable {map : SortedMap κ α} {value : α}

section

variable (tiled : Tiled start stop map)
include tiled

theorem stab_eq_some_iff {point : κ} :
    stab start stop map point = some value ↔ map.get? (start value) = some value ∧
        start value ≤ point ∧ point < stop value := by
  simp only [stab, filter_eq_some_iff, map_eq_some_iff, decide_eq_true_eq]
  constructor
  · rintro ⟨⟨⟨key, found⟩, last, rfl⟩, inside⟩
    have bound := (lastAtMost_eq_some last).1
    exact ⟨(tiled.keyed bound).symm ▸ bound, inside⟩
  · rintro ⟨bound, inside⟩
    refine ⟨?_, inside⟩
    cases last : map.lastAtMost point with
    | none =>
      have later := lastWhere_eq_none last bound
      simp [inside.1] at later
    | some entry =>
      obtain ⟨entryBound, below, greatest⟩ := lastAtMost_eq_some last
      have startLe : start value ≤ entry.1 := greatest _ _ bound inside.1
      rcases startLe.eq_or_lt with equal | less
      · rw [← equal, bound] at entryBound
        exact ⟨entry, rfl, (some.inj entryBound).symm⟩
      -- A later start would lie behind the end of `value`.
      have behind := tiled.ordered bound entryBound less
      rw [tiled.keyed entryBound] at behind
      exact absurd (inside.2.trans_le behind) (not_lt.mpr below)

theorem stab_eq_none_iff {point : κ} :
    stab start stop map point = none ↔ ∀ key value, map.get? key = some value →
        start value ≤ point → stop value ≤ point := by
  rw [eq_none_iff_forall_ne_some]
  simp only [ne_eq, tiled.stab_eq_some_iff, not_and, not_lt]
  constructor
  · intro missing key value bound
    exact missing value ((tiled.keyed bound).symm ▸ bound)
  · intro missing value bound
    exact missing _ value bound

theorem stab_of_bound {key point : κ}
    (bound : map.get? key = some value) (above : start value ≤ point) (below : point < stop value) :
    stab start stop map point = some value :=
  tiled.stab_eq_some_iff.mpr ⟨(tiled.keyed bound).symm ▸ bound, above, below⟩

protected theorem erase (key : κ) : Tiled start stop (map.erase key) := by
  have older : ∀ {other value},
      (map.erase key).get? other = some value → map.get? other = some value := by
    intro other value bound
    rw [get?_erase] at bound
    split_ifs at bound
    exact bound
  exact ⟨fun bound => tiled.keyed (older bound), fun bound => tiled.nonempty (older bound),
    fun low high => tiled.ordered (older low) (older high)⟩

theorem stab_erase {key : κ} {old : α} (bound : map.get? key = some old) (point : κ) :
    stab start stop (map.erase key) point = if start old ≤ point ∧ point < stop old then none
      else stab start stop map point := by
  apply ext
  intro value
  rw [(tiled.erase key).stab_eq_some_iff]
  have keyEq := tiled.keyed bound
  split_ifs with inside
  · have owner := tiled.stab_of_bound bound inside.1 inside.2
    constructor
    · rintro ⟨other, rest⟩
      rw [get?_erase] at other
      split_ifs at other with sameKey
      have again := tiled.stab_of_bound other rest.1 rest.2
      cases owner.symm.trans again
      exact absurd keyEq sameKey
    · simp
  · rw [tiled.stab_eq_some_iff, get?_erase]
    split_ifs with sameKey
    · simp only [false_and, false_iff]
      rintro ⟨other, rest⟩
      rw [sameKey, bound] at other
      cases other
      exact inside rest
    · rfl

end

variable (tiled : Tiled start stop map) (valueNonempty : start value < stop value)
  (vacant : ∀ point, start value ≤ point → point < stop value → stab start stop map point = none)
include tiled valueNonempty vacant

protected theorem insert : Tiled start stop (map.insert (start value) value) := by
  -- An older interval that meets the new one would cover the later start.
  have apart : ∀ {key old}, map.get? key = some old →
      stop old ≤ start value ∨ stop value ≤ start old := by
    intro key old bound
    by_contra meets
    obtain ⟨oldLate, newLate⟩ := not_or.mp meets
    have bottom := tiled.nonempty bound
    have vacantAt := vacant (max (start value) (start old)) (le_max_left _ _)
      (max_lt valueNonempty (not_le.mp newLate))
    rw [tiled.stab_of_bound bound (le_max_right _ _)
      (max_lt (not_le.mp oldLate) bottom)] at vacantAt
    cases vacantAt
  refine ⟨?_, ?_, ?_⟩
  · intro key found bound
    rw [get?_insert] at bound
    split_ifs at bound with sameKey
    · cases bound
      exact sameKey.symm
    · exact tiled.keyed bound
  · intro key found bound
    rw [get?_insert] at bound
    split_ifs at bound with sameKey
    · cases bound
      exact valueNonempty
    · exact tiled.nonempty bound
  · intro low high first second lowBound highBound less
    rw [get?_insert] at lowBound highBound
    split_ifs at lowBound highBound with lowSame highSame highSame
    · exact absurd less (by simp [lowSame, highSame])
    · cases lowBound
      rcases apart highBound with early | late
      · have bottom := tiled.nonempty highBound
        rw [tiled.keyed highBound] at bottom
        exact absurd (bottom.trans_le early) (by simp [← lowSame, less.le])
      · exact late
    · cases highBound
      rcases apart lowBound with early | late
      · exact early
      · rw [tiled.keyed lowBound] at late
        exact absurd (late.trans_lt (highSame ▸ less)) (not_lt.mpr valueNonempty.le)
    · exact tiled.ordered lowBound highBound less

theorem stab_insert (point : κ) : stab start stop (map.insert (start value) value) point =
      if start value ≤ point ∧ point < stop value then some value
      else stab start stop map point := by
  have after := tiled.insert valueNonempty vacant
  split_ifs with inside
  · have bound : (map.insert (start value) value).get? (start value) = some value := by
      simp
    exact after.stab_of_bound bound inside.1 inside.2
  apply ext
  intro found
  rw [after.stab_eq_some_iff, tiled.stab_eq_some_iff, get?_insert]
  split_ifs with sameKey
  · constructor
    · rintro ⟨equal, rest⟩
      cases equal
      exact absurd rest inside
    · rintro ⟨bound, -⟩
      rw [sameKey] at bound
      have covered := tiled.stab_of_bound bound sameKey.le (sameKey ▸ tiled.nonempty bound)
      rw [vacant _ le_rfl valueNonempty] at covered
      cases covered
  · rfl

end Tiled

end SortedMap
