import TgosKits.Sched.FairMean

/-! # Placement keeps the lag -/

namespace TgosKits

open FairRunQueue

/-- Truncating the enlarged lag and taking the floor of the mean differ from the lag
by at most one; the rest is what the floor before left. -/
theorem restored_lag {lag rest weight added : Int} (positive : 0 < weight) (adds : 0 < added)
    (low : 0 ≤ rest) (high : rest < weight) :
    |(rest + (lag * (weight + added)).tdiv weight * weight) / (weight + added) - lag| ≤ 1 := by
  have parts := Int.tdiv_mul_add_tmod (lag * (weight + added)) weight
  have above := Int.tmod_lt_of_pos (lag * (weight + added)) positive
  have below := Int.lt_tmod_of_pos (lag * (weight + added)) positive
  have split : rest + (lag * (weight + added)).tdiv weight * weight =
      rest - (lag * (weight + added)).tmod weight + lag * (weight + added) := by
    omega
  rw [split, Int.add_mul_ediv_right _ _ (by omega), add_sub_cancel_right, abs_le]
  refine ⟨Int.le_ediv_of_mul_le (by omega) (by omega), ?_⟩
  apply Int.lt_add_one_iff.mp
  exact Int.ediv_lt_of_lt_mul (by omega) (by omega)

section Wrapping

variable {value reference : BitVec 64} {delta : Int}

theorem virtualDelta_add_ofInt (lower : -(2 ^ 63) ≤ delta) (upper : delta ≤ 2 ^ 63 - 1) :
    virtualDelta (value + .ofInt 64 delta) value = delta := by
  rw [virtualDelta, BitVec.add_comm, BitVec.add_sub_cancel, toInt_ofInt_of_fits lower upper]

theorem virtualDelta_sub_ofInt (fits : |virtualDelta value reference - delta| < 2 ^ 63) :
    virtualDelta value (reference + .ofInt 64 delta) = virtualDelta value reference - delta := by
  have bounds := abs_lt.mp fits
  have moved : value - (reference + .ofInt 64 delta) =
      .ofInt 64 (virtualDelta value reference - delta) := by
    rw [Int.sub_eq_add_neg, BitVec.ofInt_add, BitVec.ofInt_neg, virtualDelta, BitVec.ofInt_toInt]
    grind
  rw [virtualDelta, moved]
  exact toInt_ofInt_of_fits bounds.1.le (Int.le_sub_one_of_lt bounds.2)

end Wrapping

namespace FairEntity

variable {entity placed : FairEntity} {virtualTime : BitVec 64} {lag : Int} {weight : Nat}

/-- A placement behind the mean by the enlarged lag. -/
def PlacedAt (entity : FairEntity) (lag : Int) (virtualTime : BitVec 64) (weight : Nat)
    (placed : FairEntity) : Prop :=
  placed.weight = entity.weight ∧ placed.vruntime =
    virtualTime - .ofInt 64 (entity.inflatedPlacementLag lag weight)

theorem inflatedPlacementLag_eq (positive : 0 < weight) (fits : weight + entity.weight ≤ u64Max)
    (small : lag.natAbs * (weight + entity.weight) / weight < 2 ^ 62) :
    entity.inflatedPlacementLag lag weight = (lag * (weight + entity.weight)).tdiv weight ∧
      |entity.inflatedPlacementLag lag weight| < 2 ^ 62 := by
  have size : |(lag * (weight + entity.weight)).tdiv weight| < 2 ^ 62 := by
    rw [Int.abs_eq_natAbs, Int.natAbs_tdiv, Int.natAbs_mul]
    exact_mod_cast small
  have bounds := abs_lt.mp size
  have same : entity.inflatedPlacementLag lag weight =
      (lag * (weight + entity.weight)).tdiv weight := by
    unfold inflatedPlacementLag
    by_cases none : lag = 0 ∨ weight = 0
    · rw [if_pos none, none.resolve_right positive.ne', zero_mul, Int.zero_tdiv]
    · rw [if_neg none, min_eq_left fits, clampInt, i64Min, i64Max, Nat.cast_add,
        if_neg (by omega), if_neg (by omega)]
  exact ⟨same, same ▸ size⟩

end FairEntity

namespace FairRunQueue

variable {queue updated inserted : FairRunQueue} {current : Option FairEntity}
  {thread : QueuedThread} {placed : FairEntity} {lag : Int} {weight : Nat}

/-- The weighted sum of the distances from a reference of one's own. -/
def sumFrom (queue : FairRunQueue) (current : Option FairEntity) (reference : BitVec 64) : Int :=
  queue.sumWeightedDelta + deltaSum queue.zeroVruntime current.toList +
    virtualDelta queue.zeroVruntime reference * (queue.totalWeight + weightSum current.toList)

private theorem updateVirtualTime_from {reference : BitVec 64} {mean : Int}
    (notEmpty : queue.totalWeight ≠ 0)
    (total : queue.totalWeight + weightSum current.toList = weight) (positive : 0 < weight)
    (meanEq : queue.sumFrom current reference / weight = mean)
    (small : |virtualDelta queue.zeroVruntime reference| < 2 ^ 62) (near : |mean| ≤ 2 ^ 62) :
    ∃ next, queue.updateVirtualTime current = some next ∧
      virtualDelta next.virtualTime reference = mean := by
  have bounds := abs_lt.mp small
  have nearBounds := abs_le.mp near
  rw [sumFrom, total, Int.add_mul_ediv_right _ _ (by omega), ← total] at meanEq
  refine ⟨queue.rebase (mean - virtualDelta queue.zeroVruntime reference), ?_, ?_⟩
  · rw [updateVirtualTime_floor notEmpty (by omega), ← meanEq, add_sub_cancel_right]
    refine if_pos ⟨?_, ?_⟩
    · unfold i64Min
      omega
    · unfold i64Max
      omega
  · have moved : queue.zeroVruntime + .ofInt 64 (mean - virtualDelta queue.zeroVruntime reference) =
          reference + .ofInt 64 mean := by
      rw [Int.sub_eq_add_neg, BitVec.ofInt_add, BitVec.ofInt_neg, virtualDelta, BitVec.ofInt_toInt]
      grind
    rw [virtualTime, rebase, moved]
    exact virtualDelta_add_ofInt (by omega) (by omega)

variable (combined : queue.totalWeight + weightSum current.toList = weight) (positive : 0 < weight)
  (update : queue.updateVirtualTime current = some updated)
  (noWrap : ∀ running ∈ current, |virtualDelta running.vruntime queue.zeroVruntime -
    virtualDelta updated.virtualTime queue.zeroVruntime| < 2 ^ 63)
include combined positive update noWrap

theorem updated_rest (notEmpty : queue.totalWeight ≠ 0) : updated.totalWeight = queue.totalWeight ∧
      0 ≤ updated.sumWeightedDelta + deltaSum updated.zeroVruntime current.toList ∧
      updated.sumWeightedDelta + deltaSum updated.zeroVruntime current.toList < weight := by
  have weightPositive : (0 : Int) < weight := Int.natCast_pos.mpr positive
  rw [updateVirtualTime_floor notEmpty (by omega), combined] at update
  generalize total : queue.sumWeightedDelta + deltaSum queue.zeroVruntime current.toList = sum
    at update
  simp only [Option.ite_none_right_eq_some, Option.some.injEq] at update
  rcases update with ⟨fits, rfl⟩
  have moved : virtualDelta (queue.rebase (sum / weight)).virtualTime queue.zeroVruntime =
      sum / weight :=
    virtualDelta_add_ofInt fits.1 fits.2
  rw [moved] at noWrap
  have running : deltaSum (queue.rebase (sum / weight)).zeroVruntime current.toList =
      deltaSum queue.zeroVruntime current.toList - sum / weight * weightSum current.toList := by
    cases current with
    | none => simp [deltaSum, weightSum]
    | some running =>
      simp [deltaSum, weightSum, rebase, virtualDelta_sub_ofInt (noWrap running rfl), sub_mul]
  have left : (queue.rebase (sum / weight)).sumWeightedDelta +
      deltaSum (queue.rebase (sum / weight)).zeroVruntime current.toList = sum % weight := by
    rw [running, Int.emod_def, ← total, ← combined, rebase]
    ring
  rw [left]
  exact ⟨rfl, Int.emod_nonneg _ weightPositive.ne', Int.emod_lt_of_pos _ weightPositive⟩

private theorem inserted_sums {lag : Int} (small : |lag| < 2 ^ 62)
    (vruntime : placed.vruntime = updated.virtualTime - .ofInt 64 lag)
    (insert : updated.insert { thread with fair := placed } = some inserted) :
    inserted.totalWeight = queue.totalWeight + placed.weight ∧
      |virtualDelta inserted.zeroVruntime placed.vruntime| < 2 ^ 62 ∧
      ∃ rest : Int, 0 ≤ rest ∧ rest < weight ∧
        inserted.sumFrom current placed.vruntime = rest + lag * weight := by
  have bounds := abs_lt.mp small
  have ahead : virtualDelta updated.virtualTime placed.vruntime = lag := by
    have moved : updated.virtualTime = placed.vruntime + .ofInt 64 lag := by
      rw [vruntime, BitVec.sub_add_cancel]
    rw [moved]
    exact virtualDelta_add_ofInt (by omega) (by omega)
  unfold FairRunQueue.insert at insert
  split_ifs at insert
  rcases insertEntry_eq_some insert with ⟨_, _, _, _, _, _, _, _, _, weights⟩
  simp only [FairRunQueue.weights, addWeightedEntity, entityDelta, Prod.mk.injEq] at weights
  by_cases empty : queue.totalWeight = 0
  · -- the entity is the first one queued and becomes the reference itself
    cases current with
    | none =>
      have nobody : weight = 0 := by simpa [empty, weightSum, eq_comm] using combined
      omega
    | some running =>
      simp only [updateVirtualTime, if_pos empty, Option.some.injEq] at update
      subst update
      simp only [if_pos empty, virtualDelta_self] at weights
      rcases weights with ⟨zero, sum, total⟩
      have alone : virtualDelta running.vruntime placed.vruntime = lag := ahead
      refine ⟨total, by rw [zero, virtualDelta_self]; decide, 0, le_refl 0, by omega, ?_⟩
      rw [sumFrom, sum, zero, virtualDelta_self, ← combined, empty]
      simp [deltaSum, weightSum, alone]
  · rcases updated_rest combined positive update noWrap empty with ⟨same, low, high⟩
    simp only [same, if_neg empty] at weights
    rcases weights with ⟨zero, sum, total⟩
    have behind : virtualDelta placed.vruntime updated.zeroVruntime = -lag := by
      rw [vruntime, BitVec.sub_eq_add_neg, ← BitVec.ofInt_neg]
      exact virtualDelta_add_ofInt (by omega) (by omega)
    have forward : virtualDelta updated.zeroVruntime placed.vruntime = lag := ahead
    refine ⟨total, by rwa [zero, forward], _, low, high, ?_⟩
    rw [sumFrom, sum, zero, total, behind, forward, ← combined]
    ring

/-- As soon as the mean counts the placed thread, it has the lag, up to one unit. -/
def KeepsLag (updated : FairRunQueue) (current : Option FairEntity) (thread : QueuedThread)
    (lag : Int) (placed : FairEntity) : Prop :=
  ∀ inserted, updated.insert { thread with fair := placed } = some inserted →
    ∃ next, inserted.updateVirtualTime current = some next ∧
      |virtualDelta next.virtualTime placed.vruntime - lag| ≤ 1

theorem keepsLag_of_placedAt (consistent : queue.Consistent)
    (total : queue.totalWeight = weightSum queue.entities)
    (small : lag.natAbs * (weight + thread.fair.weight) / weight < 2 ^ 62)
    (placedAt : thread.fair.PlacedAt lag updated.virtualTime weight placed) :
    updated.KeepsLag current thread lag placed := by
  intro inserted insert
  have own := thread.fair.weight_bounds
  have queued : 0 ≤ weightSum queue.entities := weightSum_nonneg
  have fits : weight + thread.fair.weight ≤ u64Max := by
    have length := consistent.length_le
    have bound : weightSum queue.entities ≤ 88761 * queue.entities.length := weightSum_le
    have running : weightSum current.toList ≤ 88761 * current.toList.length := weightSum_le
    have one : current.toList.length ≤ 1 := by cases current <;> simp
    unfold u64Max
    omega
  rcases FairEntity.inflatedPlacementLag_eq positive fits small with ⟨enlarged, size⟩
  rcases placedAt with ⟨sameWeight, vruntime⟩
  rcases inserted_sums combined positive update noWrap size vruntime insert with
    ⟨totalWeight, near, rest, low, high, sums⟩
  have everyone : inserted.totalWeight + weightSum current.toList =
      (weight + thread.fair.weight : Nat) := by
    omega
  have rounded : |inserted.sumFrom current placed.vruntime /
      (weight + thread.fair.weight : Nat) - lag| ≤ 1 := by
    rw [sums, enlarged, Nat.cast_add]
    exact restored_lag (Int.natCast_pos.mpr positive) (Int.natCast_pos.mpr own.1) low high
  have lagSmall : lag.natAbs < 2 ^ 62 := lt_of_le_of_lt ((Nat.le_div_iff_mul_le positive).mpr
      (Nat.mul_le_mul_left _ (Nat.le_add_right _ _))) small
  have bounds := abs_le.mp rounded
  rcases updateVirtualTime_from (by omega) everyone (by omega) rfl near
    (abs_le.mpr ⟨by omega, by omega⟩) with ⟨next, ran, mean⟩
  exact ⟨next, ran, by rwa [mean]⟩

/-- A thread that slept or comes from another CPU is placed with the lag it was saved
with. The running thread's distance must not wrap when the reference moves to the
mean. -/
theorem placed_lag_restored (consistent : queue.Consistent)
    (total : queue.totalWeight = weightSum queue.entities)
    (small : lag.natAbs * (weight + thread.fair.weight) / weight < 2 ^ 62) :
    (thread.fair.placement = .sleeping lag →
      ∃ placed, thread.fair.placeAfterActivation updated.virtualTime weight = .ok placed ∧
        updated.KeepsLag current thread lag placed) ∧
    ∀ relativeDeadline, thread.fair.placement = .migrating lag relativeDeadline →
      ∃ placed, thread.fair.placeAfterTransfer updated.virtualTime weight = .ok placed ∧
        updated.KeepsLag current thread lag placed := by
  constructor
  · intro sleeping
    rw [FairEntity.placeAfterActivation, sleeping]
    exact ⟨_, rfl, keepsLag_of_placedAt combined positive update noWrap consistent total small
      ⟨rfl, rfl⟩⟩
  · intro relativeDeadline migrating
    rw [FairEntity.placeAfterTransfer, migrating]
    exact ⟨_, rfl, keepsLag_of_placedAt combined positive update noWrap consistent total small
      ⟨rfl, rfl⟩⟩

end FairRunQueue

/-- A thread woken with a lag of 100 beside one of the same weight. -/
theorem woken_lag_restored : ∃ queue updated placed inserted,
    (FairRunQueue.new 2).insert sampleActive = some queue ∧
      queue.updateVirtualTime none = some updated ∧
      (sampleThread 0 10 20 (.sleeping 100)).fair.placeAfterActivation updated.virtualTime 1024 =
        .ok placed ∧
      updated.insert { sampleThread 0 10 20 (.sleeping 100) with fair := placed } = some inserted ∧
      ∃ next, inserted.updateVirtualTime none = some next ∧
        |virtualDelta next.virtualTime placed.vruntime - 100| ≤ 1 := by
  have ran : (new 2).insertEntry sampleActive = some _ := rfl
  have consistent := (insertEntry_inserts (consistent_new 2) ran).1
  rcases (@placed_lag_restored _ _ none (sampleThread 0 10 20 (.sleeping 100)) 100
    1024 rfl (by decide) rfl (by rintro _ ⟨⟩) consistent rfl (by decide)).1 rfl with
    ⟨placed, place, keeps⟩
  cases place
  exact ⟨_, _, _, _, ran, rfl, rfl, rfl, keeps _ rfl⟩

/-- The running thread is half the clock away from the mean; its distance wraps, and a
thread placed at the mean falls behind. -/
theorem farRunning_lag_lost : ∃ queue updated placed inserted next,
    ((FairRunQueue.new 3).insert (sampleThread 1 0 0 .active)).bind
        (insert · (sampleThread 2 (2 ^ 63) (2 ^ 63) .active)) = some queue ∧
      queue.updateVirtualTime (some (sampleThread 0 (2 ^ 63 - 1) 0 .active).fair) = some updated ∧
      (sampleThread 0 10 20 (.sleeping 0)).fair.placeAfterActivation updated.virtualTime 3072 =
        .ok placed ∧
      updated.insert { sampleThread 0 10 20 (.sleeping 0) with fair := placed } = some inserted ∧
      inserted.updateVirtualTime (some (sampleThread 0 (2 ^ 63 - 1) 0 .active).fair) = some next ∧
      virtualDelta next.virtualTime placed.vruntime = -2 ^ 62 :=
  ⟨_, _, _, _, _, rfl, rfl, rfl, rfl, rfl, rfl⟩

end TgosKits
