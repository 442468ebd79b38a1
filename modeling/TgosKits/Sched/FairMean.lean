import TgosKits.Sched.FairPick
import Mathlib.Algebra.BigOperators.Ring.List
import Mathlib.Algebra.Order.BigOperators.Group.List
import Mathlib.Tactic.Linarith
import Mathlib.Tactic.Ring

/-! # The weighted mean of the fair queue -/

namespace TgosKits

open WrappingTime List FairRunQueue Int FairItem

/-! ## Sums -/

section

variable {entities others : List FairEntity} {entity : FairEntity}
  {base zero : BitVec 64} {bound : Int}

def weightSum (entities : List FairEntity) : Int :=
  (entities.map fun entity => (entity.weight : Int)).sum

/-- The weighted distances from a reference. -/
def deltaSum (zero : BitVec 64) (entities : List FairEntity) : Int := (entities.map fun entity =>
    virtualDelta entity.vruntime zero * entity.weight).sum

def offsetSum (base : BitVec 64) (entities : List FairEntity) : Int := (entities.map fun entity =>
    (offset base entity.vruntime : Int) * entity.weight).sum

@[simp]
theorem weightSum_append :
    weightSum (entities ++ others) = weightSum entities + weightSum others := by
  simp [weightSum]

@[simp]
theorem weightSum_cons : weightSum (entity :: entities) = entity.weight + weightSum entities := by
  simp [weightSum]

theorem deltaSum_nil : deltaSum zero [] = 0 :=
  rfl

@[simp]
theorem deltaSum_append : deltaSum zero (entities ++ others) =
      deltaSum zero entities + deltaSum zero others := by
  simp [deltaSum]

@[simp]
theorem deltaSum_cons : deltaSum zero (entity :: entities) =
      virtualDelta entity.vruntime zero * entity.weight + deltaSum zero entities := by
  simp [deltaSum]

@[simp]
private theorem offsetSum_cons : offsetSum base (entity :: entities) =
      offset base entity.vruntime * entity.weight + offsetSum base entities := by
  simp [offsetSum]

theorem weightSum_nonneg : 0 ≤ weightSum entities :=
  sum_nonneg (by simp)

theorem weightSum_pos (nonempty : entities ≠ []) : 0 < weightSum entities := by
  rcases exists_cons_of_ne_nil nonempty with ⟨entity, rest, rfl⟩
  have positive := entity.weight_bounds.1
  have others : 0 ≤ weightSum rest := weightSum_nonneg
  rw [weightSum_cons]
  omega

theorem weightSum_le : weightSum entities ≤ 88761 * entities.length := by
  induction entities with
  | nil => exact le_refl 0
  | cons entity entities ih =>
    have bounds := entity.weight_bounds
    rw [weightSum_cons, length_cons]
    omega

theorem deltaSum_eq (nearZero : offset base zero < 2 ^ 63)
    (near : ∀ entity ∈ entities, offset base entity.vruntime < 2 ^ 62) :
    deltaSum zero entities = offsetSum base entities - offset base zero * weightSum entities := by
  induction entities with
  | nil => simp [deltaSum, offsetSum, weightSum]
  | cons entity entities ih =>
    rw [deltaSum_cons, offsetSum_cons, weightSum_cons,
      virtualDelta_eq ((near entity mem_cons_self).trans (by decide)) nearZero,
      ih fun other member => near other (mem_cons_of_mem _ member)]
    ring

theorem offsetSum_le (below : ∀ entity ∈ entities, (offset base entity.vruntime : Int) ≤ bound) :
    offsetSum base entities ≤ bound * weightSum entities := by
  rw [offsetSum, weightSum, ← sum_map_mul_left]
  exact sum_le_sum fun entity member =>
    mul_le_mul_of_nonneg_right (below entity member) (natCast_nonneg _)

theorem le_offsetSum (above : ∀ entity ∈ entities, bound ≤ (offset base entity.vruntime : Int)) :
    bound * weightSum entities ≤ offsetSum base entities := by
  rw [offsetSum, weightSum, ← sum_map_mul_left]
  exact sum_le_sum fun entity member =>
    mul_le_mul_of_nonneg_right (above entity member) (natCast_nonneg _)

theorem offsetSum_nonneg : 0 ≤ offsetSum base entities := by
  have above := le_offsetSum fun entity (_ : entity ∈ entities) =>
    natCast_nonneg (offset base entity.vruntime)
  rwa [zero_mul] at above

/-- The floor of the weighted mean of the offsets. -/
def meanOffset (base : BitVec 64) (entities : List FairEntity) : Int :=
  offsetSum base entities / weightSum entities

theorem meanOffset_bounds (nonempty : entities ≠ [])
    (near : ∀ entity ∈ entities, offset base entity.vruntime < 2 ^ 62) :
    0 ≤ meanOffset base entities ∧ meanOffset base entities ≤ 2 ^ 62 - 1 := by
  have positive := weightSum_pos nonempty
  refine ⟨ediv_nonneg offsetSum_nonneg positive.le,
    Int.ediv_le_of_le_mul positive (offsetSum_le fun entity member => ?_)⟩
  have bound := near entity member
  omega

theorem exists_le_meanOffset (nonempty : entities ≠ []) : ∃ entity ∈ entities,
      (offset base entity.vruntime : Int) ≤ meanOffset base entities := by
  by_contra ahead
  push Not at ahead
  have positive := weightSum_pos nonempty
  have above : (meanOffset base entities + 1) * weightSum entities ≤ offsetSum base entities :=
    le_offsetSum fun entity member => ahead entity member
  have mean := lt_ediv_add_one_mul_self (offsetSum base entities) positive
  unfold meanOffset at above
  omega

end

/-! ## Division -/

section

variable {sum total : Int}

theorem toInt_ofInt_of_fits (lower : i64Min ≤ sum) (upper : sum ≤ i64Max) :
    (BitVec.ofInt 64 sum).toInt = sum := by
  unfold i64Min at lower
  unfold i64Max at upper
  rw [BitVec.toInt_ofInt]
  apply bmod_eq_of_le
  · omega
  · omega

private theorem divideWeightedSum_eq : divideWeightedSum sum total = sum.tdiv total := by
  unfold divideWeightedSum
  by_cases wide : weightedSumNeedsWideDivision sum total = true
  · rw [if_pos wide]
  rw [if_neg wide]
  unfold weightedSumNeedsWideDivision at wide
  simp only [decide_eq_true_eq, not_or, not_lt, not_le] at wide
  rcases wide with ⟨lower, upper, positive, fits⟩
  have low : i64Min ≤ total := by
    unfold i64Min
    omega
  rw [toInt_ofInt_of_fits lower upper, toInt_ofInt_of_fits low fits]

/-- The correction for negative sums makes the truncated quotient the floor. -/
theorem divideWeightedSum_floor (positive : 0 < total) :
    divideWeightedSum (if sum < 0 then sum - (total - 1) else sum) total = sum / total := by
  rw [divideWeightedSum_eq]
  by_cases negative : sum < 0
  · rw [if_pos negative]
    have floor := Int.ediv_mul_le sum positive.ne'
    have ceiling := lt_ediv_add_one_mul_self sum positive
    have flipped : sum - (total - 1) = -(total - 1 - sum) := by ring
    rw [flipped, Int.neg_tdiv, Int.tdiv_eq_ediv_of_nonneg (by omega)]
    have quotient : (total - 1 - sum) / total = -(sum / total) := by
      apply le_antisymm
      · apply lt_add_one_iff.mp
        apply Int.ediv_lt_of_lt_mul positive
        linarith
      · apply Int.le_ediv_of_mul_le positive
        linarith
    rw [quotient, neg_neg]
  · rw [if_neg negative, tdiv_eq_ediv_of_nonneg (by omega)]

end

/-! ## The queue's sums -/

namespace FairRunQueue

def entities (queue : FairRunQueue) : List FairEntity :=
  queue.items.map fun item => item.thread.fair

structure Weighted (queue : FairRunQueue) : Prop where
  total_eq : queue.totalWeight = weightSum queue.entities
  sum_eq : queue.sumWeightedDelta = deltaSum queue.zeroVruntime queue.entities

variable {queue queue' : FairRunQueue} {base : BitVec 64} {current : Option FairEntity}

theorem Weighted.total_eq_zero_iff (weighted : queue.Weighted) :
    queue.totalWeight = 0 ↔ queue.entities = [] := by
  rw [weighted.total_eq]
  constructor
  · intro zero
    by_contra nonempty
    have positive := weightSum_pos nonempty
    omega
  · intro empty
    rw [empty]
    rfl

theorem Weighted.congr (weighted : queue.Weighted) (entities : queue'.entities = queue.entities)
    (weights : queue'.weights = queue.weights) : queue'.Weighted := by
  simp only [FairRunQueue.weights, Prod.mk.injEq] at weights
  rcases weights with ⟨zero, sum, total⟩
  refine ⟨?_, ?_⟩
  · rw [total, entities]
    exact weighted.total_eq
  · rw [sum, zero, entities]
    exact weighted.sum_eq

variable {before after : List FairItem}

theorem entities_of_items {item : FairItem} (items : queue.items = before ++ item :: after) :
    queue.entities = before.map (·.thread.fair) ++
      item.thread.fair :: after.map (·.thread.fair) := by
  unfold entities
  rw [items, map_append, map_cons]

theorem Weighted.removed {item : FairItem} (weighted : queue.Weighted)
    (old : queue.items = before ++ item :: after) (new : queue'.items = before ++ after)
    (weights : queue'.weights = (queue.removeWeightedEntity item.thread.fair).weights) :
    queue'.Weighted := by
  simp only [FairRunQueue.weights, removeWeightedEntity, entityDelta, Prod.mk.injEq] at weights
  rcases weights with ⟨zero, sum, total⟩
  have totalEq := weighted.total_eq
  have sumEq := weighted.sum_eq
  rw [entities_of_items old] at totalEq sumEq
  simp only [weightSum_append, weightSum_cons] at totalEq
  simp only [deltaSum_append, deltaSum_cons] at sumEq
  refine ⟨?_, ?_⟩
  · rw [entities, new, map_append, weightSum_append]
    omega
  · rw [FairRunQueue.entities, zero, new, map_append, deltaSum_append]
    omega

theorem virtualDelta_self {value : BitVec 64} : virtualDelta value value = 0 := by
  unfold virtualDelta
  rw [BitVec.sub_self]
  rfl

theorem Weighted.inserted {thread : QueuedThread} (weighted : queue.Weighted)
    (inserts : Inserts thread before after queue queue') : queue'.Weighted := by
  have weights := inserts.weights
  simp only [FairRunQueue.weights, Prod.mk.injEq] at weights
  rcases weights with ⟨zero, sum, total⟩
  have entities : queue.entities = before.map (·.thread.fair) ++ after.map (·.thread.fair) := by
    unfold entities
    rw [inserts.old, map_append]
  have entities' := entities_of_items inserts.new
  have totalEq := weighted.total_eq
  have sumEq := weighted.sum_eq
  by_cases empty : queue.totalWeight = 0
  · have nothing := weighted.total_eq_zero_iff.mp empty
    rw [entities] at nothing
    rcases append_eq_nil_iff.mp nothing with ⟨noneBefore, noneAfter⟩
    rw [noneBefore, noneAfter] at entities'
    simp only [addWeightedEntity, entityDelta, if_pos empty] at zero sum total
    refine ⟨?_, ?_⟩
    · rw [total, entities', empty]
      simp [weightSum, reset]
    · rw [sum, zero, entities', virtualDelta_self]
      simp [deltaSum, virtualDelta_self, reset]
  · simp only [addWeightedEntity, entityDelta, if_neg empty] at zero sum total
    rw [entities] at totalEq sumEq
    simp only [weightSum_append] at totalEq
    simp only [deltaSum_append] at sumEq
    refine ⟨?_, ?_⟩
    · rw [total, entities']
      simp only [weightSum_append, weightSum_cons, reset]
      omega
    · rw [sum, zero, entities']
      simp only [deltaSum_append, deltaSum_cons, reset]
      omega

/-- The vruntimes that an update of the virtual time looks at. -/
def involved (queue : FairRunQueue) (current : Option FairEntity) : List (BitVec 64) :=
  queue.zeroVruntime :: (queue.entities ++ current.toList).map (·.vruntime)

theorem near_of_within (within : Within base (2 ^ 62) (queue.involved current)) :
    ∀ entity ∈ queue.entities ++ current.toList, offset base entity.vruntime < 2 ^ 62 :=
  fun _ member => within _ (mem_cons_of_mem _ (mem_map_of_mem member))

/-- An update of a queue with threads moves the reference by the floor of the mean of
the distances it keeps. -/
theorem updateVirtualTime_floor (notEmpty : queue.totalWeight ≠ 0)
    (positive : 0 < queue.totalWeight + weightSum current.toList) :
    queue.updateVirtualTime current =
      let delta := (queue.sumWeightedDelta + deltaSum queue.zeroVruntime current.toList) /
        (queue.totalWeight + weightSum current.toList)
      if i64Min ≤ delta ∧ delta ≤ i64Max then some (queue.rebase delta) else none := by
  unfold updateVirtualTime
  rw [if_neg notEmpty]
  cases current with
  | none =>
    simp only [Option.toList_none, weightSum, deltaSum, map_nil, sum_nil, add_zero] at positive ⊢
    rw [if_neg positive.ne', divideWeightedSum_floor positive]
  | some current =>
    simp only [Option.toList_some, weightSum, deltaSum, map_cons, map_nil, sum_cons, sum_nil,
      add_zero] at positive ⊢
    rw [if_neg positive.ne', divideWeightedSum_floor positive]
    rfl

section

variable (weighted : queue.Weighted)
include weighted

theorem updateVirtualTime_eq (nonempty : queue.entities ≠ []) : queue.updateVirtualTime current =
      if i64Min ≤ deltaSum queue.zeroVruntime (queue.entities ++ current.toList) /
            weightSum (queue.entities ++ current.toList) ∧
          deltaSum queue.zeroVruntime (queue.entities ++ current.toList) /
            weightSum (queue.entities ++ current.toList) ≤ i64Max then
        some (queue.rebase (deltaSum queue.zeroVruntime (queue.entities ++ current.toList) /
            weightSum (queue.entities ++ current.toList)))
      else none := by
  have notEmpty : queue.totalWeight ≠ 0 := fun zero =>
    nonempty (weighted.total_eq_zero_iff.mp zero)
  have positive : 0 < weightSum (queue.entities ++ current.toList) :=
    weightSum_pos (by simp [nonempty])
  rw [weightSum_append, ← weighted.total_eq] at positive
  rw [weightSum_append, deltaSum_append, ← weighted.total_eq, ← weighted.sum_eq]
  exact updateVirtualTime_floor notEmpty positive

theorem Weighted.rebased {delta : Int} (nearZero : offset base queue.zeroVruntime < 2 ^ 63)
    (near : ∀ entity ∈ queue.entities, offset base entity.vruntime < 2 ^ 62)
    (lower : 0 ≤ (offset base queue.zeroVruntime : Int) + delta)
    (upper : (offset base queue.zeroVruntime : Int) + delta < 2 ^ 63) :
    (queue.rebase delta).Weighted ∧ (offset base (queue.rebase delta).virtualTime : Int) =
        offset base queue.zeroVruntime + delta := by
  have moved : (offset base (queue.zeroVruntime + .ofInt 64 delta) : Int) =
      offset base queue.zeroVruntime + delta :=
    offset_add_ofInt lower (by omega)
  refine ⟨⟨weighted.total_eq, ?_⟩, moved⟩
  have own : queue.sumWeightedDelta - delta * queue.totalWeight =
      deltaSum (queue.zeroVruntime + .ofInt 64 delta) queue.entities := by
    rw [weighted.sum_eq, weighted.total_eq, deltaSum_eq nearZero near,
      deltaSum_eq (by omega) near, moved]
    ring
  exact own

private theorem Weighted.updated_empty (empty : queue.entities = []) :
    ∃ queue', queue.updateVirtualTime current = some queue' ∧ queue'.Weighted ∧
      ∀ entity ∈ current, queue'.virtualTime = entity.vruntime := by
  have zero := weighted.total_eq_zero_iff.mpr empty
  have sum := weighted.sum_eq
  unfold updateVirtualTime
  rw [if_pos zero]
  cases current with
  | none => exact ⟨queue, rfl, weighted, fun _ isNone => nomatch isNone⟩
  | some current =>
    refine ⟨_, rfl, ⟨weighted.total_eq, ?_⟩, ?_⟩
    · change queue.sumWeightedDelta = deltaSum current.vruntime queue.entities
      rw [sum, empty, deltaSum_nil, deltaSum_nil]
    · rintro entity isCurrent
      rw [Option.mem_some_iff.mp isCurrent]
      rfl

end

private theorem meanOffset_singleton {entity : FairEntity} :
    meanOffset base [entity] = offset base entity.vruntime := by
  have positive := entity.weight_bounds.1
  simp only [meanOffset, offsetSum, weightSum, map_cons, map_nil, sum_cons, sum_nil, add_zero]
  exact mul_ediv_cancel _ (by omega)

theorem Weighted.updated (weighted : queue.Weighted)
    (within : Within base (2 ^ 62) (queue.involved current)) :
    ∃ queue', queue.updateVirtualTime current = some queue' ∧ queue'.Weighted ∧
      (queue.entities ++ current.toList ≠ [] → (offset base queue'.virtualTime : Int) =
          meanOffset base (queue.entities ++ current.toList)) := by
  have nearZero : offset base queue.zeroVruntime < 2 ^ 62 := within _ mem_cons_self
  have near := near_of_within within
  by_cases empty : queue.entities = []
  · rcases weighted.updated_empty empty with ⟨queue', ran, weighted', moved⟩
    refine ⟨queue', ran, weighted', ?_⟩
    intro someone
    cases current with
    | none => exact absurd empty (by simpa using someone)
    | some current =>
      rw [moved current rfl, empty]
      exact meanOffset_singleton.symm
  · have everyone : queue.entities ++ current.toList ≠ [] := by simp [empty]
    have positive := weightSum_pos everyone
    have mean := meanOffset_bounds everyone near
    have delta : deltaSum queue.zeroVruntime (queue.entities ++ current.toList) /
        weightSum (queue.entities ++ current.toList) =
          meanOffset base (queue.entities ++ current.toList) - offset base queue.zeroVruntime := by
      rw [deltaSum_eq (by omega) near, sub_eq_add_neg, ← neg_mul,
        add_mul_ediv_right _ _ positive.ne', ← sub_eq_add_neg, meanOffset]
    have fits : i64Min ≤ meanOffset base (queue.entities ++ current.toList) -
          offset base queue.zeroVruntime ∧
        meanOffset base (queue.entities ++ current.toList) -
          offset base queue.zeroVruntime ≤ i64Max := by
      unfold i64Min i64Max
      omega
    rw [updateVirtualTime_eq weighted empty, delta, if_pos fits]
    have rebased : (queue.rebase (meanOffset base (queue.entities ++
        current.toList) - offset base queue.zeroVruntime)).Weighted ∧ _ :=
      weighted.rebased (by omega) (fun entity member =>
        near entity (mem_append_left _ member)) (by omega) (by omega)
    refine ⟨_, rfl, rebased.1, fun _ => ?_⟩
    rw [rebased.2]
    omega

/-! ## Runs -/

/-- The queues that calls lead to while the queued threads, the running one and the
reference lie in a window. -/
inductive Runs (capacity : Nat) : FairRunQueue → Prop where
  | new : Runs capacity (new capacity)
  | call {queue queue' : FairRunQueue} (call : Call)
    (reached : Runs capacity queue) (ran : call.apply queue = some queue')
    (window : InWindow (2 ^ 62) (queue.involved call.current)) :
    Runs capacity queue'

variable {capacity : Nat}

theorem Weighted.replaced {item item' : FairItem} (weighted : queue.Weighted)
    (old : queue.items = before ++ item :: after)
    (new : queue'.items = before ++ item' :: after) (replaces : Replaces item item')
    (weights : queue'.weights = queue.weights) : queue'.Weighted := by
  have sameWeight : item'.thread.fair.weight = item.thread.fair.weight := by
    unfold FairEntity.weight
    rw [replaces.nice_eq, replaces.mode_eq]
  have totalEq := weighted.total_eq
  have sumEq := weighted.sum_eq
  rw [entities_of_items old] at totalEq sumEq
  simp only [FairRunQueue.weights, Prod.mk.injEq] at weights
  rcases weights with ⟨zero, sum, total⟩
  refine ⟨?_, ?_⟩
  · rw [total, totalEq, entities_of_items new]
    simp [weightSum_append, weightSum_cons, sameWeight]
  · rw [sum, zero, sumEq, entities_of_items new]
    simp [deltaSum_append, deltaSum_cons, sameWeight, replaces.vruntime_eq]

theorem within_of_weights (zero : queue'.zeroVruntime = queue.zeroVruntime)
    (fewer : queue'.entities.map (·.vruntime) ⊆ queue.entities.map (·.vruntime))
    (within : Within base (2 ^ 62) (queue.involved current)) :
    Within base (2 ^ 62) (queue'.involved current) := by
  refine within.subset ?_
  unfold involved
  rw [zero, map_append, map_append]
  refine cons_subset_cons _ (append_subset.mpr ⟨?_, ?_⟩)
  · exact subset_append_of_subset_left _ fewer
  · exact subset_append_right _ _

/-- Quiet changes keep the sums exact and stay in the window. -/
theorem Quiet.weighted (quiet : Quiet current queue queue') (weighted : queue.Weighted)
    (within : Within base (2 ^ 62) (queue.involved current)) :
    queue'.Weighted ∧ Within base (2 ^ 62) (queue'.involved current) := by
  cases quiet with
  | kept items weights consistent =>
    have entities : queue'.entities = queue.entities := congrArg (map _) items
    exact ⟨weighted.congr entities weights, within_of_weights (congrArg Prod.fst weights)
      (by rw [entities]; exact fun _ => id) within⟩
  | removed before after item old new weights consistent =>
    have zero : queue'.zeroVruntime = queue.zeroVruntime := congrArg Prod.fst weights
    refine ⟨weighted.removed old new weights, within_of_weights zero ?_ within⟩
    unfold entities
    rw [old, new]
    exact map_subset _ (map_subset _ (Sublist.append_left (sublist_cons_self _ _) _).subset)
  | replaced before after item item' old new replaces weights consistent =>
    refine ⟨weighted.replaced old new replaces weights,
      within_of_weights (congrArg Prod.fst weights) ?_ within⟩
    rw [entities_of_items old, entities_of_items new]
    simp only [map_append, map_cons, replaces.vruntime_eq]
    exact fun _ => id
  | updated ran items consistent =>
    rcases weighted.updated within with ⟨result, update, weighted', moved⟩
    rw [ran] at update
    cases update
    refine ⟨weighted', ?_⟩
    have entities : queue'.entities = queue.entities := congrArg (map _) items
    intro value member
    rcases mem_cons.mp member with rfl | member
    · by_cases nobody : queue.entities ++ current.toList = []
      · rcases append_eq_nil_iff.mp nobody with ⟨empty, none⟩
        rw [Option.toList_eq_nil_iff] at none
        subst none
        have zero := weighted.total_eq_zero_iff.mpr empty
        unfold updateVirtualTime at ran
        rw [if_pos zero] at ran
        cases ran
        exact within _ mem_cons_self
      · have mean := meanOffset_bounds nobody (near_of_within within)
        have reference := moved nobody
        unfold virtualTime at reference
        omega
    · rw [entities] at member
      exact within _ (mem_cons_of_mem _ member)

/-- In every run the index is consistent and the sums are exact. -/
theorem Runs.invariant (reached : queue.Runs capacity) : queue.Consistent ∧ queue.Weighted := by
  induction reached with
  | new => exact ⟨consistent_new capacity, rfl, rfl⟩
  | @call queue queue' call reached ran window ih =>
    rcases ih with ⟨consistent, weighted⟩
    have effect := Call.effect consistent ran
    rcases window with ⟨base, within⟩
    have quietly : ∀ {middle : FairRunQueue},
        Relation.ReflTransGen (Quiet call.current) queue middle →
        middle.Weighted ∧ Within base (2 ^ 62) (middle.involved call.current) := by
      intro middle changes
      induction changes with
      | refl => exact ⟨weighted, within⟩
      | tail _ last before => exact last.weighted before.1 before.2
    refine ⟨effect.consistent consistent, ?_⟩
    cases effect with
    | quiet changes => exact (quietly changes).1
    | inserts middle thread before after changes inserts consistent' =>
      exact (quietly changes).1.inserted inserts

theorem Consistent.length_le (consistent : queue.Consistent) : queue.entities.length ≤ 2 ^ 32 := by
  have inside : queue.items.map slot ⊆ range (2 ^ 32) := by
    intro slot member
    rcases mem_map.mp member with ⟨item, _, rfl⟩
    exact mem_range.mpr (Nat.mod_lt _ (Nat.two_pow_pos 32))
  have shorter := (subperm_of_subset consistent.slots inside).length_le
  rw [length_map, length_range] at shorter
  unfold entities
  rw [length_map]
  exact shorter

private theorem sums_fit (consistent : queue.Consistent) (weighted : queue.Weighted)
    (within : Within base (2 ^ 62) (queue.involved current)) :
    queue.totalWeight ≤ 2 ^ 49 ∧ -(2 ^ 111) ≤ queue.sumWeightedDelta ∧
      queue.sumWeightedDelta ≤ 2 ^ 111 := by
  have nearZero : offset base queue.zeroVruntime < 2 ^ 62 := within _ mem_cons_self
  have near : ∀ entity ∈ queue.entities, offset base entity.vruntime < 2 ^ 62 :=
    fun entity member => near_of_within within entity (mem_append_left _ member)
  have length := consistent.length_le
  have weight : weightSum queue.entities ≤ 2 ^ 49 := by
    have bound : weightSum queue.entities ≤ 88761 * queue.entities.length := weightSum_le
    omega
  have nonneg : 0 ≤ weightSum queue.entities := weightSum_nonneg
  have upper : offsetSum base queue.entities ≤ 2 ^ 62 * weightSum queue.entities := by
    refine offsetSum_le fun entity member => ?_
    have bound := near entity member
    omega
  have lower : 0 ≤ offsetSum base queue.entities := offsetSum_nonneg
  have reference : (offset base queue.zeroVruntime : Int) *
      weightSum queue.entities ≤ 2 ^ 62 * weightSum queue.entities :=
    mul_le_mul_of_nonneg_right (by omega) nonneg
  have product : 0 ≤ (offset base queue.zeroVruntime : Int) * weightSum queue.entities :=
    mul_nonneg (natCast_nonneg _) nonneg
  rw [weighted.sum_eq, weighted.total_eq, deltaSum_eq (by omega) near]
  omega

/-- The weighted sum of the distances of the unwrapped virtual runtimes from the
unwrapped reference. -/
def exactSum (base zero : BitVec 64) (entities : List FairEntity) : Int :=
  (entities.map fun entity => (entity.weight : Int) *
    ((offset base entity.vruntime : Int) - offset base zero)).sum

private theorem deltaSum_eq_exactSum {zero : BitVec 64} {entities : List FairEntity}
    (nearZero : offset base zero < 2 ^ 63)
    (near : ∀ entity ∈ entities, offset base entity.vruntime < 2 ^ 62) :
    deltaSum zero entities = exactSum base zero entities := by
  unfold deltaSum exactSum
  congr 1
  refine map_congr_left fun entity member => ?_
  rw [virtualDelta_eq ((near entity member).trans (by decide)) nearZero, mul_comm]

private theorem exists_pick {virtualTime : BitVec 64} (consistent : queue.Consistent)
    (nearTime : offset base virtualTime < 2 ^ 63)
    (near : ∀ entity ∈ queue.entities, offset base entity.vruntime < 2 ^ 62)
    (reached : ∃ entity ∈ queue.entities, offset base entity.vruntime ≤ offset base virtualTime) :
    ∃ queue' pick, queue.pickEligible virtualTime false = some (queue', some pick) := by
  have nearItems : ∀ item ∈ queue.root.toList, offset base item.thread.fair.vruntime < 2 ^ 63 :=
    fun item member => (near _ (mem_map_of_mem member)).trans (by decide)
  have prunes := prunes_of_balanced consistent.balanced nearItems nearTime
  unfold pickEligible
  rcases search : takeEarliestEligible virtualTime false queue.root with ⟨root, selected⟩
  obtain ⟨outcome, balanced⟩ := takeEarliestEligible_spec consistent.balanced search
  cases outcome with
  | missing same noOther =>
    rcases reached with ⟨entity, member, behind⟩
    rcases mem_map.mp member with ⟨item, inside, rfl⟩
    have candidate := noOther prunes item inside
    rw [FairEntity.isCandidate, Bool.false_and, Bool.not_false, Bool.and_true, ← Bool.not_eq_true,
      FairEntity.isEligible_iff (nearItems item inside) nearTime] at candidate
    exact absurd behind candidate
  | delayed before after item items candidate first isDelayed same =>
    exact ⟨_, _, rfl⟩
  | runnable before after item items candidate first notDelayed rest =>
    rcases consistent.finishRemoved items rest balanced with ⟨queue', finished, _⟩
    simp only [finished]
    exact ⟨_, _, rfl⟩

/-- In every run the sums are exact, an update moves the reference to the floor of
the weighted mean, and a pick right after an update finds a thread. -/
theorem updateVirtualTime_mean (reached : queue.Runs capacity)
    (within : Within base (2 ^ 62) (queue.involved current)) :
    queue.totalWeight = weightSum queue.entities ∧ queue.sumWeightedDelta =
        exactSum base queue.zeroVruntime queue.entities ∧
      (queue.totalWeight ≤ 2 ^ 49 ∧ -(2 ^ 111) ≤ queue.sumWeightedDelta ∧
        queue.sumWeightedDelta ≤ 2 ^ 111) ∧
      ∃ queue', queue.updateVirtualTime current = some queue' ∧ queue'.Runs capacity ∧
        (queue.entities ++ current.toList ≠ [] → (offset base queue'.virtualTime : Int) =
            meanOffset base (queue.entities ++ current.toList)) ∧
        (current = none → queue.entities ≠ [] →
          ∃ queue'' pick, queue'.pickEligible queue'.virtualTime false =
            some (queue'', some pick)) := by
  rcases reached.invariant with ⟨consistent, weighted⟩
  have nearZero : offset base queue.zeroVruntime < 2 ^ 62 := within _ mem_cons_self
  have near : ∀ entity ∈ queue.entities, offset base entity.vruntime < 2 ^ 62 :=
    fun entity member => near_of_within within entity (mem_append_left _ member)
  have exactly := weighted.sum_eq
  rw [deltaSum_eq_exactSum (by omega) near] at exactly
  rcases weighted.updated within with ⟨queue', ran, weighted', moved⟩
  refine ⟨weighted.total_eq, exactly, sums_fit consistent weighted within, queue',
    ran, .call (.updateVirtualTime current) reached ran ⟨base, within⟩, moved, ?_⟩
  rintro rfl nonempty
  have everyone : queue.entities ++ (none : Option FairEntity).toList =
      queue.entities := append_nil _
  rw [everyone] at moved
  have quiet : Quiet none queue queue' := updateVirtualTime_quiet consistent ran
  have entities : queue'.entities = queue.entities := by
    unfold entities items
    rw [(updateVirtualTime_same ran).1]
  have mean := moved nonempty
  have bounds := meanOffset_bounds nonempty near
  refine exists_pick quiet.consistent (by omega) (entities ▸ near) ?_
  have someone : ∃ entity ∈ queue.entities,
      (offset base entity.vruntime : Int) ≤ meanOffset base queue.entities :=
    exists_le_meanOffset nonempty
  rcases someone with ⟨entity, member, behind⟩
  exact ⟨entity, entities ▸ member, by omega⟩

end FairRunQueue

theorem sample_near : ∀ thread ∈ [sampleDelayed, sampleActive],
      offset 0 thread.fair.vruntime < 2 ^ 62 := by
  decide +kernel

private theorem sampleQueue_runs : sampleQueue.Runs 2 := by
  refine .call (.insert sampleActive) (.call (.insertDelayed sampleDelayed) .new
    rfl ⟨0, ?_⟩) rfl ⟨0, ?_⟩
  · intro value member
    rcases mem_cons.mp member with rfl | member
    · decide +kernel
    · cases member
  · intro value member
    have isFirst : value = sampleDelayed.fair.vruntime := by
      rcases mem_cons.mp member with rfl | member
      · rfl
      · exact mem_singleton.mp member
    rw [isFirst]
    exact sample_near sampleDelayed mem_cons_self

/-- The mean of the two virtual runtimes is 25, and the first thread is picked. -/
theorem sampleQueue_mean : sampleQueue.totalWeight = weightSum sampleQueue.entities ∧
      sampleQueue.sumWeightedDelta = exactSum 0 sampleQueue.zeroVruntime sampleQueue.entities ∧
      (sampleQueue.totalWeight ≤ 2 ^ 49 ∧ -(2 ^ 111) ≤ sampleQueue.sumWeightedDelta ∧
        sampleQueue.sumWeightedDelta ≤ 2 ^ 111) ∧
      ∃ queue', sampleQueue.updateVirtualTime none = some queue' ∧ queue'.Runs 2 ∧
        (sampleQueue.entities ++ (none : Option FairEntity).toList ≠ [] →
          (offset 0 queue'.virtualTime : Int) = meanOffset 0 (sampleQueue.entities ++
              (none : Option FairEntity).toList)) ∧
        ((none : Option FairEntity) = none → sampleQueue.entities ≠ [] →
          ∃ queue'' pick, queue'.pickEligible queue'.virtualTime false =
            some (queue'', some pick)) := by
  refine updateVirtualTime_mean sampleQueue_runs ?_
  intro value member
  have entities : sampleQueue.entities = [sampleDelayed, sampleActive].map (·.fair) := rfl
  rcases mem_cons.mp member with rfl | member
  · exact sample_near sampleDelayed mem_cons_self
  · rw [Option.toList_none, append_nil, entities, map_map] at member
    rcases mem_map.mp member with ⟨thread, inside, rfl⟩
    exact sample_near thread inside

example : (sampleQueue.updateVirtualTime none).map (·.virtualTime) = some (BitVec.ofNat 64 25) := by
  rfl

end TgosKits
