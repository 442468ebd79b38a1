import TgosKits.Library.WrappingTime

/-!
# Fair scheduling entities

The service and lag state of one thread of the fair class.
-/

namespace TgosKits

/-! ## Virtual time -/

variable (value reference : BitVec 64)

/-- The distance on a clock that wraps. -/
def virtualDelta : Int := (value - reference).toInt

def virtualBefore : Bool := virtualDelta value reference < 0

def virtualAfter : Bool := virtualDelta value reference > 0

def virtualMin (lhs rhs : BitVec 64) : BitVec 64 :=
  if virtualBefore rhs lhs then rhs else lhs

def u64Max : Nat := 2 ^ 64 - 1

def i64Min : Int := -(2 ^ 63)

def i64Max : Int := 2 ^ 63 - 1

def clampInt (low high value : Int) : Int :=
  if value < low then low else if high < value then high else value

/-! ## Weights -/

structure Nice where
  value : Int
  lower : -20 ≤ value
  upper : value ≤ 19
  deriving DecidableEq

def niceWeights : List Nat :=
  [88761, 71755, 56483, 46273, 36291, 29154, 23254, 18705, 14949, 11916, 9548,
    7620, 6100, 4904, 3906, 3121, 2501, 1991, 1586, 1277, 1024, 820, 655, 526,
    423, 335, 272, 215, 172, 137, 110, 87, 70, 56, 45, 36, 29, 23, 18, 15]

variable (nice : Nice)

def Nice.weight : Nat := niceWeights.getD (nice.value + 20).toNat 0

inductive FairMode where
  | normal
  | batch
  | idle
  deriving DecidableEq, Repr

def idlePolicyWeight : Nat := 3

def loadWeight (mode : FairMode) : Nat :=
  match mode with
  | .idle => idlePolicyWeight
  | .normal | .batch => nice.weight

def baseWeight : Nat := 1024

def maxVirtualDelta : Nat := 2 ^ 63 - 1

/-- Physical time in nanoseconds as virtual time of an entity with the given
weight. -/
def weightedDelta (runtimeNs weight : Nat) : Nat :=
  if weight = baseWeight then
    min runtimeNs maxVirtualDelta
  else
    min (runtimeNs * baseWeight / weight) maxVirtualDelta

theorem Nice.weight_bounds : 15 ≤ nice.weight ∧ nice.weight ≤ 88761 := by
  have table : ∀ index < 40, 15 ≤ niceWeights.getD index 0 ∧ niceWeights.getD index 0 ≤ 88761 := by
    decide
  have upper := nice.upper
  exact table _ (by omega)

theorem loadWeight_bounds (mode : FairMode) :
    0 < loadWeight nice mode ∧ loadWeight nice mode ≤ 88761 := by
  have bounds := nice.weight_bounds
  cases mode with
  | normal | batch => exact ⟨by rw [loadWeight]; omega, bounds.2⟩
  | idle => exact ⟨Nat.zero_lt_succ 2, by rw [loadWeight, idlePolicyWeight]; omega⟩

/-! ## Entities -/

/-- Where an entity stands with respect to its run queue; a lag is an `i64`. -/
inductive FairPlacement where
  | initial
  | active
  | delayed (virtualLag : Int)
  | delayedMigrating (virtualLag : Int) (relativeDeadline : BitVec 64)
  | sleeping (virtualLag : Int)
  | migrating (virtualLag : Int) (relativeDeadline : BitVec 64)
  deriving DecidableEq

structure FairEntity where
  nice : Nice
  mode : FairMode
  vruntime : BitVec 64
  serviceRequestNs : Nat
  virtualDeadline : BitVec 64
  protectedUntilVruntime : BitVec 64
  placement : FairPlacement
  deriving DecidableEq

/-- The error the modelled functions of the entity report. -/
inductive TaskError where
  | invalidConfiguration
  deriving DecidableEq, Repr

namespace FairEntity

variable (entity : FairEntity)

def weight : Nat := loadWeight entity.nice entity.mode

def isDelayed : Bool :=
  match entity.placement with
  | .delayed _ => true
  | _ => false

variable (virtualTime : BitVec 64)

/-- Not ahead of the virtual time. -/
def isEligible : Bool := !virtualAfter entity.vruntime virtualTime

def sliceIsProtected : Bool := virtualBefore entity.vruntime entity.protectedUntilVruntime

variable (rqMaxSliceNs timingGranularityNs : Nat)

def boundedVirtualLag : Int :=
  let limit : Int := min (weightedDelta
    (min (rqMaxSliceNs + timingGranularityNs) u64Max) entity.weight) (2 ^ 63 - 1)
  clampInt (-limit) limit (virtualDelta virtualTime entity.vruntime)

def refreshedDelayedLag (savedLag : Int) : Int :=
  min (max (entity.boundedVirtualLag virtualTime rqMaxSliceNs timingGranularityNs) savedLag) 0

/-- The lag with which a delayed entity has to be placed anew, if it has to. -/
def delayedRequeueLag : Except TaskError (Option Int) :=
  match entity.placement with
  | .delayed savedLag =>
    let lag := entity.refreshedDelayedLag virtualTime rqMaxSliceNs timingGranularityNs savedLag
    if virtualTime - BitVec.ofInt 64 lag ≠ entity.vruntime then
      .ok (some lag)
    else
      .ok none
  | _ => .error .invalidConfiguration

def clearDelayed : Except TaskError FairEntity :=
  match entity.placement with
  | .delayed _ => .ok { entity with placement := .active }
  | _ => .error .invalidConfiguration

def inflatedPlacementLag (savedLag : Int) (runnableWeight : Nat) : Int :=
  if savedLag = 0 ∨ runnableWeight = 0 then
    0
  else
    clampInt i64Min i64Max ((savedLag *
      (min (runnableWeight + entity.weight) u64Max : Nat)).tdiv runnableWeight)

def placeReactivatedDelayed (runnableWeight : Nat) (savedLag : Int) : Except TaskError FairEntity :=
  match entity.placement with
  | .delayed _ =>
    let vruntime := virtualTime -
      BitVec.ofInt 64 (entity.inflatedPlacementLag savedLag runnableWeight)
    .ok { entity with
      vruntime
      virtualDeadline := vruntime + BitVec.ofNat 64
        (weightedDelta entity.serviceRequestNs entity.weight)
      protectedUntilVruntime := vruntime
      placement := .active }
  | _ => .error .invalidConfiguration

/-- A new entity begins with half a request at the mean, a woken one with its saved
lag. -/
def placeAfterActivation (runnableWeight : Nat) : Except TaskError FairEntity :=
  let place (savedLag : Int) (requestNs : Nat) : Except TaskError FairEntity :=
    let vruntime := virtualTime -
      BitVec.ofInt 64 (entity.inflatedPlacementLag savedLag runnableWeight)
    .ok { entity with
      vruntime
      virtualDeadline := vruntime + BitVec.ofNat 64 (weightedDelta requestNs entity.weight)
      protectedUntilVruntime := vruntime
      placement := .active }
  match entity.placement with
  | .initial => place 0 (entity.serviceRequestNs / 2)
  | .sleeping virtualLag => place virtualLag entity.serviceRequestNs
  | .active | .delayed _ | .delayedMigrating _ _ | .migrating _ _ => .error .invalidConfiguration

def placeAtLeast : FairEntity :=
  if virtualBefore entity.vruntime virtualTime then
    let shift := virtualTime - entity.vruntime
    let entity := { entity with
      vruntime := virtualTime
      virtualDeadline := entity.virtualDeadline + shift }
    { entity with protectedUntilVruntime :=
        if entity.sliceIsProtected then entity.protectedUntilVruntime + shift
        else entity.vruntime }
  else
    entity

def cancelSliceProtection : FairEntity :=
  { entity with protectedUntilVruntime := entity.vruntime }

def placeAfterTransfer (runnableWeight : Nat) : Except TaskError FairEntity :=
  match entity.placement with
  | .initial | .sleeping _ => entity.placeAfterActivation virtualTime runnableWeight
  | .migrating virtualLag relativeDeadline =>
    let vruntime := virtualTime -
      BitVec.ofInt 64 (entity.inflatedPlacementLag virtualLag runnableWeight)
    .ok { entity with
      vruntime
      virtualDeadline := vruntime + relativeDeadline
      protectedUntilVruntime := vruntime
      placement := .active }
  | .delayed _ | .delayedMigrating _ _ => .error .invalidConfiguration
  | .active => .ok (entity.placeAtLeast virtualTime).cancelSliceProtection

def finishDelayedDequeue : Except TaskError FairEntity :=
  match entity.placement with
  | .delayed savedLag =>
    .ok { entity with placement := .sleeping (entity.refreshedDelayedLag
      virtualTime rqMaxSliceNs timingGranularityNs savedLag) }
  | _ => .error .invalidConfiguration

theorem weight_bounds : 0 < entity.weight ∧ entity.weight ≤ 88761 :=
  loadWeight_bounds entity.nice entity.mode

end FairEntity

def protectedCurrentIsEligible (entity : FairEntity) (virtualTime : BitVec 64) : Bool :=
  !entity.isDelayed && entity.isEligible virtualTime && entity.sliceIsProtected

/-! ## Comparisons inside a window -/

open WrappingTime

variable {base value reference : BitVec 64}

section

variable (near : offset base value < 2 ^ 63) (nearReference : offset base reference < 2 ^ 63)
include near nearReference

theorem virtualDelta_eq : virtualDelta value reference =
      (offset base value : Int) - offset base reference :=
  toInt_sub_eq (by omega) (by omega)

theorem virtualBefore_iff : virtualBefore value reference = true ↔
      offset base value < offset base reference := by
  rw [virtualBefore, virtualDelta_eq near nearReference, decide_eq_true_iff]
  omega

end

theorem FairEntity.isEligible_iff {entity : FairEntity}
    (near : offset base entity.vruntime < 2 ^ 63) (nearReference : offset base reference < 2 ^ 63) :
    entity.isEligible reference = true ↔ offset base entity.vruntime ≤ offset base reference := by
  rw [isEligible, Bool.not_eq_true', ← Bool.not_eq_true, virtualAfter,
    virtualDelta_eq near nearReference, decide_eq_true_iff]
  omega

theorem offset_virtualMin (near : offset base value < 2 ^ 63)
    (nearReference : offset base reference < 2 ^ 63) :
    offset base (virtualMin value reference) = min (offset base value) (offset base reference) := by
  unfold virtualMin
  by_cases before : virtualBefore reference value = true
  · rw [if_pos before]
    have less := (virtualBefore_iff nearReference near).mp before
    omega
  · rw [if_neg before]
    rw [virtualBefore_iff nearReference near] at before
    omega

end TgosKits
