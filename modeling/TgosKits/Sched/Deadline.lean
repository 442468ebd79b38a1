import TgosKits.Library.WrappingTime

/-!
# Deadline servers

The constant-bandwidth server that a deadline thread runs in. Timestamps belong to
a 64-bit clock that wraps around, the runtime left is signed because an overrun
becomes debt, and a failed assertion is `none`.
-/

namespace TgosKits

open WrappingTime

def schedulerTimeHalfRange : Nat := 2 ^ 63

def i128Min : Int := -2 ^ 127

/-- One timestamp of the wrapping clock of a run queue. -/
abbrev SchedulerTimestamp := BitVec 64

namespace SchedulerTimestamp

variable {base time other : SchedulerTimestamp} {deltaNs : Nat}

def advance (time : SchedulerTimestamp) (deltaNs : Nat) : Option SchedulerTimestamp :=
  if deltaNs < schedulerTimeHalfRange then
    some (time + BitVec.ofNat 64 deltaNs)
  else
    none

def since (time earlier : SchedulerTimestamp) : Option Nat :=
  if (time - earlier).toNat < schedulerTimeHalfRange then
    some (time - earlier).toNat
  else
    none

def isBefore (time other : SchedulerTimestamp) : Bool := (time - other).toInt < 0

def isReachedBy (time now : SchedulerTimestamp) : Bool := !isBefore now time

variable (near : offset base time < schedulerTimeHalfRange)
include near

section

variable (nearOther : offset base other < schedulerTimeHalfRange)
include nearOther

theorem isBefore_iff : isBefore time other = true ↔ offset base time < offset base other := by
  unfold schedulerTimeHalfRange at near nearOther
  unfold isBefore
  have exactly : (time - other).toInt = (offset base time : Int) - offset base other :=
    toInt_sub_eq (by omega) (by omega)
  rw [exactly, decide_eq_true_iff]
  omega

theorem isReachedBy_iff : isReachedBy time other = true ↔ offset base time ≤ offset base other := by
  unfold isReachedBy
  rw [Bool.not_eq_true', ← Bool.not_eq_true, isBefore_iff nearOther near]
  omega

end

theorem advance_offset {moved : SchedulerTimestamp} (advanced : advance time deltaNs = some moved) :
    offset base moved = offset base time + deltaNs := by
  unfold advance at advanced
  split_ifs at advanced with short
  simp only [Option.some.injEq] at advanced
  unfold schedulerTimeHalfRange at near short
  have shifted : BitVec.ofNat 64 deltaNs = BitVec.ofInt 64 (deltaNs : Int) :=
    (BitVec.ofInt_natCast 64 deltaNs).symm
  have exactly : (offset base (time + BitVec.ofInt 64 (deltaNs : Int)) : Int) =
        offset base time + deltaNs :=
    offset_add_ofInt (by omega) (by omega)
  rw [← shifted, advanced] at exactly
  omega

theorem since_offset {elapsed : Nat} (nearOther : offset base other < schedulerTimeHalfRange)
    (measured : since time other = some elapsed) :
    offset base time = offset base other + elapsed := by
  unfold since at measured
  split_ifs at measured with short
  simp only [Option.some.injEq] at measured
  unfold schedulerTimeHalfRange at near nearOther short
  have exactly : (time - other).toInt = (offset base time : Int) - offset base other :=
    toInt_sub_eq (by omega) (by omega)
  rw [BitVec.toInt_eq_toNat_of_lt (by omega), measured] at exactly
  omega

end SchedulerTimestamp

/-- Optional behaviour of a deadline reservation. -/
structure DeadlineFlags where
  bits : BitVec 32
  deriving DecidableEq, Repr

namespace DeadlineFlags

def none : DeadlineFlags := ⟨0⟩

def reclaim : DeadlineFlags := ⟨1⟩

def contains (flags required : DeadlineFlags) : Bool :=
  flags.bits &&& required.bits == required.bits

end DeadlineFlags

/-- Reservation parameters that `DeadlinePolicy::new` has validated. -/
structure DeadlinePolicy where
  runtimeNs : Nat
  deadlineNs : Nat
  periodNs : Nat
  flags : DeadlineFlags
  runtime_pos : 0 < runtimeNs
  runtime_le_deadline : runtimeNs ≤ deadlineNs
  deadline_le_period : deadlineNs ≤ periodNs
  period_short : periodNs < schedulerTimeHalfRange

/-- The parameters that `DeadlinePolicy::new` refuses. -/
structure InvalidDeadline where
  runtimeNs : Nat
  deadlineNs : Nat
  periodNs : Nat

def DeadlinePolicy.new (runtimeNs deadlineNs periodNs : Nat)
    (flags : DeadlineFlags) : Except InvalidDeadline DeadlinePolicy :=
  if valid : 0 < runtimeNs ∧ runtimeNs ≤ deadlineNs ∧ deadlineNs ≤ periodNs ∧
      periodNs < schedulerTimeHalfRange then
    .ok
      { runtimeNs, deadlineNs, periodNs, flags
        runtime_pos := valid.1
        runtime_le_deadline := valid.2.1
        deadline_le_period := valid.2.2.1
        period_short := valid.2.2.2 }
  else
    .error { runtimeNs, deadlineNs, periodNs }

/-- Whether the runtime left is denser than the reservation until the deadline. -/
def densityExceedsReservation (remainingRuntimeNs timeToDeadlineNs : Nat)
    (policy : DeadlinePolicy) : Bool :=
  remainingRuntimeNs * policy.deadlineNs > policy.runtimeNs * timeToDeadlineNs

/-- The runtime that the reservation allows until the deadline. -/
def revisedWakeupRuntime (timeToDeadlineNs : Nat) (policy : DeadlinePolicy) : Int :=
  ((policy.runtimeNs * timeToDeadlineNs / policy.deadlineNs : Nat) : Int)

inductive DeadlineThrottleReason where
  | runtimeExhausted
  | yielded
  | constrainedWake
  deriving DecidableEq, Repr

inductive DeadlineJobState where
  | inactive
  | runnable
  | throttled (reason : DeadlineThrottleReason)
  deriving DecidableEq, Repr

structure DeadlineServerState where
  absoluteDeadline : Option SchedulerTimestamp
  nextPeriod : Option SchedulerTimestamp
  remainingRuntimeNs : Int
  state : DeadlineJobState
  overruns : Nat
  deriving DecidableEq, Repr

namespace DeadlineServerState

def new : DeadlineServerState :=
  { absoluteDeadline := none
    nextPeriod := none
    remainingRuntimeNs := 0
    state := .inactive
    overruns := 0 }

variable (server : DeadlineServerState)

def isThrottled : Bool :=
  match server.state with
  | .throttled _ => true
  | _ => false

variable (now : SchedulerTimestamp) (policy : DeadlinePolicy)

def startFreshJob : Option DeadlineServerState := do
  let absoluteDeadline ← now.advance policy.deadlineNs
  let nextPeriod ← now.advance policy.periodNs
  return { server with
    absoluteDeadline := some absoluteDeadline
    nextPeriod := some nextPeriod
    remainingRuntimeNs := policy.runtimeNs
    state := .runnable }

/-- The number of periods that pay the debt of a depleted job. -/
def depletedPeriods : Nat :=
  server.remainingRuntimeNs.natAbs / policy.runtimeNs + 1

/-- The deadline of a depleted job after the periods that pay its debt. An advance
beyond half the clock's range fails, and so does one beyond 128 bits. -/
def postponedDeadline :
    Option SchedulerTimestamp := do
  let absoluteDeadline ← server.absoluteDeadline
  absoluteDeadline.advance (server.depletedPeriods policy * policy.periodNs)

/-- Grants a depleted job its next runtime. The flag says whether it was depleted. -/
def advanceDepletedJob : Option (DeadlineServerState × Bool) :=
  if server.remainingRuntimeNs > 0 then
    some (server, false)
  else do
    let newDeadline ← server.postponedDeadline policy
    if newDeadline.isBefore now then
      let fresh ← server.startFreshJob now policy
      return (fresh, true)
    else
      let nextPeriod ← newDeadline.advance (policy.periodNs - policy.deadlineNs)
      let debtNs := server.remainingRuntimeNs.natAbs
      let replenishedRuntime := server.depletedPeriods policy * policy.runtimeNs - debtNs
      return ({ server with
        absoluteDeadline := some newDeadline
        nextPeriod := some nextPeriod
        remainingRuntimeNs := (replenishedRuntime : Nat) }, true)

def wakeBeforeDeadline (piBoosted : Bool)
    (absoluteDeadline : SchedulerTimestamp) : Option DeadlineServerState :=
  if server.remainingRuntimeNs ≤ 0 then
    some { server with state := .throttled .runtimeExhausted }
  else do
    let timeToDeadlineNs ← absoluteDeadline.since now
    if !densityExceedsReservation server.remainingRuntimeNs.toNat timeToDeadlineNs policy then
      return server
    else if policy.deadlineNs < policy.periodNs && !piBoosted then
      let revised := revisedWakeupRuntime timeToDeadlineNs policy
      if revised = 0 then
        return { server with
          remainingRuntimeNs := revised
          state := .throttled .constrainedWake }
      else
        return { server with remainingRuntimeNs := revised }
    else
      server.startFreshJob now policy

def activate (piBoosted : Bool) : Option DeadlineServerState :=
  match server.state, server.absoluteDeadline, server.nextPeriod with
  | .inactive, _, _ => server.startFreshJob now policy
  | _, none, _ => server.startFreshJob now policy
  | _, _, none => server.startFreshJob now policy
  | .throttled _, _, _ => some server
  | .runnable, some absoluteDeadline, some nextPeriod =>
    if absoluteDeadline.isBefore now then
      if policy.deadlineNs < policy.periodNs && !piBoosted && now.isBefore nextPeriod then
        some { server with
          remainingRuntimeNs := 0
          state := .throttled .constrainedWake }
      else
        server.startFreshJob now policy
    else
      server.wakeBeforeDeadline now policy piBoosted absoluteDeadline

def charge (server : DeadlineServerState) (policy : DeadlinePolicy)
    (runtimeNs reclaimedNs : Nat) : DeadlineServerState × Bool :=
  let permittedReclaim :=
    if policy.flags.contains .reclaim then reclaimedNs else 0
  let charge := runtimeNs - permittedReclaim
  if charge = 0 then
    (server, server.isThrottled)
  else
    let remaining := max i128Min (server.remainingRuntimeNs - charge)
    let charged :=
      if server.remainingRuntimeNs > 0 && remaining ≤ 0 then
        { server with
          remainingRuntimeNs := remaining
          state := .throttled .runtimeExhausted
          overruns := min (2 ^ 64 - 1) (server.overruns + 1) }
      else
        { server with remainingRuntimeNs := remaining }
    (charged, charged.isThrottled)

def yieldJob : DeadlineServerState :=
  { server with
    remainingRuntimeNs := 0
    state := .throttled .yielded }

def releaseYielded (nextPeriod : SchedulerTimestamp) : Option DeadlineServerState := do
  let elapsed ← now.since nextPeriod
  let periods := elapsed / policy.periodNs
  let release ← nextPeriod.advance (periods * policy.periodNs)
  let absoluteDeadline ← release.advance policy.deadlineNs
  let following ← release.advance policy.periodNs
  return { server with
    absoluteDeadline := some absoluteDeadline
    nextPeriod := some following
    remainingRuntimeNs := policy.runtimeNs
    state := .runnable }

def replenish : Option DeadlineServerState :=
  match server.state with
  | .throttled reason => do
      let nextPeriod ← server.nextPeriod
      if !nextPeriod.isReachedBy now then
        return server
      else if reason = .yielded then
        server.releaseYielded now policy nextPeriod
      else
        let (advanced, depleted) ← server.advanceDepletedJob now policy
        if depleted then
          return { advanced with state := .runnable }
        else
          return advanced
  | _ => some server

def times : List SchedulerTimestamp :=
  server.absoluteDeadline.toList ++ server.nextPeriod.toList

end DeadlineServerState

end TgosKits
