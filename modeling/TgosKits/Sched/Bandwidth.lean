import Mathlib.Tactic.Linarith
import Mathlib.Tactic.Ring
import TgosKits.Sched.Deadline

/-! # Bandwidth of a deadline server -/

namespace TgosKits

open WrappingTime SchedulerTimestamp DeadlineServerState Option

/-- The accounts of a server, in the order of its unwrapped timestamps. -/
structure Balanced (policy : DeadlinePolicy) (base start : SchedulerTimestamp)
    (charged : Nat) (server : DeadlineServerState)
    (absoluteDeadline nextPeriod : SchedulerTimestamp) : Prop where
  deadline_eq : server.absoluteDeadline = some absoluteDeadline
  period_eq : server.nextPeriod = some nextPeriod
  gap : offset base nextPeriod + policy.deadlineNs = offset base absoluteDeadline + policy.periodNs
  active : server.state ≠ .inactive
  runnable_pos : server.state = .runnable → 0 < server.remainingRuntimeNs
  throttled_nonpos : ∀ reason, server.state = .throttled reason → server.remainingRuntimeNs ≤ 0
  yielded_zero : server.state = .throttled .yielded → server.remainingRuntimeNs = 0
  debt : -(charged : Int) ≤ server.remainingRuntimeNs
  bound : (policy.periodNs : Int) * (charged + server.remainingRuntimeNs) ≤
    policy.runtimeNs * ((offset base nextPeriod : Int) - offset base start)

/-- The accounts of a server at some deadline and some next period. -/
def InBalance (policy : DeadlinePolicy) (base start : SchedulerTimestamp)
    (charged : Nat) (server : DeadlineServerState) : Prop :=
  ∃ absoluteDeadline nextPeriod,
    Balanced policy base start charged server absoluteDeadline nextPeriod

section

variable {policy : DeadlinePolicy} {base start now : SchedulerTimestamp} {charged : Nat}
  {server server' : DeadlineServerState} {absoluteDeadline nextPeriod : SchedulerTimestamp}

theorem balanced_of_runnable (deadline_eq : server.absoluteDeadline = some absoluteDeadline)
    (period_eq : server.nextPeriod = some nextPeriod)
    (gap : offset base nextPeriod + policy.deadlineNs =
      offset base absoluteDeadline + policy.periodNs) (runnable : server.state = .runnable)
    (positive : 0 < server.remainingRuntimeNs)
    (bound : (policy.periodNs : Int) * (charged + server.remainingRuntimeNs) ≤
      policy.runtimeNs * ((offset base nextPeriod : Int) - offset base start)) :
    Balanced policy base start charged server absoluteDeadline nextPeriod where
  deadline_eq := deadline_eq
  period_eq := period_eq
  gap := gap
  active := by simp [runnable]
  runnable_pos := fun _ => positive
  throttled_nonpos := by simp [runnable]
  yielded_zero := by simp [runnable]
  debt := by omega
  bound := bound

theorem inBalance_startFreshJob (near : offset base now < schedulerTimeHalfRange)
    (covered : (policy.periodNs : Int) * charged ≤
      policy.runtimeNs * ((offset base now : Int) - offset base start))
    (ran : server.startFreshJob now policy = some server') :
    InBalance policy base start charged server' := by
  unfold startFreshJob at ran
  simp only [bind, bind_eq_some_iff, pure, some.injEq] at ran
  rcases ran with ⟨absoluteDeadline, reached, nextPeriod, released, rfl⟩
  have deadlineOffset := advance_offset near reached
  have periodOffset := advance_offset near released
  have positive := policy.runtime_pos
  refine ⟨absoluteDeadline, nextPeriod,
    balanced_of_runnable rfl rfl (by omega) rfl (by dsimp only; omega) ?_⟩
  rw [periodOffset]
  push_cast
  linarith

section

variable (balanced : Balanced policy base start charged server absoluteDeadline nextPeriod)
include balanced

theorem Balanced.covered_of_period_le (nonneg : 0 ≤ server.remainingRuntimeNs)
    (passed : offset base nextPeriod ≤ offset base now) : (policy.periodNs : Int) * charged ≤
      policy.runtimeNs * ((offset base now : Int) - offset base start) := by
  have bound := balanced.bound
  have left : (0 : Int) ≤ policy.periodNs * server.remainingRuntimeNs :=
    mul_nonneg (by omega) nonneg
  have later : (policy.runtimeNs : Int) * offset base nextPeriod ≤
        policy.runtimeNs * offset base now :=
    mul_le_mul_of_nonneg_left (by omega) (by omega)
  linarith

theorem Balanced.throttled (runnable : server.state = .runnable) (reason : DeadlineThrottleReason) :
    Balanced policy base start charged
      { server with remainingRuntimeNs := 0, state := .throttled reason }
      absoluteDeadline nextPeriod := by
  have positive := balanced.runnable_pos runnable
  have lowered : (policy.periodNs : Int) * charged ≤
      policy.periodNs * (charged + server.remainingRuntimeNs) :=
    mul_le_mul_of_nonneg_left (by omega) (by omega)
  exact
    { balanced with
      active := by simp
      runnable_pos := by simp
      throttled_nonpos := by simp
      yielded_zero := by simp
      debt := by simp
      bound := by exact le_trans lowered balanced.bound }

section

variable (near : offset base now < schedulerTimeHalfRange)
  (nearDeadline : offset base absoluteDeadline < schedulerTimeHalfRange)
include near nearDeadline

/-- A wake-up before the deadline never raises the runtime of a constrained job,
and a dense job whose deadline is its period has spent the share until now. -/
theorem Balanced.wakeBeforeDeadline (runnable : server.state = .runnable)
    (ran : server.wakeBeforeDeadline now policy false absoluteDeadline = some server') :
    InBalance policy base start charged server' := by
  have positive := balanced.runnable_pos runnable
  have bound := balanced.bound
  have deadlinePositive : 0 < policy.deadlineNs :=
    lt_of_lt_of_le policy.runtime_pos policy.runtime_le_deadline
  unfold DeadlineServerState.wakeBeforeDeadline at ran
  rw [if_neg (by omega)] at ran
  simp only [bind, bind_eq_some_iff] at ran
  rcases ran with ⟨timeToDeadlineNs, measured, ran⟩
  have distance := since_offset nearDeadline near measured
  by_cases dense : densityExceedsReservation server.remainingRuntimeNs.toNat
      timeToDeadlineNs policy = true
  · rw [if_neg (by simp [dense])] at ran
    unfold densityExceedsReservation at dense
    rw [decide_eq_true_iff] at dense
    by_cases constrained : policy.deadlineNs < policy.periodNs
    · rw [if_pos (by simpa using constrained)] at ran
      -- the revised runtime is below the runtime it replaces
      have revisedLess : policy.runtimeNs * timeToDeadlineNs / policy.deadlineNs <
          server.remainingRuntimeNs.toNat :=
        (Nat.div_lt_iff_lt_mul deadlinePositive).mpr dense
      have revisedLower : (0 : Int) ≤ revisedWakeupRuntime timeToDeadlineNs policy :=
        Int.natCast_nonneg _
      have revisedUpper : revisedWakeupRuntime timeToDeadlineNs policy ≤
          server.remainingRuntimeNs := by
        unfold revisedWakeupRuntime
        omega
      have revisedBound : (policy.periodNs : Int) *
            (charged + revisedWakeupRuntime timeToDeadlineNs policy) ≤
          policy.runtimeNs * ((offset base nextPeriod : Int) - offset base start) :=
        le_trans (mul_le_mul_of_nonneg_left (by omega) (by omega)) bound
      by_cases empty : revisedWakeupRuntime timeToDeadlineNs policy = 0
      · simp only [empty, if_true] at ran
        cases ran
        exact ⟨absoluteDeadline, nextPeriod, balanced.throttled runnable .constrainedWake⟩
      · simp only [if_neg empty] at ran
        cases ran
        exact ⟨absoluteDeadline, nextPeriod,
          { balanced with
            runnable_pos := by
              dsimp only
              omega
            throttled_nonpos := by
              intro _ throttled
              simp [runnable] at throttled
            yielded_zero := by
              intro throttled
              simp [runnable] at throttled
            debt := by
              dsimp only
              omega
            bound := revisedBound }⟩
    · rw [if_neg (by simpa using constrained)] at ran
      refine inBalance_startFreshJob near ?_ ran
      have whole : policy.deadlineNs = policy.periodNs :=
        le_antisymm policy.deadline_le_period (by omega)
      have gap := balanced.gap
      have denser : (policy.runtimeNs : Int) * timeToDeadlineNs <
          server.remainingRuntimeNs * policy.periodNs := by
        rw [whole] at dense
        have counted : server.remainingRuntimeNs = (server.remainingRuntimeNs.toNat : Int) := by
          omega
        rw [counted]
        exact_mod_cast dense
      have until' : (offset base nextPeriod : Int) = offset base now + timeToDeadlineNs := by
        omega
      rw [until'] at bound
      linarith
  · rw [if_pos (by simpa using dense)] at ran
    cases ran
    exact ⟨absoluteDeadline, nextPeriod, balanced⟩

theorem Balanced.activate (nearPeriod : offset base nextPeriod < schedulerTimeHalfRange)
    (ran : server.activate now policy false = some server') :
    InBalance policy base start charged server' := by
  have gap := balanced.gap
  unfold DeadlineServerState.activate at ran
  rw [balanced.deadline_eq, balanced.period_eq] at ran
  cases state : server.state with
  | inactive => exact absurd state balanced.active
  | throttled reason =>
    simp only [state] at ran
    cases ran
    exact ⟨absoluteDeadline, nextPeriod, balanced⟩
  | runnable =>
    simp only [state] at ran
    by_cases late : absoluteDeadline.isBefore now = true
    · rw [if_pos late] at ran
      rw [isBefore_iff nearDeadline near] at late
      split_ifs at ran with waits
      · cases ran
        have ended := balanced.throttled state .constrainedWake
        rw [balanced.deadline_eq, balanced.period_eq] at ended
        exact ⟨absoluteDeadline, nextPeriod, ended⟩
      · refine inBalance_startFreshJob near ?_ ran
        refine balanced.covered_of_period_le (balanced.runnable_pos state).le ?_
        -- a job that is not constrained has its next period at its deadline
        by_cases constrained : policy.deadlineNs < policy.periodNs
        · simp only [constrained, decide_true, Bool.not_false, Bool.and_true,
            Bool.true_and] at waits
          rw [isBefore_iff near nearPeriod] at waits
          omega
        · omega
    · rw [if_neg late] at ran
      exact balanced.wakeBeforeDeadline near nearDeadline state ran

end

theorem Balanced.charge {runtimeNs : Nat} {throttled : Bool}
    (notYielded : server.state ≠ .throttled .yielded)
    (bounded : charged + runtimeNs < schedulerTimeHalfRange)
    (ran : server.charge policy runtimeNs 0 = (server', throttled)) :
    Balanced policy base start (charged + runtimeNs) server' absoluteDeadline nextPeriod := by
  have debt := balanced.debt
  have bound := balanced.bound
  have noReclaim : runtimeNs - (if policy.flags.contains .reclaim then 0 else 0) =
        runtimeNs := by
    split <;> rfl
  unfold DeadlineServerState.charge at ran
  dsimp only at ran
  rw [noReclaim] at ran
  by_cases idle : runtimeNs = 0
  · rw [if_pos idle] at ran
    cases ran
    subst idle
    exact balanced
  rw [if_neg idle] at ran
  have unsaturated : max i128Min (server.remainingRuntimeNs - (runtimeNs : Int)) =
        server.remainingRuntimeNs - runtimeNs := by
    unfold i128Min
    unfold schedulerTimeHalfRange at bounded
    omega
  have same : ((charged + runtimeNs : Nat) : Int) + (server.remainingRuntimeNs - runtimeNs) =
      charged + server.remainingRuntimeNs := by
    push_cast
    ring
  rw [← same] at bound
  rw [unsaturated] at ran
  by_cases exhausts : 0 < server.remainingRuntimeNs ∧
      server.remainingRuntimeNs - (runtimeNs : Int) ≤ 0
  · rw [if_pos (by simpa using exhausts)] at ran
    cases ran
    exact
      { balanced with
        active := by simp
        runnable_pos := by simp
        throttled_nonpos := fun _ _ => exhausts.2
        yielded_zero := by simp
        debt := by
          dsimp only
          omega
        bound := bound }
  · rw [if_neg (by simpa using exhausts)] at ran
    cases ran
    exact
      { balanced with
        runnable_pos := by
          intro runnable
          have positive := balanced.runnable_pos runnable
          dsimp only
          omega
        throttled_nonpos := by
          intro reason throttled
          have nonpos := balanced.throttled_nonpos reason throttled
          dsimp only
          omega
        yielded_zero := fun yielded => absurd yielded notYielded
        debt := by
          dsimp only
          omega
        bound := bound }

/-- A yield gives up the runtime left, so a later release grants a full runtime. -/
theorem Balanced.releaseYielded (yielded : server.state = .throttled .yielded)
    (near : offset base now < schedulerTimeHalfRange)
    (nearPeriod : offset base nextPeriod < schedulerTimeHalfRange)
    (ran : server.releaseYielded now policy nextPeriod = some server') :
    InBalance policy base start charged server' := by
  unfold DeadlineServerState.releaseYielded at ran
  simp only [bind, bind_eq_some_iff, pure, some.injEq] at ran
  rcases ran with
    ⟨elapsed, measured, release, released, newDeadline, reached, following, followed, rfl⟩
  have distance := since_offset near nearPeriod measured
  have releaseOffset := advance_offset nearPeriod released
  have whole : elapsed / policy.periodNs * policy.periodNs ≤ elapsed :=
    Nat.div_mul_le_self elapsed policy.periodNs
  have nearRelease : offset base release < schedulerTimeHalfRange := by
    omega
  have deadlineOffset := advance_offset nearRelease reached
  have followingOffset := advance_offset nearRelease followed
  have positive := policy.runtime_pos
  have bound := balanced.bound
  rw [balanced.yielded_zero yielded] at bound
  have later : (policy.runtimeNs : Int) * offset base nextPeriod ≤
      policy.runtimeNs * offset base release :=
    mul_le_mul_of_nonneg_left (by omega) (by omega)
  refine ⟨newDeadline, following,
    balanced_of_runnable rfl rfl (by omega) rfl (by dsimp only; omega) ?_⟩
  rw [followingOffset]
  push_cast
  linarith

/-- A late replenishment forgives the debt of a job that is not constrained; a
constrained one must be on time while it is in debt. -/
theorem Balanced.advanceDepletedJob {depleted : Bool} (nonpos : server.remainingRuntimeNs ≤ 0)
    (reached : offset base nextPeriod ≤ offset base now)
    (near : offset base now < schedulerTimeHalfRange)
    (nearDeadline : offset base absoluteDeadline < schedulerTimeHalfRange)
    (nearPostponed : ∀ postponed, server.postponedDeadline policy = some postponed →
        offset base postponed < schedulerTimeHalfRange)
    (onTime : policy.deadlineNs < policy.periodNs → server.remainingRuntimeNs < 0 → ∀ postponed,
        server.postponedDeadline policy = some postponed → postponed.isBefore now = false)
    (ran : server.advanceDepletedJob now policy = some (server', depleted)) :
    depleted = true ∧ InBalance policy base start charged { server' with state := .runnable } := by
  have gap := balanced.gap
  have bound := balanced.bound
  have positive := policy.runtime_pos
  unfold DeadlineServerState.advanceDepletedJob at ran
  rw [if_neg (by omega)] at ran
  simp only [bind, bind_eq_some_iff] at ran
  rcases ran with ⟨newDeadline, postponed, ran⟩
  have nearNew := nearPostponed newDeadline postponed
  have moved : offset base newDeadline = offset base absoluteDeadline +
      server.depletedPeriods policy * policy.periodNs := by
    unfold postponedDeadline at postponed
    simp only [bind, balanced.deadline_eq, bind_some] at postponed
    exact advance_offset nearDeadline postponed
  -- the periods pay the whole debt
  have pays : server.remainingRuntimeNs.natAbs <
      server.depletedPeriods policy * policy.runtimeNs := by
    rw [mul_comm]
    exact Nat.lt_mul_div_succ _ positive
  by_cases late : newDeadline.isBefore now = true
  · simp only [if_pos late, bind_eq_some_iff, pure, some.injEq, Prod.mk.injEq] at ran
    rcases ran with ⟨fresh, started, rfl, rfl⟩
    refine ⟨rfl, ?_⟩
    have running : { fresh with state := .runnable } = fresh := by
      unfold startFreshJob at started
      simp only [bind, bind_eq_some_iff, pure, some.injEq] at started
      rcases started with ⟨_, _, _, _, rfl⟩
      rfl
    rw [running]
    refine inBalance_startFreshJob near ?_ started
    by_cases inDebt : server.remainingRuntimeNs < 0
    · have notConstrained : ¬ policy.deadlineNs < policy.periodNs := by
        intro constrained
        have inTime := onTime constrained inDebt newDeadline postponed
        rw [late] at inTime
        exact Bool.noConfusion inTime
      rw [isBefore_iff nearNew near] at late
      have ordered := policy.deadline_le_period
      have paid : -server.remainingRuntimeNs ≤
          (server.depletedPeriods policy : Int) * policy.runtimeNs := by
        have counted : -server.remainingRuntimeNs = (server.remainingRuntimeNs.natAbs : Int) := by
          omega
        rw [counted]
        exact_mod_cast pays.le
      have covered : (policy.periodNs : Int) * -server.remainingRuntimeNs ≤ policy.periodNs *
            ((server.depletedPeriods policy : Int) * policy.runtimeNs) :=
        mul_le_mul_of_nonneg_left paid (by omega)
      have earlier : (policy.runtimeNs : Int) * (offset base nextPeriod +
              server.depletedPeriods policy * policy.periodNs) ≤
          policy.runtimeNs * offset base now := by
        apply mul_le_mul_of_nonneg_left _ (by omega)
        have same : offset base nextPeriod = offset base absoluteDeadline := by
          omega
        rw [same]
        exact_mod_cast (by omega : offset base absoluteDeadline +
          server.depletedPeriods policy * policy.periodNs ≤ offset base now)
      linarith
    · exact balanced.covered_of_period_le (by omega) reached
  · simp only [if_neg late, bind_eq_some_iff, pure, some.injEq, Prod.mk.injEq] at ran
    rcases ran with ⟨following, followed, rfl, rfl⟩
    refine ⟨rfl, newDeadline, following, ?_⟩
    have followingOffset := advance_offset nearNew followed
    have ordered := policy.deadline_le_period
    have replenished : ((server.depletedPeriods policy * policy.runtimeNs -
            server.remainingRuntimeNs.natAbs : Nat) : Int) =
          server.depletedPeriods policy * policy.runtimeNs + server.remainingRuntimeNs := by
      rw [Nat.cast_sub pays.le]
      push_cast
      rw [abs_of_nonpos nonpos]
      ring
    have granted : 0 < ((server.depletedPeriods policy * policy.runtimeNs -
        server.remainingRuntimeNs.natAbs : Nat) : Int) := by
      omega
    have followingEq : (offset base following : Int) = offset base nextPeriod +
        server.depletedPeriods policy * policy.periodNs := by
      have sum : offset base following = offset base nextPeriod +
          server.depletedPeriods policy * policy.periodNs := by
        omega
      exact_mod_cast sum
    refine balanced_of_runnable rfl rfl (by omega) rfl granted ?_
    rw [replenished, followingEq]
    linarith

end

/-- A constrained job in debt is replenished no later than its postponed deadline. -/
def OnTime (policy : DeadlinePolicy) (server : DeadlineServerState)
    (now : SchedulerTimestamp) : Prop :=
  policy.deadlineNs < policy.periodNs → server.remainingRuntimeNs < 0 →
    ∀ postponed, server.postponedDeadline policy = some postponed → postponed.isBefore now = false

theorem Balanced.replenish (balanced : Balanced policy base start charged server
      absoluteDeadline nextPeriod) (near : offset base now < schedulerTimeHalfRange)
    (nearDeadline : offset base absoluteDeadline < schedulerTimeHalfRange)
    (nearPeriod : offset base nextPeriod < schedulerTimeHalfRange)
    (nearPostponed : ∀ postponed, server.postponedDeadline policy = some postponed →
        offset base postponed < schedulerTimeHalfRange) (onTime : OnTime policy server now)
    (ran : server.replenish now policy = some server') :
    InBalance policy base start charged server' := by
  unfold DeadlineServerState.replenish at ran
  cases state : server.state with
  | inactive => exact absurd state balanced.active
  | runnable =>
    simp only [state] at ran
    cases ran
    exact ⟨absoluteDeadline, nextPeriod, balanced⟩
  | throttled reason =>
    simp only [state, balanced.period_eq, bind, bind_some] at ran
    by_cases reached : nextPeriod.isReachedBy now = true
    · rw [if_neg (by simp [reached])] at ran
      rw [isReachedBy_iff nearPeriod near] at reached
      by_cases yielded : reason = .yielded
      · subst yielded
        exact balanced.releaseYielded state near nearPeriod ran
      rw [if_neg yielded, bind_eq_some_iff] at ran
      rcases ran with ⟨⟨advanced, depleted⟩, advances, ran⟩
      rcases balanced.advanceDepletedJob
        (balanced.throttled_nonpos reason state) reached near nearDeadline
        nearPostponed onTime advances with ⟨rfl, inBalance⟩
      cases ran
      exact inBalance
    · rw [if_pos (by simp [reached])] at ran
      cases ran
      exact ⟨absoluteDeadline, nextPeriod, balanced⟩

end

/-! ## Runs -/

/-- A server in a run, with the runtime charged so far and the last time seen. -/
structure ServerMoment where
  server : DeadlineServerState
  charged : Nat
  now : SchedulerTimestamp

/-- The runs of a server from its first fresh job at `start` on, without priority
inheritance. Time does not go back, every time of the run lies in half the clock's
range from `base` on, and only states in `chargeable` are charged. -/
inductive DeadlineRun (policy : DeadlinePolicy)
    (chargeable : DeadlineServerState → Prop) (base start : SchedulerTimestamp) :
    ServerMoment → Prop
  | fresh {server : DeadlineServerState}
      (ran : new.activate start policy false = some server)
      (within : Within base schedulerTimeHalfRange (start :: server.times)) :
      DeadlineRun policy chargeable base start ⟨server, 0, start⟩
  | activate {moment : ServerMoment} {server : DeadlineServerState}
      {now : SchedulerTimestamp} (run : DeadlineRun policy chargeable base start moment)
      (later : offset base moment.now ≤ offset base now)
      (ran : moment.server.activate now policy false = some server)
      (within : Within base schedulerTimeHalfRange (now :: server.times)) :
      DeadlineRun policy chargeable base start ⟨server, moment.charged, now⟩
  | charge {moment : ServerMoment} {server : DeadlineServerState}
      {runtimeNs : Nat} {throttled : Bool} (run : DeadlineRun policy chargeable base start moment)
      (allowed : chargeable moment.server)
      (bounded : moment.charged + runtimeNs < schedulerTimeHalfRange)
      (ran : moment.server.charge policy runtimeNs 0 = (server, throttled)) :
      DeadlineRun policy chargeable base start ⟨server, moment.charged + runtimeNs, moment.now⟩
  | yieldJob {moment : ServerMoment} (run : DeadlineRun policy chargeable base start moment)
      (runnable : moment.server.state = .runnable) :
      DeadlineRun policy chargeable base start ⟨moment.server.yieldJob, moment.charged, moment.now⟩
  | replenish {moment : ServerMoment} {server : DeadlineServerState}
      {now : SchedulerTimestamp} (run : DeadlineRun policy chargeable base start moment)
      (later : offset base moment.now ≤ offset base now) (onTime : OnTime policy moment.server now)
      (ran : moment.server.replenish now policy = some server)
      (within : Within base schedulerTimeHalfRange
        (now :: (moment.server.postponedDeadline policy).toList ++ server.times)) :
      DeadlineRun policy chargeable base start ⟨server, moment.charged, now⟩

/-- A job that has yielded does not run until its release. -/
def notYielded (server : DeadlineServerState) : Prop := server.state ≠ .throttled .yielded

/-- The reserved share of the time until the next period covers the runtime charged
and the runtime left. -/
def WithinBandwidth (policy : DeadlinePolicy) (base start : SchedulerTimestamp)
    (moment : ServerMoment) : Prop :=
  ∃ nextPeriod, moment.server.nextPeriod = some nextPeriod ∧ (policy.periodNs : Int) *
        (moment.charged + moment.server.remainingRuntimeNs) ≤
      policy.runtimeNs * ((offset base nextPeriod : Int) - offset base start)

variable {policy : DeadlinePolicy}

theorem Balanced.near {base start absoluteDeadline nextPeriod : SchedulerTimestamp}
    {charged : Nat} {server : DeadlineServerState}
    (balanced : Balanced policy base start charged server absoluteDeadline nextPeriod)
    (within : Within base schedulerTimeHalfRange server.times) :
    offset base absoluteDeadline < schedulerTimeHalfRange ∧
      offset base nextPeriod < schedulerTimeHalfRange := by
  unfold times at within
  rw [balanced.deadline_eq, balanced.period_eq] at within
  exact ⟨within absoluteDeadline (by simp), within nextPeriod (by simp)⟩

private theorem times_charge {server server' : DeadlineServerState} {runtimeNs reclaimedNs : Nat}
    {throttled : Bool} (ran : server.charge policy runtimeNs reclaimedNs = (server', throttled)) :
    server'.times = server.times := by
  unfold charge at ran
  dsimp only at ran
  split_ifs at ran <;> rw [Prod.mk.injEq] at ran <;>
    rcases ran with ⟨rfl, _⟩ <;> rfl

theorem DeadlineRun.inBalance {base start : SchedulerTimestamp}
    {moment : ServerMoment} (run : DeadlineRun policy notYielded base start moment) :
    Within base schedulerTimeHalfRange moment.server.times ∧
      InBalance policy base start moment.charged moment.server := by
  induction run with
  | fresh ran within =>
    have near := within start (by simp)
    refine ⟨within.subset (by simp), inBalance_startFreshJob near ?_ ran⟩
    simp
  | activate run later ran within ih =>
    rcases ih with ⟨stored, absoluteDeadline, nextPeriod, balanced⟩
    rcases balanced.near stored with ⟨nearDeadline, nearPeriod⟩
    exact ⟨within.subset (by simp),
      balanced.activate (within _ (by simp)) nearDeadline nearPeriod ran⟩
  | charge run allowed bounded ran ih =>
    rcases ih with ⟨stored, absoluteDeadline, nextPeriod, balanced⟩
    rw [times_charge ran]
    exact ⟨stored, absoluteDeadline, nextPeriod, balanced.charge allowed bounded ran⟩
  | yieldJob run runnable ih =>
    rcases ih with ⟨stored, absoluteDeadline, nextPeriod, balanced⟩
    exact ⟨stored, absoluteDeadline, nextPeriod, balanced.throttled runnable .yielded⟩
  | replenish run later onTime ran within ih =>
    rcases ih with ⟨stored, absoluteDeadline, nextPeriod, balanced⟩
    rcases balanced.near stored with ⟨nearDeadline, nearPeriod⟩
    refine ⟨within.subset (by simp), balanced.replenish (within _ (by simp))
      nearDeadline nearPeriod ?_ onTime ran⟩
    intro postponed found
    exact within postponed (by simp [found])

/-- The server never grants more than its reserved share, as long as a job that has
yielded is not charged before its release. -/
theorem DeadlineRun.withinBandwidth {policy : DeadlinePolicy} {base start : SchedulerTimestamp}
    {moment : ServerMoment} (run : DeadlineRun policy notYielded base start moment) :
    WithinBandwidth policy base start moment := by
  rcases run.inBalance with ⟨_, _, nextPeriod, balanced⟩
  exact ⟨nextPeriod, balanced.period_eq, balanced.bound⟩

def tenthPolicy : DeadlinePolicy where
  runtimeNs := 10
  deadlineNs := 100
  periodNs := 100
  flags := .none
  runtime_pos := Nat.succ_pos 9
  runtime_le_deadline := Nat.le_add_right 10 90
  deadline_le_period := Nat.le_refl 100
  period_short := by
    unfold schedulerTimeHalfRange
    omega

/-- The server of `tenthPolicy` in the period from `release` on. -/
def tenthServer (release : SchedulerTimestamp) (remainingRuntimeNs : Int)
    (state : DeadlineJobState) (overruns : Nat) : DeadlineServerState where
  absoluteDeadline := some (release + 100)
  nextPeriod := some (release + 100)
  remainingRuntimeNs := remainingRuntimeNs
  state := state
  overruns := overruns

theorem tenthPolicy_onTime (server : DeadlineServerState)
    (now : SchedulerTimestamp) : OnTime tenthPolicy server now :=
  fun constrained => absurd constrained (lt_irrefl 100)

/-- A server that overruns its first job pays the debt out of the next period. -/
theorem tenthServer_overrun : DeadlineRun tenthPolicy notYielded 0 0
        ⟨tenthServer 100 5 .runnable 1, 15, 100⟩ ∧
      WithinBandwidth tenthPolicy 0 0 ⟨tenthServer 100 5 .runnable 1, 15, 100⟩ := by
  have activated : new.activate 0 tenthPolicy false = some (tenthServer 0 10 .runnable 0) := by
    decide +kernel
  have charges : (tenthServer 0 10 .runnable 0).charge tenthPolicy 15 0 =
      (tenthServer 0 (-5) (.throttled .runtimeExhausted) 1, true) := by
    decide +kernel
  have replenished : (tenthServer 0 (-5) (.throttled .runtimeExhausted) 1).replenish
      100 tenthPolicy = some (tenthServer 100 5 .runnable 1) := by
    decide +kernel
  have first : DeadlineRun tenthPolicy notYielded 0 0 ⟨tenthServer 0 10 .runnable 0, 0, 0⟩ :=
    .fresh activated (by decide +kernel)
  have spent : DeadlineRun tenthPolicy notYielded 0 0
      ⟨tenthServer 0 (-5) (.throttled .runtimeExhausted) 1, 15, 0⟩ :=
    .charge first DeadlineJobState.noConfusion (by decide +kernel) charges
  have run : DeadlineRun tenthPolicy notYielded 0 0 ⟨tenthServer 100 5 .runnable 1, 15, 100⟩ :=
    .replenish spent (by decide +kernel) (tenthPolicy_onTime _ _) replenished (by decide +kernel)
  exact ⟨run, run.withinBandwidth⟩

/-- A charge between a yield and the release is forgotten by the release. -/
theorem tenthServer_charged_after_yield : DeadlineRun tenthPolicy (fun _ => True) 0 0
        ⟨tenthServer 100 10 .runnable 0, 14, 100⟩ ∧
      ¬ WithinBandwidth tenthPolicy 0 0 ⟨tenthServer 100 10 .runnable 0, 14, 100⟩ := by
  have activated : new.activate 0 tenthPolicy false = some (tenthServer 0 10 .runnable 0) := by
    decide +kernel
  have charges : (tenthServer 0 10 .runnable 0).charge tenthPolicy 9 0 =
      (tenthServer 0 1 .runnable 0, false) := by
    decide +kernel
  have chargesAgain : (tenthServer 0 0 (.throttled .yielded) 0).charge
      tenthPolicy 5 0 = (tenthServer 0 (-5) (.throttled .yielded) 0, true) := by
    decide +kernel
  have released : (tenthServer 0 (-5) (.throttled .yielded) 0).replenish
      100 tenthPolicy = some (tenthServer 100 10 .runnable 0) := by
    decide +kernel
  constructor
  · have first : DeadlineRun tenthPolicy (fun _ => True) 0 0 ⟨tenthServer 0 10 .runnable 0, 0, 0⟩ :=
      .fresh activated (by decide +kernel)
    have spent : DeadlineRun tenthPolicy (fun _ => True) 0 0 ⟨tenthServer 0 1 .runnable 0, 9, 0⟩ :=
      .charge first trivial (by decide +kernel) charges
    have ended : DeadlineRun tenthPolicy (fun _ => True) 0 0
        ⟨tenthServer 0 0 (.throttled .yielded) 0, 9, 0⟩ :=
      .yieldJob spent rfl
    have charged : DeadlineRun tenthPolicy (fun _ => True) 0 0
        ⟨tenthServer 0 (-5) (.throttled .yielded) 0, 14, 0⟩ :=
      .charge ended trivial (by decide +kernel) chargesAgain
    exact .replenish charged (by decide +kernel) (tenthPolicy_onTime _ _)
      released (by decide +kernel)
  · rintro ⟨nextPeriod, found, bound⟩
    simp only [tenthServer, some.injEq] at found
    subst found
    revert bound
    decide +kernel

end TgosKits
