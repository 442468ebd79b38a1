import TgosKits.Sched.PiRuns

/-! # The fixpoint of priority inheritance -/

namespace TgosKits

open Relation PiWaitTree SchedulePolicy SchedulingUrgency Fintype

variable {Thread Mutex : Type} [LinearOrder Thread]

/-! ## Urgencies -/

theorem SchedulingUrgency.lt_iff {urgency other : SchedulingUrgency} :
    urgency < other ↔ urgency.classRank < other.classRank ∨
      urgency.classRank = other.classRank ∧ urgency.primary < other.primary := by
  change order urgency < order other ↔ _
  rw [order, order, Prod.Lex.toLex_lt_toLex]

theorem PiWaitKey.urgency_le {key other : PiWaitKey Thread} (le : key ≤ other) :
    key.urgency ≤ other.urgency := by
  change order key ≤ order other at le
  rw [order, order, Prod.Lex.toLex_le_toLex] at le
  rcases le with less | ⟨same, _⟩
  · exact less.le
  · exact same.le

theorem SchedulePolicy.piWaitUrgency_mono {policy other : SchedulePolicy}
    (le : policy.schedulingUrgency ≤ other.schedulingUrgency) :
    policy.piWaitUrgency ≤ other.piWaitUrgency := by
  unfold piWaitUrgency
  rw [← not_lt, lt_iff] at le
  split_ifs with high otherHigh
  · exact le_refl _
  · omega
  · rw [← not_lt, lt_iff]
    dsimp only
    omega
  · rwa [← not_lt, lt_iff]

private theorem piInheritedPolicy_of_lt {base donor : SchedulePolicy}
    (lt : donor.schedulingUrgency < base.schedulingUrgency) :
    ∃ inherited, piInheritedPolicy base donor = some inherited ∧
      inherited.piWaitUrgency = donor.piWaitUrgency := by
  rw [lt_iff] at lt
  cases donor with
  | fair nice mode =>
    cases base with
    | fair baseNice baseMode => exact ⟨_, rfl, rfl⟩
    | fifo | roundRobin =>
      simp only [schedulingUrgency] at lt
      omega
  | fifo | roundRobin => cases base <;> exact ⟨_, rfl, rfl⟩

omit [LinearOrder Thread] in
private theorem piWaitUrgency_resolvedPiScheduleUpdate {base : SchedulePolicy}
    {key : PiWaitKey Thread} {donation : PiDonation Thread}
    (boost : donation.boostUrgency = donation.policy.schedulingUrgency) :
    (resolvedPiScheduleUpdate base (some (key, donation))).1.piWaitUrgency =
      min base.piWaitUrgency donation.policy.piWaitUrgency := by
  unfold resolvedPiScheduleUpdate
  dsimp only
  rw [boost]
  by_cases lt : donation.policy.schedulingUrgency < base.schedulingUrgency
  · rcases piInheritedPolicy_of_lt lt with ⟨inherited, found, same⟩
    rw [if_pos lt, found, min_eq_right (piWaitUrgency_mono lt.le)]
    exact same
  · rw [if_neg lt, min_eq_left (piWaitUrgency_mono (not_lt.mp lt))]

namespace PiSystem

variable {system : PiSystem Thread Mutex}

/-- The urgency of a thread against its own base policy and its top donor. -/
theorem Linked.effectivePiWaitUrgency_eq (linked : system.Linked) (thread : Thread) :
    firstEntry (system.threads thread).donors = none ∧
        (system.threads thread).effectivePiWaitUrgency =
          (system.threads thread).base.piWaitUrgency ∨
      ∃ key donation lock, firstEntry (system.threads thread).donors = some (key, donation) ∧
          (system.mutexes lock).word.owner = some thread ∧
          (system.mutexes lock).waiters.get? key = some donation ∧
          (system.threads thread).effectivePiWaitUrgency =
            min (system.threads thread).base.piWaitUrgency key.urgency := by
  have scheduled := linked.scheduled thread
  have effective := congrArg Prod.fst scheduled
  dsimp only at effective
  unfold PiThread.effectivePiWaitUrgency
  rw [effective]
  cases first : firstEntry (system.threads thread).donors with
  | none => exact .inl ⟨rfl, rfl⟩
  | some entry =>
    right
    rcases entry with ⟨key, donation⟩
    have held := (firstEntry_eq_some_iff.mp first).1
    rcases (linked.donors thread key donation).mp held with ⟨lock, isOwner, isTop⟩
    have bound := (firstEntry_eq_some_iff.mp isTop).1
    rcases linked.exists_waits bound with ⟨_, _, waits⟩
    refine ⟨key, donation, lock, rfl, isOwner, bound, ?_⟩
    have urgencyEq : key.urgency = donation.policy.piWaitUrgency := waits.urgency_eq
    rw [piWaitUrgency_resolvedPiScheduleUpdate waits.boost_eq, urgencyEq]

theorem Settled.key_urgency (settled : system.Settled) {lock : Mutex}
    {key : PiWaitKey Thread} {donation : PiDonation Thread}
    (bound : (system.mutexes lock).waiters.get? key = some donation) :
    key.urgency = (system.threads key.thread).effectivePiWaitUrgency := by
  rcases settled.linked.registered lock key donation bound with ⟨generation, blocked⟩
  exact (settled.fresh key.thread _ blocked).1

private theorem Settled.le_of_waitsFor (settled : system.Settled)
    {waiter holder : Thread} (waits : system.WaitsFor waiter holder) :
    (system.threads holder).effectivePiWaitUrgency ≤
      (system.threads waiter).effectivePiWaitUrgency := by
  have linked := settled.linked
  rcases waits with ⟨lock, isBlocked, isOwner⟩
  rcases Option.map_eq_some_iff.mp isBlocked with ⟨registration, blocked, rfl⟩
  rcases linked.waits waiter registration blocked with ⟨donation, waits⟩
  have fresh := (settled.fresh waiter registration blocked).1
  cases top : firstEntry (system.mutexes registration.lock).waiters with
  | none =>
    cases (firstEntry_eq_none_iff.mp top _).symm.trans waits.bound
  | some entry =>
    have topLe := (firstEntry_eq_some_iff.mp top).2 _ _ waits.bound
    have held := (linked.donors holder entry.1 entry.2).mpr ⟨registration.lock, isOwner, top⟩
    rcases linked.effectivePiWaitUrgency_eq holder with ⟨empty, _⟩ |
      ⟨key, _, _, first, _, _, effective⟩
    · cases (firstEntry_eq_none_iff.mp empty _).symm.trans held
    have firstLe : key ≤ entry.1 := (firstEntry_eq_some_iff.mp first).2 _ _ held
    calc (system.threads holder).effectivePiWaitUrgency ≤ key.urgency := by
          rw [effective]
          exact min_le_right _ _
      _ ≤ entry.1.urgency := PiWaitKey.urgency_le firstLe
      _ ≤ registration.key.urgency := PiWaitKey.urgency_le topLe
      _ = (system.threads waiter).effectivePiWaitUrgency := fresh

structure AtFixpoint (system : PiSystem Thread Mutex) : Prop where
  acyclic : ∀ thread, ¬ TransGen system.WaitsFor thread thread
  donors : ∀ thread key donation, (system.threads thread).donors.get? key = some donation ↔
      ∃ lock, (system.mutexes lock).word.owner = some thread ∧
        firstEntry (system.mutexes lock).waiters = some (key, donation)
  waiting : ∀ thread registration, (system.threads thread).blockedOn = some registration →
      registration.key.thread = thread ∧
        contains (system.mutexes registration.lock).waiters registration.key = true
  keys : ∀ lock key donation, (system.mutexes lock).waiters.get? key = some donation →
      key.urgency = (system.threads key.thread).effectivePiWaitUrgency ∧
        system.blockedLock key.thread = some lock
  inherited : ∀ thread, IsLeast {urgency | ∃ waiter, ReflTransGen system.WaitsFor waiter thread ∧
        (system.threads waiter).base.piWaitUrgency = urgency}
      (system.threads thread).effectivePiWaitUrgency

theorem Settled.atFixpoint [Finite Thread] (settled : system.Settled) : system.AtFixpoint where
  acyclic := settled.ranked.acyclic
  donors := settled.linked.donors
  waiting := by
    intro thread registration blocked
    rcases settled.linked.waits thread registration blocked with ⟨donation, waits⟩
    refine ⟨waits.key_thread, ?_⟩
    simp [contains, waits.bound]
  keys := by
    intro lock key donation bound
    rcases settled.linked.registered lock key donation bound with ⟨generation, blocked⟩
    exact ⟨settled.key_urgency bound, by simp [blockedLock, blocked]⟩
  inherited := by
    have own : ∀ thread, (system.threads thread).effectivePiWaitUrgency ≤
        (system.threads thread).base.piWaitUrgency := by
      intro thread
      rcases settled.linked.effectivePiWaitUrgency_eq thread with ⟨_, effective⟩ |
        ⟨key, _, _, _, _, _, effective⟩
      · exact effective.le
      · rw [effective]
        exact min_le_left _ _
    have attained : ∀ thread, (system.threads thread).effectivePiWaitUrgency =
          (system.threads thread).base.piWaitUrgency ∨
        ∃ waiter, system.WaitsFor waiter thread ∧ (system.threads thread).effectivePiWaitUrgency =
            (system.threads waiter).effectivePiWaitUrgency := by
      intro thread
      rcases settled.linked.effectivePiWaitUrgency_eq thread with ⟨_, effective⟩ |
        ⟨key, donation, lock, _, isOwner, bound, effective⟩
      · exact .inl effective
      rcases min_choice (system.threads thread).base.piWaitUrgency key.urgency with least | least
      · exact .inl (effective.trans least)
      right
      rcases settled.linked.registered lock key donation bound with ⟨generation, blocked⟩
      refine ⟨key.thread, ⟨lock, by simp [blockedLock, blocked], isOwner⟩, ?_⟩
      rw [effective, least]
      exact settled.key_urgency bound
    exact settled.ranked.isLeast_inherited own
      (fun _ _ waits => settled.le_of_waitsFor waits) attained

/-! ## Runs -/

def initial (policies : Thread → SchedulePolicy) : PiSystem Thread Mutex where
  threads := fun thread =>
    { base := policies thread
      effective := policies thread
      donor := none
      donors := SortedMap.empty
      blockedOn := none
      waitState := ⟨0, 0⟩ }
  mutexes := fun _ => ⟨⟨none, false⟩, SortedMap.empty⟩

theorem settled_initial (policies : Thread → SchedulePolicy) :
    (initial policies : PiSystem Thread Mutex).Settled where
  linked :=
    { waits := by simp [initial]
      registered := by simp [initial]
      word := fun _ => rfl
      donors := by simp [initial]
      scheduled := fun _ => rfl }
  ranked := ⟨fun _ => 0, fun _ _ waits => absurd waits (not_waitsFor_of_free rfl)⟩
  fresh := fun _ => fresh_of_free rfl

section

variable [DecidableEq Mutex] {config : PiConfig} {call : PiCall Thread Mutex}

/-- The systems between the calls of a run whose calls do not overlap. -/
inductive Reachable (config : PiConfig) (policies : Thread → SchedulePolicy) :
    PiSystem Thread Mutex → Prop where
  | start : Reachable config policies (initial policies)
  | call {system after : PiSystem Thread Mutex} {call : PiCall Thread Mutex}
      {result : Except PiError (PiReturn Thread Mutex)} :
      Reachable config policies system →
      Completes config system call result after → Reachable config policies after

variable [Fintype Thread] {before system : PiSystem Thread Mutex}

section

variable (capacity : card Thread ≤ config.threadCapacity)
include capacity

theorem runCall_invariant (settled : before.Settled) (steps : Nat) {phase : PiPhase Thread Mutex}
    (invariant : PhaseInvariant config before call system phase) :
    PhaseInvariant config before call (runCall config steps (system, phase)).1
      (runCall config steps (system, phase)).2 := by
  induction steps generalizing system phase with
  | zero => exact invariant
  | succ steps ih =>
    rw [runCall]
    apply ih
    by_cases running : phaseMeasure config phase = 0
    · cases phase with
      | done result => exact invariant
      | fatal code => exact invariant
      | _ => exact absurd running (by simp [phaseMeasure])
    · exact (callStep_progress settled capacity invariant running).1

private theorem exists_runCall_done (settled : before.Settled) {phase : PiPhase Thread Mutex}
    (invariant : PhaseInvariant config before call system phase) :
    ∃ steps result after, runCall config steps (system, phase) = (after, .done result) := by
  induction bound : phaseMeasure config phase using Nat.strong_induction_on
    generalizing system phase with
  | _ bound ih =>
    by_cases running : phaseMeasure config phase = 0
    · cases phase with
      | done result => exact ⟨0, result, system, rfl⟩
      | fatal code => exact absurd invariant (by simp [PhaseInvariant])
      | _ => exact absurd running (by simp [phaseMeasure])
    have progress := callStep_progress settled capacity invariant running
    have less := progress.2
    rw [bound] at less
    rcases ih _ less progress.1 rfl with ⟨steps, result, after, ran⟩
    exact ⟨steps + 1, result, after, ran⟩

theorem Completes.returned {after : PiSystem Thread Mutex}
    {result : Except PiError (PiReturn Thread Mutex)} (settled : system.Settled)
    (completes : Completes config system call result after) :
    Returned system after call result := by
  rcases completes with ⟨steps, ran⟩
  have invariant : PhaseInvariant config system call system (.start call) := ⟨rfl, rfl⟩
  have kept := runCall_invariant capacity settled steps invariant
  rw [ran] at kept
  exact kept

theorem Reachable.settled {policies : Thread → SchedulePolicy}
    (reachable : Reachable config policies system) : system.Settled := by
  induction reachable with
  | start => exact settled_initial policies
  | call _ completes ih =>
    exact (completes.returned capacity ih).settled

end

/-- Every call returns, and it leaves the system at the fixpoint. A contender that
is rejected leaves no trace in the trees and the policies, and it is only rejected
as a cycle if its registration would have closed one. -/
theorem Reachable.call_atFixpoint {policies : Thread → SchedulePolicy}
    {system : PiSystem Thread Mutex} (capacity : card Thread ≤ config.threadCapacity)
    (reachable : Reachable config policies system) (call : PiCall Thread Mutex) :
    (∃ result after, Completes config system call result after) ∧
      ∀ result after, Completes config system call result after → after.AtFixpoint ∧
          ∀ lock waiter sequence, call = .lockSlow lock waiter sequence →
            (result = .error .piCycle ∨ (∃ limit, result = .error (.piChainLimit limit)) →
              Unchanged system after) ∧
            (result = .error .piCycle → system.ClosesCycle lock waiter) := by
  have settled := reachable.settled capacity
  constructor
  · have invariant : PhaseInvariant config system call system (.start call) := ⟨rfl, rfl⟩
    rcases exists_runCall_done capacity settled invariant with ⟨steps, result, after, ran⟩
    exact ⟨result, after, steps, ran⟩
  · intro result after completes
    have returned := completes.returned capacity settled
    refine ⟨returned.settled.atFixpoint, ?_⟩
    intro lock waiter sequence isLock
    refine ⟨?_, fun isCycle => returned.cycle isCycle lock waiter sequence isLock⟩
    rintro (isCycle | ⟨limit, isLimit⟩)
    · exact returned.unchanged _ isCycle
    · exact returned.unchanged _ isLimit

end

/-! ## Two threads in each other's way -/

def urgentPolicy : SchedulePolicy := .fifo ⟨50, by decide, by decide⟩

def lesserPolicy : SchedulePolicy := .roundRobin ⟨10, by decide, by decide⟩ 1000

def crossedPolicies (thread : Fin 2) : SchedulePolicy :=
  if thread = 0 then urgentPolicy else lesserPolicy

def crossedConfig : PiConfig :=
  { piChainLimit := 8
    threadCapacity := 2 }

def crossedAfter (system : PiSystem (Fin 2) (Fin 2))
    (call : PiCall (Fin 2) (Fin 2)) : PiSystem (Fin 2) (Fin 2) :=
  (runCall crossedConfig 12 (system, .start call)).1

def bothOwners : PiSystem (Fin 2) (Fin 2) :=
  crossedAfter (crossedAfter (initial crossedPolicies) (.lockSlow 0 0 0)) (.lockSlow 1 1 1)

/-- The first thread waits for the mutex of the second one. -/
def crossed : PiSystem (Fin 2) (Fin 2) := crossedAfter bothOwners (.lockSlow 1 0 2)

theorem reachable_crossed : Reachable crossedConfig crossedPolicies crossed := by
  have first : Completes crossedConfig (initial crossedPolicies) (.lockSlow 0 0 0) (.ok .acquired)
      (crossedAfter (initial crossedPolicies) (.lockSlow 0 0 0)) := ⟨12, rfl⟩
  have second : Completes crossedConfig (crossedAfter (initial crossedPolicies) (.lockSlow 0 0 0))
      (.lockSlow 1 1 1) (.ok .acquired) bothOwners := ⟨12, rfl⟩
  have third : Completes crossedConfig bothOwners (.lockSlow 1 0 2)
      (.ok (.waiting ⟨0, 1, 1⟩)) crossed := ⟨12, rfl⟩
  exact ((Reachable.start.call first).call second).call third

/-- The second thread cannot wait for the first one. -/
theorem crossed_call_rejected : (card (Fin 2) ≤ crossedConfig.threadCapacity ∧
        Reachable crossedConfig crossedPolicies crossed) ∧
      (crossedAfter crossed (.lockSlow 0 1 3)).AtFixpoint ∧
      Unchanged crossed (crossedAfter crossed (.lockSlow 0 1 3)) ∧
      crossed.ClosesCycle 0 1 := by
  have capacity : card (Fin 2) ≤ crossedConfig.threadCapacity := by decide
  have completes : Completes crossedConfig crossed (.lockSlow 0 1 3)
      (.error .piCycle) (crossedAfter crossed (.lockSlow 0 1 3)) := ⟨12, rfl⟩
  have returned := (Reachable.call_atFixpoint capacity reachable_crossed
    (.lockSlow 0 1 3)).2 _ _ completes
  have rejected := returned.2 0 1 3 rfl
  exact ⟨⟨capacity, reachable_crossed⟩, returned.1, rejected.1 (.inl rfl), rejected.2 rfl⟩

end PiSystem

end TgosKits
