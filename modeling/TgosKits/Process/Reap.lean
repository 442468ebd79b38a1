import Mathlib.Data.List.Basic

/-!
# Reaping a process

The life of a process in its PID identity, and any number of concurrent calls of
`reap_process`.
-/

namespace TgosKits

open List

variable {Snapshot : Type}

inductive ProcessLifecycle (Snapshot : Type) where
  | none
  | live (data : Nat)
  | zombie (snapshot : Snapshot)
  | reaping
  | reaped
  deriving DecidableEq, Repr

namespace ProcessLifecycle

/-- The way of a process: it lives, exits, is claimed and reaped. -/
inductive Next : ProcessLifecycle Snapshot → ProcessLifecycle Snapshot → Prop where
  | exit {data : Nat} {snapshot : Snapshot} : Next (live data) (zombie snapshot)
  | claim {snapshot : Snapshot} : Next (zombie snapshot) reaping
  | finish : Next reaping reaped

def isReaped : ProcessLifecycle Snapshot → Bool
  | reaping | reaped => true
  | _ => false

end ProcessLifecycle

structure PidIdentityState (Snapshot : Type) where
  process : Option Nat
  processLifecycle : ProcessLifecycle Snapshot

namespace PidIdentityState

variable (state : PidIdentityState Snapshot)

def matchesProcess (process : Nat) : Bool := state.process == some process

/-- The caller owns `expected`, so the weak reference to the same data can be upgraded. -/
def publishZombie (expected : Nat) (zombie : Snapshot) :
    Except Snapshot (PidIdentityState Snapshot) :=
  match state.processLifecycle with
  | .live data =>
    if data = expected then .ok { state with processLifecycle := .zombie zombie }
    else .error zombie
  | _ => .error zombie

/-- The section of `claim_reap` behind `matches_process`. -/
def claimReap : Option Snapshot × PidIdentityState Snapshot :=
  let replaced := { state with processLifecycle := .reaping }
  match state.processLifecycle with
  | .zombie zombie => (some zombie, replaced)
  | _ => (none, replaced)

def finishReap : Option (PidIdentityState Snapshot) :=
  match state.processLifecycle with
  | .reaping => some ⟨none, .reaped⟩
  | _ => none

variable {state}

theorem lifecycle_claimReap : state.claimReap.2.processLifecycle = .reaping := by
  unfold claimReap
  split <;> rfl

theorem claimReap_eq_some_iff {zombie : Snapshot} :
    state.claimReap.1 = some zombie ↔ state.processLifecycle = .zombie zombie := by
  cases lives : state.processLifecycle <;> simp [claimReap, lives]

theorem finishReap_eq_some_iff {next : PidIdentityState Snapshot} :
    state.finishReap = some next ↔ state.processLifecycle = .reaping ∧ next = ⟨none, .reaped⟩ := by
  cases lives : state.processLifecycle <;> simp [finishReap, lives, eq_comm]

end PidIdentityState

inductive ReapStage (Snapshot : Type) where
  | compare
  | claim
  | retire (zombie : Snapshot)
  | finish (zombie : Snapshot)
  | returned (zombie : Option Snapshot)
  deriving DecidableEq, Repr

inductive ReapEvent (Snapshot : Type) where
  | publishZombie (expected : Nat) (zombie : Snapshot)
  | advance (call : Nat)
  | lookup

/-- One identity, the calls on it and the processes they want to reap. -/
structure ReapMachine (Snapshot : Type) where
  identity : PidIdentityState Snapshot
  stages : Nat → ReapStage Snapshot
  expected : Nat → Nat

namespace ReapMachine

section

variable (machine : ReapMachine Snapshot)

def lifecycle : ProcessLifecycle Snapshot := machine.identity.processLifecycle

def setStage (call : Nat) (stage : ReapStage Snapshot) : ReapMachine Snapshot :=
  { machine with stages := Function.update machine.stages call stage }

def advance (call : Nat) : Option (ReapMachine Snapshot) :=
  match machine.stages call with
  | .compare =>
    if machine.identity.matchesProcess (machine.expected call) then
      some (machine.setStage call .claim)
    else some (machine.setStage call (.returned none))
  | .claim =>
    let (zombie, identity) := machine.identity.claimReap
    let machine := { machine with identity }
    match zombie with
    | some zombie => some (machine.setStage call (.retire zombie))
    | none => some (machine.setStage call (.returned none))
  -- The topology of processes has locks of its own.
  | .retire zombie => some (machine.setStage call (.finish zombie))
  | .finish zombie =>
    machine.identity.finishReap.map fun identity =>
      setStage { machine with identity } call (.returned (some zombie))
  | .returned _ => none

def step : ReapEvent Snapshot → Option (ReapMachine Snapshot)
  | .publishZombie expected zombie =>
    match machine.identity.publishZombie expected zombie with
    | .ok identity => some { machine with identity }
    | .error _ => some machine
  | .advance call => machine.advance call
  | .lookup => some machine

end

/-- A process that has been bound to the identity, before any call. -/
def bound (process data : Nat) (expected : Nat → Nat) : ReapMachine Snapshot :=
  ⟨⟨some process, .live data⟩, fun _ => .compare, expected⟩

end ReapMachine

structure ReapTransition (Snapshot : Type) where
  before : ReapMachine Snapshot
  event : ReapEvent Snapshot
  after : ReapMachine Snapshot

namespace ReapTransition

variable (transition : ReapTransition Snapshot)

/-- What `claim_reap` returns from its second section. -/
def claimed : Option (Option Snapshot) :=
  match transition.event with
  | .advance call =>
    match transition.before.stages call with
    | .claim => some transition.before.identity.claimReap.1
    | _ => none
  | _ => none

def finishes : Bool :=
  match transition.event with
  | .advance call =>
    match transition.before.stages call with
    | .finish _ => true
    | _ => false
  | _ => false

def succeeds : Bool := transition.claimed.any Option.isSome

end ReapTransition

namespace ReapMachine

variable {machine after final : ReapMachine Snapshot} {event : ReapEvent Snapshot}
  {transitions : List (ReapTransition Snapshot)}

inductive Run (machine : ReapMachine Snapshot) : List (ReapTransition Snapshot) →
    ReapMachine Snapshot → Prop where
  | start : Run machine [] machine
  | next {before after transitions} (run : Run machine transitions before)
      (event : ReapEvent Snapshot) (stepped : before.step event = some after) :
      Run machine (transitions ++ [⟨before, event, after⟩]) after

/-- The process moves forward in its life; a call claims it from a zombie or changes
nothing, and one call has claimed it when it is being reaped; behind `finish_reap` it is
reaped for ever. -/
structure ReapedOnce (transitions : List (ReapTransition Snapshot))
    (final : ReapMachine Snapshot) : Prop where
  forward : ∀ transition ∈ transitions, transition.after.lifecycle = transition.before.lifecycle ∨
      transition.before.lifecycle.Next transition.after.lifecycle
  refused : ∀ transition ∈ transitions, transition.claimed = some none →
    transition.after.lifecycle = transition.before.lifecycle
  granted : ∀ transition ∈ transitions, ∀ zombie, transition.claimed = some (some zombie) →
    transition.before.lifecycle = .zombie zombie
  once : transitions.countP ReapTransition.succeeds = if final.lifecycle.isReaped then 1 else 0
  forever : ∀ transition ∈ transitions,
    transition.finishes = true ∨ transition.before.lifecycle = .reaped →
      transition.after.lifecycle = .reaped

theorem step_effect (stepped : machine.step event = some after) :
    let transition : ReapTransition Snapshot := ⟨machine, event, after⟩
    (transition.claimed = none ∧ transition.finishes = false ∧
      (after.lifecycle = machine.lifecycle ∨
        ∃ data zombie, machine.lifecycle = .live data ∧ after.lifecycle = .zombie zombie)) ∨
    (transition.claimed = some machine.identity.claimReap.1 ∧ transition.finishes = false ∧
      after.lifecycle = .reaping) ∨
    transition.claimed = none ∧ transition.finishes = true ∧ machine.lifecycle = .reaping ∧
      after.lifecycle = .reaped := by
  cases event with
  | publishZombie expected zombie =>
    refine .inl ⟨rfl, rfl, ?_⟩
    simp only [step, PidIdentityState.publishZombie] at stepped
    cases lives : machine.identity.processLifecycle with
    | live data =>
      rw [lives] at stepped
      dsimp only at stepped
      split_ifs at stepped
      · cases stepped
        exact .inr ⟨data, zombie, lives, rfl⟩
      · cases stepped
        exact .inl rfl
    | _ =>
      rw [lives] at stepped
      cases stepped
      exact .inl rfl
  | lookup =>
    cases stepped
    exact .inl ⟨rfl, rfl, .inl rfl⟩
  | advance call =>
    simp only [step, advance] at stepped
    cases stage : machine.stages call with
    | claim =>
      refine .inr (.inl ⟨by simp [ReapTransition.claimed, stage],
        by simp [ReapTransition.finishes, stage], ?_⟩)
      rw [stage] at stepped
      dsimp only at stepped
      split at stepped <;> cases stepped <;> exact PidIdentityState.lifecycle_claimReap
    | finish zombie =>
      refine .inr (.inr ⟨by simp [ReapTransition.claimed, stage],
        by simp [ReapTransition.finishes, stage], ?_⟩)
      rw [stage] at stepped
      rcases Option.map_eq_some_iff.mp stepped with ⟨next, finished, rfl⟩
      rcases PidIdentityState.finishReap_eq_some_iff.mp finished with ⟨claimed, rfl⟩
      exact ⟨claimed, rfl⟩
    | compare =>
      refine .inl ⟨by simp [ReapTransition.claimed, stage],
        by simp [ReapTransition.finishes, stage], .inl ?_⟩
      simp only [stage] at stepped
      split_ifs at stepped <;> cases stepped <;> rfl
    | retire zombie =>
      simp only [stage] at stepped
      cases stepped
      exact .inl ⟨by simp [ReapTransition.claimed, stage],
        by simp [ReapTransition.finishes, stage], .inl rfl⟩
    | returned zombie => simp [stage] at stepped

/-- A section of `claim_reap` finds a zombie, or a process that is being reaped. -/
def InTime (transition : ReapTransition Snapshot) : Prop :=
  transition.claimed ≠ none → transition.before.lifecycle = .reaping ∨
    ∃ zombie, transition.before.lifecycle = .zombie zombie

theorem step_inTime (stepped : machine.step event = some after)
    (inTime : InTime ⟨machine, event, after⟩) :
    let transition : ReapTransition Snapshot := ⟨machine, event, after⟩
    (after.lifecycle = machine.lifecycle ∨ machine.lifecycle.Next after.lifecycle) ∧
    (transition.claimed = some none → after.lifecycle = machine.lifecycle) ∧
    (transition.finishes = true ∨ machine.lifecycle = .reaped → after.lifecycle = .reaped) ∧
    ((if transition.succeeds then 1 else 0) + if machine.lifecycle.isReaped then 1 else 0) =
      if after.lifecycle.isReaped then 1 else 0 := by
  rcases step_effect stepped with ⟨quiet, still, same | ⟨data, zombie, lives, exits⟩⟩ |
    ⟨claims, still, isReaping⟩ | ⟨quiet, finishes, isReaping, isReaped⟩
  · simp [ReapTransition.succeeds, quiet, still, same]
  · simp [ReapTransition.succeeds, quiet, still, lives, exits, ProcessLifecycle.isReaped,
      ProcessLifecycle.Next.exit]
  · rcases inTime (by simp [claims]) with before | ⟨zombie, before⟩
    · have lives : machine.identity.processLifecycle = .reaping := before
      have refused : machine.identity.claimReap.1 = none := by
        simp [PidIdentityState.claimReap, lives]
      simp [ReapTransition.succeeds, claims, still, refused, before, isReaping]
    · have granted := PidIdentityState.claimReap_eq_some_iff.mpr before
      simp [ReapTransition.succeeds, claims, still, granted, before, isReaping,
        ProcessLifecycle.isReaped, ProcessLifecycle.Next.claim]
  · simp [ReapTransition.succeeds, quiet, isReaping, isReaped, ProcessLifecycle.isReaped,
      ProcessLifecycle.Next.finish]

theorem Run.stepped (run : Run machine transitions final) :
    ∀ transition ∈ transitions, transition.before.step transition.event = some transition.after :=
      by
  induction run with
  | start => simp
  | next _ event stepped ih =>
    exact forall_mem_append.mpr ⟨ih, forall_mem_singleton.mpr stepped⟩

theorem Run.once (run : Run machine transitions final)
    (inTime : ∀ transition ∈ transitions, InTime transition) :
    (transitions.countP ReapTransition.succeeds + if machine.lifecycle.isReaped then 1 else 0) =
      if final.lifecycle.isReaped then 1 else 0 := by
  induction run with
  | start => simp
  | next _ event stepped ih =>
    rw [forall_mem_append, forall_mem_singleton] at inTime
    have counted := (step_inTime stepped inTime.2).2.2.2
    rw [← counted, ← ih inTime.1, countP_append, countP_singleton]
    omega

/-- The process is reaped once exactly if each call takes the lifecycle of a zombie or
of a process that is being reaped. -/
theorem reapedOnce_iff {process data : Nat} {expected : Nat → Nat}
    (run : Run (bound process data expected) transitions final) :
    ReapedOnce transitions final ↔ ∀ transition ∈ transitions, InTime transition := by
  constructor
  · intro reaped transition member claims
    rcases step_effect (run.stepped transition member) with
      ⟨quiet, _⟩ | ⟨claimed, _, isReaping⟩ | ⟨quiet, _⟩
    · exact absurd quiet claims
    · cases result : transition.before.identity.claimReap.1 with
      | none =>
        rw [result] at claimed
        exact .inl ((reaped.refused transition member claimed).symm.trans isReaping)
      | some zombie => exact .inr ⟨zombie, PidIdentityState.claimReap_eq_some_iff.mp result⟩
    · exact absurd quiet claims
  · intro inTime
    have keeps := fun transition member =>
      step_inTime (run.stepped transition member) (inTime transition member)
    refine ⟨fun transition member => (keeps transition member).1,
      fun transition member => (keeps transition member).2.1, ?_, run.once inTime,
      fun transition member => (keeps transition member).2.2.1⟩
    intro transition member zombie claimed
    rcases step_effect (run.stepped transition member) with ⟨quiet, _⟩ | ⟨granted, _⟩ | ⟨quiet, _⟩
    · exact absurd (quiet.symm.trans claimed) (by simp)
    · exact PidIdentityState.claimReap_eq_some_iff.mp (Option.some.inj (granted.symm.trans claimed))
    · exact absurd (quiet.symm.trans claimed) (by simp)

def seventh : ReapMachine Unit := bound 7 1 fun _ => 7

/-- Two calls compare the process while it is a zombie. One of them reaps it before the
other takes its lifecycle, and then it is being reaped again. -/
theorem lateClaim_not_reapedOnce : ∃ transitions final,
    Run seventh transitions final ∧ ¬ ReapedOnce transitions final := by
  have begun : Run seventh [] seventh := .start
  have run := (((((begun.next (.publishZombie 1 ()) rfl).next (.advance 0) rfl).next
    (.advance 1) rfl).next (.advance 0) rfl).next (.advance 0) rfl).next (.advance 0) rfl
  refine ⟨_, _, run.next (.advance 1) rfl, fun reaped => ?_⟩
  exact nomatch reaped.refused _ (mem_append_right _ (mem_singleton_self _)) rfl

theorem soleClaim_reapedOnce : ∃ transitions final,
    Run seventh transitions final ∧ final.lifecycle = .reaping ∧ ReapedOnce transitions final := by
  have begun : Run seventh [] seventh := .start
  have run := ((begun.next (.publishZombie 1 ()) rfl).next (.advance 0) rfl).next (.advance 0) rfl
  refine ⟨_, _, run, rfl, (reapedOnce_iff run).mpr ?_⟩
  simp only [nil_append, cons_append, forall_mem_cons]
  exact ⟨(absurd rfl ·), (absurd rfl ·), fun _ => .inr ⟨(), rfl⟩, by simp⟩

end ReapMachine

end TgosKits
