import TgosKits.Library.WaitGraph
import TgosKits.Sched.PiCalls

/-! # The walks of priority inheritance -/

namespace TgosKits

open Relation WaitGraph PiWalk

variable {Thread Mutex : Type} [LinearOrder Thread]

namespace PiSystem

variable {system : PiSystem Thread Mutex}

/-- The trees agree, nobody waits in a circle and no waiter is out of date. -/
structure Settled (system : PiSystem Thread Mutex) : Prop where
  linked : system.Linked
  ranked : Ranked system.WaitsFor
  fresh : ∀ thread, system.Fresh thread

/-- A settled system up to the urgency of one waiter. -/
structure SettledBut (system : PiSystem Thread Mutex) (thread : Thread) : Prop where
  linked : system.Linked
  ranked : Ranked system.WaitsFor
  fresh : ∀ other, other ≠ thread → system.Fresh other

variable {thread holder : Thread}

theorem SettledBut.settled (settled : system.SettledBut thread)
    (fresh : system.Fresh thread) : system.Settled where
  linked := settled.linked
  ranked := settled.ranked
  fresh := by
    intro other
    by_cases same : other = thread
    · exact same ▸ fresh
    · exact settled.fresh other same

theorem fresh_of_free (free : (system.threads thread).blockedOn = none) : system.Fresh thread := by
  intro registration blocked
  cases free.symm.trans blocked

theorem free_of_blockedLock (free : system.blockedLock thread = none) :
    (system.threads thread).blockedOn = none :=
  Option.map_eq_none_iff.mp free

theorem fresh_of_blockedLock (free : system.blockedLock thread = none) : system.Fresh thread :=
  fresh_of_free (free_of_blockedLock free)

theorem waitsFor_iff_of_blocked {registration : PiWaitRegistration Thread Mutex}
    (blocked : (system.threads thread).blockedOn = some registration) :
    system.WaitsFor thread holder ↔
      (system.mutexes registration.lock).word.owner = some holder := by
  unfold WaitsFor blockedLock
  rw [blocked]
  simp

theorem not_waitsFor_of_free (free : (system.threads thread).blockedOn = none) :
    ¬ system.WaitsFor thread holder := by
  rintro ⟨lock, blocked, _⟩
  rw [blockedLock, free] at blocked
  cases blocked

theorem SettledBut.requeued {requeued : PiSystem Thread Mutex}
    (settled : system.SettledBut thread) (changes : Requeued system requeued thread)
    (onlyHolder : ∀ other, system.WaitsFor thread other → other = holder) :
    requeued.SettledBut holder where
  linked := changes.linked
  ranked := settled.ranked.mono changes.waitsFor_of
  fresh := by
    intro other ne
    exact changes.fresh_of_not_waitsFor (settled.fresh other)
      (fun waits => ne (onlyHolder other waits))

def walkMeasure (walk : PiWalk Thread Mutex) : Nat :=
  2 * (walk.limit + 1 - walk.depth) + if walk.unverified then 1 else 0

variable {walk : PiWalk Thread Mutex} {config : PiConfig}

/-- A walk without an origin that has come along a chain of waiters. -/
structure Roams (config : PiConfig) (system : PiSystem Thread Mutex)
    (walk : PiWalk Thread Mutex) : Prop where
  origin : walk.originLock = none
  verified : walk.unverified = false
  limit : walk.limit = config.threadCapacity
  next : ∀ lock, walk.nextLock = some lock → system.blockedLock walk.current = some lock
  chain : ∃ visited : List Thread, visited.IsChain system.WaitsFor ∧
    visited.getLast? = some walk.current ∧ visited.length = walk.depth

theorem roams_recomputePiCleanupChain (config : PiConfig) (start topTask : Thread) :
    Roams config system (recomputePiCleanupChain config start topTask) where
  origin := rfl
  verified := rfl
  limit := rfl
  next := by simp [recomputePiCleanupChain]
  chain := ⟨[start], List.isChain_singleton start, rfl, rfl⟩

section

variable (roams : Roams config system walk)
include roams

theorem Roams.advance {owner : Thread} (waits : system.WaitsFor walk.current owner)
    {nextLock : Option Mutex}
    (next : ∀ lock, nextLock = some lock → system.blockedLock owner = some lock) :
    Roams config system
      { walk with
        current := owner
        nextLock := nextLock
        depth := walk.depth + 1 } := by
  rcases roams.chain with ⟨visited, chain, isLast, length⟩
  exact
    { roams with
      next := next
      chain := ⟨visited ++ [owner], isChain_append_singleton chain isLast waits, by simp,
        by simp [length]⟩ }

theorem Roams.congr {other : PiSystem Thread Mutex} (keeps : Keeps system other)
    (places : ∀ thread, other.place thread = system.place thread) : Roams config other walk := by
  rcases roams.chain with ⟨visited, chain, ends⟩
  exact
    { roams with
      next := fun lock isNext => (blockedLock_eq_of_place (places _)).trans (roams.next lock isNext)
      chain := ⟨visited, chain.imp fun waiter _ edge =>
        (keeps.waitsFor_iff (places waiter)).mpr edge, ends⟩ }

end

/-- A walk after a removal, a release or a change of policy. -/
structure Cleaning (config : PiConfig) (system : PiSystem Thread Mutex)
    (walk : PiWalk Thread Mutex) : Prop extends Roams config system walk where
  settled : system.SettledBut walk.current
  apart : ¬ TransGen system.WaitsFor walk.current walk.topTask

theorem cleaning_recomputePiCleanupChain {start topTask : Thread} (config : PiConfig)
    (settled : system.SettledBut start) (apart : ¬ TransGen system.WaitsFor start topTask) :
    Cleaning config system (recomputePiCleanupChain config start topTask) :=
  ⟨roams_recomputePiCleanupChain config start topTask, settled, apart⟩

variable [DecidableEq Mutex]

theorem walkStep_refresh {refreshed : PiSystem Thread Mutex}
    {refresh : PiWaiterRefresh Thread Mutex} (inLimit : walk.depth ≤ walk.limit)
    (verified : walk.unverified = false)
    (ran : system.refreshBlockedWaiterKey walk.current walk.nextLock
      walk.originLock (walk.originLock.map (fun _ => walk.topTask)) = (refreshed, .ok refresh)) :
    walk.step system = (refreshed, walk.follow refresh) := by
  unfold step
  rw [if_neg (by omega), if_neg (by simp [verified]), ran]

/-- A step of such a walk ends it at a waiter with its present urgency, or requeues
the waiter and goes on to the owner if that is blocked too. -/
theorem Roams.step [Fintype Thread] (capacity : Fintype.card Thread ≤ config.threadCapacity)
    (roams : Roams config system walk) (linked : system.Linked) (ranked : Ranked system.WaitsFor)
    (apart : ¬ system.Fresh walk.current → ¬ system.WaitsFor walk.current walk.topTask) :
    system.Fresh walk.current ∧ walk.step system = (system, .finished (.ok ())) ∨
      ¬ system.Fresh walk.current ∧ ∃ result, Requeued system result walk.current ∧
          ((∀ owner, system.WaitsFor walk.current owner → system.blockedLock owner = none) ∧
              walk.step system = (result, .finished (.ok ())) ∨
            ∃ owner lock, system.WaitsFor walk.current owner ∧
              system.blockedLock owner = some lock ∧
              walk.depth < walk.limit ∧ walk.step system = (result, .more
                { walk with
                  current := owner
                  nextLock := some lock
                  depth := walk.depth + 1 })) := by
  rcases roams.chain with ⟨visited, chain, isLast, length⟩
  have bounded := (ranked.nodup_of_isChain chain).length_le_card
  have inLimit : walk.depth ≤ walk.limit := by
    rw [roams.limit]
    omega
  cases blocked : (system.threads walk.current).blockedOn with
  | none =>
    refine .inl ⟨fresh_of_free blocked, ?_⟩
    rw [walkStep_refresh inLimit roams.verified (refreshBlockedWaiterKey_free blocked _ _ _)]
    simp [follow, roams.origin]
  | some registration =>
    have blockedLock : system.blockedLock walk.current = some registration.lock := by
      simp [PiSystem.blockedLock, blocked]
    have expected : ∀ lock, walk.nextLock = some lock → lock = registration.lock :=
      fun lock isNext => Option.some.inj ((roams.next lock isNext).symm.trans blockedLock)
    have notOwner : (system.mutexes registration.lock).word.owner ≠ some walk.current := by
      intro isOwner
      exact ranked.acyclic walk.current (.single ⟨registration.lock, blockedLock, isOwner⟩)
    have passes : ¬ (walk.originLock = some registration.lock ∨
        (walk.originLock.map (fun _ => walk.topTask)).isSome ∧
          (system.mutexes registration.lock).word.owner =
            walk.originLock.map (fun _ => walk.topTask)) := by
      simp [roams.origin]
    rcases refreshBlockedWaiterKey_spec blocked expected passes linked
      notOwner with ⟨result, changed, wake, ran, changes, whenFresh, whenStale⟩
    have stepEq := walkStep_refresh inLimit roams.verified ran
    by_cases fresh : system.Fresh walk.current
    · refine .inl ⟨fresh, ?_⟩
      rcases whenFresh fresh with ⟨rfl, rfl⟩
      rw [stepEq]
      simp [follow, roams.origin]
    have isChanged := whenStale fresh
    subst isChanged
    refine .inr ⟨fresh, result, changes, ?_⟩
    cases isOwner : (system.mutexes registration.lock).word.owner with
    | none =>
      refine .inl ⟨?_, ?_⟩
      · intro owner waits
        rw [waitsFor_iff_of_blocked blocked, isOwner] at waits
        cases waits
      · rw [stepEq, isOwner]
        simp [follow]
    | some owner =>
      have waits : system.WaitsFor walk.current owner := ⟨registration.lock, blockedLock, isOwner⟩
      have notTop : owner ≠ walk.topTask := fun same => apart fresh (same ▸ waits)
      have longerBound := (ranked.nodup_of_isChain
        (isChain_append_singleton chain isLast waits)).length_le_card
      rw [List.length_append, List.length_singleton] at longerBound
      have notLimit : walk.depth ≠ walk.limit := by
        rw [roams.limit]
        omega
      rw [isOwner, Option.bind_some] at stepEq
      cases nextEq : system.blockedLock owner with
      | none =>
        refine .inl ⟨fun other waits' => ?_, ?_⟩
        · rw [waits'.functional waits, nextEq]
        · rw [stepEq, nextEq]
          simp [follow, notTop, notLimit]
      | some nextLock =>
        refine .inr ⟨owner, nextLock, waits, nextEq, by omega, ?_⟩
        rw [stepEq, nextEq]
        simp [follow, notTop, notLimit]

/-- Each step of a cleanup walk ends it in a settled system or carries the place that
may be out of date on to the owner. -/
theorem Cleaning.step [Fintype Thread] (capacity : Fintype.card Thread ≤ config.threadCapacity)
    (cleaning : Cleaning config system walk) :
    (∃ result, walk.step system = (result, .finished (.ok ())) ∧ result.Settled) ∨
      ∃ result further, walk.step system = (result, .more further) ∧
        Cleaning config result further ∧
        walkMeasure further < walkMeasure walk := by
  rcases cleaning.toRoams.step capacity cleaning.settled.linked cleaning.settled.ranked
    (fun _ waits => cleaning.apart (.single waits)) with ⟨fresh, ran⟩ |
    ⟨_, result, changes, ⟨ends, ran⟩ | ⟨owner, lock, waits, isLock, below, ran⟩⟩
  · exact .inl ⟨system, ran, cleaning.settled.settled fresh⟩
  · refine .inl ⟨result, ran, changes.linked, cleaning.settled.ranked.mono changes.waitsFor_of, ?_⟩
    intro other
    by_cases waits : system.WaitsFor walk.current other
    · apply fresh_of_blockedLock
      rw [blockedLock_eq_of_place (changes.places other)]
      exact ends other waits
    · exact changes.fresh_of_not_waitsFor (cleaning.settled.fresh other) waits
  · refine .inr ⟨result, _, ran, ?_, ?_⟩
    · refine ⟨(cleaning.toRoams.advance waits fun _ isNext => isLock.trans isNext).congr
        changes.toKeeps changes.places,
        cleaning.settled.requeued changes fun other waits' => waits'.functional waits, ?_⟩
      intro path
      have path' := TransGen.mono changes.waitsFor_of _ _ path
      exact cleaning.apart (.head waits path')
    · unfold walkMeasure
      dsimp only
      omega

end PiSystem

end TgosKits
