import TgosKits.Sched.PiRollback

/-! # Calls that do not overlap -/

namespace TgosKits

open Relation WaitGraph List PiWalk Option

variable {Thread Mutex : Type} [LinearOrder Thread]

namespace PiSystem

variable {before system : PiSystem Thread Mutex}

structure Returned (before system : PiSystem Thread Mutex) (call : PiCall Thread Mutex)
    (result : Except PiError (PiReturn Thread Mutex)) : Prop where
  settled : system.Settled
  unchanged : ∀ error, result = .error error → Unchanged before system
  cycle : result = .error .piCycle → ∀ lock waiter sequence,
    call = .lockSlow lock waiter sequence → before.ClosesCycle lock waiter

theorem Returned.of_ok {call : PiCall Thread Mutex}
    {result : PiReturn Thread Mutex} (settled : system.Settled) :
    Returned before system call (.ok result) where
  settled := settled
  unchanged := by simp
  cycle := by simp

theorem Returned.of_unchanged {call : PiCall Thread Mutex}
    {result : Except PiError (PiReturn Thread Mutex)} (settled : before.Settled)
    (notLock : ∀ lock waiter sequence, call ≠ .lockSlow lock waiter sequence) :
    Returned before before call result where
  settled := settled
  unchanged := fun _ _ => .refl before
  cycle := fun _ lock waiter sequence isLock => absurd isLock (notLock lock waiter sequence)

theorem Returned.of_refused {call : PiCall Thread Mutex} {error : PiError}
    (settled : before.Settled) (notCycle : error ≠ .piCycle) :
    Returned before before call (.error error) where
  settled := settled
  unchanged := fun _ _ => .refl before
  cycle := fun isCycle => absurd (Except.error.inj isCycle) notCycle

def PhaseInvariant (config : PiConfig) (before : PiSystem Thread Mutex)
    (call : PiCall Thread Mutex) (system : PiSystem Thread Mutex) : PiPhase Thread Mutex → Prop
  | .start started => started = call ∧ system = before
  | .register lock waiter key donation =>
    system = before ∧ (before.threads waiter).blockedOn = none ∧
      ∃ sequence, call = .lockSlow lock waiter sequence ∧
        key = ⟨(before.threads waiter).effectivePiWaitUrgency, sequence, waiter⟩ ∧
        donation = before.piDonation waiter
  | .lockWalk token walk =>
    (∃ sequence, call = .lockSlow token.lock token.thread sequence) ∧
      Pursuing config before system token walk
  | .rollback token error =>
    (∃ sequence, call = .lockSlow token.lock token.thread sequence) ∧
      Rejected before system token error
  | .rollbackWalk error walk =>
    (∃ lock waiter sequence, call = .lockSlow lock waiter sequence ∧
        (error = .piCycle → before.ClosesCycle lock waiter)) ∧
      ∃ remaining last, Restoring config before system walk remaining last
  | .cancelWalk walk => Cleaning config system walk
  | .releaseWalk walk => Cleaning config system walk
  | .claimWalk walk => Cleaning config system walk
  | .policyRefresh thread => system.SettledBut thread
  | .policyWalk walk => Cleaning config system walk
  | .done result => Returned before system call result
  | .fatal _ => False

/-- A bound on the sections that a call has left. -/
def phaseMeasure (config : PiConfig) : PiPhase Thread Mutex → Nat
  | .start _ => 2 * config.piChainLimit + 2 * config.threadCapacity + 6
  | .register _ _ _ _ => 2 * config.piChainLimit + 2 * config.threadCapacity + 5
  | .lockWalk _ walk => walkMeasure walk + 2 * config.threadCapacity + 3
  | .rollback _ _ => 2 * config.threadCapacity + 2
  | .policyRefresh _ => 2 * config.threadCapacity + 2
  | .rollbackWalk _ walk => walkMeasure walk + 1
  | .cancelWalk walk => walkMeasure walk + 1
  | .releaseWalk walk => walkMeasure walk + 1
  | .claimWalk walk => walkMeasure walk + 1
  | .policyWalk walk => walkMeasure walk + 1
  | .done _ => 0
  | .fatal _ => 0

/-- The next section keeps the promise of its phase and leaves less to do. -/
def Progress (config : PiConfig) (before : PiSystem Thread Mutex)
    (call : PiCall Thread Mutex) (bound : Nat)
    (next : PiSystem Thread Mutex × PiPhase Thread Mutex) : Prop :=
  PhaseInvariant config before call next.1 next.2 ∧ phaseMeasure config next.2 < bound

omit [LinearOrder Thread] in
theorem walkMeasure_recomputePiCleanupChain (config : PiConfig) (start topTask : Thread) :
    walkMeasure (recomputePiCleanupChain config start topTask :
      PiWalk Thread Mutex) = 2 * config.threadCapacity := by
  simp [walkMeasure, recomputePiCleanupChain]

variable {config : PiConfig} {call : PiCall Thread Mutex}
  {token : PiWaitToken Thread Mutex} {lock : Mutex} {thread : Thread}

/-! ## Walks -/

section

variable [DecidableEq Mutex] {walk : PiWalk Thread Mutex}

theorem Cleaning.progress [Fintype Thread] {again : PiWalk Thread Mutex → PiPhase Thread Mutex}
    {result : PiReturn Thread Mutex} (capacity : Fintype.card Thread ≤ config.threadCapacity)
    (invariant : ∀ {system' further}, Cleaning config system' further →
      PhaseInvariant config before call system' (again further))
    (measure : ∀ further, phaseMeasure config (again further) = walkMeasure further + 1)
    (failed : PiError → PiPhase Thread Mutex) (cleaning : Cleaning config system walk) :
    Progress config before call (walkMeasure walk + 1) ((walk.step system).1,
        .afterWalk again failed result (walk.step system).2) := by
  rcases cleaning.step capacity with ⟨walked, ran, settled⟩ |
    ⟨walked, further, ran, cleaning', less⟩
  · rw [ran]
    refine ⟨.of_ok settled, ?_⟩
    exact Nat.succ_pos _
  rw [ran]
  refine ⟨invariant cleaning', ?_⟩
  rw [PiPhase.afterWalk, measure]
  omega

theorem Pursuing.progress (settled : before.Settled) {sequence : Nat}
    (isCall : call = .lockSlow token.lock token.thread sequence)
    (pursuing : Pursuing config before system token walk) :
    Progress config before call (walkMeasure walk + 2 * config.threadCapacity + 3)
      (system.callStep config (.lockWalk token walk)) := by
  unfold callStep
  dsimp only
  rcases pursuing.step settled with ⟨walked, ran, settled'⟩ |
    ⟨walked, error, ran, rejected⟩ | ⟨walked, further, ran, pursuing', less⟩
  · rw [ran]
    refine ⟨.of_ok settled', ?_⟩
    exact Nat.succ_pos _
  · rw [ran]
    refine ⟨⟨⟨sequence, isCall⟩, rejected⟩, ?_⟩
    simp only [PiPhase.afterWalk, phaseMeasure]
    omega
  rw [ran]
  refine ⟨⟨⟨sequence, isCall⟩, pursuing'⟩, ?_⟩
  simp only [PiPhase.afterWalk, phaseMeasure]
  omega

theorem Restoring.progress [Fintype Thread] (settled : before.Settled)
    (capacity : Fintype.card Thread ≤ config.threadCapacity) {error : PiError} {waiter : Thread}
    {sequence : Nat} (isCall : call = .lockSlow lock waiter sequence)
    (cycle : error = .piCycle → before.ClosesCycle lock waiter) {remaining : List Thread}
    {last : Thread} (restoring : Restoring config before system walk remaining last) :
    Progress config before call (walkMeasure walk + 1)
      (system.callStep config (.rollbackWalk error walk)) := by
  unfold callStep
  dsimp only
  rcases restoring.step settled capacity with ⟨walked, ran, restored⟩ |
    ⟨walked, further, remaining', ran, restoring', less⟩
  · rw [ran]
    refine ⟨?_, Nat.succ_pos _⟩
    exact
      { settled := restored.settled settled
        unchanged := fun _ _ => restored.unchanged settled
        cycle := by
          intro isCycle lock' waiter' sequence' isCall'
          cases isCall.symm.trans isCall'
          exact cycle (Except.error.inj isCycle) }
  · rw [ran]
    refine ⟨⟨⟨lock, waiter, sequence, isCall, cycle⟩, remaining', last, restoring'⟩, ?_⟩
    simp only [phaseMeasure]
    omega

end

/-! ## The sections before a walk -/

section

variable {inserted removed released : PiSystem Thread Mutex}

section

variable (settled : system.Settled) (rearranged : Rearranged system inserted lock thread)
  (fresh : inserted.Fresh thread)
include settled rearranged fresh

theorem Rearranged.fresh_of_not_owner {other : Thread}
    (notOwner : (system.mutexes lock).word.owner ≠ some other) : inserted.Fresh other := by
  by_cases same : other = thread
  · exact same ▸ fresh
  · exact (settled.fresh other).congr (rearranged.entries other same)
      (rearranged.schedule other notOwner)

end

theorem Rearranged.advancing {registration : PiWaitRegistration Thread Mutex} {owner : Thread}
    (settled : system.Settled) (free : (system.threads token.thread).blockedOn = none)
    (rearranged : Rearranged system inserted token.lock token.thread)
    (blocked : (inserted.threads token.thread).blockedOn = some registration)
    (lockEq : registration.lock = token.lock)
    (generationEq : registration.generation = token.generation)
    (fresh : inserted.Fresh token.thread)
    (isOwner : (system.mutexes token.lock).word.owner = some owner)
    (notOwner : owner ≠ token.thread) : Advancing system inserted token [] owner where
  registration := ⟨registration, blocked, lockEq, generationEq⟩
  free := free
  toKeeps := rearranged.toKeeps
  places := rearranged.places
  chain := isChain_singleton owner
  head := ⟨owner, isOwner, rfl⟩
  apart := by simpa using notOwner.symm
  entries := fun other _ ne => rearranged.entries other ne
  fresh := fun _ ne =>
    rearranged.fresh_of_not_owner settled fresh (by simpa [isOwner] using ne.symm)

section

variable (rearranged : Rearranged system removed lock thread)
  (free : (removed.threads thread).blockedOn = none)
include rearranged free

theorem Rearranged.waitsFor_of_removed (waiter holder : Thread)
    (edge : removed.WaitsFor waiter holder) : system.WaitsFor waiter holder := by
  have waiterNe : waiter ≠ thread := by
    rintro rfl
    exact not_waitsFor_of_free free edge
  exact (rearranged.toKeeps.waitsFor_iff (rearranged.places waiter waiterNe)).mp edge

theorem Rearranged.settledBut {owner : Thread} (settled : system.Settled)
    (onlyOwner : ∀ other, (system.mutexes lock).word.owner = some other → other = owner) :
    removed.SettledBut owner where
  linked := rearranged.linked
  ranked := settled.ranked.mono (rearranged.waitsFor_of_removed free)
  fresh := fun other ne => rearranged.fresh_of_not_owner settled (fresh_of_free free)
    fun isOwner => ne (onlyOwner other isOwner)

end

theorem Released.waitsFor_of_released
    (changes : Released system released lock thread) (waiter holder : Thread)
    (edge : released.WaitsFor waiter holder) : system.WaitsFor waiter holder := by
  rcases edge with ⟨place, blocked, isOwner⟩
  have placeNe : place ≠ lock := by
    rintro rfl
    cases changes.owner.symm.trans isOwner
  rw [changes.owners place placeNe] at isOwner
  rw [blockedLock_eq_of_waitEntry (changes.entries waiter)] at blocked
  exact ⟨place, blocked, isOwner⟩

theorem Released.settledBut (settled : system.Settled)
    (changes : Released system released lock thread) : released.SettledBut thread where
  linked := changes.linked
  ranked := settled.ranked.mono changes.waitsFor_of_released
  fresh := fun other ne => (settled.fresh other).congr (changes.entries other)
    (changes.schedule other ne)

theorem apart_of_edge {waiter holder : Thread} (ranked : Ranked before.WaitsFor)
    (edge : before.WaitsFor waiter holder)
    (gone : ∀ waiter holder, system.WaitsFor waiter holder → before.WaitsFor waiter holder) :
    ¬ TransGen system.WaitsFor holder waiter :=
  fun path => ranked.acyclic holder ((TransGen.mono gone _ _ path).tail edge)

theorem Claimed.settled {claimed : PiSystem Thread Mutex}
    (settled : system.Settled) (changes : Claimed system claimed lock thread) :
    claimed.Settled where
  linked := changes.linked
  ranked := by
    refine settled.ranked.add_sink (fun _ => not_waitsFor_of_free changes.free) ?_
    rintro waiter holder edge
    have waiterNe : waiter ≠ thread := by
      rintro rfl
      exact not_waitsFor_of_free changes.free edge
    rcases edge with ⟨place, blocked, isOwner⟩
    by_cases same : place = lock
    · right
      rw [same] at isOwner
      exact some.inj (isOwner.symm.trans changes.owner)
    left
    rw [changes.owners place same] at isOwner
    rw [blockedLock_eq_of_waitEntry (changes.entries waiter waiterNe)] at blocked
    exact ⟨place, blocked, isOwner⟩
  fresh := by
    intro other
    by_cases same : other = thread
    · exact same ▸ fresh_of_free changes.free
    · exact (settled.fresh other).congr (changes.entries other same) (changes.schedule other same)

theorem Settled.setThreadPolicy (settled : system.Settled) (policy : SchedulePolicy) :
    (system.setThreadPolicy thread policy).SettledBut thread where
  linked := settled.linked.setThreadPolicy policy
  ranked := by
    refine settled.ranked.mono ?_
    rintro waiter holder ⟨place, blocked, isOwner⟩
    have same : (system.setThreadPolicy thread policy).blockedLock waiter = _ :=
      blockedLock_eq_of_waitEntry (waitEntry_setThread (by rfl) waiter)
    exact ⟨place, same.symm.trans blocked, isOwner⟩
  fresh := by
    intro other ne
    refine (settled.fresh other).congr (waitEntry_setThread (by rfl) other) ?_
    unfold PiSystem.setThreadPolicy
    rw [setThread_of_ne _ ne]
    exact ⟨rfl, rfl, rfl, rfl⟩

variable [DecidableEq Mutex]

theorem Settled.setOwner (settled : system.Settled)
    (empty : PiWaitTree.isEmpty (system.mutexes lock).waiters = true)
    (owner : Option Thread) : (system.setWord lock ⟨owner, false⟩).Settled where
  linked := settled.linked.setOwner empty owner
  ranked := by
    refine settled.ranked.mono ?_
    rintro waiter holder ⟨place, blockedLock, isOwner⟩
    refine ⟨place, blockedLock, ?_⟩
    have placeNe : place ≠ lock := by
      rintro rfl
      rcases Option.map_eq_some_iff.mp blockedLock with ⟨found, blocked, lockEq⟩
      rcases settled.linked.waits waiter found blocked with ⟨donation, waits⟩
      rw [← lockEq, PiWaitTree.isEmpty_of_bound waits.bound] at empty
      cases empty
    rwa [setWord_of_ne _ placeNe] at isOwner
  fresh := fun thread => (settled.fresh thread).congr (waitEntry_setWord _ _) ⟨rfl, rfl, rfl, rfl⟩

theorem register_progress (settled : system.Settled) {sequence : Nat}
    (isCall : call = .lockSlow lock thread sequence)
    (free : (system.threads thread).blockedOn = none) :
    Progress config system call (2 * config.piChainLimit + 2 * config.threadCapacity + 5)
      (system.lockSlowRegister config lock thread
        ⟨(system.threads thread).effectivePiWaitUrgency, sequence, thread⟩
        (system.piDonation thread)) := by
  have word := settled.linked.word lock
  cases inUse : (system.mutexes lock).word.isUnlocked with
  | true =>
    have unlocked := inUse
    unfold PiMutexWord.isUnlocked at unlocked
    rw [word] at unlocked
    simp only [Bool.not_not, Bool.and_eq_true, isNone_iff_eq_none] at unlocked
    unfold lockSlowRegister
    rw [if_pos inUse, if_neg (by simp [unlocked.2])]
    refine ⟨.of_ok (settled.setOwner unlocked.2 _), ?_⟩
    exact Nat.succ_pos _
  | false =>
    by_cases isOwner : (system.mutexes lock).word.owner = some thread
    · unfold lockSlowRegister
      rw [if_neg (by simp [inUse]), if_pos isOwner]
      exact ⟨.of_refused settled (by simp), Nat.succ_pos _⟩
    rcases lockSlowRegister_insert settled.linked config system sequence free inUse isOwner with
      ⟨inserted, ran, rearranged, blocked, whenSame⟩
    have fresh := whenSame rfl
    rw [ran]
    have blockedLock : inserted.blockedLock thread = some lock := by
      simp [PiSystem.blockedLock, blocked, newRegistration]
    cases ownerEq : (system.mutexes lock).word.owner with
    | none =>
      refine ⟨.of_ok ⟨rearranged.linked, settled.ranked.mono ?_, fun _ =>
        rearranged.fresh_of_not_owner settled fresh (by simp [ownerEq])⟩, Nat.succ_pos _⟩
      rintro waiter holder ⟨place, waits, isOwner⟩
      rw [rearranged.owners] at isOwner
      by_cases same : waiter = thread
      · subst same
        cases blockedLock.symm.trans waits
        cases ownerEq.symm.trans isOwner
      · rw [blockedLock_eq_of_waitEntry (rearranged.entries waiter same)] at waits
        exact ⟨place, waits, isOwner⟩
    | some owner =>
      have notOwner : owner ≠ thread := by
        rintro rfl
        exact isOwner ownerEq
      let token : PiWaitToken Thread Mutex :=
        ⟨thread, lock, (system.threads thread).waitState.generation + 1⟩
      have advancing : Advancing system inserted token [] owner :=
        Rearranged.advancing settled free rearranged blocked rfl rfl fresh ownerEq notOwner
      rw [bind_some]
      cases next : system.blockedLock owner with
      | none =>
        have ownerFree : inserted.Fresh owner := by
          apply fresh_of_blockedLock
          rw [blockedLock_eq_of_waitEntry (rearranged.entries owner notOwner)]
          exact next
        have settled' : inserted.Settled := by
          refine advancing.settled_of_end settled (.refl advancing.linked ownerFree) ?_
          intro other waits
          exact absurd waits (not_waitsFor_of_free (free_of_blockedLock next))
        exact ⟨.of_ok settled', Nat.succ_pos _⟩
      | some nextLock =>
        refine ⟨⟨⟨sequence, isCall⟩, ?_⟩, ?_⟩
        · exact
            { advancing := ⟨[], advancing, fun _ => rfl⟩
              origin := rfl
              top := rfl
              next := ⟨nextLock, rfl, next⟩
              limit := rfl }
        · simp only [lockSlowRegistered, phaseMeasure, walkMeasure, recomputePiChain, if_true]
          omega

theorem Rejected.progress {error : PiError} (settled : before.Settled) {sequence : Nat}
    (isCall : call = .lockSlow token.lock token.thread sequence)
    (rejected : Rejected before system token error) :
    Progress config before call (2 * config.threadCapacity + 2)
      (system.callStep config (.rollback token error)) := by
  rcases rejected with ⟨⟨visited, current, advancing⟩, cycle⟩
  rcases advancing.registration with ⟨registration, blocked, lockEq, generationEq⟩
  rcases advancing.head with ⟨owner, isOwner, isHead⟩
  rcases removeRegisteredWaiter_ok advancing.linked blocked lockEq generationEq
    (by simp : ¬ (false = true ∧ _)) with ⟨removed, ran, rearranged, free⟩
  rw [advancing.owners, isOwner] at ran
  have nodup := settled.ranked.nodup_of_isChain advancing.chain
  have entryFree : removed.waitEntry token.thread = before.waitEntry token.thread := by
    unfold waitEntry
    rw [free, advancing.free]
    rfl
  have entries : ∀ other, other ∉ visited → removed.waitEntry other = before.waitEntry other := by
    intro other notMember
    by_cases same : other = token.thread
    · exact same ▸ entryFree
    · rw [rearranged.entries other same]
      exact advancing.entries other notMember same
  have places : ∀ other, removed.place other = before.place other := by
    intro other
    by_cases same : other = token.thread
    · exact same ▸ place_eq_of_waitEntry entryFree
    · exact (rearranged.places other same).trans (advancing.places other same)
  have restoring : Restoring config before removed
      (recomputePiCleanupChain config owner token.thread) visited
      current :=
    { roams_recomputePiCleanupChain config owner token.thread with
      restored :=
        { toKeeps := advancing.toKeeps.trans rearranged.toKeeps
          places := places
          chain := advancing.chain
          entries := entries }
      fresh := by
        intro other member
        have memberVisited := mem_of_mem_tail member
        have otherNe : other ≠ token.thread := by
          rintro rfl
          exact advancing.apart (mem_append_left _ memberVisited)
        have notCurrent : other ≠ current := by
          rintro rfl
          rw [nodup_append] at nodup
          exact nodup.2.2 other memberVisited other (by simp) rfl
        refine (advancing.fresh other notCurrent).congr
          (rearranged.entries other otherNe) (rearranged.schedule other ?_)
        rw [advancing.owners, isOwner, ne_eq, some.injEq]
        rintro rfl
        cases visited with
        | nil => exact absurd member (by simp)
        | cons first visited =>
          rw [cons_append, head?_cons, some.injEq] at isHead
          subst isHead
          rw [cons_append, nodup_cons] at nodup
          exact nodup.1 (mem_append_left _ member)
      head := isHead
      apart := advancing.apart }
  unfold callStep lockSlowRollback
  dsimp only
  rw [ran]
  refine ⟨⟨⟨token.lock, token.thread, sequence, isCall, cycle⟩, visited, current, restoring⟩, ?_⟩
  simp only [phaseMeasure, walkMeasure_recomputePiCleanupChain]
  omega

section

variable (settled : system.Settled)
include settled

private theorem cancel_progress (isCall : call = .tryCancel token) :
    Progress config system call (2 * config.piChainLimit + 2 * config.threadCapacity + 6)
      (system.piWaitTryCancel config token) := by
  unfold piWaitTryCancel
  cases ran : system.removeRegisteredWaiter token true with
  | error error =>
    exact ⟨.of_unchanged settled (by simp [isCall]), Nat.succ_pos _⟩
  | ok removal =>
    cases removal with
    | none => exact ⟨.of_ok settled, Nat.succ_pos _⟩
    | some removal =>
      rcases removal with ⟨removed, owner⟩
      rcases removeRegisteredWaiter_some settled.linked ran with
        ⟨blocked, ownerEq, rearranged, free⟩
      cases owner with
      | none =>
        refine ⟨.of_ok ?_, Nat.succ_pos _⟩
        -- without an owner nobody can be out of date
        have settledBut : removed.SettledBut token.thread := by
          refine rearranged.settledBut free settled ?_
          intro other isOwner
          cases ownerEq.trans isOwner
        exact settledBut.settled (fresh_of_free free)
      | some owner =>
        have settledBut : removed.SettledBut owner := by
          refine rearranged.settledBut free settled ?_
          intro other isOwner
          exact some.inj (isOwner.symm.trans ownerEq.symm)
        have apart : ¬ TransGen removed.WaitsFor owner token.thread :=
          apart_of_edge settled.ranked ⟨token.lock, blocked, ownerEq.symm⟩
            (rearranged.waitsFor_of_removed free)
        refine ⟨cleaning_recomputePiCleanupChain config settledBut apart, ?_⟩
        simp only [phaseMeasure, walkMeasure_recomputePiCleanupChain]
        omega

private theorem release_progress (isCall : call = .release lock thread) :
    Progress config system call (2 * config.piChainLimit + 2 * config.threadCapacity + 6)
      (system.piMutexRelease config lock thread) := by
  rcases piMutexRelease_cases settled.linked config lock thread with ⟨error, ran⟩ |
    ⟨empty, ran⟩ | ⟨released, selected, isOwner, first, ran, changes⟩
  · rw [ran]
    exact ⟨.of_unchanged settled (by simp [isCall]), Nat.succ_pos _⟩
  · rw [ran]
    exact ⟨.of_ok (settled.setOwner empty none), Nat.succ_pos _⟩
  rw [ran]
  have apart : ¬ TransGen released.WaitsFor thread selected.1.thread := by
    rw [PiWaitTree.firstEntry_eq_some_iff] at first
    rcases settled.linked.exists_waits first.1 with ⟨generation, blocked, _⟩
    exact apart_of_edge settled.ranked ⟨lock, by simp [blockedLock, blocked], isOwner⟩
      changes.waitsFor_of_released
  refine ⟨cleaning_recomputePiCleanupChain config (changes.settledBut settled) apart, ?_⟩
  simp only [phaseMeasure, walkMeasure_recomputePiCleanupChain]
  omega

private theorem claim_progress (isCall : call = .claim token) :
    Progress config system call (2 * config.piChainLimit + 2 * config.threadCapacity + 6)
      (system.piMutexClaim config token) := by
  rcases piMutexClaim_cases config settled.linked token with ⟨result, ran⟩ |
    ⟨claimed, _, _, ran, changes⟩
  · rw [ran]
    exact ⟨.of_unchanged settled (by simp [isCall]), Nat.succ_pos _⟩
  rw [ran]
  have settled' := changes.settled settled
  have settledBut : claimed.SettledBut token.thread :=
    { settled' with fresh := fun other _ => settled'.fresh other }
  have apart : ¬ TransGen claimed.WaitsFor token.thread token.thread :=
    settled'.ranked.acyclic token.thread
  refine ⟨cleaning_recomputePiCleanupChain config settledBut apart, ?_⟩
  simp only [phaseMeasure, walkMeasure_recomputePiCleanupChain]
  omega

end

theorem SettledBut.progress (settled : system.SettledBut thread) :
    Progress config before call (2 * config.threadCapacity + 2)
      (system.propagatePolicyChange config thread) := by
  unfold propagatePolicyChange
  cases blocked : (system.threads thread).blockedOn with
  | none =>
    rw [refreshBlockedWaiterKey_free blocked none none none]
    exact ⟨.of_ok (settled.settled (fresh_of_free blocked)), Nat.succ_pos _⟩
  | some registration =>
    have blockedLock : system.blockedLock thread = some registration.lock := by
      simp [PiSystem.blockedLock, blocked]
    have notOwner : (system.mutexes registration.lock).word.owner ≠ some thread := by
      intro isOwner
      exact settled.ranked.acyclic thread (.single ⟨registration.lock, blockedLock, isOwner⟩)
    have expected : ∀ lock, (none : Option Mutex) = some lock → lock = registration.lock := by simp
    have passes : ¬ ((none : Option Mutex) = some registration.lock ∨
        (none : Option Thread).isSome ∧
          (system.mutexes registration.lock).word.owner = none) := by simp
    rcases refreshBlockedWaiterKey_spec blocked expected passes settled.linked
      notOwner with ⟨result, changed, wake, ran, changes, whenFresh, whenStale⟩
    rw [ran]
    cases isOwner : (system.mutexes registration.lock).word.owner with
    | none =>
      refine ⟨.of_ok ?_, Nat.succ_pos _⟩
      have settled' : result.SettledBut thread := by
        refine settled.requeued changes ?_
        intro other waits
        rw [waitsFor_iff_of_blocked blocked, isOwner] at waits
        cases waits
      exact settled'.settled changes.fresh
    | some owner =>
      dsimp only
      by_cases fresh : system.Fresh thread
      · rcases whenFresh fresh with ⟨rfl, rfl⟩
        exact ⟨.of_ok (settled.settled fresh), Nat.succ_pos _⟩
      have isChanged := whenStale fresh
      subst isChanged
      have ownerNe : owner ≠ thread := by
        rintro rfl
        exact notOwner isOwner
      have waits : system.WaitsFor thread owner := ⟨registration.lock, blockedLock, isOwner⟩
      have settled' : result.SettledBut owner :=
        settled.requeued changes (fun _ waits' => waits'.functional waits)
      have apart : ¬ TransGen result.WaitsFor owner thread :=
        apart_of_edge settled.ranked waits changes.waitsFor_of
      rw [if_neg (by simp), if_neg ownerNe]
      refine ⟨cleaning_recomputePiCleanupChain config settled' apart, ?_⟩
      simp only [phaseMeasure, walkMeasure_recomputePiCleanupChain]
      omega

end

/-! ## Whole calls -/

variable [DecidableEq Mutex] [Fintype Thread]

/-- Each section of a call keeps the promise of its phase and leaves less to do. -/
theorem callStep_progress {phase : PiPhase Thread Mutex} (settled : before.Settled)
    (capacity : Fintype.card Thread ≤ config.threadCapacity)
    (invariant : PhaseInvariant config before call system phase)
    (running : phaseMeasure config phase ≠ 0) :
    Progress config before call (phaseMeasure config phase) (system.callStep config phase) := by
  cases phase with
  | start started =>
    rcases invariant with ⟨rfl, rfl⟩
    cases started with
    | lockSlow lock waiter sequence =>
      unfold callStep startCall lockSlowStart
      dsimp only
      cases blocked : (system.threads waiter).blockedOn with
      | some registration =>
        exact ⟨.of_refused settled (by simp), Nat.succ_pos _⟩
      | none =>
        rw [if_neg (by simp)]
        refine ⟨⟨rfl, blocked, sequence, rfl, rfl, rfl⟩, ?_⟩
        simp only [phaseMeasure]
        omega
    | tryCancel token => exact cancel_progress settled rfl
    | release lock oldOwner => exact release_progress settled rfl
    | claim token => exact claim_progress settled rfl
    | setPolicy thread policy =>
      refine ⟨settled.setThreadPolicy policy, ?_⟩
      simp only [callStep, startCall, phaseMeasure]
      omega
  | register lock waiter key donation =>
    rcases invariant with ⟨rfl, free, sequence, isCall, rfl, rfl⟩
    exact register_progress settled isCall free
  | lockWalk token walk =>
    rcases invariant with ⟨⟨sequence, isCall⟩, pursuing⟩
    exact pursuing.progress settled isCall
  | rollback token error =>
    rcases invariant with ⟨⟨sequence, isCall⟩, rejected⟩
    exact rejected.progress settled isCall
  | rollbackWalk error walk =>
    rcases invariant with ⟨⟨lock, waiter, sequence, isCall, cycle⟩, remaining, last, restoring⟩
    exact restoring.progress settled capacity isCall cycle
  | cancelWalk walk =>
    exact Cleaning.progress capacity id (fun _ => rfl) _ invariant
  | releaseWalk walk =>
    exact Cleaning.progress capacity id (fun _ => rfl) _ invariant
  | claimWalk walk =>
    exact Cleaning.progress capacity id (fun _ => rfl) _ invariant
  | policyRefresh thread => exact SettledBut.progress invariant
  | policyWalk walk =>
    exact Cleaning.progress capacity id (fun _ => rfl) _ invariant
  | done result => exact absurd rfl running
  | fatal code => exact absurd rfl running

def runCall (config : PiConfig) (steps : Nat)
    (state : PiSystem Thread Mutex × PiPhase Thread Mutex) :
    PiSystem Thread Mutex × PiPhase Thread Mutex :=
  (fun state => state.1.callStep config state.2)^[steps] state

/-- A call whose sections ran without another call in between. -/
def Completes (config : PiConfig) (system : PiSystem Thread Mutex) (call : PiCall Thread Mutex)
    (result : Except PiError (PiReturn Thread Mutex)) (after : PiSystem Thread Mutex) : Prop :=
  ∃ steps, runCall config steps (system, .start call) = (after, .done result)

end PiSystem

end TgosKits
