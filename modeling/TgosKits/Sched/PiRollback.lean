import TgosKits.Sched.PiWalks

/-! # Registration and rollback -/

namespace TgosKits

open Relation WaitGraph List PiWalk

variable {Thread Mutex : Type} [LinearOrder Thread]

namespace PiSystem

variable {before system : PiSystem Thread Mutex}

def ClosesCycle (system : PiSystem Thread Mutex) (lock : Mutex) (waiter : Thread) : Prop :=
  ∃ owner, (system.mutexes lock).word.owner = some owner ∧ ReflTransGen system.WaitsFor owner waiter

structure Unchanged (before system : PiSystem Thread Mutex) : Prop where
  waiters : ∀ lock, (system.mutexes lock).waiters = (before.mutexes lock).waiters
  schedule : ∀ thread, PiThread.SameSchedule (system.threads thread) (before.threads thread)

theorem Unchanged.refl (system : PiSystem Thread Mutex) : Unchanged system system where
  waiters := fun _ => rfl
  schedule := fun _ => ⟨rfl, rfl, rfl, rfl⟩

/-! ## The walk after a registration -/

/-- A contender is registered, and its urgency has been carried along the visited
stretch of the chain up to the current owner. -/
structure Advancing (before system : PiSystem Thread Mutex)
    (token : PiWaitToken Thread Mutex) (visited : List Thread) (current : Thread) : Prop extends
    Keeps before system where
  registration : ∃ registration, (system.threads token.thread).blockedOn = some registration ∧
      registration.lock = token.lock ∧
      registration.generation = token.generation
  free : (before.threads token.thread).blockedOn = none
  places : ∀ thread, thread ≠ token.thread → system.place thread = before.place thread
  chain : (visited ++ [current]).IsChain before.WaitsFor
  head : ∃ owner, (before.mutexes token.lock).word.owner = some owner ∧
    (visited ++ [current]).head? = some owner
  apart : token.thread ∉ visited ++ [current]
  entries : ∀ thread, thread ∉ visited → thread ≠ token.thread →
    system.waitEntry thread = before.waitEntry thread
  fresh : ∀ thread, thread ≠ current → system.Fresh thread

namespace Advancing

variable {token : PiWaitToken Thread Mutex} {visited : List Thread} {current : Thread}
  (advancing : Advancing before system token visited current) {owner : Thread}
  {result : PiSystem Thread Mutex}
include advancing

theorem current_ne : current ≠ token.thread := by
  rintro rfl
  exact advancing.apart (by simp)

theorem waitsFor_iff {waiter holder : Thread} (ne : waiter ≠ token.thread) :
    system.WaitsFor waiter holder ↔ before.WaitsFor waiter holder :=
  advancing.toKeeps.waitsFor_iff (advancing.places waiter ne)

theorem reaches_current (isOwner : (before.mutexes token.lock).word.owner = some owner) :
    ReflTransGen before.WaitsFor owner current := by
  rcases advancing.head with ⟨found, isFound, isHead⟩
  cases isOwner.symm.trans isFound
  exact reaches_of_isChain advancing.chain isHead (by simp)

theorem not_blocked_on_origin (ranked : Ranked before.WaitsFor) :
    before.blockedLock current ≠ some token.lock := by
  intro blocked
  rcases advancing.head with ⟨owner, isOwner, _⟩
  have path := advancing.reaches_current isOwner
  have edge : before.WaitsFor current owner := ⟨token.lock, blocked, isOwner⟩
  exact ranked.acyclic owner (.tail' path edge)

theorem requeued {requeued : PiSystem Thread Mutex} (changes : Requeued system requeued current)
    (waits : before.WaitsFor current owner) (notToken : owner ≠ token.thread) :
    Advancing before requeued token (visited ++ [current]) owner := by
  have currentNe := advancing.current_ne
  refine
    { toKeeps := advancing.toKeeps.trans changes.toKeeps, registration := ?_
      free := advancing.free, places := ?_, chain := ?_, head := ?_, apart := ?_,
      entries := ?_, fresh := ?_ }
  · rcases advancing.registration with ⟨registration, blocked, lockEq, generationEq⟩
    have entryEq := changes.entries token.thread currentNe.symm
    exact ⟨registration, (blockedOn_eq_of_waitEntry entryEq).trans blocked, lockEq, generationEq⟩
  · intro thread ne
    rw [changes.places, advancing.places thread ne]
  · exact isChain_append_singleton advancing.chain (by simp) waits
  · rcases advancing.head with ⟨found, isFound, isHead⟩
    refine ⟨found, isFound, ?_⟩
    rw [head?_append, isHead]
    rfl
  · rw [mem_append, mem_singleton, not_or]
    exact ⟨advancing.apart, notToken.symm⟩
  · intro thread notVisited ne
    rw [mem_append, mem_singleton, not_or] at notVisited
    rw [changes.entries thread notVisited.2]
    exact advancing.entries thread notVisited.1 ne
  · intro thread ne
    refine changes.fresh_of_not_waitsFor (advancing.fresh thread) ?_
    intro waits'
    rw [advancing.waitsFor_iff currentNe] at waits'
    exact ne (waits'.functional waits)

theorem ranked (settled : before.Settled) (keeps : Keeps before result)
    (places : ∀ thread, thread ≠ token.thread → result.place thread = before.place thread)
    (blocked : result.blockedLock token.thread = some token.lock)
    (ends : ¬ ReflTransGen before.WaitsFor current token.thread) : Ranked result.WaitsFor := by
  rcases advancing.head with ⟨owner, isOwner, isHead⟩
  have noCycle : ¬ ReflTransGen before.WaitsFor owner token.thread := by
    intro path
    have isLast : (visited ++ [current]).getLast? = some current := by simp
    have functional : ∀ waiter holder other, before.WaitsFor waiter holder →
        before.WaitsFor waiter other → holder = other :=
      fun _ _ _ waits waits' => waits.functional waits'
    rcases mem_or_reaches_of_isChain functional advancing.chain isHead isLast path
      with member | reached
    · exact advancing.apart member
    · exact ends reached
  refine settled.ranked.add_edges (forall_mem_singleton.mpr noCycle) ?_
  intro waiter holder edge
  by_cases same : waiter = token.thread
  · right
    subst same
    rcases edge with ⟨lock, blocked', holderOwner⟩
    cases blocked.symm.trans blocked'
    cases isOwner.symm.trans ((keeps.owners _).symm.trans holderOwner)
    exact ⟨rfl, mem_singleton_self _⟩
  · left
    exact (keeps.waitsFor_iff (places waiter same)).mp edge

private theorem blockedLock_token : system.blockedLock token.thread = some token.lock := by
  rcases advancing.registration with ⟨registration, blocked, lockEq, _⟩
  unfold blockedLock
  rw [blocked, ← lockEq]
  rfl

theorem settled_of_end (settled : before.Settled) (changes : Requeued system result current)
    (ends : ∀ owner, before.WaitsFor current owner →
      owner ≠ token.thread ∧ before.blockedLock owner = none) : result.Settled := by
  have currentNe := advancing.current_ne
  have places : ∀ thread, thread ≠ token.thread → result.place thread = before.place thread := by
    intro thread ne
    rw [changes.places, advancing.places thread ne]
  refine { linked := changes.linked, ranked := ?_, fresh := ?_ }
  · refine advancing.ranked settled (advancing.toKeeps.trans changes.toKeeps) places ?_ ?_
    · rw [blockedLock_eq_of_place (changes.places token.thread)]
      exact advancing.blockedLock_token
    · intro path
      rcases ReflTransGen.cases_head path with same | ⟨owner, waits, path⟩
      · exact currentNe same
      rcases ends owner waits with ⟨ownerNe, ownerFree⟩
      rcases ReflTransGen.cases_head path with same | ⟨other, waits', _⟩
      · exact ownerNe same
      · exact not_waitsFor_of_free (free_of_blockedLock ownerFree) waits'
  · intro thread
    by_cases waits : before.WaitsFor current thread
    · rcases ends thread waits with ⟨threadNe, threadFree⟩
      apply fresh_of_blockedLock
      rw [blockedLock_eq_of_place (places thread threadNe)]
      exact threadFree
    · refine changes.fresh_of_not_waitsFor (advancing.fresh thread) ?_
      rw [advancing.waitsFor_iff currentNe]
      exact waits

end Advancing

structure Pursuing (config : PiConfig) (before system : PiSystem Thread Mutex)
    (token : PiWaitToken Thread Mutex) (walk : PiWalk Thread Mutex) : Prop where
  advancing : ∃ visited, Advancing before system token visited walk.current ∧
    (walk.unverified = true → visited = [])
  origin : walk.originLock = some token.lock
  top : walk.topTask = token.thread
  next : ∃ lock, walk.nextLock = some lock ∧ before.blockedLock walk.current = some lock
  limit : walk.limit = config.piChainLimit

/-- A rejected contender, which may have been carried along a stretch of the
chain. -/
def Rejected (before system : PiSystem Thread Mutex)
    (token : PiWaitToken Thread Mutex) (error : PiError) : Prop :=
  (∃ visited current, Advancing before system token visited current) ∧
    (error = .piCycle → before.ClosesCycle token.lock token.thread)

section

variable [DecidableEq Mutex] {config : PiConfig} {walk : PiWalk Thread Mutex}
  {token : PiWaitToken Thread Mutex}

omit [DecidableEq Mutex] in
/-- A walk ends in a settled system, rejects the contender or goes on. -/
def Pursued (config : PiConfig) (before : PiSystem Thread Mutex)
    (token : PiWaitToken Thread Mutex) (walk : PiWalk Thread Mutex)
    (next : PiSystem Thread Mutex × PiWalkStep Thread Mutex) : Prop :=
  (∃ result, next = (result, .finished (.ok ())) ∧ result.Settled) ∨
    (∃ result error, next = (result, .finished (.error error)) ∧
      Rejected before result token error) ∨
    ∃ result further, next = (result, .more further) ∧
      Pursuing config before result token further ∧ walkMeasure further < walkMeasure walk

variable (pursuing : Pursuing config before system token walk)
include pursuing

private theorem Pursuing.step_refresh (settled : before.Settled) (inLimit : walk.depth ≤ walk.limit)
    (verified : walk.unverified = false) : Pursued config before token walk (walk.step system) := by
  rcases pursuing.advancing with ⟨visited, advancing, _⟩
  rcases pursuing.next with ⟨nextLock, isNext, nextBlocked⟩
  have currentNe := advancing.current_ne
  have blockedLock : system.blockedLock walk.current = some nextLock := by
    rw [blockedLock_eq_of_place (advancing.places _ currentNe)]
    exact nextBlocked
  rcases Option.map_eq_some_iff.mp blockedLock with ⟨registration, blocked, rfl⟩
  have expected : ∀ lock, walk.nextLock = some lock → lock = registration.lock :=
    fun lock isLock => Option.some.inj (isLock.symm.trans isNext)
  have notOrigin : walk.originLock ≠ some registration.lock := by
    rw [pursuing.origin]
    intro same
    exact advancing.not_blocked_on_origin settled.ranked (nextBlocked.trans same.symm)
  have topEq : walk.originLock.map (fun _ => walk.topTask) = some token.thread := by
    rw [pursuing.origin, Option.map_some, pursuing.top]
  by_cases meets : (system.mutexes registration.lock).word.owner = some token.thread
  · refine .inr (.inl ⟨system, .piCycle, ?_, ⟨visited, walk.current, advancing⟩, ?_⟩)
    · have cycle : system.refreshBlockedWaiterKey walk.current walk.nextLock
          walk.originLock (walk.originLock.map (fun _ => walk.topTask)) =
            (system, .error .piCycle) := by
        refine refreshBlockedWaiterKey_cycle blocked expected (.inr ⟨?_, ?_⟩)
        · rw [topEq]
          rfl
        · rw [topEq]
          exact meets
      unfold step
      rw [if_neg (by omega), if_neg (by simp [verified]), cycle]
    · intro _
      rcases advancing.head with ⟨owner, isOwner, _⟩
      rw [advancing.owners] at meets
      exact ⟨owner, isOwner, (advancing.reaches_current isOwner).tail
        ⟨registration.lock, nextBlocked, meets⟩⟩
  · have passes : ¬ (walk.originLock = some registration.lock ∨
        (walk.originLock.map (fun _ => walk.topTask)).isSome ∧
          (system.mutexes registration.lock).word.owner =
            walk.originLock.map (fun _ => walk.topTask)) := by
      rw [topEq]
      rintro (same | ⟨_, same⟩)
      · exact notOrigin same
      · exact meets same
    have notOwner : (system.mutexes registration.lock).word.owner ≠ some walk.current := by
      intro isOwner
      rw [advancing.owners] at isOwner
      exact settled.ranked.acyclic walk.current (.single ⟨registration.lock, nextBlocked, isOwner⟩)
    rcases refreshBlockedWaiterKey_spec blocked expected passes advancing.linked
      notOwner with ⟨result, changed, wake, ran, changes, _, _⟩
    have stepEq := walkStep_refresh inLimit verified ran
    cases isOwner : (system.mutexes registration.lock).word.owner with
    | none =>
      refine .inl ⟨result, ?_, advancing.settled_of_end settled changes ?_⟩
      · rw [stepEq, isOwner]
        simp [follow, pursuing.origin]
      · intro owner waits
        rw [← advancing.waitsFor_iff currentNe, waitsFor_iff_of_blocked blocked, isOwner] at waits
        cases waits
    | some owner =>
      have isOwner' := isOwner
      rw [advancing.owners] at isOwner'
      have waits : before.WaitsFor walk.current owner := ⟨registration.lock, nextBlocked, isOwner'⟩
      have ownerNe : owner ≠ token.thread := by
        rintro rfl
        exact meets isOwner
      have ownerLock : system.blockedLock owner = before.blockedLock owner :=
        blockedLock_eq_of_place (advancing.places owner ownerNe)
      have further := advancing.requeued changes waits ownerNe
      rw [isOwner, Option.bind_some, ownerLock] at stepEq
      by_cases atLimit : walk.depth = walk.limit
      · refine .inr (.inl ⟨result, .piChainLimit walk.limit, ?_,
          ⟨visited ++ [walk.current], owner, further⟩, by simp⟩)
        rw [stepEq]
        simp [follow, pursuing.origin, pursuing.top, ownerNe, atLimit]
      · cases nextEq : before.blockedLock owner with
        | none =>
          refine .inl ⟨result, ?_, advancing.settled_of_end settled changes ?_⟩
          · rw [stepEq, nextEq]
            simp [follow, pursuing.origin, pursuing.top, ownerNe, atLimit]
          · intro other waits'
            rw [waits'.functional waits]
            exact ⟨ownerNe, nextEq⟩
        | some ownerNextLock =>
          refine .inr (.inr ⟨result,
            { walk with
              current := owner
              nextLock := some ownerNextLock
              depth := walk.depth + 1 }, ?_, ?_, ?_⟩)
          · rw [stepEq, nextEq]
            simp [follow, pursuing.origin, pursuing.top, ownerNe, atLimit]
          · exact
              { pursuing with
                advancing := ⟨visited ++ [walk.current], further,
                  fun unverified => absurd unverified (by simp [verified])⟩
                next := ⟨ownerNextLock, rfl, nextEq⟩ }
          · unfold walkMeasure
            dsimp only
            omega

/-- Each step of the walk after a registration ends it in a settled system, rejects
the contender or goes on to the next owner. -/
theorem Pursuing.step (settled : before.Settled) :
    Pursued config before token walk (walk.step system) := by
  rcases pursuing.advancing with ⟨visited, advancing, untouched⟩
  by_cases inLimit : walk.depth ≤ walk.limit
  · cases verified : walk.unverified with
    | false => exact pursuing.step_refresh settled inLimit verified
    | true =>
      refine .inr (.inr ⟨system, { walk with unverified := false }, ?_,
        { pursuing with advancing := ⟨visited, advancing, by simp⟩ }, ?_⟩)
      · have visitedEq := untouched verified
        rcases advancing.head with ⟨owner, isOwner, isHead⟩
        rw [visitedEq, nil_append, head?_singleton, Option.some.injEq] at isHead
        have owns : walk.ownsOrigin system = true := by
          unfold ownsOrigin
          rw [pursuing.origin]
          simp [advancing.owners, isOwner, isHead]
        unfold PiWalk.step
        rw [if_neg (by omega), if_pos verified, if_pos owns]
      · unfold walkMeasure
        simp [verified]
  · refine .inr (.inl ⟨system, .piChainLimit walk.limit, ?_,
      ⟨visited, walk.current, advancing⟩, by simp⟩)
    unfold PiWalk.step
    rw [if_pos (by omega)]

end

/-! ## The walk after a rejection -/

theorem waitEntry_eq_of_fresh {thread : Thread} (registered : before.Registered)
    (registered' : system.Registered) (fresh : before.Fresh thread) (fresh' : system.Fresh thread)
    (same : system.place thread = before.place thread)
    (schedule : PiThread.SameSchedule (system.threads thread) (before.threads thread)) :
    system.waitEntry thread = before.waitEntry thread := by
  rcases donation_congr schedule with ⟨policyEq, donationEq⟩
  unfold place at same
  unfold waitEntry
  cases blocked : (before.threads thread).blockedOn with
  | none =>
    rw [blocked, Option.map_none, Option.map_eq_none_iff] at same
    rw [same]
    rfl
  | some registration =>
    rw [blocked, Option.map_some, Option.map_eq_some_iff] at same
    rcases same with ⟨registration', blocked', placeEq⟩
    simp only [Prod.mk.injEq] at placeEq
    rcases placeEq with ⟨lockEq, sequenceEq, generationEq⟩
    rcases fresh registration blocked with ⟨urgency, bound⟩
    rcases fresh' registration' blocked' with ⟨urgency', bound'⟩
    rcases registered.waits thread registration blocked with ⟨_, waits⟩
    rcases registered'.waits thread registration' blocked' with ⟨_, waits'⟩
    have urgencyEq : registration'.key.urgency = registration.key.urgency := by
      rw [urgency, urgency', policyEq]
    have threadEq : registration'.key.thread = registration.key.thread :=
      waits'.key_thread.trans waits.key_thread.symm
    obtain rfl : registration' = registration := by
      rcases registration' with ⟨lock', ⟨urgency', sequence', thread'⟩, _⟩
      subst lockEq urgencyEq sequenceEq threadEq generationEq
      rfl
    rw [blocked', Option.map_some, Option.map_some, bound, bound', donationEq]

/-- Every entry is as before up to a stretch of a chain. -/
structure Restored (before system : PiSystem Thread Mutex)
    (remaining : List Thread) (last : Thread) : Prop extends Keeps before system where
  places : ∀ thread, system.place thread = before.place thread
  chain : (remaining ++ [last]).IsChain before.WaitsFor
  entries : ∀ thread, thread ∉ remaining → system.waitEntry thread = before.waitEntry thread

namespace Restored

variable {remaining : List Thread} {last current : Thread}

theorem waitsFor_iff (restored : Restored before system remaining last) (waiter holder : Thread) :
    system.WaitsFor waiter holder ↔ before.WaitsFor waiter holder :=
  restored.toKeeps.waitsFor_iff (restored.places waiter)

section

variable (settled : before.Settled)
include settled

section

variable (restored : Restored before system (current :: remaining) last)
include restored

private theorem schedule_head :
    PiThread.SameSchedule (system.threads current) (before.threads current) := by
  refine settled.linked.sameSchedule_of_entries restored.linked restored.owners
    (restored.base current) ?_
  intro waiter waits
  rw [restored.waitsFor_iff, or_self] at waits
  apply restored.entries
  intro member
  rcases mem_cons.mp member with rfl | member
  · exact settled.ranked.acyclic waiter (.single waits)
  · have path : TransGen before.WaitsFor current waiter :=
      transGen_of_isChain restored.chain (mem_append_left _ member)
    exact settled.ranked.acyclic current (path.tail waits)

theorem advance (fresh : system.Fresh current) : Restored before system remaining last := by
  refine { restored with chain := restored.chain.tail, entries := ?_ }
  intro thread notMember
  by_cases same : thread = current
  · subst same
    exact waitEntry_eq_of_fresh settled.linked.toRegistered
      restored.linked.toRegistered (settled.fresh thread) fresh
      (restored.places thread) (restored.schedule_head settled)
  · exact restored.entries thread (not_mem_cons_of_ne_of_not_mem same notMember)

end

theorem of_fresh (restored : Restored before system remaining last)
    (fresh : ∀ thread ∈ remaining, system.Fresh thread) : Restored before system [] last := by
  induction remaining with
  | nil => exact restored
  | cons current remaining ih =>
    have shorter : Restored before system remaining last :=
      restored.advance settled (fresh current mem_cons_self)
    exact ih shorter (fun thread member => fresh thread (mem_cons_of_mem _ member))

theorem unchanged (restored : Restored before system [] last) : Unchanged before system where
  waiters := fun _ => settled.linked.tree_eq_of_entries restored.linked.toRegistered
    (fun waiter _ => restored.entries waiter not_mem_nil)
  schedule := fun thread => settled.linked.sameSchedule_of_entries
    restored.linked restored.owners (restored.base thread)
    (fun waiter _ => restored.entries waiter not_mem_nil)

end

theorem settled (settled : before.Settled) (restored : Restored before system [] last) :
    system.Settled where
  linked := restored.linked
  ranked := settled.ranked.mono
    (fun waiter holder edge => (restored.waitsFor_iff waiter holder).mp edge)
  fresh := fun thread => (settled.fresh thread).congr (restored.entries thread not_mem_nil)
    ((restored.unchanged settled).schedule thread)

variable (restored : Restored before system (current :: remaining) last)
  {result : PiSystem Thread Mutex}
include restored

theorem requeued (settled : before.Settled) (changes : Requeued system result current) :
    Restored before result remaining last := by
  have longer : Restored before result (current :: remaining) last :=
    { restored with
      toKeeps := restored.toKeeps.trans changes.toKeeps
      places := fun thread => (changes.places thread).trans (restored.places thread)
      entries := by
        intro thread notMember
        rw [changes.entries thread (ne_of_not_mem_cons notMember)]
        exact restored.entries thread notMember }
  exact longer.advance settled changes.fresh

theorem exists_waitsFor :
    ∃ owner, (remaining ++ [last]).head? = some owner ∧ before.WaitsFor current owner := by
  rcases (isChain_cons_iff _ _ _).mp restored.chain with empty | ⟨owner, rest, waits, _, restEq⟩
  · simp at empty
  · exact ⟨owner, congrArg head? restEq, waits⟩

theorem waitsFor_head {owner : Thread} (waits : before.WaitsFor current owner) :
    (remaining ++ [last]).head? = some owner := by
  rcases restored.exists_waitsFor with ⟨first, isHead, waits'⟩
  rw [isHead, waits'.functional waits]

private theorem fresh_requeued (settled : before.Settled) (changes : Requeued system result current)
    (fresh : ∀ thread ∈ remaining, system.Fresh thread) :
    ∀ thread ∈ remaining.tail, result.Fresh thread := by
  intro thread member
  refine changes.fresh_of_not_waitsFor (fun _ => fresh thread (mem_of_mem_tail member)) ?_
  intro waits
  rw [restored.waitsFor_iff] at waits
  have isHead := restored.waitsFor_head waits
  have nodup := settled.ranked.nodup_of_isChain restored.chain
  cases remaining with
  | nil => exact absurd member (by simp)
  | cons next remaining =>
    rw [cons_append, head?_cons, Option.some.injEq] at isHead
    subst isHead
    simp only [cons_append, nodup_cons, mem_append] at nodup
    exact nodup.2.1 (.inl member)

end Restored

/-- The walk that follows the removal of a rejected contender. -/
structure Restoring (config : PiConfig) (before system : PiSystem Thread Mutex)
    (walk : PiWalk Thread Mutex) (remaining : List Thread) (last : Thread) : Prop extends
    Roams config before walk where
  restored : Restored before system remaining last
  fresh : ∀ thread ∈ remaining.tail, system.Fresh thread
  head : (remaining ++ [last]).head? = some walk.current
  apart : walk.topTask ∉ remaining ++ [last]

namespace Restoring

variable {config : PiConfig} {walk : PiWalk Thread Mutex} {remaining : List Thread} {last : Thread}
  (restoring : Restoring config before system walk remaining last) (settled : before.Settled)
include restoring settled

theorem complete (fresh : system.Fresh walk.current) : Restored before system [] last := by
  refine restoring.restored.of_fresh settled ?_
  intro thread member
  have isHead := restoring.head
  have freshTail := restoring.fresh
  cases remaining with
  | nil => exact absurd member (by simp)
  | cons current remaining =>
    rw [cons_append, head?_cons, Option.some.injEq] at isHead
    rcases mem_cons.mp member with rfl | member
    · exact isHead ▸ fresh
    · exact freshTail thread member

theorem stale_stretch (stale : ¬ system.Fresh walk.current) :
    ∃ remaining', remaining = walk.current :: remaining' ∧
      ∃ owner, before.WaitsFor walk.current owner := by
  have isHead := restoring.head
  have restored := restoring.restored
  cases remaining with
  | nil => exact absurd ((restored.settled settled).fresh walk.current) stale
  | cons current remaining =>
    rw [cons_append, head?_cons, Option.some.injEq] at isHead
    subst isHead
    rcases restored.exists_waitsFor with ⟨owner, _, waits⟩
    exact ⟨remaining, rfl, owner, waits⟩

variable [DecidableEq Mutex]

/-- Each step of the walk after a rejection ends it in the system before the
registration or restores one more entry. -/
theorem step [Fintype Thread] (capacity : Fintype.card Thread ≤ config.threadCapacity) :
    (∃ result, walk.step system = (result, .finished (.ok ())) ∧ Restored before result [] last) ∨
      ∃ result further remaining', walk.step system = (result, .more further) ∧
        Restoring config before result further remaining' last ∧
        walkMeasure further < walkMeasure walk := by
  have lockEq : ∀ thread, system.blockedLock thread = before.blockedLock thread :=
    fun thread => blockedLock_eq_of_place (restoring.restored.places thread)
  have roams := restoring.toRoams.congr restoring.restored.toKeeps restoring.restored.places
  have ranked : Ranked system.WaitsFor := settled.ranked.mono fun waiter holder edge =>
    (restoring.restored.waitsFor_iff waiter holder).mp edge
  have notTop : ¬ system.Fresh walk.current → ¬ system.WaitsFor walk.current walk.topTask := by
    intro stale waits
    rcases restoring.stale_stretch settled stale with ⟨remaining', rfl, _⟩
    exact restoring.apart (mem_cons_of_mem _ (mem_of_mem_head? (restoring.restored.waitsFor_head
        ((restoring.restored.waitsFor_iff _ _).mp waits))))
  rcases roams.step capacity restoring.restored.linked ranked notTop with
    ⟨fresh, ran⟩ | ⟨stale, result, changes, goesOn⟩
  · exact .inl ⟨system, ran, restoring.complete settled fresh⟩
  rcases restoring.stale_stretch settled stale with ⟨remaining', rfl, owner, waits⟩
  have restored := restoring.restored.requeued settled changes
  have isHead := restoring.restored.waitsFor_head waits
  have further : ∀ nextLock : Option Mutex, nextLock = before.blockedLock owner →
      Restoring config before result
        { walk with
          current := owner
          nextLock := nextLock
          depth := walk.depth + 1 } remaining' last := by
    intro nextLock nextEq
    exact ⟨restoring.toRoams.advance waits fun _ isNext => nextEq.symm.trans isNext, restored,
      restoring.restored.fresh_requeued settled changes restoring.fresh, isHead,
      fun member => restoring.apart (mem_cons_of_mem _ member)⟩
  rcases goesOn with ⟨ends, ran⟩ | ⟨owner', lock, waits', isLock, below, ran⟩
  · have ownerFree : before.blockedLock owner = none := by
      rw [← lockEq]
      exact ends owner ((restoring.restored.waitsFor_iff _ _).mpr waits)
    refine .inl ⟨result, ran, (further none ownerFree.symm).complete settled ?_⟩
    apply fresh_of_blockedLock
    rw [blockedLock_eq_of_place (restored.places owner)]
    exact ownerFree
  · rw [restoring.restored.waitsFor_iff] at waits'
    obtain rfl := waits'.functional waits
    rw [lockEq] at isLock
    refine .inr ⟨result, _, remaining', ran, further (some lock) isLock.symm, ?_⟩
    unfold walkMeasure
    dsimp only
    omega

end Restoring

end PiSystem

end TgosKits
