import Mathlib.Data.Prod.Lex
import TgosKits.Library.SortedMap
import TgosKits.Sched.Fair

/-!
# Priority-inheriting mutexes

A contended mutex keeps its waiters in a tree ordered by urgency. The owner of a
mutex keeps the top waiter of each of its contended mutexes in a tree of donors, and
its effective policy is its base policy or what the top donor hands on. A change
travels along the chain of blocked owners, one refreshed waiter at a time.

Each call is a machine whose steps are the sections that run under the wait lock of
one mutex. The threads are in the fair, FIFO and round-robin classes. Counters are
unbounded, threads do not exit and CPUs stay online.
-/

namespace TgosKits

/-! ## Policies and urgencies -/

structure RtPriority where
  value : Nat
  lower : 1 ≤ value
  upper : value ≤ 99
  deriving DecidableEq

/-- The base policies without the kernel's stop class and the deadline class. -/
inductive SchedulePolicy where
  | fair (nice : Nice) (mode : FairMode)
  | fifo (priority : RtPriority)
  | roundRobin (priority : RtPriority) (quantumNs : Nat)
  deriving DecidableEq

/-- Class rank and urgency in the class; lower values are more urgent. -/
structure SchedulingUrgency where
  classRank : Nat
  primary : Nat
  deriving DecidableEq, Repr

namespace SchedulingUrgency

/-- The pair that orders urgencies. The wrapping order inside the deadline class
does not occur here. -/
def order (urgency : SchedulingUrgency) : Nat ×ₗ Nat := toLex (urgency.classRank, urgency.primary)

theorem order_injective : Function.Injective order := by
  rintro ⟨rank, primary⟩ ⟨otherRank, otherPrimary⟩ same
  simp only [order, EmbeddingLike.apply_eq_iff_eq, Prod.mk.injEq] at same
  rw [same.1, same.2]

instance : LinearOrder SchedulingUrgency := LinearOrder.lift' order order_injective

end SchedulingUrgency

namespace SchedulePolicy

def schedulingUrgency : SchedulePolicy → SchedulingUrgency
  | .fair nice _ => ⟨3, (nice.value + 20).toNat⟩
  | .fifo priority => ⟨2, 99 - priority.value⟩
  | .roundRobin priority _ => ⟨2, 99 - priority.value⟩

/-- The order of waiters, in which every thread of the fair class is the same. -/
def piWaitUrgency (policy : SchedulePolicy) : SchedulingUrgency :=
  if policy.schedulingUrgency.classRank ≥ 3 then
    ⟨3, 0⟩
  else
    policy.schedulingUrgency

end SchedulePolicy

def piInheritedPolicy (base donor : SchedulePolicy) : Option SchedulePolicy :=
  match donor, base with
  | .fifo priority, .roundRobin _ quantumNs =>
    some (.roundRobin priority quantumNs)
  | .roundRobin priority _, .roundRobin _ quantumNs =>
    some (.roundRobin priority quantumNs)
  | .fifo priority, _ => some (.fifo priority)
  | .roundRobin priority _, _ => some (.fifo priority)
  | .fair _ _, .fair _ _ => some donor
  | .fair _ _, _ => none

/-! ## Waiter trees -/

/-- The order of a waiter, copied into the tree of the mutex and into the tree of
the owner. -/
structure PiWaitKey (Thread : Type) where
  urgency : SchedulingUrgency
  sequence : Nat
  thread : Thread
  deriving DecidableEq

namespace PiWaitKey

variable {Thread : Type}

def order (key : PiWaitKey Thread) : SchedulingUrgency ×ₗ Nat ×ₗ Thread :=
  toLex (key.urgency, toLex (key.sequence, key.thread))

theorem order_injective : Function.Injective (order : PiWaitKey Thread → _) := by
  rintro ⟨urgency, sequence, thread⟩ ⟨urgency', sequence', thread'⟩ same
  simp only [order, EmbeddingLike.apply_eq_iff_eq, Prod.mk.injEq] at same
  rw [same.1, same.2.1, same.2.2]

instance [LinearOrder Thread] : LinearOrder (PiWaitKey Thread) :=
  LinearOrder.lift' order order_injective

end PiWaitKey

structure PiDonation (Thread : Type) where
  policy : SchedulePolicy
  root : Thread
  boostUrgency : SchedulingUrgency
  waitGeneration : Option Nat
  waiter : Thread
  deriving DecidableEq

namespace PiDonation

variable {Thread : Type}

def withWaitGeneration (donation : PiDonation Thread) (generation : Nat) : PiDonation Thread :=
  { donation with waitGeneration := some generation }

def sameSource [DecidableEq Thread] (donation other : PiDonation Thread) : Bool :=
  donation.policy = other.policy && donation.root = other.root &&
    donation.boostUrgency = other.boostUrgency

end PiDonation

/-- The waiters of one mutex, or the donors of one thread. -/
abbrev PiWaitTree (Thread : Type) [LinearOrder Thread] :=
  SortedMap (PiWaitKey Thread) (PiDonation Thread)

abbrev PiWaitEntry (Thread : Type) := PiWaitKey Thread × PiDonation Thread

namespace PiWaitTree

variable {Thread : Type} [LinearOrder Thread] (tree : PiWaitTree Thread)

def firstEntry : Option (PiWaitEntry Thread) :=
  tree.firstWhere (fun _ => true)

def firstEntryExcluding (excluded : Option (PiWaitKey Thread)) : Option (PiWaitEntry Thread) :=
  tree.firstWhere (fun key => decide (excluded ≠ some key))

def contains (key : PiWaitKey Thread) : Bool := (tree.get? key).isSome

def isEmpty (tree : PiWaitTree Thread) : Bool := tree.entries.isEmpty

end PiWaitTree

/-! ## Threads and mutexes -/

/-- The edge from a blocked thread to the mutex it waits for. -/
structure PiWaitRegistration (Thread Mutex : Type) where
  lock : Mutex
  key : PiWaitKey Thread
  generation : Nat
  deriving DecidableEq

structure PiWaitState where
  generation : Nat
  grantedGeneration : Nat
  deriving DecidableEq, Repr

namespace PiWaitState

def begin (state : PiWaitState) : PiWaitState :=
  { generation := state.generation + 1
    grantedGeneration := 0 }

def canGrant (state : PiWaitState) (generation : Nat) : Bool :=
  state.generation = generation && state.grantedGeneration ≠ generation

end PiWaitState

/-- The part of a thread that its own scheduler lock protects. -/
structure PiThread (Thread Mutex : Type) [LinearOrder Thread] where
  base : SchedulePolicy
  effective : SchedulePolicy
  donor : Option Thread
  donors : PiWaitTree Thread
  blockedOn : Option (PiWaitRegistration Thread Mutex)
  waitState : PiWaitState

/-- The owner word of a mutex. Without an owner and without the waiter bit the mutex
is unlocked, without an owner and with the bit it is handed over. -/
structure PiMutexWord (Thread : Type) where
  owner : Option Thread
  hasWaiters : Bool
  deriving DecidableEq

namespace PiMutexWord

variable {Thread : Type}

def isUnlocked (word : PiMutexWord Thread) : Bool := word.owner.isNone && !word.hasWaiters

def isOwnerless (word : PiMutexWord Thread) : Bool := word.owner.isNone && word.hasWaiters

end PiMutexWord

structure PiMutex (Thread : Type) [LinearOrder Thread] where
  word : PiMutexWord Thread
  waiters : PiWaitTree Thread

structure PiSystem (Thread Mutex : Type) [LinearOrder Thread] where
  threads : Thread → PiThread Thread Mutex
  mutexes : Mutex → PiMutex Thread

inductive PiError where
  | invalidPiState
  | waiterAlreadyBlocked
  | staleSchedulerOwnership
  | waiterOwnsLock
  | ownerlessSelectionMissing
  | piCycle
  | piChainLimit (limit : Nat)
  deriving DecidableEq, Repr

variable {Thread Mutex : Type} [LinearOrder Thread] [DecidableEq Mutex]

namespace PiThread

def effectivePiWaitUrgency (thread : PiThread Thread Mutex) : SchedulingUrgency :=
  thread.effective.piWaitUrgency

end PiThread

/-- The effective policy under the top donor, and the thread that the boost comes
from. -/
def resolvedPiScheduleUpdate (base : SchedulePolicy)
    (donor : Option (PiWaitEntry Thread)) : SchedulePolicy × Option Thread :=
  match donor with
  | none => (base, none)
  | some (_, donation) =>
    if donation.boostUrgency < base.schedulingUrgency then
      match piInheritedPolicy base donation.policy with
      | some inherited => (inherited, some donation.root)
      | none => (base, none)
    else
      (base, none)

def recomputePiOwnerLocked (thread : PiThread Thread Mutex)
    (donor : Option (PiWaitEntry Thread)) : PiThread Thread Mutex :=
  let update := resolvedPiScheduleUpdate thread.base donor
  if thread.effective = update.1 ∧ thread.donor = update.2 then
    thread
  else
    { thread with
      effective := update.1
      donor := update.2 }

def prospectiveTop (remaining newTop : Option (PiWaitEntry Thread)) : Option (PiWaitEntry Thread) :=
  match remaining, newTop with
  | some current, some candidate =>
    if candidate.1 < current.1 then some candidate else some current
  | some current, none => some current
  | none, newTop => newTop

/-- Whether the owner already holds the new top waiter of a mutex. -/
def holdsTop (owner : PiThread Thread Mutex) (oldTop newTop : Option (PiWaitEntry Thread)) : Bool :=
  match oldTop, newTop with
  | some old, some new =>
    old.1 = new.1 && (owner.donors.get? old.1).any (fun current => current.sameSource new.2)
  | _, _ => false

def replaceOwnerLockTopLocked (owner : PiThread Thread Mutex)
    (oldTop newTop : Option (PiWaitEntry Thread)) : Except PiError (PiThread Thread Mutex) :=
  if holdsTop owner oldTop newTop then
    .ok owner
  else
    let remaining := PiWaitTree.firstEntryExcluding owner.donors (oldTop.map Prod.fst)
    let top := prospectiveTop remaining newTop
    if oldTop.all (fun old => PiWaitTree.contains owner.donors old.1) then
      let removed := match oldTop with
        | some old => owner.donors.erase old.1
        | none => owner.donors
      let donors := match newTop with
        | some new => removed.insert new.1 new.2
        | none => removed
      .ok (recomputePiOwnerLocked { owner with donors := donors } top)
    else
      .error .invalidPiState

namespace PiSystem

variable (system : PiSystem Thread Mutex) (thread : Thread)

def setThread (record : PiThread Thread Mutex) : PiSystem Thread Mutex :=
  { system with threads := Function.update system.threads thread record }

variable (lock : Mutex)

def setMutex (mutex : PiMutex Thread) : PiSystem Thread Mutex :=
  { system with mutexes := Function.update system.mutexes lock mutex }

def setWaiters (waiters : PiWaitTree Thread) : PiSystem Thread Mutex :=
  system.setMutex lock { system.mutexes lock with waiters := waiters }

def setWord (word : PiMutexWord Thread) : PiSystem Thread Mutex :=
  system.setMutex lock { system.mutexes lock with word := word }

def setBlockedOn (registration : Option (PiWaitRegistration Thread Mutex)) :
    PiSystem Thread Mutex :=
  system.setThread thread
    { system.threads thread with blockedOn := registration }

def setWaitState (state : PiWaitState) : PiSystem Thread Mutex :=
  system.setThread thread { system.threads thread with waitState := state }

def piDonation : PiDonation Thread :=
  let record := system.threads thread
  { policy := record.effective
    root := record.donor.getD thread
    boostUrgency := record.effective.schedulingUrgency
    waitGeneration := none
    waiter := thread }

def entryNamesThread (entry : Option (PiWaitEntry Thread)) : Bool :=
  entry.all (fun entry => entry.2.waiter = entry.1.thread && entry.2.waitGeneration.isSome)

def entryCanGrant (entry : Option (PiWaitEntry Thread)) : Bool :=
  entry.all (fun entry => entry.2.waitGeneration.any
    ((system.threads entry.2.waiter).waitState.canGrant))

variable (owner : Option Thread) (oldTop newTop : Option (PiWaitEntry Thread))

/-- Publishes a change of the top waiter of a mutex to its owner, and reads what the
owner is blocked on. -/
def publishLockTopChange :
    Except PiError (PiSystem Thread Mutex × Option Mutex) :=
  if oldTop.map Prod.fst ≠ newTop.map Prod.fst ∧
      ¬ (entryNamesThread oldTop ∧ entryNamesThread newTop ∧ system.entryCanGrant newTop) then
    .error .invalidPiState
  else
    match owner with
    | none => .ok (system, none)
    | some owner =>
      match replaceOwnerLockTopLocked (system.threads owner) oldTop newTop with
      | .error error => .error error
      | .ok record =>
        .ok (system.setThread owner record,
          record.blockedOn.map (fun registration => registration.lock))

variable (waiter : Thread)

/-- Inserts a waiter under the wait lock of its mutex. A failed publication takes
the waiter out again. -/
def insertLockWaiter
    (registration : PiWaitRegistration Thread Mutex) (donation : PiDonation Thread) :
    Except PiError (PiSystem Thread Mutex × Option Mutex) :=
  let mutex := system.mutexes lock
  if (system.threads waiter).blockedOn.isSome ||
      PiWaitTree.contains mutex.waiters registration.key then
    .error .invalidPiState
  else
    let waiters := mutex.waiters.insert registration.key donation
    let inserted := (system.setWaiters lock waiters).setBlockedOn waiter (some registration)
    inserted.publishLockTopChange owner (PiWaitTree.firstEntry mutex.waiters)
      (PiWaitTree.firstEntry waiters)

/-- Takes a waiter out under the wait lock of its mutex. A failed publication puts
it back. -/
def removeLockWaiter (generation : Nat) : Except PiError (PiSystem Thread Mutex) :=
  let mutex := system.mutexes lock
  match (system.threads waiter).blockedOn with
  | none => .error .invalidPiState
  | some registration =>
    if registration.generation ≠ generation ∨
        ¬ PiWaitTree.contains mutex.waiters registration.key then
      .error .invalidPiState
    else
      let waiters := mutex.waiters.erase registration.key
      let removed := (system.setWaiters lock waiters).setBlockedOn waiter none
      match removed.publishLockTopChange owner (PiWaitTree.firstEntry mutex.waiters)
        (PiWaitTree.firstEntry waiters) with
      | .error error => .error error
      | .ok (published, _) => .ok published

structure PiWaiterRefresh (Thread Mutex : Type) where
  owner : Option Thread
  ownerNextLock : Option Mutex
  changed : Bool
  ownerlessWake : Option (Thread × Option Nat)

def blockedLock : Option Mutex :=
  (system.threads thread).blockedOn.map (fun registration => registration.lock)

/-- The waiter to wake when the top waiter of a mutex without an owner changed. -/
def ownerlessWake :
    Option (Thread × Option Nat) :=
  if owner.isNone && oldTop.isSome && oldTop.map Prod.fst ≠ newTop.map Prod.fst then
    newTop.map (fun entry => (entry.2.waiter, entry.2.waitGeneration))
  else
    none

def refreshBlockedWaiterKey (expectedLock originLock : Option Mutex) (topTask : Option Thread) :
    PiSystem Thread Mutex × Except PiError (PiWaiterRefresh Thread Mutex) :=
  let record := system.threads waiter
  match record.blockedOn with
  | none => (system, .ok ⟨none, none, false, none⟩)
  | some registration =>
    if expectedLock.any (fun expected => registration.lock ≠ expected) then
      (system, .ok ⟨none, none, false, none⟩)
    else
      let mutex := system.mutexes registration.lock
      let owner := mutex.word.owner
      if originLock = some registration.lock ∨ topTask.isSome ∧ owner = topTask then
        (system, .error .piCycle)
      else
        match mutex.waiters.get? registration.key with
        | none => (system, .error .invalidPiState)
        | some oldDonation =>
          let donation := system.piDonation waiter
          let urgency := record.effectivePiWaitUrgency
          if urgency = registration.key.urgency ∧ donation.sameSource oldDonation then
            (system, .ok ⟨owner, owner.bind system.blockedLock, false, none⟩)
          else
            let oldTop := PiWaitTree.firstEntry mutex.waiters
            let newKey : PiWaitKey Thread := ⟨urgency, registration.key.sequence, waiter⟩
            let waiters := (mutex.waiters.erase registration.key).insert newKey
              (donation.withWaitGeneration registration.generation)
            let newTop := PiWaitTree.firstEntry waiters
            let requeued := system.setWaiters registration.lock waiters
            match requeued.publishLockTopChange owner oldTop newTop with
            | .error error =>
              (requeued.setWaiters registration.lock
                ((waiters.erase newKey).insert registration.key oldDonation),
                .error error)
            | .ok (published, ownerNextLock) =>
              (published.setBlockedOn waiter (some { registration with key := newKey }),
                .ok ⟨owner, ownerNextLock, true, ownerlessWake owner oldTop newTop⟩)

end PiSystem

/-! ## Chain walks -/

structure PiConfig where
  piChainLimit : Nat
  threadCapacity : Nat
  deriving Repr

/-- A walk along a chain of blocked owners. The lock that started it is verified
once, before the first refresh. -/
structure PiWalk (Thread Mutex : Type) where
  current : Thread
  originLock : Option Mutex
  unverified : Bool
  nextLock : Option Mutex
  topTask : Thread
  depth : Nat
  limit : Nat

inductive PiWalkStep (Thread Mutex : Type) where
  | more (walk : PiWalk Thread Mutex)
  | finished (result : Except PiError Unit)

namespace PiWalk

def recomputePiChain (config : PiConfig) (start : Thread)
    (originLock nextLock : Mutex) (topTask : Thread) : PiWalk Thread Mutex :=
  { current := start
    originLock := some originLock
    unverified := true
    nextLock := some nextLock
    topTask := topTask
    depth := 1
    limit := config.piChainLimit }

def recomputePiCleanupChain (config : PiConfig) (start topTask : Thread) : PiWalk Thread Mutex :=
  { current := start
    originLock := none
    unverified := false
    nextLock := none
    topTask := topTask
    depth := 1
    limit := config.threadCapacity }

variable (walk : PiWalk Thread Mutex)

def follow (refresh : PiSystem.PiWaiterRefresh Thread Mutex) :
    PiWalkStep Thread Mutex :=
  if !refresh.changed && walk.originLock.isNone then
    .finished (.ok ())
  else
    match refresh.owner with
    | none => .finished (.ok ())
    | some owner =>
      if owner = walk.topTask then
        .finished (.error .piCycle)
      else if walk.depth = walk.limit then
        .finished (.error (.piChainLimit walk.limit))
      else
        match refresh.ownerNextLock with
        | none => .finished (.ok ())
        | some nextLock =>
          .more { walk with
            current := owner
            nextLock := some nextLock
            depth := walk.depth + 1 }

def ownsOrigin (system : PiSystem Thread Mutex) : Bool :=
  walk.originLock.all (fun origin => (system.mutexes origin).word.owner = some walk.current)

def step (system : PiSystem Thread Mutex) :
    PiSystem Thread Mutex × PiWalkStep Thread Mutex :=
  if walk.limit < walk.depth then
    (system, .finished (.error (.piChainLimit walk.limit)))
  else if walk.unverified then
    if walk.ownsOrigin system then
      (system, .more { walk with unverified := false })
    else
      (system, .finished (.ok ()))
  else
    match system.refreshBlockedWaiterKey walk.current walk.nextLock
      walk.originLock (walk.originLock.map (fun _ => walk.topTask)) with
    | (refreshed, .error error) => (refreshed, .finished (.error error))
    | (refreshed, .ok refresh) => (refreshed, walk.follow refresh)

end PiWalk

/-! ## Calls -/

structure PiWaitToken (Thread Mutex : Type) where
  thread : Thread
  lock : Mutex
  generation : Nat
  deriving DecidableEq

inductive PiCall (Thread Mutex : Type) where
  | lockSlow (lock : Mutex) (waiter : Thread) (sequence : Nat)
  | tryCancel (token : PiWaitToken Thread Mutex)
  | release (lock : Mutex) (oldOwner : Thread)
  | claim (token : PiWaitToken Thread Mutex)
  | setPolicy (thread : Thread) (policy : SchedulePolicy)

def PiCall.caller : PiCall Thread Mutex → Option Thread
  | .lockSlow _ waiter _ => some waiter
  | .tryCancel token => some token.thread
  | .release _ oldOwner => some oldOwner
  | .claim token => some token.thread
  | .setPolicy _ _ => none

inductive PiReturn (Thread Mutex : Type) where
  | acquired
  | waiting (token : PiWaitToken Thread Mutex)
  | cancelled
  | handoffPending
  | released
  | claimed
  | retry
  | policySet
  deriving DecidableEq

/-- The place of a call between two of its sections. -/
inductive PiPhase (Thread Mutex : Type) where
  | start (call : PiCall Thread Mutex)
  | register (lock : Mutex) (waiter : Thread) (key : PiWaitKey Thread)
      (donation : PiDonation Thread)
  | lockWalk (token : PiWaitToken Thread Mutex) (walk : PiWalk Thread Mutex)
  | rollback (token : PiWaitToken Thread Mutex) (error : PiError)
  | rollbackWalk (error : PiError) (walk : PiWalk Thread Mutex)
  | cancelWalk (walk : PiWalk Thread Mutex)
  | releaseWalk (walk : PiWalk Thread Mutex)
  | claimWalk (walk : PiWalk Thread Mutex)
  | policyRefresh (thread : Thread)
  | policyWalk (walk : PiWalk Thread Mutex)
  | done (result : Except PiError (PiReturn Thread Mutex))
  | fatal (code : Nat)

/-- A call that goes on with a walk, or ends with its result. -/
def PiPhase.afterWalk (again : PiWalk Thread Mutex → PiPhase Thread Mutex)
    (failed : PiError → PiPhase Thread Mutex) (result : PiReturn Thread Mutex) :
    PiWalkStep Thread Mutex → PiPhase Thread Mutex
  | .more walk => again walk
  | .finished (.ok ()) => .done (.ok result)
  | .finished (.error error) => failed error

namespace PiSystem

variable (system : PiSystem Thread Mutex)

def lockSlowStart (lock : Mutex) (waiter : Thread) (sequence : Nat) : PiPhase Thread Mutex :=
  let record := system.threads waiter
  if record.blockedOn.isSome then
    .done (.error .waiterAlreadyBlocked)
  else
    .register lock waiter ⟨record.effectivePiWaitUrgency, sequence, waiter⟩
      (system.piDonation waiter)

variable (config : PiConfig) (token : PiWaitToken Thread Mutex)

/-- The walk that a registration starts, if the owner is blocked itself. -/
def lockSlowRegistered
    (owner : Option Thread) (ownerNextLock : Option Mutex) : PiPhase Thread Mutex :=
  match owner, ownerNextLock with
  | some owner, some nextLock =>
    .lockWalk token (PiWalk.recomputePiChain config owner token.lock nextLock token.thread)
  | _, _ => .done (.ok (.waiting token))

def lockSlowRegister (lock : Mutex) (waiter : Thread)
    (key : PiWaitKey Thread) (donation : PiDonation Thread) :
    PiSystem Thread Mutex × PiPhase Thread Mutex :=
  let mutex := system.mutexes lock
  let word := mutex.word
  if word.isUnlocked then
    if !PiWaitTree.isEmpty mutex.waiters then
      (system, .done (.error .staleSchedulerOwnership))
    else
      (system.setWord lock ⟨some waiter, false⟩, .done (.ok .acquired))
  else if word.owner = some waiter then
    (system, .done (.error .waiterOwnsLock))
  else if word.hasWaiters ≠ !PiWaitTree.isEmpty mutex.waiters then
    (system, .done (.error .staleSchedulerOwnership))
  else if word.owner.isNone && !word.isOwnerless then
    (system, .done (.error .ownerlessSelectionMissing))
  else
    let state := (system.threads waiter).waitState.begin
    let generation := state.generation
    let marked := (system.setWord lock ⟨word.owner, true⟩).setWaitState waiter state
    match marked.insertLockWaiter lock word.owner waiter ⟨lock, key, generation⟩
      (donation.withWaitGeneration generation) with
    | .error error =>
      (if PiWaitTree.isEmpty mutex.waiters then
        marked.setWord lock ⟨word.owner, false⟩
      else
        marked, .done (.error error))
    | .ok (inserted, ownerNextLock) =>
      (inserted, lockSlowRegistered config ⟨waiter, lock, generation⟩ word.owner ownerNextLock)

def wordAfterRemoval (lock : Mutex) (owner : Option Thread) : PiSystem Thread Mutex :=
  if PiWaitTree.isEmpty (system.mutexes lock).waiters then
    system.setWord lock ⟨owner, false⟩
  else
    system

/-- The removal of a waiter: `none` leaves a published handover in place. -/
def removeRegisteredWaiter (rejectHandoffTop : Bool) :
    Except PiError (Option (PiSystem Thread Mutex × Option Thread)) :=
  let mutex := system.mutexes token.lock
  if !mutex.word.hasWaiters then
    .error .invalidPiState
  else
    match (system.threads token.thread).blockedOn with
    | none => .error .invalidPiState
    | some registration =>
      if registration.lock ≠ token.lock ∨ registration.generation ≠ token.generation then
        .error .invalidPiState
      else if rejectHandoffTop ∧ mutex.word.isOwnerless ∧
          (PiWaitTree.firstEntry mutex.waiters).map Prod.fst = some registration.key then
        .ok none
      else
        match system.removeLockWaiter token.lock mutex.word.owner token.thread token.generation with
        | .error error => .error error
        | .ok removed =>
          .ok (some (removed.wordAfterRemoval token.lock mutex.word.owner, mutex.word.owner))

def lockSlowRollback (error : PiError) : PiSystem Thread Mutex × PiPhase Thread Mutex :=
  match system.removeRegisteredWaiter token false with
  | .error _ => (system, .fatal 0x5049120e)
  | .ok none => (system, .fatal 0x50491216)
  | .ok (some (removed, none)) => (removed, .done (.error error))
  | .ok (some (removed, some owner)) =>
    (removed, .rollbackWalk error (PiWalk.recomputePiCleanupChain config owner token.thread))

def piWaitTryCancel :
    PiSystem Thread Mutex × PiPhase Thread Mutex :=
  match system.removeRegisteredWaiter token true with
  | .error error => (system, .done (.error error))
  | .ok none => (system, .done (.ok .handoffPending))
  | .ok (some (removed, none)) => (removed, .done (.ok .cancelled))
  | .ok (some (removed, some owner)) =>
    (removed, .cancelWalk (PiWalk.recomputePiCleanupChain config owner token.thread))

/-- Releases a mutex: without waiters it is unlocked, otherwise it has no owner
until a waiter claims it. -/
def piMutexRelease (lock : Mutex) (oldOwner : Thread) :
    PiSystem Thread Mutex × PiPhase Thread Mutex :=
  let mutex := system.mutexes lock
  if mutex.word.owner ≠ some oldOwner then
    (system, .done (.error .invalidPiState))
  else if !mutex.word.hasWaiters then
    if !PiWaitTree.isEmpty mutex.waiters then
      (system, .done (.error .invalidPiState))
    else
      (system.setWord lock ⟨none, false⟩, .done (.ok .released))
  else
    match PiWaitTree.firstEntry mutex.waiters with
    | none => (system, .done (.error .invalidPiState))
    | some selected =>
      if !(entryNamesThread (some selected) && system.entryCanGrant (some selected)) ||
          !PiWaitTree.contains (system.threads oldOwner).donors selected.1 then
        (system, .done (.error .invalidPiState))
      else
        match replaceOwnerLockTopLocked (system.threads oldOwner) (some selected) none with
        | .error error => (system, .done (.error error))
        | .ok record =>
          ((system.setThread oldOwner record).setWord lock ⟨none, true⟩,
            .releaseWalk (PiWalk.recomputePiCleanupChain config oldOwner selected.1.thread))

/-- Removes the selected waiter and makes it the owner of the mutex. A claim that
does not get that far leaves the system alone and ends in the given phase. -/
def claimOwnerlessLockWaiter :
    Except (PiPhase Thread Mutex) (PiSystem Thread Mutex) :=
  let mutex := system.mutexes token.lock
  let claimant := system.threads token.thread
  match claimant.blockedOn with
  | none => .error (.done (.error .invalidPiState))
  | some registration =>
    if registration.lock ≠ token.lock ∨ registration.generation ≠ token.generation then
      .error (.done (.error .invalidPiState))
    else if (PiWaitTree.firstEntry mutex.waiters).map Prod.fst ≠ some registration.key then
      .error (.done (.ok .retry))
    else if !claimant.waitState.canGrant token.generation then
      .error (.done (.error .invalidPiState))
    else
      let waiters := mutex.waiters.erase registration.key
      let newTop := PiWaitTree.firstEntry waiters
      if !(entryNamesThread newTop && system.entryCanGrant newTop) then
        .error (.done (.error .invalidPiState))
      else
        let unblocked := { claimant with blockedOn := none }
        let donated :=
          if newTop.isSome then
            replaceOwnerLockTopLocked unblocked none newTop
          else
            .ok unblocked
        match donated with
        | .error _ => .error (.fatal 0x50491212)
        | .ok record =>
          .ok ((system.setThread token.thread record).setMutex token.lock
            ⟨⟨some token.thread, !PiWaitTree.isEmpty waiters⟩, waiters⟩)

def piMutexClaim :
    PiSystem Thread Mutex × PiPhase Thread Mutex :=
  if !(system.mutexes token.lock).word.isOwnerless then
    (system, .done (.ok .retry))
  else
    match system.claimOwnerlessLockWaiter token with
    | .error phase => (system, phase)
    | .ok claimed =>
      let record := claimed.threads token.thread
      if record.waitState.generation ≠ token.generation then
        (claimed, .fatal 0x50491213)
      else
        (claimed.setWaitState token.thread
          { record.waitState with grantedGeneration := token.generation },
          .claimWalk (PiWalk.recomputePiCleanupChain config token.thread token.thread))

def setThreadPolicy (thread : Thread) (policy : SchedulePolicy) : PiSystem Thread Mutex :=
  let record := system.threads thread
  let update := resolvedPiScheduleUpdate policy (PiWaitTree.firstEntry record.donors)
  system.setThread thread
    { record with
      base := policy
      effective := update.1
      donor := update.2 }

def propagatePolicyChange (thread : Thread) :
    PiSystem Thread Mutex × PiPhase Thread Mutex :=
  match system.refreshBlockedWaiterKey thread none none none with
  | (refreshed, .error _) => (refreshed, .fatal 0x50491216)
  | (refreshed, .ok refresh) =>
    match refresh.owner with
    | none => (refreshed, .done (.ok .policySet))
    | some owner =>
      if !refresh.changed then
        (refreshed, .done (.ok .policySet))
      else if owner = thread then
        (refreshed, .fatal 0x50491216)
      else
        (refreshed, .policyWalk (PiWalk.recomputePiCleanupChain config owner thread))

def startCall :
    PiCall Thread Mutex → PiSystem Thread Mutex × PiPhase Thread Mutex
  | .lockSlow lock waiter sequence =>
    (system, system.lockSlowStart lock waiter sequence)
  | .tryCancel token => system.piWaitTryCancel config token
  | .release lock oldOwner => system.piMutexRelease config lock oldOwner
  | .claim token => system.piMutexClaim config token
  | .setPolicy thread policy =>
    (system.setThreadPolicy thread policy, .policyRefresh thread)

def callStep :
    PiPhase Thread Mutex → PiSystem Thread Mutex × PiPhase Thread Mutex
  | .start call => system.startCall config call
  | .register lock waiter key donation =>
    system.lockSlowRegister config lock waiter key donation
  | .lockWalk token walk =>
    let (walked, step) := walk.step system
    (walked, PiPhase.afterWalk (.lockWalk token) (.rollback token) (.waiting token) step)
  | .rollback token error => system.lockSlowRollback config token error
  | .rollbackWalk error walk =>
    let (walked, step) := walk.step system
    (walked, match step with
      | .more walk => .rollbackWalk error walk
      | .finished (.ok ()) => .done (.error error)
      | .finished (.error _) => .fatal 0x5049120f)
  | .cancelWalk walk =>
    let (walked, step) := walk.step system
    (walked, PiPhase.afterWalk .cancelWalk (fun error => .done (.error error)) .cancelled step)
  | .releaseWalk walk =>
    let (walked, step) := walk.step system
    (walked, PiPhase.afterWalk .releaseWalk (fun _ => .fatal 0x50491211) .released step)
  | .claimWalk walk =>
    let (walked, step) := walk.step system
    (walked, PiPhase.afterWalk .claimWalk (fun _ => .fatal 0x50491214) .claimed step)
  | .policyRefresh thread => system.propagatePolicyChange config thread
  | .policyWalk walk =>
    let (walked, step) := walk.step system
    (walked, PiPhase.afterWalk .policyWalk (fun _ => .fatal 0x50491216) .policySet step)
  | .done result => (system, .done result)
  | .fatal code => (system, .fatal code)

end PiSystem

end TgosKits
