import TgosKits.Sched.PiSections

/-! # The calls of priority inheritance -/

namespace TgosKits

open PiWaitTree PiThread PiMutexWord SortedMap

variable {Thread Mutex : Type}

theorem PiMutexWord.owner_of_isOwnerless {word : PiMutexWord Thread}
    (ownerless : word.isOwnerless = true) : word.owner = none := by
  unfold isOwnerless at ownerless
  rw [Bool.and_eq_true, Option.isNone_iff_eq_none] at ownerless
  exact ownerless.1

variable [LinearOrder Thread]

namespace PiSystem

variable {system : PiSystem Thread Mutex} {lock : Mutex} {thread : Thread}
  {registration : PiWaitRegistration Thread Mutex} {record : PiThread Thread Mutex}

/-! ## Change of policy -/

theorem forall_setThread (holds : Thread → PiThread Thread Mutex → Prop) (own : holds thread record)
    (others : ∀ other, other ≠ thread → holds other (system.threads other)) :
    ∀ other, holds other ((system.setThread thread record).threads other) :=
  (Function.forall_update_iff _ _).mpr ⟨own, others⟩

theorem Linked.setThreadPolicy (linked : system.Linked) (policy : SchedulePolicy) :
    (system.setThreadPolicy thread policy).Linked := by
  have registered : (system.setThreadPolicy thread policy).Registered :=
    linked.toRegistered.congr rfl (forall_setThread (fun other record =>
      record.blockedOn = (system.threads other).blockedOn ∧
        record.waitState = (system.threads other).waitState) ⟨rfl, rfl⟩ fun _ _ => ⟨rfl, rfl⟩)
  have donors : ∀ other, ((system.setThreadPolicy thread policy).threads other).donors =
      (system.threads other).donors :=
    forall_setThread (fun other record => record.donors = (system.threads other).donors) rfl
      fun _ _ => rfl
  refine { registered with donors := ?_, scheduled := ?_ }
  · intro other key donation
    rw [donors other]
    exact linked.donors other key donation
  · exact forall_setThread (fun _ => Scheduled) rfl fun other _ => linked.scheduled other

theorem waitEntry_setThread (blockedOn : record.blockedOn = (system.threads thread).blockedOn) :
    ∀ other, (system.setThread thread record).waitEntry other = system.waitEntry other :=
  forall_setThread (fun other record => record.blockedOn.map _ = system.waitEntry other)
    (congrArg _ blockedOn) fun _ _ => rfl

/-! ## Owner words -/

theorem Linked.hasWaiters {key : PiWaitKey Thread} {donation : PiDonation Thread}
    (linked : system.Linked) (bound : (system.mutexes lock).waiters.get? key = some donation) :
    (system.mutexes lock).word.hasWaiters = true := by
  rw [linked.word, isEmpty_of_bound bound]
  rfl

variable [DecidableEq Mutex] (word : PiMutexWord Thread)

theorem setWord_threads : (system.setWord lock word).threads = system.threads :=
  rfl

theorem setWord_self : (system.setWord lock word).mutexes lock =
      { system.mutexes lock with word := word } :=
  setMutex_self _ _ _

theorem setWord_of_ne {other : Mutex} (ne : other ≠ lock) :
    (system.setWord lock word).mutexes other = system.mutexes other :=
  setMutex_of_ne _ ne _

theorem setWord_waiters (other : Mutex) :
    ((system.setWord lock word).mutexes other).waiters = (system.mutexes other).waiters := by
  by_cases same : other = lock
  · rw [same, setWord_self]
  · rw [setWord_of_ne word same]

theorem Linked.setOwner (linked : system.Linked)
    (empty : isEmpty (system.mutexes lock).waiters = true) (owner : Option Thread) :
    (system.setWord lock ⟨owner, false⟩).Linked := by
  have noFirst := isEmpty_iff.mp empty
  refine
    { waits := ?_, registered := ?_, word := ?_, donors := ?_,
      scheduled := linked.scheduled }
  · intro other found blocked
    rcases linked.waits other found blocked with ⟨donation, waits⟩
    refine ⟨donation, { waits with bound := ?_ }⟩
    rw [setWord_waiters]
    exact waits.bound
  · intro other key donation bound
    rw [setWord_waiters] at bound
    exact linked.registered other key donation bound
  · intro other
    by_cases same : other = lock
    · subst same
      rw [setWord_self]
      simp [empty]
    · rw [setWord_of_ne _ same]
      exact linked.word other
  · intro other key donation
    rw [setWord_threads, linked.donors]
    apply exists_congr
    intro place
    rw [setWord_waiters]
    by_cases same : place = lock
    · subst same
      rw [noFirst]
      simp
    · rw [setWord_of_ne _ same]

theorem waitEntry_setWord (other : Thread) :
    (system.setWord lock word).waitEntry other = system.waitEntry other := by
  simp [waitEntry, setWord_threads, setWord_waiters]

/-! ## Removal -/

variable {token : PiWaitToken Thread Mutex}

section

variable (linked : system.Linked) {rejectHandoffTop : Bool} {selected : PiWaitEntry Thread}
include linked

theorem remove_arrangement {record : PiThread Thread Mutex}
    (blocked : (system.threads thread).blockedOn = some registration)
    (owner : Option Thread) (free : record.blockedOn = none) :
    Arrangement system registration.lock ⟨⟨owner, !isEmpty
          ((system.mutexes registration.lock).waiters.erase registration.key)⟩,
        (system.mutexes registration.lock).waiters.erase registration.key⟩
      thread record := by
  rcases linked.waits thread registration blocked with ⟨donation, waits⟩
  refine
    { tree := ?_, word := rfl, own := by simp [free], named := ?_,
      absent := linked.absent_of_blocked blocked, sameWait := by simp [free] }
  · intro key notThread
    have neOld : key ≠ registration.key := by
      rintro rfl
      exact notThread waits.key_thread
    simp [neOld]
  · intro key found same bound
    rw [get?_erase] at bound
    split_ifs at bound with isOld
    exact absurd (linked.same_place bound waits.bound (same.trans waits.key_thread.symm)).2 isOld

theorem removeRegisteredWaiter_ok
    (blocked : (system.threads token.thread).blockedOn = some registration)
    (lockEq : registration.lock = token.lock)
    (generationEq : registration.generation = token.generation)
    (noHandoff : ¬ (rejectHandoffTop ∧ (system.mutexes token.lock).word.isOwnerless ∧
      (firstEntry (system.mutexes token.lock).waiters).map Prod.fst = some registration.key)) :
    ∃ removed, system.removeRegisteredWaiter token rejectHandoffTop =
          .ok (some (removed, (system.mutexes token.lock).word.owner)) ∧
        Rearranged system removed token.lock token.thread ∧
        (removed.threads token.thread).blockedOn = none := by
  rcases linked.waits token.thread registration blocked with ⟨donation, waits⟩
  have arrangement : Arrangement system registration.lock _ token.thread
      { system.threads token.thread with blockedOn := none } :=
    remove_arrangement linked blocked (system.mutexes registration.lock).word.owner rfl
  have bound := waits.bound
  rw [lockEq] at arrangement bound
  have hasWaiters := linked.hasWaiters bound
  rcases arrangement.publish linked rfl ⟨rfl, rfl, rfl, rfl⟩ with
    ⟨donated, published, rearranged, mutexes, blockedEq, _⟩
  let waiters := (system.mutexes token.lock).waiters.erase registration.key
  let owner := (system.mutexes token.lock).word.owner
  have arranged : system.arrange token.lock ⟨⟨owner, !isEmpty waiters⟩, waiters⟩ token.thread
        { system.threads token.thread with blockedOn := none } =
      ((system.setWaiters token.lock waiters).setBlockedOn token.thread none).setWord
        token.lock ⟨owner, !isEmpty waiters⟩ := by
    unfold arrange setBlockedOn setWord setWaiters setThread setMutex
    simp
  rw [arranged] at published
  rcases publishLockTopChange_change (·.setWord token.lock _) rfl (fun _ _ => ⟨rfl, fun _ => rfl⟩)
    published with
    ⟨before, publishedBefore, beforeEq, beforeMutexes⟩
  have beforeWaiters : (before.mutexes token.lock).waiters = waiters := by
    rw [beforeMutexes]
    exact congrArg PiMutex.waiters (setMutex_self _ _ _)
  have beforeWord : (before.mutexes token.lock).word = ⟨owner, true⟩ := by
    have kept : (((system.setWaiters token.lock waiters).setBlockedOn token.thread
        none).mutexes token.lock).word = (system.mutexes token.lock).word := by
      rw [setBlockedOn, setThread_mutexes, setWaiters, setMutex_self]
    rw [beforeMutexes, kept, ← hasWaiters]
  have removedEq : before.wordAfterRemoval token.lock owner = donated := by
    unfold wordAfterRemoval
    rw [beforeWaiters, ← beforeEq]
    cases empty : isEmpty waiters with
    | true => rfl
    | false =>
      rw [if_neg (by simp)]
      unfold setWord setMutex
      have same : { before.mutexes token.lock with
          word := ⟨owner, !false⟩ } = before.mutexes token.lock := by
        rw [Bool.not_false, ← beforeWord]
      rw [same, Function.update_eq_self]
  refine ⟨donated, ?_, rearranged, blockedEq⟩
  have contained : contains (system.mutexes token.lock).waiters registration.key = true := by
    simp [contains, bound]
  have removes : system.removeLockWaiter token.lock owner token.thread
      token.generation = .ok before := by
    unfold removeLockWaiter
    rw [blocked]
    dsimp only
    rw [if_neg (by simp [generationEq, contained]), publishedBefore]
  unfold removeRegisteredWaiter
  rw [if_neg (by simp [hasWaiters]), blocked]
  dsimp only
  rw [if_neg (by simp [lockEq, generationEq]), if_neg noHandoff, removes]
  dsimp only
  rw [removedEq]

theorem removeRegisteredWaiter_some {removed : PiSystem Thread Mutex} {owner : Option Thread}
    (ran : system.removeRegisteredWaiter token rejectHandoffTop = .ok (some (removed, owner))) :
    system.blockedLock token.thread = some token.lock ∧
      owner = (system.mutexes token.lock).word.owner ∧
      Rearranged system removed token.lock token.thread ∧
      (removed.threads token.thread).blockedOn = none := by
  have ran' := ran
  unfold removeRegisteredWaiter at ran'
  dsimp only at ran'
  split_ifs at ran' with noWaiters
  cases blocked : (system.threads token.thread).blockedOn with
  | none =>
    rw [blocked] at ran'
    cases ran'
  | some registration =>
    rw [blocked] at ran'
    dsimp only at ran'
    split_ifs at ran' with mismatch handoff
    · cases ran'
    rw [not_or, not_not, not_not] at mismatch
    rcases removeRegisteredWaiter_ok linked blocked mismatch.1 mismatch.2
      handoff with ⟨found, foundRan, rearranged, free⟩
    cases ran.symm.trans foundRan
    exact ⟨by simp [blockedLock, blocked, mismatch.1], rfl, rearranged, free⟩

/-! ## Registration -/

/-- The registration of a contender under the urgency it had when its call began. -/
def newRegistration (seen system : PiSystem Thread Mutex) (lock : Mutex)
    (waiter : Thread) (sequence : Nat) : PiWaitRegistration Thread Mutex :=
  { lock := lock
    key := ⟨(seen.threads waiter).effectivePiWaitUrgency, sequence, waiter⟩
    generation := (system.threads waiter).waitState.generation + 1 }

private theorem register_arrangement (seen : PiSystem Thread Mutex) (sequence : Nat)
    (free : (system.threads thread).blockedOn = none) :
    Arrangement system lock ⟨⟨(system.mutexes lock).word.owner, true⟩,
        (system.mutexes lock).waiters.insert (newRegistration seen system lock thread sequence).key
          ((seen.piDonation thread).withWaitGeneration
            (newRegistration seen system lock thread sequence).generation)⟩
      thread
      { system.threads thread with
        blockedOn := some (newRegistration seen system lock thread sequence)
        waitState := (system.threads thread).waitState.begin } := by
  refine
    { tree := ?_, word := ?_, own := ?_, named := ?_,
      absent := fun other key donation _ =>
        linked.absent_of_free free other key donation,
      sameWait := by simp [free] }
  · intro key notThread
    have neNew : key ≠ (newRegistration seen system lock thread sequence).key := by
      rintro rfl
      exact notThread rfl
    simp [neNew]
  · rw [isEmpty_of_bound ((get?_insert _ _ _ _).trans (if_pos rfl))]
    rfl
  · intro found foundEq
    cases foundEq
    exact ⟨_, waits_arrange ((get?_insert _ _ _ _).trans (if_pos rfl))
      (by simp [PiWaitState.canGrant, PiWaitState.begin])⟩
  · intro key found same bound
    by_cases isNew : key = (newRegistration seen system lock thread sequence).key
    · exact ⟨_, by rw [isNew]; rfl⟩
    · rw [get?_insert, if_neg isNew] at bound
      exact absurd same (linked.absent_of_free free lock key found bound)

variable (config : PiConfig)

theorem lockSlowRegister_insert (seen : PiSystem Thread Mutex) (sequence : Nat)
    (free : (system.threads thread).blockedOn = none)
    (inUse : (system.mutexes lock).word.isUnlocked = false)
    (notOwner : (system.mutexes lock).word.owner ≠ some thread) :
    ∃ inserted, system.lockSlowRegister config lock thread
          ⟨(seen.threads thread).effectivePiWaitUrgency, sequence, thread⟩
          (seen.piDonation thread) =
        (inserted, lockSlowRegistered config
          ⟨thread, lock, (system.threads thread).waitState.generation + 1⟩
          (system.mutexes lock).word.owner
          ((system.mutexes lock).word.owner.bind system.blockedLock)) ∧
      Rearranged system inserted lock thread ∧
      (inserted.threads thread).blockedOn =
        some (newRegistration seen system lock thread sequence) ∧
      (seen = system → inserted.Fresh thread) := by
  have arrangement : Arrangement system lock _ thread _ :=
    register_arrangement linked seen sequence free
  rcases arrangement.publish linked rfl ⟨rfl, rfl, rfl, rfl⟩ with
    ⟨inserted, published, rearranged, mutexes, blockedEq, _⟩
  let record := newRegistration seen system lock thread sequence
  let donation := (seen.piDonation thread).withWaitGeneration record.generation
  let marked := (system.setWord lock ⟨(system.mutexes lock).word.owner, true⟩).setWaitState thread
      (system.threads thread).waitState.begin
  have markedTree : (marked.mutexes lock).waiters = (system.mutexes lock).waiters := by
    simp [marked, setWaitState, setThread_mutexes, setWord_self]
  have markedFree : (marked.threads thread).blockedOn = none := by
    simpa [marked, setWaitState, setWord_threads] using free
  have notContained : contains (system.mutexes lock).waiters record.key = false := by
    unfold contains
    cases bound : (system.mutexes lock).waiters.get? record.key with
    | none => rfl
    | some found =>
      exact absurd rfl (linked.absent_of_free free lock record.key found bound)
  have arranged : (marked.setWaiters lock
        ((system.mutexes lock).waiters.insert record.key donation)).setBlockedOn
          thread (some record) =
      system.arrange lock ⟨⟨(system.mutexes lock).word.owner, true⟩,
          (system.mutexes lock).waiters.insert record.key donation⟩ thread
        { system.threads thread with
          blockedOn := some record
          waitState := (system.threads thread).waitState.begin } := by
    simp [marked, arrange, setBlockedOn, setWaitState, setWaiters, setWord, setThread, setMutex]
  have inserts : marked.insertLockWaiter lock (system.mutexes lock).word.owner
      thread record donation = .ok (inserted, (system.mutexes lock).word.owner.bind
          system.blockedLock) := by
    unfold insertLockWaiter
    dsimp only
    rw [markedTree, markedFree, notContained, arranged, if_neg (by simp),
      ← bind_blockedLock_arrange notOwner]
    exact published
  refine ⟨inserted, ?_, rearranged, blockedEq, ?_⟩
  · unfold lockSlowRegister
    dsimp only
    rw [if_neg (by simp [inUse]), if_neg notOwner, if_neg (by simp [linked.word]), if_neg ?_]
    · split
      · rename_i error failed
        cases failed.symm.trans inserts
      · rename_i inserted' nextLock' ran
        cases ran.symm.trans inserts
        rfl
    · unfold isUnlocked at inUse
      unfold isOwnerless
      cases isOwner : (system.mutexes lock).word.owner with
      | none => simp_all
      | some owner => simp
  · rintro rfl
    apply rearranged.fresh notOwner blockedEq rfl
    rw [mutexes, newRegistration, arrange_mutex]
    simp

/-! ## Release -/

/-- What a release leaves alone when a mutex with waiters loses its owner. -/
structure Released (system released : PiSystem Thread Mutex) (lock : Mutex)
    (oldOwner : Thread) : Prop where
  linked : released.Linked
  owner : (released.mutexes lock).word.owner = none
  owners : ∀ other, other ≠ lock →
    (released.mutexes other).word.owner = (system.mutexes other).word.owner
  entries : ∀ other, released.waitEntry other = system.waitEntry other
  schedule : ∀ other, other ≠ oldOwner →
    SameSchedule (released.threads other) (system.threads other)

private theorem release_moves (first : firstEntry (system.mutexes lock).waiters = some selected) :
    Moves system (system.setWord lock ⟨none, true⟩) lock selected.1.thread := by
  have bound := (firstEntry_eq_some_iff.mp first).1
  rcases linked.exists_waits bound with ⟨generation, blocked, waits⟩
  have tree : ((system.setWord lock ⟨none, true⟩).mutexes lock).waiters = _ := setWord_waiters _ _
  refine
    { others := fun other ne => setMutex_of_ne _ ne _
      tree := fun key _ => by rw [tree]
      kept := fun _ _ => ⟨rfl, rfl⟩
      word := ?_, own := ?_, named := ?_
      absent := linked.absent_of_blocked blocked
      sameWait := ?_ }
  · rw [tree, isEmpty_of_bound bound, setWord_self]
    rfl
  · intro found foundBlocked
    cases blocked.symm.trans foundBlocked
    exact ⟨selected.2, { waits with bound := tree.symm ▸ bound }⟩
  · intro key donation same keyBound
    rw [tree] at keyBound
    rw [← same]
    exact linked.registered lock key donation keyBound
  · intro old new oldBlocked newBlocked
    cases oldBlocked.symm.trans newBlocked
    rfl

private theorem piMutexRelease_handover (isOwner : (system.mutexes lock).word.owner = some thread)
    (first : firstEntry (system.mutexes lock).waiters = some selected) :
    ∃ released, system.piMutexRelease config lock thread =
        (released, .releaseWalk (.recomputePiCleanupChain config thread selected.1.thread)) ∧
      Released system released lock thread := by
  have bound := (firstEntry_eq_some_iff.mp first).1
  have moves := release_moves linked first
  have hasWaiters := linked.hasWaiters bound
  have entry := linked.entry_first lock
  rw [first] at entry
  have held : (system.threads thread).donors.get? selected.1 = some selected.2 :=
    (linked.donors thread selected.1 selected.2).mpr ⟨lock, isOwner, first⟩
  let record := (system.threads thread).withDonors
    (replaceEntry (system.threads thread).donors (some selected) none)
  have replaced : replaceOwnerLockTopLocked (system.threads thread) (some selected) none =
      .ok record := by
    apply replaceOwnerLockTopLocked_eq (linked.scheduled thread)
    · intro old isOld
      cases isOld
      exact held
    · simp
    · simp
  refine ⟨(system.setThread thread record).setWord lock ⟨none, true⟩, ?_, ?_⟩
  · unfold piMutexRelease
    rw [if_neg (by simp [isOwner]), if_neg (by simp [hasWaiters]), first]
    dsimp only
    rw [if_neg (by simp [entry, contains, held]), replaced]
  · refine
      { linked := ?_, owner := ?_, owners := ?_, entries := ?_, schedule := ?_ }
    · refine linked.of_replaced moves rfl ?_ ?_ ?_
      · exact forall_setThread (fun other found => found.blockedOn =
          (system.threads other).blockedOn ∧ found.waitState = (system.threads other).waitState)
          ⟨rfl, rfl⟩ fun _ _ => ⟨rfl, rfl⟩
      · exact forall_setThread (fun _ => Scheduled) rfl fun other _ => linked.scheduled other
      · rw [setWord_self, isOwner, first]
        refine forall_setThread (fun other found => found.donors = replaceEntry
          (system.threads other).donors (if some thread = some other then some selected else none)
            none) ?_ ?_
        · rw [if_pos rfl]
          rfl
        · intro other ne
          rw [if_neg (by simpa using ne.symm)]
          rfl
    · rw [setWord_self]
    · intro other ne
      rw [setWord_of_ne _ ne]
      rfl
    · intro other
      rw [waitEntry_setWord]
      exact waitEntry_setThread (by rfl) other
    · intro other ne
      rw [setWord_threads, setThread_of_ne _ ne]
      exact ⟨rfl, rfl, rfl, rfl⟩

/-- A release either fails and changes nothing, unlocks a mutex without waiters, or
hands a mutex over. -/
theorem piMutexRelease_cases (lock : Mutex) (thread : Thread) :
    (∃ error, system.piMutexRelease config lock thread = (system, .done (.error error))) ∨
      (isEmpty (system.mutexes lock).waiters = true ∧ system.piMutexRelease config lock thread =
          (system.setWord lock ⟨none, false⟩, .done (.ok .released))) ∨
      ∃ released selected, (system.mutexes lock).word.owner = some thread ∧
        firstEntry (system.mutexes lock).waiters = some selected ∧
        system.piMutexRelease config lock thread =
          (released, .releaseWalk (.recomputePiCleanupChain config thread selected.1.thread)) ∧
        Released system released lock thread := by
  by_cases isOwner : (system.mutexes lock).word.owner = some thread
  · cases first : firstEntry (system.mutexes lock).waiters with
    | none =>
      have empty := isEmpty_iff.mpr first
      refine .inr (.inl ⟨empty, ?_⟩)
      unfold piMutexRelease
      rw [if_neg (by simp [isOwner]), if_pos (by simp [linked.word, empty]),
        if_neg (by simp [empty])]
    | some selected =>
      rcases piMutexRelease_handover linked config isOwner first with ⟨released, ran, changes⟩
      exact .inr (.inr ⟨released, selected, isOwner, rfl, ran, changes⟩)
  · refine .inl ⟨.invalidPiState, ?_⟩
    unfold piMutexRelease
    rw [if_pos isOwner]

end

/-! ## Claim -/

private theorem entryCanGrant_arrange {mutex : PiMutex Thread}
    (kept : record.waitState = (system.threads thread).waitState)
    {top : Option (PiWaitEntry Thread)} :
    (system.arrange lock mutex thread record).entryCanGrant top = system.entryCanGrant top := by
  have states : ∀ other, ((system.arrange lock mutex thread record).threads other).waitState =
      (system.threads other).waitState :=
    forall_setThread (fun other found => found.waitState = _) kept fun _ _ => rfl
  simp [entryCanGrant, states]

/-- What a claim leaves alone when the selected waiter becomes the owner. -/
structure Claimed (system claimed : PiSystem Thread Mutex) (lock : Mutex)
    (claimant : Thread) : Prop where
  linked : claimed.Linked
  free : (claimed.threads claimant).blockedOn = none
  owner : (claimed.mutexes lock).word.owner = some claimant
  owners : ∀ other, other ≠ lock →
    (claimed.mutexes other).word.owner = (system.mutexes other).word.owner
  entries : ∀ other, other ≠ claimant → claimed.waitEntry other = system.waitEntry other
  schedule : ∀ other, other ≠ claimant →
    SameSchedule (claimed.threads other) (system.threads other)

def claimedRecord (system : PiSystem Thread Mutex) (token : PiWaitToken Thread Mutex)
    (newTop : Option (PiWaitEntry Thread)) : PiThread Thread Mutex :=
  ({ system.threads token.thread with blockedOn := none } : PiThread Thread Mutex).withDonors
      (replaceEntry (system.threads token.thread).donors none newTop)

section

variable (linked : system.Linked)
  (blocked : (system.threads token.thread).blockedOn = some registration)
  (lockEq : registration.lock = token.lock)
  (generationEq : registration.generation = token.generation) {donation : PiDonation Thread}
include linked blocked lockEq generationEq

theorem claimOwnerlessLockWaiter_ok (ownerless : (system.mutexes token.lock).word.owner = none)
    (first : firstEntry (system.mutexes token.lock).waiters = some (registration.key, donation)) :
    system.claimOwnerlessLockWaiter token =
      .ok ((system.setThread token.thread (claimedRecord system token
          (firstEntry ((system.mutexes token.lock).waiters.erase
            registration.key)))).setMutex token.lock
        ⟨⟨some token.thread, !isEmpty ((system.mutexes token.lock).waiters.erase registration.key)⟩,
          (system.mutexes token.lock).waiters.erase registration.key⟩) := by
  rcases linked.waits token.thread registration blocked with ⟨found, waits⟩
  have grantable := waits.grantable
  rw [generationEq] at grantable
  have arrangement : Arrangement system registration.lock _ token.thread
      { system.threads token.thread with blockedOn := none } :=
    remove_arrangement linked blocked none rfl
  rw [lockEq] at arrangement
  have registered := arrangement.moves.registered linked.toRegistered
  have entry := registered.entry_first token.lock
  rw [arrange_mutex, entryCanGrant_arrange (by rfl)] at entry
  generalize newTopEq : firstEntry
    ((system.mutexes token.lock).waiters.erase registration.key) = newTop at entry
  have newTopBound : ∀ new, newTop = some new →
      (system.mutexes token.lock).waiters.get? new.1 = some new.2 := by
    intro new isNew
    rw [isNew] at newTopEq
    have newBound := (firstEntry_eq_some_iff.mp newTopEq).1
    rw [get?_erase] at newBound
    split_ifs at newBound
    exact newBound
  have donated : (if newTop.isSome then
        replaceOwnerLockTopLocked { system.threads token.thread with blockedOn := none } none newTop
      else .ok { system.threads token.thread with blockedOn := none }) =
      .ok (claimedRecord system token newTop) := by
    have scheduled : Scheduled
        ({ system.threads token.thread with blockedOn := none } : PiThread Thread Mutex) :=
      linked.scheduled token.thread
    cases newTop with
    | none => exact congrArg Except.ok scheduled.withDonors_self.symm
    | some new =>
      rw [if_pos (show (some new).isSome = true from rfl)]
      apply replaceOwnerLockTopLocked_eq scheduled
      · simp
      · intro top donation isTop held
        cases isTop
        rcases (linked.donors token.thread new.1 donation).mp held with
          ⟨place, placeOwner, placeFirst⟩
        have placeBound := (firstEntry_eq_some_iff.mp placeFirst).1
        have samePlace := (linked.same_place placeBound (newTopBound new rfl) rfl).1
        rw [samePlace, ownerless] at placeOwner
        cases placeOwner
      · simp
  unfold claimOwnerlessLockWaiter
  dsimp only
  rw [blocked]
  dsimp only
  rw [if_neg (by simp [lockEq, generationEq]), if_neg (by simp [first]),
    if_neg (by simp [grantable]), newTopEq, if_neg (by simp [entry]),
    donated]

private theorem piMutexClaim_ok (config : PiConfig)
    (ownerless : (system.mutexes token.lock).word.isOwnerless = true)
    (first : firstEntry (system.mutexes token.lock).waiters = some (registration.key, donation)) :
    ∃ claimed, system.piMutexClaim config token =
        (claimed, .claimWalk (.recomputePiCleanupChain config token.thread token.thread)) ∧
      Claimed system claimed token.lock token.thread := by
  have noOwner := owner_of_isOwnerless ownerless
  rcases linked.waits token.thread registration blocked with ⟨found, waits⟩
  have grantable := waits.grantable
  rw [generationEq] at grantable
  unfold PiWaitState.canGrant at grantable
  simp only [Bool.and_eq_true, decide_eq_true_eq] at grantable
  let waiters := (system.mutexes token.lock).waiters.erase registration.key
  let record := claimedRecord system token (firstEntry waiters)
  let granted : PiThread Thread Mutex :=
    { record with
      waitState := { record.waitState with
        grantedGeneration := token.generation } }
  have arrangement : Arrangement system registration.lock _ token.thread granted :=
    remove_arrangement linked blocked (some token.thread) rfl
  rw [lockEq] at arrangement
  have moves := arrangement.moves
  refine ⟨system.arrange token.lock ⟨⟨some token.thread, !isEmpty waiters⟩, waiters⟩ token.thread
    granted, ?_, ?_⟩
  · have arranged : ((system.setThread token.thread record).setMutex token.lock
          ⟨⟨some token.thread, !isEmpty waiters⟩, waiters⟩).setWaitState token.thread
            { record.waitState with grantedGeneration := token.generation } =
        system.arrange token.lock ⟨⟨some token.thread, !isEmpty waiters⟩, waiters⟩
          token.thread granted := by
      simp [arrange, setWaitState, setThread, setMutex, granted]
    have recordEq : ((system.setThread token.thread record).setMutex token.lock
        ⟨⟨some token.thread, !isEmpty waiters⟩, waiters⟩).threads token.thread = record :=
      setThread_self _ _ _
    unfold piMutexClaim
    rw [if_neg (by simp [ownerless]), claimOwnerlessLockWaiter_ok linked blocked
      lockEq generationEq noOwner first]
    dsimp only
    have generationKept : record.waitState.generation = token.generation := grantable.1
    rw [recordEq, if_neg (not_not.mpr generationKept)]
    exact congrArg (fun claimed => (claimed, _)) arranged
  · refine
      { linked := ?_, free := ?_, owner := ?_, owners := ?_, entries := ?_, schedule := ?_ }
    · refine linked.of_replaced moves rfl (fun _ => ⟨rfl, rfl⟩) ?_ ?_
      · exact forall_setThread (fun _ => Scheduled) rfl fun other _ => linked.scheduled other
      · rw [arrange_mutex, noOwner]
        simp only [reduceCtorEq, if_false]
        refine forall_setThread (fun other found => found.donors = replaceEntry
          (system.threads other).donors none (if some token.thread = some other then
            firstEntry waiters else none)) ?_ ?_
        · rw [if_pos rfl]
          rfl
        · intro other ne
          rw [if_neg (by simpa using ne.symm)]
          rfl
    · rw [arrange_thread]
      rfl
    · rw [arrange_mutex]
    · intro other ne
      rw [arrange_mutex_of_ne ne]
    · intro other ne
      exact moves.waitEntry linked.toRegistered ne
    · intro other ne
      rw [arrange_thread_of_ne ne]
      exact ⟨rfl, rfl, rfl, rfl⟩

end

/-- A claim either ends without a change or makes the selected waiter the owner. -/
theorem piMutexClaim_cases (config : PiConfig) (linked : system.Linked)
    (token : PiWaitToken Thread Mutex) :
    (∃ result, system.piMutexClaim config token = (system, .done result)) ∨ ∃ claimed,
        system.blockedLock token.thread = some token.lock ∧
        (system.mutexes token.lock).word.owner = none ∧
        system.piMutexClaim config token =
          (claimed, .claimWalk (.recomputePiCleanupChain config token.thread token.thread)) ∧
        Claimed system claimed token.lock token.thread := by
  cases ownerless : (system.mutexes token.lock).word.isOwnerless with
  | false => exact .inl ⟨.ok .retry, by simp [piMutexClaim, ownerless]⟩
  | true =>
    cases blocked : (system.threads token.thread).blockedOn with
    | none =>
      exact .inl ⟨.error .invalidPiState,
        by simp [piMutexClaim, claimOwnerlessLockWaiter, ownerless, blocked]⟩
    | some registration =>
      by_cases mismatch : registration.lock ≠ token.lock ∨
          registration.generation ≠ token.generation
      · exact .inl ⟨.error .invalidPiState,
          by simp [piMutexClaim, claimOwnerlessLockWaiter, ownerless, blocked, if_pos mismatch]⟩
      by_cases notTop : (firstEntry
          (system.mutexes token.lock).waiters).map Prod.fst ≠ some registration.key
      · exact .inl ⟨.ok .retry, by simp [piMutexClaim, claimOwnerlessLockWaiter, ownerless,
          blocked, if_neg mismatch, if_pos notTop]⟩
      rw [not_or, not_not, not_not] at mismatch
      rw [not_not, Option.map_eq_some_iff] at notTop
      rcases notTop with ⟨⟨key, donation⟩, first, rfl⟩
      rcases piMutexClaim_ok linked blocked mismatch.1 mismatch.2 config ownerless first with
        ⟨claimed, ran, changes⟩
      exact .inr ⟨claimed, by simp [blockedLock, blocked, mismatch.1],
        owner_of_isOwnerless ownerless, ran, changes⟩

end PiSystem

end TgosKits
