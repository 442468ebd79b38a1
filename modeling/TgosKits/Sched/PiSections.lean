import TgosKits.Sched.PiLinks

/-! # The sections of priority inheritance -/

namespace TgosKits

open PiWaitTree Option PiThread

variable {Thread Mutex : Type} [LinearOrder Thread]

namespace PiSystem

/-- The registration of a thread with the donation stored under it. -/
def waitEntry (system : PiSystem Thread Mutex) (thread : Thread) :
    Option (PiWaitRegistration Thread Mutex × Option (PiDonation Thread)) :=
  (system.threads thread).blockedOn.map (fun registration => (registration,
    (system.mutexes registration.lock).waiters.get? registration.key))

def Fresh (system : PiSystem Thread Mutex) (thread : Thread) : Prop :=
  ∀ registration, (system.threads thread).blockedOn = some registration → registration.key.urgency =
        (system.threads thread).effectivePiWaitUrgency ∧
      (system.mutexes registration.lock).waiters.get? registration.key =
        some ((system.piDonation thread).withWaitGeneration registration.generation)

def WaitsFor (system : PiSystem Thread Mutex) (waiter holder : Thread) : Prop :=
  ∃ lock, system.blockedLock waiter = some lock ∧ (system.mutexes lock).word.owner = some holder

variable {system : PiSystem Thread Mutex}

theorem WaitsFor.functional {waiter holder other : Thread} (waits : system.WaitsFor waiter holder)
    (waits' : system.WaitsFor waiter other) : holder = other := by
  rcases waits with ⟨lock, blocked, owner⟩
  rcases waits' with ⟨lock', blocked', owner'⟩
  cases blocked.symm.trans blocked'
  exact some.inj (owner.symm.trans owner')

/-- The mutex, the arrival order and the generation of a wait, which its urgency
does not change. -/
def place (system : PiSystem Thread Mutex) (thread : Thread) : Option (Mutex × Nat × Nat) :=
  (system.threads thread).blockedOn.map (fun registration =>
    (registration.lock, registration.key.sequence, registration.generation))

variable {other requeued : PiSystem Thread Mutex} {thread : Thread}
  {registration : PiWaitRegistration Thread Mutex}

theorem blockedLock_eq_of_place (same : other.place thread = system.place thread) :
    other.blockedLock thread = system.blockedLock thread := by
  have locks := congrArg (Option.map Prod.fst) same
  simpa [place, blockedLock, Function.comp_def] using locks

section

variable (same : other.waitEntry thread = system.waitEntry thread)
include same

theorem place_eq_of_waitEntry : other.place thread = system.place thread := by
  have places := congrArg (Option.map (fun entry => (entry.1.lock,
    entry.1.key.sequence, entry.1.generation))) same
  simpa [waitEntry, place, Function.comp_def] using places

theorem blockedLock_eq_of_waitEntry : other.blockedLock thread = system.blockedLock thread :=
  blockedLock_eq_of_place (place_eq_of_waitEntry same)

theorem blockedOn_eq_of_waitEntry :
    (other.threads thread).blockedOn = (system.threads thread).blockedOn := by
  have registrations := congrArg (Option.map Prod.fst) same
  simpa [waitEntry, Function.comp_def] using registrations

theorem stored_eq_of_waitEntry (blocked : (system.threads thread).blockedOn = some registration) :
    (other.mutexes registration.lock).waiters.get? registration.key =
      (system.mutexes registration.lock).waiters.get? registration.key := by
  have blockedEq := blockedOn_eq_of_waitEntry same
  unfold waitEntry at same
  rw [blockedEq, blocked] at same
  simpa using same

end

theorem donation_congr (schedule : SameSchedule (other.threads thread) (system.threads thread)) :
    (other.threads thread).effectivePiWaitUrgency = (system.threads thread).effectivePiWaitUrgency ∧
      other.piDonation thread = system.piDonation thread := by
  unfold effectivePiWaitUrgency piDonation
  dsimp only
  rw [schedule.2.1, schedule.2.2.1]
  exact ⟨rfl, rfl⟩

theorem Fresh.congr (fresh : system.Fresh thread)
    (same : other.waitEntry thread = system.waitEntry thread)
    (schedule : SameSchedule (other.threads thread) (system.threads thread)) :
    other.Fresh thread := by
  intro registration blocked
  rw [blockedOn_eq_of_waitEntry same] at blocked
  rcases donation_congr schedule with ⟨urgencyEq, donationEq⟩
  rw [stored_eq_of_waitEntry same blocked, donationEq, urgencyEq]
  exact fresh registration blocked

theorem Registered.tree_eq_of_entries {lock : Mutex}
    (registered : system.Registered) (registered' : other.Registered)
    (entries : ∀ waiter, system.blockedLock waiter = some lock ∨
      other.blockedLock waiter = some lock → other.waitEntry waiter = system.waitEntry waiter) :
    (other.mutexes lock).waiters = (system.mutexes lock).waiters := by
  apply SortedMap.ext_get?
  intro key
  apply ext
  intro donation
  constructor
  · intro bound
    rcases registered'.registered lock key donation bound with ⟨generation, blocked⟩
    have same := (entries key.thread (.inr (by simp [blockedLock, blocked]))).symm
    exact (stored_eq_of_waitEntry same blocked).trans bound
  · intro bound
    rcases registered.registered lock key donation bound with ⟨generation, blocked⟩
    have same := entries key.thread (.inl (by simp [blockedLock, blocked]))
    exact (stored_eq_of_waitEntry same blocked).trans bound

theorem Linked.sameSchedule_of_entries (linked : system.Linked)
    (linked' : other.Linked) (owners : ∀ lock, (other.mutexes lock).word.owner =
      (system.mutexes lock).word.owner)
    (baseEq : (other.threads thread).base = (system.threads thread).base)
    (entries : ∀ waiter, system.WaitsFor waiter thread ∨
      other.WaitsFor waiter thread → other.waitEntry waiter = system.waitEntry waiter) :
    SameSchedule (other.threads thread) (system.threads thread) := by
  have trees : ∀ lock, (system.mutexes lock).word.owner = some thread →
      (other.mutexes lock).waiters = (system.mutexes lock).waiters := by
    intro lock isOwner
    apply linked.tree_eq_of_entries linked'.toRegistered
    rintro waiter (blocked | blocked)
    · exact entries waiter (.inl ⟨lock, blocked, isOwner⟩)
    · exact entries waiter (.inr ⟨lock, blocked, (owners lock).trans isOwner⟩)
  have donorsEq : (other.threads thread).donors = (system.threads thread).donors := by
    apply SortedMap.ext_get?
    intro key
    apply ext
    intro donation
    rw [linked.donors, linked'.donors]
    constructor
    · rintro ⟨lock, isOwner, first⟩
      rw [owners lock] at isOwner
      exact ⟨lock, isOwner, trees lock isOwner ▸ first⟩
    · rintro ⟨lock, isOwner, first⟩
      exact ⟨lock, (owners lock).trans isOwner, (trees lock isOwner).symm ▸ first⟩
  have scheduled := linked.scheduled thread
  have scheduled' := linked'.scheduled thread
  unfold Scheduled at scheduled scheduled'
  rw [baseEq, donorsEq, ← scheduled, Prod.mk.injEq] at scheduled'
  exact ⟨baseEq, scheduled'.1, scheduled'.2, donorsEq⟩

theorem Moves.waitEntry {moved : PiSystem Thread Mutex} {lock : Mutex}
    {other : Thread} (moves : Moves system moved lock thread)
    (registered : system.Registered) (ne : other ≠ thread) :
    moved.waitEntry other = system.waitEntry other := by
  unfold PiSystem.waitEntry
  rw [(moves.kept other ne).1]
  cases blocked : (system.threads other).blockedOn with
  | none => rfl
  | some registration =>
    rcases registered.waits other registration blocked with ⟨donation, waits⟩
    simp [moves.stored (waits.key_thread ▸ ne)]

theorem Registered.absent_of_blocked (registered : system.Registered)
    (blocked : (system.threads thread).blockedOn = some registration) :
    ∀ other key donation, other ≠ registration.lock →
      (system.mutexes other).waiters.get? key = some donation → key.thread ≠ thread := by
  intro other key donation ne bound same
  rcases registered.registered other key donation bound with ⟨generation, blocked'⟩
  rw [same, blocked, some.injEq] at blocked'
  exact ne (congrArg PiWaitRegistration.lock blocked').symm

theorem Registered.absent_of_free (registered : system.Registered)
    (free : (system.threads thread).blockedOn = none) :
    ∀ other key donation, (system.mutexes other).waiters.get? key = some donation →
        key.thread ≠ thread := by
  intro other key donation bound same
  rcases registered.registered other key donation bound with ⟨generation, blocked⟩
  cases free.symm.trans (same ▸ blocked)

/-- The trees agree, and owners and base policies are as before. -/
structure Keeps (system result : PiSystem Thread Mutex) : Prop where
  linked : result.Linked
  owners : ∀ lock, (result.mutexes lock).word.owner = (system.mutexes lock).word.owner
  base : ∀ thread, (result.threads thread).base = (system.threads thread).base

theorem Keeps.trans (keeps : Keeps system other) (keeps' : Keeps other requeued) :
    Keeps system requeued where
  linked := keeps'.linked
  owners := fun lock => (keeps'.owners lock).trans (keeps.owners lock)
  base := fun thread => (keeps'.base thread).trans (keeps.base thread)

theorem Keeps.waitsFor_iff {waiter holder : Thread} (keeps : Keeps system other)
    (same : other.place waiter = system.place waiter) :
    other.WaitsFor waiter holder ↔ system.WaitsFor waiter holder := by
  simp [WaitsFor, blockedLock_eq_of_place same, keeps.owners]

section Arranged

variable [DecidableEq Mutex]

def arrange (system : PiSystem Thread Mutex) (lock : Mutex)
    (mutex : PiMutex Thread) (thread : Thread)
    (record : PiThread Thread Mutex) : PiSystem Thread Mutex :=
  (system.setMutex lock mutex).setThread thread record

variable {lock : Mutex} {mutex : PiMutex Thread} {thread : Thread} {record : PiThread Thread Mutex}

theorem arrange_mutex : (system.arrange lock mutex thread record).mutexes lock = mutex :=
  setMutex_self _ _ _

theorem arrange_mutex_of_ne {other : Mutex} (ne : other ≠ lock) :
    (system.arrange lock mutex thread record).mutexes other = system.mutexes other :=
  setMutex_of_ne _ ne _

theorem arrange_thread : (system.arrange lock mutex thread record).threads thread = record :=
  setThread_self _ _ _

theorem arrange_thread_of_ne {other : Thread} (ne : other ≠ thread) :
    (system.arrange lock mutex thread record).threads other = system.threads other :=
  setThread_of_ne _ ne _

/-- The entry of a thread may carry an urgency that was read in an earlier system. -/
theorem waits_arrange {seen : PiSystem Thread Mutex} {sequence generation : Nat}
    (stored : mutex.waiters.get? ⟨(seen.threads thread).effectivePiWaitUrgency, sequence,
      thread⟩ = some ((seen.piDonation thread).withWaitGeneration generation))
    (grantable : record.waitState.canGrant generation = true) :
    (system.arrange lock mutex thread record).Waits thread
      ⟨lock, ⟨(seen.threads thread).effectivePiWaitUrgency, sequence, thread⟩, generation⟩
      ((seen.piDonation thread).withWaitGeneration generation) where
  bound := by rwa [arrange_mutex]
  key_thread := rfl
  waiter_eq := rfl
  generation_eq := rfl
  urgency_eq := rfl
  boost_eq := rfl
  grantable := by rwa [arrange_thread]

theorem bind_blockedLock_arrange {owner : Option Thread} (ne : owner ≠ some thread) :
    owner.bind (system.arrange lock mutex thread record).blockedLock =
      owner.bind system.blockedLock := by
  cases owner with
  | none => rfl
  | some owner =>
    unfold blockedLock
    rw [bind_some, arrange_thread_of_ne (fun same => ne (congrArg some same))]
    rfl

/-- The conditions on the one mutex and the one thread that change. -/
structure Arrangement (system : PiSystem Thread Mutex) (lock : Mutex)
    (mutex : PiMutex Thread) (thread : Thread) (record : PiThread Thread Mutex) : Prop where
  tree : ∀ key : PiWaitKey Thread, key.thread ≠ thread →
    mutex.waiters.get? key = (system.mutexes lock).waiters.get? key
  word : mutex.word.hasWaiters = !isEmpty mutex.waiters
  own : ∀ registration, record.blockedOn = some registration →
    ∃ donation, (system.arrange lock mutex thread record).Waits thread registration donation
  named : ∀ key donation, key.thread = thread → mutex.waiters.get? key = some donation →
      ∃ generation, record.blockedOn = some ⟨lock, key, generation⟩
  absent : ∀ other key donation, other ≠ lock →
    (system.mutexes other).waiters.get? key = some donation → key.thread ≠ thread
  sameWait : ∀ old new, (system.threads thread).blockedOn = some old →
    record.blockedOn = some new → old.generation = new.generation

theorem Arrangement.moves (arrangement : Arrangement system lock mutex thread record) :
    Moves system (system.arrange lock mutex thread record) lock thread where
  others := fun _ ne => arrange_mutex_of_ne ne
  tree := by
    rw [arrange_mutex]
    exact arrangement.tree
  kept := by
    intro other ne
    rw [arrange_thread_of_ne ne]
    exact ⟨rfl, rfl⟩
  word := by
    rw [arrange_mutex]
    exact arrangement.word
  own := by
    rw [arrange_thread]
    exact arrangement.own
  named := by
    rw [arrange_mutex, arrange_thread]
    exact arrangement.named
  absent := arrangement.absent
  sameWait := by
    rw [arrange_thread]
    exact arrangement.sameWait

/-- What a section leaves alone when one thread moves in the tree of one mutex and
the owner of that mutex follows. -/
structure Rearranged (system result : PiSystem Thread Mutex) (lock : Mutex)
    (thread : Thread) : Prop extends Keeps system result where
  entries : ∀ other, other ≠ thread → result.waitEntry other = system.waitEntry other
  schedule : ∀ other, (system.mutexes lock).word.owner ≠ some other →
    SameSchedule (result.threads other) (system.threads other)

section

omit [DecidableEq Mutex]

variable {result : PiSystem Thread Mutex} (rearranged : Rearranged system result lock thread)
include rearranged

theorem Rearranged.places (other : Thread) (ne : other ≠ thread) :
    result.place other = system.place other :=
  place_eq_of_waitEntry (rearranged.entries other ne)

theorem Rearranged.fresh
    (notOwner : (system.mutexes lock).word.owner ≠ some thread)
    (blocked : (result.threads thread).blockedOn = some registration)
    (urgency : registration.key.urgency = (system.threads thread).effectivePiWaitUrgency)
    (stored : (result.mutexes registration.lock).waiters.get? registration.key =
      some ((system.piDonation thread).withWaitGeneration registration.generation)) :
    result.Fresh thread := by
  rcases donation_congr (rearranged.schedule thread notOwner) with ⟨urgencyEq, donationEq⟩
  intro found foundBlocked
  cases blocked.symm.trans foundBlocked
  rw [urgencyEq, donationEq]
  exact ⟨urgency, stored⟩

end

theorem Arrangement.publish (linked : system.Linked)
    (arrangement : Arrangement system lock mutex thread record)
    (ownerEq : mutex.word.owner = (system.mutexes lock).word.owner)
    (recordEq : SameSchedule record (system.threads thread)) :
    ∃ donated, (system.arrange lock mutex thread record).publishLockTopChange
          (system.mutexes lock).word.owner (firstEntry (system.mutexes lock).waiters)
          (firstEntry mutex.waiters) =
        .ok (donated, (system.mutexes lock).word.owner.bind
          (system.arrange lock mutex thread record).blockedLock) ∧
      Rearranged system donated lock thread ∧
      donated.mutexes = (system.arrange lock mutex thread record).mutexes ∧
      (donated.threads thread).blockedOn = record.blockedOn ∧
      (donated.threads thread).waitState = record.waitState := by
  have moves := arrangement.moves
  have registered := moves.registered linked.toRegistered
  have schedule : ∀ other, SameSchedule
      ((system.arrange lock mutex thread record).threads other) (system.threads other) := by
    intro other
    by_cases same : other = thread
    · subst same
      rw [arrange_thread]
      exact recordEq
    · rw [arrange_thread_of_ne same]
      exact ⟨rfl, rfl, rfl, rfl⟩
  have newOwner : ((system.arrange lock mutex thread record).mutexes
      lock).word.owner = (system.mutexes lock).word.owner := by
    rw [arrange_mutex]
    exact ownerEq
  have donatedLinked := linked.donate schedule moves newOwner
  have entries := registered.entry_first lock
  have replaced : ∀ owner, (system.mutexes lock).word.owner = some owner → _ := fun owner isOwner =>
      linked.replaceOwnerLockTopLocked_ok schedule moves isOwner
  rw [arrange_mutex] at donatedLinked entries replaced
  have kept := @donate_kept _ _ _ (system.arrange lock mutex thread record)
    (system.mutexes lock).word.owner (firstEntry (system.mutexes lock).waiters)
    (firstEntry mutex.waiters)
  refine ⟨_, publishLockTopChange_eq _ _ _ (linked.entry_first lock).1
    entries.1 entries.2 replaced, ?_, donate_mutexes _ _ _, ?_, ?_⟩
  · refine
      { linked := donatedLinked, owners := ?_, base := ?_, entries := ?_,
        schedule := ?_ }
    · intro other
      rw [donate_mutexes]
      by_cases sameLock : other = lock
      · rw [sameLock]
        exact newOwner
      · rw [arrange_mutex_of_ne sameLock]
    · exact fun other => (kept other).1.trans (schedule other).1
    · intro other ne
      rw [← moves.waitEntry linked.toRegistered ne]
      unfold PiSystem.waitEntry
      rw [(kept other).2.1, donate_mutexes]
    · intro other notOwner
      rw [donate_of_ne _ _ _ notOwner]
      exact schedule other
  · rw [(kept thread).2.1, arrange_thread]
  · rw [(kept thread).2.2, arrange_thread]

end Arranged

theorem publishLockTopChange_change (change : PiSystem Thread Mutex → PiSystem Thread Mutex)
    {owner : Option Thread} {oldTop newTop : Option (PiWaitEntry Thread)}
    {published : PiSystem Thread Mutex} {nextLock : Option Mutex}
    (grants : (change system).entryCanGrant newTop = system.entryCanGrant newTop)
    (keeps : ∀ thread, owner = some thread → (change system).threads thread =
      system.threads thread ∧ ∀ record, (change system).setThread thread record =
        change (system.setThread thread record))
    (ran : (change system).publishLockTopChange owner oldTop newTop = .ok (published, nextLock)) :
    ∃ before, system.publishLockTopChange owner oldTop newTop = .ok (before, nextLock) ∧
      change before = published ∧ before.mutexes = system.mutexes := by
  unfold publishLockTopChange at ran ⊢
  rw [grants] at ran
  split_ifs at ran ⊢
  cases owner with
  | none =>
    cases ran
    exact ⟨system, rfl, rfl, rfl⟩
  | some owner =>
    dsimp only at ran ⊢
    rw [(keeps owner rfl).1] at ran
    cases replaced : replaceOwnerLockTopLocked (system.threads owner) oldTop newTop with
    | error error =>
      rw [replaced] at ran
      cases ran
    | ok record =>
      rw [replaced] at ran
      cases ran
      exact ⟨system.setThread owner record, rfl, ((keeps owner rfl).2 record).symm, rfl⟩

/-! ## Requeueing a waiter -/

theorem Waits.fresh_iff {donation : PiDonation Thread}
    (waits : system.Waits thread registration donation)
    (blocked : (system.threads thread).blockedOn = some registration) :
    system.Fresh thread ↔ (system.threads thread).effectivePiWaitUrgency =
          registration.key.urgency ∧
        (system.piDonation thread).sameSource donation = true := by
  have generationEq := waits.generation_eq
  have waiterEq := waits.waiter_eq
  unfold PiDonation.sameSource
  simp only [Bool.and_eq_true, decide_eq_true_eq]
  constructor
  · intro fresh
    rcases fresh registration blocked with ⟨urgency, stored⟩
    rw [waits.bound, some.injEq] at stored
    rw [stored]
    exact ⟨urgency.symm, ⟨rfl, rfl⟩, rfl⟩
  · rintro ⟨urgency, ⟨policyEq, rootEq⟩, boostEq⟩ found foundBlocked
    cases blocked.symm.trans foundBlocked
    refine ⟨urgency.symm, ?_⟩
    rw [waits.bound, some.injEq]
    rcases donation with ⟨policy, root, boostUrgency, waitGeneration, waiter⟩
    dsimp only at generationEq waiterEq policyEq rootEq boostEq
    subst generationEq waiterEq policyEq rootEq boostEq
    rfl

/-- One waiter got its present urgency, and the owner of its mutex the policy that
follows. -/
structure Requeued (system requeued : PiSystem Thread Mutex) (thread : Thread) : Prop extends
    Keeps system requeued where
  places : ∀ other, requeued.place other = system.place other
  entries : ∀ other, other ≠ thread → requeued.waitEntry other = system.waitEntry other
  schedule : ∀ other, ¬ system.WaitsFor thread other →
    SameSchedule (requeued.threads other) (system.threads other)
  fresh : requeued.Fresh thread

theorem Requeued.waitsFor_of (changes : Requeued system requeued thread) (waiter holder : Thread) :
    requeued.WaitsFor waiter holder → system.WaitsFor waiter holder :=
  (changes.toKeeps.waitsFor_iff (changes.places waiter)).mp

theorem Requeued.refl (linked : system.Linked) (fresh : system.Fresh thread) :
    Requeued system system thread where
  toKeeps := ⟨linked, fun _ => rfl, fun _ => rfl⟩
  places := fun _ => rfl
  entries := fun _ _ => rfl
  schedule := fun _ _ => ⟨rfl, rfl, rfl, rfl⟩
  fresh := fresh

theorem Requeued.fresh_of_not_waitsFor {other : Thread} (changes : Requeued system requeued thread)
    (fresh : other ≠ thread → system.Fresh other)
    (notWaiting : ¬ system.WaitsFor thread other) : requeued.Fresh other := by
  by_cases same : other = thread
  · subst same
    exact changes.fresh
  · exact (fresh same).congr (changes.entries other same) (changes.schedule other notWaiting)

variable {thread : Thread} {registration : PiWaitRegistration Thread Mutex}
  {expectedLock originLock : Option Mutex} {topTask : Option Thread}

def requeuedTree (system : PiSystem Thread Mutex) (thread : Thread)
    (registration : PiWaitRegistration Thread Mutex) : PiWaitTree Thread :=
  ((system.mutexes registration.lock).waiters.erase registration.key).insert
    ⟨(system.threads thread).effectivePiWaitUrgency, registration.key.sequence, thread⟩
    ((system.piDonation thread).withWaitGeneration registration.generation)

def requeuedRegistration (system : PiSystem Thread Mutex) (thread : Thread)
    (registration : PiWaitRegistration Thread Mutex) : PiWaitRegistration Thread Mutex :=
  { registration with
    key := ⟨(system.threads thread).effectivePiWaitUrgency,
      registration.key.sequence, thread⟩ }

theorem requeuedTree_self : (requeuedTree system thread registration).get?
        (requeuedRegistration system thread registration).key =
      some ((system.piDonation thread).withWaitGeneration registration.generation) := by
  simp [requeuedTree, requeuedRegistration]

variable [DecidableEq Mutex]

theorem refreshBlockedWaiterKey_free (free : (system.threads thread).blockedOn = none)
    (expectedLock originLock : Option Mutex) (topTask : Option Thread) :
    system.refreshBlockedWaiterKey thread expectedLock originLock topTask =
      (system, .ok ⟨none, none, false, none⟩) := by
  unfold refreshBlockedWaiterKey
  dsimp only
  rw [free]

omit [LinearOrder Thread] in
theorem not_left (expected : ∀ lock, expectedLock = some lock → lock = registration.lock) :
    ¬ expectedLock.any (fun expected => registration.lock ≠ expected) = true := by
  cases expectedLock with
  | none => simp
  | some lock => simp [expected lock rfl]

variable (blocked : (system.threads thread).blockedOn = some registration)
include blocked

private theorem requeue_arrangement (linked : system.Linked) : Arrangement system registration.lock
      { system.mutexes registration.lock with
        waiters := requeuedTree system thread registration }
      thread
      { system.threads thread with
        blockedOn := some (requeuedRegistration system thread registration) } := by
  rcases linked.waits thread registration blocked with ⟨donation, waits⟩
  refine
    { tree := ?_, word := ?_, own := ?_, named := ?_,
      absent := linked.absent_of_blocked blocked, sameWait := ?_ }
  · intro key notThread
    have neNew : key ≠ ⟨(system.threads thread).effectivePiWaitUrgency,
        registration.key.sequence, thread⟩ := by
      rintro rfl
      exact notThread rfl
    have neOld : key ≠ registration.key := by
      rintro rfl
      exact notThread waits.key_thread
    simp [requeuedTree, neNew, neOld]
  · rw [linked.word, isEmpty_of_bound waits.bound, isEmpty_of_bound requeuedTree_self]
  · intro found foundEq
    cases foundEq
    exact ⟨_, waits_arrange requeuedTree_self waits.grantable⟩
  · intro key found same bound
    by_cases isNew : key = (requeuedRegistration system thread registration).key
    · exact ⟨registration.generation, by rw [isNew]; rfl⟩
    unfold requeuedTree at bound
    unfold requeuedRegistration at isNew
    rw [SortedMap.get?_insert, if_neg isNew, SortedMap.get?_erase] at bound
    split_ifs at bound with isOld
    exact absurd (linked.same_place bound waits.bound (same.trans waits.key_thread.symm)).2 isOld
  · intro old new oldBlocked newBlocked
    cases blocked.symm.trans oldBlocked
    cases newBlocked
    rfl

variable (expected : ∀ lock, expectedLock = some lock → lock = registration.lock)
include expected

theorem refreshBlockedWaiterKey_cycle
    (meets : originLock = some registration.lock ∨ topTask.isSome ∧
        (system.mutexes registration.lock).word.owner = topTask) :
    system.refreshBlockedWaiterKey thread expectedLock originLock topTask =
      (system, .error .piCycle) := by
  unfold refreshBlockedWaiterKey
  dsimp only
  rw [blocked]
  dsimp only
  rw [if_neg (not_left expected), if_pos meets]

variable (passes : ¬ (originLock = some registration.lock ∨ topTask.isSome ∧
    (system.mutexes registration.lock).word.owner = topTask))
include passes

theorem refreshBlockedWaiterKey_fresh (linked : system.Linked) (fresh : system.Fresh thread) :
    system.refreshBlockedWaiterKey thread expectedLock originLock topTask =
      (system, .ok ⟨(system.mutexes registration.lock).word.owner,
        (system.mutexes registration.lock).word.owner.bind system.blockedLock,
        false, none⟩) := by
  rcases linked.waits thread registration blocked with ⟨donation, waits⟩
  unfold refreshBlockedWaiterKey
  dsimp only
  rw [blocked]
  dsimp only
  rw [if_neg (not_left expected), if_neg passes, waits.bound]
  dsimp only
  rw [if_pos ((waits.fresh_iff blocked).mp fresh)]

variable (linked : system.Linked)
  (notOwner : (system.mutexes registration.lock).word.owner ≠ some thread)
include linked notOwner

private theorem refreshBlockedWaiterKey_stale (stale : ¬ system.Fresh thread) : ∃ requeued wake,
      system.refreshBlockedWaiterKey thread expectedLock originLock topTask =
          (requeued, .ok ⟨(system.mutexes registration.lock).word.owner,
            (system.mutexes registration.lock).word.owner.bind system.blockedLock,
            true, wake⟩) ∧
        Requeued system requeued thread := by
  rcases linked.waits thread registration blocked with ⟨donation, waits⟩
  have arrangement := requeue_arrangement blocked linked
  rcases arrangement.publish linked rfl ⟨rfl, rfl, rfl, rfl⟩ with
    ⟨donated, published, rearranged, mutexes, blockedEq, _⟩
  rw [bind_blockedLock_arrange notOwner] at published
  have ownerNe : ∀ owner, (system.mutexes registration.lock).word.owner = some owner →
      owner ≠ thread := by
    rintro owner isOwner rfl
    exact notOwner isOwner
  rcases publishLockTopChange_change (·.setBlockedOn thread _)
    (by simp only [entryCanGrant, setBlockedOn_waitState])
    (fun owner isOwner => ⟨setThread_of_ne _ (ownerNe owner isOwner) _, fun record => by
      rw [setBlockedOn, setBlockedOn, setThread_of_ne _ (ownerNe owner isOwner).symm]
      unfold setThread
      rw [Function.update_comm (ownerNe owner isOwner)]⟩) published with
    ⟨before, publishedBefore, beforeEq, _⟩
  refine ⟨donated, exists_and_right.mpr ⟨?_,
    { rearranged with places := ?_, schedule := ?_, fresh := ?_ }⟩⟩
  · unfold refreshBlockedWaiterKey
    dsimp only
    rw [blocked]
    dsimp only
    rw [if_neg (not_left expected), if_neg passes, waits.bound]
    dsimp only
    rw [if_neg ((waits.fresh_iff blocked).not.mp stale)]
    split
    · next failed => cases failed.symm.trans publishedBefore
    · next ran =>
      cases ran.symm.trans publishedBefore
      exact ⟨_, Prod.ext beforeEq rfl⟩
  · intro other
    by_cases same : other = thread
    · subst same
      unfold place
      rw [blockedEq, blocked]
      rfl
    · exact rearranged.places other same
  · intro other notWaiting
    refine rearranged.schedule other ?_
    intro isOwner
    exact notWaiting ⟨registration.lock, by simp [blockedLock, blocked], isOwner⟩
  · apply rearranged.fresh notOwner blockedEq rfl
    rw [mutexes, requeuedRegistration, arrange_mutex]
    exact requeuedTree_self

/-- What a refresh of a blocked waiter does on a system whose trees agree. -/
theorem refreshBlockedWaiterKey_spec : ∃ requeued changed wake,
      system.refreshBlockedWaiterKey thread expectedLock originLock topTask =
          (requeued, .ok ⟨(system.mutexes registration.lock).word.owner,
            (system.mutexes registration.lock).word.owner.bind system.blockedLock,
            changed, wake⟩) ∧
        Requeued system requeued thread ∧
        (system.Fresh thread → changed = false ∧ requeued = system) ∧
        (¬ system.Fresh thread → changed = true) := by
  by_cases fresh : system.Fresh thread
  · exact ⟨system, false, none, refreshBlockedWaiterKey_fresh blocked expected passes linked fresh,
      .refl linked fresh, fun _ => ⟨rfl, rfl⟩,
      fun stale => absurd fresh stale⟩
  · rcases refreshBlockedWaiterKey_stale blocked expected passes linked notOwner
      fresh with ⟨requeued, wake, ran, changes⟩
    exact ⟨requeued, true, wake, ran, changes, fun isFresh => absurd isFresh fresh, fun _ => rfl⟩

end PiSystem

end TgosKits
