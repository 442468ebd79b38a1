import TgosKits.Sched.PiMutex

/-! # The links of priority inheritance -/

namespace TgosKits

open PiWaitTree SortedMap Option

variable {Thread Mutex : Type} [LinearOrder Thread]

/-! ## Trees -/

namespace PiWaitTree

variable {tree : PiWaitTree Thread} {entry : PiWaitEntry Thread}

theorem firstEntry_eq_some_iff : firstEntry tree = some entry ↔ tree.get? entry.1 = some entry.2 ∧
        ∀ key donation, tree.get? key = some donation → entry.1 ≤ key := by
  unfold firstEntry
  rw [firstWhere_eq_some_iff]
  simp

theorem firstEntry_eq_none_iff : firstEntry tree = none ↔ ∀ key, tree.get? key = none := by
  constructor
  · intro missing key
    rw [eq_none_iff_forall_ne_some]
    exact fun _ bound => absurd rfl (firstWhere_eq_none missing bound)
  · intro empty
    rw [eq_none_iff_forall_ne_some]
    intro entry found
    cases (empty entry.1).symm.trans (firstEntry_eq_some_iff.mp found).1

theorem isEmpty_iff : isEmpty tree = true ↔ firstEntry tree = none := by
  unfold isEmpty firstEntry firstWhere
  simp

theorem isEmpty_of_bound {key : PiWaitKey Thread} {donation : PiDonation Thread}
    (bound : tree.get? key = some donation) : isEmpty tree = false := by
  rw [← Bool.not_eq_true, isEmpty_iff, firstEntry_eq_none_iff]
  intro empty
  cases (empty key).symm.trans bound

def replaceEntry (tree : PiWaitTree Thread)
    (oldTop newTop : Option (PiWaitEntry Thread)) : PiWaitTree Thread :=
  let removed := match oldTop with
    | some old => tree.erase old.1
    | none => tree
  match newTop with
  | some new => removed.insert new.1 new.2
  | none => removed

theorem get?_replaceEntry (oldTop newTop : Option (PiWaitEntry Thread))
    (key : PiWaitKey Thread) (donation : PiDonation Thread) :
    (replaceEntry tree oldTop newTop).get? key = some donation ↔ newTop = some (key, donation) ∨
        (∀ new, newTop = some new → key ≠ new.1) ∧ (∀ old, oldTop = some old → key ≠ old.1) ∧
            tree.get? key = some donation := by
  cases oldTop with
  | none =>
    cases newTop with
    | none => simp [replaceEntry]
    | some new =>
      by_cases same : key = new.1
      · simp [replaceEntry, same, Prod.ext_iff]
      · simp [replaceEntry, same, Prod.ext_iff, Ne.symm same]
  | some old =>
    cases newTop with
    | none =>
      by_cases same : key = old.1
      · simp [replaceEntry, same]
      · simp [replaceEntry, same]
    | some new =>
      by_cases sameNew : key = new.1
      · simp [replaceEntry, sameNew, Prod.ext_iff]
      · by_cases sameOld : key = old.1
        · simp [replaceEntry, sameOld, Prod.ext_iff, sameOld ▸ sameNew, Ne.symm (sameOld ▸ sameNew)]
        · simp [replaceEntry, sameNew, sameOld, Prod.ext_iff, Ne.symm sameNew]

theorem replaceEntry_self (held : tree.get? entry.1 = some entry.2) :
    replaceEntry tree (some entry) (some entry) = tree := by
  unfold replaceEntry
  dsimp only
  rw [insert_erase_self, insert_of_get? held]

private theorem firstEntry_erase (key : PiWaitKey Thread) :
    firstEntry (tree.erase key) = firstEntryExcluding tree (some key) := by
  apply ext
  intro entry
  simp only [firstEntry, firstEntryExcluding, firstWhere_eq_some_iff,
    get?_erase, ite_none_left_eq_some]
  grind

private theorem firstEntry_insert (absent : tree.get? entry.1 = none) :
    firstEntry (tree.insert entry.1 entry.2) = prospectiveTop (firstEntry tree) (some entry) := by
  cases found : firstEntry tree with
  | none =>
    rw [firstEntry_eq_none_iff] at found
    rw [prospectiveTop, firstEntry_eq_some_iff]
    simp [get?_insert, found]
  | some current =>
    rw [firstEntry_eq_some_iff] at found
    rw [prospectiveTop]
    split_ifs with earlier
    all_goals
      rw [firstEntry_eq_some_iff]
      simp only [get?_insert]
      grind

theorem prospectiveTop_eq (oldTop newTop : Option (PiWaitEntry Thread))
    (newKey : ∀ new donation, newTop = some new →
      tree.get? new.1 = some donation → ∃ old, oldTop = some old ∧ new.1 = old.1) :
    prospectiveTop (firstEntryExcluding tree (oldTop.map Prod.fst)) newTop =
      firstEntry (replaceEntry tree oldTop newTop) := by
  have remaining : firstEntryExcluding tree (oldTop.map Prod.fst) =
      firstEntry (replaceEntry tree oldTop none) := by
    cases oldTop with
    | none => simp [replaceEntry, firstEntryExcluding, firstEntry]
    | some old => exact (firstEntry_erase old.1).symm
  rw [remaining]
  cases newTop with
  | none => cases firstEntry (replaceEntry tree oldTop none) <;> rfl
  | some new =>
    have absent : (replaceEntry tree oldTop none).get? new.1 = none := by
      rw [eq_none_iff_forall_ne_some]
      intro donation found
      rcases (get?_replaceEntry _ _ _ _).mp found with isNew | ⟨_, notOld, bound⟩
      · cases isNew
      · rcases newKey new donation rfl bound with ⟨old, isOld, same⟩
        exact notOld old isOld same
    rw [← firstEntry_insert absent]
    rfl

end PiWaitTree

/-! ## Records -/

namespace PiThread

variable {record : PiThread Thread Mutex}

/-- A thread with other donors and the policy that follows from them. -/
def withDonors (record : PiThread Thread Mutex) (donors : PiWaitTree Thread) :
    PiThread Thread Mutex :=
  let update := resolvedPiScheduleUpdate record.base (firstEntry donors)
  { record with
    donors := donors
    effective := update.1
    donor := update.2 }

def Scheduled (record : PiThread Thread Mutex) : Prop := (record.effective, record.donor) =
    resolvedPiScheduleUpdate record.base (firstEntry record.donors)

theorem Scheduled.withDonors_self (scheduled : record.Scheduled) :
    record.withDonors record.donors = record := by
  unfold withDonors
  rw [← scheduled]

/-- The parts of a record that follow from the donors. -/
def SameSchedule (record other : PiThread Thread Mutex) : Prop :=
  record.base = other.base ∧ record.effective = other.effective ∧
    record.donor = other.donor ∧ record.donors = other.donors

theorem Scheduled.congr {record other : PiThread Thread Mutex} (scheduled : other.Scheduled)
    (same : SameSchedule record other) : record.Scheduled := by
  unfold Scheduled at scheduled ⊢
  rw [same.1, same.2.1, same.2.2.1, same.2.2.2]
  exact scheduled

private theorem recomputePiOwnerLocked_eq (donors : PiWaitTree Thread) :
    recomputePiOwnerLocked { record with donors := donors } (firstEntry donors) =
      record.withDonors donors := by
  unfold recomputePiOwnerLocked withDonors
  dsimp only
  split_ifs with unchanged
  · rw [← unchanged.1, ← unchanged.2]
  · rfl

theorem replaceOwnerLockTopLocked_eq {oldTop newTop : Option (PiWaitEntry Thread)}
    (scheduled : record.Scheduled)
    (held : ∀ old, oldTop = some old → record.donors.get? old.1 = some old.2)
    (newKey : ∀ new donation, newTop = some new → record.donors.get? new.1 = some donation →
        ∃ old, oldTop = some old ∧ new.1 = old.1)
    (determined : ∀ old new, oldTop = some old → newTop = some new →
      old.1 = new.1 → old.2.sameSource new.2 → old = new) :
    replaceOwnerLockTopLocked record oldTop newTop = .ok (record.withDonors
        (replaceEntry record.donors oldTop newTop)) := by
  unfold replaceOwnerLockTopLocked
  by_cases holds : holdsTop record oldTop newTop = true
  · rw [if_pos holds]
    cases oldTop with
    | none => exact absurd holds (by simp [holdsTop])
    | some old =>
      cases newTop with
      | none => exact absurd holds (by simp [holdsTop])
      | some new =>
        have bound := held old rfl
        simp only [holdsTop, bound, any_some, Bool.and_eq_true, decide_eq_true_eq] at holds
        obtain rfl : old = new := determined old new rfl rfl holds.1 holds.2
        rw [replaceEntry_self bound, scheduled.withDonors_self]
  · rw [if_neg holds]
    have contained : oldTop.all (fun old =>
        contains record.donors old.1) = true := by
      cases oldTop with
      | none => rfl
      | some old => simp [contains, held old rfl]
    rw [if_pos contained, prospectiveTop_eq oldTop newTop newKey, ← recomputePiOwnerLocked_eq]
    rfl

end PiThread

/-! ## Systems -/

namespace PiSystem

section Projections

variable (system : PiSystem Thread Mutex)

@[simp]
theorem setThread_mutexes (thread : Thread) (record : PiThread Thread Mutex) :
    (system.setThread thread record).mutexes = system.mutexes :=
  rfl

@[simp]
theorem setThread_self (thread : Thread) (record : PiThread Thread Mutex) :
    (system.setThread thread record).threads thread = record := by
  simp [setThread]

theorem setThread_of_ne {thread other : Thread} (ne : other ≠ thread)
    (record : PiThread Thread Mutex) :
    (system.setThread thread record).threads other = system.threads other := by
  simp [setThread, ne]

variable [DecidableEq Mutex]

@[simp]
theorem setMutex_self (lock : Mutex) (mutex : PiMutex Thread) :
    (system.setMutex lock mutex).mutexes lock = mutex := by
  simp [setMutex]

theorem setMutex_of_ne {lock other : Mutex} (ne : other ≠ lock) (mutex : PiMutex Thread) :
    (system.setMutex lock mutex).mutexes other = system.mutexes other := by
  simp [setMutex, ne]

end Projections

@[simp]
theorem setBlockedOn_waitState (system : PiSystem Thread Mutex) (thread other : Thread)
    (registration : Option (PiWaitRegistration Thread Mutex)) :
    ((system.setBlockedOn thread registration).threads other).waitState =
      (system.threads other).waitState := by
  by_cases same : other = thread
  · subst same
    simp [setBlockedOn]
  · rw [setBlockedOn, setThread_of_ne _ same]

/-- A blocked thread is in the tree of the mutex it waits for, under a key that
carries the urgency of its donation. -/
structure Waits (system : PiSystem Thread Mutex) (thread : Thread)
    (registration : PiWaitRegistration Thread Mutex) (donation : PiDonation Thread) : Prop where
  bound : (system.mutexes registration.lock).waiters.get? registration.key = some donation
  key_thread : registration.key.thread = thread
  waiter_eq : donation.waiter = thread
  generation_eq : donation.waitGeneration = some registration.generation
  urgency_eq : registration.key.urgency = donation.policy.piWaitUrgency
  boost_eq : donation.boostUrgency = donation.policy.schedulingUrgency
  grantable : (system.threads thread).waitState.canGrant registration.generation = true

/-- The waiters of the mutexes and the registrations of the threads agree. -/
structure Registered (system : PiSystem Thread Mutex) : Prop where
  waits : ∀ thread registration, (system.threads thread).blockedOn = some registration →
      ∃ donation, system.Waits thread registration donation
  registered : ∀ lock key donation, (system.mutexes lock).waiters.get? key = some donation →
      ∃ generation, (system.threads key.thread).blockedOn = some ⟨lock, key, generation⟩
  word : ∀ lock, (system.mutexes lock).word.hasWaiters = !isEmpty (system.mutexes lock).waiters

structure Linked (system : PiSystem Thread Mutex) : Prop extends system.Registered where
  donors : ∀ thread key donation, (system.threads thread).donors.get? key = some donation ↔
      ∃ lock, (system.mutexes lock).word.owner = some thread ∧
        firstEntry (system.mutexes lock).waiters = some (key, donation)
  scheduled : ∀ thread, (system.threads thread).Scheduled

namespace Registered

variable {system : PiSystem Thread Mutex} {lock other : Mutex} {key : PiWaitKey Thread}
  {donation donation' : PiDonation Thread} (registered : system.Registered)
include registered

section

variable (bound : (system.mutexes lock).waiters.get? key = some donation)
include bound

theorem exists_waits :
    ∃ generation, (system.threads key.thread).blockedOn = some ⟨lock, key, generation⟩ ∧
      system.Waits key.thread ⟨lock, key, generation⟩ donation := by
  rcases registered.registered lock key donation bound with ⟨generation, blocked⟩
  rcases registered.waits key.thread _ blocked with ⟨found, waits⟩
  cases bound.symm.trans waits.bound
  exact ⟨generation, blocked, waits⟩

theorem same_place {key' : PiWaitKey Thread}
    (bound' : (system.mutexes other).waiters.get? key' = some donation')
    (same : key.thread = key'.thread) : lock = other ∧ key = key' := by
  rcases registered.registered lock key donation bound with ⟨generation, blocked⟩
  rcases registered.registered other key' donation' bound' with ⟨generation', blocked'⟩
  rw [← same, blocked, some.injEq, PiWaitRegistration.mk.injEq] at blocked'
  exact ⟨blocked'.1, blocked'.2.1⟩

end

theorem entry_first (lock : Mutex) :
    entryNamesThread (firstEntry (system.mutexes lock).waiters) = true ∧
      system.entryCanGrant (firstEntry (system.mutexes lock).waiters) = true := by
  cases found : firstEntry (system.mutexes lock).waiters with
  | none => exact ⟨rfl, rfl⟩
  | some entry =>
    rw [firstEntry_eq_some_iff] at found
    rcases registered.exists_waits found.1 with ⟨generation, _, waits⟩
    simp [entryNamesThread, entryCanGrant, waits.waiter_eq, waits.generation_eq, waits.grantable]

theorem congr {other : PiSystem Thread Mutex}
    (mutexes : other.mutexes = system.mutexes) (kept : ∀ thread,
      (other.threads thread).blockedOn = (system.threads thread).blockedOn ∧
        (other.threads thread).waitState = (system.threads thread).waitState) :
    other.Registered where
  waits := by
    intro thread registration blocked
    rw [(kept thread).1] at blocked
    rcases registered.waits thread registration blocked with ⟨donation, waits⟩
    exact ⟨donation,
      { waits with
        bound := mutexes ▸ waits.bound
        grantable := (kept thread).2 ▸ waits.grantable }⟩
  registered := by
    intro lock key donation bound
    rw [mutexes] at bound
    rw [(kept _).1]
    exact registered.registered lock key donation bound
  word := mutexes ▸ registered.word

end Registered

/-- One thread moves in, into or out of the tree of one mutex. -/
structure Moves (system moved : PiSystem Thread Mutex) (lock : Mutex) (thread : Thread) : Prop where
  others : ∀ other, other ≠ lock → moved.mutexes other = system.mutexes other
  tree : ∀ key : PiWaitKey Thread, key.thread ≠ thread → (moved.mutexes lock).waiters.get? key =
      (system.mutexes lock).waiters.get? key
  kept : ∀ other, other ≠ thread →
    (moved.threads other).blockedOn = (system.threads other).blockedOn ∧
      (moved.threads other).waitState = (system.threads other).waitState
  word : (moved.mutexes lock).word.hasWaiters = !isEmpty (moved.mutexes lock).waiters
  own : ∀ registration, (moved.threads thread).blockedOn = some registration →
    ∃ donation, moved.Waits thread registration donation
  named : ∀ key donation, key.thread = thread →
    (moved.mutexes lock).waiters.get? key = some donation →
      ∃ generation, (moved.threads thread).blockedOn = some ⟨lock, key, generation⟩
  absent : ∀ other key donation, other ≠ lock →
    (system.mutexes other).waiters.get? key = some donation → key.thread ≠ thread
  sameWait : ∀ old new, (system.threads thread).blockedOn = some old →
    (moved.threads thread).blockedOn = some new → old.generation = new.generation

section

variable {system moved : PiSystem Thread Mutex} {lock : Mutex} {thread : Thread}
  (moves : Moves system moved lock thread)
include moves

theorem Moves.stored {key : PiWaitKey Thread} (ne : key.thread ≠ thread) (place : Mutex) :
    (moved.mutexes place).waiters.get? key = (system.mutexes place).waiters.get? key := by
  by_cases sameLock : place = lock
  · rw [sameLock, moves.tree key ne]
  · rw [moves.others place sameLock]

theorem Moves.registered (registered : system.Registered) : moved.Registered where
  waits := by
    intro other registration blocked
    by_cases same : other = thread
    · subst same
      exact moves.own registration blocked
    rcases moves.kept other same with ⟨blockedEq, stateEq⟩
    rw [blockedEq] at blocked
    rcases registered.waits other registration blocked with ⟨donation, waits⟩
    exact ⟨donation,
      { waits with
        bound := (moves.stored (waits.key_thread ▸ same) _).trans waits.bound
        grantable := stateEq ▸ waits.grantable }⟩
  registered := by
    intro other key donation bound
    by_cases same : key.thread = thread
    · by_cases sameLock : other = lock
      · subst sameLock
        rw [same]
        exact moves.named key donation same bound
      · rw [moves.others other sameLock] at bound
        exact absurd same (moves.absent other key donation sameLock bound)
    · rw [moves.stored same] at bound
      rw [(moves.kept _ same).1]
      exact registered.registered other key donation bound
  word := by
    intro other
    by_cases sameLock : other = lock
    · subst sameLock
      exact moves.word
    · rw [moves.others other sameLock]
      exact registered.word other

end

variable {system : PiSystem Thread Mutex}

/-- The owner takes over the new top waiter of a mutex. -/
def donate (system : PiSystem Thread Mutex) (owner : Option Thread)
    (oldTop newTop : Option (PiWaitEntry Thread)) : PiSystem Thread Mutex :=
  match owner with
  | none => system
  | some owner =>
    system.setThread owner ((system.threads owner).withDonors
      (replaceEntry (system.threads owner).donors oldTop newTop))

variable (owner : Option Thread) (oldTop newTop : Option (PiWaitEntry Thread))

@[simp]
theorem donate_mutexes : (system.donate owner oldTop newTop).mutexes = system.mutexes := by
  cases owner <;> rfl

variable {thread : Thread} {moved : PiSystem Thread Mutex}

theorem donate_of_ne (ne : owner ≠ some thread) :
    (system.donate owner oldTop newTop).threads thread = system.threads thread := by
  cases owner with
  | none => rfl
  | some owner =>
    exact setThread_of_ne _ (fun same => ne (congrArg some same.symm)) _

theorem donate_self (owner : Thread) : (system.donate (some owner) oldTop newTop).threads owner =
      (system.threads owner).withDonors
        (replaceEntry (system.threads owner).donors oldTop newTop) :=
  setThread_self _ _ _

theorem donate_kept (thread : Thread) :
    ((system.donate owner oldTop newTop).threads thread).base = (system.threads thread).base ∧
      ((system.donate owner oldTop newTop).threads thread).blockedOn =
        (system.threads thread).blockedOn ∧
      ((system.donate owner oldTop newTop).threads thread).waitState =
        (system.threads thread).waitState := by
  by_cases same : owner = some thread
  · subst same
    rw [donate_self]
    exact ⟨rfl, rfl, rfl⟩
  · rw [donate_of_ne owner oldTop newTop same]
    exact ⟨rfl, rfl, rfl⟩

theorem publishLockTopChange_eq (namesOld : entryNamesThread oldTop = true)
    (namesNew : entryNamesThread newTop = true) (grants : system.entryCanGrant newTop = true)
    (replaced : ∀ thread, owner = some thread →
      replaceOwnerLockTopLocked (system.threads thread) oldTop newTop =
        .ok ((system.threads thread).withDonors
          (replaceEntry (system.threads thread).donors oldTop newTop))) :
    system.publishLockTopChange owner oldTop newTop =
      .ok (system.donate owner oldTop newTop, owner.bind system.blockedLock) := by
  unfold publishLockTopChange
  rw [if_neg (by simp [namesOld, namesNew, grants])]
  cases owner with
  | none => rfl
  | some owner =>
    dsimp only
    rw [replaced owner rfl]
    rfl

/-- The donors agree with the trees again after one thread moved, possibly with a
change of the owner, when the old owner gives up the old top waiter and the new owner
takes over the new one. -/
theorem Linked.of_replaced {result : PiSystem Thread Mutex} {lock : Mutex}
    (linked : system.Linked) (moves : Moves system moved lock thread)
    (mutexes : result.mutexes = moved.mutexes) (kept : ∀ other,
      (result.threads other).blockedOn = (moved.threads other).blockedOn ∧
        (result.threads other).waitState = (moved.threads other).waitState)
    (scheduled : ∀ other, (result.threads other).Scheduled)
    (donors : ∀ other, (result.threads other).donors = replaceEntry (system.threads other).donors
        (if (system.mutexes lock).word.owner = some other then
          firstEntry (system.mutexes lock).waiters else none)
        (if (moved.mutexes lock).word.owner = some other then
          firstEntry (moved.mutexes lock).waiters else none)) : result.Linked := by
  have movedRegistered := moves.registered linked.toRegistered
  refine { movedRegistered.congr mutexes kept with
    donors := ?_, scheduled := scheduled }
  intro other key donation
  rw [mutexes, donors other, get?_replaceEntry, linked.donors]
  constructor
  · rintro (isNew | ⟨_, notOld, place, placeOwner, placeFirst⟩)
    · by_cases newOwner : (moved.mutexes lock).word.owner = some other
      · rw [if_pos newOwner] at isNew
        exact ⟨lock, newOwner, isNew⟩
      · rw [if_neg newOwner] at isNew
        exact absurd isNew (by simp)
    · have placeNe : place ≠ lock := by
        rintro rfl
        rw [if_pos placeOwner] at notOld
        exact notOld _ placeFirst rfl
      refine ⟨place, ?_, ?_⟩ <;> rw [moves.others place placeNe]
      · exact placeOwner
      · exact placeFirst
  · rintro ⟨place, placeOwner, placeFirst⟩
    by_cases sameLock : place = lock
    · subst sameLock
      left
      rw [if_pos placeOwner]
      exact placeFirst
    right
    have placeBound := (firstEntry_eq_some_iff.mp placeFirst).1
    have placeEq := moves.others place sameLock
    refine ⟨?_, ?_, place, placeEq ▸ placeOwner, placeEq ▸ placeFirst⟩
    · intro new isNew sameKey
      split_ifs at isNew
      have newBound := (firstEntry_eq_some_iff.mp isNew).1
      exact sameLock (movedRegistered.same_place placeBound newBound
        (congrArg PiWaitKey.thread sameKey)).1
    · intro old isOld sameKey
      split_ifs at isOld
      have oldBound := (firstEntry_eq_some_iff.mp isOld).1
      rw [placeEq] at placeBound
      exact sameLock (linked.same_place placeBound oldBound (congrArg PiWaitKey.thread sameKey)).1

variable (linked : system.Linked)
  (schedule : ∀ other, PiThread.SameSchedule (moved.threads other) (system.threads other))
include linked schedule

theorem Linked.donate {lock : Mutex} (moves : Moves system moved lock thread)
    (ownerEq : (moved.mutexes lock).word.owner = (system.mutexes lock).word.owner) :
    (moved.donate (system.mutexes lock).word.owner (firstEntry (system.mutexes lock).waiters)
      (firstEntry (moved.mutexes lock).waiters)).Linked := by
  refine linked.of_replaced moves (donate_mutexes _ _ _)
    (fun other => (donate_kept _ _ _ other).2) ?_ ?_
  · intro other
    by_cases isOwner : (system.mutexes lock).word.owner = some other
    · rw [isOwner, donate_self]
      rfl
    · rw [donate_of_ne _ _ _ isOwner]
      exact (linked.scheduled other).congr (schedule other)
  · intro other
    rw [ownerEq]
    by_cases isOwner : (system.mutexes lock).word.owner = some other
    · rw [if_pos isOwner, if_pos isOwner, isOwner, donate_self, ← (schedule other).2.2.2]
      rfl
    · rw [if_neg isOwner, if_neg isOwner, donate_of_ne _ _ _ isOwner, (schedule other).2.2.2]
      rfl

theorem Linked.replaceOwnerLockTopLocked_ok {lock : Mutex} {owner : Thread}
    (moves : Moves system moved lock thread)
    (isOwner : (system.mutexes lock).word.owner = some owner) :
    replaceOwnerLockTopLocked (moved.threads owner) (firstEntry (system.mutexes lock).waiters)
        (firstEntry (moved.mutexes lock).waiters) =
      .ok ((moved.threads owner).withDonors (replaceEntry (moved.threads owner).donors
          (firstEntry (system.mutexes lock).waiters)
          (firstEntry (moved.mutexes lock).waiters))) := by
  have movedRegistered := moves.registered linked.toRegistered
  have donorsEq := (schedule owner).2.2.2
  apply PiThread.replaceOwnerLockTopLocked_eq
  · exact (linked.scheduled owner).congr (schedule owner)
  · intro old isOld
    rw [donorsEq, linked.donors]
    exact ⟨lock, isOwner, isOld⟩
  · intro new donation isNew held
    rw [donorsEq, linked.donors] at held
    rcases held with ⟨place, _, placeFirst⟩
    by_cases sameLock : place = lock
    · exact ⟨(new.1, donation), sameLock ▸ placeFirst, rfl⟩
    have placeBound := (firstEntry_eq_some_iff.mp placeFirst).1
    have newBound := (firstEntry_eq_some_iff.mp isNew).1
    rw [← moves.others place sameLock] at placeBound
    exact absurd (movedRegistered.same_place placeBound newBound rfl).1 sameLock
  · intro old new isOld isNew sameKey sameSource
    have oldBound := (firstEntry_eq_some_iff.mp isOld).1
    have newBound := (firstEntry_eq_some_iff.mp isNew).1
    rcases linked.exists_waits oldBound with ⟨generation, blocked, waits⟩
    rcases movedRegistered.exists_waits newBound with ⟨generation', blocked', waits'⟩
    have sameGeneration : generation = generation' := by
      rw [← sameKey] at blocked'
      by_cases same : old.1.thread = thread
      · exact moves.sameWait _ _ (same ▸ blocked) (same ▸ blocked')
      · rw [(moves.kept _ same).1, blocked, some.injEq, PiWaitRegistration.mk.injEq] at blocked'
        exact blocked'.2.2
    have generationEq := waits.generation_eq
    have generationEq' := waits'.generation_eq
    have waiterEq := waits.waiter_eq
    have waiterEq' := waits'.waiter_eq
    rcases old with ⟨oldKey, oldDonation⟩
    rcases new with ⟨newKey, newDonation⟩
    subst sameKey
    simp only [PiDonation.sameSource, Bool.and_eq_true, decide_eq_true_eq] at sameSource
    rcases oldDonation with ⟨policy, root, boostUrgency, waitGeneration, waiter⟩
    rcases newDonation with ⟨policy', root', boostUrgency', waitGeneration', waiter'⟩
    dsimp only at sameSource generationEq generationEq' waiterEq waiterEq'
    rw [sameSource.1.1, sameSource.1.2, sameSource.2, generationEq,
      generationEq', waiterEq, waiterEq', sameGeneration]

end PiSystem

end TgosKits
