import TgosKits.Sched.PiFixpoint

/-!
# Calls that overlap

Threads make their calls at the same time, and the sections of different calls take
turns in any order. While a contender is registered, another walk can carry its
urgency further along the chain. If the contender is then rejected as a cycle, the
walk that follows its removal meets the contender itself as an owner, and the
kernel stops. No other section stops it in any order.
-/

namespace TgosKits

open PiSystem Function Fintype

variable {Thread Mutex : Type} [LinearOrder Thread] [DecidableEq Mutex]

/-- A system and the calls that its threads are in the middle of. -/
structure PiMachine (Thread Mutex : Type) [LinearOrder Thread] where
  system : PiSystem Thread Mutex
  phases : Thread → Option (PiPhase Thread Mutex)

/-- A thread begins a call, or the next section of its call runs. -/
inductive PiEvent (Thread Mutex : Type) where
  | begin (thread : Thread) (call : PiCall Thread Mutex)
  | advance (thread : Thread)

def PiCall.endsWait : PiCall Thread Mutex → Bool
  | .tryCancel _ => true
  | .claim _ => true
  | _ => false

namespace PiMachine

/-- The call of a thread after a section; a call that returned is over. -/
def remaining : PiPhase Thread Mutex → Option (PiPhase Thread Mutex)
  | .done _ => none
  | phase => some phase

omit [LinearOrder Thread] [DecidableEq Mutex] in
theorem eq_of_remaining {next phase : PiPhase Thread Mutex} (kept : remaining next = some phase) :
    next = phase := by
  cases next <;> cases kept <;> rfl

variable (config : PiConfig) (machine : PiMachine Thread Mutex)

/-- An event that is not possible changes nothing. -/
def step :
    PiEvent Thread Mutex → PiMachine Thread Mutex
  | .begin thread call =>
    if (machine.phases thread).isNone ∧ call.caller = some thread ∧
        ((machine.system.threads thread).blockedOn.isNone ∨ call.endsWait) then
      { machine with
        phases := update machine.phases thread (some (.start call)) }
    else
      machine
  | .advance thread =>
    match machine.phases thread with
    | none => machine
    | some phase =>
      let (system, next) := machine.system.callStep config phase
      { system := system
        phases := update machine.phases thread (remaining next) }

def run (events : List (PiEvent Thread Mutex)) : PiMachine Thread Mutex :=
  events.foldl (step config) machine

def start (policies : Thread → SchedulePolicy) : PiMachine Thread Mutex where
  system := initial policies
  phases := fun _ => none

end PiMachine

/-! ## Sections in any order -/

namespace PiSystem

/-- The trees agree, and no thread waits for a mutex that it owns. -/
structure Sound (system : PiSystem Thread Mutex) : Prop where
  linked : system.Linked
  apart : ∀ thread, ¬ system.WaitsFor thread thread

/-- A section of a thread leaves the waits of the others where they are. -/
structure Runs (system result : PiSystem Thread Mutex) (thread : Thread) : Prop where
  sound : result.Sound
  places : ∀ other, other ≠ thread → result.place other = system.place other

/-- The waiter carries an old urgency in the tree of an owned mutex that a walk
refreshes next. -/
def Overdue (system : PiSystem Thread Mutex) (waiter : Thread) (expectedLock : Option Mutex)
    (owner : Thread) : Prop :=
  ∃ lock, system.blockedLock waiter = some lock ∧ (∀ expected, expectedLock = some expected →
      expected = lock) ∧ (system.mutexes lock).word.owner = some owner ∧ ¬ system.Fresh waiter

variable {system result : PiSystem Thread Mutex} {thread : Thread} {lock : Mutex}

omit [DecidableEq Mutex] in
theorem place_eq_none_iff : system.place thread = none ↔ (system.threads thread).blockedOn = none :=
  Option.map_eq_none_iff

omit [DecidableEq Mutex] in
theorem Sound.mono (sound : system.Sound) (linked : result.Linked)
    (edges : ∀ waiter holder, result.WaitsFor waiter holder → system.WaitsFor waiter holder) :
    result.Sound where
  linked := linked
  apart := fun waiter waits => sound.apart waiter (edges waiter waiter waits)

omit [DecidableEq Mutex] in
theorem Sound.runs (sound : system.Sound) : Runs system system thread :=
  ⟨sound, fun _ _ => rfl⟩

/-- A refresh keeps every wait in its place. Without an origin it never fails, and it
requeues exactly the waiters that are overdue. -/
theorem refreshBlockedWaiterKey_cases (sound : system.Sound) (waiter : Thread)
    (expectedLock originLock : Option Mutex) (topTask : Option Thread) : ∃ refreshed outcome,
      system.refreshBlockedWaiterKey waiter expectedLock originLock topTask =
          (refreshed, outcome) ∧
        refreshed.Sound ∧ (∀ other, refreshed.place other = system.place other) ∧
        (originLock = none → topTask = none → ∃ refresh, outcome = .ok refresh ∧
          ∀ owner, refresh.changed = true ∧ refresh.owner = some owner ↔
            system.Overdue waiter expectedLock owner) := by
  have linked := sound.linked
  cases blocked : (system.threads waiter).blockedOn with
  | none =>
    refine ⟨system, _, refreshBlockedWaiterKey_free blocked _ _ _, sound, fun _ => rfl, ?_⟩
    exact fun _ _ => ⟨_, rfl, fun owner => by simp [Overdue, blockedLock, blocked]⟩
  | some registration =>
    have blockedLock : system.blockedLock waiter = some registration.lock := by
      simp [PiSystem.blockedLock, blocked]
    have notOwner : (system.mutexes registration.lock).word.owner ≠ some waiter :=
      fun isOwner => sound.apart waiter ⟨registration.lock, blockedLock, isOwner⟩
    by_cases expected : ∀ lock, expectedLock = some lock → lock = registration.lock
    · by_cases meets : originLock = some registration.lock ∨ topTask.isSome ∧
          (system.mutexes registration.lock).word.owner = topTask
      · refine ⟨system, _, refreshBlockedWaiterKey_cycle blocked expected meets, sound,
          fun _ => rfl, ?_⟩
        rintro rfl rfl
        simp at meets
      · rcases refreshBlockedWaiterKey_spec blocked expected meets linked notOwner with
          ⟨requeued, changed, wake, ran, changes, whenFresh, whenStale⟩
        refine ⟨requeued, _, ran, sound.mono changes.linked changes.waitsFor_of,
          changes.places, fun _ _ => ⟨_, rfl, fun owner => ?_⟩⟩
        have isChanged : changed = true ↔ ¬ system.Fresh waiter :=
          ⟨fun isChanged fresh => by simp [(whenFresh fresh).1] at isChanged, whenStale⟩
        simp only [Overdue, blockedLock, isChanged, Option.some.injEq, exists_eq_left']
        exact and_comm.trans (and_iff_right expected).symm
    · refine ⟨system, .ok ⟨none, none, false, none⟩, ?_, sound, fun _ => rfl, ?_⟩
      · push Not at expected
        rcases expected with ⟨lock, isLock, ne⟩
        unfold refreshBlockedWaiterKey
        dsimp only
        rw [blocked]
        dsimp only
        rw [if_pos (by simp [isLock, ne.symm])]
      · refine fun _ _ => ⟨_, rfl, fun owner => ?_⟩
        simp only [Overdue, blockedLock, Option.some.injEq, exists_eq_left', expected]
        simp

end PiSystem

/-- A walk that restores the urgencies along a chain. -/
structure PiWalk.Cleans (walk : PiWalk Thread Mutex) : Prop where
  origin : walk.originLock = none
  verified : walk.unverified = false
  inLimit : walk.depth ≤ walk.limit

/-- A walk that has to requeue a waiter of its own contender, or any waiter at its
limit. -/
def PiWalk.Stuck (system : PiSystem Thread Mutex) (walk : PiWalk Thread Mutex) : Prop :=
  ∃ owner, system.Overdue walk.current walk.nextLock owner ∧
    (owner = walk.topTask ∨ walk.depth = walk.limit)

namespace PiSystem

variable {system result : PiSystem Thread Mutex} {thread : Thread} {lock : Mutex}
  {config : PiConfig}

section

variable {walk : PiWalk Thread Mutex} {walked : PiSystem Thread Mutex}
  {step : PiWalkStep Thread Mutex} (sound : system.Sound)
  (ran : walk.step system = (walked, step))
include sound ran

theorem walkStep_sound : walked.Sound ∧ ∀ other, walked.place other = system.place other := by
  rcases refreshBlockedWaiterKey_cases sound walk.current walk.nextLock walk.originLock
    (walk.originLock.map (fun _ => walk.topTask)) with
    ⟨refreshed, outcome, refreshes, sound', places, _⟩
  unfold PiWalk.step at ran
  rw [refreshes] at ran
  split_ifs at ran
  · cases ran
    exact ⟨sound, fun _ => rfl⟩
  · cases ran
    exact ⟨sound, fun _ => rfl⟩
  · cases ran
    exact ⟨sound, fun _ => rfl⟩
  · cases outcome <;> cases ran <;> exact ⟨sound', places⟩

theorem walkStep_cleans (cleans : walk.Cleans) : (∀ next, step = .more next → next.Cleans) ∧
      ((∃ error, step = .finished (.error error)) ↔ walk.Stuck system) := by
  rcases refreshBlockedWaiterKey_cases sound walk.current walk.nextLock walk.originLock
    (walk.originLock.map (fun _ => walk.topTask)) with
    ⟨refreshed, outcome, refreshes, _, _, cleanup⟩
  rcases cleanup cleans.origin (by simp [cleans.origin]) with ⟨refresh, rfl, overdue⟩
  cases ran.symm.trans (walkStep_refresh cleans.inLimit cleans.verified refreshes)
  unfold PiWalk.Stuck PiWalk.follow
  simp only [← overdue, cleans.origin]
  cases isChanged : refresh.changed with
  | false => simp
  | true =>
    cases isOwner : refresh.owner with
    | none => simp
    | some owner =>
      have inLimit := cleans.inLimit
      simp only [Bool.not_true, Bool.false_and, Bool.false_eq_true, if_false, Option.some.injEq,
        true_and, exists_eq_left']
      split_ifs with isTop atLimit
      · simp [isTop]
      · simp [atLimit]
      · cases refresh.ownerNextLock with
        | none => simp [isTop, atLimit]
        | some nextLock =>
          refine ⟨fun next isNext => ?_, by simp [isTop, atLimit]⟩
          cases isNext
          exact ⟨rfl, cleans.verified, by dsimp only; omega⟩

end

/-- A walk from a thread that waits for nothing ends at once. -/
theorem walkStep_of_free {walk : PiWalk Thread Mutex} (cleans : walk.Cleans)
    (free : system.place walk.current = none) :
    walk.step system = (system, .finished (.ok ())) := by
  rw [walkStep_refresh cleans.inLimit cleans.verified
    (refreshBlockedWaiterKey_free (place_eq_none_iff.mp free) _ _ _)]
  simp [PiWalk.follow, cleans.origin]

/-- What a thread can rely on between two sections of its call, whatever the other
threads do in between. Of the system it is only the place of its own wait. -/
def PhaseHolds (place : Option (Mutex × Nat × Nat)) (thread : Thread) :
    PiPhase Thread Mutex → Prop
  | .start call => call.caller = some thread ∧ (place = none ∨ call.endsWait)
  | .register _ waiter key donation => waiter = thread ∧ place = none ∧
      ∃ (seen : PiSystem Thread Mutex) (sequence : Nat), donation = seen.piDonation thread ∧
        key = ⟨(seen.threads thread).effectivePiWaitUrgency, sequence, thread⟩
  | .lockWalk token _ | .rollback token _ => token.thread = thread ∧
      ∃ sequence, place = some (token.lock, sequence, token.generation)
  | .rollbackWalk _ walk => walk.Cleans
  | .cancelWalk _ | .done _ => True
  | .releaseWalk walk | .claimWalk walk => walk.Cleans ∧ walk.current = thread ∧ place = none
  | .policyRefresh _ | .policyWalk _ => False
  | .fatal code => code = 0x5049120f

/-- The next section of a rollback meets its own contender or its limit. -/
def Stops (system : PiSystem Thread Mutex) : PiPhase Thread Mutex → Prop
  | .rollbackWalk _ walk => walk.Stuck system
  | _ => False

/-- A section keeps what all threads rely on, and it stops the kernel exactly if the
walk of a rollback cannot go on. -/
structure Advances (system : PiSystem Thread Mutex) (thread : Thread) (phase : PiPhase Thread Mutex)
    (state : PiSystem Thread Mutex × PiPhase Thread Mutex) : Prop extends
    Runs system state.1 thread where
  next : PhaseHolds (state.1.place thread) thread state.2
  stops : (∃ code, state.2 = .fatal code) ↔ (∃ code, phase = .fatal code) ∨ system.Stops phase

/-- A section that does not stop the kernel. -/
structure Proceeds (system : PiSystem Thread Mutex) (thread : Thread)
    (state : PiSystem Thread Mutex × PiPhase Thread Mutex) : Prop extends
    Runs system state.1 thread where
  next : PhaseHolds (state.1.place thread) thread state.2
  running : ∀ code, state.2 ≠ .fatal code

omit [DecidableEq Mutex] in
theorem Proceeds.advances {phase : PiPhase Thread Mutex}
    {state : PiSystem Thread Mutex × PiPhase Thread Mutex} (proceeds : Proceeds system thread state)
    (running : ∀ code, phase ≠ .fatal code) (passes : ¬ system.Stops phase) :
    Advances system thread phase state where
  toRuns := proceeds.toRuns
  next := proceeds.next
  stops := by simp [proceeds.running, running, passes]

section

variable (sound : system.Sound)
include sound

omit [DecidableEq Mutex] in
theorem Sound.proceeds_done (result : Except PiError (PiReturn Thread Mutex)) :
    Proceeds system thread (system, .done result) :=
  ⟨sound.runs, trivial, by simp⟩

private theorem register_proceeds (free : system.place thread = none) (seen : PiSystem Thread Mutex)
    (sequence : Nat) : Proceeds system thread (system.lockSlowRegister config lock thread
      ⟨(seen.threads thread).effectivePiWaitUrgency, sequence, thread⟩
      (seen.piDonation thread)) := by
  have blockedOn := place_eq_none_iff.mp free
  cases inUse : (system.mutexes lock).word.isUnlocked with
  | true =>
    unfold lockSlowRegister
    rw [if_pos inUse]
    split_ifs with waiting
    · exact sound.proceeds_done _
    · rw [Bool.not_eq_true', Bool.not_eq_false] at waiting
      refine ⟨⟨⟨sound.linked.setOwner waiting _, ?_⟩, fun _ _ => rfl⟩, trivial, by simp⟩
      rintro waiter ⟨place, blocked, isOwner⟩
      by_cases same : place = lock
      · rw [same, setWord_self] at isOwner
        cases isOwner
        simp [blockedLock, setWord_threads, blockedOn] at blocked
      · rw [setWord_of_ne _ same] at isOwner
        exact sound.apart waiter ⟨place, blocked, isOwner⟩
  | false =>
    by_cases isOwner : (system.mutexes lock).word.owner = some thread
    · unfold lockSlowRegister
      rw [if_neg (by simp [inUse]), if_pos isOwner]
      exact sound.proceeds_done _
    rcases lockSlowRegister_insert sound.linked config seen sequence blockedOn inUse isOwner with
      ⟨inserted, ran, rearranged, blocked, _⟩
    have apart : ∀ waiter, ¬ inserted.WaitsFor waiter waiter := by
      intro waiter waits
      by_cases same : waiter = thread
      · rw [same, waitsFor_iff_of_blocked blocked, rearranged.owners] at waits
        exact isOwner waits
      · exact sound.apart waiter
          ((rearranged.toKeeps.waitsFor_iff (rearranged.places waiter same)).mp waits)
    rw [ran]
    have runs : Runs system inserted thread := ⟨⟨rearranged.linked, apart⟩, rearranged.places⟩
    have isPlace : inserted.place thread =
        some (lock, sequence, (system.threads thread).waitState.generation + 1) := by
      simp [place, blocked, newRegistration]
    unfold lockSlowRegistered
    split
    · exact ⟨runs, ⟨rfl, sequence, isPlace⟩, by simp⟩
    · exact ⟨runs, trivial, by simp⟩

variable (positive : 0 < config.threadCapacity)
include positive

/-- The registration of a rejected contender is still there when it is taken back. -/
theorem rollback_proceeds {token : PiWaitToken Thread Mutex} {sequence : Nat} (error : PiError)
    (registered : system.place token.thread = some (token.lock, sequence, token.generation)) :
    Proceeds system token.thread (system.lockSlowRollback config token error) := by
  rcases Option.map_eq_some_iff.mp registered with ⟨registration, blocked, placeEq⟩
  simp only [Prod.mk.injEq] at placeEq
  rcases removeRegisteredWaiter_ok sound.linked blocked placeEq.1 placeEq.2.2
    (by simp : ¬ (false = true ∧ _)) with ⟨removed, ran, rearranged, free⟩
  have runs : Runs system removed token.thread :=
    ⟨sound.mono rearranged.linked (rearranged.waitsFor_of_removed free), rearranged.places⟩
  unfold lockSlowRollback
  rw [ran]
  cases (system.mutexes token.lock).word.owner with
  | none => exact ⟨runs, trivial, by simp⟩
  | some owner => exact ⟨runs, ⟨rfl, rfl, positive⟩, by simp⟩

omit positive in
private theorem cancel_proceeds (token : PiWaitToken Thread Mutex) :
    Proceeds system token.thread (system.piWaitTryCancel config token) := by
  unfold piWaitTryCancel
  split
  case h_1 => exact sound.proceeds_done _
  case h_2 => exact sound.proceeds_done _
  all_goals
    rename_i ran
    rcases removeRegisteredWaiter_some sound.linked ran with ⟨_, _, rearranged, free⟩
    exact ⟨⟨sound.mono rearranged.linked (rearranged.waitsFor_of_removed free),
      rearranged.places⟩, trivial, by simp⟩

private theorem release_proceeds (free : system.place thread = none) (lock : Mutex) :
    Proceeds system thread (system.piMutexRelease config lock thread) := by
  rcases piMutexRelease_cases sound.linked config lock thread with ⟨error, ran⟩ |
    ⟨empty, ran⟩ | ⟨released, selected, _, _, ran, changes⟩
  · rw [ran]
    exact sound.proceeds_done _
  · rw [ran]
    refine ⟨⟨⟨sound.linked.setOwner empty _, ?_⟩, fun _ _ => rfl⟩, trivial, by simp⟩
    rintro waiter ⟨place, blocked, isOwner⟩
    by_cases same : place = lock
    · rw [same, setWord_self] at isOwner
      cases isOwner
    · rw [setWord_of_ne _ same] at isOwner
      exact sound.apart waiter ⟨place, blocked, isOwner⟩
  · rw [ran]
    have places : ∀ other, released.place other = system.place other :=
      fun other => place_eq_of_waitEntry (changes.entries other)
    exact ⟨⟨sound.mono changes.linked changes.waitsFor_of_released, fun other _ => places other⟩,
      ⟨⟨rfl, rfl, positive⟩, rfl, (places thread).trans free⟩, by simp⟩

private theorem claim_proceeds (token : PiWaitToken Thread Mutex) :
    Proceeds system token.thread (system.piMutexClaim config token) := by
  rcases piMutexClaim_cases config sound.linked token with ⟨result, ran⟩ |
    ⟨claimed, _, _, ran, changes⟩
  · rw [ran]
    exact sound.proceeds_done _
  rw [ran]
  have places : ∀ other, other ≠ token.thread → claimed.place other = system.place other :=
    fun other ne => place_eq_of_waitEntry (changes.entries other ne)
  refine ⟨⟨⟨changes.linked, ?_⟩, places⟩,
    ⟨⟨rfl, rfl, positive⟩, rfl, place_eq_none_iff.mpr changes.free⟩,
    by simp⟩
  intro waiter waits
  have waiterNe : waiter ≠ token.thread := by
    rintro rfl
    exact not_waitsFor_of_free changes.free waits
  rcases waits with ⟨lock, blocked, isOwner⟩
  by_cases same : lock = token.lock
  · rw [same, changes.owner, Option.some.injEq] at isOwner
    exact waiterNe isOwner.symm
  · rw [changes.owners lock same] at isOwner
    rw [blockedLock_eq_of_place (places waiter waiterNe)] at blocked
    exact sound.apart waiter ⟨lock, blocked, isOwner⟩

private theorem start_proceeds {call : PiCall Thread Mutex}
    (holds : PhaseHolds (system.place thread) thread (.start call)) :
    Proceeds system thread (system.startCall config call) := by
  rcases holds with ⟨isCaller, waits⟩
  cases call with
  | lockSlow lock waiter sequence =>
    cases isCaller
    have free : system.place thread = none := by simpa [PiCall.endsWait] using waits
    have blockedOn := place_eq_none_iff.mp free
    unfold startCall lockSlowStart
    dsimp only
    rw [if_neg (by simp [blockedOn])]
    exact ⟨sound.runs, ⟨rfl, free, system, sequence, rfl, rfl⟩, by simp⟩
  | tryCancel token =>
    cases isCaller
    exact cancel_proceeds sound token
  | release lock oldOwner =>
    cases isCaller
    exact release_proceeds sound positive (by simpa [PiCall.endsWait] using waits) lock
  | claim token =>
    cases isCaller
    exact claim_proceeds sound positive token
  | setPolicy other policy => cases isCaller

theorem callStep_advances {phase : PiPhase Thread Mutex}
    (holds : PhaseHolds (system.place thread) thread phase) :
    Advances system thread phase (system.callStep config phase) := by
  cases phase with
  | start call => exact (start_proceeds sound positive holds).advances (by simp) id
  | register lock waiter key donation =>
    rcases holds with ⟨rfl, free, seen, sequence, rfl, rfl⟩
    exact (register_proceeds sound free seen sequence).advances (by simp) id
  | rollback token error =>
    rcases holds with ⟨rfl, sequence, registered⟩
    exact (rollback_proceeds sound positive error registered).advances (by simp) id
  | lockWalk token walk =>
    rcases ran : walk.step system with ⟨walked, step⟩
    rcases walkStep_sound sound ran with ⟨sound', places⟩
    have runs : Runs system walked thread := ⟨sound', fun other _ => places other⟩
    rw [← places thread] at holds
    unfold callStep
    dsimp only
    rw [ran]
    rcases step with next | (error | _)
    · exact Proceeds.advances ⟨runs, holds, by simp [PiPhase.afterWalk]⟩ (by simp) id
    · exact Proceeds.advances ⟨runs, holds, by simp [PiPhase.afterWalk]⟩ (by simp) id
    · exact Proceeds.advances ⟨runs, trivial, by simp [PiPhase.afterWalk]⟩ (by simp) id
  | cancelWalk walk =>
    rcases ran : walk.step system with ⟨walked, step⟩
    rcases walkStep_sound sound ran with ⟨sound', places⟩
    have runs : Runs system walked thread := ⟨sound', fun other _ => places other⟩
    unfold callStep
    dsimp only
    rw [ran]
    rcases step with next | (error | _)
    all_goals exact Proceeds.advances ⟨runs, trivial, by simp [PiPhase.afterWalk]⟩ (by simp) id
  | releaseWalk walk | claimWalk walk =>
    rcases holds with ⟨cleans, rfl, free⟩
    refine Proceeds.advances ?_ (by simp) id
    unfold callStep
    dsimp only
    rw [walkStep_of_free cleans free]
    exact sound.proceeds_done _
  | rollbackWalk error walk =>
    rcases ran : walk.step system with ⟨walked, step⟩
    rcases walkStep_sound sound ran with ⟨sound', places⟩
    rcases walkStep_cleans sound ran holds with ⟨goesOn, stuck⟩
    have runs : Runs system walked thread := ⟨sound', fun other _ => places other⟩
    unfold callStep
    dsimp only
    rw [ran]
    rcases step with next | (error | _)
    · exact ⟨runs, goesOn next rfl, by simp [Stops, ← stuck]⟩
    · exact ⟨runs, rfl, by simp [Stops, ← stuck]⟩
    · exact ⟨runs, trivial, by simp [Stops, ← stuck]⟩
  | policyRefresh other => cases holds
  | policyWalk walk => cases holds
  | done result => exact (sound.proceeds_done result).advances (by simp) id
  | fatal code => exact ⟨sound.runs, holds, by simp [callStep]⟩

end

end PiSystem

namespace PiMachine

/-- The machine between two events, whichever threads took their turns. -/
structure Holds (machine : PiMachine Thread Mutex) : Prop where
  sound : machine.system.Sound
  phases : ∀ thread phase, machine.phases thread = some phase →
    PhaseHolds (machine.system.place thread) thread phase

def Fatal (machine : PiMachine Thread Mutex) : Prop :=
  ∃ thread, ∃ code, machine.phases thread = some (.fatal code)

/-- The event does not run into a rollback whose walk cannot go on. -/
def Passes (machine : PiMachine Thread Mutex) : PiEvent Thread Mutex → Prop
  | .begin _ _ => True
  | .advance thread => ∀ phase, machine.phases thread = some phase → ¬ machine.system.Stops phase

/-- Every walk behind a rolled-back registration goes through. -/
def RollbacksPass (config : PiConfig) :
    PiMachine Thread Mutex → List (PiEvent Thread Mutex) → Prop
  | _, [] => True
  | machine, event :: events =>
    machine.Passes event ∧ RollbacksPass config (machine.step config event) events

variable {config : PiConfig} {machine : PiMachine Thread Mutex}

omit [DecidableEq Mutex] in
theorem fatal_update_iff {stops : Prop} {thread : Thread} (system : PiSystem Thread Mutex)
    {next : Option (PiPhase Thread Mutex)} (own : (∃ code, next = some (.fatal code)) ↔
      (∃ code, machine.phases thread = some (.fatal code)) ∨ stops) :
    Fatal ⟨system, update machine.phases thread next⟩ ↔ machine.Fatal ∨ stops := by
  unfold Fatal
  dsimp only
  rw [exists_update_iff (p := fun _ found => ∃ code, found = some (PiPhase.fatal code)), own]
  constructor
  · rintro ((isFatal | isStop) | ⟨other, _, isFatal⟩)
    · exact .inl ⟨thread, isFatal⟩
    · exact .inr isStop
    · exact .inl ⟨other, isFatal⟩
  · rintro (⟨other, isFatal⟩ | isStop)
    · by_cases same : other = thread
      · exact .inl (.inl (same ▸ isFatal))
      · exact .inr ⟨other, same, isFatal⟩
    · exact .inl (.inr isStop)

private theorem step_holds (positive : 0 < config.threadCapacity) (holds : machine.Holds)
    (event : PiEvent Thread Mutex) : (machine.step config event).Holds ∧
      ((machine.step config event).Fatal ↔ machine.Fatal ∨ ¬ machine.Passes event) := by
  cases event with
  | «begin» thread call =>
    unfold step
    dsimp only
    split_ifs with possible
    · have idle := Option.isNone_iff_eq_none.mp possible.1
      refine ⟨⟨holds.sound, ?_⟩, fatal_update_iff _ (by simp [idle, Passes])⟩
      refine (forall_update_iff machine.phases fun other found => ∀ phase, found = some phase →
        PhaseHolds (machine.system.place other) other phase).mpr
          ⟨?_, fun other _ => holds.phases other⟩
      rintro phase ⟨⟩
      exact ⟨possible.2.1, possible.2.2.imp_left fun free =>
        place_eq_none_iff.mpr (Option.isNone_iff_eq_none.mp free)⟩
    · exact ⟨holds, by simp [Passes]⟩
  | advance thread =>
    unfold step
    dsimp only
    cases isPhase : machine.phases thread with
    | none => exact ⟨holds, by simp [Passes, isPhase]⟩
    | some phase =>
      have advances := callStep_advances holds.sound positive (holds.phases thread phase isPhase)
      refine ⟨⟨advances.sound, ?_⟩, fatal_update_iff _ ?_⟩
      · refine (forall_update_iff machine.phases fun other found => ∀ phase', found = some phase' →
          PhaseHolds ((machine.system.callStep config phase).1.place other) other phase').mpr
          ⟨?_, ?_⟩
        · intro next isNext
          rw [← eq_of_remaining isNext]
          exact advances.next
        · intro other ne found isFound
          rw [advances.places other ne]
          exact holds.phases other found isFound
      · have stops := advances.stops
        simp only [isPhase, Passes, Option.some.injEq, forall_eq', not_not]
        rw [← stops]
        cases (machine.system.callStep config phase).2 <;> simp [remaining]

private theorem run_holds (positive : 0 < config.threadCapacity) (holds : machine.Holds)
    (events : List (PiEvent Thread Mutex)) : (machine.run config events).Holds ∧
      ((machine.run config events).Fatal ↔
        machine.Fatal ∨ ¬ RollbacksPass config machine events) := by
  induction events generalizing machine with
  | nil => exact ⟨holds, by simp [run, RollbacksPass]⟩
  | cons event events ih =>
    rcases step_holds positive holds event with ⟨holds', stops⟩
    rcases ih holds' with ⟨ranHolds, ranStops⟩
    refine ⟨ranHolds, ranStops.trans ?_⟩
    rw [stops, RollbacksPass, not_and_or, or_assoc]

omit [DecidableEq Mutex] in
private theorem holds_start (policies : Thread → SchedulePolicy) :
    (start policies : PiMachine Thread Mutex).Holds where
  sound := ⟨(settled_initial policies).linked,
    fun thread waits => (settled_initial policies).ranked.acyclic thread (.single waits)⟩
  phases := by simp [start]

def racePolicies (thread : Fin 3) : SchedulePolicy :=
  if thread = 0 then urgentPolicy else lesserPolicy

def raceConfig : PiConfig :=
  { piChainLimit := 8
    threadCapacity := 3 }

/-- A thread takes a lock that is free, or waits for one whose owner runs. -/
def lockAlone (thread lock : Fin 3) (sequence : Nat) : List (PiEvent (Fin 3) (Fin 3)) :=
  [.begin thread (.lockSlow lock thread sequence), .advance thread, .advance thread]

/-- Thread `0` owns mutex `1`, thread `1` owns the mutexes `0` and `2` and waits for
mutex `1`. -/
def raceSetup : List (PiEvent (Fin 3) (Fin 3)) :=
  lockAlone 0 1 0 ++ lockAlone 1 0 1 ++ lockAlone 1 2 2 ++ lockAlone 1 1 3

/-- Thread `0` contends for mutex `0`. Before its walk starts, thread `2` contends
for mutex `2` and requeues thread `1` under the urgency of thread `0`. -/
def raceEvents : List (PiEvent (Fin 3) (Fin 3)) :=
  raceSetup ++ lockAlone 0 0 4 ++ lockAlone 2 2 5 ++
    [.advance 2, .advance 2, .advance 0, .advance 0, .advance 0, .advance 0]

/-- Thread `0` is rejected in the same way while thread `2` waits for its turn. -/
def passingEvents : List (PiEvent (Fin 3) (Fin 3)) :=
  raceSetup ++ lockAlone 0 0 4 ++ [.begin 2 (.lockSlow 2 2 5), .advance 2,
    .advance 0, .advance 0, .advance 0, .advance 0, .advance 2, .advance 2, .advance 2]

end PiMachine

end TgosKits
