import TgosKits.Signal.Manager

/-! # Flags that announce signals -/

namespace TgosKits

open Function SendStage

theorem SignalSet.has_eq_false {set : SignalSet} (empty : set.isEmpty = true) (signo : Signo) :
    set.has signo = false := by
  have member : signo ∈ Signo.all := by cases signo <;> simp [Signo.all]
  simpa using List.all_eq_true.mp empty signo member

/-- The sender is about to raise the flag of the receiver. -/
def SendStage.Raises {Process Thread : Type} (stage : SendStage Process Thread)
    (receiver : SignalReceiver Process Thread) : Prop :=
  match stage with
  | .raising raised _ _ _ => raised = receiver
  | .notifying target _ => .thread target = receiver
  | _ => False

namespace SignalMachine

variable {Process Thread : Type} [DecidableEq Process] [DecidableEq Thread]
  {machine : SignalMachine Process Thread} {receiver : SignalReceiver Process Thread}
  {thread : Thread} {sender : Nat}

/-- The flag of the receiver is set, or soon will be. -/
def Raised (machine : SignalMachine Process Thread) (receiver : SignalReceiver Process Thread) :
    Prop :=
  machine.possiblyHasSignal receiver = true ∨ ∃ sender, (machine.sends sender).Raises receiver

/-- A thread that just restored a mask is about to raise its flag itself. -/
def Unblocked (machine : SignalMachine Process Thread) (signo : Signo) :
    SignalReceiver Process Thread → Prop
  | .process _ => True
  | .thread thread =>
    (machine.blocked thread).has signo = false ∧ machine.stages thread ≠ .restoring

structure Announced (machine : SignalMachine Process Thread) : Prop where
  balanced : ∀ receiver, (machine.queues receiver).Balanced
  raised : ∀ receiver signo, (machine.queues receiver).has signo = true →
    machine.Unblocked signo receiver → machine.Raised receiver
  masking : ∀ thread set, machine.stages thread = .masking set →
    machine.possiblyHasSignal (.thread thread) = true

namespace Announced

variable (announced : machine.Announced) {stage : ThreadStage} {process : Process}
  {synchronous frameWritten : Bool} {mask : SignalSet}
include announced

omit [DecidableEq Process] in
theorem enter
    (masks : ∀ set, stage = .masking set → machine.possiblyHasSignal (.thread thread) = true)
    (restores : machine.stages thread = .restoring →
      machine.possiblyHasSignal (.thread thread) = true) :
    (machine.enter thread stage).Announced := by
  refine ⟨announced.balanced, fun receiver signo has unblocked => ?_, fun other set isStage => ?_⟩
  · by_cases flagged : machine.possiblyHasSignal receiver = true
    · exact .inl flagged
    · refine announced.raised receiver signo has ?_
      cases receiver with
      | process => trivial
      | thread other =>
        refine ⟨unblocked.1, fun restoring => ?_⟩
        have := unblocked.2
        dsimp only [SignalMachine.enter] at this
        grind
  · dsimp only [SignalMachine.enter] at isStage ⊢
    have := announced.masking
    grind

omit [DecidableEq Process] in
theorem leave (busy : machine.stages thread ≠ .restoring) (settled : ∀ set, stage ≠ .masking set) :
    (machine.enter thread stage).Announced :=
  announced.enter (fun set isMasking => absurd isMasking (settled set)) fun restoring =>
    absurd restoring busy

omit [DecidableEq Process] in
theorem setBlocked {set : SignalSet}
    (shown : ∀ signo, set.has signo = false → (machine.blocked thread).has signo = false ∨
      machine.possiblyHasSignal (.thread thread) = true ∨ machine.stages thread = .restoring) :
    (machine.setBlocked thread set).Announced := by
  refine ⟨announced.balanced, fun receiver signo has unblocked => ?_, announced.masking⟩
  by_cases flagged : machine.possiblyHasSignal receiver = true
  · exact .inl flagged
  · refine announced.raised receiver signo has ?_
    cases receiver with
    | process => trivial
    | thread other =>
      have := unblocked.1
      refine ⟨?_, unblocked.2⟩
      have := unblocked.2
      dsimp only [SignalMachine.setBlocked] at *
      grind

theorem store : (machine.store receiver true).Announced := by
  refine ⟨announced.balanced, fun other signo has unblocked => ?_, fun thread set isStage => ?_⟩
  · rcases announced.raised other signo has unblocked with flagged | sends
    · left
      dsimp only [SignalMachine.store]
      grind
    · exact .inr sends
  · have := announced.masking thread set isStage
    dsimp only [SignalMachine.store]
    grind

theorem clear (drained : ∀ signo, (machine.queues receiver).has signo = true →
      ¬ machine.Unblocked signo receiver)
    (settled : ∀ thread set, receiver = .thread thread → machine.stages thread ≠ .masking set) :
    (machine.store receiver false).Announced := by
  refine ⟨announced.balanced, fun other signo has unblocked => ?_, fun thread set isStage => ?_⟩
  · by_cases same : other = receiver
    · subst same
      exact absurd unblocked (drained signo has)
    · rcases announced.raised other signo has unblocked with flagged | sends
      · exact .inl (by simpa [SignalMachine.store, same] using flagged)
      · exact .inr sends
  · have differs : .thread thread ≠ receiver := fun same => settled thread set same.symm isStage
    simpa [SignalMachine.store, differs] using announced.masking thread set isStage

omit [DecidableEq Process] [DecidableEq Thread] in
theorem setSend {stage : SendStage Process Thread}
    (hands : ∀ receiver, (machine.sends sender).Raises receiver →
      stage.Raises receiver ∨ machine.possiblyHasSignal receiver = true) :
    (machine.setSend sender stage).Announced := by
  refine ⟨announced.balanced, fun receiver signo has unblocked => ?_, announced.masking⟩
  rcases announced.raised receiver signo has unblocked with flagged | ⟨other, raises⟩
  · exact .inl flagged
  · by_cases same : other = sender
    · subst same
      rcases hands receiver raises with raises | flagged
      · exact .inr ⟨other, by simpa [SignalMachine.setSend] using raises⟩
      · exact .inl flagged
    · exact .inr ⟨other, by simpa [SignalMachine.setSend, same] using raises⟩

omit [DecidableEq Process] [DecidableEq Thread] in
theorem move (quiet : ∀ receiver, ¬ (machine.sends sender).Raises receiver)
    {stage : SendStage Process Thread} : (machine.setSend sender stage).Announced :=
  announced.setSend fun receiver raises => absurd raises (quiet receiver)

omit [DecidableEq Thread] in
theorem beginGroupExit {status : Int} : (machine.beginGroupExit process status).Announced :=
  ⟨announced.balanced, announced.raised, announced.masking⟩

theorem setQueue {queue : SignalQueue} (balanced : queue.Balanced)
    (raised : ∀ signo, queue.has signo = true → machine.Unblocked signo receiver →
      machine.Raised receiver) :
    (machine.setQueue receiver queue).Announced := by
  refine ⟨fun other => ?_, fun other signo has unblocked => ?_, announced.masking⟩
  · by_cases same : other = receiver
    · simpa [SignalMachine.setQueue, same] using balanced
    · simpa [SignalMachine.setQueue, same] using announced.balanced other
  · by_cases same : other = receiver
    · subst same
      exact raised signo (by simpa [SignalMachine.setQueue] using has) unblocked
    · refine announced.raised other signo ?_ unblocked
      simpa [SignalMachine.setQueue, same] using has

theorem dequeue : (machine.dequeue receiver synchronous mask).2.Announced := by
  have ⟨balanced, has⟩ := (announced.balanced receiver).dequeue synchronous mask
  have kept := announced.setQueue balanced fun signo found =>
    announced.raised receiver signo (has signo found)
  have same : ∀ queue, (machine.setQueue receiver queue).store receiver
      (machine.possiblyHasSignal receiver) = machine.setQueue receiver queue := by
    simp [SignalMachine.store, SignalMachine.setQueue]
  unfold SignalMachine.dequeue
  cases receiver with
  | thread thread => simpa [same] using kept
  | process process =>
    dsimp only
    generalize (machine.queues (.process process)).dequeue synchronous mask = result at kept ⊢
    cases empty : result.2.pending.set.isEmpty with
    | true =>
      refine kept.clear (fun signo found => ?_) (by simp)
      simp [SignalMachine.setQueue, SignalQueue.has, SignalSet.has_eq_false empty] at found
    | false => simpa [same] using kept

theorem create {caller : Option Thread} : (machine.create process caller thread).Announced := by
  refine ⟨fun other => ?_, fun other signo has unblocked => ?_, fun other set isStage => ?_⟩
  · by_cases same : other = .thread thread
    · simpa [SignalMachine.create, same] using SignalQueue.balanced_new _
    · simpa [SignalMachine.create, same] using announced.balanced other
  · by_cases same : other = .thread thread
    · subst same
      left
      simp only [SignalMachine.create, update_self] at has ⊢
      by_contra alive
      simp [alive, SignalQueue.has, SignalQueue.new, SignalSet.empty] at has
    · have old : machine.Unblocked signo other := by
        cases other with
        | process => trivial
        | thread other =>
          have differs : other ≠ thread := fun equal => same (congrArg _ equal)
          simpa [Unblocked, SignalMachine.create, differs] using unblocked
      simp only [SignalMachine.create, update_of_ne same] at has
      rcases announced.raised other signo has old with flagged | sends
      · exact .inl (by simpa [SignalMachine.create, same] using flagged)
      · exact .inr sends
  · have := announced.masking other set
    dsimp only [SignalMachine.create] at isStage ⊢
    grind

variable (busy : machine.stages thread ≠ .restoring)
include busy

theorem deliver {info : SignalInfo} :
    (machine.deliver thread mask info frameWritten).Announced := by
  unfold SignalMachine.deliver
  dsimp only
  split
  · exact announced.leave busy (by simp)
  · set prepared := if (machine.actions (machine.process thread) info.signo).resethand then
      machine.setAction (machine.process thread) info.signo .default else machine
    have kept : prepared.Announced ∧ prepared.stages = machine.stages := by
      unfold prepared
      split
      · exact ⟨⟨announced.balanced, announced.raised, announced.masking⟩, rfl⟩
      · exact ⟨announced, rfl⟩
    rw [← kept.2] at busy
    split
    · exact kept.1.leave busy (by grind)
    · exact kept.1.leave busy (by simp)
    · exact (kept.1.setBlocked (by grind [SignalSet.union])).leave busy (by simp)

theorem dequeueNext {next : ThreadStage} (settled : ∀ set, next ≠ .masking set) :
    (machine.dequeueNext thread mask receiver synchronous frameWritten next).Announced := by
  unfold SignalMachine.dequeueNext
  dsimp only
  split
  · exact announced.dequeue.leave busy settled
  · exact announced.dequeue.deliver busy

end Announced

/-- A thread clears its flag only when no unblocked signal is in its queue. -/
def Drains (machine : SignalMachine Process Thread) : SignalEvent Process Thread → Prop
  | .advance thread _ => ∀ mask, machine.stages thread = .checking .clearing mask →
      ∀ signo, (machine.queues (.thread thread)).has signo = true →
        (machine.blocked thread).has signo = true
  | _ => True

section

variable (announced : machine.Announced)
include announced

theorem Announced.advance {frameWritten : Bool}
    (met : machine.Drains (.advance thread frameWritten)) :
    (machine.advance thread frameWritten).Announced := by
  unfold SignalMachine.advance
  dsimp only [checkSlow]
  split
  · exact announced
  · split <;> exact announced.leave (by simp [*]) (by simp)
  · split <;> exact announced.leave (by simp [*]) (by simp)
  · exact announced.dequeueNext (by simp [*]) (by simp)
  · exact announced.dequeueNext (by simp [*]) (by simp)
  · exact announced.dequeueNext (by simp [*]) (by simp)
  · have cleared : (machine.store (.thread thread) false).Announced := by
      refine announced.clear (fun signo has unblocked => ?_) (by grind)
      simp [met _ ‹_› signo has, Unblocked] at unblocked
    exact cleared.leave (by simp [SignalMachine.store, *]) (by simp)
  · exact announced.dequeueNext (by simp [*]) (by simp)
  · have flagged := announced.masking thread _ ‹_›
    exact (announced.setBlocked (by simp [flagged])).enter (by simp) fun _ => flagged
  · exact announced.store.enter (by simp) fun _ => update_self ..
  · have busy : machine.stages thread ≠ .restoring := by simp [*]
    exact announced.dequeue.leave busy (by simp)

theorem Announced.send (quiet : ∀ receiver, ¬ (machine.sends sender).Raises receiver)
    {info : SignalInfo} {deferFatal : Bool} :
    (machine.send sender receiver info deferFatal).Announced := by
  unfold SignalMachine.send
  dsimp only
  split
  · refine (announced.move quiet).setQueue (announced.balanced receiver).put
      fun signo has unblocked => ?_
    by_cases added : ((machine.queues receiver).put info).1 = true
    · exact .inr ⟨sender, by simp [SignalMachine.setSend, added, Raises]⟩
    · rw [SignalQueue.put_of_refused added] at has
      exact (announced.move quiet).raised receiver signo has unblocked
  · exact announced

theorem Announced.proceed : (machine.proceed sender).Announced := by
  have raises : ∀ {receiver : SignalReceiver Process Thread} {stage : SendStage Process Thread},
      (∀ other, (machine.sends sender).Raises other → other = receiver) →
      ((machine.store receiver true).setSend sender stage).Announced := by
    intro receiver stage only
    refine announced.store.setSend fun other raises => .inr ?_
    rw [only other raises]
    exact update_self ..
  unfold SignalMachine.proceed
  split
  · exact announced
  · exact raises (by simp [*, Raises])
  · have quiet : ∀ receiver, ¬ (machine.sends sender).Raises receiver := by
      simp [*, Raises]
    dsimp only
    split
    · exact announced.beginGroupExit.move quiet
    · exact announced.move quiet
  · exact announced.move (by simp [*, Raises])
  · exact (announced.move (by simp [*, Raises])).setQueue (announced.balanced _).addKill
      fun _ _ _ => .inr ⟨sender, by simp [SignalMachine.setSend, Raises]⟩
  · exact raises (by simp [*, Raises])

theorem Announced.step {event : SignalEvent Process Thread}
    (met : machine.Drains event) : (machine.step event).Announced := by
  have ⟨balanced, raised, masking⟩ := announced
  have calls : ∀ {thread : Thread} {called : SignalMachine Process Thread},
      (machine.stages thread = .idle → called.Announced) →
      (machine.startCall thread called).Announced := by
    intro thread called started
    unfold startCall
    split
    · exact started ‹_›
    · exact announced
  have sends : ∀ {sender : Nat} {called : SignalMachine Process Thread},
      ((∀ receiver, ¬ (machine.sends sender).Raises receiver) → called.Announced) →
      (machine.startSend sender called).Announced := by
    intro sender called started
    unfold startSend
    split
    · exact started (by simp [*, Raises])
    · exact announced
  cases event with
  | create process caller thread =>
    dsimp only [SignalMachine.step]
    split
    · exact announced
    · exact announced.create
  | setAction process signo handler nodefer resethand mask =>
    dsimp only [SignalMachine.step]
    split <;> exact ⟨balanced, raised, masking⟩
  | setBlocked thread set =>
    exact calls fun _ => announced.store.enter (fun _ _ => update_self ..) fun _ => update_self ..
  | restore thread sigmask =>
    refine calls fun idle => ?_
    have entered : (machine.enter thread .restoring).Announced :=
      announced.leave (by simp [idle]) (by simp)
    exact entered.setBlocked fun _ _ => .inr (.inr (update_self ..))
  | dequeue thread set => 
    refine calls fun idle => ?_
    have busy : machine.stages thread ≠ .restoring := by simp [idle]
    exact announced.dequeue.leave busy (by grind)
  | check thread => exact calls fun idle => announced.leave (by simp [idle]) (by grind)
  | advance thread frameWritten => exact announced.advance met
  | exitGroup sender thread status =>
    refine sends fun quiet => ?_
    split
    · exact announced
    · exact announced.beginGroupExit.move quiet
  | send sender receiver info deferFatal =>
    refine sends fun quiet => ?_
    split
    · exact announced.send quiet
    · exact announced
  | proceed sender => exact announced.proceed
  | beginExit | drop | beginSigwait | finishSigwait | allowInitFaultExit =>
    exact ⟨balanced, raised, masking⟩

end

theorem Reachable.announced (reachable : Reachable Drains machine) : machine.Announced := by
  induction reachable with
  | start globalInit process =>
    refine ⟨fun _ => SignalQueue.balanced_new _, fun _ signo has => ?_, fun _ _ isStage => ?_⟩
    · cases has
    · cases isStage
  | step reached met ih => exact ih.step met

/-- Accepted signals stay queued until they are dequeued once. Between calls a thread with an
unblocked signal sees the work, and its next check looks into the queues. -/
theorem signals_announced (reachable : Reachable Drains machine) :
    (∀ receiver info, (machine.queues receiver).accepted.count info =
      ((machine.queues receiver).pending.queued info.signo).count info +
        (machine.queues receiver).dequeued.count info) ∧
    (∀ receiver signo, (machine.queues receiver).pending.queued signo ≠ [] →
      (machine.queues receiver).pending.set.has signo = true) ∧
    ∀ thread signo, (∀ sender, machine.sends sender = .idle) → machine.stages thread = .idle →
      ((machine.queues (.thread thread)).has signo = true ∨
        (machine.queues (.process (machine.process thread))).has signo = true) →
      (machine.blocked thread).has signo = false →
      machine.hasPendingSignalWork thread = true ∧
        (machine.exitStarted thread = false → machine.groupExit (machine.process thread) = none →
          ∀ frameWritten, ∃ steps, (machine.run (.check thread ::
            List.replicate steps (.advance thread frameWritten))).stages thread =
              .checking .synchronous (machine.blocked thread).complement) := by
  have announced := reachable.announced
  refine ⟨fun receiver => (announced.balanced receiver).counted,
    fun receiver => (announced.balanced receiver).wellFormed.has,
    fun thread signo quiet idle pending unblocked => ?_⟩
  have flag : ∀ receiver, machine.Raised receiver → machine.possiblyHasSignal receiver = true := by
    intro receiver raised
    rcases raised with flagged | ⟨sender, raises⟩
    · exact flagged
    · simp [quiet sender, Raises] at raises
  have work : machine.possiblyHasSignal (.thread thread) = true ∨
      machine.possiblyHasSignal (.process (machine.process thread)) = true := by
    rcases pending with own | shared
    · exact .inl (flag _ (announced.raised _ signo own ⟨unblocked, by simp [idle]⟩))
    · exact .inr (flag _ (announced.raised _ signo shared trivial))
  refine ⟨by simpa [hasPendingSignalWork] using work, fun running alive frameWritten => ?_⟩
  have checked : machine.step (.check thread) = machine.enter thread .entering := by
    simp [step, startCall, idle, running, alive]
  by_cases own : machine.possiblyHasSignal (.thread thread) = true
  · refine ⟨1, ?_⟩
    change ((machine.step (.check thread)).advance thread frameWritten).stages thread = _
    rw [checked]
    simp [advance, enter, checkSlow, own]
  · refine ⟨2, ?_⟩
    change (((machine.step (.check thread)).advance thread frameWritten).advance thread
      frameWritten).stages thread = _
    rw [checked]
    simp [advance, enter, checkSlow, own, work.resolve_left own]

/-- A thread receives a signal that it blocks, clears its flag in a check that finds nothing
else, and is then sent a signal that it catches. -/
def caughtAfterCheck : List (SignalEvent Unit Unit) :=
  [.create () none (), .setAction () .sigusr1 2 false false .empty,
    .setBlocked () (.add .empty .sigusr2), .advance () true,
    .send 0 (.thread ()) ⟨.sigusr2, 0, 0⟩ false, .proceed 0, .proceed 0, .check (),
    .advance () true, .advance () true, .advance () true, .advance () true, .advance () true,
    .advance () true, .send 0 (.thread ()) ⟨.sigusr1, 0, 0⟩ false, .proceed 0, .proceed 0]

def caughtSignal : SignalMachine Unit Unit := (start (fun _ => false) id).run caughtAfterCheck

theorem caughtSignal_announced : ((caughtSignal.queues (.thread ())).has .sigusr1 = true ∧
      (caughtSignal.blocked ()).has .sigusr1 = false) ∧
      caughtSignal.hasPendingSignalWork () = true := by
  have quiet : ∀ sender, caughtSignal.sends sender = .idle := by
    intro sender
    cases sender <;> rfl
  have reachable : Reachable Drains caughtSignal := by
    refine .run (.start _ _) ⟨trivial, trivial, trivial, nofun, trivial, trivial, trivial, trivial,
      nofun, nofun, nofun, nofun, fun _ _ signo => ?_, nofun, trivial, trivial, trivial, trivial⟩
    cases signo <;> first | exact fun _ => rfl | exact nofun
  exact ⟨⟨rfl, rfl⟩, ((signals_announced reachable).2.2 () .sigusr1 quiet rfl (.inl rfl) rfl).1⟩

/-- The signal arrives between the empty dequeue of a check and the clearing of the flag. -/
def overtakenCheck : List (SignalEvent Unit Unit) :=
  [.create () none (), .setAction () .sigusr1 2 false false .empty, .setBlocked () .empty,
    .advance () true, .check (), .advance () true, .advance () true, .advance () true,
    .advance () true, .send 0 (.thread ()) ⟨.sigusr1, 0, 0⟩ false, .proceed 0, .proceed 0,
    .advance () true, .advance () true]

theorem overtakenCheck_not_announced : let machine := (start (fun _ => false) id).run overtakenCheck
    (∀ sender, machine.sends sender = .idle) ∧ machine.stages () = .idle ∧
      (machine.queues (.thread ())).has .sigusr1 = true ∧
      (machine.blocked ()).has .sigusr1 = false ∧ machine.hasPendingSignalWork () = false := by
  refine ⟨fun sender => ?_, rfl, rfl, rfl, rfl⟩
  cases sender <;> rfl

end SignalMachine

end TgosKits
