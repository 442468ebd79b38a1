import TgosKits.Signal.Manager

/-! # Killing a process -/

namespace TgosKits

open Function

/-- The set blocks neither of the signals that cannot be caught. -/
@[grind]
def SignalSet.Catchable (set : SignalSet) : Prop :=
  set.has .sigkill = false ∧ set.has .sigstop = false

/-- The masks that programs pass for their handlers and leave in their frames. -/
@[grind]
def SignalEvent.Catchable {Process Thread : Type} : SignalEvent Process Thread → Prop
  | .setAction _ _ _ _ _ mask => mask.Catchable
  | .restore _ sigmask => sigmask.Catchable
  | _ => True

namespace SignalMachine

variable {Process Thread : Type} [DecidableEq Process] [DecidableEq Thread]
  {machine : SignalMachine Process Thread} {event : SignalEvent Process Thread} {thread : Thread}
  {mask : SignalSet} {frameWritten : Bool}

/-- Nothing stands in the way of a kill. -/
structure Open (globalInit initUnkillable : Process → Bool)
    (actions : Process → Signo → SignalAction) (blocked : Thread → SignalSet)
    (stages : Thread → ThreadStage) : Prop where
  blocked : ∀ thread, (blocked thread).Catchable
  masking : ∀ thread set, stages thread = .masking set → set.Catchable
  mask : ∀ process signo, (actions process signo).mask.Catchable
  default : ∀ process signo, signo = .sigkill ∨ signo = .sigstop →
    (actions process signo).disposition = .default
  init : ∀ process, initUnkillable process = true → globalInit process = true

abbrev Killable (machine : SignalMachine Process Thread) : Prop :=
  Open machine.globalInit machine.initUnkillable machine.actions machine.blocked machine.stages

omit [DecidableEq Process] in
theorem Killable.enter (killable : machine.Killable) {stage : ThreadStage}
    (settled : ∀ set, stage = .masking set → set.Catchable) :
    (machine.enter thread stage).Killable := by
  refine ⟨killable.blocked, fun other set isStage => ?_, killable.mask, killable.default,
    killable.init⟩
  dsimp only [SignalMachine.enter] at isStage
  rw [update_apply] at isStage
  split_ifs at isStage
  · exact settled set isStage
  · exact killable.masking other set isStage

omit [DecidableEq Process] in
theorem Killable.setBlocked (killable : machine.Killable) {set : SignalSet}
    (catchable : set.Catchable) : (machine.setBlocked thread set).Killable := by
  refine ⟨fun other => ?_, killable.masking, killable.mask, killable.default, killable.init⟩
  dsimp only [SignalMachine.setBlocked]
  rw [update_apply]
  split_ifs
  · exact catchable
  · exact killable.blocked other

omit [DecidableEq Thread] in
theorem Killable.setAction (killable : machine.Killable) {process : Process} {signo : Signo}
    {action : SignalAction} (catchable : action.mask.Catchable)
    (caught : signo = .sigkill ∨ signo = .sigstop → action.disposition = .default) :
    (machine.setAction process signo action).Killable := by
  have replaced : ∀ other number, (machine.setAction process signo action).actions other number =
      if other = process ∧ number = signo then action else machine.actions other number := by
    intro other number
    by_cases same : other = process
    · subst same
      simp [SignalMachine.setAction, update_apply]
    · simp [SignalMachine.setAction, same]
  refine ⟨killable.blocked, killable.masking, fun other number => ?_, fun other number fixed => ?_,
    killable.init⟩ <;> rw [replaced] <;> split_ifs with same
  · exact catchable
  · exact killable.mask other number
  · exact caught (same.2 ▸ fixed)
  · exact killable.default other number fixed

theorem Killable.deliver (killable : machine.Killable) {info : SignalInfo} :
    (machine.deliver thread mask info frameWritten).Killable := by
  have catchable := killable.mask (machine.process thread) info.signo
  have caught := killable.default (machine.process thread) info.signo
  unfold SignalMachine.deliver
  dsimp only
  split
  · exact killable.enter (by simp)
  · set prepared := if (machine.actions (machine.process thread) info.signo).resethand then
      machine.setAction (machine.process thread) info.signo .default else machine
    have kept : prepared.Killable := by
      unfold prepared
      split
      · exact killable.setAction ⟨rfl, rfl⟩ fun _ => rfl
      · exact killable
    have blocked := kept.blocked thread
    split
    · exact kept.enter (by grind)
    · exact kept.enter (by simp)
    · exact (kept.setBlocked (by grind [SignalSet.union])).enter (by simp)

theorem Killable.dequeueNext (killable : machine.Killable)
    {receiver : SignalReceiver Process Thread} {synchronous : Bool} {next : ThreadStage}
    (settled : ∀ set, next = .masking set → set.Catchable) :
    (machine.dequeueNext thread mask receiver synchronous frameWritten next).Killable := by
  unfold SignalMachine.dequeueNext
  dsimp only
  split
  · exact .enter killable settled
  · have kept : (machine.dequeue receiver synchronous mask).2.Killable := killable
    exact kept.deliver

theorem Killable.advance (killable : machine.Killable) :
    (machine.advance thread frameWritten).Killable := by
  unfold SignalMachine.advance
  dsimp only [checkSlow]
  split
  · exact killable
  · split <;> exact killable.enter (by simp)
  · split <;> exact killable.enter (by simp)
  · exact killable.dequeueNext (by simp)
  · exact killable.dequeueNext (by simp)
  · exact killable.dequeueNext (by simp)
  · exact .enter killable (by simp)
  · exact killable.dequeueNext (by simp)
  · exact (killable.setBlocked (killable.masking _ _ ‹_›)).enter (by simp)
  · exact .enter killable (by simp)
  · exact .enter killable (by simp)

theorem Killable.step (killable : machine.Killable) (met : event.Catchable) :
    (machine.step event).Killable := by
  have calls : ∀ {thread : Thread} {called : SignalMachine Process Thread}, called.Killable →
      (machine.startCall thread called).Killable := by
    intro thread called started
    unfold startCall
    split
    · exact started
    · exact killable
  cases event with
  | create process caller thread =>
    dsimp only [step]
    split
    · exact killable
    · have inherited : (caller.elim .empty machine.blocked).Catchable := by
        cases caller with
        | none => exact ⟨rfl, rfl⟩
        | some caller => exact killable.blocked caller
      exact .enter (killable.setBlocked inherited) (by simp)
  | allowInitFaultExit process =>
    refine { killable with init := fun other isInit => killable.init other ?_ }
    dsimp only [step] at isInit
    grind [update_apply]
  | setAction process signo handler nodefer resethand mask =>
    dsimp only [step]
    split
    · exact killable
    · exact killable.setAction met (by grind)
  | setBlocked thread set => exact calls (.enter killable (by grind))
  | restore thread sigmask => exact calls ((killable.setBlocked met).enter (by simp))
  | dequeue thread set => exact calls (.enter killable (by grind))
  | check thread => exact calls (killable.enter (by grind))
  | advance thread frameWritten => exact killable.advance
  | exitGroup sender thread status =>
    dsimp only [step, startSend]
    split
    · split <;> exact killable
    · exact killable
  | send sender receiver info deferFatal =>
    dsimp only [step, startSend, send]
    split
    · split
      · split <;> exact killable
      · exact killable
    · exact killable
  | proceed sender =>
    dsimp only [step, proceed]
    split
    · exact killable
    · exact killable
    · split <;> exact killable
    · exact killable
    · exact killable
    · exact killable
  | beginExit | drop | beginSigwait | finishSigwait => exact killable

theorem Reachable.killable (reachable : Reachable (fun _ event => event.Catchable) machine) :
    machine.Killable := by
  induction reachable with
  | start globalInit process =>
    exact ⟨fun _ => ⟨rfl, rfl⟩, by simp [SignalMachine.start], fun _ _ => ⟨rfl, rfl⟩,
      fun _ _ _ => rfl, fun _ => id⟩
  | step reached met ih => exact ih.step met

section

variable {process : Process} {sender : Nat}

private theorem isSome_groupExit_proceed (begun : (machine.groupExit process).isSome = true) :
    ((machine.proceed sender).groupExit process).isSome = true := by
  unfold proceed
  split
  · exact begun
  · exact begun
  · dsimp only
    split
    · dsimp only [beginGroupExit, setSend]
      rw [update_apply]
      split_ifs with same
      · subst same
        rw [Option.isSome_iff_exists] at begun
        rcases begun with ⟨status, found⟩
        simp [found]
      · exact begun
    · exact begun
  · exact begun
  · exact begun
  · exact begun

omit [DecidableEq Process] [DecidableEq Thread]

variable (killable : machine.Killable) (ordinary : machine.globalInit process = false)
include killable ordinary

theorem Killable.ignoresInitDefault_eq_false (signo : Signo) :
    machine.ignoresInitDefault process signo = false := by
  have unkillable : machine.initUnkillable process = false := by
    by_contra isInit
    have := killable.init process (by simpa using isInit)
    simp [ordinary] at this
  simp [ignoresInitDefault, unkillable]

theorem Killable.accepts : machine.accepts (.process process) .sigkill = true := by
  have notIgnored := killable.ignoresInitDefault_eq_false ordinary .sigkill
  have disposed := killable.default process .sigkill (.inl rfl)
  simp [SignalMachine.accepts, owner, rejectsKernelOnlySignal, ordinary, notIgnored,
    SignalAction.isIgnore, disposed, Signo.defaultAction]

variable (alive : ∃ thread ∈ machine.children process, machine.exitStarted thread = false)
include alive

variable [DecidableEq Process] [DecidableEq Thread]

theorem Killable.commits {deferFatal wanted : Bool}
    (stage : machine.sends sender = .completing (.process process) .sigkill deferFatal wanted) :
    ((machine.proceed sender).groupExit process).isSome = true := by
  have notIgnored := killable.ignoresInitDefault_eq_false ordinary .sigkill
  have disposed := killable.default process .sigkill (.inl rfl)
  have selected : machine.selects (.process process) .sigkill wanted = true := by
    rcases alive with ⟨thread, member, runs⟩
    refine List.any_eq_true.mpr ⟨thread, member, ?_⟩
    simp [wantsSignal, runs, (killable.blocked thread).1]
  have fatal : machine.isFatal process .sigkill deferFatal = true := by
    simp [isFatal, notIgnored, disposed, Signo.defaultAction]
  unfold proceed
  simp [stage, owner, selected, fatal, beginGroupExit, setSend]

end

/-- A kill that finds a thread of the process still running commits a group exit: when the
call runs alone, and when its decision comes after steps of others. -/
theorem kill_commits (reachable : Reachable (fun _ event => event.Catchable) machine) :
    (∀ thread, (machine.blocked thread).has .sigkill = false ∧
      (machine.blocked thread).has .sigstop = false) ∧
    ∀ process, machine.globalInit process = false →
      (∃ thread ∈ machine.children process, machine.exitStarted thread = false) →
      ∀ sender deferFatal, (∀ info, info.signo = .sigkill → machine.sends sender = .idle →
          ((machine.run [.send sender (.process process) info deferFatal, .proceed sender,
            .proceed sender]).groupExit process).isSome = true) ∧
        ∀ wanted, machine.sends sender = .completing (.process process) .sigkill deferFatal wanted →
          ((machine.step (.proceed sender)).groupExit process).isSome = true := by
  have killable := reachable.killable
  refine ⟨killable.blocked, fun process ordinary alive sender deferFatal =>
    ⟨fun info isKill free => ?_, fun wanted stage => killable.commits ordinary alive stage⟩⟩
  have accepted := killable.accepts ordinary
  set sent := machine.step (.send sender (.process process) info deferFatal) with sentEq
  have ran : sent = machine.send sender (.process process) info deferFatal := by
    simp [sentEq, step, startSend, free, isCreated]
  have kept : sent.Killable := killable.step trivial
  have same : sent.globalInit = machine.globalInit ∧ sent.children = machine.children ∧
      sent.exitStarted = machine.exitStarted ∧
      sent.sends sender = if ((machine.queues (.process process)).put info).1 then
        .raising (.process process) .sigkill deferFatal true
        else .completing (.process process) .sigkill deferFatal true := by
    rw [ran, send]
    simp [isKill, accepted, setSend, setQueue]
  obtain ⟨initEq, childrenEq, exitEq, stage⟩ := same
  change (((sent.proceed sender).proceed sender).groupExit process).isSome = true
  rw [← initEq] at ordinary
  rw [← childrenEq, ← exitEq] at alive
  split_ifs at stage with added
  · have raised : sent.proceed sender = (sent.store (.process process) true).setSend sender
        (.completing (.process process) .sigkill deferFatal true) := by
      simp [proceed, stage]
    have keptRaised : (sent.proceed sender).Killable :=
      (kept.step trivial : (sent.step (.proceed sender)).Killable)
    rw [raised] at keptRaised ⊢
    exact keptRaised.commits ordinary alive (update_self ..)
  · exact isSome_groupExit_proceed (kept.commits ordinary alive stage)

def oneThread : SignalMachine Unit Unit :=
  (start (fun _ => false) id).step (.create () none ())

/-- A handler with a mask is set, and a frame restores the mask of another signal. -/
def maskedThread : SignalMachine Unit Unit :=
  oneThread.run [.setAction () .sigusr1 2 false false (.add .empty .sigusr2),
    .restore () (.add .empty .sigusr1), .advance () true]

theorem maskedThread_kill_commits : (maskedThread.blocked ()).has .sigusr1 = true ∧
      ((maskedThread.run [.send 0 (.process ()) ⟨.sigkill, 0, 0⟩ false, .proceed 0,
        .proceed 0]).groupExit ()).isSome = true := by
  have reachable : Reachable (fun _ event => event.Catchable) maskedThread :=
    .run (.step (.start _ _) trivial) ⟨⟨rfl, rfl⟩, ⟨rfl, rfl⟩, trivial, trivial⟩
  exact ⟨rfl, ((kill_commits reachable).2 () rfl ⟨(), by decide, rfl⟩ 0 false).1
    ⟨.sigkill, 0, 0⟩ rfl rfl⟩

/-- A frame whose mask blocks the kill. -/
def restoresKill : List (SignalEvent Unit Unit) :=
  [.restore () (.add .empty .sigkill), .advance () true]

/-- A handler whose mask blocks the kill is set and runs. -/
def handlesKill : List (SignalEvent Unit Unit) :=
  [.setAction () .sigusr1 2 false false (.add .empty .sigkill),
    .send 0 (.thread ()) ⟨.sigusr1, 0, 0⟩ false, .proceed 0, .proceed 0, .check (),
    .advance () true, .advance () true, .advance () true, .advance () true]

/-- The thread runs on and blocks the kill, which does not end the process. -/
def Evades (machine : SignalMachine Unit Unit) : Prop :=
  machine.globalInit () = false ∧ machine.children () = [()] ∧
    machine.exitStarted () = false ∧ (machine.blocked ()).has .sigkill = true ∧
    (machine.run [.send 0 (.process ()) ⟨.sigkill, 0, 0⟩ false, .proceed 0,
      .proceed 0]).groupExit () = none

theorem blockedKill_not_commits :
    Evades (oneThread.run restoresKill) ∧ Evades (oneThread.run handlesKill) := by
  unfold Evades
  decide +kernel

end SignalMachine

end TgosKits
