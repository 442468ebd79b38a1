import TgosKits.Signal.Pending

/-!
# Signals of processes and their threads

The sections under a pending lock and the accesses to the flags that announce signals
are steps of their own.
-/

namespace TgosKits

open Function

inductive SignalDisposition where
  | default
  | ignore
  | handler (address : Nat)
  deriving DecidableEq, Repr

structure SignalAction where
  nodefer : Bool
  resethand : Bool
  mask : SignalSet
  disposition : SignalDisposition

namespace SignalAction

def default : SignalAction := ⟨false, false, .empty, .default⟩

/-- The action of a `kernel_sigaction`. -/
def ofKernel (handler : Nat) (nodefer resethand : Bool) (mask : SignalSet) : SignalAction :=
  ⟨nodefer, resethand, mask,
    if handler = 0 then .default else if handler = 1 then .ignore else .handler handler⟩

def isIgnore (action : SignalAction) (signo : Signo) : Bool :=
  match action.disposition with
  | .ignore => true
  | .default => signo.defaultAction = .ignore || signo.defaultAction = .resume
  | .handler _ => false

end SignalAction

inductive SignalReceiver (Process Thread : Type) where
  | process (process : Process)
  | thread (thread : Thread)
  deriving DecidableEq

inductive DequeuePhase where
  | synchronous
  | synchronousShared
  | ordinary
  | clearing
  | shared
  deriving DecidableEq, Repr

/-- What a thread is about to do next in a call to its signal manager. -/
inductive ThreadStage where
  | idle
  | entering
  | loading
  | checking (phase : DequeuePhase) (mask : SignalSet)
  | masking (set : SignalSet)
  | restoring
  | waiting (set : SignalSet)

/-- What a sender is about to do next: raise the flag of the receiver, decide whether the
signal is fatal, or kill the threads of the group. -/
inductive SendStage (Process Thread : Type) where
  | idle
  | raising (receiver : SignalReceiver Process Thread) (signo : Signo) (deferFatal wanted : Bool)
  | completing (receiver : SignalReceiver Process Thread) (signo : Signo)
      (deferFatal wanted : Bool)
  | killing (targets : List Thread)
  | notifying (target : Thread) (targets : List Thread)

inductive SignalEvent (Process Thread : Type) where
  | create (process : Process) (caller : Option Thread) (thread : Thread)
  | beginExit (thread : Thread)
  | drop (thread : Thread)
  | exitGroup (sender : Nat) (thread : Thread) (status : Int)
  | allowInitFaultExit (process : Process)
  | setAction (process : Process) (signo : Signo) (handler : Nat) (nodefer resethand : Bool)
      (mask : SignalSet)
  | setBlocked (thread : Thread) (set : SignalSet)
  | restore (thread : Thread) (sigmask : SignalSet)
  | beginSigwait (thread : Thread) (set : SignalSet)
  | finishSigwait (thread : Thread)
  | dequeue (thread : Thread) (set : SignalSet)
  | check (thread : Thread)
  | advance (thread : Thread) (frameWritten : Bool)
  | send (sender : Nat) (receiver : SignalReceiver Process Thread) (info : SignalInfo)
      (deferFatal : Bool)
  | proceed (sender : Nat)

/-- The managers of all processes and threads, with the calls that run. -/
structure SignalMachine (Process Thread : Type) where
  globalInit : Process → Bool
  initUnkillable : Process → Bool
  groupExit : Process → Option Int
  actions : Process → Signo → SignalAction
  children : Process → List Thread
  process : Thread → Process
  created : Thread → Bool
  exitStarted : Thread → Bool
  blocked : Thread → SignalSet
  sigwait : Thread → Option SignalSet
  queues : SignalReceiver Process Thread → SignalQueue
  possiblyHasSignal : SignalReceiver Process Thread → Bool
  stages : Thread → ThreadStage
  sends : Nat → SendStage Process Thread

namespace SignalMachine

variable {Process Thread : Type} [DecidableEq Process] [DecidableEq Thread]
  (machine : SignalMachine Process Thread) (process : Process)

def rejectsKernelOnlySignal (signo : Signo) : Bool :=
  machine.globalInit process && (signo = .sigkill || signo = .sigstop)

def ignoresInitDefault (signo : Signo) : Bool :=
  machine.initUnkillable process && (machine.actions process signo).disposition = .default

variable (thread : Thread)

def wantsSignal (signo : Signo) : Bool :=
  !machine.exitStarted thread && !(machine.blocked thread).has signo

def isSigwaitFor (signo : Signo) : Bool :=
  (machine.sigwait thread).any (·.has signo)

def owner : SignalReceiver Process Thread → Process
  | .process process => process
  | .thread thread => machine.process thread

variable (receiver : SignalReceiver Process Thread)

def accepts (signo : Signo) : Bool :=
  let process := machine.owner receiver
  let ignored := (machine.actions process signo).isIgnore signo ||
    machine.ignoresInitDefault process signo
  !machine.rejectsKernelOnlySignal process signo &&
    match receiver with
    | .process process =>
      let children := machine.children process
      !children.isEmpty && children.all (fun thread => (machine.blocked thread).has signo) ||
        children.any (machine.isSigwaitFor · signo) || !ignored
    | .thread thread =>
      (machine.blocked thread).has signo || machine.isSigwaitFor thread signo || !ignored

/-- Whether a target takes the signal. A thread has been asked before the signal was queued. -/
def selects (signo : Signo) (wanted : Bool) : Bool :=
  match receiver with
  | .process process => (machine.children process).any (machine.wantsSignal · signo)
  | .thread _ => wanted

def isFatal (signo : Signo) (deferFatal : Bool) : Bool :=
  !machine.ignoresInitDefault process signo &&
    (machine.actions process signo).disposition = .default &&
    signo.defaultAction = .terminate && (signo = .sigkill || !deferFatal)

def store (value : Bool) :
    SignalMachine Process Thread :=
  { machine with possiblyHasSignal := update machine.possiblyHasSignal receiver value }

def enter (stage : ThreadStage) : SignalMachine Process Thread :=
  { machine with stages := update machine.stages thread stage }

variable (sender : Nat)

def setSend (stage : SendStage Process Thread) : SignalMachine Process Thread :=
  { machine with sends := update machine.sends sender stage }

def setBlocked (set : SignalSet) : SignalMachine Process Thread :=
  { machine with blocked := update machine.blocked thread set }

def setAction (signo : Signo) (action : SignalAction) :
    SignalMachine Process Thread :=
  let actions := update (machine.actions process) signo action
  { machine with actions := update machine.actions process actions }

def setQueue (queue : SignalQueue) :
    SignalMachine Process Thread :=
  { machine with queues := update machine.queues receiver queue }

/-- The process clears its flag in the same section if its queue is empty. -/
def dequeue (receiver : SignalReceiver Process Thread) (synchronous : Bool) (mask : SignalSet) :
    Option SignalInfo × SignalMachine Process Thread :=
  let result := (machine.queues receiver).dequeue synchronous mask
  let cleared := match receiver with
    | .process _ => result.2.pending.set.isEmpty
    | .thread _ => false
  (result.1, (machine.setQueue receiver result.2).store receiver
    (!cleared && machine.possiblyHasSignal receiver))

def create (caller : Option Thread) (thread : Thread) :
    SignalMachine Process Thread :=
  let killed := (machine.groupExit process).isSome
  { machine with
    children := update machine.children process (machine.children process ++ [thread])
    process := update machine.process thread process
    created := update machine.created thread true
    exitStarted := update machine.exitStarted thread false
    blocked := update machine.blocked thread (caller.elim .empty machine.blocked)
    sigwait := update machine.sigwait thread none
    queues := update machine.queues (.thread thread)
      (.new (if killed then .add .empty .sigkill else .empty))
    possiblyHasSignal := update machine.possiblyHasSignal (.thread thread) killed
    stages := update machine.stages thread .idle }

def send (receiver : SignalReceiver Process Thread) (info : SignalInfo)
    (deferFatal : Bool) : SignalMachine Process Thread :=
  let wanted := match receiver with
    | .process _ => true
    | .thread thread => machine.wantsSignal thread info.signo
  if machine.accepts receiver info.signo then
    let put := (machine.queues receiver).put info
    (machine.setQueue receiver put.2).setSend sender
      (if put.1 then .raising receiver info.signo deferFatal wanted
      else .completing receiver info.signo deferFatal wanted)
  else machine

/-- Commits the status of a group exit unless another was first. -/
def beginGroupExit (status : Int) : SignalMachine Process Thread :=
  { machine with
    groupExit := update machine.groupExit process (machine.groupExit process <|> some status) }

def proceed : SignalMachine Process Thread :=
  match machine.sends sender with
  | .idle => machine
  | .raising receiver signo deferFatal wanted =>
    (machine.store receiver true).setSend sender (.completing receiver signo deferFatal wanted)
  | .completing receiver signo deferFatal wanted =>
    let process := machine.owner receiver
    if machine.selects receiver signo wanted && machine.isFatal process signo deferFatal then
      (machine.beginGroupExit process signo.number).setSend sender
        (.killing (machine.children process))
    else machine.setSend sender .idle
  | .killing [] => machine.setSend sender .idle
  | .killing (target :: targets) =>
    (machine.setQueue (.thread target) (machine.queues (.thread target)).addKill).setSend sender
      (.notifying target targets)
  | .notifying target targets =>
    (machine.store (.thread target) true).setSend sender (.killing targets)

/-- `prepare_signal` and `install_signal_handler`. An ignored signal lets the check go on. -/
def deliver (mask : SignalSet) (info : SignalInfo) (frameWritten : Bool) :
    SignalMachine Process Thread :=
  let process := machine.process thread
  let signo := info.signo
  let action := machine.actions process signo
  let ignored := .checking .synchronous mask
  if machine.ignoresInitDefault process signo || machine.rejectsKernelOnlySignal process signo then
    machine.enter thread ignored
  else
    let machine := if action.resethand then machine.setAction process signo .default else machine
    match action.disposition with
    | .default => machine.enter thread (if signo.defaultAction = .ignore then ignored else .idle)
    | .ignore => machine.enter thread ignored
    | .handler _ =>
      let addBlocked := if action.nodefer then action.mask else action.mask.add signo
      let blocked := machine.blocked thread
      (machine.setBlocked thread (if frameWritten then blocked.union addBlocked else blocked)).enter
        thread .idle

/-- One dequeue of a check, and what it goes on to when nothing is found. -/
def dequeueNext (mask : SignalSet) (receiver : SignalReceiver Process Thread)
    (synchronous frameWritten : Bool) (next : ThreadStage) : SignalMachine Process Thread :=
  let result := machine.dequeue receiver synchronous mask
  match result.1 with
  | none => result.2.enter thread next
  | some info => result.2.deliver thread mask info frameWritten

def checkSlow : SignalMachine Process Thread :=
  machine.enter thread (.checking .synchronous (machine.blocked thread).complement)

def advance (frameWritten : Bool) : SignalMachine Process Thread :=
  let process := machine.process thread
  match machine.stages thread with
  | .idle => machine
  | .entering =>
    if machine.possiblyHasSignal (.thread thread) then machine.checkSlow thread
    else machine.enter thread .loading
  | .loading =>
    if machine.possiblyHasSignal (.process process) then machine.checkSlow thread
    else machine.enter thread .idle
  | .checking .synchronous mask =>
    machine.dequeueNext thread mask (.thread thread) true frameWritten
      (.checking .synchronousShared mask)
  | .checking .synchronousShared mask =>
    machine.dequeueNext thread mask (.process process) true frameWritten (.checking .ordinary mask)
  | .checking .ordinary mask =>
    machine.dequeueNext thread mask (.thread thread) false frameWritten (.checking .clearing mask)
  | .checking .clearing mask =>
    (machine.store (.thread thread) false).enter thread (.checking .shared mask)
  | .checking .shared mask =>
    machine.dequeueNext thread mask (.process process) false frameWritten .idle
  | .masking set => (machine.setBlocked thread set).enter thread .idle
  | .restoring => (machine.store (.thread thread) true).enter thread .idle
  | .waiting set => (machine.dequeue (.process process) false set).2.enter thread .idle

def hasPendingSignalWork : Bool :=
  machine.possiblyHasSignal (.thread thread) ||
    machine.possiblyHasSignal (.process (machine.process thread))

variable (called : SignalMachine Process Thread)

def startSend :
    SignalMachine Process Thread :=
  match machine.sends sender with
  | .idle => called
  | _ => machine

def startCall :
    SignalMachine Process Thread :=
  match machine.stages thread with
  | .idle => called
  | _ => machine

def isCreated : SignalReceiver Process Thread → Bool
  | .process _ => true
  | .thread thread => machine.created thread

def step : SignalEvent Process Thread → SignalMachine Process Thread
  | .create process caller thread =>
    if machine.created thread then machine else machine.create process caller thread
  | .beginExit thread => { machine with exitStarted := update machine.exitStarted thread true }
  | .drop thread =>
    { machine with children := fun process => (machine.children process).erase thread }
  | .exitGroup sender thread status =>
    let process := machine.process thread
    machine.startSend sender (if (machine.groupExit process).isSome then machine
      else (machine.beginGroupExit process status).setSend sender
        (.killing ((machine.children process).filter (· ≠ thread))))
  | .allowInitFaultExit process =>
    { machine with initUnkillable := update machine.initUnkillable process false }
  | .setAction process signo handler nodefer resethand mask =>
    -- the system call rejects the two signals
    if signo = .sigkill ∨ signo = .sigstop then machine
    else machine.setAction process signo (.ofKernel handler nodefer resethand mask)
  | .setBlocked thread set =>
    machine.startCall thread ((machine.store (.thread thread) true).enter thread
      (.masking ((set.remove .sigkill).remove .sigstop)))
  | .restore thread sigmask =>
    machine.startCall thread ((machine.setBlocked thread sigmask).enter thread .restoring)
  | .beginSigwait thread set =>
    { machine with sigwait := update machine.sigwait thread (some set) }
  | .finishSigwait thread => { machine with sigwait := update machine.sigwait thread none }
  | .dequeue thread set =>
    let result := machine.dequeue (.thread thread) false set
    machine.startCall thread
      (result.2.enter thread (if result.1.isSome then .idle else .waiting set))
  | .check thread =>
    let exits := machine.exitStarted thread || (machine.groupExit (machine.process thread)).isSome
    machine.startCall thread (machine.enter thread (if exits then .idle else .entering))
  | .advance thread frameWritten => machine.advance thread frameWritten
  | .send sender receiver info deferFatal =>
    machine.startSend sender (if machine.isCreated receiver then
      machine.send sender receiver info deferFatal else machine)
  | .proceed sender => machine.proceed sender

/-- No thread runs yet, and the processes have default actions. -/
def start (globalInit : Process → Bool) (process : Thread → Process) :
    SignalMachine Process Thread where
  globalInit := globalInit
  initUnkillable := globalInit
  groupExit _ := none
  actions _ _ := .default
  children _ := []
  process := process
  created _ := false
  exitStarted _ := false
  blocked _ := .empty
  sigwait _ := none
  queues _ := .new .empty
  possiblyHasSignal _ := false
  stages _ := .idle
  sends _ := .idle

def run (events : List (SignalEvent Process Thread)) : SignalMachine Process Thread :=
  events.foldl step machine

/-- Runs whose steps all meet a condition. -/
inductive Reachable (meets : SignalMachine Process Thread → SignalEvent Process Thread → Prop) :
    SignalMachine Process Thread → Prop where
  | start (globalInit : Process → Bool) (process : Thread → Process) :
      Reachable meets (start globalInit process)
  | step {machine : SignalMachine Process Thread} {event : SignalEvent Process Thread}
      (reached : Reachable meets machine) (met : meets machine event) :
      Reachable meets (machine.step event)

def AllMeet (meets : SignalMachine Process Thread → SignalEvent Process Thread → Prop)
    (machine : SignalMachine Process Thread) : List (SignalEvent Process Thread) → Prop
  | [] => True
  | event :: rest => meets machine event ∧ AllMeet meets (machine.step event) rest

theorem Reachable.run {machine : SignalMachine Process Thread}
    {meets : SignalMachine Process Thread → SignalEvent Process Thread → Prop}
    {events : List (SignalEvent Process Thread)} (reached : Reachable meets machine)
    (met : AllMeet meets machine events) : Reachable meets (machine.run events) := by
  induction events generalizing machine with
  | nil => exact reached
  | cons event rest ih => exact ih (reached.step met.1) met.2

end SignalMachine

end TgosKits
