import Mathlib.Data.List.Basic

/-!
# Queues of pending signals

A standard signal is queued once, a realtime signal as often as it is sent.
-/

namespace TgosKits

open Function

inductive Signo where
  | sighup | sigint | sigquit | sigill | sigtrap | sigabrt | sigbus | sigfpe | sigkill | sigusr1
  | sigsegv | sigusr2 | sigpipe | sigalrm | sigterm | sigstkflt | sigchld | sigcont | sigstop
  | sigtstp | sigttin | sigttou | sigurg | sigxcpu | sigxfsz | sigvtalrm | sigprof | sigwinch
  | sigio | sigpwr | sigsys
  | realtime (index : Fin 33)
  deriving DecidableEq, Repr

inductive DefaultSignalAction where
  | terminate
  | ignore
  | coreDump
  | stop
  | resume
  deriving DecidableEq, Repr

namespace Signo

/-- All signals in the order of their numbers, which start from one. -/
def all : List Signo :=
  [sighup, sigint, sigquit, sigill, sigtrap, sigabrt, sigbus, sigfpe, sigkill, sigusr1, sigsegv,
    sigusr2, sigpipe, sigalrm, sigterm, sigstkflt, sigchld, sigcont, sigstop, sigtstp, sigttin,
    sigttou, sigurg, sigxcpu, sigxfsz, sigvtalrm, sigprof, sigwinch, sigio, sigpwr, sigsys] ++
    (List.finRange 33).map realtime

def number (signo : Signo) : Nat := all.idxOf signo + 1

@[grind]
def isRealtime : Signo → Bool
  | realtime _ => true
  | _ => false

def defaultAction : Signo → DefaultSignalAction
  | sigquit | sigill | sigtrap | sigabrt | sigbus | sigfpe | sigsegv | sigxcpu | sigxfsz
  | sigsys => .coreDump
  | sigchld | sigurg | sigwinch => .ignore
  | sigcont => .resume
  | sigstop | sigtstp | sigttin | sigttou => .stop
  | _ => .terminate

end Signo

@[ext]
structure SignalSet where
  has : Signo → Bool

namespace SignalSet

def empty : SignalSet := ⟨fun _ => false⟩

variable (set : SignalSet)

def add (signo : Signo) : SignalSet := ⟨update set.has signo true⟩

def remove (signo : Signo) : SignalSet := ⟨update set.has signo false⟩

def union (set other : SignalSet) : SignalSet := ⟨fun signo => set.has signo || other.has signo⟩

def complement : SignalSet := ⟨fun signo => !set.has signo⟩

def isEmpty : Bool := Signo.all.all fun signo => !set.has signo

def dequeue (set mask : SignalSet) : Option Signo :=
  Signo.all.find? fun signo => set.has signo && mask.has signo

def synchronousMask : SignalSet :=
  ⟨fun signo => signo ∈ [.sigill, .sigtrap, .sigbus, .sigfpe, .sigsegv, .sigsys]⟩

variable {set : SignalSet} {signo other : Signo}

@[simp, grind =]
theorem has_add : (set.add signo).has other = if other = signo then true else set.has other :=
  update_apply ..

@[simp, grind =]
theorem has_remove :
    (set.remove signo).has other = if other = signo then false else set.has other :=
  update_apply ..

end SignalSet

structure SignalInfo where
  signo : Signo
  code : Int
  /-- The fields that depend on the kind of the sender. -/
  fields : Nat
  deriving DecidableEq, Repr

def siUser : Int := 0

structure PendingSignals where
  set : SignalSet
  infoStd : Signo → Option SignalInfo
  infoRt : Signo → List SignalInfo

namespace PendingSignals

def empty : PendingSignals := ⟨.empty, fun _ => none, fun _ => []⟩

variable (pending : PendingSignals)

/-- Answers whether the signal was added; a standard signal is not while it is pending. -/
def putPrepared (info : SignalInfo) : Bool × PendingSignals :=
  let signo := info.signo
  if !signo.isRealtime && pending.set.has signo then (false, pending)
  else if signo.isRealtime then
    (true, { pending with
      set := pending.set.add signo
      infoRt := update pending.infoRt signo (pending.infoRt signo ++ [info]) })
  else
    (true, { pending with
      set := pending.set.add signo
      infoStd := update pending.infoStd signo (some info) })

/-- What a dequeue does once it has selected a signal. -/
def take (signo : Signo) : Option SignalInfo × PendingSignals :=
  if signo.isRealtime then
    let rest := (pending.infoRt signo).tail
    ((pending.infoRt signo).head?, { pending with
      set := if rest.isEmpty then pending.set.remove signo else pending.set
      infoRt := update pending.infoRt signo rest })
  else
    (pending.infoStd signo, { pending with
      set := pending.set.remove signo
      infoStd := update pending.infoStd signo none })

def takeSelected : Option Signo → Option SignalInfo × PendingSignals
  | none => (none, pending)
  | some signo => pending.take signo

def dequeueSignal (mask : SignalSet) : Option SignalInfo × PendingSignals :=
  pending.takeSelected (pending.set.dequeue mask)

/-- The first signal that an instruction raised. Other signals stay for the ordinary
dequeue. -/
def dequeueSynchronousSignal (mask : SignalSet) : Option SignalInfo × PendingSignals :=
  pending.takeSelected <| Signo.all.find? fun signo => pending.set.has signo &&
    SignalSet.synchronousMask.has signo && mask.has signo &&
    (pending.infoStd signo).any (siUser < ·.code)

def queued (signo : Signo) : List SignalInfo :=
  if signo.isRealtime then pending.infoRt signo else (pending.infoStd signo).toList

/-- What is queued can be found, and under its own number. -/
structure WellFormed (pending : PendingSignals) : Prop where
  has : ∀ signo, pending.queued signo ≠ [] → pending.set.has signo = true
  signo_eq : ∀ signo, ∀ info ∈ pending.queued signo, info.signo = signo

variable {pending} {info : SignalInfo} {signo : Signo}

theorem queued_take : (pending.take signo).1 = (pending.queued signo).head? ∧
    (pending.take signo).2.queued = update pending.queued signo (pending.queued signo).tail := by
  unfold take
  split_ifs with isRealtime
  · refine ⟨by simp [queued, isRealtime], funext fun other => ?_⟩
    by_cases same : other = signo
    · subst same
      simp [queued, isRealtime]
    · simp [queued, same]
  · constructor
    · cases found : pending.infoStd signo <;> simp [queued, isRealtime, found]
    · funext other
      by_cases same : other = signo
      · subst same
        cases found : pending.infoStd other <;> simp [queued, isRealtime, found]
      · simp [queued, same]

theorem has_take {other : Signo} : (pending.take signo).2.set.has other =
    (pending.set.has other && (other ≠ signo || !(pending.queued signo).tail.isEmpty)) := by
  unfold take queued
  cases found : pending.infoStd signo <;> grind

theorem queued_putPrepared {after : PendingSignals}
    (known : ∀ signo, pending.queued signo ≠ [] → pending.set.has signo = true)
    (ran : pending.putPrepared info = (true, after)) :
    after.queued = update pending.queued info.signo (pending.queued info.signo ++ [info]) ∧
      after.set = pending.set.add info.signo := by
  unfold putPrepared at ran
  dsimp only at ran
  split_ifs at ran with taken isRealtime
  · cases ran
  · cases ran
    refine ⟨funext fun signo => ?_, rfl⟩
    by_cases same : signo = info.signo
    · simp [queued, isRealtime, same]
    · simp [queued, same]
  · cases ran
    have nothing : pending.queued info.signo = [] := by
      by_contra nonempty
      exact taken (by simp [isRealtime, known _ nonempty])
    refine ⟨funext fun signo => ?_, rfl⟩
    by_cases same : signo = info.signo
    · rw [same, update_self, nothing]
      simp [queued, isRealtime]
    · simp [queued, same]

end PendingSignals

/-- A pending queue, and the records that it accepted and that were dequeued so far. -/
structure SignalQueue where
  pending : PendingSignals
  accepted : List SignalInfo
  dequeued : List SignalInfo

namespace SignalQueue

/-- A new queue may hold the mark of a group exit. -/
def new (set : SignalSet) : SignalQueue := ⟨{ PendingSignals.empty with set := set }, [], []⟩

variable (queue : SignalQueue)

def put (info : SignalInfo) : Bool × SignalQueue :=
  let result := queue.pending.putPrepared info
  (result.1, { queue with
    pending := result.2
    accepted := if result.1 then info :: queue.accepted else queue.accepted })

def dequeue (synchronous : Bool) (mask : SignalSet) : Option SignalInfo × SignalQueue :=
  let result := if synchronous then queue.pending.dequeueSynchronousSignal mask
    else queue.pending.dequeueSignal mask
  (result.1, { queue with
    pending := result.2
    dequeued := result.1.toList ++ queue.dequeued })

def addKill : SignalQueue :=
  { queue with pending := { queue.pending with set := queue.pending.set.add .sigkill } }

def has (signo : Signo) : Bool := queue.pending.set.has signo

/-- Accepted records are queued until they are dequeued. -/
structure Balanced (queue : SignalQueue) : Prop where
  wellFormed : queue.pending.WellFormed
  counted : ∀ info, queue.accepted.count info =
    (queue.pending.queued info.signo).count info + queue.dequeued.count info

variable {queue} {info : SignalInfo}

theorem balanced_new (set : SignalSet) : (new set).Balanced := by
  have nothing : ∀ signo, (new set).pending.queued signo = [] := by
    intro signo
    cases signo <;> rfl
  refine ⟨⟨by simp [nothing], by simp [nothing]⟩, fun info => ?_⟩
  rw [nothing]
  rfl

theorem Balanced.addKill (balanced : queue.Balanced) : queue.addKill.Balanced := by
  refine ⟨⟨fun signo queued => ?_, balanced.wellFormed.signo_eq⟩, balanced.counted⟩
  have has := balanced.wellFormed.has signo queued
  simp [SignalQueue.addKill, has]

theorem put_of_refused (refused : ¬ (queue.put info).1 = true) : (queue.put info).2 = queue := by
  rcases ran : queue.pending.putPrepared info with ⟨added, after⟩
  have same : added = false → after = queue.pending := by
    unfold PendingSignals.putPrepared at ran
    grind
  simp only [put, ran, Bool.not_eq_true] at refused ⊢
  simp [refused, same refused]

theorem Balanced.put (balanced : queue.Balanced) : (queue.put info).2.Balanced := by
  by_cases refused : (queue.put info).1 = true
  · have ⟨⟨has, signo_eq⟩, counted⟩ := balanced
    rcases ran : queue.pending.putPrepared info with ⟨added, after⟩
    simp only [SignalQueue.put, ran] at refused ⊢
    subst refused
    have ⟨added, setEq⟩ := PendingSignals.queued_putPrepared has ran
    refine ⟨⟨fun signo nonempty => ?_, fun signo other member => ?_⟩, fun other => ?_⟩
    · rw [added, update_apply] at nonempty
      grind
    · rw [added, update_apply] at member
      grind
    · rw [added, update_apply]
      grind
  · rwa [put_of_refused refused]

theorem Balanced.dequeue (balanced : queue.Balanced) (synchronous : Bool) (mask : SignalSet) :
    (queue.dequeue synchronous mask).2.Balanced ∧
      ∀ signo, (queue.dequeue synchronous mask).2.has signo = true → queue.has signo = true := by
  have ⟨⟨has, signo_eq⟩, counted⟩ := balanced
  obtain ⟨selected, ran⟩ : ∃ selected, queue.dequeue synchronous mask =
      let result := queue.pending.takeSelected selected
      (result.1, { queue with
        pending := result.2
        dequeued := result.1.toList ++ queue.dequeued }) := by
    cases synchronous <;> exact ⟨_, rfl⟩
  rw [ran]
  cases selected with
  | none => exact ⟨balanced, fun _ => id⟩
  | some signo =>
    have ⟨isHead, rest⟩ := @PendingSignals.queued_take queue.pending signo
    have keeps := @PendingSignals.has_take queue.pending signo
    dsimp only [PendingSignals.takeSelected, SignalQueue.has]
    refine ⟨⟨⟨fun other nonempty => ?_, fun other info member => ?_⟩, fun info => ?_⟩, by grind⟩
    · rw [rest, update_apply] at nonempty
      grind
    · rw [rest, update_apply] at member
      exact signo_eq other info (by grind [List.mem_of_mem_tail])
    · have old := counted info
      rw [isHead, rest, update_apply, List.count_append]
      split_ifs with same
      · subst same
        cases items : queue.pending.queued info.signo <;> grind
      · have absent : info ∉ (queue.pending.queued signo).head?.toList := fun member => same
          (signo_eq signo info (List.mem_of_mem_head? (Option.mem_toList.mp member)))
        rwa [List.count_eq_zero_of_not_mem absent, Nat.zero_add]

end SignalQueue

end TgosKits
