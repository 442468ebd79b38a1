import TgosKits.Signal.Pending

/-!
# The pending queue as it is stored

The pending signals are kept as one word of bits, a slot for each standard signal and a
list for each realtime signal.
-/

namespace TgosKits

open Function List Signo BitVec

namespace Signo

def fromRepr (number : Nat) : Option Signo := if number = 0 then none else all[number - 1]?

variable {signo other : Signo}

theorem mem_all (signo : Signo) : signo ∈ all := by
  cases signo with
  | realtime index => simp [all]
  | _ => decide

theorem number_lt (signo : Signo) : signo.number - 1 < 64 := by
  have inside := idxOf_lt_length_of_mem (mem_all signo)
  exact inside

theorem number_inj : signo.number = other.number ↔ signo = other := by
  simp [number, idxOf_inj (mem_all signo)]

theorem number_getElem {index : Nat} (inside : index < all.length) :
    (all.get ⟨index, inside⟩).number = index + 1 := by
  have distinct : all.Nodup := by decide
  simp [number, distinct.idxOf_getElem]

theorem isRealtime_of_synchronous (synchronous : SignalSet.synchronousMask.has signo = true) :
    signo.isRealtime = false := by
  have each : ∀ signo ∈ all, SignalSet.synchronousMask.has signo = true →
      signo.isRealtime = false := by decide
  exact each signo (mem_all signo) synchronous

theorem isRealtime_iff : signo.isRealtime = true ↔ 32 ≤ signo.number := by
  have each : ∀ signo ∈ all, signo.isRealtime = true ↔ 32 ≤ signo.number := by decide
  exact each signo (mem_all signo)

end Signo

structure SignalWord where
  bits : BitVec 64

namespace SignalWord

def signoBit (signo : Signo) : BitVec 64 := BitVec.twoPow 64 (signo.number - 1)

variable (set : SignalWord)

def add (signal : Signo) : Bool × SignalWord :=
  if set.bits &&& signoBit signal ≠ 0 then (false, set)
  else (true, ⟨set.bits ||| signoBit signal⟩)

def remove (signal : Signo) : Bool × SignalWord :=
  if set.bits &&& signoBit signal = 0 then (false, set)
  else (true, ⟨set.bits &&& ~~~signoBit signal⟩)

def has (signal : Signo) : Bool := set.bits &&& signoBit signal ≠ 0

def dequeue (mask : SignalWord) : Option Signo × SignalWord :=
  let bits := set.bits &&& mask.bits
  if bits = 0 then (none, set)
  else
    let signal := bits.ctz.toNat
    (Signo.fromRepr (signal + 1), ⟨set.bits &&& ~~~BitVec.twoPow 64 signal⟩)

def synchronousMask : SignalWord :=
  ⟨signoBit .sigill ||| signoBit .sigtrap ||| signoBit .sigbus ||| signoBit .sigfpe |||
    signoBit .sigsegv ||| signoBit .sigsys⟩

variable {set} {mask : SignalWord} {signal other : Signo}

theorem has_eq : set.has signal = set.bits.getLsbD (signal.number - 1) := by
  have nonzero : twoPow 64 (signal.number - 1) ≠ 0#64 := by
    intro zero
    have bit := congrArg (getLsbD · (signal.number - 1)) zero
    simp [signal.number_lt] at bit
  rw [has, signoBit, and_twoPow]
  cases set.bits.getLsbD (signal.number - 1) <;> simp [nonzero]

theorem index_inj : signal.number - 1 = other.number - 1 ↔ signal = other := by
  rw [← number_inj]
  simp [number]

theorem has_clear : (SignalWord.mk (set.bits &&& ~~~signoBit signal)).has other =
    if other = signal then false else set.has other := by
  rw [has_eq, has_eq, getLsbD_and, getLsbD_not, signoBit, getLsbD_twoPow]
  split_ifs with same
  · simp [same, signal.number_lt]
  · simp [other.number_lt, index_inj, Ne.symm same]

theorem has_add :
    (set.add signal).2.has other = if other = signal then true else set.has other := by
  by_cases present : set.has signal = true
  · rw [add, if_pos (by simpa [has] using present)]
    split_ifs with same
    · rw [same, present]
    · rfl
  · rw [add, if_neg (by simpa [has] using present), has_eq, has_eq, getLsbD_or, signoBit,
      getLsbD_twoPow]
    split_ifs with same
    · simp [same, signal.number_lt]
    · simp [index_inj, Ne.symm same]

theorem has_remove :
    (set.remove signal).2.has other = if other = signal then false else set.has other := by
  by_cases present : set.has signal = true
  · rw [remove, if_neg (by simpa [has] using present)]
    exact has_clear
  · rw [remove, if_pos (by simpa [has] using present)]
    split_ifs with same
    · rw [same, eq_false_of_ne_true present]
    · rfl

/-- The word as a set of signals. -/
def toSet (set : SignalWord) : SignalSet := ⟨set.has⟩

theorem toSet_clear : (SignalWord.mk (set.bits &&& ~~~signoBit signal)).toSet =
    set.toSet.remove signal := by
  ext other
  rw [SignalSet.has_remove]
  exact has_clear

theorem toSet_add : (set.add signal).2.toSet = set.toSet.add signal := by
  ext other
  rw [SignalSet.has_add]
  exact has_add

theorem toSet_remove : (set.remove signal).2.toSet = set.toSet.remove signal := by
  ext other
  rw [SignalSet.has_remove]
  exact has_remove

theorem has_and : (SignalWord.mk (set.bits &&& mask.bits)).has signal =
    (set.has signal && mask.has signal) := by
  simp [has_eq]

theorem dequeue_eq : set.dequeue mask =
    match all.find? fun signo => set.has signo && mask.has signo with
    | none => (none, set)
    | some signal => (some signal, ⟨set.bits &&& ~~~signoBit signal⟩) := by
  unfold dequeue
  by_cases nothing : set.bits &&& mask.bits = 0
  · have absent : all.find? (fun signo => set.has signo && mask.has signo) = none := by
      rw [find?_eq_none]
      intro signo _
      rw [has_eq, has_eq, ← getLsbD_and, nothing]
      simp
    rw [absent, if_pos nothing]
  · have bit := getLsbD_true_ctz_of_ne_zero nothing
    have inside : (set.bits &&& mask.bits).ctz.toNat < all.length := lt_of_getLsbD bit
    have lowest : all.find? (fun signo => set.has signo && mask.has signo) =
        some (all.get ⟨_, inside⟩) := by
      rw [find?_eq_some_iff_getElem]
      simp only [has_eq, ← getLsbD_and]
      refine ⟨?_, _, inside, rfl, ?_⟩
      · rw [number_getElem inside]
        exact bit
      · intro earlier before
        have numbered := number_getElem (Nat.lt_trans before inside)
        simp only [get_eq_getElem] at numbered
        rw [numbered, Nat.add_sub_cancel, getLsbD_false_of_lt_ctz before]
        rfl
    rw [lowest, if_neg nothing]
    simp only [signoBit, number_getElem, fromRepr]
    simp [inside]

theorem dequeue_all : set.dequeue ⟨~~~0⟩ = match all.find? set.has with
    | none => (none, set)
    | some signal => (some signal, ⟨set.bits &&& ~~~signoBit signal⟩) := by
  have every : ∀ signo, (SignalWord.mk (~~~0)).has signo = true := by
    intro signo
    rw [has_eq, getLsbD_not]
    simp [signo.number_lt]
  rw [dequeue_eq]
  simp only [every, Bool.and_true]

theorem dequeue_lt {rest : SignalWord} (ran : set.dequeue mask = (some signal, rest)) :
    rest.bits.toNat < set.bits.toNat := by
  rw [dequeue_eq] at ran
  split at ran
  · cases ran
  · rename_i found
    cases ran
    apply Nat.lt_of_le_of_ne
    · rw [toNat_and]
      exact Nat.and_le_left
    · intro same
      have present := find?_some found
      have gone := @has_clear set signal signal
      rw [show set.bits &&& ~~~signoBit signal = set.bits from eq_of_toNat_eq same,
        if_pos rfl] at gone
      simp [gone] at present

end SignalWord

/-- An entry that was allocated outside the locks; a list has at least one node. -/
inductive PreparedSignalInfo where
  | standard (info : SignalInfo)
  | realtime (front : SignalInfo) (rest : List SignalInfo)

namespace PreparedSignalInfo

def new (signal : SignalInfo) : PreparedSignalInfo :=
  if signal.signo.isRealtime then .realtime signal [] else .standard signal

def signo : PreparedSignalInfo → Signo
  | standard info => info.signo
  | realtime front _ => front.signo

end PreparedSignalInfo

/-- The 32 slots and the 33 lists are functions of their index. -/
structure StoredSignals where
  set : SignalWord
  infoStd : Nat → Option SignalInfo
  infoRt : Nat → List SignalInfo

namespace StoredSignals

def default : StoredSignals := ⟨⟨0⟩, fun _ => none, fun _ => []⟩

variable (pending : StoredSignals)

def putPrepared (prepared : PreparedSignalInfo) : Option PreparedSignalInfo × StoredSignals :=
  let signo := prepared.signo
  if !signo.isRealtime && pending.set.has signo then (some prepared, pending)
  else
    let set := (pending.set.add signo).2
    match prepared with
    | .standard info =>
      (none, { pending with set, infoStd := update pending.infoStd signo.number (some info) })
    | .realtime front rest =>
      let index := signo.number - 32
      (none, { pending with
        set, infoRt := update pending.infoRt index (pending.infoRt index ++ front :: rest) })

def putSignal (info : SignalInfo) : Bool × StoredSignals :=
  let (refused, after) := pending.putPrepared (.new info)
  (refused.isNone, after)

def dequeueSignal (mask : SignalWord) : Option SignalInfo × StoredSignals :=
  match pending.set.dequeue mask with
  | (none, set) => (none, { pending with set })
  | (some signo, set) =>
    if signo.isRealtime then
      let index := signo.number - 32
      let rest := (pending.infoRt index).tail
      let set := if !rest.isEmpty then (set.add signo).2 else set
      ((pending.infoRt index).head?,
        { pending with set, infoRt := update pending.infoRt index rest })
    else
      (pending.infoStd signo.number,
        { pending with set, infoStd := update pending.infoStd signo.number none })

/-- The record in the slot of the signal is not from a user. -/
def isRaised (signo : Signo) : Bool := (pending.infoStd signo.number).any (siUser < ·.code)

def takeSynchronous (candidates : SignalWord) : Option SignalInfo × StoredSignals :=
  match _ran : candidates.dequeue ⟨~~~0⟩ with
  | (none, _) => (none, pending)
  | (some signo, rest) =>
    if pending.isRaised signo then
      (pending.infoStd signo.number,
        { pending with
          set := (pending.set.remove signo).2
          infoStd := update pending.infoStd signo.number none })
    else takeSynchronous rest
termination_by candidates.bits.toNat
decreasing_by exact SignalWord.dequeue_lt _ran

def dequeueSynchronousSignal (mask : SignalWord) : Option SignalInfo × StoredSignals :=
  pending.takeSynchronous
    ⟨pending.set.bits &&& SignalWord.synchronousMask.bits &&& mask.bits⟩

def queued (signo : Signo) : List SignalInfo :=
  if signo.isRealtime then pending.infoRt (signo.number - 32)
  else (pending.infoStd signo.number).toList

end StoredSignals

/-! ## One queue for each signal -/

abbrev SignalQueues := Signo → List SignalInfo

namespace SignalQueues

variable (queues : SignalQueues)

/-- A standard signal is queued once. -/
def put (info : SignalInfo) : Bool × SignalQueues :=
  if !info.signo.isRealtime && !(queues info.signo).isEmpty then (false, queues)
  else (true, update queues info.signo (queues info.signo ++ [info]))

/-- The oldest record of the lowest-numbered queued signal that is wanted. -/
def takeFirst (wanted : Signo → Bool) : Option SignalInfo × SignalQueues :=
  match Signo.all.find? fun signo => !(queues signo).isEmpty && wanted signo with
  | none => (none, queues)
  | some signo => ((queues signo).head?, update queues signo (queues signo).tail)

end SignalQueues

inductive SignalOperation where
  | put (info : SignalInfo)
  | dequeue (mask : SignalWord)
  | dequeueSynchronous (mask : SignalWord)

inductive SignalAnswer where
  | added (accepted : Bool)
  | dequeued (info : Option SignalInfo)

namespace SignalOperation

def onStored (pending : StoredSignals) : SignalOperation → SignalAnswer × StoredSignals
  | put info => (pending.putSignal info).map .added id
  | dequeue mask => (pending.dequeueSignal mask).map .dequeued id
  | dequeueSynchronous mask => (pending.dequeueSynchronousSignal mask).map .dequeued id

def onQueues (queues : SignalQueues) : SignalOperation → SignalAnswer × SignalQueues
  | put info => (queues.put info).map .added id
  | dequeue mask => (queues.takeFirst mask.has).map .dequeued id
  | dequeueSynchronous mask => (queues.takeFirst fun signo =>
      SignalSet.synchronousMask.has signo && mask.has signo &&
        (queues signo).head?.any (siUser < ·.code)).map .dequeued id

def run {State : Type} (step : State → SignalOperation → SignalAnswer × State) (state : State) :
    List SignalOperation → List SignalAnswer × State
  | [] => ([], state)
  | operation :: rest =>
    let (answer, after) := step state operation
    (run step after rest).map (answer :: ·) id

end SignalOperation

/-! ## The pending signals as queues -/

namespace PendingSignals

variable {pending : PendingSignals} {mask : SignalSet} {signo : Signo}

/-- A signal is in the set exactly while something is queued for it. -/
def Consistent (pending : PendingSignals) : Prop :=
  ∀ signo, pending.set.has signo = !(pending.queued signo).isEmpty

/-- The queues answer the same, and are those of the state that is left. -/
def Matches {Answer : Type} (found : Answer × PendingSignals) (expected : Answer × SignalQueues) :
    Prop :=
  expected = (found.1, found.2.queued) ∧ found.2.Consistent

variable (consistent : pending.Consistent)
include consistent

theorem matches_put (info : SignalInfo) :
    Matches (pending.putPrepared info) (SignalQueues.put pending.queued info) := by
  have known : ∀ signo, pending.queued signo ≠ [] → pending.set.has signo = true := by
    intro signo nonempty
    simpa [consistent signo] using nonempty
  unfold SignalQueues.put
  rw [← consistent info.signo]
  split_ifs with taken
  · rw [show pending.putPrepared info = (false, pending) from if_pos taken]
    exact ⟨rfl, consistent⟩
  · have added : (pending.putPrepared info).1 = true := by
      rw [putPrepared, if_neg taken]
      split_ifs <;> rfl
    have ⟨queuedEq, setEq⟩ := queued_putPrepared known (Prod.ext added rfl)
    refine ⟨Prod.ext added.symm queuedEq.symm, fun other => ?_⟩
    rw [setEq, queuedEq, SignalSet.has_add, update_apply, consistent other]
    split_ifs <;> simp

private theorem matches_take (present : pending.set.has signo = true) : Matches (pending.take signo)
    ((pending.queued signo).head?, update pending.queued signo (pending.queued signo).tail) := by
  refine ⟨Prod.ext queued_take.1.symm queued_take.2.symm, fun other => ?_⟩
  rw [has_take, queued_take.2, update_apply, consistent other]
  split_ifs with same
  · rw [same, ← consistent signo, present]
    simp
  · simp [same]

theorem matches_takeSelected {wanted : Signo → Bool} {selects : Signo → Bool}
    (same : ∀ signo, selects signo = (!(pending.queued signo).isEmpty && wanted signo)) :
    Matches (pending.takeSelected (all.find? selects))
      (SignalQueues.takeFirst pending.queued wanted) := by
  unfold SignalQueues.takeFirst
  rw [funext same]
  cases found : all.find? fun signo => !(pending.queued signo).isEmpty && wanted signo with
  | none => exact ⟨rfl, consistent⟩
  | some signo =>
    have wanted := find?_some found
    rw [← consistent signo, Bool.and_eq_true] at wanted
    exact matches_take consistent wanted.1

theorem matches_dequeue :
    Matches (pending.dequeueSignal mask) (SignalQueues.takeFirst pending.queued mask.has) :=
  matches_takeSelected consistent fun signo => by rw [consistent signo]

theorem matches_dequeueSynchronous : Matches (pending.dequeueSynchronousSignal mask)
      (SignalQueues.takeFirst pending.queued fun signo =>
        SignalSet.synchronousMask.has signo && mask.has signo &&
          (pending.queued signo).head?.any (siUser < ·.code)) := by
  refine matches_takeSelected consistent fun signo => ?_
  rw [consistent signo]
  cases synchronous : SignalSet.synchronousMask.has signo with
  | false => simp
  | true =>
    have slot : (pending.queued signo).head? = pending.infoStd signo := by
      simp [queued, isRealtime_of_synchronous synchronous]
    rw [slot]
    simp [Bool.and_assoc]

end PendingSignals

/-! ## The stored signals as pending signals -/

namespace StoredSignals

open SignalWord

variable {pending : StoredSignals} {signo : Signo} {set mask : SignalWord}

/-- The pending signals by their signals in place of numbers and bits. -/
def signals (pending : StoredSignals) : PendingSignals where
  set := pending.set.toSet
  infoStd signo := if signo.isRealtime then none else pending.infoStd signo.number
  infoRt signo := if signo.isRealtime then pending.infoRt (signo.number - 32) else []

theorem queued_signals : pending.signals.queued = pending.queued := by
  funext signo
  cases realtime : signo.isRealtime <;> simp [queued, PendingSignals.queued, signals, realtime]

theorem signals_slot (standard : signo.isRealtime = false) {value : Option SignalInfo} :
    signals { pending with set, infoStd := update pending.infoStd signo.number value } =
      { pending.signals with
        set := set.toSet, infoStd := update pending.signals.infoStd signo value } := by
  refine congrArg (PendingSignals.mk _ · _) (funext fun other => ?_)
  by_cases same : other = signo
  · simp [same, standard]
  · simp [signals, same, number_inj]

theorem signals_list (realtime : signo.isRealtime = true) {value : List SignalInfo} :
    signals { pending with set, infoRt := update pending.infoRt (signo.number - 32) value } =
      { pending.signals with
        set := set.toSet, infoRt := update pending.signals.infoRt signo value } := by
  refine congrArg (PendingSignals.mk _ _ ·) (funext fun other => ?_)
  by_cases same : other = signo
  · simp [same, realtime]
  · rw [update_of_ne same]
    dsimp only [signals]
    split_ifs with otherRealtime
    · have apart : other.number ≠ signo.number := fun equal => same (number_inj.mp equal)
      have above := isRealtime_iff.mp realtime
      have otherAbove := isRealtime_iff.mp otherRealtime
      exact update_of_ne (by omega) ..
    · rfl

/-- The loop finds the first candidate that an instruction raised. -/
private theorem takeSynchronous_eq (candidates : SignalWord) : pending.takeSynchronous candidates =
    match all.find? fun signo => candidates.has signo && pending.isRaised signo with
    | none => (none, pending)
    | some signo => (pending.infoStd signo.number,
        { pending with
          set := (pending.set.remove signo).2
          infoStd := update pending.infoStd signo.number none }) := by
  fun_induction takeSynchronous pending candidates with
  | case1 candidates rest ran =>
    rw [dequeue_all] at ran
    split at ran
    · rename_i nothing
      rw [find?_eq_none] at nothing
      rw [find?_eq_none.mpr fun signo member => by simp [nothing signo member]]
    · cases ran
  | case2 candidates signo rest ran raised =>
    rw [dequeue_all] at ran
    split at ran
    · cases ran
    · rename_i found
      cases ran
      obtain ⟨has, before, after, split, absent⟩ := find?_eq_some_iff_append.mp found
      rw [find?_eq_some_iff_append.mpr ⟨by rw [has, raised]; rfl, before, after, split, ?_⟩]
      intro other member
      simp_all
  | case3 candidates signo rest ran notRaised ih =>
    rw [dequeue_all] at ran
    split at ran
    · cases ran
    · cases ran
      have same : (fun other => (SignalWord.mk (candidates.bits &&&
            ~~~signoBit signo)).has other && pending.isRaised other) =
          fun other => candidates.has other && pending.isRaised other := by
        funext other
        rw [has_clear]
        split_ifs with equal
        · rw [equal, eq_false_of_ne_true notRaised, Bool.and_false, Bool.and_false]
        · rfl
      rw [ih, same]

private theorem putSignal_signals (info : SignalInfo) :
    (pending.putSignal info).map id signals = pending.signals.putPrepared info := by
  have known : pending.signals.set.has info.signo = pending.set.has info.signo := rfl
  unfold putSignal putPrepared PendingSignals.putPrepared
  simp only [known]
  cases realtime : info.signo.isRealtime with
  | true =>
    have list : pending.signals.infoRt info.signo = pending.infoRt (info.signo.number - 32) := by
      simp [signals, realtime]
    simp only [PreparedSignalInfo.new, PreparedSignalInfo.signo, realtime, if_true, Bool.not_true,
      Bool.false_and, Bool.false_eq_true, if_false, Prod.map, signals_list realtime, toSet_add,
      list]
    rfl
  | false =>
    simp only [PreparedSignalInfo.new, PreparedSignalInfo.signo, realtime, Bool.not_false,
      Bool.true_and, Bool.false_eq_true, if_false]
    split_ifs
    · rfl
    · simp only [Prod.map, signals_slot realtime, toSet_add]
      rfl

private theorem dequeueSignal_signals : (pending.dequeueSignal mask).map id signals =
    pending.signals.dequeueSignal mask.toSet := by
  unfold dequeueSignal PendingSignals.dequeueSignal
  have selected : pending.signals.set.dequeue mask.toSet =
      all.find? fun signo => pending.set.has signo && mask.has signo := rfl
  rw [dequeue_eq, selected]
  cases found : all.find? fun signo => pending.set.has signo && mask.has signo with
  | none => rfl
  | some signo =>
    have wanted := find?_some found
    rw [Bool.and_eq_true] at wanted
    dsimp only [PendingSignals.takeSelected, PendingSignals.take]
    cases realtime : signo.isRealtime with
    | true =>
      have list : pending.signals.infoRt signo = pending.infoRt (signo.number - 32) := by
        simp [signals, realtime]
      simp only [if_true, Prod.map, id_eq, signals_list realtime, list]
      cases (pending.infoRt (signo.number - 32)).tail with
      | nil => simp [toSet_clear, signals]
      | cons next rest =>
        -- The bit is put back for the records that are left.
        have back : (pending.set.toSet.remove signo).add signo = pending.set.toSet := by
          ext other
          rw [SignalSet.has_add, SignalSet.has_remove]
          split_ifs with same
          · exact same ▸ wanted.1.symm
          · rfl
        simp only [isEmpty_cons, Bool.not_false, if_true, toSet_add, toSet_clear, back]
        rfl
    | false =>
      simp only [Bool.false_eq_true, if_false, Prod.map, signals_slot realtime, toSet_clear]
      simp [signals, realtime]

private theorem dequeueSynchronousSignal_signals :
    (pending.dequeueSynchronousSignal mask).map id signals =
      pending.signals.dequeueSynchronousSignal mask.toSet := by
  have mask_eq : ∀ signo ∈ Signo.all, SignalWord.synchronousMask.has signo =
      SignalSet.synchronousMask.has signo := by decide
  have selected : (fun signo => (SignalWord.mk (pending.set.bits &&&
        SignalWord.synchronousMask.bits &&& mask.bits)).has signo && pending.isRaised signo) =
      fun signo => pending.signals.set.has signo && SignalSet.synchronousMask.has signo &&
        mask.toSet.has signo && (pending.signals.infoStd signo).any (siUser < ·.code) := by
    funext signo
    rw [has_and, has_and, mask_eq signo (mem_all signo)]
    cases synchronous : SignalSet.synchronousMask.has signo with
    | false => simp
    | true => simp [signals, toSet, isRaised, isRealtime_of_synchronous synchronous]
  unfold dequeueSynchronousSignal PendingSignals.dequeueSynchronousSignal
  rw [takeSynchronous_eq, selected]
  cases found : all.find? fun signo => pending.signals.set.has signo &&
      SignalSet.synchronousMask.has signo && mask.toSet.has signo &&
        (pending.signals.infoStd signo).any (siUser < ·.code) with
  | none => rfl
  | some signo =>
    have wanted := find?_some found
    simp only [Bool.and_eq_true] at wanted
    have standard := isRealtime_of_synchronous wanted.1.1.2
    simp only [PendingSignals.takeSelected, PendingSignals.take, standard, Bool.false_eq_true,
      if_false, Prod.map, signals_slot standard, toSet_remove]
    simp [signals, standard]

section

variable (consistent : pending.signals.Consistent)
include consistent

private theorem matches_step (operation : SignalOperation) :
    PendingSignals.Matches ((operation.onStored pending).map id signals)
      (operation.onQueues pending.signals.queued) := by
  cases operation with
  | put info =>
    have step := PendingSignals.matches_put consistent info
    rw [← putSignal_signals] at step
    exact ⟨congrArg (Prod.map SignalAnswer.added id) step.1, step.2⟩
  | dequeue mask =>
    have step := @PendingSignals.matches_dequeue _ mask.toSet consistent
    rw [← dequeueSignal_signals] at step
    exact ⟨congrArg (Prod.map SignalAnswer.dequeued id) step.1, step.2⟩
  | dequeueSynchronous mask =>
    have step := @PendingSignals.matches_dequeueSynchronous _ mask.toSet consistent
    rw [← dequeueSynchronousSignal_signals] at step
    exact ⟨congrArg (Prod.map SignalAnswer.dequeued id) step.1, step.2⟩

private theorem matches_run (operations : List SignalOperation) :
    PendingSignals.Matches
      ((SignalOperation.run SignalOperation.onStored pending operations).map id signals)
      (SignalOperation.run SignalOperation.onQueues pending.signals.queued operations) := by
  induction operations generalizing pending with
  | nil => exact ⟨rfl, consistent⟩
  | cons operation rest ih =>
    have step := matches_step consistent operation
    have later := ih step.2
    refine ⟨?_, later.2⟩
    rw [SignalOperation.run, step.1]
    exact congrArg (Prod.map _ id) later.1

end

/-- Whatever is put and dequeued, the stored signals answer as one queue for each signal
does, and a bit of the set is on exactly while its queue holds something. -/
theorem stored_signals_are_queues (operations : List SignalOperation) :
    let stored := SignalOperation.run SignalOperation.onStored default operations
    let expected := SignalOperation.run SignalOperation.onQueues (fun _ => []) operations
    stored.1 = expected.1 ∧ stored.2.queued = expected.2 ∧
      (∀ signo, stored.2.set.has signo = true ↔ expected.2 signo ≠ []) ∧
      ∀ signo, signo.isRealtime = false → (expected.2 signo).length ≤ 1 := by
  have start : default.signals.queued = fun _ => [] := by
    rw [queued_signals]
    funext signo
    simp [default, queued]
  have consistent : default.signals.Consistent := by
    intro signo
    rw [start]
    simp [default, signals, toSet, has_eq]
  have ⟨same, settled⟩ := matches_run consistent operations
  rw [start] at same
  have queues : _ = StoredSignals.queued _ := (congrArg Prod.snd same).trans queued_signals
  refine ⟨(congrArg Prod.fst same).symm, queues.symm, fun signo => ?_, fun signo standard => ?_⟩
  · rw [queues, ← queued_signals]
    refine (congrArg (· = true) (settled signo)).to_iff.trans ?_
    simp
  · rw [queues, StoredSignals.queued, if_neg (by simp [standard])]
    exact Option.length_toList_le

end StoredSignals

end TgosKits
