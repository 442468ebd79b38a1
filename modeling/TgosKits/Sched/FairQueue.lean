import TgosKits.Library.AvlTree
import TgosKits.Sched.Fair

/-!
# The fair run queue

Threads of the fair class, in a tree ordered by virtual deadline. Every node knows
the least virtual runtime and the bounds of the service requests below it. An
index by registry slot tells which key a queued thread has, and the queue keeps
the weighted sum of the distances of its virtual runtimes from a reference.

A call that fails an assertion of the source has no result.
-/

namespace TgosKits

/-! ## Threads and keys -/

/-- A registry slot in the low half and a reuse generation in the high half. -/
structure ThreadId where
  asU64 : BitVec 64
  deriving DecidableEq, Repr

def ThreadId.slot (id : ThreadId) : Nat := id.asU64.toNat % 2 ^ 32

def ThreadId.generation (id : ThreadId) : Nat := id.asU64.toNat / 2 ^ 32

structure CpuSet where
  allowedCount : Nat
  deriving DecidableEq, Repr

def CpuSet.isMigrationCapable (cpus : CpuSet) : Bool := cpus.allowedCount > 1

/-- A queued thread of the fair class; `core` stands for the shared reference to
the thread. -/
structure QueuedThread where
  id : ThreadId
  fair : FairEntity
  core : Nat
  affinity : CpuSet
  migrationCapable : Bool
  sequence : Nat
  deriving DecidableEq

structure FairQueueKey where
  virtualDeadline : BitVec 64
  sequence : Nat
  thread : ThreadId
  deriving DecidableEq, Repr

def FairQueueKey.forThread (thread : QueuedThread) : FairQueueKey :=
  ⟨thread.fair.virtualDeadline, thread.sequence, thread.id⟩

def FairQueueKey.cmp (self other : FairQueueKey) : Ordering :=
  if self.virtualDeadline = other.virtualDeadline then
    (compare self.sequence other.sequence).then
      (compare self.thread.asU64.toNat other.thread.asU64.toNat)
  else if virtualBefore self.virtualDeadline other.virtualDeadline then
    .lt
  else
    .gt

structure FairMembership where
  generation : Nat
  key : FairQueueKey
  delayed : Bool
  deriving DecidableEq, Repr

/-! ## The tree -/

structure FairItem where
  key : FairQueueKey
  thread : QueuedThread
  deriving DecidableEq

/-- What a node of the tree knows of its subtree. -/
structure FairSummary where
  minVruntime : BitVec 64
  minServiceRequestNs : Nat
  maxServiceRequestNs : Nat
  deriving DecidableEq

abbrev FairTree := AvlTree FairItem FairSummary

def FairItem.reset (thread : QueuedThread) : FairItem := ⟨.forThread thread, thread⟩

def FairItem.cleared (node : FairItem) : FairItem :=
  { node with thread := { node.thread with fair := { node.thread.fair with
    placement := .active } } }

def FairItem.withAffinity (affinity : CpuSet) (node : FairItem) : FairItem :=
  { node with thread := { node.thread with
    affinity
    migrationCapable := affinity.isMigrationCapable } }

/-- The values `FairNode::refresh` computes besides the height. -/
def fairMeasure (item : FairItem) (left right : Option FairSummary) : FairSummary where
  minVruntime :=
    let own := item.thread.fair.vruntime
    let withLeft := match left with
      | some left => virtualMin own left.minVruntime
      | none => own
    match right with
    | some right => virtualMin withLeft right.minVruntime
    | none => withLeft
  minServiceRequestNs := (left.toList ++ right.toList).foldl
      (fun bound summary => min bound summary.minServiceRequestNs)
      item.thread.fair.serviceRequestNs
  maxServiceRequestNs := (left.toList ++ right.toList).foldl
      (fun bound summary => max bound summary.maxServiceRequestNs)
      item.thread.fair.serviceRequestNs

def FairQueueKey.locate (key : FairQueueKey) (item : FairItem) : Ordering := key.cmp item.key

inductive FairEligible where
  | runnable (key : FairQueueKey)
  | delayed
  deriving DecidableEq

inductive FairEligibleOwned where
  | runnable (node : FairItem)
  | delayed (core : Nat)
  deriving DecidableEq

def mayBeEligible (virtualTime : BitVec 64) (tree : FairTree) : Bool :=
  tree.summary?.any fun summary => !virtualBefore virtualTime summary.minVruntime

def FairEntity.isCandidate (entity : FairEntity) (virtualTime : BitVec 64)
    (skipDelayed : Bool) : Bool :=
  entity.isEligible virtualTime && !(skipDelayed && entity.isDelayed)

def earliestEligible (virtualTime : BitVec 64) (skipDelayed : Bool) : FairTree → Option FairEligible
  | .nil => none
  | .node item left right _ _ =>
    let below := if mayBeEligible virtualTime left then
      earliestEligible virtualTime skipDelayed left else none
    if below.isSome then
      below
    else if item.thread.fair.isCandidate virtualTime skipDelayed then
      some (if item.thread.fair.isDelayed then .delayed else .runnable item.key)
    else if mayBeEligible virtualTime right then
      earliestEligible virtualTime skipDelayed right
    else
      none

def takeEarliestEligible (virtualTime : BitVec 64) (skipDelayed : Bool) :
    FairTree → FairTree × Option FairEligibleOwned
  | .nil => (.nil, none)
  | .node item left right height summary =>
    let (left, selected) := if mayBeEligible virtualTime left then
      takeEarliestEligible virtualTime skipDelayed left else (left, none)
    if selected.isSome then
      (.rebalance fairMeasure item left right, selected)
    else if item.thread.fair.isCandidate virtualTime skipDelayed then
      if item.thread.fair.isDelayed then
        (.node item left right height summary, some (.delayed item.thread.core))
      else
        (.removeRoot fairMeasure left right, some (.runnable item))
    else if mayBeEligible virtualTime right then
      let (right, selected) := takeEarliestEligible virtualTime skipDelayed right
      if selected.isSome then
        (.rebalance fairMeasure item left right, selected)
      else
        (.node item left right height summary, none)
    else
      (.node item left right height summary, none)

/-! ## The queue -/

structure FairRunQueue where
  root : FairTree
  keys : List (Option FairMembership)
  zeroVruntime : BitVec 64
  sumWeightedDelta : Int
  totalWeight : Int
  migratableCount : Nat
  idleCount : Nat
  delayedCount : Nat
  len : Nat
  deriving DecidableEq

inductive FairPick where
  | runnable (thread : QueuedThread)
  | delayed (core : Nat)
  deriving DecidableEq

def countSub (value amount : Nat) : Option Nat :=
  if amount ≤ value then some (value - amount) else none

def weightedSumNeedsWideDivision (sum totalWeight : Int) : Bool :=
  sum < i64Min ∨ sum > i64Max ∨ totalWeight ≤ 0 ∨ totalWeight > i64Max

/-- The quotient of two words if both fit one, and of wide integers otherwise. -/
def divideWeightedSum (sum totalWeight : Int) : Int :=
  if weightedSumNeedsWideDivision sum totalWeight then
    sum.tdiv totalWeight
  else
    (BitVec.ofInt 64 sum).toInt.tdiv (BitVec.ofInt 64 totalWeight).toInt

def countIf (flag : Bool) : Nat :=
  if flag then 1 else 0

namespace FairRunQueue

def new (threadCapacity : Nat) : FairRunQueue where
  root := .nil
  keys := List.replicate threadCapacity none
  zeroVruntime := 0
  sumWeightedDelta := 0
  totalWeight := 0
  migratableCount := 0
  idleCount := 0
  delayedCount := 0
  len := 0

variable (queue : FairRunQueue)

def virtualTime : BitVec 64 := queue.zeroVruntime

def maxServiceRequestNs : Option Nat := queue.root.summary?.map (·.maxServiceRequestNs)

def totalWeightU64 : Option Nat :=
  if 0 ≤ queue.totalWeight ∧ queue.totalWeight ≤ u64Max then
    some queue.totalWeight.toNat
  else
    none

/-! ### Weighted virtual time -/

variable (entity : FairEntity)

def entityDelta : Int := virtualDelta entity.vruntime queue.zeroVruntime

def addWeightedEntity : FairRunQueue :=
  let queue := if queue.totalWeight = 0 then
    { queue with zeroVruntime := entity.vruntime, sumWeightedDelta := 0 }
    else queue
  { queue with
    sumWeightedDelta :=
      queue.sumWeightedDelta + queue.entityDelta entity * entity.weight
    totalWeight := queue.totalWeight + entity.weight }

def removeWeightedEntity : FairRunQueue :=
  { queue with
    sumWeightedDelta :=
      queue.sumWeightedDelta - queue.entityDelta entity * entity.weight
    totalWeight := queue.totalWeight - entity.weight }

def rebase (delta : Int) : FairRunQueue :=
  { queue with
    sumWeightedDelta := queue.sumWeightedDelta - delta * queue.totalWeight
    zeroVruntime := queue.zeroVruntime + BitVec.ofInt 64 delta }

/-- The queue after its reference moved to the weighted mean; the new reference is
the result. -/
def updateVirtualTime (current : Option FairEntity) : Option FairRunQueue :=
  if queue.totalWeight = 0 then
    match current with
    | some current => some { queue with zeroVruntime := current.vruntime }
    | none => some queue
  else
    let sum := match current with
      | some current =>
        queue.sumWeightedDelta + queue.entityDelta current * current.weight
      | none => queue.sumWeightedDelta
    let total := match current with
      | some current => queue.totalWeight + current.weight
      | none => queue.totalWeight
    if total = 0 then
      some queue
    else
      let sum := if sum < 0 then sum - (total - 1) else sum
      let delta := divideWeightedSum sum total
      if i64Min ≤ delta ∧ delta ≤ i64Max then
        some (queue.rebase delta)
      else
        none

/-! ### Membership -/

variable (thread : ThreadId)

/-- What the index says of the thread's slot if it is about this thread. -/
def membership : Option FairMembership :=
  (queue.keys[thread.slot]?).join.filter fun entry =>
    entry.generation = thread.generation

def insertEntry (thread : QueuedThread) : Option FairRunQueue :=
  let key := FairQueueKey.forThread thread
  let delayed := thread.fair.isDelayed
  match queue.keys[thread.id.slot]? with
  | none | some (some _) => none
  | some none =>
    let queue := { queue with
      keys := queue.keys.set thread.id.slot
        (some ⟨thread.id.generation, key, delayed⟩) }
    let queue := queue.addWeightedEntity thread.fair
    (AvlTree.insert fairMeasure key.locate (.reset thread) queue.root).map fun root => { queue with
        root
        idleCount := queue.idleCount + countIf (thread.fair.mode = .idle)
        delayedCount := queue.delayedCount + countIf delayed
        migratableCount := queue.migratableCount +
          countIf (thread.migrationCapable && !delayed)
        len := queue.len + 1 }

def insert (thread : QueuedThread) : Option FairRunQueue :=
  if thread.fair.isDelayed then none else queue.insertEntry thread

def insertDelayed (thread : QueuedThread) : Option FairRunQueue :=
  if thread.fair.isDelayed then queue.insertEntry thread else none

def finishRemoved (removed : FairItem) : Option (FairRunQueue × QueuedThread) :=
  let thread := removed.thread
  match (queue.keys[thread.id.slot]?).join with
  | none => none
  | some indexed =>
    if indexed.generation ≠ thread.id.generation ∨ indexed.key ≠ removed.key then
      none
    else do
      let queue := { queue with keys := queue.keys.set thread.id.slot none }
      let queue := queue.removeWeightedEntity thread.fair
      let idleCount ← countSub queue.idleCount (countIf (thread.fair.mode = .idle))
      let delayedCount ← countSub queue.delayedCount (countIf indexed.delayed)
      let migratableCount ← countSub queue.migratableCount
        (countIf (thread.migrationCapable && !indexed.delayed))
      some ({ queue with
        idleCount, delayedCount, migratableCount, len := queue.len - 1 }, thread)

def removeEntryWithKey (key : FairQueueKey) (shouldRemove : FairItem → Bool) :
    Option (FairRunQueue × Option QueuedThread) :=
  match (queue.keys[thread.slot]?).join with
  | none => some (queue, none)
  | some indexed =>
    if indexed.generation ≠ thread.generation ∨ indexed.key ≠ key then
      some (queue, none)
    else
      let (root, removed, found) := AvlTree.removeIf fairMeasure key.locate shouldRemove queue.root
      let queue := { queue with root }
      if !found then
        none
      else
        match removed with
        | none => some (queue, none)
        | some removed =>
          if removed.key ≠ key then
            none
          else
            (queue.finishRemoved removed).map fun (queue, thread) =>
              (queue, some thread)

def remove : Option (FairRunQueue × Option QueuedThread) :=
  match queue.membership thread with
  | none => some (queue, none)
  | some entry => queue.removeEntryWithKey thread entry.key fun _ => true

def takeDelayed : Option (FairRunQueue × Option QueuedThread) :=
  match queue.membership thread with
  | none => some (queue, none)
  | some entry =>
    if !entry.delayed then
      some (queue, none)
    else
      queue.removeEntryWithKey thread entry.key fun _ => true

def takeProtectedCurrent (current : ThreadId) (virtualTime : BitVec 64) :
    Option (FairRunQueue × Option QueuedThread) :=
  match queue.membership current with
  | none => some (queue, none)
  | some entry => queue.removeEntryWithKey current entry.key fun node =>
    protectedCurrentIsEligible node.thread.fair virtualTime

def pickEligible (virtualTime : BitVec 64) (skipDelayed : Bool) :
    Option (FairRunQueue × Option FairPick) :=
  let (root, selected) := takeEarliestEligible virtualTime skipDelayed queue.root
  let queue := { queue with root }
  match selected with
  | none => some (queue, none)
  | some (.delayed core) => some (queue, some (.delayed core))
  | some (.runnable node) =>
    (queue.finishRemoved node).map fun (queue, thread) =>
      (queue, some (.runnable thread))

/-- The method of the same name: the thread that would be picked among those that
are not delayed. -/
def earliestEligible (virtualTime : BitVec 64) : Option ThreadId :=
  match TgosKits.earliestEligible virtualTime true queue.root with
  | some (.runnable key) => some key.thread
  | some .delayed | none => none

def finishDelayedDequeue (thread : ThreadId) (virtualTime : BitVec 64)
    (timingGranularityNs : Nat) : Option (FairRunQueue × Option QueuedThread) :=
  match queue.maxServiceRequestNs with
  | none => some (queue, none)
  | some rqMaxSliceNs => do
    let (queue, taken) ← queue.takeDelayed thread
    match taken with
    | none => some (queue, none)
    | some thread =>
      match thread.fair.finishDelayedDequeue virtualTime rqMaxSliceNs timingGranularityNs with
      | .error _ => some (queue, none)
      | .ok fair => some (queue, some { thread with fair })

def clearDelayedInPlace (id : ThreadId) (key : FairQueueKey) : Option (FairRunQueue × FairEntity) :=
  match AvlTree.find key.locate queue.root with
  | none => none
  | some node =>
    match node.thread.fair.clearDelayed, (queue.keys[id.slot]?).join with
    | .ok fair, some entry => do
      let delayedCount ← countSub queue.delayedCount 1
      some ({ queue with
        root := AvlTree.modify key.locate FairItem.cleared queue.root
        keys := queue.keys.set id.slot (some { entry with delayed := false })
        migratableCount := queue.migratableCount +
          countIf node.thread.migrationCapable
        delayedCount }, fair)
    | _, _ => none

def reactivateDelayed (id : ThreadId) (current : Option FairEntity) (timingGranularityNs : Nat) :
    Option (FairRunQueue × Option FairEntity) :=
  match queue.membership id with
  | none => some (queue, none)
  | some entry =>
    if !entry.delayed then
      some (queue, none)
    else
      match AvlTree.find entry.key.locate queue.root with
      | none => none
      | some node =>
        let fair := node.thread.fair
        let rqMaxSliceNs := max (queue.maxServiceRequestNs.getD
          fair.serviceRequestNs) (current.elim 0 (·.serviceRequestNs))
        match fair.delayedRequeueLag queue.virtualTime rqMaxSliceNs timingGranularityNs with
        | .error _ => some (queue, none)
        | .ok none => (queue.clearDelayedInPlace id entry.key).map
          fun (queue, entity) => (queue, some entity)
        | .ok (some savedLag) => do
          let (queue, taken) ← queue.takeDelayed id
          match taken with
          | none => some (queue, none)
          | some thread =>
            let queue ← queue.updateVirtualTime current
            let totalWeight ← queue.totalWeightU64
            let runnableWeight := min (totalWeight + current.elim 0 (·.weight)) u64Max
            match thread.fair.placeReactivatedDelayed queue.virtualTime runnableWeight savedLag with
            | .error _ => none
            | .ok fair =>
              let queue ← queue.insert { thread with fair }
              some (queue, some fair)

def updateAffinity (id : ThreadId) (affinity : CpuSet) : Option (FairRunQueue × Bool) :=
  match queue.membership id with
  | none => some (queue, false)
  | some entry =>
    match AvlTree.find entry.key.locate queue.root with
    | none => none
    | some node =>
      let counted := node.thread.migrationCapable && !entry.delayed
      let nextCounted := affinity.isMigrationCapable && !entry.delayed
      let root := AvlTree.modify entry.key.locate (·.withAffinity affinity) queue.root
      match counted, nextCounted with
      | false, true =>
        some ({ queue with root, migratableCount := queue.migratableCount + 1 }, true)
      | true, false =>
        (countSub queue.migratableCount 1).map fun migratableCount =>
          ({ queue with root, migratableCount }, true)
      | _, _ => some ({ queue with root }, true)

end FairRunQueue

end TgosKits
