import TgosKits.Sched.FairIndex

/-! # Picking from the fair queue -/

namespace TgosKits

open WrappingTime List FairItem FairRunQueue FairPick

namespace FairRunQueue

variable (queue : FairRunQueue)

def threads : List QueuedThread := queue.items.map thread

def vruntimes : List (BitVec 64) :=
  queue.threads.map fun thread => thread.fair.vruntime

def deadlines : List (BitVec 64) :=
  queue.threads.map fun thread => thread.fair.virtualDeadline

/-- The virtual runtimes lie in a window shorter than half the clock's range, and
so do the virtual deadlines. -/
structure InWindows (queue : FairRunQueue) : Prop where
  vruntimes : InWindow (2 ^ 63) queue.vruntimes
  deadlines : InWindow (2 ^ 63) queue.deadlines

/-- The queues that calls lead to while all queued threads lie in windows. -/
inductive Reachable (capacity : Nat) : FairRunQueue → Prop where
  | new : Reachable capacity (new capacity)
  | call {queue queue' : FairRunQueue} (call : Call)
    (reached : Reachable capacity queue) (ran : call.apply queue = some queue')
    (windows : queue'.InWindows) : Reachable capacity queue'

def Ordered : Prop :=
  queue.items.Pairwise fun first second => first.key.cmp second.key = .lt

/-- The cached values of a node are those of its subtree. -/
structure ExactNode (node : FairTree) : Prop where
  height_eq : node.height = node.depth
  balanced : ∀ item left right height summary, node = .node item left right height summary →
    left.depth ≤ right.depth + 1 ∧ right.depth ≤ left.depth + 1
  vruntime_mem : ∀ summary ∈ node.summary?, ∃ item ∈ node.toList,
    item.thread.fair.vruntime = summary.minVruntime
  vruntime_le : ∀ summary ∈ node.summary?, ∀ item ∈ node.toList,
    virtualBefore item.thread.fair.vruntime summary.minVruntime = false
  min_mem : ∀ summary ∈ node.summary?, ∃ item ∈ node.toList,
    item.thread.fair.serviceRequestNs = summary.minServiceRequestNs
  min_le : ∀ summary ∈ node.summary?, ∀ item ∈ node.toList,
    summary.minServiceRequestNs ≤ item.thread.fair.serviceRequestNs
  max_mem : ∀ summary ∈ node.summary?, ∃ item ∈ node.toList,
    item.thread.fair.serviceRequestNs = summary.maxServiceRequestNs
  le_max : ∀ summary ∈ node.summary?, ∀ item ∈ node.toList,
    item.thread.fair.serviceRequestNs ≤ summary.maxServiceRequestNs

/-- The tree is ordered and balanced, and everything cached is exact. -/
structure Exact (queue : FairRunQueue) : Prop where
  ordered : queue.Ordered
  nodes : ∀ node ∈ queue.root.subtrees, ExactNode node
  consistent : queue.Consistent

variable {queue queue' : FairRunQueue} {item : FairItem} {thread : QueuedThread}
  {before after : List FairItem} {capacity : Nat} {base : BitVec 64}

private theorem Consistent.near_key (consistent : queue.Consistent)
    (within : Within base (2 ^ 63) queue.deadlines) : ∀ item ∈ queue.items, item.key.Near base := by
  intro item member
  rw [consistent.keyed item member]
  exact within _ (mem_map_of_mem (mem_map_of_mem member))

/-! ## Order -/

theorem Quiet.ordered {current : Option FairEntity}
    (quiet : Quiet current queue queue') (ordered : queue.Ordered) : queue'.Ordered := by
  unfold Ordered at ordered ⊢
  cases quiet with
  | kept items | updated _ items => rwa [items]
  | removed before after item old new weights consistent =>
    rw [old] at ordered
    rw [new]
    exact ordered.sublist (.append_left (sublist_cons_self _ _) _)
  | replaced before after item item' old new replaces weights consistent =>
    have sameKeys : queue'.items.map key = queue.items.map key := by
      simp [old, new, replaces.key_eq]
    rw [← pairwise_map (f := key)
      (R := fun first second : FairQueueKey => first.cmp second = .lt)] at ordered ⊢
    rwa [sameKeys]

theorem Inserts.ordered (inserts : Inserts thread before after queue queue')
    (consistent : queue'.Consistent) (deadlines : InWindow (2 ^ 63) queue'.deadlines)
    (ordered : queue.Ordered) : queue'.Ordered := by
  rcases deadlines with ⟨base, within⟩
  have near := consistent.near_key within
  rw [inserts.new] at near
  have nearOld : ∀ item ∈ queue.items, item.key.Near base := by
    rw [inserts.old]
    exact fun item member =>
      near item ((List.Sublist.append_left (sublist_cons_self _ _) _).subset member)
  have nearNew : (FairQueueKey.forThread thread).Near base := near (.reset thread) (by simp)
  rcases inserts.sides (FairQueueKey.splits_of_ordered nearNew nearOld ordered)
    with ⟨earlier, later⟩
  have sorted := ordered
  unfold Ordered at sorted ⊢
  rw [inserts.old] at sorted
  rw [inserts.new]
  exact FairQueueKey.ordered_insert near sorted earlier later

theorem Effect.ordered {current : Option FairEntity} (effect : Effect current queue queue')
    (deadlines : InWindow (2 ^ 63) queue'.deadlines) (ordered : queue.Ordered) :
    queue'.Ordered := by
  have quietly : ∀ {middle : FairRunQueue},
      Relation.ReflTransGen (Quiet current) queue middle → middle.Ordered := by
    intro middle changes
    induction changes with
    | refl => exact ordered
    | tail _ last before => exact last.ordered before
  cases effect with
  | quiet changes => exact quietly changes
  | inserts middle thread before after changes inserts consistent' =>
    exact inserts.ordered consistent' deadlines (quietly changes)

theorem Reachable.invariant (reached : queue.Reachable capacity) :
    queue.Consistent ∧ queue.Ordered ∧ queue.InWindows := by
  induction reached with
  | new => exact ⟨consistent_new capacity, .nil,
      ⟨0, fun _ member => nomatch member⟩, ⟨0, fun _ member => nomatch member⟩⟩
  | call call reached ran windows ih =>
    have effect := Call.effect ih.1 ran
    exact ⟨effect.consistent ih.1, effect.ordered windows.deadlines ih.2.1, windows⟩

theorem Consistent.exact (consistent : queue.Consistent)
    (ordered : queue.Ordered) (vruntimes : InWindow (2 ^ 63) queue.vruntimes) : queue.Exact := by
  rcases vruntimes with ⟨base, within⟩
  refine ⟨ordered, ?_, consistent⟩
  intro node member
  rcases consistent.balanced.subtree member with ⟨balanced, inside⟩
  have near : ∀ item ∈ node.toList, offset base item.thread.fair.vruntime < 2 ^ 63 := by
    intro item found
    exact within _ (mem_map_of_mem (mem_map_of_mem (inside found)))
  have bounds := bounds_of_balanced balanced near
  refine ⟨balanced.height_eq, ?_, fun summary cached =>
    (bounds summary cached).vruntime_mem, ?_, fun summary cached =>
    (bounds summary cached).min_mem, fun summary cached =>
    (bounds summary cached).min_le, fun summary cached =>
    (bounds summary cached).max_mem, fun summary cached =>
    (bounds summary cached).le_max⟩
  · rintro item left right height summary rfl
    rcases balanced with ⟨balancedLeft, balancedRight, _, _, short, tall⟩
    rw [← balancedLeft.height_eq, ← balancedRight.height_eq]
    exact ⟨short, tall⟩
  · intro summary cached item found
    have cachedBounds := bounds summary cached
    rw [← Bool.not_eq_true, virtualBefore_iff (near item found) (cachedBounds.near near), not_lt]
    exact cachedBounds.vruntime_le item found

/-! ## Picking -/

end FairRunQueue

def FairPick.eligible : FairPick → FairEligible
  | .runnable thread => .runnable (.forThread thread)
  | .delayed _ => .delayed

def FairEligible.named? : FairEligible → Option ThreadId
  | .runnable key => some key.thread
  | .delayed => none

def FairPick.taken? : FairPick → Option ThreadId
  | .runnable thread => some thread.id
  | .delayed _ => none

namespace FairRunQueue

variable {queue queue' : FairRunQueue} {virtualTime : BitVec 64}
  {skipDelayed : Bool} {capacity : Nat}

/-- The thread is the first of the queue's candidates. -/
structure IsEarliest (queue : FairRunQueue) (virtualTime : BitVec 64)
    (skipDelayed : Bool) (thread : QueuedThread) : Prop where
  queued : thread ∈ queue.threads
  candidate : thread.fair.isCandidate virtualTime skipDelayed = true
  least : ∀ other ∈ queue.threads,
    other.fair.isCandidate virtualTime skipDelayed = true → other ≠ thread →
    (FairQueueKey.forThread thread).cmp (.forThread other) = .lt

inductive PickOutcome (queue : FairRunQueue) (virtualTime : BitVec 64)
    (skipDelayed : Bool) (queue' : FairRunQueue) : Option FairPick → Prop where
  | missing (same : queue'.threads = queue.threads) (noOther : ∀ thread ∈ queue.threads,
      thread.fair.isCandidate virtualTime skipDelayed = false) :
    PickOutcome queue virtualTime skipDelayed queue' none
  | delayed (thread : QueuedThread) (earliest : queue.IsEarliest virtualTime skipDelayed thread)
    (isDelayed : thread.fair.isDelayed = true) (same : queue'.threads = queue.threads) :
    PickOutcome queue virtualTime skipDelayed queue' (some (.delayed thread.core))
  | runnable (thread : QueuedThread) (before after : List QueuedThread)
    (earliest : queue.IsEarliest virtualTime skipDelayed thread)
    (notDelayed : thread.fair.isDelayed = false) (old : queue.threads = before ++ thread :: after)
    (new : queue'.threads = before ++ after) :
    PickOutcome queue virtualTime skipDelayed queue' (some (.runnable thread))

theorem isEarliest_of_search {before after : List FairItem} {item : FairItem}
    (consistent : queue.Consistent) (ordered : queue.Ordered)
    (items : queue.items = before ++ item :: after)
    (candidate : item.thread.fair.isCandidate virtualTime skipDelayed = true)
    (first : NoCandidate virtualTime skipDelayed before) :
    queue.IsEarliest virtualTime skipDelayed item.thread := by
  have member : item ∈ queue.items := by simp [items]
  refine ⟨mem_map_of_mem member, candidate, ?_⟩
  intro other otherMember otherCandidate distinct
  rcases mem_map.mp otherMember with ⟨entry, inside, rfl⟩
  rw [← consistent.keyed item member, ← consistent.keyed entry inside]
  rw [items] at inside
  unfold Ordered at ordered
  rw [items] at ordered
  rcases mem_append.mp inside with inside | inside
  · rw [first entry inside] at otherCandidate
    cases otherCandidate
  · rcases mem_cons.mp inside with rfl | inside
    · exact absurd rfl distinct
    · exact (pairwise_cons.mp (pairwise_append.mp ordered).2.1).1 entry inside

end FairRunQueue

/-! ## A queue with two threads -/

private theorem nice_zero_lower : (-20 : Int) ≤ 0 := by
  decide

private theorem nice_zero_upper : (0 : Int) ≤ 19 := by
  decide

def sampleThread (slot vruntime virtualDeadline : Nat)
    (placement : FairPlacement) : QueuedThread where
  id := ⟨BitVec.ofNat 64 slot⟩
  fair := ⟨⟨0, nice_zero_lower, nice_zero_upper⟩, .normal,
    BitVec.ofNat 64 vruntime, 1000, BitVec.ofNat 64 virtualDeadline,
    BitVec.ofNat 64 vruntime, placement⟩
  core := slot
  affinity := ⟨1⟩
  migrationCapable := false
  sequence := slot

/-- The thread with the earlier deadline, which sleeps in the queue. -/
def sampleDelayed : QueuedThread := sampleThread 0 10 20 (.delayed (-5))

def sampleActive : QueuedThread := sampleThread 1 40 30 .active

def sampleQueue : FairRunQueue where
  root := .node (.reset sampleDelayed) .nil
    (.node (.reset sampleActive) .nil .nil 1 ⟨BitVec.ofNat 64 40, 1000, 1000⟩) 2
    ⟨BitVec.ofNat 64 10, 1000, 1000⟩
  keys := [some (reset sampleDelayed).entry, some (reset sampleActive).entry]
  zeroVruntime := BitVec.ofNat 64 10
  sumWeightedDelta := 30 * 1024
  totalWeight := 2048
  migratableCount := 0
  idleCount := 0
  delayedCount := 1
  len := 2

theorem sample_vruntimes : ∀ thread ∈ [sampleDelayed, sampleActive],
      offset 0 thread.fair.vruntime < 2 ^ 63 := by
  decide +kernel

private theorem sample_deadlines : ∀ thread ∈ [sampleDelayed, sampleActive],
      offset 0 thread.fair.virtualDeadline < 2 ^ 63 := by
  decide +kernel

private theorem sampleQueue_reachable : sampleQueue.Reachable 2 := by
  have windows : ∀ queue : FairRunQueue,
      queue.threads ⊆ [sampleDelayed, sampleActive] → queue.InWindows := by
    intro queue fewer
    refine ⟨⟨0, ?_⟩, ⟨0, ?_⟩⟩
    · intro vruntime member
      rcases mem_map.mp member with ⟨thread, inside, rfl⟩
      exact sample_vruntimes thread (fewer inside)
    · intro deadline member
      rcases mem_map.mp member with ⟨thread, inside, rfl⟩
      exact sample_deadlines thread (fewer inside)
  refine .call (.insert sampleActive) (.call (.insertDelayed sampleDelayed) .new
    rfl (windows _ ?_)) rfl (windows _ ?_)
  · exact cons_subset.mpr ⟨mem_cons_self, nil_subset _⟩
  · exact fun _ => id

example : (sampleQueue.pickEligible (BitVec.ofNat 64 50) true).map (·.2) =
    some (some (.runnable sampleActive)) := by
  rfl

end TgosKits
