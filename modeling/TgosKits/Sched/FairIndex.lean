import TgosKits.Sched.FairSearch
import Mathlib.Data.List.Nodup

/-! # The index and the counts of the fair queue -/

namespace TgosKits

open FairQueueKey Option List AvlTree

def FairItem.slot (item : FairItem) : Nat := item.thread.id.slot

def FairItem.entry (item : FairItem) : FairMembership :=
  ⟨item.thread.id.generation, item.key, item.thread.fair.isDelayed⟩

def FairItem.isIdle (item : FairItem) : Bool := item.thread.fair.mode = .idle

def FairItem.isDelayed (item : FairItem) : Bool := item.thread.fair.isDelayed

def FairItem.isMigratable (item : FairItem) : Bool :=
  item.thread.migrationCapable && !item.thread.fair.isDelayed

namespace FairRunQueue

def items (queue : FairRunQueue) : List FairItem := queue.root.toList

/-- The reference, the weighted sum and the total weight. -/
def weights (queue : FairRunQueue) : BitVec 64 × Int × Int :=
  (queue.zeroVruntime, queue.sumWeightedDelta, queue.totalWeight)

/-- The tree, the members and the counters agree. -/
structure Consistent (queue : FairRunQueue) : Prop where
  balanced : queue.root.Balanced fairMeasure
  keyed : ∀ item ∈ queue.items, item.key = .forThread item.thread
  slots : (queue.items.map FairItem.slot).Nodup
  index : ∀ slot entry, (queue.keys[slot]?).join = some entry ↔
    ∃ item ∈ queue.items, item.slot = slot ∧ item.entry = entry
  len_eq : queue.len = queue.items.length
  idle_eq : queue.idleCount = queue.items.countP FairItem.isIdle
  delayed_eq : queue.delayedCount = queue.items.countP FairItem.isDelayed
  migratable_eq : queue.migratableCount = queue.items.countP FairItem.isMigratable

variable {queue queue' : FairRunQueue} {thread : QueuedThread} {item : FairItem}
  {before after : List FairItem} {root : FairTree}

theorem consistent_new (capacity : Nat) : (new capacity).Consistent := by
  refine ⟨trivial, by simp [items, new], by simp [items, new], ?_, rfl, rfl, rfl, rfl⟩
  intro slot entry
  simp only [items, new, getElem?_replicate, toList_nil,
    List.not_mem_nil, false_and, exists_false, iff_false]
  split_ifs <;> simp

section

variable (consistent : queue.Consistent) (member : item ∈ queue.items)
include consistent member

theorem Consistent.indexed : (queue.keys[item.slot]?).join = some item.entry :=
  (consistent.index _ _).mpr ⟨item, member, rfl, rfl⟩

theorem Consistent.slot_lt : item.slot < queue.keys.length := by
  by_contra outside
  have indexed := consistent.indexed member
  rw [getElem?_eq_none (not_lt.mp outside)] at indexed
  cases indexed

end

theorem join_set {keys : List (Option FairMembership)} {slot other : Nat}
    {value : Option FairMembership} (inside : slot < keys.length) :
    ((keys.set slot value)[other]?).join = if slot = other then value else (keys[other]?).join := by
  by_cases same : slot = other
  · simp [same, same ▸ inside]
  · simp [same]

def counted (item : Option FairItem) (predicate : FairItem → Bool) : Nat :=
  item.elim 0 (fun item => countIf (predicate item))

theorem countP_toList (item : Option FairItem) (predicate : FairItem → Bool) :
    item.toList.countP predicate = counted item predicate := by
  cases item with
  | none => rfl
  | some item => cases found : predicate item <;> simp [counted, countIf, found]

/-- The thread of one slot is exchanged: a thread that comes, one that goes, or one
that takes the place of the other. -/
theorem Consistent.exchange (slot : Nat) (gone fresh : Option FairItem)
    {rest : List FairItem} (consistent : queue.Consistent)
    (old : queue.items.Perm (gone.toList ++ rest)) (new : queue'.items.Perm (fresh.toList ++ rest))
    (balanced : queue'.root.Balanced fairMeasure)
    (here : (queue.keys[slot]?).join = gone.map FairItem.entry)
    (goes : ∀ item ∈ gone, item.slot = slot)
    (comes : ∀ item ∈ fresh, item.slot = slot ∧ item.key = .forThread item.thread)
    (keys : ∀ other, (queue'.keys[other]?).join =
      if slot = other then fresh.map FairItem.entry else (queue.keys[other]?).join)
    (len : queue'.len + gone.toList.length = queue.len + fresh.toList.length)
    (idle : queue'.idleCount + counted gone FairItem.isIdle =
      queue.idleCount + counted fresh FairItem.isIdle)
    (delayed : queue'.delayedCount + counted gone FairItem.isDelayed =
      queue.delayedCount + counted fresh FairItem.isDelayed)
    (migratable : queue'.migratableCount + counted gone FairItem.isMigratable =
      queue.migratableCount + counted fresh FairItem.isMigratable) : queue'.Consistent := by
  have slots := (old.map FairItem.slot).nodup_iff.mp consistent.slots
  rw [map_append, nodup_append] at slots
  have stays : ∀ item ∈ rest, item ∈ queue.items ∧ item.slot ≠ slot := by
    intro item member
    have isItem : item ∈ queue.items := old.mem_iff.mpr (mem_append_right _ member)
    refine ⟨isItem, fun same => ?_⟩
    have indexed := consistent.indexed isItem
    rw [same, here, map_eq_some_iff] at indexed
    rcases indexed with ⟨leaving, isGone, _⟩
    refine slots.2.2 leaving.slot ?_ item.slot (mem_map_of_mem member) ?_
    · exact mem_map_of_mem (mem_toList.mpr isGone)
    · rw [goes leaving isGone, same]
  have split : ∀ {item}, item ∈ queue'.items ↔ fresh = some item ∨ item ∈ rest := by
    intro item
    rw [new.mem_iff, mem_append, mem_toList]
  have counts : ∀ {count count' predicate}, count = queue.items.countP predicate →
      count' + counted gone predicate = count + counted fresh predicate →
      count' = queue'.items.countP predicate := by
    rintro _ count' predicate rfl moved
    rw [old.countP_eq, countP_append, countP_toList] at moved
    rw [new.countP_eq, countP_append, countP_toList]
    omega
  refine ⟨balanced, ?_, ?_, ?_, ?_, counts consistent.idle_eq idle,
    counts consistent.delayed_eq delayed, counts consistent.migratable_eq migratable⟩
  · intro item member
    rcases split.mp member with isFresh | inside
    · exact (comes item isFresh).2
    · exact consistent.keyed item (stays item inside).1
  · rw [(new.map FairItem.slot).nodup_iff, map_append, nodup_append]
    refine ⟨by cases fresh <;> simp, slots.2.1, ?_⟩
    intro first firstMember second secondMember same
    rcases mem_map.mp firstMember with ⟨item, isFresh, rfl⟩
    rcases mem_map.mp secondMember with ⟨other, inside, rfl⟩
    rw [(comes item (mem_toList.mp isFresh)).1] at same
    exact (stays other inside).2 same.symm
  · intro other entry
    rw [keys]
    split_ifs with same
    · subst same
      rw [map_eq_some_iff]
      constructor
      · rintro ⟨item, isFresh, isEntry⟩
        exact ⟨item, split.mpr (.inl isFresh), (comes item isFresh).1, isEntry⟩
      · rintro ⟨item, member, sameSlot, isEntry⟩
        rcases split.mp member with isFresh | inside
        · exact ⟨item, isFresh, isEntry⟩
        · exact absurd sameSlot (stays item inside).2
    · rw [consistent.index]
      constructor
      · rintro ⟨item, member, sameSlot, isEntry⟩
        refine ⟨item, split.mpr (.inr ?_), sameSlot, isEntry⟩
        rcases mem_append.mp (old.mem_iff.mp member) with isGone | inside
        · rw [← sameSlot, goes item (mem_toList.mp isGone)] at same
          exact absurd rfl same
        · exact inside
      · rintro ⟨item, member, sameSlot, isEntry⟩
        rcases split.mp member with isFresh | inside
        · exact absurd ((comes item isFresh).1.symm.trans sameSlot) same
        · exact ⟨item, (stays item inside).1, sameSlot, isEntry⟩
  · have total := old.length_eq
    rw [length_append, ← consistent.len_eq] at total
    rw [new.length_eq, length_append]
    omega

theorem Consistent.congr (consistent : queue.Consistent) (items : queue'.items = queue.items)
    (balanced : queue'.root.Balanced fairMeasure) (keys : queue'.keys = queue.keys)
    (len : queue'.len = queue.len) (idle : queue'.idleCount = queue.idleCount)
    (delayed : queue'.delayedCount = queue.delayedCount)
    (migratable : queue'.migratableCount = queue.migratableCount) : queue'.Consistent := by
  rcases consistent with ⟨-, keyed, slots, index, lenEq, idleEq, delayedEq, migratableEq⟩
  rw [← items, ← keys] at index
  rw [← items] at keyed slots lenEq idleEq delayedEq migratableEq
  exact ⟨balanced, keyed, slots, index, len.trans lenEq, idle.trans idleEq,
    delayed.trans delayedEq, migratable.trans migratableEq⟩

theorem countSub_eq_some {value amount left : Nat} :
    countSub value amount = some left ↔ left + amount = value := by
  rw [countSub, ite_none_right_eq_some, some.injEq]
  omega

/-! ## Insertion -/

section

variable {entity : FairEntity} {keys : List (Option FairMembership)}

theorem addWeightedEntity_eq : ({ queue with keys } : FairRunQueue).addWeightedEntity entity =
    { queue with
      keys
      zeroVruntime := (queue.addWeightedEntity entity).zeroVruntime
      sumWeightedDelta := (queue.addWeightedEntity entity).sumWeightedDelta
      totalWeight := (queue.addWeightedEntity entity).totalWeight } := by
  unfold addWeightedEntity
  by_cases empty : queue.totalWeight = 0
  · simp only [empty, if_true]
    rfl
  · simp only [empty, if_false]
    rfl

end

structure Inserts (thread : QueuedThread) (before after : List FairItem)
    (queue queue' : FairRunQueue) : Prop where
  old : queue.items = before ++ after
  new : queue'.items = before ++ .reset thread :: after
  sides : Splits (forThread thread).locate queue.items →
    (∀ earlier ∈ before, (forThread thread).locate earlier = .gt) ∧
      ∀ later ∈ after, (forThread thread).locate later = .lt
  weights : queue'.weights = (queue.addWeightedEntity thread.fair).weights

theorem insertEntry_eq_some (ran : queue.insertEntry thread = some queue') :
    queue.keys[thread.id.slot]? = some none ∧
      ∃ root, AvlTree.insert fairMeasure (forThread thread).locate
          (.reset thread) queue.root = some root ∧
        queue'.root = root ∧
        queue'.keys = queue.keys.set thread.id.slot (some (FairItem.reset thread).entry) ∧
        queue'.len = queue.len + 1 ∧
        queue'.idleCount = queue.idleCount + countIf (FairItem.reset thread).isIdle ∧
        queue'.delayedCount = queue.delayedCount + countIf (FairItem.reset thread).isDelayed ∧
        queue'.migratableCount =
          queue.migratableCount + countIf (FairItem.reset thread).isMigratable ∧
        queue'.weights = (queue.addWeightedEntity thread.fair).weights := by
  unfold insertEntry at ran
  split at ran
  · cases ran
  · cases ran
  rename_i free
  simp only [map_eq_some_iff, addWeightedEntity_eq] at ran
  rcases ran with ⟨root, inserted, rfl⟩
  exact ⟨free, root, inserted, rfl, rfl, rfl, rfl, rfl, rfl, rfl⟩

theorem insertEntry_inserts (consistent : queue.Consistent)
    (ran : queue.insertEntry thread = some queue') :
    queue'.Consistent ∧ ∃ before after, Inserts thread before after queue queue' := by
  rcases insertEntry_eq_some ran with ⟨free, root, inserted, rfl, keys, len, idle,
    delayed, migratable, weights⟩
  rcases insert_spec inserted with ⟨⟨before, after, old, new, sides⟩, near⟩
  have inside : thread.id.slot < queue.keys.length := by
    rcases List.getElem?_eq_some_iff.mp free with ⟨inside, _⟩
    exact inside
  refine ⟨consistent.exchange thread.id.slot none (some (.reset thread))
    (.of_eq old) ?_ (near consistent.balanced).1 ?_
    (by simp) ?_ ?_ len idle delayed migratable, before, after, old, new, sides, weights⟩
  · exact (Perm.of_eq new).trans perm_middle
  · exact congrArg join free
  · rintro item ⟨⟩
    exact ⟨rfl, rfl⟩
  · intro other
    rw [keys, join_set inside]
    rfl

/-! ## Removal -/

theorem Consistent.finishRemoved (consistent : queue.Consistent)
    (items : queue.items = before ++ item :: after) (rest : root.toList = before ++ after)
    (balanced : root.Balanced fairMeasure) :
    ∃ queue', ({ queue with root } : FairRunQueue).finishRemoved item = some (queue', item.thread) ∧
      queue'.Consistent ∧ queue'.root = root ∧
      queue'.weights = (queue.removeWeightedEntity item.thread.fair).weights := by
  have member : item ∈ queue.items := by simp [items]
  have indexed := consistent.indexed member
  have left : ∀ {count predicate}, count = queue.items.countP predicate →
      (before ++ after).countP predicate + countIf (predicate item) = count := by
    rintro _ predicate rfl
    rw [items, perm_middle.countP_eq, countP_cons, countIf]
  have indexedAt : (queue.keys[item.thread.id.slot]?).join = some item.entry := indexed
  refine ⟨{ ({ queue with
      root, keys := queue.keys.set item.slot none } :
        FairRunQueue).removeWeightedEntity item.thread.fair with
      idleCount := (before ++ after).countP FairItem.isIdle
      delayedCount := (before ++ after).countP FairItem.isDelayed
      migratableCount := (before ++ after).countP FairItem.isMigratable
      len := queue.len - 1 }, ?_, ?_, rfl, rfl⟩
  · unfold FairRunQueue.finishRemoved
    simp only [indexedAt]
    rw [if_neg (by simp [FairItem.entry])]
    exact bind_eq_some_iff.mpr ⟨_, countSub_eq_some.mpr (left consistent.idle_eq),
      bind_eq_some_iff.mpr ⟨_, countSub_eq_some.mpr (left consistent.delayed_eq),
        bind_eq_some_iff.mpr ⟨_, countSub_eq_some.mpr (left consistent.migratable_eq), rfl⟩⟩⟩
  · have shorter : queue.len - 1 + 1 = queue.len := by
      rw [consistent.len_eq, items, perm_middle.length_eq]
      rfl
    refine consistent.exchange item.slot (some item) none ?_ (.of_eq rest) balanced
      indexed ?_ (by simp) ?_ shorter (left consistent.idle_eq) (left consistent.delayed_eq)
      (left consistent.migratable_eq)
    · exact (Perm.of_eq items).trans perm_middle
    · rintro other ⟨⟩
      rfl
    · exact fun other => join_set (consistent.slot_lt member)

/-! ## Changes in place -/

/-- Another thread stands at the place of an item, with the same identity, key,
virtual runtime and weight. -/
structure Replaces (item item' : FairItem) : Prop where
  id_eq : item'.thread.id = item.thread.id
  key_eq : item'.key = item.key
  deadline_eq : item'.thread.fair.virtualDeadline = item.thread.fair.virtualDeadline
  sequence_eq : item'.thread.sequence = item.thread.sequence
  mode_eq : item'.thread.fair.mode = item.thread.fair.mode
  nice_eq : item'.thread.fair.nice = item.thread.fair.nice
  vruntime_eq : item'.thread.fair.vruntime = item.thread.fair.vruntime

theorem Consistent.replaced {item' : FairItem} (consistent : queue.Consistent)
    (old : queue.items = before ++ item :: after) (new : queue'.items = before ++ item' :: after)
    (replaces : Replaces item item') (balanced : queue'.root.Balanced fairMeasure)
    (keys : ∀ slot, (queue'.keys[slot]?).join =
      if item.slot = slot then some item'.entry else (queue.keys[slot]?).join)
    (len : queue'.len = queue.len) (idle : queue'.idleCount = queue.idleCount)
    (delayed : queue'.delayedCount + countIf item.isDelayed =
      queue.delayedCount + countIf item'.isDelayed)
    (migratable : queue'.migratableCount + countIf item.isMigratable =
      queue.migratableCount + countIf item'.isMigratable) : queue'.Consistent := by
  have member : item ∈ queue.items := by simp [old]
  have perm : ∀ item, (before ++ item :: after).Perm
      ((some item).toList ++ (before ++ after)) := fun _ => perm_middle
  refine consistent.exchange item.slot (some item) (some item')
    (old ▸ perm item) (new ▸ perm item') balanced (consistent.indexed member) ?_ ?_
    keys ?_ ?_ delayed migratable
  · rintro other ⟨⟩
    rfl
  · rintro other ⟨⟩
    rw [replaces.key_eq, consistent.keyed item member]
    simp [FairItem.slot, forThread, replaces.deadline_eq, replaces.sequence_eq, replaces.id_eq]
  · rw [len]
    rfl
  · simp [idle, counted, FairItem.isIdle, replaces.mode_eq]

/-! ## Steps -/

/-- No thread was added. -/
inductive Quiet (current : Option FairEntity) (queue queue' : FairRunQueue) : Prop where
  | kept (items : queue'.items = queue.items) (weights : queue'.weights = queue.weights)
    (consistent : queue'.Consistent)
  | removed (before after : List FairItem) (item : FairItem)
    (old : queue.items = before ++ item :: after) (new : queue'.items = before ++ after)
    (weights : queue'.weights = (queue.removeWeightedEntity item.thread.fair).weights)
    (consistent : queue'.Consistent)
  | replaced (before after : List FairItem) (item item' : FairItem)
    (old : queue.items = before ++ item :: after) (new : queue'.items = before ++ item' :: after)
    (replaces : Replaces item item') (weights : queue'.weights = queue.weights)
    (consistent : queue'.Consistent)
  | updated (ran : queue.updateVirtualTime current = some queue')
    (items : queue'.items = queue.items) (consistent : queue'.Consistent)

theorem Quiet.consistent {current : Option FairEntity}
    (quiet : Quiet current queue queue') : queue'.Consistent := by
  cases quiet <;> assumption

theorem updateVirtualTime_same {current : Option FairEntity}
    (ran : queue.updateVirtualTime current = some queue') :
    queue'.root = queue.root ∧ queue'.keys = queue.keys ∧
      queue'.len = queue.len ∧ queue'.idleCount = queue.idleCount ∧
      queue'.delayedCount = queue.delayedCount ∧
      queue'.migratableCount = queue.migratableCount := by
  unfold updateVirtualTime at ran
  dsimp only at ran
  split_ifs at ran
  · cases current with
    | none | some =>
      cases ran
      exact ⟨rfl, rfl, rfl, rfl, rfl, rfl⟩
  all_goals
    cases ran
    exact ⟨rfl, rfl, rfl, rfl, rfl, rfl⟩

variable {id : ThreadId} {entry : FairMembership}

section

variable (consistent : queue.Consistent)
include consistent

theorem updateVirtualTime_quiet {current : Option FairEntity}
    (ran : queue.updateVirtualTime current = some queue') : Quiet current queue queue' := by
  rcases updateVirtualTime_same ran with ⟨root, keys, len, idle, delayed, migratable⟩
  have items : queue'.items = queue.items := by
    unfold items
    rw [root]
  exact .updated ran items (consistent.congr items (root ▸ consistent.balanced) keys
    len idle delayed migratable)

theorem removeEntryWithKey_quiet {key : FairQueueKey}
    {shouldRemove : FairItem → Bool} {taken : Option QueuedThread} {current : Option FairEntity}
    (ran : queue.removeEntryWithKey id key shouldRemove = some (queue', taken)) :
    Quiet current queue queue' := by
  unfold removeEntryWithKey at ran
  split at ran
  · cases ran
    exact .kept rfl rfl consistent
  split_ifs at ran with other
  · cases ran
    exact .kept rfl rfl consistent
  rcases removal : removeIf fairMeasure key.locate shouldRemove
    queue.root with ⟨root, removed, found⟩
  simp only [removal] at ran
  split_ifs at ran with isFound
  rcases removeIf_spec removal with ⟨⟨rfl, rfl⟩ | ⟨item, before, after, rfl, _, old, new, _⟩, near⟩
  · cases ran
    exact .kept rfl rfl consistent
  simp only at ran
  split_ifs at ran with wrong
  rcases consistent.finishRemoved old new (near consistent.balanced).1 with
    ⟨result, finished, consistent', rootEq, weights⟩
  rw [finished] at ran
  cases ran
  refine .removed before after item old ?_ weights consistent'
  rw [items, rootEq, new]

theorem takeDelayed_quiet {taken : Option QueuedThread} {current : Option FairEntity}
    (ran : queue.takeDelayed id = some (queue', taken)) : Quiet current queue queue' := by
  unfold takeDelayed at ran
  split at ran
  · cases ran
    exact .kept rfl rfl consistent
  split_ifs at ran
  · cases ran
    exact .kept rfl rfl consistent
  · exact removeEntryWithKey_quiet consistent ran

theorem pickEligible_quiet {virtualTime : BitVec 64} {skipDelayed : Bool}
    {picked : Option FairPick} {current : Option FairEntity}
    (ran : queue.pickEligible virtualTime skipDelayed = some (queue', picked)) :
    Quiet current queue queue' := by
  unfold pickEligible at ran
  rcases search : takeEarliestEligible virtualTime skipDelayed queue.root with ⟨root, selected⟩
  obtain ⟨outcome, balanced⟩ := takeEarliestEligible_spec consistent.balanced search
  simp only [search] at ran
  cases outcome with
  | missing same noOther =>
    subst same
    cases ran
    exact .kept rfl rfl consistent
  | delayed before after item items candidate first isDelayed same =>
    cases ran
    exact .kept same rfl (consistent.congr same balanced rfl rfl rfl rfl rfl)
  | runnable before after item items candidate first notDelayed rest =>
    rcases consistent.finishRemoved items rest balanced with
      ⟨result, finished, consistent', rootEq, weights⟩
    simp only [finished] at ran
    cases ran
    refine .removed before after item items ?_ weights consistent'
    rw [FairRunQueue.items, rootEq, rest]

end

theorem membership_eq_some (isMember : queue.membership id = some entry) :
    (queue.keys[id.slot]?).join = some entry ∧ entry.generation = id.generation := by
  unfold membership at isMember
  rw [filter_eq_some_iff] at isMember
  exact ⟨isMember.1, by simpa using isMember.2⟩

theorem Consistent.found {slot : Nat} (consistent : queue.Consistent)
    (indexed : (queue.keys[slot]?).join = some entry)
    (found : find entry.key.locate queue.root = some item) :
    item ∈ queue.items ∧ item.slot = slot ∧ item.entry = entry := by
  rcases find_eq_some found with ⟨member, located⟩
  rcases (consistent.index slot entry).mp indexed with ⟨other, otherMember, rfl, rfl⟩
  have sameKey : item.entry.key = other.entry.key := (cmp_eq_iff.mp located).symm
  have sameThread : item.thread.id = other.thread.id := by
    change item.key = other.key at sameKey
    rw [consistent.keyed item member, consistent.keyed other otherMember] at sameKey
    exact congrArg thread sameKey
  obtain rfl : item = other := by
    apply inj_on_of_nodup_map consistent.slots member otherMember
    unfold FairItem.slot
    rw [sameThread]
  exact ⟨member, rfl, rfl⟩

theorem fairMeasure_congr {item' : FairItem}
    (vruntime : item'.thread.fair.vruntime = item.thread.fair.vruntime)
    (request : item'.thread.fair.serviceRequestNs = item.thread.fair.serviceRequestNs) :
    fairMeasure item' = fairMeasure item := by
  funext left right
  simp [fairMeasure, vruntime, request]

theorem replaces_cleared : Replaces item item.cleared := ⟨rfl, rfl, rfl, rfl, rfl, rfl, rfl⟩

theorem replaces_withAffinity {affinity : CpuSet} : Replaces item (item.withAffinity affinity) :=
  ⟨rfl, rfl, rfl, rfl, rfl, rfl, rfl⟩

section

variable (consistent : queue.Consistent)
include consistent

private theorem clearDelayedInPlace_quiet {entity : FairEntity} {current : Option FairEntity}
    (indexed : (queue.keys[id.slot]?).join = some entry) (isDelayed : entry.delayed = true)
    (ran : queue.clearDelayedInPlace id entry.key = some (queue', entity)) :
    Quiet current queue queue' := by
  unfold clearDelayedInPlace at ran
  split at ran
  · cases ran
  rename_i item found
  rcases consistent.found indexed found with ⟨member, sameSlot, isEntry⟩
  split at ran
  · rename_i fair other cleared isOther
    rw [indexed] at isOther
    cases isOther
    rcases bind_eq_some_iff.mp ran with ⟨delayedCount, counted, ran⟩
    cases ran
    rcases modify_spec FairItem.cleared (fun _ => fairMeasure_congr rfl rfl)
      consistent.balanced found with ⟨⟨before, after, old, new⟩, balanced, _⟩
    have delayedItem : item.isDelayed = true := by
      rw [← isEntry] at isDelayed
      exact isDelayed
    refine .replaced before after item item.cleared old new replaces_cleared rfl
      (consistent.replaced old new replaces_cleared balanced ?_ rfl rfl ?_ ?_)
    · intro slot
      rw [← sameSlot, join_set (consistent.slot_lt member), ← isEntry]
      rfl
    · rw [delayedItem]
      exact countSub_eq_some.mp counted
    · have notBefore : item.isMigratable = false := by
        change (item.thread.migrationCapable && !item.isDelayed) = false
        rw [delayedItem, Bool.not_true, Bool.and_false]
      have nowAfter : item.cleared.isMigratable = item.thread.migrationCapable := Bool.and_true _
      rw [notBefore, nowAfter]
      rfl
  · cases ran

theorem updateAffinity_quiet {affinity : CpuSet} {updated : Bool} {current : Option FairEntity}
    (ran : queue.updateAffinity id affinity = some (queue', updated)) :
    Quiet current queue queue' := by
  unfold updateAffinity at ran
  split at ran
  · cases ran
    exact .kept rfl rfl consistent
  rename_i entry isMember
  have indexed := (membership_eq_some isMember).1
  split at ran
  · cases ran
  rename_i item found
  rcases consistent.found indexed found with ⟨member, sameSlot, rfl⟩
  rcases modify_spec (·.withAffinity affinity) (fun _ => fairMeasure_congr rfl rfl)
    consistent.balanced found with ⟨⟨before, after, old, new⟩, balanced, _⟩
  have keys : ∀ slot, (queue.keys[slot]?).join =
      if item.slot = slot then some (item.withAffinity affinity).entry
      else (queue.keys[slot]?).join := by
    intro slot
    split_ifs with same
    · rw [← same, consistent.indexed member]
      rfl
    · rfl
  have replaced : ∀ count, count + countIf item.isMigratable = queue.migratableCount +
        countIf (item.withAffinity affinity).isMigratable →
      Quiet current queue { queue with
        root := modify item.entry.key.locate
          (·.withAffinity affinity) queue.root
        migratableCount := count } := fun count counted =>
    .replaced before after item _ old new replaces_withAffinity rfl
      (consistent.replaced old new replaces_withAffinity balanced keys rfl rfl rfl counted)
  have counted : item.isMigratable = (item.thread.migrationCapable && !item.entry.delayed) := rfl
  have nextCounted : (item.withAffinity affinity).isMigratable =
    (affinity.isMigrationCapable && !item.entry.delayed) := rfl
  dsimp only at ran
  rw [← counted, ← nextCounted] at ran
  split at ran
  · rename_i wasNot isNow
    cases ran
    refine replaced _ ?_
    rw [wasNot, isNow]
    rfl
  · rename_i was isNot
    rcases map_eq_some_iff.mp ran with ⟨count, checked, ran⟩
    cases ran
    refine replaced _ ?_
    rw [was, isNot]
    exact countSub_eq_some.mp checked
  · rename_i notGained notLost
    cases ran
    refine replaced _ ?_
    cases was : item.isMigratable <;> cases isNow : (item.withAffinity affinity).isMigratable
    · rfl
    · exact absurd isNow (notGained was)
    · exact absurd isNow (notLost was)
    · rfl

/-! ## Calls -/

inductive Call where
  | insert (thread : QueuedThread)
  | insertDelayed (thread : QueuedThread)
  | remove (id : ThreadId)
  | takeDelayed (id : ThreadId)
  | reactivateDelayed (id : ThreadId) (current : Option FairEntity) (timingGranularityNs : Nat)
  | finishDelayedDequeue (id : ThreadId) (virtualTime : BitVec 64) (timingGranularityNs : Nat)
  | updateAffinity (id : ThreadId) (affinity : CpuSet)
  | takeProtectedCurrent (id : ThreadId) (virtualTime : BitVec 64)
  | pickEligible (virtualTime : BitVec 64) (skipDelayed : Bool)
  | updateVirtualTime (current : Option FairEntity)

def Call.apply (queue : FairRunQueue) : Call → Option FairRunQueue
  | .insert thread => queue.insert thread
  | .insertDelayed thread => queue.insertDelayed thread
  | .remove id => (queue.remove id).map (·.1)
  | .takeDelayed id => (queue.takeDelayed id).map (·.1)
  | .reactivateDelayed id current timingGranularityNs =>
    (queue.reactivateDelayed id current timingGranularityNs).map (·.1)
  | .finishDelayedDequeue id virtualTime timingGranularityNs =>
    (queue.finishDelayedDequeue id virtualTime timingGranularityNs).map (·.1)
  | .updateAffinity id affinity => (queue.updateAffinity id affinity).map (·.1)
  | .takeProtectedCurrent id virtualTime =>
    (queue.takeProtectedCurrent id virtualTime).map (·.1)
  | .pickEligible virtualTime skipDelayed =>
    (queue.pickEligible virtualTime skipDelayed).map (·.1)
  | .updateVirtualTime current => queue.updateVirtualTime current

def Call.current : Call → Option FairEntity
  | .reactivateDelayed _ current _ => current
  | .updateVirtualTime current => current
  | _ => none

/-- What a call does: quiet changes, and then one insertion at most. -/
inductive Effect (current : Option FairEntity) (queue queue' : FairRunQueue) : Prop where
  | quiet (changes : Relation.ReflTransGen (Quiet current) queue queue')
  | inserts (middle : FairRunQueue) (thread : QueuedThread) (before after : List FairItem)
    (changes : Relation.ReflTransGen (Quiet current) queue middle)
    (inserts : Inserts thread before after middle queue') (consistent : queue'.Consistent)

end

theorem Effect.consistent {current : Option FairEntity} (consistent : queue.Consistent)
    (effect : Effect current queue queue') : queue'.Consistent := by
  cases effect with
  | quiet changes =>
    cases changes with
    | refl => exact consistent
    | tail _ last => exact last.consistent
  | inserts middle thread before after changes inserts consistent' =>
    exact consistent'

private theorem reactivateDelayed_effect {current : Option FairEntity}
    {timingGranularityNs : Nat} {entity : Option FairEntity} (consistent : queue.Consistent)
    (ran : queue.reactivateDelayed id current timingGranularityNs = some (queue', entity)) :
    Effect current queue queue' := by
  unfold reactivateDelayed at ran
  split at ran
  · cases ran
    exact .quiet .refl
  rename_i entry isMember
  have indexed := (membership_eq_some isMember).1
  split_ifs at ran with notDelayed
  · cases ran
    exact .quiet .refl
  split at ran
  · cases ran
  dsimp only at ran
  split at ran
  · cases ran
    exact .quiet .refl
  · rcases map_eq_some_iff.mp ran with ⟨⟨result, cleared⟩, inPlace, ran⟩
    cases ran
    exact .quiet (.single (clearDelayedInPlace_quiet consistent indexed
      (by simpa using notDelayed) inPlace))
  · rcases bind_eq_some_iff.mp ran with ⟨⟨second, taken⟩, take, ran⟩
    have taking : Quiet current queue second := takeDelayed_quiet consistent take
    cases taken with
    | none =>
      cases ran
      exact .quiet (.single taking)
    | some thread =>
      rcases bind_eq_some_iff.mp ran with ⟨third, update, ran⟩
      have updating := updateVirtualTime_quiet taking.consistent update
      rcases bind_eq_some_iff.mp ran with ⟨weight, _, ran⟩
      split at ran
      · cases ran
      rcases bind_eq_some_iff.mp ran with ⟨last, insert, ran⟩
      cases ran
      unfold FairRunQueue.insert at insert
      split_ifs at insert
      rcases insertEntry_inserts updating.consistent insert with
        ⟨consistent', before, after, inserts⟩
      exact .inserts third _ before after
        ((Relation.ReflTransGen.single taking).tail updating) inserts
        consistent'

theorem Call.effect {call : Call} (consistent : queue.Consistent)
    (ran : call.apply queue = some queue') : Effect call.current queue queue' := by
  have single : ∀ {current : Option FairEntity}, Quiet current queue queue' →
      Effect current queue queue' := fun quiet => .quiet (.single quiet)
  have inserted : ∀ {thread : QueuedThread},
      queue.insertEntry thread = some queue' → Effect none queue queue' := by
    intro thread ran
    rcases insertEntry_inserts consistent ran with ⟨consistent', before, after, inserts⟩
    exact .inserts queue thread before after .refl inserts consistent'
  cases call with
  | insert thread =>
    simp only [apply, FairRunQueue.insert] at ran
    split_ifs at ran
    exact inserted ran
  | insertDelayed thread =>
    simp only [apply, FairRunQueue.insertDelayed] at ran
    split_ifs at ran
    exact inserted ran
  | remove id =>
    rcases map_eq_some_iff.mp ran with ⟨⟨result, taken⟩, inner, rfl⟩
    unfold FairRunQueue.remove at inner
    split at inner
    · cases inner
      exact .quiet .refl
    · exact single (removeEntryWithKey_quiet consistent inner)
  | takeDelayed id =>
    rcases map_eq_some_iff.mp ran with ⟨⟨result, taken⟩, inner, rfl⟩
    exact single (takeDelayed_quiet consistent inner)
  | reactivateDelayed id current timingGranularityNs =>
    rcases map_eq_some_iff.mp ran with ⟨⟨result, taken⟩, inner, rfl⟩
    exact reactivateDelayed_effect consistent inner
  | finishDelayedDequeue id virtualTime timingGranularityNs =>
    rcases map_eq_some_iff.mp ran with ⟨⟨result, taken⟩, inner, rfl⟩
    unfold FairRunQueue.finishDelayedDequeue at inner
    split at inner
    · cases inner
      exact .quiet .refl
    rcases bind_eq_some_iff.mp inner with ⟨⟨second, thread⟩, take, last⟩
    have taking : Quiet none queue second := takeDelayed_quiet consistent take
    obtain rfl : result = second := by
      cases thread with
      | none =>
        cases last
        rfl
      | some thread =>
        simp only at last
        split at last <;> cases last <;> rfl
    exact single taking
  | updateAffinity id affinity =>
    rcases map_eq_some_iff.mp ran with ⟨⟨result, updated⟩, inner, rfl⟩
    exact single (updateAffinity_quiet consistent inner)
  | takeProtectedCurrent id virtualTime =>
    rcases map_eq_some_iff.mp ran with ⟨⟨result, taken⟩, inner, rfl⟩
    unfold FairRunQueue.takeProtectedCurrent at inner
    split at inner
    · cases inner
      exact .quiet .refl
    · exact single (removeEntryWithKey_quiet consistent inner)
  | pickEligible virtualTime skipDelayed =>
    rcases map_eq_some_iff.mp ran with ⟨⟨result, picked⟩, inner, rfl⟩
    exact single (pickEligible_quiet consistent inner)
  | updateVirtualTime current =>
    exact single (updateVirtualTime_quiet consistent ran)

end FairRunQueue

end TgosKits
