import Mathlib.Order.MinMax
import TgosKits.Sched.FairQueue

/-! # Keys and searches of the fair queue -/

namespace TgosKits

open WrappingTime List FairEligibleOwned

/-! ## The order of keys -/

namespace FairQueueKey

def Precedes (base : BitVec 64) (first second : FairQueueKey) : Prop :=
  offset base first.virtualDeadline < offset base second.virtualDeadline ∨
    offset base first.virtualDeadline = offset base second.virtualDeadline ∧
      (first.sequence < second.sequence ∨ first.sequence = second.sequence ∧
        first.thread.asU64.toNat < second.thread.asU64.toNat)

/-- The deadline lies in the half of the clock that begins at `base`. -/
def Near (base : BitVec 64) (key : FairQueueKey) : Prop := offset base key.virtualDeadline < 2 ^ 63

variable {base : BitVec 64} {key first second third : FairQueueKey} {items : List FairItem}

theorem Precedes.trans (before : first.Precedes base second)
    (after : second.Precedes base third) : first.Precedes base third := by
  unfold Precedes at before after ⊢
  omega

theorem cmp_eq_iff : first.cmp second = .eq ↔ first = second := by
  rcases first with ⟨deadline, sequence, ⟨thread⟩⟩
  rcases second with ⟨deadline', sequence', ⟨thread'⟩⟩
  unfold cmp
  by_cases same : deadline = deadline'
  · simp [same, Ordering.then_eq_eq, BitVec.toNat_eq]
  · simp only [same, if_false]
    split_ifs <;> simp [same]

theorem cmp_eq_lt_iff (near : first.Near base) (nearSecond : second.Near base) :
    first.cmp second = .lt ↔ first.Precedes base second := by
  unfold cmp Precedes
  rw [offset_inj]
  by_cases same : first.virtualDeadline = second.virtualDeadline
  · simp [same, Ordering.then_eq_lt, Nat.compare_eq_lt]
  simp only [same, if_false, false_and, or_false]
  rw [← virtualBefore_iff near nearSecond]
  split_ifs with before <;> simp [before]

theorem cmp_eq_gt_iff (near : first.Near base) (nearSecond : second.Near base) :
    first.cmp second = .gt ↔ second.Precedes base first := by
  unfold cmp Precedes
  by_cases same : first.virtualDeadline = second.virtualDeadline
  · simp [same, Ordering.then_eq_gt, Nat.compare_eq_gt]
    omega
  have apart : offset base first.virtualDeadline ≠
      offset base second.virtualDeadline := fun equal =>
    same (offset_inj.mp equal)
  have before := virtualBefore_iff near nearSecond
  split_ifs with isBefore
  · have less := before.mp isBefore
    simp only [false_iff]
    omega
  · rw [before] at isBefore
    simp only [true_iff]
    omega

theorem splits_of_ordered (near : key.Near base) (nearItems : ∀ item ∈ items, item.key.Near base)
    (ordered : items.Pairwise fun before after => before.key.cmp after.key = .lt) :
    AvlTree.Splits key.locate items := by
  refine ordered.imp_of_mem ?_
  intro before after member later less
  have nearBefore := nearItems before member
  have nearAfter := nearItems after later
  rw [cmp_eq_lt_iff nearBefore nearAfter] at less
  unfold locate
  rw [cmp_eq_gt_iff near nearAfter, cmp_eq_gt_iff near nearBefore,
    cmp_eq_lt_iff near nearBefore, cmp_eq_lt_iff near nearAfter]
  exact ⟨less.trans, fun first => first.trans less⟩

theorem ordered_insert {before after : List FairItem} {inserted : FairItem}
    (near : ∀ item ∈ before ++ inserted :: after, item.key.Near base)
    (ordered : (before ++ after).Pairwise fun before after => before.key.cmp after.key = .lt)
    (earlier : ∀ item ∈ before, inserted.key.locate item = .gt)
    (later : ∀ item ∈ after, inserted.key.locate item = .lt) :
    (before ++ inserted :: after).Pairwise fun before after =>
      before.key.cmp after.key = .lt := by
  rcases pairwise_append.mp ordered with ⟨befores, afters, across⟩
  refine pairwise_append.mpr ⟨befores, pairwise_cons.mpr ⟨later, afters⟩, ?_⟩
  intro item member other inside
  rcases mem_cons.mp inside with rfl | inside
  · have nearItem := near item (mem_append_left _ member)
    have nearInserted := near other (by simp)
    have greater := earlier item member
    rw [locate, cmp_eq_gt_iff nearInserted nearItem] at greater
    exact (cmp_eq_lt_iff nearItem nearInserted).mpr greater
  · exact across item member other inside

end FairQueueKey

/-! ## Cached bounds -/

section

variable {base : BitVec 64} {tree left right : FairTree} {item : FairItem} {summary : FairSummary}

/-- The cached values are the bounds of the subtree. -/
structure FairSummary.Bounds (base : BitVec 64) (items : List FairItem)
    (summary : FairSummary) : Prop where
  vruntime_mem : ∃ item ∈ items, item.thread.fair.vruntime = summary.minVruntime
  vruntime_le : ∀ item ∈ items,
    offset base summary.minVruntime ≤ offset base item.thread.fair.vruntime
  min_mem : ∃ item ∈ items, item.thread.fair.serviceRequestNs = summary.minServiceRequestNs
  min_le : ∀ item ∈ items, summary.minServiceRequestNs ≤ item.thread.fair.serviceRequestNs
  max_mem : ∃ item ∈ items, item.thread.fair.serviceRequestNs = summary.maxServiceRequestNs
  le_max : ∀ item ∈ items, item.thread.fair.serviceRequestNs ≤ summary.maxServiceRequestNs

variable {items : List FairItem}

theorem exists_mem_append {α : Type} {value : FairItem → α} {first second chosen : α}
    {others : List FairItem} (here : ∃ item ∈ items, value item = first)
    (there : ∃ item ∈ others, value item = second) (choice : chosen = first ∨ chosen = second) :
    ∃ item ∈ items ++ others, value item = chosen := by
  rcases choice with rfl | rfl
  · exact here.imp fun item found => ⟨mem_append_left _ found.1, found.2⟩
  · exact there.imp fun item found => ⟨mem_append_right _ found.1, found.2⟩

section

variable (bounds : summary.Bounds base items)
include bounds

theorem FairSummary.Bounds.near
    (near : ∀ item ∈ items, offset base item.thread.fair.vruntime < 2 ^ 63) :
    offset base summary.minVruntime < 2 ^ 63 := by
  rcases bounds.vruntime_mem with ⟨item, member, same⟩
  rw [← same]
  exact near item member

def FairSummary.join (first second : FairSummary) : FairSummary where
  minVruntime := virtualMin first.minVruntime second.minVruntime
  minServiceRequestNs := min first.minServiceRequestNs second.minServiceRequestNs
  maxServiceRequestNs := max first.maxServiceRequestNs second.maxServiceRequestNs

theorem FairSummary.Bounds.congr {items' : List FairItem}
    (same : ∀ item, item ∈ items' ↔ item ∈ items) : summary.Bounds base items' := by
  rcases bounds with ⟨vruntimeMem, vruntimeLe, minMem, minLe, maxMem, leMax⟩
  constructor
  all_goals simpa only [same]

theorem FairSummary.Bounds.join {others : List FairItem} {second : FairSummary}
    (otherBounds : second.Bounds base others)
    (near : ∀ item ∈ items, offset base item.thread.fair.vruntime < 2 ^ 63)
    (nearOthers : ∀ item ∈ others, offset base item.thread.fair.vruntime < 2 ^ 63) :
    (summary.join second).Bounds base (items ++ others) := by
  have least := offset_virtualMin (bounds.near near) (otherBounds.near nearOthers)
  refine ⟨exists_mem_append bounds.vruntime_mem otherBounds.vruntime_mem ?_, ?_,
    exists_mem_append bounds.min_mem otherBounds.min_mem (min_choice _ _), ?_,
    exists_mem_append bounds.max_mem otherBounds.max_mem (max_choice _ _), ?_⟩
  · unfold FairSummary.join virtualMin
    split_ifs <;> simp
  · change ∀ item ∈ items ++ others, offset base (virtualMin _ _) ≤ _
    rw [least]
    exact forall_mem_append.mpr
      ⟨fun item member => min_le_of_left_le (bounds.vruntime_le item member),
        fun item member => min_le_of_right_le (otherBounds.vruntime_le item member)⟩
  · exact forall_mem_append.mpr ⟨fun item member => min_le_of_left_le (bounds.min_le item member),
        fun item member => min_le_of_right_le (otherBounds.min_le item member)⟩
  · exact forall_mem_append.mpr ⟨fun item member => le_max_of_le_left (bounds.le_max item member),
        fun item member => le_max_of_le_right (otherBounds.le_max item member)⟩

end

theorem fairMeasure_leaf : (fairMeasure item none none).Bounds base [item] := by
  constructor <;> simp [fairMeasure]

private theorem fairMeasure_right (left : Option FairSummary) (right : FairSummary) :
    fairMeasure item left (some right) = (fairMeasure item left none).join right := by
  cases left <;> rfl

theorem bounds_of_balanced (balanced : tree.Balanced fairMeasure)
    (near : ∀ item ∈ tree.toList, offset base item.thread.fair.vruntime < 2 ^ 63) :
    ∀ summary ∈ tree.summary?, summary.Bounds base tree.toList := by
  induction tree with
  | nil =>
    intro summary isNone
    cases isNone
  | node item left right height cached leftIh rightIh =>
    rcases balanced with ⟨balancedLeft, balancedRight, _, exact, _⟩
    obtain ⟨nearLeft, nearRest⟩ := forall_mem_append.mp near
    obtain ⟨atItem, nearRight⟩ := forall_mem_cons.mp nearRest
    have nearItem : ∀ entry ∈ [item], offset base entry.thread.fair.vruntime < 2 ^ 63 :=
      forall_mem_singleton.mpr atItem
    have withLeft : (fairMeasure item left.summary? none).Bounds base (left.toList ++ [item]) := by
      cases left with
      | nil => exact fairMeasure_leaf
      | node first outer inner leftHeight leftCached =>
        have joined := fairMeasure_leaf.join
          (leftIh balancedLeft nearLeft leftCached rfl) nearItem nearLeft
        exact joined.congr fun entry => by
          simp only [mem_append, or_comm]
    intro summary isCached
    cases isCached
    rw [exact]
    cases right with
    | nil => exact withLeft
    | node first inner outer rightHeight rightCached =>
      have joined := withLeft.join (rightIh balancedRight nearRight rightCached rfl)
        (forall_mem_append.mpr ⟨nearLeft, nearItem⟩) nearRight
      rw [AvlTree.summary?, fairMeasure_right]
      exact joined.congr fun entry => by simp

end

/-! ## The search for an eligible entity -/

variable {base virtualTime : BitVec 64} {skipDelayed : Bool}
  {tree tree' left right : FairTree} {item : FairItem} {selected : Option FairEligibleOwned}

def FairEligibleOwned.eligible : FairEligibleOwned → FairEligible
  | .runnable node => .runnable node.key
  | .delayed _ => .delayed

/-- A subtree that is skipped has no eligible entity. -/
def Prunes (virtualTime : BitVec 64) : FairTree → Prop
  | .nil => True
  | .node item left right height summary =>
    Prunes virtualTime left ∧ Prunes virtualTime right ∧
      (mayBeEligible virtualTime (.node item left right height summary) = false →
        ∀ entry ∈ left.toList ++ item :: right.toList,
          entry.thread.fair.isEligible virtualTime = false)

theorem prunes_of_balanced (balanced : tree.Balanced fairMeasure)
    (near : ∀ item ∈ tree.toList, offset base item.thread.fair.vruntime < 2 ^ 63)
    (nearTime : offset base virtualTime < 2 ^ 63) : Prunes virtualTime tree := by
  induction tree with
  | nil => trivial
  | node item left right height summary leftIh rightIh =>
    have bounds := bounds_of_balanced balanced near summary rfl
    refine ⟨leftIh balanced.1 fun entry member => near entry (by simp [member]),
      rightIh balanced.2.1 fun entry member => near entry (by simp [member]),
      ?_⟩
    intro skipped entry member
    rw [← Bool.not_eq_true] at skipped ⊢
    intro eligible
    rw [FairEntity.isEligible_iff (near entry member) nearTime] at eligible
    apply skipped
    change (!virtualBefore virtualTime summary.minVruntime) = true
    rw [Bool.not_eq_true', ← Bool.not_eq_true,
      virtualBefore_iff nearTime (bounds.near near), not_lt]
    exact le_trans (bounds.vruntime_le entry member) eligible

/-- The search in a subtree that is skipped without an eligible entity. -/
def searchBelow (virtualTime : BitVec 64) (skipDelayed : Bool)
    (tree : FairTree) : FairTree × Option FairEligibleOwned :=
  if mayBeEligible virtualTime tree then
    takeEarliestEligible virtualTime skipDelayed tree
  else
    (tree, none)

theorem takeEarliestEligible_node {height : Nat} {summary : FairSummary} :
    takeEarliestEligible virtualTime skipDelayed (.node item left right height summary) =
      if (searchBelow virtualTime skipDelayed left).2.isSome then
        (.rebalance fairMeasure item (searchBelow virtualTime skipDelayed left).1 right,
          (searchBelow virtualTime skipDelayed left).2)
      else if item.thread.fair.isCandidate virtualTime skipDelayed then
        if item.thread.fair.isDelayed then
          (.node item (searchBelow virtualTime skipDelayed left).1 right height
            summary, some (.delayed item.thread.core))
        else
          (.removeRoot fairMeasure (searchBelow virtualTime skipDelayed left).1
            right, some (.runnable item))
      else if (searchBelow virtualTime skipDelayed right).2.isSome then
        (.rebalance fairMeasure item (searchBelow virtualTime skipDelayed left).1
          (searchBelow virtualTime skipDelayed right).1,
          (searchBelow virtualTime skipDelayed right).2)
      else
        (.node item (searchBelow virtualTime skipDelayed left).1
          (searchBelow virtualTime skipDelayed right).1 height summary, none) := by
  rw [takeEarliestEligible]
  by_cases searched : mayBeEligible virtualTime right = true
  · simp [searchBelow, searched]
  · simp [searchBelow, searched]

theorem earliestEligible_eq : earliestEligible virtualTime skipDelayed tree =
      (takeEarliestEligible virtualTime skipDelayed tree).2.map eligible := by
  induction tree with
  | nil => rfl
  | node item left right height summary leftIh rightIh =>
    have look : ∀ {tree : FairTree}, earliestEligible virtualTime skipDelayed tree =
          (takeEarliestEligible virtualTime skipDelayed tree).2.map eligible →
        (if mayBeEligible virtualTime tree = true then
          earliestEligible virtualTime skipDelayed tree else none) =
          (searchBelow virtualTime skipDelayed tree).2.map eligible := by
      intro tree same
      unfold searchBelow
      split_ifs
      · exact same
      · rfl
    rw [earliestEligible, takeEarliestEligible_node]
    simp only [look leftIh, look rightIh, Option.isSome_map]
    split_ifs with _ _ _ found
    · rfl
    · rfl
    · rfl
    · rfl
    · rw [Option.not_isSome_iff_eq_none.mp found]

def NoCandidate (virtualTime : BitVec 64) (skipDelayed : Bool) (items : List FairItem) : Prop :=
  ∀ entry ∈ items, entry.thread.fair.isCandidate virtualTime skipDelayed = false

/-- The search takes an entity that is not delayed, leaves a delayed one in its
place, or changes nothing; earlier entities are no candidates. -/
inductive SearchOutcome (virtualTime : BitVec 64) (skipDelayed : Bool)
    (tree tree' : FairTree) : Option FairEligibleOwned → Prop where
  | missing (same : tree' = tree) (noOther : Prunes virtualTime tree →
      NoCandidate virtualTime skipDelayed tree.toList) :
    SearchOutcome virtualTime skipDelayed tree tree' none
  | delayed (before after : List FairItem) (item : FairItem)
    (items : tree.toList = before ++ item :: after)
    (candidate : item.thread.fair.isCandidate virtualTime skipDelayed = true)
    (first : Prunes virtualTime tree → NoCandidate virtualTime skipDelayed before)
    (isDelayed : item.thread.fair.isDelayed = true) (same : tree'.toList = tree.toList) :
    SearchOutcome virtualTime skipDelayed tree tree' (some (.delayed item.thread.core))
  | runnable (before after : List FairItem) (item : FairItem)
    (items : tree.toList = before ++ item :: after)
    (candidate : item.thread.fair.isCandidate virtualTime skipDelayed = true)
    (first : Prunes virtualTime tree → NoCandidate virtualTime skipDelayed before)
    (notDelayed : item.thread.fair.isDelayed = false) (rest : tree'.toList = before ++ after) :
    SearchOutcome virtualTime skipDelayed tree tree' (some (.runnable item))

variable {height : Nat} {summary : FairSummary}

/-- The second tree is balanced, and at most one level lower than the first. -/
def Shrunk (tree tree' : FairTree) : Prop :=
  tree'.Balanced fairMeasure ∧ tree'.height ≤ tree.height ∧ tree.height ≤ tree'.height + 1

theorem Shrunk.refl (balanced : tree.Balanced fairMeasure) : Shrunk tree tree :=
  ⟨balanced, Nat.le_refl _, Nat.le_succ _⟩

theorem Shrunk.rebalance {left' right' : FairTree}
    (balanced : (AvlTree.node item left right height summary).Balanced fairMeasure)
    (shrunkLeft : Shrunk left left') (shrunkRight : Shrunk right right') :
    Shrunk (.node item left right height summary) (.rebalance fairMeasure item left' right') := by
  rcases balanced.rebalance 1 ⟨shrunkLeft.1, shrunkLeft.2.2, Nat.succ_le_succ shrunkLeft.2.1⟩
    ⟨shrunkRight.1, shrunkRight.2.2, Nat.succ_le_succ shrunkRight.2.1⟩ with ⟨result, lower, upper⟩
  exact ⟨result, Nat.le_of_succ_le_succ upper, lower⟩

theorem searchBelow_spec (balanced : tree.Balanced fairMeasure)
    (taken : SearchOutcome virtualTime skipDelayed tree
        (takeEarliestEligible virtualTime skipDelayed tree).1
        (takeEarliestEligible virtualTime skipDelayed tree).2 ∧
      Shrunk tree (takeEarliestEligible virtualTime skipDelayed tree).1) :
    SearchOutcome virtualTime skipDelayed tree (searchBelow virtualTime skipDelayed tree).1
        (searchBelow virtualTime skipDelayed tree).2 ∧
      Shrunk tree (searchBelow virtualTime skipDelayed tree).1 := by
  unfold searchBelow
  by_cases searched : mayBeEligible virtualTime tree = true
  · rw [if_pos searched]
    exact taken
  rw [if_neg searched]
  refine ⟨.missing rfl fun prunes entry member => ?_, .refl balanced⟩
  have behind : entry.thread.fair.isEligible virtualTime = false := by
    cases tree with
    | nil => simp at member
    | node => exact prunes.2.2 (Bool.not_eq_true _ ▸ searched) entry member
  rw [FairEntity.isCandidate, behind, Bool.false_and]

/-- Nothing was found in the left subtree, and the root is no candidate. -/
theorem noCandidate_append {items : List FairItem}
    (noOther : NoCandidate virtualTime skipDelayed left.toList)
    (notItem : item.thread.fair.isCandidate virtualTime skipDelayed = false)
    (rest : NoCandidate virtualTime skipDelayed items) :
    NoCandidate virtualTime skipDelayed (left.toList ++ item :: items) :=
  forall_mem_append.mpr ⟨noOther, forall_mem_cons.mpr ⟨notItem, rest⟩⟩

variable (balanced : tree.Balanced fairMeasure)
include balanced

private theorem takeEarliestEligible_outcome :
    SearchOutcome virtualTime skipDelayed tree (takeEarliestEligible virtualTime skipDelayed tree).1
        (takeEarliestEligible virtualTime skipDelayed tree).2 ∧
      Shrunk tree (takeEarliestEligible virtualTime skipDelayed tree).1 := by
  induction tree with
  | nil => exact ⟨.missing rfl fun _ _ member => (nomatch member), .refl trivial⟩
  | node item left right height summary leftIh rightIh =>
    rw [takeEarliestEligible_node]
    obtain ⟨leftOutcome, shrunkLeft⟩ := searchBelow_spec balanced.1 (leftIh balanced.1)
    obtain ⟨rightOutcome, shrunkRight⟩ := searchBelow_spec balanced.2.1 (rightIh balanced.2.1)
    generalize (searchBelow virtualTime skipDelayed left).1 = left',
      (searchBelow virtualTime skipDelayed left).2 = leftSelected,
      (searchBelow virtualTime skipDelayed right).1 = right',
      (searchBelow virtualTime skipDelayed right).2 = rightSelected
      at leftOutcome rightOutcome shrunkLeft shrunkRight ⊢
    have rebalancedLeft := Shrunk.rebalance balanced shrunkLeft (.refl balanced.2.1)
    cases leftOutcome with
    | delayed before after found items candidate first isDelayed same =>
      exact ⟨.delayed before (after ++ item :: right.toList) found (by simp [items]) candidate
        (fun prunes => first prunes.1) isDelayed (by simp [same]), rebalancedLeft⟩
    | runnable before after found items candidate first notDelayed rest =>
      exact ⟨.runnable before (after ++ item :: right.toList) found (by simp [items])
        candidate (fun prunes => first prunes.1) notDelayed (by simp [rest]), rebalancedLeft⟩
    | missing same noOther =>
      subst same
      simp only [Option.isSome_none, Bool.false_eq_true, if_false]
      by_cases candidate : item.thread.fair.isCandidate virtualTime skipDelayed = true
      · rw [if_pos candidate]
        by_cases isDelayed : item.thread.fair.isDelayed = true
        · rw [if_pos isDelayed]
          exact ⟨.delayed left'.toList right.toList item rfl candidate
            (fun prunes => noOther prunes.1) isDelayed rfl, .refl balanced⟩
        rw [if_neg isDelayed]
        refine ⟨.runnable left'.toList right.toList item rfl candidate
          (fun prunes => noOther prunes.1) (Bool.not_eq_true _ ▸ isDelayed)
          AvlTree.toList_removeRoot, ?_⟩
        rcases balanced with ⟨balancedLeft, balancedRight, exactHeight, _, short, tall⟩
        have rest := AvlTree.balanced_removeRoot balancedLeft balancedRight short tall
        refine ⟨rest.1, ?_⟩
        simp only [AvlTree.height_node]
        omega
      · rw [if_neg candidate]
        have notItem := Bool.not_eq_true _ ▸ candidate
        have rebalancedRight := Shrunk.rebalance balanced shrunkLeft shrunkRight
        cases rightOutcome with
        | delayed before after found items candidate first isDelayed same =>
          exact ⟨.delayed (left'.toList ++ item :: before) after found (by simp [items])
            candidate (fun prunes => noCandidate_append (noOther prunes.1)
              notItem (first prunes.2.1)) isDelayed (by simp [same]), rebalancedRight⟩
        | runnable before after found items candidate first notDelayed rest =>
          exact ⟨.runnable (left'.toList ++ item :: before) after found (by simp [items])
            candidate (fun prunes => noCandidate_append (noOther prunes.1)
              notItem (first prunes.2.1)) notDelayed (by simp [rest]), rebalancedRight⟩
        | missing same noneRight =>
          subst same
          exact ⟨.missing rfl fun prunes => noCandidate_append
            (noOther prunes.1) notItem (noneRight prunes.2.1), .refl balanced⟩

theorem takeEarliestEligible_spec
    (search : takeEarliestEligible virtualTime skipDelayed tree = (tree', selected)) :
    SearchOutcome virtualTime skipDelayed tree tree' selected ∧ tree'.Balanced fairMeasure := by
  obtain ⟨rfl, rfl⟩ := Prod.ext_iff.mp search
  exact (takeEarliestEligible_outcome balanced).imp_right And.left

end TgosKits
