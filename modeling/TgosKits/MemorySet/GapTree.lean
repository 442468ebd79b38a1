import TgosKits.Library.AvlTree
import TgosKits.MemoryAddr

/-!
# The tree of free gaps

Address-ordered AVL nodes with maximum free-length summaries.
-/

namespace TgosKits

open List AvlTree

/-- The free ranges by address; a node's summary is the length of the longest range in
its subtree. -/
abbrev GapTree := AvlTree AddrRange Nat

namespace GapTree

/-- The `max_length` that `refresh` computes from a node's range and its children. -/
def maxLength (range : AddrRange) (left right : Option Nat) : Nat :=
  max (max (range.stop - range.start) (left.getD 0)) (right.getD 0)

/-- Rebuild a node from its parts, rotating when its children's heights differ
by more than one. -/
abbrev balance (range : AddrRange) (left right : GapTree) : GapTree :=
  rebalance maxLength range left right

/-- A range that starts where an old one does takes its place. -/
def insert (gap : AddrRange) : GapTree → GapTree
  | .nil => .node gap .nil .nil 1 (gap.stop - gap.start)
  | .node range left right _ _ =>
    match compare gap.start range.start with
    | .lt => balance range (insert gap left) right
    | .gt => balance range left (insert gap right)
    | .eq => balance gap left right

/-- What is left of a removed node: its successor, if it has one, takes its place. -/
def replacement (left : GapTree) : GapTree → GapTree
  | .nil => left
  | .node next inner outer _ _ =>
    let (right, replacement) := takeMin maxLength next inner outer
    balance replacement left right

def remove (start : Nat) (tree : GapTree) : GapTree :=
  (AvlTree.remove maxLength replacement (fun range => compare start range.start) tree).1

/-- The loop of `predecessor`, with the last gap seen at or before `start`. -/
def predecessorFrom (start : Nat) : GapTree → Option AddrRange → Option AddrRange
  | .nil, result => result
  | .node range left right _ _, result =>
    if range.start ≤ start then
      predecessorFrom start right (some range)
    else
      predecessorFrom start left result

def predecessor (tree : GapTree) (start : Nat) : Option AddrRange := predecessorFrom start tree none

/-- The loop of `successor`, with the last gap seen at or after `start`. -/
def successorFrom (start : Nat) : GapTree → Option AddrRange → Option AddrRange
  | .nil, result => result
  | .node range left right _ _, result =>
    if start ≤ range.start then
      successorFrom start left (some range)
    else
      successorFrom start right result

def successor (tree : GapTree) (start : Nat) : Option AddrRange := successorFrom start tree none

/-! ## Order and summaries -/

def Ordered (tree : GapTree) : Prop :=
  tree.toList.Pairwise fun before after => before.start < after.start

variable {gap range new found : AddrRange} {left right tree : GapTree} {start height summary : Nat}

theorem ordered_node : Ordered (.node range left right height summary) ↔
    (∀ gap ∈ left, gap.start < range.start) ∧ (∀ gap ∈ right, range.start < gap.start) ∧
      Ordered left ∧ Ordered right := by
  simp only [Ordered, toList_node, pairwise_append, pairwise_cons, mem_cons]
  constructor
  · rintro ⟨leftOrdered, ⟨above, rightOrdered⟩, across⟩
    exact ⟨fun gap member => across gap member range (.inl rfl), above, leftOrdered, rightOrdered⟩
  · rintro ⟨below, above, leftOrdered, rightOrdered⟩
    refine ⟨leftOrdered, ⟨above, rightOrdered⟩, ?_⟩
    rintro gap member other (rfl | otherMember)
    · exact below gap member
    · exact (below gap member).trans (above other otherMember)

theorem length_le_summary (balanced : tree.Balanced maxLength) (member : gap ∈ tree) :
    gap.stop - gap.start ≤ tree.summary?.getD 0 := by
  induction tree with
  | nil => exact absurd member AvlTree.not_mem_nil
  | node range left right height summary leftIh rightIh =>
    obtain ⟨balancedLeft, balancedRight, -, cached, -⟩ := balanced
    change _ ≤ summary
    rw [cached, maxLength]
    rcases mem_node.mp member with inLeft | rfl | inRight
    · have bound := leftIh balancedLeft inLeft
      omega
    · omega
    · have bound := rightIh balancedRight inRight
      omega

/-! ## Inserting and removing -/

/-- Among gaps that start elsewhere, the insertion is the library's. -/
theorem insert_eq (fresh : ∀ old ∈ tree, old.start ≠ new.start) :
    AvlTree.insert maxLength (fun range => compare new.start range.start) new tree =
      some (insert new tree) := by
  induction tree with
  | nil => simp [AvlTree.insert, insert, refresh, maxLength, summary?]
  | node range left right height summary leftIh rightIh =>
    have inLeft := leftIh fun old member => fresh old (mem_node.mpr (.inl member))
    have inRight := rightIh fun old member => fresh old (mem_node.mpr (.inr (.inr member)))
    rw [AvlTree.insert, insert, inLeft, inRight]
    cases side : compare new.start range.start with
    | lt => rfl
    | gt => rfl
    | eq =>
      have same : range.start = new.start := (compare_eq_iff_eq.mp side).symm
      exact absurd same (fresh range (mem_node.mpr (.inr (.inl rfl))))

section

variable (fresh : ∀ old ∈ tree, old.start ≠ new.start)
include fresh

theorem mem_insert : gap ∈ insert new tree ↔ gap = new ∨ gap ∈ tree := by
  obtain ⟨before, after, old, inserted, -⟩ := (insert_spec (insert_eq fresh)).1
  rw [mem_def, mem_def, old, inserted]
  simp only [mem_append, mem_cons]
  tauto

theorem ordered_insert (ordered : Ordered tree) : Ordered (insert new tree) := by
  obtain ⟨before, after, old, inserted, sides⟩ := (insert_spec (insert_eq fresh)).1
  obtain ⟨earlier, later⟩ := sides (splits_of_sorted new.start ordered)
  rw [Ordered, old, pairwise_append] at ordered
  rw [Ordered, inserted, pairwise_append, pairwise_cons]
  exact ⟨ordered.1, ⟨fun gap member => compare_lt_iff_lt.mp (later gap member), ordered.2.1⟩,
    fun gap member => forall_mem_cons.mpr
      ⟨compare_gt_iff_gt.mp (earlier gap member), ordered.2.2 gap member⟩⟩

theorem balanced_insert (balanced : tree.Balanced maxLength) :
    (insert new tree).Balanced maxLength :=
  ((insert_spec (insert_eq fresh)).2 balanced).1

end

theorem joins_replacement : Joins maxLength replacement := by
  refine ⟨fun left right => ?_, fun left right balancedLeft balancedRight short tall => ?_⟩
  · cases right with
    | nil => exact (append_nil _).symm
    | node next inner outer height summary => simp [replacement, toList_takeMin]
  · cases right with
    | nil => exact ⟨balancedLeft, by simp [replacement], by simp [replacement]⟩
    | node next inner outer height summary =>
      exact balanced_successor balancedLeft balancedRight short tall

theorem balanced_remove (balanced : tree.Balanced maxLength) :
    (remove start tree).Balanced maxLength :=
  (AvlTree.balanced_remove joins_replacement balanced).1

section

variable (ordered : Ordered tree)
include ordered

theorem mem_remove : gap ∈ remove start tree ↔ gap ∈ tree ∧ gap.start ≠ start := by
  rw [remove, mem_def, toList_remove joins_replacement start ordered, mem_filter,
    decide_eq_true_iff, mem_def]

theorem ordered_remove : Ordered (remove start tree) := by
  rw [remove, Ordered, toList_remove joins_replacement start ordered]
  exact ordered.filter _

theorem length_remove (member : gap ∈ tree) :
    tree.toList.length = (remove gap.start tree).toList.length + 1 := by
  have found := find_isSome (splits_of_sorted gap.start ordered) member (compare_eq_iff_eq.mpr rfl)
  obtain ⟨removed, isRemoved⟩ := Option.isSome_iff_exists.mp found
  have lengths := AvlTree.length_remove joins_replacement
    (fun range => compare gap.start range.start) tree
  rw [remove_snd, isRemoved] at lengths
  exact lengths.symm

end

/-! ## Neighbours -/

section

variable (ordered : Ordered tree)
include ordered

theorem predecessorFrom_eq (result : Option AddrRange) : predecessorFrom start tree result =
      (tree.toList.reverse.find? fun gap => decide (gap.start ≤ start)).or
        result := by
  induction tree generalizing result with
  | nil => simp [predecessorFrom]
  | node range left right _ _ leftIh rightIh =>
    obtain ⟨leftBelow, rightAbove, leftOrdered, rightOrdered⟩ := ordered_node.mp ordered
    simp only [predecessorFrom, toList_node, reverse_append, reverse_cons, find?_append,
      find?_singleton]
    by_cases reached : range.start ≤ start
    · simp [rightIh rightOrdered, reached]
    have none : right.toList.reverse.find? (fun gap => decide (gap.start ≤ start)) = none := by
      simp only [find?_eq_none, mem_reverse, decide_eq_true_iff]
      intro gap member
      have := rightAbove gap member
      omega
    simp [leftIh leftOrdered, reached, none]

theorem successorFrom_eq (result : Option AddrRange) : successorFrom start tree result =
      (tree.toList.find? fun gap => decide (start ≤ gap.start)).or result := by
  induction tree generalizing result with
  | nil => simp [successorFrom]
  | node range left right _ _ leftIh rightIh =>
    obtain ⟨leftBelow, rightAbove, leftOrdered, rightOrdered⟩ := ordered_node.mp ordered
    simp only [successorFrom, toList_node, find?_append, find?_cons]
    by_cases reached : start ≤ range.start
    · simp [leftIh leftOrdered, reached]
    have none : left.toList.find? (fun gap => decide (start ≤ gap.start)) =
        none := by
      simp only [find?_eq_none, decide_eq_true_iff]
      intro gap member
      have := leftBelow gap member
      omega
    simp [rightIh rightOrdered, reached, none]

theorem predecessor_eq_none (missing : predecessor tree start = none) (member : gap ∈ tree) :
    start < gap.start := by
  rw [predecessor, predecessorFrom_eq ordered, Option.or_none, find?_eq_none] at missing
  simpa using missing gap (mem_reverse.mpr member)

theorem successor_eq_none (missing : successor tree start = none) (member : gap ∈ tree) :
    gap.start < start := by
  rw [successor, successorFrom_eq ordered, Option.or_none, find?_eq_none] at missing
  simpa using missing gap member

end

theorem related_of_find? {related : AddrRange → AddrRange → Prop}
    {admits : AddrRange → Bool} {gaps : List AddrRange}
    (sorted : gaps.Pairwise related) (answer : gaps.find? admits = some found)
    (member : gap ∈ gaps) (admitted : admits gap = true) : gap = found ∨ related found gap := by
  obtain ⟨-, before, after, whole, rejected⟩ := find?_eq_some_iff_append.mp answer
  rw [whole, pairwise_append, pairwise_cons] at sorted
  rw [whole, mem_append, mem_cons] at member
  rcases member with earlier | same | later
  · have := rejected gap earlier
    simp [admitted] at this
  · exact .inl same
  · exact .inr (sorted.2.1.1 gap later)

theorem predecessor_eq_some (ordered : Ordered tree)
    (answer : predecessor tree start = some found) :
    found ∈ tree ∧ found.start ≤ start ∧
      ∀ gap ∈ tree, gap.start ≤ start → gap.start ≤ found.start := by
  rw [predecessor, predecessorFrom_eq ordered, Option.or_none] at answer
  refine ⟨mem_reverse.mp (mem_of_find?_eq_some answer), by simpa using find?_some answer, ?_⟩
  intro gap member reached
  rcases related_of_find? (pairwise_reverse.mpr ordered) answer (mem_reverse.mpr member)
    (decide_eq_true reached) with rfl | below
  · exact le_rfl
  · exact below.le

theorem successor_eq_some (ordered : Ordered tree) (answer : successor tree start = some found) :
    found ∈ tree ∧ start ≤ found.start ∧
      ∀ gap ∈ tree, start ≤ gap.start → found.start ≤ gap.start := by
  rw [successor, successorFrom_eq ordered, Option.or_none] at answer
  refine ⟨mem_of_find?_eq_some answer, by simpa using find?_some answer, ?_⟩
  intro gap member after
  rcases related_of_find? ordered answer member (decide_eq_true after) with rfl | above
  · exact le_rfl
  · exact above.le

end GapTree

end TgosKits
