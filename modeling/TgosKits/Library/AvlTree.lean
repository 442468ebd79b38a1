import Mathlib.Data.List.Basic
import Mathlib.Order.Lattice

/-!
# Augmented AVL trees

Binary trees whose nodes cache their height and a summary of their subtree.
-/

/-- Each node stores its height and a summary of its subtree. -/
inductive AvlTree (Item Summary : Type) where
  | nil
  | node (item : Item) (left right : AvlTree Item Summary) (height : Nat) (summary : Summary)
  deriving DecidableEq, Repr

namespace AvlTree

open List

variable {Item Summary : Type}

def height : AvlTree Item Summary → Nat
  | nil => 0
  | node _ _ _ height _ => height

def summary? : AvlTree Item Summary → Option Summary
  | nil => none
  | node _ _ _ _ summary => some summary

def toList : AvlTree Item Summary → List Item
  | nil => []
  | node item left right _ _ => left.toList ++ item :: right.toList

def subtrees : AvlTree Item Summary → List (AvlTree Item Summary)
  | nil => []
  | node item left right height summary =>
    node item left right height summary :: (left.subtrees ++ right.subtrees)

def depth : AvlTree Item Summary → Nat
  | nil => 0
  | node _ left right _ _ => max left.depth right.depth + 1

section

variable (measure : Item → Option Summary → Option Summary → Summary) (item : Item)
  (left right : AvlTree Item Summary)

/-- A node whose height and summary are those of its children. -/
def refresh : AvlTree Item Summary :=
  node item left right (max left.height right.height + 1)
    (measure item left.summary? right.summary?)

def balanceFactor : AvlTree Item Summary → Int
  | nil => 0
  | node _ left right _ _ => (left.height : Int) - right.height

/-- Left rotation of a node with the given parts; without a right child there is
nothing to rotate. -/
def rotateLeft (left : AvlTree Item Summary) :
    AvlTree Item Summary → AvlTree Item Summary
  | node promoted inner outer _ _ =>
    refresh measure promoted (refresh measure item left inner) outer
  | nil => refresh measure item left nil

def rotateRight : AvlTree Item Summary :=
  match left with
  | node promoted outer inner _ _ =>
    refresh measure promoted outer (refresh measure item inner right)
  | nil => refresh measure item nil right

def rotatedLeft : AvlTree Item Summary → AvlTree Item Summary
  | nil => nil
  | node item left right _ _ => rotateLeft measure item left right

def rotatedRight : AvlTree Item Summary → AvlTree Item Summary
  | nil => nil
  | node item left right _ _ => rotateRight measure item left right

/-- The node with the given parts, after at most two rotations. -/
def rebalance : AvlTree Item Summary :=
  if right.height + 1 < left.height then
    rotateRight measure item
      (if left.balanceFactor < 0 then left.rotatedLeft measure else left) right
  else if left.height + 1 < right.height then
    rotateLeft measure item left
      (if 0 < right.balanceFactor then right.rotatedRight measure else right)
  else
    refresh measure item left right

/-- The tree with one more item; there is no answer if the item's key is already
taken. -/
def insert (locate : Item → Ordering) (inserted : Item) :
    AvlTree Item Summary → Option (AvlTree Item Summary)
  | nil => some (refresh measure inserted nil nil)
  | node item left right _ _ =>
    match locate item with
    | .lt => (insert locate inserted left).map fun left => rebalance measure item left right
    | .gt => (insert locate inserted right).map fun right => rebalance measure item left right
    | .eq => none

/-- The tree with the given parts without its first item, and that item. -/
def takeMin (item : Item) : AvlTree Item Summary → AvlTree Item Summary →
    AvlTree Item Summary × Item
  | nil, right => (right, item)
  | node first outer inner _ _, right =>
    let (left, minimum) := takeMin first outer inner
    (rebalance measure item left right, minimum)

/-- What is left of a node with the given children without its item. -/
def removeRoot : AvlTree Item Summary → AvlTree Item Summary → AvlTree Item Summary
  | nil, right => right
  | left, nil => left
  | left, node item inner outer _ _ =>
    let (right, successor) := takeMin measure item inner outer
    rebalance measure successor left right

/-- The tree without the item of the searched key, and that item. Every node on the way
is rebalanced; `join` puts the children of the removed node together. -/
def remove (join : AvlTree Item Summary → AvlTree Item Summary → AvlTree Item Summary)
    (locate : Item → Ordering) : AvlTree Item Summary → AvlTree Item Summary × Option Item
  | nil => (nil, none)
  | node item left right _ _ =>
    match locate item with
    | .lt =>
      let (left, removed) := remove join locate left
      (rebalance measure item left right, removed)
    | .gt =>
      let (right, removed) := remove join locate right
      (rebalance measure item left right, removed)
    | .eq => (join left right, some item)

/-- The tree without the item of the searched key if that item is to be removed,
the removed item, and whether the key was found. -/
def removeIf (locate : Item → Ordering) (shouldRemove : Item → Bool) :
    AvlTree Item Summary → AvlTree Item Summary × Option Item × Bool
  | nil => (nil, none, false)
  | node item left right height summary =>
    match locate item with
    | .lt =>
      let (left, removed, found) := removeIf locate shouldRemove left
      if removed.isSome then
        (rebalance measure item left right, removed, found)
      else
        (node item left right height summary, none, found)
    | .gt =>
      let (right, removed, found) := removeIf locate shouldRemove right
      if removed.isSome then
        (rebalance measure item left right, removed, found)
      else
        (node item left right height summary, none, found)
    | .eq =>
      if shouldRemove item then
        (removeRoot measure left right, some item, true)
      else
        (node item left right height summary, none, true)

end

def find (locate : Item → Ordering) : AvlTree Item Summary → Option Item
  | nil => none
  | node item left right _ _ =>
    match locate item with
    | .lt => find locate left
    | .gt => find locate right
    | .eq => some item

def modify (locate : Item → Ordering) (change : Item → Item) :
    AvlTree Item Summary → AvlTree Item Summary
  | nil => nil
  | node item left right height summary =>
    match locate item with
    | .lt => node item (modify locate change left) right height summary
    | .gt => node item left (modify locate change right) height summary
    | .eq => node (change item) left right height summary

/-! ## Balance -/

/-- Cached values are exact, and the heights of siblings differ by one at most. -/
def Balanced (measure : Item → Option Summary → Option Summary → Summary) :
    AvlTree Item Summary → Prop
  | nil => True
  | node item left right height summary =>
    left.Balanced measure ∧ right.Balanced measure ∧ height = max left.height right.height + 1 ∧
      summary = measure item left.summary? right.summary? ∧
      left.height ≤ right.height + 1 ∧ right.height ≤ left.height + 1

variable {measure : Item → Option Summary → Option Summary → Summary} {item inserted removed : Item}
  {left right low high tree tree' : AvlTree Item Summary} {locate : Item → Ordering}
  {shouldRemove : Item → Bool} {height : Nat} {summary : Summary}

instance : Membership Item (AvlTree Item Summary) :=
  ⟨fun tree item => item ∈ tree.toList⟩

theorem mem_def : item ∈ tree ↔ item ∈ tree.toList :=
  .rfl

theorem not_mem_nil : item ∉ (nil : AvlTree Item Summary) :=
  List.not_mem_nil

@[simp]
theorem toList_nil : (nil : AvlTree Item Summary).toList = [] :=
  rfl

@[simp]
theorem toList_node : (node item left right height summary).toList =
      left.toList ++ item :: right.toList :=
  rfl

theorem mem_node {root : Item} : item ∈ node root left right height summary ↔
    item ∈ left ∨ item = root ∨ item ∈ right := by
  simp only [mem_def, toList_node, mem_append, mem_cons]

@[simp]
theorem height_nil : (nil : AvlTree Item Summary).height = 0 :=
  rfl

@[simp]
theorem height_node : (node item left right height summary).height = height :=
  rfl

@[simp]
theorem height_refresh : (refresh measure item left right).height =
      max left.height right.height + 1 :=
  rfl

theorem toList_rotateLeft : (rotateLeft measure item left right).toList =
      left.toList ++ item :: right.toList := by
  cases right with
  | nil => rfl
  | node promoted inner outer height summary => simp [rotateLeft, refresh]

theorem toList_rotateRight : (rotateRight measure item left right).toList =
      left.toList ++ item :: right.toList := by
  cases left with
  | nil => rfl
  | node promoted outer inner height summary => simp [rotateRight, refresh]

private theorem toList_rotatedLeft : (tree.rotatedLeft measure).toList = tree.toList := by
  cases tree with
  | nil => rfl
  | node item left right height summary => exact toList_rotateLeft

private theorem toList_rotatedRight : (tree.rotatedRight measure).toList = tree.toList := by
  cases tree with
  | nil => rfl
  | node item left right height summary => exact toList_rotateRight

@[simp]
theorem toList_rebalance : (rebalance measure item left right).toList =
      left.toList ++ item :: right.toList := by
  unfold rebalance
  split_ifs
  · rw [toList_rotateRight, toList_rotatedLeft]
  · rw [toList_rotateRight]
  · rw [toList_rotateLeft, toList_rotatedRight]
  · rw [toList_rotateLeft]
  · rfl

theorem Balanced.height_eq (balanced : tree.Balanced measure) : tree.height = tree.depth := by
  induction tree with
  | nil => rfl
  | node item left right height summary leftIh rightIh =>
    rcases balanced with ⟨balancedLeft, balancedRight, exactHeight, _⟩
    rw [height_node, exactHeight, leftIh balancedLeft, rightIh balancedRight]
    rfl

theorem Balanced.subtree {subtree : AvlTree Item Summary}
    (balanced : tree.Balanced measure) (member : subtree ∈ tree.subtrees) :
    subtree.Balanced measure ∧ subtree.toList ⊆ tree.toList := by
  induction tree with
  | nil => cases member
  | node item left right height summary leftIh rightIh =>
    rcases mem_cons.mp member with rfl | member
    · exact ⟨balanced, fun _ => id⟩
    rcases mem_append.mp member with member | member
    · rcases leftIh balanced.1 member with ⟨below, inside⟩
      exact ⟨below, fun entry found => by simp [inside found]⟩
    · rcases rightIh balanced.2.1 member with ⟨below, inside⟩
      exact ⟨below, fun entry found => by simp [inside found]⟩

section

variable (balancedLeft : left.Balanced measure) (balancedRight : right.Balanced measure)
include balancedLeft balancedRight

theorem balanced_refresh (short : left.height ≤ right.height + 1)
    (tall : right.height ≤ left.height + 1) : (refresh measure item left right).Balanced measure :=
  ⟨balancedLeft, balancedRight, rfl, rfl, short, tall⟩

private theorem balanced_rotateRight (item : Item) (high : left.height = right.height + 2) :
    let rotated := rotateRight measure item
      (if left.balanceFactor < 0 then left.rotatedLeft measure else left) right
    rotated.Balanced measure ∧ rotated.height ≤ left.height + 1 ∧ left.height ≤ rotated.height := by
  cases left with
  | nil => simp at high
  | node promoted outer inner leftHeight leftSummary =>
    rcases balancedLeft with ⟨balancedOuter, balancedInner, leftExact, _, lower, upper⟩
    simp only [height_node] at high ⊢
    by_cases innerHigh : (node promoted outer inner leftHeight leftSummary).balanceFactor < 0
    · rw [if_pos innerHigh]
      simp only [balanceFactor] at innerHigh
      cases inner with
      | nil =>
        simp only [height_nil] at innerHigh
        omega
      | node pivot low up innerHeight innerSummary =>
        rcases balancedInner with ⟨balancedLow, balancedUp, innerExact, _, lowBound, upBound⟩
        simp only [height_node] at innerHigh leftExact lower upper
        simp only [rotatedLeft, rotateLeft, rotateRight, refresh]
        refine ⟨balanced_refresh (balanced_refresh balancedOuter balancedLow (by omega) (by omega))
          (balanced_refresh balancedUp balancedRight (by omega) (by omega))
          ?_ ?_, ?_, ?_⟩
        all_goals simp only [height_node]
        all_goals omega
    · rw [if_neg innerHigh]
      simp only [balanceFactor] at innerHigh
      simp only [rotateRight]
      refine ⟨balanced_refresh balancedOuter
        (balanced_refresh balancedInner balancedRight (by omega) (by omega))
        ?_ ?_, ?_, ?_⟩
      all_goals simp only [height_refresh]
      all_goals omega

private theorem balanced_rotateLeft (item : Item) (high : right.height = left.height + 2) :
    let rotated := rotateLeft measure item left
      (if 0 < right.balanceFactor then right.rotatedRight measure else right)
    rotated.Balanced measure ∧ rotated.height ≤ right.height + 1 ∧
      right.height ≤ rotated.height := by
  cases right with
  | nil => simp at high
  | node promoted inner outer rightHeight rightSummary =>
    rcases balancedRight with ⟨balancedInner, balancedOuter, rightExact, _, lower, upper⟩
    simp only [height_node] at high ⊢
    by_cases innerHigh : 0 < (node promoted inner outer rightHeight rightSummary).balanceFactor
    · rw [if_pos innerHigh]
      simp only [balanceFactor] at innerHigh
      cases inner with
      | nil =>
        simp only [height_nil] at innerHigh
        omega
      | node pivot low up innerHeight innerSummary =>
        rcases balancedInner with ⟨balancedLow, balancedUp, innerExact, _, lowBound, upBound⟩
        simp only [height_node] at innerHigh rightExact lower upper
        simp only [rotatedRight, rotateLeft, rotateRight, refresh]
        refine ⟨balanced_refresh (balanced_refresh balancedLeft balancedLow (by omega) (by omega))
          (balanced_refresh balancedUp balancedOuter (by omega) (by omega))
          ?_ ?_, ?_, ?_⟩
        all_goals simp only [height_node]
        all_goals omega
    · rw [if_neg innerHigh]
      simp only [balanceFactor] at innerHigh
      simp only [rotateLeft]
      refine ⟨balanced_refresh (balanced_refresh balancedLeft balancedInner (by omega) (by omega))
        balancedOuter ?_ ?_, ?_, ?_⟩
      all_goals simp only [height_refresh]
      all_goals omega

/-- Rebalancing a node whose subtrees differ by two at most gives a balanced tree;
it is one level higher than the higher subtree, or as high as that if it was
rotated. -/
theorem balanced_rebalance (item : Item) (short : left.height ≤ right.height + 2)
    (tall : right.height ≤ left.height + 2) : (rebalance measure item left right).Balanced measure ∧
      (rebalance measure item left right).height ≤ max left.height right.height + 1 ∧
      max left.height right.height ≤ (rebalance measure item left right).height ∧
      (left.height ≤ right.height + 1 → right.height ≤ left.height + 1 →
        (rebalance measure item left right).height = max left.height right.height + 1) := by
  unfold rebalance
  by_cases leftHigh : right.height + 1 < left.height
  · rw [if_pos leftHigh]
    rcases balanced_rotateRight balancedLeft balancedRight item (by omega) with
      ⟨balanced, upper, lower⟩
    exact ⟨balanced, by omega, by omega, by omega⟩
  rw [if_neg leftHigh]
  by_cases rightHigh : left.height + 1 < right.height
  · rw [if_pos rightHigh]
    rcases balanced_rotateLeft balancedLeft balancedRight item (by omega) with
      ⟨balanced, upper, lower⟩
    exact ⟨balanced, by omega, by omega, by omega⟩
  · rw [if_neg rightHigh, height_refresh]
    exact ⟨balanced_refresh balancedLeft balancedRight (by omega) (by omega),
      Nat.le_refl _, by omega, fun _ _ => rfl⟩

end

/-- Children whose heights moved the same way, by one level at most, move the height of
the rebalanced node that way: down for `drop = 1`, up for `drop = 0`. -/
theorem Balanced.rebalance {left' right' : AvlTree Item Summary} (drop : Nat)
    (balanced : (node item left right height summary).Balanced measure)
    (nearLeft : left'.Balanced measure ∧ left.height ≤ left'.height + drop ∧
      left'.height + drop ≤ left.height + 1)
    (nearRight : right'.Balanced measure ∧ right.height ≤ right'.height + drop ∧
      right'.height + drop ≤ right.height + 1) :
    (rebalance measure item left' right').Balanced measure ∧
      height ≤ (rebalance measure item left' right').height + drop ∧
      (rebalance measure item left' right').height + drop ≤ height + 1 := by
  rcases balanced with ⟨_, _, exact, _, short, tall⟩
  have rebalanced := balanced_rebalance nearLeft.1 nearRight.1 item (by omega) (by omega)
  exact ⟨rebalanced.1, by omega, by omega⟩

/-! ## Insertion -/

/-- Before and after the searched key the items lie on the right side of it. -/
def Splits (locate : Item → Ordering) (items : List Item) : Prop :=
  items.Pairwise fun before after =>
    (locate after = .gt → locate before = .gt) ∧ (locate before = .lt → locate after = .lt)

theorem splits_of_sorted {Key : Type} [LinearOrder Key] {keyOf : Item → Key} {items : List Item}
    (key : Key) (sorted : items.Pairwise fun before after => keyOf before < keyOf after) :
    Splits (fun item => compare key (keyOf item)) items := by
  refine sorted.imp fun less => ⟨fun above => ?_, fun below => ?_⟩
  · exact compare_gt_iff_gt.mpr (lt_trans less (compare_gt_iff_gt.mp above))
  · exact compare_lt_iff_lt.mpr (lt_trans (compare_lt_iff_lt.mp below) less)

theorem exists_insert (inserted : Item) (absent : ∀ item ∈ tree.toList, locate item ≠ .eq) :
    ∃ tree', insert measure locate inserted tree = some tree' := by
  induction tree with
  | nil => exact ⟨_, rfl⟩
  | node root left right height summary leftIh rightIh =>
    rw [insert]
    cases located : locate root with
    | lt =>
      rcases leftIh fun item member => absent item (mem_append_left _ member) with ⟨left', ran⟩
      exact ⟨_, congrArg (Option.map _) ran⟩
    | gt =>
      rcases rightIh fun item member => absent item (mem_append_right _ (mem_cons_of_mem _ member))
        with ⟨right', ran⟩
      exact ⟨_, congrArg (Option.map _) ran⟩
    | eq => exact absurd located (absent root (by simp))

/-- An insertion puts the item somewhere, and where its key belongs if the items
are in order. A balanced tree stays balanced. -/
theorem insert_spec (ran : insert measure locate inserted tree = some tree') :
    (∃ before after, tree.toList = before ++ after ∧ tree'.toList = before ++ inserted :: after ∧
      (Splits locate tree.toList → (∀ earlier ∈ before, locate earlier = .gt) ∧
          ∀ later ∈ after, locate later = .lt)) ∧
    (tree.Balanced measure → tree'.Balanced measure ∧ tree.height ≤ tree'.height ∧
      tree'.height ≤ tree.height + 1) := by
  induction tree generalizing tree' with
  | nil =>
    cases ran
    exact ⟨⟨[], [], rfl, rfl, by simp⟩,
      fun _ => ⟨balanced_refresh trivial trivial (by simp) (by simp), by simp, by simp⟩⟩
  | node item left right height summary leftIh rightIh =>
    rw [insert] at ran
    cases located : locate item with
    | lt =>
      simp only [located, Option.map_eq_some_iff] at ran
      rcases ran with ⟨left', ran, rfl⟩
      rcases leftIh ran with ⟨⟨before, after, old, new, sides⟩, near⟩
      refine ⟨⟨before, after ++ item :: right.toList, by simp [old], by simp [new], ?_⟩, ?_⟩
      · intro splits
        rcases pairwise_append.mp splits with ⟨lefts, rights, _⟩
        have behind := (pairwise_cons.mp rights).1
        refine ⟨(sides lefts).1, forall_mem_append.mpr ⟨(sides lefts).2, ?_⟩⟩
        exact forall_mem_cons.mpr ⟨located, fun _ member => (behind _ member).2 located⟩
      · intro balanced
        exact balanced.rebalance 0 (near balanced.1) ⟨balanced.2.1, Nat.le_refl _, Nat.le_succ _⟩
    | gt =>
      simp only [located, Option.map_eq_some_iff] at ran
      rcases ran with ⟨right', ran, rfl⟩
      rcases rightIh ran with ⟨⟨before, after, old, new, sides⟩, near⟩
      refine ⟨⟨left.toList ++ item :: before, after, by simp [old], by simp [new], ?_⟩, ?_⟩
      · intro splits
        rcases pairwise_append.mp splits with ⟨_, rights, across⟩
        have sides := sides (pairwise_cons.mp rights).2
        refine ⟨forall_mem_append.mpr ⟨fun earlier member => ?_, ?_⟩, sides.2⟩
        · exact (across earlier member item mem_cons_self).1 located
        · exact forall_mem_cons.mpr ⟨located, sides.1⟩
      · intro balanced
        exact balanced.rebalance 0 ⟨balanced.1, Nat.le_refl _, Nat.le_succ _⟩ (near balanced.2.1)
    | eq => simp [located] at ran

/-! ## Removal -/

theorem toList_takeMin : (takeMin measure item left right).2 ::
        (takeMin measure item left right).1.toList =
      left.toList ++ item :: right.toList := by
  induction left generalizing item right with
  | nil => rfl
  | node first outer inner height summary outerIh innerIh =>
    rw [takeMin, toList_rebalance, toList_node, ← outerIh]
    rfl

private theorem balanced_takeMin (item : Item) (balancedLeft : left.Balanced measure)
    (balancedRight : right.Balanced measure) (short : left.height ≤ right.height + 1)
    (tall : right.height ≤ left.height + 1) : (takeMin measure item left right).1.Balanced measure ∧
      (takeMin measure item left right).1.height ≤ max left.height right.height + 1 ∧
      max left.height right.height ≤ (takeMin measure item left right).1.height := by
  induction left generalizing item right with
  | nil =>
    refine ⟨balancedRight, ?_, ?_⟩
    all_goals simp [takeMin]
  | node first outer inner height summary outerIh innerIh =>
    rcases balancedLeft with ⟨balancedOuter, balancedInner, exact, _, lower, upper⟩
    rcases outerIh first balancedOuter balancedInner lower upper with ⟨balanced, atMost, atLeast⟩
    simp only [height_node] at short tall ⊢
    have rebalanced := balanced_rebalance balanced balancedRight item (by omega) (by omega)
    refine ⟨rebalanced.1, ?_⟩
    simp only [takeMin]
    omega

theorem toList_removeRoot :
    (removeRoot measure left right).toList = left.toList ++ right.toList := by
  cases left with
  | nil => rfl
  | node first outer inner height summary =>
    cases right with
    | nil => simp [removeRoot]
    | node item low high rightHeight rightSummary =>
      simp [removeRoot, toList_rebalance, toList_takeMin, toList_node]

/-- The first item on the right can take the place of the root. -/
theorem balanced_successor (balancedLeft : left.Balanced measure)
    (balancedRight : (node item low high height summary).Balanced measure)
    (short : left.height ≤ (node item low high height summary).height + 1)
    (tall : (node item low high height summary).height ≤ left.height + 1) :
    let (rest, successor) := takeMin measure item low high
    (rebalance measure successor left rest).Balanced measure ∧
      (rebalance measure successor left rest).height ≤ max left.height height + 1 ∧
      max left.height height ≤ (rebalance measure successor left rest).height := by
  rcases balancedRight with ⟨balancedLow, balancedHigh, exact, _, lower, upper⟩
  rcases balanced_takeMin item balancedLow balancedHigh lower upper with
    ⟨balanced, atMost, atLeast⟩
  rw [height_node] at short tall
  have rebalanced := balanced_rebalance balancedLeft balanced (takeMin measure item low high).2
    (by omega) (by omega)
  exact ⟨rebalanced.1, by omega, by omega⟩

theorem balanced_removeRoot (balancedLeft : left.Balanced measure)
    (balancedRight : right.Balanced measure) (short : left.height ≤ right.height + 1)
    (tall : right.height ≤ left.height + 1) :
    (removeRoot measure left right).Balanced measure ∧ (removeRoot measure left right).height ≤
        max left.height right.height + 1 ∧
      max left.height right.height ≤ (removeRoot measure left right).height := by
  cases left with
  | nil =>
    refine ⟨balancedRight, ?_, ?_⟩
    all_goals simp [removeRoot]
  | node first outer inner height summary =>
    cases right with
    | nil =>
      refine ⟨balancedLeft, ?_, ?_⟩
      all_goals simp [removeRoot]
    | node item low high rightHeight rightSummary =>
      exact balanced_successor balancedLeft balancedRight short tall

theorem Balanced.stays (balanced : tree.Balanced measure) :
    tree.Balanced measure ∧ tree.height ≤ tree.height + 1 ∧ tree.height + 1 ≤ tree.height + 1 :=
  ⟨balanced, Nat.le_succ _, Nat.le_refl _⟩

/-- A removal takes out an item with the searched key, or changes nothing. A balanced
tree stays balanced. -/
theorem removeIf_spec {result : Option Item} {found : Bool}
    (ran : removeIf measure locate shouldRemove tree = (tree', result, found)) :
    (result = none ∧ tree' = tree ∨ ∃ removed before after, result = some removed ∧ found = true ∧
        tree.toList = before ++ removed :: after ∧
        tree'.toList = before ++ after ∧ locate removed = .eq ∧ shouldRemove removed = true) ∧
    (tree.Balanced measure → tree'.Balanced measure ∧ tree.height ≤ tree'.height + 1 ∧
      tree'.height + 1 ≤ tree.height + 1) := by
  induction tree generalizing tree' result found with
  | nil =>
    cases ran
    exact ⟨.inl ⟨rfl, rfl⟩, Balanced.stays⟩
  | node item left right height summary leftIh rightIh =>
    rw [removeIf] at ran
    cases located : locate item with
    | lt =>
      rcases below : removeIf measure locate shouldRemove left with ⟨left', belowResult, belowFound⟩
      simp only [located, below] at ran
      rcases leftIh below with
        ⟨⟨rfl, rfl⟩ | ⟨removed, before, after, rfl, rfl, old, new, rest⟩, near⟩
      · cases ran
        exact ⟨.inl ⟨rfl, rfl⟩, Balanced.stays⟩
      cases ran
      exact ⟨.inr ⟨removed, before, after ++ item :: right.toList, rfl, rfl, by simp [old],
        by simp [new], rest⟩, fun balanced =>
          balanced.rebalance 1 (near balanced.1) balanced.2.1.stays⟩
    | gt =>
      rcases below : removeIf measure locate shouldRemove right with
        ⟨right', belowResult, belowFound⟩
      simp only [located, below] at ran
      rcases rightIh below with
        ⟨⟨rfl, rfl⟩ | ⟨removed, before, after, rfl, rfl, old, new, rest⟩, near⟩
      · cases ran
        exact ⟨.inl ⟨rfl, rfl⟩, Balanced.stays⟩
      cases ran
      exact ⟨.inr ⟨removed, left.toList ++ item :: before, after, rfl, rfl, by simp [old],
        by simp [new], rest⟩, fun balanced =>
          balanced.rebalance 1 balanced.1.stays (near balanced.2.1)⟩
    | eq =>
      simp only [located] at ran
      split_ifs at ran with remove <;> cases ran
      · refine ⟨.inr ⟨item, left.toList, right.toList, rfl, rfl, rfl, toList_removeRoot,
          located, remove⟩, ?_⟩
        rintro ⟨balancedLeft, balancedRight, exact, _, short, tall⟩
        have rest := balanced_removeRoot balancedLeft balancedRight short tall
        refine ⟨rest.1, ?_⟩
        simp only [height_node]
        omega
      · exact ⟨.inl ⟨rfl, rfl⟩, Balanced.stays⟩

section

variable {join : AvlTree Item Summary → AvlTree Item Summary → AvlTree Item Summary}

/-- What `join` makes of the children of a node, without the item between them. -/
structure Joins (measure : Item → Option Summary → Option Summary → Summary)
    (join : AvlTree Item Summary → AvlTree Item Summary → AvlTree Item Summary) : Prop where
  toList : ∀ left right, (join left right).toList = left.toList ++ right.toList
  balanced : ∀ left right, left.Balanced measure → right.Balanced measure →
    left.height ≤ right.height + 1 → right.height ≤ left.height + 1 →
    (join left right).Balanced measure ∧
      (join left right).height ≤ max left.height right.height + 1 ∧
      max left.height right.height ≤ (join left right).height

theorem joins_removeRoot : Joins measure (removeRoot measure) :=
  ⟨fun _ _ => toList_removeRoot, fun _ _ => balanced_removeRoot⟩

theorem remove_snd : (remove measure join locate tree).2 = find locate tree := by
  induction tree with
  | nil => rfl
  | node item left right height summary leftIh rightIh =>
    rw [remove, find]
    cases locate item with
    | lt => exact leftIh
    | gt => exact rightIh
    | eq => rfl

variable (joins : Joins measure join)
include joins

theorem length_remove (locate : Item → Ordering) (tree : AvlTree Item Summary) :
    (remove measure join locate tree).1.toList.length +
      (remove measure join locate tree).2.toList.length = tree.toList.length := by
  induction tree with
  | nil => rfl
  | node item left right height summary leftIh rightIh =>
    rw [remove, toList_node, length_append, length_cons]
    cases locate item with
    | lt =>
      simp only [toList_rebalance, length_append, length_cons]
      omega
    | gt =>
      simp only [toList_rebalance, length_append, length_cons]
      omega
    | eq =>
      simp only [joins.toList, length_append, Option.toList_some, length_singleton]
      omega

theorem balanced_remove (balanced : tree.Balanced measure) :
    (remove measure join locate tree).1.Balanced measure ∧
      tree.height ≤ (remove measure join locate tree).1.height + 1 ∧
      (remove measure join locate tree).1.height + 1 ≤ tree.height + 1 := by
  induction tree with
  | nil => exact balanced.stays
  | node item left right height summary leftIh rightIh =>
    rw [remove]
    cases locate item with
    | lt => exact balanced.rebalance 1 (leftIh balanced.1) balanced.2.1.stays
    | gt => exact balanced.rebalance 1 balanced.1.stays (rightIh balanced.2.1)
    | eq =>
      rcases balanced with ⟨balancedLeft, balancedRight, exact, _, short, tall⟩
      have rest := joins.balanced left right balancedLeft balancedRight short tall
      refine ⟨rest.1, ?_⟩
      simp only [height_node]
      omega

theorem toList_remove {Key : Type} [LinearOrder Key] {keyOf : Item → Key} (key : Key)
    (sorted : tree.toList.Pairwise fun before after => keyOf before < keyOf after) :
    (remove measure join (fun item => compare key (keyOf item)) tree).1.toList =
      tree.toList.filter fun item => decide (keyOf item ≠ key) := by
  induction tree with
  | nil => rfl
  | node root left right height summary leftIh rightIh =>
    rcases pairwise_append.mp sorted with ⟨lefts, rights, across⟩
    rcases pairwise_cons.mp rights with ⟨behind, rights⟩
    -- Items on the other side of the root cannot have the key.
    have leftStays : keyOf root ≤ key → left.toList.filter
        (fun item => decide (keyOf item ≠ key)) = left.toList := fun reached =>
      filter_eq_self.mpr fun item member => decide_eq_true
        (lt_of_lt_of_le (across item member root mem_cons_self) reached).ne
    have rightStays : key ≤ keyOf root → right.toList.filter
        (fun item => decide (keyOf item ≠ key)) = right.toList := fun reached =>
      filter_eq_self.mpr fun item member => decide_eq_true
        (lt_of_le_of_lt reached (behind item member)).ne'
    rw [remove, toList_node, filter_append, filter_cons]
    cases side : compare key (keyOf root) with
    | lt =>
      have below := compare_lt_iff_lt.mp side
      rw [rightStays below.le, if_pos (decide_eq_true below.ne'), ← leftIh lefts]
      exact toList_rebalance
    | gt =>
      have above := compare_gt_iff_gt.mp side
      rw [leftStays above.le, if_pos (decide_eq_true above.ne), ← rightIh rights]
      exact toList_rebalance
    | eq =>
      have same := compare_eq_iff_eq.mp side
      rw [leftStays same.ge, rightStays same.le, if_neg (by simp [same])]
      exact joins.toList left right

end

/-! ## Searching -/

theorem find_eq_some (found : find locate tree = some item) :
    item ∈ tree.toList ∧ locate item = .eq := by
  induction tree with
  | nil => cases found
  | node root left right height summary leftIh rightIh =>
    rw [find] at found
    cases located : locate root <;> simp only [located] at found
    case lt => exact ⟨mem_append_left _ (leftIh found).1, (leftIh found).2⟩
    case gt =>
      exact ⟨mem_append_right _ (mem_cons_of_mem _ (rightIh found).1), (rightIh found).2⟩
    case eq =>
      cases found
      exact ⟨by simp, located⟩

theorem find_isSome (splits : Splits locate tree.toList) (member : item ∈ tree.toList)
    (located : locate item = .eq) : (find locate tree).isSome = true := by
  induction tree with
  | nil => cases member
  | node root left right height summary leftIh rightIh =>
    rcases pairwise_append.mp splits with ⟨lefts, rights, across⟩
    rcases pairwise_cons.mp rights with ⟨behind, rights⟩
    rw [find]
    rcases mem_append.mp member with inLeft | inRight
    · have side := (across item inLeft root mem_cons_self).1
      cases atRoot : locate root with
      | lt => exact leftIh lefts inLeft
      | gt => simp [side atRoot] at located
      | eq => rfl
    · rcases mem_cons.mp inRight with rfl | inRight
      · rw [located]
        rfl
      · have side := (behind item inRight).2
        cases atRoot : locate root with
        | lt => simp [side atRoot] at located
        | gt => exact rightIh rights inRight
        | eq => rfl

/-- Changing an item in place changes it in the list. A change that the measure does
not see keeps the cached values exact. -/
theorem modify_spec (change : Item → Item) (same : ∀ item, measure (change item) = measure item)
    (balanced : tree.Balanced measure) (found : find locate tree = some item) :
    (∃ before after, tree.toList = before ++ item :: after ∧
      (modify locate change tree).toList = before ++ change item :: after) ∧
    (modify locate change tree).Balanced measure ∧
      (modify locate change tree).height = tree.height ∧
      (modify locate change tree).summary? = tree.summary? := by
  induction tree with
  | nil => cases found
  | node root left right height summary leftIh rightIh =>
    rcases balanced with ⟨balancedLeft, balancedRight, rest⟩
    rw [find] at found
    rw [modify]
    cases located : locate root <;> simp only [located] at found ⊢
    case lt =>
      rcases leftIh balancedLeft found with
        ⟨⟨before, after, old, new⟩, balanced, sameHeight, sameSummary⟩
      refine ⟨⟨before, after ++ root :: right.toList, by simp [old], by simp [new]⟩,
        ⟨balanced, balancedRight, ?_⟩, rfl, rfl⟩
      rw [sameHeight, sameSummary]
      exact rest
    case gt =>
      rcases rightIh balancedRight found with
        ⟨⟨before, after, old, new⟩, balanced, sameHeight, sameSummary⟩
      refine ⟨⟨left.toList ++ root :: before, after, by simp [old], by simp [new]⟩,
        ⟨balancedLeft, balanced, ?_⟩, rfl, rfl⟩
      rw [sameHeight, sameSummary]
      exact rest
    case eq =>
      cases found
      refine ⟨⟨left.toList, right.toList, rfl, rfl⟩, ⟨balancedLeft, balancedRight, ?_⟩, rfl, rfl⟩
      rw [same]
      exact rest

end AvlTree
