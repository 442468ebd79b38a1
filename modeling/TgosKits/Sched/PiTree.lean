import TgosKits.Library.AvlTree
import TgosKits.Sched.PiMutex

/-!
# Waiter trees as linked nodes

The mutexes keep their waiters in maps. Here the maps are the AVL trees of the source,
with the first entry cached, and every operation answers as it does on the maps.
-/

namespace TgosKits

open AvlTree List

abbrev PiWaitLink (Thread : Type) := AvlTree (PiWaitEntry Thread) Unit

/-- The linkage of a waiter tree. The pointer to the first node is its entry. -/
structure PiWaitNodes (Thread : Type) where
  root : PiWaitLink Thread
  first : Option (PiWaitEntry Thread)
  len : Nat

namespace PiWaitNodes

variable {Thread : Type}

def new : PiWaitNodes Thread := ⟨.nil, none, 0⟩

/-- Nothing is summed up over a subtree. -/
def summarize (_ : PiWaitEntry Thread) (_ _ : Option Unit) : Unit := ()

def isEmpty (nodes : PiWaitNodes Thread) : Bool := nodes.len == 0

def findFirst : PiWaitLink Thread → Option (PiWaitEntry Thread)
  | .nil => none
  | .node entry left _ _ _ => (findFirst left).or (some entry)

variable [LinearOrder Thread]

def locate (key : PiWaitKey Thread) (entry : PiWaitEntry Thread) : Ordering := compare key entry.1

def findFirstExcluding (excluded : Option (PiWaitKey Thread)) :
    PiWaitLink Thread → Option (PiWaitEntry Thread)
  | .nil => none
  | .node entry left right _ _ =>
    (findFirstExcluding excluded left).or
      ((if excluded ≠ some entry.1 then some entry else none).or
        (findFirstExcluding excluded right))

def removeNode (key : PiWaitKey Thread) (root : PiWaitLink Thread) :
    PiWaitLink Thread × Option (PiWaitEntry Thread) :=
  AvlTree.remove summarize (removeRoot summarize) (locate key) root

def donation (nodes : PiWaitNodes Thread) (key : PiWaitKey Thread) : Option (PiDonation Thread) :=
  (find (locate key) nodes.root).map Prod.snd

/-- There is no answer for a key that is in the tree: the source panics. -/
def insert (nodes : PiWaitNodes Thread) (key : PiWaitKey Thread) (donation : PiDonation Thread) :
    Option (PiWaitNodes Thread) :=
  (AvlTree.insert summarize (locate key) (key, donation) nodes.root).map fun root =>
    { root
      first := if nodes.first.all fun first => decide (key < first.1) then some (key, donation)
        else nodes.first
      len := nodes.len + 1 }

def remove (nodes : PiWaitNodes Thread) (key : PiWaitKey Thread) :
    PiWaitNodes Thread × Option (PiWaitEntry Thread) :=
  let (root, removed) := removeNode key nodes.root
  if removed.isSome then
    ({ root
       first := if nodes.first.map Prod.fst = some key then findFirst root else nodes.first
       len := nodes.len - 1 }, removed)
  else
    ({ nodes with root }, none)

/-- The nodes hold the entries of a map, in order. -/
structure Holds (nodes : PiWaitNodes Thread) (tree : PiWaitTree Thread) : Prop where
  entries : nodes.root.toList = tree.entries
  balanced : nodes.root.Balanced summarize
  first : nodes.first = tree.entries.head?
  len : nodes.len = tree.entries.length

variable {nodes : PiWaitNodes Thread} {tree : PiWaitTree Thread} {key : PiWaitKey Thread}
  {entry : PiWaitEntry Thread} {links : PiWaitLink Thread}

theorem holds_new : Holds (new : PiWaitNodes Thread) SortedMap.empty :=
  ⟨rfl, trivial, rfl, rfl⟩

/-! ## Searching -/

omit [LinearOrder Thread] in
private theorem findFirst_eq : findFirst links = links.toList.head? := by
  induction links with
  | nil => rfl
  | node entry left right height summary leftIh rightIh =>
    rw [findFirst, leftIh, toList_node, head?_append, head?_cons]

private theorem findFirstExcluding_eq (excluded : Option (PiWaitKey Thread)) :
    findFirstExcluding excluded links =
      links.toList.find? fun entry => decide (excluded ≠ some entry.1) := by
  induction links with
  | nil => rfl
  | node entry left right height summary leftIh rightIh =>
    rw [findFirstExcluding, leftIh, rightIh, toList_node, find?_append, find?_cons]
    by_cases other : excluded ≠ some entry.1 <;> simp [other]

theorem key_eq_of_located (located : locate key entry = .eq) : entry.1 = key :=
  (compare_eq_iff_eq.mp located).symm

section

variable (holds : nodes.Holds tree)
include holds

theorem Holds.splits (key : PiWaitKey Thread) : Splits (locate key) nodes.root.toList :=
  splits_of_sorted key (holds.entries ▸ tree.sorted)

/-- The answers of the nodes are those of the map. -/
theorem Holds.answers (key : PiWaitKey Thread) (excluded : Option (PiWaitKey Thread)) :
    nodes.first = tree.firstEntry ∧ nodes.isEmpty = tree.isEmpty ∧
      findFirstExcluding excluded nodes.root = tree.firstEntryExcluding excluded ∧
      nodes.donation key = tree.get? key := by
  refine ⟨?_, ?_, ?_, ?_⟩
  · rw [holds.first, PiWaitTree.firstEntry, SortedMap.firstWhere]
    simp
  · rw [isEmpty, holds.len, PiWaitTree.isEmpty]
    cases tree.entries <;> rfl
  · rw [findFirstExcluding_eq, holds.entries, PiWaitTree.firstEntryExcluding, SortedMap.firstWhere,
      head?_filter]
  · rw [donation]
    cases found : find (locate key) nodes.root with
    | none =>
      refine .symm (Option.eq_none_iff_forall_ne_some.mpr fun donation bound => ?_)
      have member := SortedMap.get?_eq_some_iff.mp bound
      rw [← holds.entries] at member
      have some := find_isSome (holds.splits key) member (compare_eq_iff_eq.mpr rfl)
      simp [found] at some
    | some entry =>
      obtain ⟨member, located⟩ := find_eq_some found
      rw [holds.entries] at member
      rw [← key_eq_of_located located]
      exact (SortedMap.get?_eq_some_iff.mpr member).symm

/-! ## Insertion -/

theorem Holds.insert (donation : PiDonation Thread) (absent : tree.get? key = none) :
    ∃ nodes', nodes.insert key donation = some nodes' ∧
      nodes'.Holds (tree.insert key donation) := by
  have inserts : ∃ root, AvlTree.insert summarize (locate key) (key, donation) nodes.root =
      some root := by
    refine exists_insert _ fun entry member located => ?_
    rw [holds.entries] at member
    exact SortedMap.ne_of_get?_eq_none absent member (key_eq_of_located located)
  obtain ⟨root, ran⟩ := inserts
  obtain ⟨⟨before, after, old, new, sides⟩, balanced⟩ := insert_spec ran
  obtain ⟨earlier, later⟩ := sides (holds.splits key)
  rw [holds.entries] at old
  have entries := SortedMap.entries_insert donation old
    (fun entry member => compare_gt_iff_gt.mp (earlier entry member))
    (fun entry member => compare_lt_iff_lt.mp (later entry member))
  refine ⟨_, congrArg (Option.map _) ran, new.trans entries.symm, (balanced holds.balanced).1,
    ?_, ?_⟩
  · rw [entries, holds.first, old]
    cases before with
    | nil =>
      cases after with
      | nil => rfl
      | cons next after =>
        exact if_pos (decide_eq_true (compare_lt_iff_lt.mp (later next mem_cons_self)))
    | cons head before =>
      have less := compare_gt_iff_gt.mp (earlier head mem_cons_self)
      exact if_neg (by simpa using less.le)
  · simp [holds.len, old, entries, Nat.add_assoc]

/-! ## Removal -/

theorem Holds.remove (key : PiWaitKey Thread) : (nodes.remove key).1.Holds (tree.erase key) ∧
      (nodes.remove key).2.map Prod.snd = tree.get? key := by
  have joins : Joins (summarize : PiWaitEntry Thread → _) (removeRoot summarize) :=
    joins_removeRoot
  have entries : (removeNode key nodes.root).1.toList = (tree.erase key).entries := by
    refine (toList_remove joins key (holds.entries ▸ tree.sorted)).trans ?_
    rw [holds.entries]
    rfl
  have balanced : (removeNode key nodes.root).1.Balanced summarize :=
    (balanced_remove joins holds.balanced).1
  have lengths : (removeNode key nodes.root).1.toList.length +
      (removeNode key nodes.root).2.toList.length = nodes.len := by
    rw [holds.len, ← holds.entries]
    exact length_remove joins (locate key) nodes.root
  have answer : (removeNode key nodes.root).2.map Prod.snd = tree.get? key := by
    rw [← (holds.answers key none).2.2.2, donation, removeNode, remove_snd]
  rw [PiWaitNodes.remove]
  generalize removeNode key nodes.root = outcome at entries balanced lengths answer ⊢
  rcases outcome with ⟨root, removed⟩
  cases removed with
  | none =>
    have same : tree.erase key = tree := SortedMap.ext_get? fun other => by
      rw [SortedMap.get?_erase]
      split_ifs with equal
      · rw [equal]
        exact answer
      · rfl
    refine ⟨⟨entries, balanced, ?_, ?_⟩, answer⟩
    · rw [same]
      exact holds.first
    · rw [same]
      exact holds.len
  | some entry =>
    refine ⟨⟨entries, balanced, ?_, ?_⟩, answer⟩
    · simp only [Option.isSome_some, if_true, holds.first, findFirst_eq, entries, SortedMap.erase]
      cases tree.entries with
      | nil => rfl
      | cons head rest => by_cases same : head.1 = key <;> simp [same]
    · rw [← entries, ← lengths]
      rfl

end

end PiWaitNodes

end TgosKits
