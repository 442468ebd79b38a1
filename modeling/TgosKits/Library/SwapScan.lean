import Mathlib.Data.List.Perm.Basic

/-! # Scanning an array while replacing items -/

namespace SwapScan

open List

variable {Item : Type}

/-- The items without the one at `index`; the last one takes its place. -/
def swapRemove (items : List Item) (index : Nat) : List Item :=
  match items.getLast? with
  | none => []
  | some last => (items.set index last).dropLast

def rest (hit : Item → Bool) (pieces : Item → List Item) (item : Item) : List Item :=
  if hit item then pieces item else [item]

variable {items : List Item} {index : Nat} {item : Item}

section

variable (found : items[index]? = some item)
include found

theorem drop_swapRemove_perm : (swapRemove items index).take index = items.take index ∧
      ((swapRemove items index).drop index).Perm (items.drop (index + 1)) := by
  rcases List.getElem?_eq_some_iff.mp found with ⟨inside, rfl⟩
  rcases eq_nil_or_concat items with rfl | ⟨front, last, rfl⟩
  · simp at inside
  rw [swapRemove, concat_eq_append, getLast?_append]
  rw [concat_eq_append, length_append, length_singleton] at inside
  simp only [getLast?_singleton, Option.some_or]
  by_cases atEnd : index = front.length
  · subst atEnd
    simp
  have short : index < front.length := by omega
  rw [set_append_left _ _ short, dropLast_concat]
  refine ⟨?_, ?_⟩
  · simp [take_append_of_le_length (Nat.le_of_lt short), take_set_of_le]
  · rw [drop_append_of_le_length (by omega), set_eq_take_append_cons_drop,
      if_pos short, drop_append_of_le_length (by simp; omega),
      drop_eq_nil_of_le (length_take_le _ _), nil_append]
    exact (perm_append_singleton last _).symm

theorem le_length_swapRemove : index ≤ (swapRemove items index).length := by
  rcases List.getElem?_eq_some_iff.mp found with ⟨inside, _⟩
  have same := congrArg length (drop_swapRemove_perm found).1
  rw [length_take, length_take] at same
  omega

theorem countP_drop_swapRemove {hit : Item → Bool} {added : List Item} (isHit : hit item = true)
    (quiet : ∀ piece ∈ added, hit piece = false) :
    ((swapRemove items index ++ added).drop index).countP hit < (items.drop index).countP hit := by
  rcases List.getElem?_eq_some_iff.mp found with ⟨inside, isItem⟩
  rcases drop_swapRemove_perm found with ⟨before, behind⟩
  have long := le_length_swapRemove found
  have none : added.countP hit = 0 := by
    rw [countP_eq_zero]
    intro piece member
    simp [quiet piece member]
  rw [drop_append_of_le_length long, countP_append, none,
    behind.countP_eq, drop_eq_getElem_cons inside, isItem,
    countP_cons_of_pos isHit]
  omega

end

/-- The scan from a place on, and whether an item was hit. The pieces of an item are
not hit again. -/
def scan (hit : Item → Bool) (pieces : Item → List Item)
    (quiet : ∀ item, ∀ piece ∈ pieces item, hit piece = false)
    (items : List Item) (index : Nat) : List Item × Bool :=
  match found : items[index]? with
  | none => (items, false)
  | some item =>
    if isHit : hit item then
      ((scan hit pieces quiet (swapRemove items index ++ pieces item) index).1, true)
    else
      scan hit pieces quiet items (index + 1)
termination_by ((items.drop index).countP hit, items.length - index)
decreasing_by
  · exact Prod.Lex.left _ _ (countP_drop_swapRemove found isHit (quiet item))
  · rcases List.getElem?_eq_some_iff.mp found with ⟨inside, isItem⟩
    rw [drop_eq_getElem_cons inside, isItem, countP_cons_of_neg (by simpa using isHit)]
    exact Prod.Lex.right _ (by omega)

/-- The scan replaces every item by what is left of it. -/
theorem scan_perm {hit : Item → Bool} {pieces : Item → List Item}
    {quiet : ∀ item, ∀ piece ∈ pieces item, hit piece = false}
    (done : ∀ item ∈ items.take index, hit item = false) :
    (scan hit pieces quiet items index).1.Perm (items.flatMap (rest hit pieces)) ∧
      (scan hit pieces quiet items index).2 = items.any hit := by
  have kept : ∀ list : List Item, (∀ item ∈ list, hit item = false) →
      list.flatMap (rest hit pieces) = list := by
    intro list quietList
    refine (flatMap_congr fun item member => ?_).trans (flatMap_singleton' list)
    simp [rest, quietList item member]
  fun_induction scan hit pieces quiet items index with
  | case1 items index found =>
    rw [getElem?_eq_none_iff] at found
    rw [take_of_length_le found] at done
    rw [kept items done]
    refine ⟨.refl _, ?_⟩
    rw [eq_comm, any_eq_false]
    intro item member
    simp [done item member]
  | case2 items index item found isHit ih =>
    rcases drop_swapRemove_perm found with ⟨before, behind⟩
    rcases List.getElem?_eq_some_iff.mp found with ⟨inside, isItem⟩
    have long := le_length_swapRemove found
    have parts : (swapRemove items index).Perm (items.take index ++ items.drop (index + 1)) := by
      rw [← take_append_drop index (swapRemove items index), before]
      exact behind.append_left _
    have whole : items = items.take index ++ item :: items.drop (index + 1) := by
      rw [← isItem, getElem_cons_drop, take_append_drop]
    rw [take_append_of_le_length long, before] at ih
    rcases ih done with ⟨same, -⟩
    refine ⟨same.trans ?_, ?_⟩
    · rw [flatMap_append, kept (pieces item) (quiet item)]
      refine ((parts.flatMap_right _).append_right _).trans ?_
      conv => rhs; rw [whole]
      rw [flatMap_append, flatMap_append, flatMap_cons, rest, if_pos isHit, append_assoc]
      exact (perm_append_comm).append_left _
    · rw [eq_comm, any_eq_true]
      exact ⟨item, mem_of_getElem? found, isHit⟩
  | case3 items index item found isHit ih =>
    apply ih
    intro other member
    rw [take_add_one, found, Option.toList_some, mem_append, mem_singleton] at member
    rcases member with member | rfl
    · exact done other member
    · simpa using isHit

end SwapScan
