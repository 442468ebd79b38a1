import Mathlib.Data.List.Nodup

/-!
# Intrusive doubly linked lists

The links of a list live in the nodes: `prev` and `next` map every node to its
neighbours, and `nil` stands for "no node".
-/

namespace LinkedList

open Function List

structure Links (α : Type) where
  prev : α → α
  next : α → α

namespace Links

variable {α : Type}

section

variable [DecidableEq α] (links : Links α)

def push (nil head node : α) : Links α where
  prev :=
    if head = nil then update links.prev node nil
    else update (update links.prev node nil) head node
  next := update links.next node head

def unlink (nil node : α) : Links α where
  prev := update (if links.next node = nil then links.prev
        else update links.prev (links.next node) (links.prev node))
      node nil
  next := update (if links.prev node = nil then links.next
        else update links.next (links.prev node) (links.next node))
      node nil

/-- The head of the list that started at `head`, without `node`. -/
def headWithout (nil head node : α) : α :=
  if links.prev node = nil then links.next node else head

end

/-- The nodes of `items` are linked in order, from `first` on; the first one
points back to `before`, the last one on to `nil`. -/
def Chain (links : Links α) (nil : α) : α → α → List α → Prop
  | _, first, [] => first = nil
  | before, first, node :: rest =>
    first = node ∧ node ≠ nil ∧ links.prev node = before ∧
      Chain links nil node (links.next node) rest

/-- The nodes from `head` on are exactly `items`. -/
structure IsList (links : Links α) (nil head : α) (items : List α) : Prop where
  chain : Chain links nil nil head items
  nodup : items.Nodup

variable {links other : Links α} {nil before first head node : α} {items : List α}

section

variable (chain : Chain links nil before first items)
include chain

theorem Chain.ne_nil (member : node ∈ items) : node ≠ nil := by
  induction items generalizing before first with
  | nil => cases member
  | cons item rest ih =>
    obtain ⟨-, itemNe, -, tail⟩ := chain
    rcases mem_cons.mp member with rfl | inRest
    · exact itemNe
    · exact ih tail inRest

theorem Chain.first_eq : first = nil ∨ first ∈ items := by
  cases items with
  | nil => exact .inl chain
  | cons item rest =>
    rw [chain.1]
    exact .inr mem_cons_self

theorem Chain.first_eq_headD : first = items.headD nil := by
  cases items with
  | nil => exact chain
  | cons item rest => exact chain.1

end

theorem Chain.next_eq_headD {visited rest : List α}
    (chain : Chain links nil before first (visited ++ node :: rest)) :
    links.next node = rest.headD nil := by
  induction visited generalizing before first with
  | nil => exact chain.2.2.2.first_eq_headD
  | cons item visited ih =>
    exact ih chain.2.2.2

section

variable (chain : Chain links nil before first items) (member : node ∈ items)
include chain member

theorem Chain.next_eq : links.next node = nil ∨ links.next node ∈ items := by
  induction items generalizing before first with
  | nil => cases member
  | cons item rest ih =>
    obtain ⟨-, -, -, tail⟩ := chain
    rcases mem_cons.mp member with rfl | inRest
    · exact tail.first_eq.imp_right (mem_cons_of_mem _)
    · exact (ih tail inRest).imp_right (mem_cons_of_mem item)

theorem Chain.prev_eq : links.prev node = before ∨ links.prev node ∈ items := by
  induction items generalizing before first with
  | nil => cases member
  | cons item rest ih =>
    obtain ⟨-, -, prevEq, tail⟩ := chain
    rcases mem_cons.mp member with rfl | inRest
    · exact .inl prevEq
    rcases ih tail inRest with previous | previous
    · rw [previous]
      exact .inr mem_cons_self
    · exact .inr (mem_cons_of_mem item previous)

theorem Chain.eq_first (fresh : before ∉ items) (back : links.prev node = before) :
    node = first := by
  cases items with
  | nil => cases member
  | cons item rest =>
    obtain ⟨firstEq, -, -, tail⟩ := chain
    rcases mem_cons.mp member with rfl | inRest
    · exact firstEq.symm
    · rcases tail.prev_eq inRest with previous | previous
      · exact absurd (mem_cons.mpr (.inl (back.symm.trans previous))) fresh
      · exact absurd (mem_cons_of_mem item (back ▸ previous)) fresh

end

theorem Chain.congr (chain : Chain links nil before first items)
    (same : ∀ node ∈ items, other.prev node = links.prev node ∧ other.next node = links.next node) :
    Chain other nil before first items := by
  induction items generalizing before first with
  | nil => exact chain
  | cons item rest ih =>
    obtain ⟨firstEq, itemNe, prevEq, tail⟩ := chain
    obtain ⟨samePrev, sameNext⟩ := same item mem_cons_self
    refine ⟨firstEq, itemNe, samePrev.trans prevEq, ?_⟩
    rw [sameNext]
    exact ih tail (fun node member => same node (mem_cons_of_mem item member))

theorem IsList.congr (isList : IsList links nil head items)
    (same : ∀ node ∈ items, other.prev node = links.prev node ∧ other.next node = links.next node) :
    IsList other nil head items :=
  ⟨isList.chain.congr same, isList.nodup⟩

theorem Chain.unique {others : List α} {otherBefore : α}
    (chain : Chain links nil before first items)
    (otherChain : Chain links nil otherBefore first others) : items = others := by
  induction items generalizing before first others otherBefore with
  | nil =>
    cases others with
    | nil => rfl
    | cons item rest =>
      exact absurd (otherChain.1.symm.trans chain) otherChain.2.1
  | cons item rest ih =>
    obtain ⟨firstEq, itemNe, -, tail⟩ := chain
    cases others with
    | nil => exact absurd (firstEq.symm.trans otherChain) itemNe
    | cons otherItem otherRest =>
      obtain ⟨otherFirstEq, -, -, otherTail⟩ := otherChain
      obtain rfl : item = otherItem := firstEq.symm.trans otherFirstEq
      rw [ih tail otherTail]

/-! ## Pushing -/

variable [DecidableEq α] {touched : α}

theorem push_of_ne (notNode : touched ≠ node) (notHead : touched ≠ head) :
    (links.push nil head node).prev touched = links.prev touched ∧
      (links.push nil head node).next touched = links.next touched := by
  unfold push
  split <;> simp [notNode, notHead]

theorem IsList.push (isList : IsList links nil head items) (fresh : node ∉ items)
    (real : node ≠ nil) : IsList (links.push nil head node) nil node (node :: items) := by
  obtain ⟨chain, nodup⟩ := isList
  refine ⟨⟨rfl, real, ?_, ?_⟩, nodup_cons.mpr ⟨fresh, nodup⟩⟩
  · have headNe : node ≠ head := by
      rcases chain.first_eq with rfl | headMember
      · exact real
      · exact fun equal => fresh (equal ▸ headMember)
    unfold Links.push
    split <;> simp [headNe]
  · have nextEq : (links.push nil head node).next node = head := by
      simp [Links.push]
    rw [nextEq]
    cases items with
    | nil => exact chain
    | cons item rest =>
      obtain ⟨rfl, itemNe, -, tail⟩ := chain
      obtain ⟨itemFresh, -⟩ := nodup_cons.mp nodup
      have different : head ≠ node := fun equal => fresh (equal ▸ mem_cons_self)
      refine ⟨rfl, itemNe, ?_, ?_⟩
      · simp [Links.push, itemNe]
      · have sameNext : (links.push nil head node).next head = links.next head := by
          simp [Links.push, different]
        rw [sameNext]
        apply tail.congr
        intro touched member
        apply push_of_ne
        · exact fun equal =>
            fresh (equal ▸ mem_cons_of_mem head member)
        · exact fun equal => itemFresh (equal ▸ member)

/-! ## Removing -/

theorem unlink_prev_of_ne (notNode : touched ≠ node) (notNext : touched ≠ links.next node) :
    (links.unlink nil node).prev touched = links.prev touched := by
  simp only [unlink, update_of_ne notNode]
  split
  · rfl
  · rw [update_of_ne notNext]

theorem unlink_next_of_ne (notNode : touched ≠ node) (notPrev : touched ≠ links.prev node) :
    (links.unlink nil node).next touched = links.next touched := by
  simp only [unlink, update_of_ne notNode]
  split
  · rfl
  · rw [update_of_ne notPrev]

private theorem IsList.unlink_of_not_mem (isList : IsList links nil head items)
    (member : node ∈ items) (outside : touched ∉ items) (real : touched ≠ nil) :
    (links.unlink nil node).prev touched = links.prev touched ∧
      (links.unlink nil node).next touched = links.next touched := by
  have notNode : touched ≠ node := fun equal => outside (equal ▸ member)
  constructor
  · apply unlink_prev_of_ne notNode
    intro equal
    rcases isList.chain.next_eq member with none | some
    · exact real (equal.trans none)
    · exact outside (equal ▸ some)
  · apply unlink_next_of_ne notNode
    intro equal
    rcases isList.chain.prev_eq member with none | some
    · exact real (equal.trans none)
    · exact outside (equal ▸ some)

private theorem Chain.unlink_first (chain : Chain links nil before node (node :: items))
    (nodup : (node :: items).Nodup) (fresh : before ∉ node :: items) :
    Chain (links.unlink nil node) nil before (links.next node) items := by
  obtain ⟨-, nodeNe, prevEq, tail⟩ := chain
  obtain ⟨nodeFresh, restNodup⟩ := nodup_cons.mp nodup
  cases items with
  | nil => exact tail
  | cons item rest =>
    obtain ⟨nextEq, itemNe, itemPrev, itemTail⟩ := tail
    obtain ⟨itemFresh, -⟩ := nodup_cons.mp restNodup
    have itemNeNode : item ≠ node := fun equal => nodeFresh (equal ▸ mem_cons_self)
    have notBefore : ∀ touched ∈ item :: rest, touched ≠ links.prev node := by
      intro touched member equal
      rw [prevEq] at equal
      exact fresh (mem_cons_of_mem node (equal ▸ member))
    refine ⟨nextEq, itemNe, ?_, ?_⟩
    · simp only [unlink, update_of_ne itemNeNode]
      rw [if_neg (by rw [nextEq]; exact itemNe), nextEq, update_self, prevEq]
    · rw [unlink_next_of_ne itemNeNode (notBefore item mem_cons_self)]
      apply itemTail.congr
      intro touched member
      have notNode : touched ≠ node := fun equal =>
        nodeFresh (equal ▸ mem_cons_of_mem item member)
      constructor
      · apply unlink_prev_of_ne notNode
        rw [nextEq]
        exact fun equal => itemFresh (equal ▸ member)
      · exact unlink_next_of_ne notNode (notBefore touched (mem_cons_of_mem item member))

/-- Removing a node from a chain, whatever stands before the chain. -/
theorem Chain.unlink (chain : Chain links nil before first items) (nodup : items.Nodup)
    (fresh : before ∉ items) (member : node ∈ items) :
    Chain (links.unlink nil node) nil before (if node = first then links.next node else first)
      (items.erase node) := by
  induction items generalizing before first with
  | nil => cases member
  | cons item rest ih =>
    have whole := chain
    obtain ⟨rfl, itemNe, prevEq, tail⟩ := chain
    obtain ⟨itemFresh, restNodup⟩ := nodup_cons.mp nodup
    rcases eq_or_ne node first with rfl | equal
    · rw [if_pos rfl, erase_cons_head]
      exact whole.unlink_first nodup fresh
    have inRest : node ∈ rest := (mem_cons.mp member).resolve_left equal
    rw [if_neg equal, erase_cons_tail (by simpa using Ne.symm equal)]
    refine ⟨rfl, itemNe, ?_, ?_⟩
    · rw [unlink_prev_of_ne (Ne.symm equal)]
      · exact prevEq
      · intro same
        rcases tail.next_eq inRest with none | some
        · exact itemNe (same.trans none)
        · exact itemFresh (same ▸ some)
    · have nextEq : (links.unlink nil node).next first =
          if node = links.next first then links.next node
          else links.next first := by
        by_cases second : node = links.next first
        · have back : links.prev node = first := by
            cases rest with
            | nil => cases inRest
            | cons item rest =>
              rw [second, tail.1]
              exact tail.2.2.1
          rw [if_pos second]
          simp only [Links.unlink, update_of_ne (Ne.symm equal)]
          rw [if_neg (by rw [back]; exact itemNe), back, update_self]
        · rw [if_neg second, unlink_next_of_ne (Ne.symm equal)]
          intro back
          exact second (tail.eq_first inRest itemFresh back.symm)
      rw [nextEq]
      exact ih tail restNodup itemFresh inRest

theorem IsList.unlink (isList : IsList links nil head items) (member : node ∈ items) :
    IsList (links.unlink nil node) nil (links.headWithout nil head node) (items.erase node) := by
  obtain ⟨chain, nodup⟩ := isList
  have nilFresh : nil ∉ items := fun inside => chain.ne_nil inside rfl
  refine ⟨?_, nodup.erase node⟩
  have headEq : links.headWithout nil head node =
      if node = head then links.next node else head := by
    unfold headWithout
    by_cases front : links.prev node = nil
    · rw [if_pos front, if_pos (chain.eq_first member nilFresh front)]
    rw [if_neg front, if_neg]
    intro equal
    apply front
    cases items with
    | nil => cases member
    | cons item rest =>
      rw [equal, chain.1]
      exact chain.2.2.1
  rw [headEq]
  exact chain.unlink nodup nilFresh member

/-! ## Families of lists -/

/-- Lists with the indices of `within`, on one store of links; no node is on
two of them. -/
structure Family {ι : Type} (links : Links α) (nil : α) (within : ι → Prop)
    (heads : ι → α) (lists : ι → List α) : Prop where
  isList : ∀ index, within index → IsList links nil (heads index) (lists index)
  apart : ∀ first second item, within first → within second →
    item ∈ lists first → item ∈ lists second → first = second

variable {ι : Type} [DecidableEq ι] {within : ι → Prop} {heads : ι → α} {lists : ι → List α}
  {index : ι} (family : Family links nil within heads lists)
include family

theorem Family.push (inside : within index)
    (fresh : ∀ other, within other → node ∉ lists other) (real : node ≠ nil) :
    Family (links.push nil (heads index) node) nil within (update heads index node)
      (update lists index (node :: lists index)) := by
  constructor
  · intro other otherInside
    rcases eq_or_ne other index with rfl | equal
    · rw [update_self, update_self]
      exact (family.isList other otherInside).push (fresh other otherInside) real
    rw [update_of_ne equal, update_of_ne equal]
    apply (family.isList other otherInside).congr
    intro item member
    apply push_of_ne
    · exact fun same => fresh other otherInside (same ▸ member)
    · intro same
      rcases (family.isList index inside).chain.first_eq with none | some
      · exact (family.isList other otherInside).chain.ne_nil member (same.trans none)
      · exact equal (family.apart other index item otherInside inside member (same ▸ some))
  · intro first second item firstInside secondInside inFirst inSecond
    by_cases new : item = node
    · have only : ∀ other, within other → item ∈ update lists index (node :: lists index) other →
          other = index := by
        intro other otherInside member
        by_contra different
        rw [update_of_ne different, new] at member
        exact fresh other otherInside member
      rw [only first firstInside inFirst, only second secondInside inSecond]
    · have old : ∀ other, item ∈ update lists index (node :: lists index) other →
          item ∈ lists other := by
        intro other member
        rcases eq_or_ne other index with rfl | equal
        · rw [update_self] at member
          exact (mem_cons.mp member).resolve_left new
        · rwa [update_of_ne equal] at member
      exact family.apart first second item firstInside secondInside
        (old first inFirst) (old second inSecond)

/-- Removing shortens one list and keeps the others. -/
theorem Family.unlink (inside : within index) (member : node ∈ lists index) :
    Family (links.unlink nil node) nil within (update heads index
        (links.headWithout nil (heads index) node))
      (update lists index ((lists index).erase node)) := by
  constructor
  · intro other otherInside
    rcases eq_or_ne other index with rfl | equal
    · rw [update_self, update_self]
      exact (family.isList other otherInside).unlink member
    rw [update_of_ne equal, update_of_ne equal]
    apply (family.isList other otherInside).congr
    intro item itemMember
    apply (family.isList index inside).unlink_of_not_mem member
    · exact fun inList => equal (family.apart other index item otherInside inside itemMember inList)
    · exact (family.isList other otherInside).chain.ne_nil itemMember
  · intro first second item firstInside secondInside inFirst inSecond
    have old : ∀ other, item ∈ update lists index ((lists index).erase node) other →
        item ∈ lists other := by
      intro other itemMember
      rcases eq_or_ne other index with rfl | equal
      · rw [update_self] at itemMember
        exact mem_of_mem_erase itemMember
      · rwa [update_of_ne equal] at itemMember
    exact family.apart first second item firstInside secondInside
      (old first inFirst) (old second inSecond)

omit [DecidableEq α] [DecidableEq ι] in
theorem Family.congr
    (same : ∀ index, within index → ∀ node ∈ lists index, other.prev node = links.prev node ∧
        other.next node = links.next node) : Family other nil within heads lists :=
  ⟨fun index inside => (family.isList index inside).congr (same index inside), family.apart⟩

end Links

end LinkedList
