
/-!
# Linked stacks

A stack whose links live in its nodes: every node holds the node below it, and `nil`
marks the bottom.
-/

namespace LinkedStack

variable {α : Type}

/-- From `top` on, following `next`, the nodes of `items` are met in order,
then `nil`. -/
def Chain (next : α → α) (nil : α) : α → List α → Prop
  | top, [] => top = nil
  | top, node :: rest =>
    top = node ∧ node ≠ nil ∧ Chain next nil (next node) rest

/-- `node` is met on the way from `top` to `nil`. -/
def On (next : α → α) (nil top node : α) : Prop := ∃ items, Chain next nil top items ∧ node ∈ items

variable {next other : α → α} {nil top node : α} {items others : List α}
  (chain : Chain next nil top items)
include chain

theorem Chain.top_eq_nil : top = nil ↔ items = [] := by
  cases items with
  | nil => exact iff_of_true chain rfl
  | cons item rest =>
    refine iff_of_false ?_ (List.cons_ne_nil item rest)
    rw [chain.1]
    exact chain.2.1

theorem Chain.congr (same : ∀ node ∈ items, other node = next node) :
    Chain other nil top items := by
  induction items generalizing top with
  | nil => exact chain
  | cons item rest ih =>
    obtain ⟨topEq, itemNe, tail⟩ := chain
    refine ⟨topEq, itemNe, ?_⟩
    rw [same item List.mem_cons_self]
    exact ih tail (fun node member => same node (List.mem_cons_of_mem item member))

theorem Chain.push (real : node ≠ nil) (linked : next node = top) :
    Chain next nil node (node :: items) :=
  ⟨rfl, real, linked ▸ chain⟩

theorem Chain.unique (otherChain : Chain next nil top others) : items = others := by
  induction items generalizing top others with
  | nil => exact (otherChain.top_eq_nil.mp chain).symm
  | cons item rest ih =>
    obtain ⟨topEq, itemNe, tail⟩ := chain
    cases others with
    | nil => exact absurd (topEq.symm.trans otherChain) itemNe
    | cons otherItem otherRest =>
      obtain ⟨otherTopEq, -, otherTail⟩ := otherChain
      obtain rfl : item = otherItem := topEq.symm.trans otherTopEq
      rw [ih tail otherTail]

theorem Chain.on_iff : On next nil top node ↔ node ∈ items :=
  ⟨fun ⟨_, otherChain, member⟩ => chain.unique otherChain ▸ member,
    fun member => ⟨items, chain, member⟩⟩

end LinkedStack
