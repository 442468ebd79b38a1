import Mathlib.Algebra.Order.BigOperators.Group.List
import Mathlib.Algebra.Order.Group.Nat
import Mathlib.Order.WellFounded
import Mathlib.Data.Finite.Prod

/-!
# Waits-for graphs

A relation says who waits for whom.
-/

namespace WaitGraph

open Relation ReflTransGen List

variable {Node : Type*} {waits waits' : Node → Node → Prop}

/-- Waiting leads to smaller ranks. -/
def Ranked (waits : Node → Node → Prop) : Prop :=
  ∃ rank : Node → Nat, ∀ waiter holder, waits waiter holder → rank holder < rank waiter

theorem Ranked.acyclic (ranked : Ranked waits) (node : Node) : ¬ TransGen waits node node := by
  rcases ranked with ⟨rank, falls⟩
  have falling : ∀ {first last : Node}, TransGen waits first last → rank last < rank first := by
    intro first last path
    induction path with
    | single edge => exact falls _ _ edge
    | tail _ edge ih =>
      exact lt_trans (falls _ _ edge) ih
  exact fun cycle => lt_irrefl _ (falling cycle)

theorem Ranked.mono (ranked : Ranked waits)
    (subgraph : ∀ waiter holder, waits' waiter holder → waits waiter holder) : Ranked waits' := by
  rcases ranked with ⟨rank, falls⟩
  exact ⟨rank, fun waiter holder edge =>
    falls waiter holder (subgraph waiter holder edge)⟩

variable {target first last : Node} {chain : List Node}

theorem Ranked.add_edges (ranked : Ranked waits) {origin : Node} {targets : List Node}
    (noCycle : ∀ target ∈ targets, ¬ ReflTransGen waits target origin)
    (subgraph : ∀ waiter holder, waits' waiter holder →
      waits waiter holder ∨ waiter = origin ∧ holder ∈ targets) : Ranked waits' := by
  classical
  rcases ranked with ⟨rank, falls⟩
  -- whoever reaches the origin moves above the targets
  refine ⟨fun node => if ReflTransGen waits node origin then
    rank node + (targets.map rank).sum + 1 else rank node, ?_⟩
  intro waiter holder edge
  dsimp only
  rcases subgraph waiter holder edge with old | ⟨rfl, member⟩
  · have fall := falls waiter holder old
    split_ifs with holderReaches waiterReaches
    · omega
    · exact absurd (holderReaches.head old) waiterReaches
    all_goals omega
  · have atMost := le_sum_of_mem (mem_map_of_mem (f := rank) member)
    rw [if_neg (noCycle holder member), if_pos refl]
    omega

theorem exists_border {inside border : Node → Prop}
    (closed : ∀ node, inside node → ∀ next, waits node next → inside next ∨ border next)
    (path : ReflTransGen waits first target) (isInside : inside first)
    (outside : ¬ inside target) : ∃ node, border node ∧ ReflTransGen waits node target := by
  induction path using head_induction_on with
  | refl => exact absurd isInside outside
  | head edge rest ih =>
    rcases closed _ isInside _ edge with nextInside | nextBorder
    · exact ih nextInside
    · exact ⟨_, nextBorder, rest⟩

section

variable (ranked : Ranked waits)
include ranked

theorem Ranked.add_sink {sink : Node} (idle : ∀ holder, ¬ waits' sink holder)
    (subgraph : ∀ waiter holder, waits' waiter holder → waits waiter holder ∨ holder = sink) :
    Ranked waits' := by
  classical
  rcases ranked with ⟨rank, falls⟩
  refine ⟨fun node => if node = sink then 0 else rank node + 1, ?_⟩
  intro waiter holder edge
  have waiterNe : waiter ≠ sink := by
    rintro rfl
    exact idle holder edge
  dsimp only
  rw [if_neg waiterNe]
  split_ifs with holderEq
  · omega
  rcases subgraph waiter holder edge with old | sinkEq
  · have fall := falls waiter holder old
    omega
  · exact absurd sinkEq holderEq

theorem Ranked.nodup_of_isChain (linked : chain.IsChain waits) : chain.Nodup := by
  rcases ranked with ⟨rank, falls⟩
  have fallingChain : chain.IsChain (fun first second =>
      rank second < rank first) :=
    linked.imp falls
  exact fallingChain.pairwise.imp fun fall same => (same ▸ fall).false

end

/-- Where everybody waits for at most one other, whoever the first member of a chain
reaches is in the chain or reached by its last member. -/
theorem mem_or_reaches_of_isChain (functional : ∀ waiter holder other, waits waiter holder →
      waits waiter other → holder = other) (linked : chain.IsChain waits)
    (isFirst : chain.head? = some first) (isLast : chain.getLast? = some last)
    (path : ReflTransGen waits first target) : target ∈ chain ∨ ReflTransGen waits last target := by
  induction chain generalizing first with
  | nil => cases isFirst
  | cons node rest ih =>
    cases isFirst
    cases rest with
    | nil =>
      cases isLast
      exact .inr path
    | cons next rest =>
      rw [isChain_cons_cons] at linked
      rcases cases_head path with rfl | ⟨middle, edge, path⟩
      · exact .inl mem_cons_self
      obtain rfl : middle = next := functional _ _ _ edge linked.1
      rw [getLast?_cons_cons] at isLast
      exact (ih linked.2 rfl isLast path).imp_left (mem_cons_of_mem _)

theorem transGen_of_isChain {rest : List Node} (linked : (first :: rest).IsChain waits)
    (member : target ∈ rest) : TransGen waits first target := by
  have reaches : (first :: rest).IsChain (TransGen waits) :=
    linked.imp (fun _ _ edge => .single edge)
  exact (pairwise_cons.mp reaches.pairwise).1 target member

theorem reaches_of_isChain (linked : chain.IsChain waits) (isFirst : chain.head? = some first)
    (isLast : chain.getLast? = some last) : ReflTransGen waits first last := by
  induction chain generalizing first with
  | nil => cases isFirst
  | cons node rest ih =>
    cases isFirst
    cases rest with
    | nil =>
      cases isLast
      exact refl
    | cons next rest =>
      rw [isChain_cons_cons] at linked
      rw [getLast?_cons_cons] at isLast
      exact (ih linked.2 rfl isLast).head linked.1

theorem isChain_append_singleton {next : Node} (linked : chain.IsChain waits)
    (isLast : chain.getLast? = some last) (edge : waits last next) :
    (chain ++ [next]).IsChain waits := by
  rw [isChain_append]
  refine ⟨linked, isChain_singleton next, ?_⟩
  intro node isNode other isOther
  cases isLast.symm.trans isNode
  cases isOther
  exact edge

/-! ## Inherited values -/

/-- A value that is locally the least of the own value and of the values of the
waiters is the least own value of everybody who waits, directly or not. -/
theorem Ranked.isLeast_inherited [Finite Node] {Value : Type*} [LinearOrder Value]
    (ranked : Ranked waits) {own inherited : Node → Value}
    (belowOwn : ∀ node, inherited node ≤ own node)
    (belowWaiter : ∀ waiter holder, waits waiter holder → inherited holder ≤ inherited waiter)
    (attained : ∀ node, inherited node = own node ∨
      ∃ waiter, waits waiter node ∧ inherited node = inherited waiter) (node : Node) :
    IsLeast {value | ∃ waiter, ReflTransGen waits waiter node ∧
      own waiter = value} (inherited node) := by
  have irrefl : Std.Irrefl (TransGen waits) := ⟨ranked.acyclic⟩
  have wellFounded : WellFounded (TransGen waits) := Finite.wellFounded_of_trans_of_irrefl _
  constructor
  · induction node using wellFounded.induction with
    | h node ih =>
      rcases attained node with equal | ⟨waiter, edge, equal⟩
      · exact ⟨node, refl, equal.symm⟩
      · rcases ih waiter (.single edge) with ⟨source, path, found⟩
        exact ⟨source, path.tail edge, found.trans equal.symm⟩
  · rintro value ⟨waiter, path, rfl⟩
    have below : inherited node ≤ inherited waiter := by
      induction path with
      | refl => exact le_refl _
      | tail _ edge ih =>
        exact le_trans (belowWaiter _ _ edge) ih
    exact le_trans below (belowOwn waiter)

end WaitGraph
