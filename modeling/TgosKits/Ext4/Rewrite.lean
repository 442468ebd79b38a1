import TgosKits.Ext4.Grow
import TgosKits.Ext4.Merge

/-! # Rewriting the nodes on a path -/

namespace TgosKits

open BlockTree List

def ExtentNode.InRange (geometry : ExtentGeometry) : ExtentNode → Prop
  | .leaf _ entries => ∀ extent ∈ entries,
    geometry.validatePhysicalRange extent.startBlock extent.len geometry.deviceBlocks = .ok ()
  | .index _ entries => ∀ index ∈ entries,
    geometry.validatePhysicalRange index.block 1 geometry.deviceBlocks = .ok ()

/-- What a step can rely on at a node of the path. -/
structure NodeReady (geometry : ExtentGeometry) (used : List Nat)
    (state : ExtentState) (depth : Nat) (node : ExtentNode)
    (phyBlock : Option Nat) (lo hi : Nat) : Prop where
  kind : node.KindMatches
  depth_eq : node.header.ehDepth = depth
  sound : (extentTree geometry).Sound state.device depth node lo hi
  inRange : node.InRange geometry
  inUse : ∀ block ∈ phyBlock.toList ++
    (extentTree geometry).blocks state.device depth node, block ∈ used
  onDisk : ∀ block ∈ phyBlock, HoldsNode geometry state.device block node node

/-- A block with a node whose first key lies in `[lo, hi)`. -/
def Touched (device : Nat → Option ExtentNode) (lo hi block : Nat) : Prop :=
  ∃ node key, device block = some node ∧ node.firstKey = some key ∧ lo ≤ key ∧ key < hi

/-- A change of extents inside `[start, stop)` that does not see the extents around
it. -/
def LocalChange (start stop : Nat) (change : List Ext4Extent → List Ext4Extent → Prop) : Prop :=
  ∀ {lo hi : Nat} {before old new after : List Ext4Extent},
    ExtentsIn lo start before → ExtentsIn stop hi after → change old new →
    change (before ++ (old ++ after)) (before ++ (new ++ after))

variable {geometry : ExtentGeometry} {services : ExtentServices} {state state' : ExtentState}
  {header : Ext4ExtentHeader} {node child : ExtentNode} {used : List Nat} {phyBlock : Option Nat}
  {pre post : List Ext4ExtentIdx} {entry : Ext4ExtentIdx} {block depth lo lo' hi hi' : Nat}

theorem ExtentNode.ValidEntries.inRange (valid : node.ValidEntries geometry geometry.deviceBlocks) :
    node.InRange geometry := by
  cases node with
  | leaf header entries => exact valid.2
  | index header entries => exact valid.2.2

theorem Touched.mono {device : Nat → Option ExtentNode} (touched : Touched device lo hi block)
    (lower : lo' ≤ lo) (upper : hi ≤ hi') : Touched device lo' hi' block := by
  rcases touched with ⟨node, key, stored, first, low, high⟩
  exact ⟨node, key, stored, first, by omega, by omega⟩

section

variable (ready : NodeReady geometry used state depth node phyBlock lo hi)
  (isOwn : block ∈ phyBlock)
include ready isOwn

theorem NodeReady.own_inUse : block ∈ used :=
  ready.inUse block (mem_append_left _ (Option.mem_toList.mpr isOwn))

theorem NodeReady.own_not_below : block ∉ (extentTree geometry).blocks state.device depth node := by
  cases depth with
  | zero => exact not_mem_nil
  | succ depth =>
    have held := ready.onDisk block isOwn
    rcases exists_index_of_sound ready.sound with ⟨header, indexes, rfl⟩
    have nonempty : indexes ≠ [] := held.valid.entries.1
    rcases exists_cons_of_ne_nil nonempty with ⟨first, rest, rfl⟩
    intro member
    rcases ready.sound.exists_entry member with
      ⟨depth'', _, found, shallow, storedFound, acceptedFound, _⟩
    cases held.stored.symm.trans storedFound
    have same := (extentTree geometry).accepts_depth (held.accepts ready.depth_eq rfl) acceptedFound
    omega

theorem NodeReady.own_fresh {low high : Nat} (allocator : AllocatesUnused geometry services used) :
    block ∈ used ∧ ¬ (block ∈ (extentTree geometry).blocks state.device depth node ∨
      Allocated services low high block) := by
  refine ⟨ready.own_inUse isOwn, ?_⟩
  rintro (member | allocated)
  · exact ready.own_not_below isOwn member
  · exact allocator.not_allocated (ready.own_inUse isOwn) allocated

theorem NodeReady.own_touched {key : Nat} (first : node.firstKey = some key) :
    Touched state.device lo hi block := by
  rcases ready.sound.tighten (extentTree_firstKey.trans first) with ⟨_, lower, upper⟩
  exact ⟨node, key, (ready.onDisk block isOwn).stored, first, lower, upper⟩

end

variable (ready : NodeReady geometry used state (depth + 1) (.index header (pre ++ entry :: post))
  phyBlock lo hi)
include ready

theorem NodeReady.exists_child : ∃ child, state.device entry.block = some child ∧
      geometry.readChildNode state.device entry depth = .ok child ∧
      geometry.Accepts depth entry child ∧
      NodeReady geometry used state depth child (some entry.block) entry.key (bound post hi) := by
  rcases (ready.sound.focus rfl).2.1 with ⟨_, child, stored, accepted, sound⟩
  have read := ExtentGeometry.readChildNode_eq_ok_iff.mpr
    ⟨ready.inRange entry (by simp), stored, accepted⟩
  refine ⟨child, stored, read, accepted, accepted.kind, accepted.depth_eq, sound,
    accepted.valid.entries.inRange, ?_, ?_⟩
  · intro block inside
    refine ready.inUse block (mem_append_right _ ?_)
    rw [blocks_focus rfl stored]
    exact mem_append_right _ (mem_append_left _ inside)
  · intro block isOwn
    cases isOwn
    exact ⟨stored, rfl, accepted.kind, rfl, accepted.valid⟩

theorem NodeReady.kept
    (same : ∀ block ∈ used, ¬ Touched state.device entry.key (bound post hi) block →
      state'.device block = state.device block) :
    (extentTree geometry).Spares state.device state'.device depth (pre ++ post) := by
  rcases ready.sound.focus rfl with ⟨before, _, behind⟩
  intro other member block inside
  have listed : other ∈ pre ++ entry :: post := by
    rcases mem_append.mp member with member | member
    · exact mem_append_left _ member
    · exact mem_append_right _ (mem_cons_of_mem _ member)
  refine same block (ready.inUse block (mem_append_right _ ?_)) ?_
  · rw [blocks_index rfl]
    exact mem_flatMap.mpr ⟨other, listed, inside⟩
  · rintro ⟨node, key, stored, first, lower, upper⟩
    have isFirst : (extentTree geometry).firstKey node = some key := extentTree_firstKey.trans first
    rcases mem_append.mp member with member | member
    · exact before.not_mem_of_key stored isFirst (.inr lower) member inside
    · exact behind.not_mem_of_key stored isFirst (.inl upper) member inside

end TgosKits
