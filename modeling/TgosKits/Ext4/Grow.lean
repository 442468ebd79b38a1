import TgosKits.Ext4.Tree
import TgosKits.Library.TreeGrow

/-! # Nodes that grow -/

namespace TgosKits

open ExtentNode Failing Function Ext4ExtentIdx

structure SplitInfo where
  startBlock : Nat
  phyBlock : Nat
  deriving DecidableEq, Repr

def SplitInfo.index (split : SplitInfo) : Ext4ExtentIdx := new split.startBlock split.phyBlock

namespace ExtentNode

def leafOf (header : Ext4ExtentHeader) (entries : List Ext4Extent) : ExtentNode :=
  .leaf { header with ehEntries := entries.length % 2 ^ 16 } entries

def indexOf (header : Ext4ExtentHeader) (entries : List Ext4ExtentIdx) : ExtentNode :=
  .index { header with ehEntries := entries.length % 2 ^ 16 } entries

def lowerHalf : ExtentNode → ExtentNode
  | .leaf header entries => leafOf header (entries.take (entries.length / 2))
  | .index header entries => indexOf header (entries.take (entries.length / 2))

def upperHalf (ehMax : Nat) : ExtentNode → ExtentNode
  | .leaf _ entries =>
    leafOf ⟨Ext4ExtentHeader.ext4ExtMagic, 0, ehMax, 0⟩ (entries.drop (entries.length / 2))
  | .index header entries =>
    indexOf ⟨Ext4ExtentHeader.ext4ExtMagic, 0, ehMax, header.ehDepth⟩
      (entries.drop (entries.length / 2))

end ExtentNode

namespace ExtentM

variable (geometry : ExtentGeometry) (services : ExtentServices)

def splitNode (left right : ExtentNode) (splitKey : Except Ext4Error Nat)
    (phyBlock : Option Nat) : ExtentM SplitInfo := do
  let newPhyBlock ← allocNodeBlock geometry services
  writeNodeToBlock geometry services newPhyBlock right
  writeBack geometry services phyBlock left
  let startBlock ← lift splitKey
  return ⟨startBlock, newPhyBlock⟩

/-- A rewritten node is written back if it fits, and split if it does not. -/
def settle (splitKey : ExtentNode → Except Ext4Error Nat) (node : ExtentNode)
    (phyBlock : Option Nat) : ExtentM (ExtentNode × Option SplitInfo) :=
  if node.count ≤ node.header.ehMax then do
    writeBack geometry services phyBlock node
    return (node, none)
  else do
    let right := node.upperHalf geometry.calcBlockEhMax
    let split ← splitNode geometry services node.lowerHalf right (splitKey right) phyBlock
    return (node.lowerHalf, some split)

/-- `promote_split_root`; insertion does the same in place. -/
def promoteSplitRoot (leftRoot : ExtentNode) (right : SplitInfo) : ExtentM Unit := do
  let leftBlock ← allocNodeBlock geometry services
  writeNodeToBlock geometry services leftBlock leftRoot
  if leftRoot.header.ehDepth + 1 > ExtentGeometry.maxDepth then
    fail (Ext4Error.corrupted.withOperation "extent:depth_overflow")
  else
    storeRootToInode geometry (.index ⟨Ext4ExtentHeader.ext4ExtMagic, 2, ExtentGeometry.inlineEhMax,
          leftRoot.header.ehDepth + 1⟩
        [new leftRoot.startBlock leftBlock, right.index])

end ExtentM

/-! ## Halves -/

namespace ExtentNode

variable {geometry : ExtentGeometry} {device : Nat → Option ExtentNode}
  {node : ExtentNode} {depth lo hi ehMax : Nat} {known : Nat → Prop}

theorem KindMatches.lowerHalf (kind : node.KindMatches) : node.lowerHalf.KindMatches := by
  cases node <;> exact kind

theorem KindMatches.upperHalf (kind : node.KindMatches) : (node.upperHalf ehMax).KindMatches := by
  cases node with
  | leaf header entries => rfl
  | index header entries => exact kind

@[simp]
theorem ehDepth_lowerHalf : node.lowerHalf.header.ehDepth = node.header.ehDepth := by
  cases node <;> rfl

theorem ehDepth_upperHalf (kind : node.KindMatches) :
    (node.upperHalf ehMax).header.ehDepth = node.header.ehDepth := by
  cases node with
  | leaf header entries => exact .symm kind
  | index header entries => rfl

theorem firstKey_lowerHalf (many : 1 < node.count) : node.lowerHalf.firstKey = node.firstKey := by
  cases node with
  | leaf header entries =>
    have many : 1 < entries.length := many
    simp only [lowerHalf, leafOf, firstKey, List.head?_take]
    rw [if_neg (by omega)]
  | index header entries =>
    have many : 1 < entries.length := many
    simp only [lowerHalf, indexOf, firstKey, List.head?_take]
    rw [if_neg (by omega)]

theorem exists_upper_half {Entry : Type} {entries : List Entry} (nonempty : 0 < entries.length) :
    ∃ first rest, entries.drop (entries.length / 2) = first :: rest ∧
      entries.take (entries.length / 2) ++ first :: rest = entries := by
  have remain : entries.drop (entries.length / 2) ≠ [] := by
    rw [ne_eq, List.drop_eq_nil_iff]
    omega
  rcases List.exists_cons_of_ne_nil remain with ⟨first, rest, shape⟩
  exact ⟨first, rest, shape, shape ▸ List.take_append_drop ..⟩

theorem exists_halves (sound : (extentTree geometry).Sound device depth node lo hi)
    (nonempty : 0 < node.count)
    (knows : ∀ block ∈ (extentTree geometry).blocks device depth node, known block) :
    ∃ key, (extentTree geometry).Halves device depth node.lowerHalf (node.upperHalf ehMax) key lo hi
      ((extentTree geometry).contents device depth node) known := by
  cases depth with
  | zero =>
    rcases exists_leaf_of_sound sound with ⟨header, entries, rfl⟩
    rcases exists_upper_half nonempty with ⟨extent, extents, shape, cut⟩
    have whole : (extentTree geometry).view (.leaf header entries) =
        .leaf (entries.take (entries.length / 2) ++ extent :: extents) := by
      rw [cut]
      rfl
    refine ⟨extent.eeBlock, sound.leafHalves whole rfl ?_⟩
    rw [upperHalf, shape]
    rfl
  | succ depth =>
    rcases exists_index_of_sound sound with ⟨header, entries, rfl⟩
    rcases exists_upper_half nonempty with ⟨index, indexes, shape, cut⟩
    have whole : (extentTree geometry).view (.index header entries) =
        .index (entries.take (entries.length / 2) ++ index :: indexes) := by
      rw [cut]
      rfl
    refine ⟨index.key, sound.indexHalves whole rfl ?_ knows⟩
    rw [upperHalf, shape]
    rfl

end ExtentNode

/-! ## Growth -/

/-- The allocator handed the block out between two requests. -/
def Allocated (services : ExtentServices) (low high block : Nat) : Prop :=
  ∃ request, low ≤ request ∧ request < high ∧ services.alloc request = .ok block

/-- The allocator hands out blocks of the filesystem that are not in use, each
one once. -/
structure AllocatesUnused (geometry : ExtentGeometry) (services : ExtentServices)
    (used : List Nat) : Prop where
  inside : ∀ request block, services.alloc request = .ok block → block < geometry.filesystemBlocks
  unused : ∀ request block, services.alloc request = .ok block → block ∉ used
  distinct : ∀ request request' block, services.alloc request = .ok block →
    services.alloc request' = .ok block → request = request'

/-- The block holds the node, under a header the reader accepts. -/
structure HoldsNode (geometry : ExtentGeometry) (device : Nat → Option ExtentNode)
    (block : Nat) (node disk : ExtentNode) : Prop where
  stored : device block = some disk
  view : (extentTree geometry).view disk = (extentTree geometry).view node
  kind : disk.KindMatches
  depth_eq : disk.header.ehDepth = node.header.ehDepth
  valid : disk.Valid geometry geometry.deviceBlocks geometry.calcBlockEhMax

/-- A node was rewritten, in memory and in its block. -/
structure Grown (geometry : ExtentGeometry) (services : ExtentServices)
    (state state' : ExtentState) (depth : Nat) (node : ExtentNode)
    (split : Option SplitInfo) (lo hi : Nat) (extents : List Ext4Extent)
    (known : Nat → Prop) : Prop where
  kind : node.KindMatches
  depth_eq : node.header.ehDepth = depth
  requests_le : state.requests ≤ state'.requests
  root_eq : state'.root = state.root
  freed_eq : state'.freed = state.freed
  regrown : (extentTree geometry).Regrown state'.device depth node
    (split.toList.map SplitInfo.index) lo hi extents
    (fun block => known block ∨ Allocated services state.requests state'.requests block)

variable {geometry : ExtentGeometry} {services : ExtentServices} {state state' : ExtentState}
  {node node' disk : ExtentNode} {used : List Nat} {phyBlock : Option Nat}
  {split : Option SplitInfo} {block depth lo hi : Nat} {extents : List Ext4Extent}
  {known : Nat → Prop} {low high key : Nat}

theorem Allocated.mono {low' high' : Nat} (allocated : Allocated services low high block)
    (lower : low' ≤ low) (upper : high ≤ high') : Allocated services low' high' block := by
  rcases allocated with ⟨request, low, high, same⟩
  exact ⟨request, by omega, by omega, same⟩

theorem Grown.after {middle : ExtentState} {node₁ : ExtentNode} {split₁ : Option SplitInfo}
    {extents₁ : List Ext4Extent} {known₁ : Nat → Prop}
    (settled : Grown geometry services middle state' depth node split lo hi extents
      (fun block => known block ∨ Allocated services state.requests middle.requests block))
    (grown : Grown geometry services state middle key node₁ split₁ low high extents₁ known₁) :
    Grown geometry services state state' depth node split lo hi extents known := by
  have later := settled.requests_le
  have earlier := grown.requests_le
  refine ⟨settled.kind, settled.depth_eq, earlier.trans later,
    settled.root_eq.trans grown.root_eq, settled.freed_eq.trans grown.freed_eq,
    settled.regrown.weaken ?_⟩
  rintro block ((old | early) | late)
  · exact .inl old
  · exact .inr (early.mono le_rfl later)
  · exact .inr (late.mono earlier le_rfl)

section

variable (allocator : AllocatesUnused geometry services used)
include allocator

theorem AllocatesUnused.not_allocated (inUse : block ∈ used) :
    ¬ Allocated services low high block := by
  rintro ⟨request, _, _, allocated⟩
  exact allocator.unused request block allocated inUse

/-- The next block is neither in use nor handed out before. -/
theorem AllocatesUnused.fresh {blocks : List Nat} (inUse : ∀ block ∈ blocks, block ∈ used)
    (allocated : services.alloc high = .ok block) :
    ¬ (block ∈ blocks ∨ Allocated services low high block) := by
  rintro (member | ⟨request, _, early, again⟩)
  · exact allocator.unused _ block allocated (inUse block member)
  · have same := allocator.distinct _ _ block allocated again
    omega

end

theorem ExtentM.writeBack_ok
    (ran : ExtentM.writeBack geometry services phyBlock node state = (.ok (), state')) :
    state'.root = state.root ∧ state'.freed = state.freed ∧ state.requests ≤ state'.requests ∧
      (∀ block, block ∉ phyBlock → state'.device block = state.device block) ∧
      ∀ block ∈ phyBlock, node.Valid geometry geometry.deviceBlocks geometry.calcBlockEhMax ∧
        state'.device block = some (node.withMax geometry.calcBlockEhMax) := by
  cases phyBlock with
  | none =>
    cases ran
    exact ⟨rfl, rfl, le_rfl, fun _ _ => rfl, by simp⟩
  | some own =>
    rcases ExtentM.writeNodeToBlock_ok ran with ⟨valid, rfl⟩
    refine ⟨rfl, rfl, Nat.le_succ _, ?_, ?_⟩
    · intro block other
      refine update_of_ne ?_ _ _
      rintro rfl
      exact other rfl
    · intro block isOwn
      cases isOwn
      exact ⟨valid, update_self ..⟩

theorem HoldsNode.of_valid {device : Nat → Option ExtentNode} (kind : node.KindMatches)
    (valid : node.Valid geometry geometry.deviceBlocks geometry.calcBlockEhMax)
    (stored : device block = some (node.withMax geometry.calcBlockEhMax)) :
    HoldsNode geometry device block node (node.withMax geometry.calcBlockEhMax) :=
  ⟨stored, extentTree_view_withMax, kind.withMax, ehDepth_withMax,
    valid.withMax (valid.fits.trans valid.max_le) (valid.max_pos.trans_le valid.max_le) le_rfl⟩

theorem HoldsNode.accepts {device : Nat → Option ExtentNode}
    (holds : HoldsNode geometry device block node disk) (depthEq : node.header.ehDepth = depth)
    (first : node.firstKey = some key) : geometry.Accepts depth ⟨key, block⟩ disk := by
  refine ⟨holds.kind, holds.depth_eq.trans depthEq, holds.valid, ?_⟩
  intro found isFirst
  have same := BlockTree.firstKey_of_view holds.view
  rw [extentTree_firstKey, extentTree_firstKey, first] at same
  rw [same] at isFirst
  exact (Option.some.inj isFirst).symm

variable (allocator : AllocatesUnused geometry services used)
include allocator

theorem ExtentM.settle_grown {splitKey : ExtentNode → Except Ext4Error Nat}
    (keyed : ∀ node key, node.firstKey = some key → splitKey node = .ok key)
    (ran : ExtentM.settle geometry services splitKey node phyBlock state =
      (.ok (node', split), state')) (kind : node.KindMatches)
    (depthEq : node.header.ehDepth = depth) (capacity : 0 < node.header.ehMax)
    (sound : (extentTree geometry).Sound state.device depth node lo hi)
    (contents : (extentTree geometry).contents state.device depth node = extents)
    (knows : ∀ block ∈ (extentTree geometry).blocks state.device depth node, known block)
    (own : ∀ block ∈ phyBlock, block ∈ used ∧ ¬ known block)
    (fresh : ∀ block, services.alloc state.requests = .ok block → ¬ known block) :
    Grown geometry services state state' depth node' split lo hi extents known ∧
      (∀ block ∈ phyBlock, ∃ disk, HoldsNode geometry state'.device block node' disk) ∧
      (∀ block, block ∉ phyBlock → ¬ Allocated services state.requests state'.requests block →
        state'.device block = state.device block) ∧
      node'.firstKey = node.firstKey := by
  unfold settle at ran
  split_ifs at ran with fits
  · rcases bind_eq_ok_iff.mp ran with ⟨_, middle, wrote, done⟩
    cases done
    rcases writeBack_ok wrote with ⟨root, freed, requests, frame, disk⟩
    have regrown := BlockTree.Regrown.of_sound sound knows
    have same : ∀ block, known block → state'.device block = state.device block := by
      intro block isKnown
      exact frame block fun isOwn => (own block isOwn).2 isKnown
    rw [contents] at regrown
    refine ⟨⟨kind, depthEq, requests, root, freed,
      (regrown.congr same).weaken fun _ => .inl⟩, ?_, ?_, rfl⟩
    · intro block isOwn
      rcases disk block isOwn with ⟨valid, stored⟩
      exact ⟨_, .of_valid kind valid stored⟩
    · exact fun block other _ => frame block other
  · rcases bind_eq_ok_iff.mp ran with ⟨info, last, ran, done⟩
    cases done
    rcases bind_eq_ok_iff.mp ran with ⟨newBlock, first, alloc, ran⟩
    rcases bind_eq_ok_iff.mp ran with ⟨_, second, wroteRight, ran⟩
    rcases bind_eq_ok_iff.mp ran with ⟨_, third, wroteLeft, ran⟩
    rcases lift_bind_eq_ok_iff.mp ran with ⟨key, keyRan, done⟩
    cases done
    rcases allocNodeBlock_ok alloc with ⟨allocated, inodeBlocks, rfl⟩
    rcases writeNodeToBlock_ok wroteRight with ⟨validRight, rfl⟩
    rcases writeBack_ok wroteLeft with ⟨root, freed, requests, frame, disk⟩
    have requests : state.requests + 2 ≤ state'.requests := requests
    have nonempty : 0 < node.count := by omega
    rcases exists_halves sound nonempty knows with ⟨key', halves⟩
    have firstRight := halves.first
    rw [extentTree_firstKey] at firstRight
    obtain rfl : key = key' := by
      rw [keyed _ _ firstRight] at keyRan
      exact (Except.ok.inj keyRan).symm
    have isAllocated : Allocated services state.requests state'.requests
        newBlock := ⟨state.requests, le_rfl, by omega, allocated⟩
    have short : newBlock < Ext4Extent.physicalLimit :=
      (allocator.inside _ _ allocated).trans_le geometry.blocks_le
    have sameIndex : (SplitInfo.mk key newBlock).index = ⟨key, newBlock⟩ := by
      rw [SplitInfo.index, new, Nat.mod_eq_of_lt short]
    have rightAccepted := (HoldsNode.of_valid kind.upperHalf validRight
      (update_self newBlock _ state.device)).accepts ((ehDepth_upperHalf kind).trans depthEq)
      firstRight
    have regrown := halves.regrown (fresh _ allocated) extentTree_view_withMax rightAccepted
    have same : ∀ block, known block ∨ block = newBlock →
        state'.device block = update state.device newBlock
          (some ((node.upperHalf geometry.calcBlockEhMax).withMax
            geometry.calcBlockEhMax)) block := by
      intro block isKnown
      refine frame block fun isOwn => ?_
      rcases isKnown with isKnown | rfl
      · exact (own block isOwn).2 isKnown
      · exact allocator.unused _ _ allocated (own block isOwn).1
    rw [contents] at regrown
    refine ⟨⟨kind.lowerHalf, ehDepth_lowerHalf.trans depthEq,
      by omega, root, freed, ?_⟩, ?_, ?_, firstKey_lowerHalf (by omega)⟩
    · rw [Option.toList_some, List.map_singleton, sameIndex]
      refine (regrown.congr same).weaken fun block isKnown => ?_
      rcases isKnown with isKnown | rfl
      · exact .inl isKnown
      · exact .inr isAllocated
    · intro block isOwn
      rcases disk block isOwn with ⟨valid, stored⟩
      exact ⟨_, .of_valid kind.lowerHalf valid stored⟩
    · intro block other unallocated
      rw [frame block other]
      refine update_of_ne ?_ _ _
      rintro rfl
      exact unallocated isAllocated

theorem ExtentM.promoteSplitRoot_ok {info : SplitInfo}
    (ran : ExtentM.promoteSplitRoot geometry services node info state = (.ok (), state'))
    (kind : node.KindMatches) (depthEq : node.header.ehDepth = depth)
    (first : node.firstKey = some key)
    (regrown : (extentTree geometry).Regrown state.device depth node
      [info.index] 0 (2 ^ 32) extents known)
    (fresh : ∀ block, services.alloc state.requests = .ok block → ¬ known block) :
    state'.InSearchOrder geometry ∧ state'.extents geometry = extents := by
  rcases bind_eq_ok_iff.mp ran with ⟨leftBlock, second, alloc, ran⟩
  rcases bind_eq_ok_iff.mp ran with ⟨_, third, wrote, ran⟩
  split_ifs at ran with deep
  · cases ran
  rcases allocNodeBlock_ok alloc with ⟨allocated, inodeBlocks, rfl⟩
  rcases writeNodeToBlock_ok wrote with ⟨valid, rfl⟩
  rcases storeRootToInode_ok ran with ⟨rootValid, rfl⟩
  have short : leftBlock < Ext4Extent.physicalLimit :=
    (allocator.inside _ _ allocated).trans_le geometry.blocks_le
  have sameIndex : new node.startBlock leftBlock = ⟨key, leftBlock⟩ := by
    rw [new, Nat.mod_eq_of_lt short, startBlock_of_firstKey first]
  have same : ∀ block, known block → update state.device leftBlock
        (some (node.withMax geometry.calcBlockEhMax)) block =
      state.device block := by
    intro block isKnown
    refine update_of_ne ?_ _ _
    rintro rfl
    exact fresh _ allocated isKnown
  have stored : update state.device leftBlock
      (some (node.withMax geometry.calcBlockEhMax)) leftBlock =
      some (node.withMax geometry.calcBlockEhMax) := update_self ..
  have accepted := (HoldsNode.of_valid kind valid stored).accepts depthEq first
  have firstTree : (extentTree geometry).firstKey node = some key := extentTree_firstKey.trans first
  rcases (regrown.congr same).entries stored extentTree_view_withMax accepted
    firstTree with ⟨spans, contents, _⟩
  refine ⟨⟨Nat.succ_pos _, rootValid, ?_⟩, ?_⟩
  · rw [sameIndex, depthEq]
    exact (BlockTree.sound_index rfl).mpr ⟨Nat.zero_le _, spans⟩
  · rw [← contents, ExtentState.extents, sameIndex, depthEq]
    exact BlockTree.contents_index rfl

end TgosKits
