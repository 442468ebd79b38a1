import Mathlib.Data.List.Dedup
import Mathlib.Data.List.Sort
import TgosKits.Ext4.Node

/-!
# Extent trees

The state of a tree: its root in the inode, the inode's block count, the device, and
what was asked of the allocator and the journal.
-/

namespace TgosKits

open Failing ExtentGeometry BlockTree Ext4Error List

/-- `i_blocks` with its two halves joined, and the mark of huge files. -/
structure InodeBlocks where
  raw : Nat
  hugeFileFl : Bool
  deriving DecidableEq, Repr

namespace InodeBlocks

def maxRawBlockCount : Nat := 2 ^ 48 - 1

def blocksCount (inode : InodeBlocks) (blockSize : Nat) (hugeFileFeature : Bool) : Nat :=
  if !hugeFileFeature then inode.raw % 2 ^ 32
  else if inode.hugeFileFl then inode.raw * (blockSize / 512)
  else inode.raw

def setBlocksCount (sectors blockSize : Nat) (hugeFileFeature : Bool) :
    Except Ext4Error InodeBlocks :=
  if blockSize < 512 ∨ blockSize % 512 ≠ 0 then
    .error (invalidInput.withOperation "inode:set_blocks_count")
  else if sectors ≤ 2 ^ 32 - 1 then
    .ok ⟨sectors, false⟩
  else if !hugeFileFeature then
    .error (corrupted.withOperation "inode:set_blocks_count")
  else if sectors ≤ maxRawBlockCount then
    .ok ⟨sectors, false⟩
  else if sectors % (blockSize / 512) ≠ 0 then
    .error (corrupted.withOperation "inode:set_blocks_count")
  else if sectors / (blockSize / 512) > maxRawBlockCount then
    .error (fileTooLarge.withOperation "inode:set_blocks_count")
  else
    .ok ⟨sectors / (blockSize / 512), true⟩

end InodeBlocks

structure ExtentState where
  root : ExtentNode
  inodeBlocks : InodeBlocks
  device : Nat → Option ExtentNode
  /-- The requests made to the device, the allocator and the journal. -/
  requests : Nat
  freed : List Nat

inductive TransactionHandleExtension where
  | extended
  | restartRequired
  deriving DecidableEq, Repr

/-- What the file system around the tree answers. -/
structure ExtentServices where
  fault : Nat → Option Ext4Error
  alloc : Nat → Except Ext4Error Nat
  extend : Nat → Except Ext4Error (Option TransactionHandleExtension)

abbrev ExtentM := Failing ExtentState Ext4Error

inductive ExtentBlockMapping where
  | hole
  | initialized (block : Nat)
  | unwritten (block : Nat)
  deriving DecidableEq, Repr

/-! ## Readers -/

section

variable (geometry : ExtentGeometry) (device : Nat → Option ExtentNode)

def findInLeaf : List Ext4Extent → Nat → Except Ext4Error (Option Ext4Extent)
  | [], _ => .ok none
  | extent :: rest, lblock =>
    if extent.eeBlock + extent.len ≥ 2 ^ 32 then
      .error (corrupted.withOperation "extent:logical_overflow")
    else if lblock ≥ extent.eeBlock ∧ lblock < extent.eeBlock + extent.len then
      .ok (some extent)
    else
      findInLeaf rest lblock

/-- `find_in_node`; the depth of the node is enough fuel. -/
def findInNode : Nat → ExtentNode → Nat → Except Ext4Error (Option Ext4Extent)
  | _, .leaf _ entries, lblock => findInLeaf entries lblock
  | 0, .index _ _, _ => .error .corrupted
  | depth + 1, .index header entries, lblock =>
    match entries[slot entries lblock]? with
    | none => .error .corrupted
    | some chosen =>
      match geometry.readChildNode device chosen (header.ehDepth - 1) with
      | .error error => .error error
      | .ok child => findInNode depth child lblock

def collectExtents : Nat → ExtentNode → Except Ext4Error (List Ext4Extent)
  | _, .leaf _ entries => .ok entries
  | 0, .index _ _ => .error .corrupted
  | depth + 1, .index header entries => do
    let lists ← entries.mapM fun index =>
      (geometry.readChildNode device index (header.ehDepth - 1)).bind fun child =>
        collectExtents depth child
    return lists.flatten

def walkBlocks : Nat → ExtentNode → Except Ext4Error (List Nat)
  | _, .leaf _ _ => .ok []
  | 0, .index _ _ => .error .corrupted
  | depth + 1, .index header entries => do
    let lists ← entries.mapM fun index =>
      (geometry.readChildNode device index (header.ehDepth - 1)).bind fun child =>
        (walkBlocks depth child).map (index.block :: ·)
    return lists.flatten

end

namespace ExtentState

variable (geometry : ExtentGeometry) (state : ExtentState)

def findExtent (lblock : Nat) : Except Ext4Error (Option Ext4Extent) :=
  match geometry.loadRoot state.root with
  | .error error => .error error
  | .ok root =>
    findInNode geometry state.device root.header.ehDepth root lblock

/-- `map_block`, from the inode's root down. -/
def mapBlock (lblock : Nat) : Except Ext4Error ExtentBlockMapping :=
  match state.findExtent geometry lblock with
  | .error error => .error error
  | .ok none => .ok .hole
  | .ok (some extent) =>
    if lblock < extent.eeBlock then
      .error (corrupted.withOperation "extent:mapping_offset")
    else if extent.startBlock + (lblock - extent.eeBlock) ≥ 2 ^ 64 then
      .error .overflow
    else if extent.isUnwritten then
      .ok (.unwritten (extent.startBlock + (lblock - extent.eeBlock)))
    else
      .ok (.initialized (extent.startBlock + (lblock - extent.eeBlock)))

def allExtents : Except Ext4Error (List Ext4Extent) :=
  match geometry.loadRoot state.root with
  | .error error => .error error
  | .ok root => collectExtents geometry state.device root.header.ehDepth root

def externalNodeBlocks : Except Ext4Error (List Nat) :=
  match geometry.loadRoot state.root with
  | .error error => .error error
  | .ok root =>
    match walkBlocks geometry state.device root.header.ehDepth root with
    | .error error => .error error
    | .ok blocks => .ok (blocks.mergeSort.dedup)

end ExtentState

/-! ## Requests and writers -/

namespace ExtentM

variable (geometry : ExtentGeometry) (services : ExtentServices)

/-- A request that succeeds or reports the fault that is due. -/
def attempt : ExtentM Unit := fun state =>
  let state' := { state with requests := state.requests + 1 }
  match services.fault state.requests with
  | none => (.ok (), state')
  | some error => (.error error, state')

def allocBlock : ExtentM Nat := fun state =>
  (services.alloc state.requests, { state with requests := state.requests + 1 })

def freeBlock (block : Nat) : ExtentM Unit := do
  attempt services
  update fun state => { state with freed := state.freed ++ [block] }

def extendCredits : ExtentM (Option TransactionHandleExtension) := fun state =>
  (services.extend state.requests, { state with requests := state.requests + 1 })

/-- The sectors of the inode after `change`, as `set_blocks_count` encodes
them. -/
def nextBlocks (change : Nat → Option Nat) (error : Ext4Error) : ExtentM InodeBlocks := fun state =>
  let current := state.inodeBlocks.blocksCount geometry.blockSize geometry.hugeFile
  match change current with
  | none => (.error error, state)
  | some next =>
    (InodeBlocks.setBlocksCount next geometry.blockSize geometry.hugeFile, state)

def setInodeBlocks (inodeBlocks : InodeBlocks) : ExtentM Unit :=
  update fun state => { state with inodeBlocks }

def addSectors (sectors current : Nat) : Option Nat :=
  if current + sectors < 2 ^ 64 then some (current + sectors) else none

def subSectors (sectors current : Nat) : Option Nat :=
  if sectors ≤ current then some (current - sectors) else none

def canAddInodeSectorsForBlock : ExtentM Unit := do
  let _ ← nextBlocks geometry (addSectors (geometry.blockSize / 512)) .overflow

def addInodeSectorsForBlock : ExtentM Unit := do
  let next ← nextBlocks geometry (addSectors (geometry.blockSize / 512)) .overflow
  setInodeBlocks next

def canSubInodeSectorsForBlocks (blocks : Nat) : ExtentM Unit := do
  let sectors := blocks * (geometry.blockSize / 512)
  if sectors ≥ 2 ^ 64 then
    fail .overflow
  else do
    let _ ← nextBlocks geometry (subSectors sectors)
      (corrupted.withOperation "extent:sub_inode_blocks")

def subInodeSectorsForBlock : ExtentM Unit := do
  let next ← nextBlocks geometry (subSectors (geometry.blockSize / 512))
    (corrupted.withOperation "extent:sub_inode_blocks")
  setInodeBlocks next

def allocNodeBlock : ExtentM Nat := do
  canAddInodeSectorsForBlock geometry
  let block ← allocBlock services
  addInodeSectorsForBlock geometry
  return block

def writeNodeToBlock (block : Nat) (node : ExtentNode) : ExtentM Unit :=
  if node.count > geometry.calcBlockEhMax then
    fail (corrupted.withOperation "extent:node_capacity")
  else do
    lift (geometry.validateNode node none none geometry.deviceBlocks false)
    attempt services
    update fun state => { state with
      device := Function.update state.device block
        (some (node.withMax geometry.calcBlockEhMax)) }

/-- A node that lies in a block is written there; the root is kept for its
caller. -/
def writeBack (phyBlock : Option Nat) (node : ExtentNode) : ExtentM Unit :=
  match phyBlock with
  | some block => writeNodeToBlock geometry services block node
  | none => pure ()

def storeRootToInode (node : ExtentNode) : ExtentM Unit := do
  lift (geometry.validateNode node none none geometry.filesystemBlocks true)
  update fun state => { state with root := node }

def loadRoot : ExtentM ExtentNode := fun state =>
  (geometry.loadRoot state.root, state)

def readChildNode (index : Ext4ExtentIdx) (expectedDepth : Nat) : ExtentM ExtentNode := fun state =>
  (geometry.readChildNode state.device index expectedDepth, state)

/-- The part of `collapse_external_root_child` that is undone when it fails. -/
def collapseRootChild (childBlock : Nat) (child : ExtentNode) : ExtentM Unit := do
  storeRootToInode geometry (child.withMax inlineEhMax)
  attempt services
  freeBlock services childBlock
  subInodeSectorsForBlock geometry

def collapseExternalRootChild (childBlock : Nat) (child : ExtentNode) : ExtentM Bool :=
  if child.count > inlineEhMax then
    pure false
  else do
    canSubInodeSectorsForBlocks geometry 1
    fun state =>
      match collapseRootChild geometry services childBlock child state with
      | (.ok (), state') => (.ok true, state')
      | (.error error, state') =>
        (.error error,
          { state' with root := state.root, inodeBlocks := state.inodeBlocks })

end ExtentM

/-! ## What the writers do -/

namespace ExtentM

variable {geometry : ExtentGeometry} {services : ExtentServices} {node child : ExtentNode}
  {block : Nat} {state state' : ExtentState} {change : Nat → Option Nat} {error : Ext4Error}

private theorem attempt_eq_ok_iff : attempt services state = (.ok (), state') ↔
      services.fault state.requests = none ∧
        state' = { state with requests := state.requests + 1 } := by
  unfold attempt
  cases services.fault state.requests with
  | none => simp [eq_comm]
  | some error => simp

theorem nextBlocks_state {outcome : Except Ext4Error InodeBlocks}
    (ran : nextBlocks geometry change error state = (outcome, state')) : state' = state := by
  unfold nextBlocks at ran
  simp only at ran
  split at ran <;> exact (congrArg Prod.snd ran).symm

/-- Sectors are added to the inode or subtracted from it. -/
private theorem inodeSectors_ok
    (ran : (nextBlocks geometry change error >>= setInodeBlocks) state = (.ok (), state')) :
    ∃ inodeBlocks, state' = { state with inodeBlocks } := by
  rcases bind_eq_ok_iff.mp ran with ⟨inodeBlocks, middle, next, done⟩
  cases nextBlocks_state next
  cases done
  exact ⟨inodeBlocks, rfl⟩

theorem allocNodeBlock_ok (ran : allocNodeBlock geometry services state = (.ok block, state')) :
    services.alloc state.requests = .ok block ∧ ∃ inodeBlocks,
      state' = { state with requests := state.requests + 1, inodeBlocks } := by
  rcases bind_eq_ok_iff.mp ran with ⟨_, middle, can, ran⟩
  rcases bind_eq_ok_iff.mp can with ⟨_, _, next, done⟩
  cases done
  cases nextBlocks_state next
  rcases bind_eq_ok_iff.mp ran with ⟨found, middle, alloc, ran⟩
  rcases bind_eq_ok_iff.mp ran with ⟨_, middle', add, done⟩
  cases done
  rw [allocBlock, Prod.mk.injEq] at alloc
  rcases alloc with ⟨allocated, rfl⟩
  rcases inodeSectors_ok add with ⟨inodeBlocks, rfl⟩
  exact ⟨allocated, inodeBlocks, rfl⟩

theorem writeNodeToBlock_ok
    (ran : writeNodeToBlock geometry services block node state = (.ok (), state')) :
    node.Valid geometry geometry.deviceBlocks geometry.calcBlockEhMax ∧ state' = { state with
        requests := state.requests + 1
        device := Function.update state.device block
          (some (node.withMax geometry.calcBlockEhMax)) } := by
  unfold writeNodeToBlock at ran
  split_ifs at ran with full
  · cases ran
  rcases lift_bind_eq_ok_iff.mp ran with ⟨_, valid, ran⟩
  rcases bind_eq_ok_iff.mp ran with ⟨_, middle, wrote, done⟩
  cases done
  rw [attempt_eq_ok_iff] at wrote
  rw [wrote.2]
  exact ⟨(validateNode_eq_ok_iff.mp valid).2.1, rfl⟩

theorem storeRootToInode_ok (ran : storeRootToInode geometry node state = (.ok (), state')) :
    node.Valid geometry geometry.deviceBlocks inlineEhMax ∧
      state' = { state with root := node } := by
  rcases lift_bind_eq_ok_iff.mp ran with ⟨_, valid, done⟩
  cases done
  exact ⟨(validateNode_eq_ok_iff.mp valid).2.1.onDevice, rfl⟩

theorem readChildNode_bind {Result : Type} {index : Ext4ExtentIdx} {depth : Nat}
    {next : ExtentNode → ExtentM Result}
    (read : geometry.readChildNode state.device index depth = .ok child) :
    (readChildNode geometry index depth >>= next) state = next child state :=
  bind_of_ok (by rw [readChildNode, read])

end ExtentM

/-! ## What the readers find -/

section

variable {geometry : ExtentGeometry} {device : Nat → Option ExtentNode} {node : ExtentNode}
  {index : Ext4ExtentIdx} {depth lo hi next lblock : Nat} {Value Result : Type}
  {values : List Value} {read : Value → Except Ext4Error Result}

theorem mapM_eq_ok {result : Value → Result}
    (each : ∀ value ∈ values, read value = .ok (result value)) :
    values.mapM read = .ok (values.map result) := by
  induction values with
  | nil => rfl
  | cons value values ih =>
    rw [mapM_cons, each value mem_cons_self,
      ih fun other member => each other (mem_cons_of_mem _ member)]
    rfl

theorem readChildNode_of_mem {header : Ext4ExtentHeader} {entries : List Ext4ExtentIdx}
    (sound : (extentTree geometry).Sound device (depth + 1) (.index header entries) lo hi)
    (valid : (ExtentNode.index header entries).ValidEntries geometry geometry.deviceBlocks)
    (member : index ∈ entries) :
    ∃ child next, geometry.readChildNode device index depth = .ok child ∧
      device index.block = some child ∧ geometry.Accepts depth index child ∧
      (extentTree geometry).Sound device depth child index.key next := by
  rcases ((sound_index rfl).mp sound).2.exists_next member with
    ⟨next, _, child, stored, accepted, childSound⟩
  exact ⟨child, next, readChildNode_eq_ok_iff.mpr ⟨valid.2.2 index member, stored, accepted⟩,
    stored, accepted, childSound⟩

theorem exists_leaf_of_sound (sound : (extentTree geometry).Sound device 0 node lo hi) :
    ∃ header entries, node = .leaf header entries := by
  rcases sound.exists_leaf with ⟨items, shape⟩
  cases node with
  | leaf header entries => exact ⟨header, entries, rfl⟩
  | index header entries => cases shape

theorem exists_index_of_sound (sound : (extentTree geometry).Sound device (depth + 1) node lo hi) :
    ∃ header entries, node = .index header entries := by
  rcases sound.exists_index with ⟨items, shape⟩
  cases node with
  | leaf header entries => cases shape
  | index header entries => exact ⟨header, entries, rfl⟩

section

variable (sound : (extentTree geometry).Sound device depth node lo hi)
  (depthEq : node.header.ehDepth = depth) (valid : node.ValidEntries geometry geometry.deviceBlocks)
include sound depthEq valid

theorem collectExtents_eq : collectExtents geometry device depth node =
      .ok ((extentTree geometry).contents device depth node) := by
  induction depth generalizing node lo hi with
  | zero =>
    rcases exists_leaf_of_sound sound with ⟨header, entries, rfl⟩
    rfl
  | succ depth ih =>
    rcases exists_index_of_sound sound with ⟨header, entries, rfl⟩
    have below : header.ehDepth - 1 = depth := congrArg (· - 1) depthEq
    rw [collectExtents, contents_index rfl, below, mapM_eq_ok]
    · rfl
    · intro index member
      rcases readChildNode_of_mem sound valid member with
        ⟨child, next, ran, stored, accepted, childSound⟩
      rw [ran, gather_of_some stored]
      exact ih childSound accepted.depth_eq accepted.valid.entries

theorem walkBlocks_eq : walkBlocks geometry device depth node =
      .ok ((extentTree geometry).blocks device depth node) := by
  induction depth generalizing node lo hi with
  | zero =>
    rcases exists_leaf_of_sound sound with ⟨header, entries, rfl⟩
    rfl
  | succ depth ih =>
    rcases exists_index_of_sound sound with ⟨header, entries, rfl⟩
    have below : header.ehDepth - 1 = depth := congrArg (· - 1) depthEq
    rw [walkBlocks, blocks_index rfl, below, mapM_eq_ok]
    · rfl
    · intro index member
      rcases readChildNode_of_mem sound valid member with
        ⟨child, next, ran, stored, accepted, childSound⟩
      rw [ran, branch, gather_of_some stored, Except.bind,
        ih childSound accepted.depth_eq accepted.valid.entries]
      rfl

end

private theorem findInLeaf_eq {entries : List Ext4Extent}
    (valid : ∀ extent ∈ entries, extent.eeBlock + extent.len < 2 ^ 32) :
    findInLeaf entries lblock = .ok (entries.find? ((extentTree geometry).covers lblock)) := by
  induction entries with
  | nil => rfl
  | cons extent rest ih =>
    have fits := valid extent mem_cons_self
    rw [findInLeaf, if_neg (by omega), find?_cons]
    by_cases covered : lblock ≥ extent.eeBlock ∧ lblock < extent.eeBlock + extent.len
    · have hit : (extentTree geometry).covers lblock extent = true := covers_iff.mpr covered
      rw [if_pos covered, hit]
    have miss : (extentTree geometry).covers lblock extent = false := by
      rw [← Bool.not_eq_true, covers_iff]
      exact covered
    rw [if_neg covered, miss]
    exact ih fun other member => valid other (mem_cons_of_mem _ member)

variable (sound : (extentTree geometry).Sound device depth node lo hi)
  (valid : node.ValidEntries geometry geometry.deviceBlocks)
include sound valid

theorem findInNode_eq (depthEq : node.header.ehDepth = depth) :
    findInNode geometry device depth node lblock =
      .ok ((extentTree geometry).find device depth node lblock) := by
  induction depth generalizing node lo hi with
  | zero =>
    rcases exists_leaf_of_sound sound with ⟨header, entries, rfl⟩
    exact findInLeaf_eq valid.1.logical
  | succ depth ih =>
    rcases exists_index_of_sound sound with ⟨header, entries, rfl⟩
    have below : header.ehDepth - 1 = depth := congrArg (· - 1) depthEq
    rcases exists_focus lblock valid.1 with ⟨pre, index, post, rfl, place, _⟩
    rcases readChildNode_of_mem sound valid (mem_append_right pre mem_cons_self) with
      ⟨child, next, ran, stored, accepted, childSound⟩
    rw [findInNode, find, extentTree_view_index, below]
    simp only [getElem?_focus place, ran, stored]
    exact ih childSound accepted.valid.entries accepted.depth_eq

theorem validatePhysicalRange_of_mem_contents {extent : Ext4Extent}
    (member : extent ∈ (extentTree geometry).contents device depth node) :
    geometry.validatePhysicalRange extent.startBlock extent.len geometry.deviceBlocks = .ok () := by
  induction depth generalizing node lo hi with
  | zero =>
    rcases exists_leaf_of_sound sound with ⟨header, entries, rfl⟩
    exact valid.2 extent member
  | succ depth ih =>
    rcases exists_index_of_sound sound with ⟨header, entries, rfl⟩
    rcases mem_flatMap.mp member with ⟨index, listed, inside⟩
    rcases readChildNode_of_mem sound valid listed with
      ⟨child, next, _, stored, accepted, childSound⟩
    rw [gather_of_some stored] at inside
    exact ih childSound accepted.valid.entries inside

end

/-! ## Trees in search order -/

def ExtentBlockMapping.ofMapping : Option (Nat × Bool) → ExtentBlockMapping
  | none => .hole
  | some (block, true) => .unwritten block
  | some (block, false) => .initialized block

namespace ExtentState

variable (geometry : ExtentGeometry) (state : ExtentState)

def extents : List Ext4Extent :=
  (extentTree geometry).contents state.device state.root.header.ehDepth state.root

def nodeBlocks : List Nat :=
  (extentTree geometry).blocks state.device state.root.header.ehDepth state.root

/-- Every node passes the reader's checks, and the extents below an index entry
end before the key of the next one. -/
structure InSearchOrder : Prop where
  kind : state.root.KindMatches
  valid : state.root.Valid geometry geometry.deviceBlocks inlineEhMax
  sound : (extentTree geometry).Sound state.device state.root.header.ehDepth state.root 0 (2 ^ 32)

variable {geometry state}

namespace InSearchOrder

variable (tree : state.InSearchOrder geometry) {lblock : Nat}
include tree

theorem loadRoot_eq : geometry.loadRoot state.root = .ok state.root :=
  loadRoot_eq_ok_iff.mpr ⟨rfl, tree.kind, tree.valid⟩

theorem loadRoot_bind {Result : Type} {next : ExtentNode → ExtentM Result} :
    (ExtentM.loadRoot geometry >>= next) state = next state.root state :=
  bind_of_ok (by rw [ExtentM.loadRoot, tree.loadRoot_eq])

theorem allExtents_eq : state.allExtents geometry = .ok (state.extents geometry) := by
  rw [allExtents, tree.loadRoot_eq]
  exact collectExtents_eq tree.sound rfl tree.valid.entries

/-- The walk lists the blocks of the nodes outside the inode in order, each of them once. -/
theorem externalNodeBlocks_ok : ∃ blocks, state.externalNodeBlocks geometry = .ok blocks ∧
    blocks.Pairwise (· < ·) ∧ ∀ block, block ∈ blocks ↔ block ∈ state.nodeBlocks geometry := by
  refine ⟨(state.nodeBlocks geometry).mergeSort.dedup, ?_, ?_, fun block => ?_⟩
  · rw [externalNodeBlocks, tree.loadRoot_eq]
    simp only [walkBlocks_eq tree.sound rfl tree.valid.entries]
    rfl
  · have sorted := (pairwise_mergeSort' (· ≤ ·) (state.nodeBlocks geometry)).sublist
      (dedup_sublist _)
    exact sorted.imp₂ (fun _ _ => lt_of_le_of_ne) (nodup_dedup _)
  · rw [mem_dedup, mem_mergeSort]

private theorem findExtent_eq (inside : lblock < 2 ^ 32) :
    state.findExtent geometry lblock = .ok ((state.extents geometry).find?
      ((extentTree geometry).covers lblock)) := by
  rw [findExtent, tree.loadRoot_eq]
  simp only [findInNode_eq tree.sound tree.valid.entries rfl, tree.sound.find_eq inside]
  rfl

theorem mapBlock_eq (inside : lblock < 2 ^ 32) : state.mapBlock geometry lblock =
      .ok (.ofMapping (mappingOf (state.extents geometry) lblock)) := by
  have mapping : mappingOf (state.extents geometry) lblock =
      ((state.extents geometry).find? ((extentTree geometry).covers lblock)).map
        fun extent => extent.run.value lblock := by
    unfold mappingOf RunMap.lookup
    rw [find?_map, Option.map_map]
    rfl
  rw [mapBlock, tree.findExtent_eq inside, mapping]
  cases found : (state.extents geometry).find? ((extentTree geometry).covers lblock) with
  | none => rfl
  | some extent =>
    have range := validatePhysicalRange_of_mem_contents tree.sound
      tree.valid.entries (mem_of_find?_eq_some found)
    have covered := covers_iff.mp (find?_some found)
    have bounded := lt_of_validatePhysicalRange range
    have upper : lblock < extent.eeBlock + extent.len := covered.2
    have lower : extent.eeBlock ≤ lblock := covered.1
    simp only [if_neg (not_lt.mpr lower)]
    rw [if_neg (by omega)]
    cases state : extent.isUnwritten <;>
      simp [Run.value, ExtentBlockMapping.ofMapping, state, Ext4Extent.startBlock]

end InSearchOrder

end ExtentState

end TgosKits
