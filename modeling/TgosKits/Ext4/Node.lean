import TgosKits.Ext4.Extent
import TgosKits.Library.Failing
import TgosKits.Library.TreeEdit

/-!
# Extent-tree nodes

The root of an extent tree lies in the inode, every other node in a block of its
own.  Blocks are kept as the nodes their bytes stand for; a block with other bytes
holds no node.  Device, allocator and journal answer from a list of outcomes, one
for each request.
-/

namespace TgosKits

open Ext4Error Ext4Extent

structure Ext4ExtentHeader where
  ehMagic : Nat
  ehEntries : Nat
  ehMax : Nat
  ehDepth : Nat
  deriving DecidableEq, Repr

namespace Ext4ExtentHeader

def ext4ExtMagic : Nat := 0xF30A

def diskSize : Nat := 12

end Ext4ExtentHeader

def extentDiskSize : Nat := 12

/-- `Ext4ExtentIdx`: the key is `ei_block`, the block joins `ei_leaf_lo` and
`ei_leaf_hi`. -/
abbrev Ext4ExtentIdx := IndexEntry

/-- The index entry of a block; block numbers are cut to 48 bits. -/
def Ext4ExtentIdx.new (eiBlock leaf : Nat) : Ext4ExtentIdx := ⟨eiBlock, leaf % physicalLimit⟩

inductive ExtentNode where
  | leaf (header : Ext4ExtentHeader) (entries : List Ext4Extent)
  | index (header : Ext4ExtentHeader) (entries : List Ext4ExtentIdx)
  deriving DecidableEq, Repr

namespace ExtentNode

def header : ExtentNode → Ext4ExtentHeader
  | .leaf header _ => header
  | .index header _ => header

def withMax (ehMax : Nat) : ExtentNode → ExtentNode
  | .leaf header entries => .leaf { header with ehMax } entries
  | .index header entries => .index { header with ehMax } entries

def count : ExtentNode → Nat
  | .leaf _ entries => entries.length
  | .index _ entries => entries.length

def startBlock : ExtentNode → Nat
  | .leaf _ entries => (entries.head?.map eeBlock).getD 0
  | .index _ entries => (entries.head?.map IndexEntry.key).getD 0

end ExtentNode

structure SystemZone where
  start : Nat
  stop : Nat
  owner : Option Nat
  deriving DecidableEq, Repr

structure ExtentGeometry where
  blockSize : Nat
  firstDataBlock : Nat
  filesystemBlocks : Nat
  deviceBlocks : Nat
  inodeNum : Option Nat
  systemZones : List SystemZone
  hugeFile : Bool
  blocks_le : filesystemBlocks ≤ physicalLimit
  /-- A filesystem that is larger than its device is not mounted. -/
  device_covers : filesystemBlocks ≤ deviceBlocks

namespace ExtentGeometry

variable (geometry : ExtentGeometry)

def maxDepth : Nat := 5

def inlineBytes : Nat := 60

def calcBlockEhMax : Nat :=
  ((geometry.blockSize - Ext4ExtentHeader.diskSize) / extentDiskSize) % 2 ^ 16

def inlineEhMax : Nat := (inlineBytes - Ext4ExtentHeader.diskSize) / extentDiskSize

def allowsRange (start count inode : Nat) : Bool :=
  if start + count ≥ 2 ^ 64 then
    false
  else
    ((geometry.systemZones.dropWhile fun zone => decide (zone.stop ≤ start)).takeWhile
      fun zone => decide (zone.start < start + count)).all
      fun zone => zone.owner == some inode

def validatePhysicalRange (start len deviceBlocks : Nat) : Except Ext4Error Unit :=
  if start + len ≥ 2 ^ 64 then
    .error (corrupted.withOperation "extent:physical_overflow")
  else if start ≤ geometry.firstDataBlock ∨
      start + len > min geometry.filesystemBlocks deviceBlocks then
    .error (corrupted.withOperation "extent:physical_range")
  else if geometry.systemZones.isEmpty then
    .ok ()
  else
    match geometry.inodeNum with
    | none => .error (corrupted.withOperation "extent:missing_inode")
    | some inodeNum =>
      if geometry.allowsRange start len inodeNum then
        .ok ()
      else
        .error (corrupted.withOperation "extent:system_metadata")

def validateIndexEntriesFrom (previousKey : Option Nat) : List Ext4ExtentIdx → Except Ext4Error Unit
  | [] => .ok ()
  | index :: rest =>
    if previousKey.any fun key => decide (index.key ≤ key) then
      .error (corrupted.withOperation "extent:index_order")
    else
      validateIndexEntriesFrom (some index.key) rest

def validateIndexEntries (entries : List Ext4ExtentIdx) : Except Ext4Error Unit :=
  validateIndexEntriesFrom none entries

def validateEntries (parentKey : Option Nat) (deviceBlocks : Nat) :
    ExtentNode → Except Ext4Error Unit
  | .leaf _ entries => do
    validateLeafEntries entries
    if parentKey.any fun expected =>
        entries.head?.any fun extent => extent.eeBlock != expected then
      throw (corrupted.withOperation "extent:parent_key")
    entries.forM fun extent =>
      geometry.validatePhysicalRange extent.startBlock extent.len deviceBlocks
  | .index _ entries => do
    if entries.isEmpty then
      throw (corrupted.withOperation "extent:empty_index")
    validateIndexEntries entries
    if parentKey.any fun expected =>
        entries.head?.any fun index => index.key != expected then
      throw (corrupted.withOperation "extent:parent_key")
    entries.forM fun index =>
      geometry.validatePhysicalRange index.block 1 deviceBlocks

/-- The reader's check of one node. -/
def validateNode (node : ExtentNode) (expectedDepth parentKey : Option Nat)
    (deviceBlocks : Nat) (inlineRoot : Bool) : Except Ext4Error Unit :=
  let header := node.header
  let maxEntries := if inlineRoot then inlineEhMax else geometry.calcBlockEhMax
  if expectedDepth.any fun depth => header.ehDepth != depth then
    .error (corrupted.withOperation "extent:depth_mismatch")
  else if header.ehDepth > maxDepth ∨ header.ehMagic ≠ Ext4ExtentHeader.ext4ExtMagic then
    .error (corrupted.withOperation "extent:header")
  else if header.ehMax = 0 ∨ header.ehMax > maxEntries ∨
      header.ehEntries ≠ node.count ∨ node.count > header.ehMax then
    .error (corrupted.withOperation "extent:node_capacity")
  else
    geometry.validateEntries parentKey deviceBlocks node

/-- `parse_node_from_bytes`, for the bytes of a node.  The depth decides how
entries are read. -/
def parseNode (size : Nat) (node : ExtentNode) : Except Ext4Error Unit :=
  let header := node.header
  let capacity := (size - Ext4ExtentHeader.diskSize) / extentDiskSize
  if header.ehMagic ≠ Ext4ExtentHeader.ext4ExtMagic then
    .error (corrupted.withOperation "extent:bad_magic")
  else if header.ehMax = 0 ∨ header.ehEntries > header.ehMax ∨
      header.ehMax > capacity ∨ header.ehDepth > maxDepth then
    .error (corrupted.withOperation "extent:header_geometry")
  else if header.ehDepth > 0 ∧ header.ehEntries = 0 then
    .error (corrupted.withOperation "extent:empty_index")
  else
    match node with
    | .leaf _ entries =>
      if header.ehDepth = 0 ∧ entries.length = header.ehEntries then
        validateLeafEntries entries
      else
        .error (corrupted.withOperation "extent:entry_truncated")
    | .index _ entries =>
      if header.ehDepth > 0 ∧ entries.length = header.ehEntries then
        validateIndexEntries entries
      else
        .error (corrupted.withOperation "extent:index_truncated")

def readChildNode (device : Nat → Option ExtentNode) (index : Ext4ExtentIdx)
    (expectedDepth : Nat) : Except Ext4Error ExtentNode :=
  match geometry.validatePhysicalRange index.block 1 geometry.deviceBlocks with
  | .error error => .error error
  | .ok () =>
    match device index.block with
    | none => .error (corrupted.withOperation "extent:bad_magic")
    | some node =>
      match parseNode geometry.blockSize node with
      | .error error => .error error
      | .ok () =>
        match geometry.validateNode node (some expectedDepth) (some index.key)
            geometry.deviceBlocks false with
        | .error error => .error error
        | .ok () => .ok node

/-- The root, with the checks every reader of a tree makes first. -/
def loadRoot (root : ExtentNode) : Except Ext4Error ExtentNode :=
  match parseNode inlineBytes root with
  | .error error => .error error
  | .ok () =>
    match geometry.validateNode root none none geometry.deviceBlocks true with
    | .error error => .error error
    | .ok () => .ok root

end ExtentGeometry

/-! ## What the checks ensure -/

namespace ExtentNode

def firstKey : ExtentNode → Option Nat
  | .leaf _ entries => entries.head?.map eeBlock
  | .index _ entries => entries.head?.map IndexEntry.key

theorem startBlock_of_firstKey {node : ExtentNode} {key : Nat}
    (first : node.firstKey = some key) : node.startBlock = key := by
  cases node with
  | leaf | index =>
    simp only [firstKey] at first
    simp [startBlock, first]

/-- The depth of a node says how its entries are read. -/
def KindMatches : ExtentNode → Prop
  | .leaf header _ => header.ehDepth = 0
  | .index header _ => 0 < header.ehDepth

def ValidEntries (geometry : ExtentGeometry) (deviceBlocks : Nat) : ExtentNode → Prop
  | .leaf _ entries => ValidExtents entries ∧ ∀ extent ∈ entries,
    geometry.validatePhysicalRange extent.startBlock extent.len deviceBlocks = .ok ()
  | .index _ entries => entries ≠ [] ∧ entries.Pairwise (fun left right => left.key < right.key) ∧
    ∀ index ∈ entries, geometry.validatePhysicalRange index.block 1 deviceBlocks = .ok ()

/-- What `validate_node` ensures, its expected depth and key apart. -/
structure Valid (geometry : ExtentGeometry) (deviceBlocks maxEntries : Nat)
    (node : ExtentNode) : Prop where
  depth_le : node.header.ehDepth ≤ ExtentGeometry.maxDepth
  magic : node.header.ehMagic = Ext4ExtentHeader.ext4ExtMagic
  max_pos : 0 < node.header.ehMax
  max_le : node.header.ehMax ≤ maxEntries
  entries_eq : node.header.ehEntries = node.count
  fits : node.count ≤ node.header.ehMax
  entries : node.ValidEntries geometry deviceBlocks

end ExtentNode

namespace ExtentGeometry

theorem forM_eq_ok_iff {Value : Type} {values : List Value}
    {check : Value → Except Ext4Error Unit} :
    values.forM check = .ok () ↔ ∀ value ∈ values, check value = .ok () := by
  induction values with
  | nil => simp [List.forM, pure, Except.pure]
  | cons value values ih =>
    have unfolded : (value :: values).forM check =
        (check value >>= fun _ => values.forM check) := rfl
    rw [unfolded, List.forall_mem_cons, ← ih]
    cases check value with
    | error error => simp [bind, Except.bind]
    | ok done => simp [bind, Except.bind]

private theorem validateIndexEntriesFrom_eq_ok_iff {entries : List Ext4ExtentIdx}
    {previousKey : Option Nat} :
    validateIndexEntriesFrom previousKey entries = .ok () ↔
      entries.Pairwise (fun left right => left.key < right.key) ∧
        ∀ key ∈ previousKey, ∀ index ∈ entries, key < index.key := by
  induction entries generalizing previousKey with
  | nil => simp [validateIndexEntriesFrom]
  | cons index rest ih =>
    unfold validateIndexEntriesFrom
    split_ifs with early
    · simp only [false_iff, not_and]
      intro _ ordered
      rcases Option.any_eq_true_iff_get _ _ |>.mp early with ⟨isSome, less⟩
      have order := ordered _ (Option.get_mem isSome) index List.mem_cons_self
      rw [decide_eq_true_eq] at less
      omega
    · rw [ih, List.pairwise_cons]
      constructor
      · intro ⟨ordered, behind⟩
        refine ⟨⟨behind _ rfl, ordered⟩, ?_⟩
        intro key isKey other member
        have here : key < index.key := by
          rw [isKey, Option.any_some, decide_eq_true_eq] at early
          omega
        rcases List.mem_cons.mp member with rfl | member
        · exact here
        · have order := behind _ rfl other member
          omega
      · intro ⟨⟨behind, ordered⟩, _⟩
        refine ⟨ordered, ?_⟩
        intro key isKey other member
        cases isKey
        exact behind other member

theorem validateIndexEntries_eq_ok_iff {entries : List Ext4ExtentIdx} :
    validateIndexEntries entries = .ok () ↔
      entries.Pairwise (fun left right => left.key < right.key) := by
  unfold validateIndexEntries
  rw [validateIndexEntriesFrom_eq_ok_iff]
  simp

variable {geometry : ExtentGeometry} {node : ExtentNode}
  {expectedDepth parentKey : Option Nat} {deviceBlocks : Nat}

theorem parentKey_any_eq_false_iff {Entry : Type} {entries : List Entry} {key : Entry → Nat} :
    ¬ (parentKey.any fun expected =>
        entries.head?.any fun entry => key entry != expected) = true ↔
      ∀ expected ∈ parentKey, ∀ first ∈ entries.head?.map key, first = expected := by
  cases parentKey with
  | none => simp
  | some expected =>
    cases entries with
    | nil => simp
    | cons entry entries => simp

theorem validateEntries_eq_ok_iff : geometry.validateEntries parentKey deviceBlocks node = .ok () ↔
      node.ValidEntries geometry deviceBlocks ∧
        ∀ expected ∈ parentKey, ∀ first ∈ node.firstKey, first = expected := by
  cases node with
  | leaf header entries =>
    simp only [validateEntries, ExtentNode.ValidEntries, ExtentNode.firstKey]
    rw [← parentKey_any_eq_false_iff, ← validateLeafEntries_eq_ok_iff, ← forM_eq_ok_iff]
    cases validateLeafEntries entries with
    | error error => simp [bind, Except.bind]
    | ok done =>
      simp only [bind, Except.bind]
      split_ifs with mismatch
      · simp [mismatch]
      · simp [mismatch]
  | index header entries =>
    simp only [validateEntries, ExtentNode.ValidEntries, ExtentNode.firstKey]
    rw [← parentKey_any_eq_false_iff, ← validateIndexEntries_eq_ok_iff, ← forM_eq_ok_iff]
    by_cases empty : entries.isEmpty = true
    · rw [List.isEmpty_iff] at empty
      simp [empty, bind, Except.bind, throw, throwThe, MonadExceptOf.throw]
    have nonempty : entries ≠ [] := by rwa [List.isEmpty_iff] at empty
    rw [if_neg empty]
    simp only [bind, Except.bind, nonempty, ne_eq, not_false_eq_true, true_and]
    cases validateIndexEntries entries with
    | error error => simp
    | ok done =>
      simp only
      split_ifs with mismatch
      · simp [mismatch]
      · simp [mismatch]

theorem validateNode_eq_ok_iff {inlineRoot : Bool} :
    geometry.validateNode node expectedDepth parentKey deviceBlocks inlineRoot = .ok () ↔
      (∀ depth ∈ expectedDepth, node.header.ehDepth = depth) ∧ node.Valid geometry deviceBlocks
          (if inlineRoot then inlineEhMax else geometry.calcBlockEhMax) ∧
        ∀ expected ∈ parentKey, ∀ first ∈ node.firstKey, first = expected := by
  have depthIff : ¬ (expectedDepth.any fun depth =>
      node.header.ehDepth != depth) = true ↔
      ∀ depth ∈ expectedDepth, node.header.ehDepth = depth := by
    cases expectedDepth <;> simp
  unfold validateNode
  simp only
  generalize (if inlineRoot = true then inlineEhMax else geometry.calcBlockEhMax) = maxEntries
  constructor
  · intro ran
    split_ifs at ran with depth header capacity
    rcases validateEntries_eq_ok_iff.mp ran with ⟨entries, key⟩
    push Not at header capacity
    exact ⟨depthIff.mp depth, ⟨header.1, header.2, by omega, capacity.2.1,
      capacity.2.2.1, capacity.2.2.2, entries⟩, key⟩
  · intro ⟨depth, valid, key⟩
    have header : ¬ (node.header.ehDepth > maxDepth ∨
        node.header.ehMagic ≠ Ext4ExtentHeader.ext4ExtMagic) := by
      have := valid.depth_le
      have := valid.magic
      omega
    have capacity : ¬ (node.header.ehMax = 0 ∨ node.header.ehMax > maxEntries ∨
        node.header.ehEntries ≠ node.count ∨
        node.count > node.header.ehMax) := by
      have := valid.max_pos
      have := valid.max_le
      have := valid.entries_eq
      have := valid.fits
      omega
    rw [if_neg (depthIff.mpr depth), if_neg header, if_neg capacity]
    exact validateEntries_eq_ok_iff.mpr ⟨valid.entries, key⟩

variable {size start len : Nat}

theorem parseNode_of_valid {maxEntries : Nat}
    (valid : node.Valid geometry deviceBlocks maxEntries) (kind : node.KindMatches)
    (room : maxEntries ≤ (size - Ext4ExtentHeader.diskSize) / extentDiskSize) :
    parseNode size node = .ok () := by
  have depth := valid.depth_le
  have positive := valid.max_pos
  have bounded := valid.max_le
  have counted := valid.entries_eq
  have fits := valid.fits
  have header : ¬ (node.header.ehMax = 0 ∨ node.header.ehEntries > node.header.ehMax ∨
      node.header.ehMax > (size - Ext4ExtentHeader.diskSize) / extentDiskSize ∨
      node.header.ehDepth > maxDepth) := by omega
  have magic : ¬ node.header.ehMagic ≠ Ext4ExtentHeader.ext4ExtMagic := not_not.mpr valid.magic
  unfold parseNode
  rw [if_neg magic, if_neg header]
  cases node with
  | leaf nodeHeader entries =>
    have zero : nodeHeader.ehDepth = 0 := kind
    have counted : entries.length = nodeHeader.ehEntries := counted.symm
    simp only [ExtentNode.header, zero, counted, gt_iff_lt, lt_irrefl,
      false_and, if_false, true_and, if_true]
    exact validateLeafEntries_eq_ok_iff.mpr valid.entries.1
  | index nodeHeader entries =>
    have deep : 0 < nodeHeader.ehDepth := kind
    have counted : entries.length = nodeHeader.ehEntries := counted.symm
    have nonempty : ¬ nodeHeader.ehEntries = 0 := by
      rw [← counted, List.length_eq_zero_iff]
      exact valid.entries.1
    simp only [ExtentNode.header, deep, counted, true_and, nonempty, if_false, if_true]
    exact validateIndexEntries_eq_ok_iff.mpr valid.entries.2.1

theorem kindMatches_of_parseNode (parsed : parseNode size node = .ok ()) : node.KindMatches := by
  unfold parseNode at parsed
  simp only at parsed
  split_ifs at parsed with magic header empty
  cases node with
  | leaf | index =>
    simp only at parsed
    split_ifs at parsed with kind
    exact kind.1

/-- What a reader knows of the node below an index entry.  Where the node lies
was checked with the entry. -/
structure Accepts (geometry : ExtentGeometry) (depth : Nat)
    (index : Ext4ExtentIdx) (node : ExtentNode) : Prop where
  kind : node.KindMatches
  depth_eq : node.header.ehDepth = depth
  valid : node.Valid geometry geometry.deviceBlocks geometry.calcBlockEhMax
  key : ∀ first ∈ node.firstKey, first = index.key

theorem readChildNode_eq_ok_iff {device : Nat → Option ExtentNode}
    {index : Ext4ExtentIdx} {depth : Nat} :
    geometry.readChildNode device index depth = .ok node ↔
      geometry.validatePhysicalRange index.block 1 geometry.deviceBlocks = .ok () ∧
        device index.block = some node ∧ geometry.Accepts depth index node := by
  unfold readChildNode
  constructor
  · intro ran
    split at ran
    · cases ran
    rename_i range
    split at ran
    · cases ran
    rename_i found stored
    split at ran
    · cases ran
    rename_i parsed
    split at ran
    · cases ran
    rename_i valid
    cases ran
    rcases validateNode_eq_ok_iff.mp valid with ⟨depth, valid, key⟩
    exact ⟨range, stored, kindMatches_of_parseNode parsed, depth _ rfl, valid, key _ rfl⟩
  · intro ⟨range, stored, accepted⟩
    have parsed := parseNode_of_valid accepted.valid accepted.kind (Nat.mod_le _ _)
    have valid : geometry.validateNode node (some depth) (some index.key)
        geometry.deviceBlocks false = .ok () := by
      rw [validateNode_eq_ok_iff]
      refine ⟨?_, accepted.valid, ?_⟩
      · intro expected isDepth
        cases isDepth
        exact accepted.depth_eq
      · intro expected isKey
        cases isKey
        exact accepted.key
    simp [range, stored, parsed, valid]

theorem loadRoot_eq_ok_iff {root : ExtentNode} : geometry.loadRoot root = .ok node ↔
      node = root ∧ root.KindMatches ∧ root.Valid geometry geometry.deviceBlocks inlineEhMax := by
  unfold loadRoot
  constructor
  · intro ran
    split at ran
    · cases ran
    rename_i parsed
    split at ran
    · cases ran
    rename_i valid
    cases ran
    exact ⟨rfl, kindMatches_of_parseNode parsed, (validateNode_eq_ok_iff.mp valid).2.1⟩
  · intro ⟨same, kind, valid⟩
    subst same
    have parsed : parseNode inlineBytes node = .ok () := parseNode_of_valid valid kind le_rfl
    have checked : geometry.validateNode node none none geometry.deviceBlocks true = .ok () := by
      rw [validateNode_eq_ok_iff]
      exact ⟨by simp, valid, by simp⟩
    simp [parsed, checked]

variable (checked : geometry.validatePhysicalRange start len deviceBlocks = .ok ())
include checked

theorem lt_of_validatePhysicalRange : start + len < 2 ^ 64 := by
  unfold validatePhysicalRange at checked
  split_ifs at checked with overflow <;> omega

theorem le_of_validatePhysicalRange : start + len ≤ geometry.filesystemBlocks := by
  unfold validatePhysicalRange at checked
  split_ifs at checked with overflow outside <;> omega

end ExtentGeometry

namespace ExtentNode

variable {geometry : ExtentGeometry} {node : ExtentNode} {deviceBlocks maxEntries ehMax : Nat}

@[simp]
theorem ehDepth_withMax : (node.withMax ehMax).header.ehDepth = node.header.ehDepth := by
  cases node <;> rfl

theorem KindMatches.withMax (kind : node.KindMatches) : (node.withMax ehMax).KindMatches := by
  cases node <;> exact kind

theorem Valid.withMax {allowed : Nat} (valid : node.Valid geometry deviceBlocks maxEntries)
    (fits : node.count ≤ ehMax) (positive : 0 < ehMax) (bounded : ehMax ≤ allowed) :
    (node.withMax ehMax).Valid geometry deviceBlocks allowed := by
  cases node with
  | leaf | index =>
    exact ⟨valid.depth_le, valid.magic, positive, bounded, valid.entries_eq, fits, valid.entries⟩

theorem Valid.onDevice (valid : node.Valid geometry geometry.filesystemBlocks maxEntries) :
    node.Valid geometry geometry.deviceBlocks maxEntries := by
  refine ⟨valid.depth_le, valid.magic, valid.max_pos, valid.max_le,
    valid.entries_eq, valid.fits, ?_⟩
  have entries := valid.entries
  cases node with
  | leaf | index =>
    simp only [ValidEntries, ExtentGeometry.validatePhysicalRange, min_self,
      min_eq_left geometry.device_covers] at entries ⊢
    exact entries

end ExtentNode

/-- Extent nodes as a tree of blocks. -/
def extentTree (geometry : ExtentGeometry) : BlockTree ExtentNode Ext4Extent where
  view := fun node =>
    match node with
    | .leaf _ entries => .leaf entries
    | .index _ entries => .index entries
  accepts := geometry.Accepts
  first := eeBlock
  stop := fun extent => extent.eeBlock + extent.len
  accepts_leaf := by
    intro depth index node extent extents accepted shape
    cases node with
    | leaf header entries =>
      cases shape
      exact accepted.key _ rfl
    | index header entries => cases shape
  accepts_index := by
    intro depth index node child children accepted shape
    cases node with
    | leaf header entries => cases shape
    | index header entries =>
      cases shape
      exact accepted.key _ rfl
  accepts_depth := by
    intro depth depth' index index' node accepted accepted'
    exact accepted.depth_eq.symm.trans accepted'.depth_eq

variable {geometry : ExtentGeometry}

@[simp]
theorem extentTree_view_index {header : Ext4ExtentHeader} {entries : List Ext4ExtentIdx} :
    (extentTree geometry).view (.index header entries) = .index entries :=
  rfl

@[simp]
theorem extentTree_view_withMax {node : ExtentNode} {ehMax : Nat} :
    (extentTree geometry).view (node.withMax ehMax) = (extentTree geometry).view node := by
  cases node <;> rfl

theorem extentTree_firstKey {node : ExtentNode} :
    (extentTree geometry).firstKey node = node.firstKey := by
  cases node <;> rfl

end TgosKits
