import TgosKits.Ext4.Grow
import TgosKits.Ext4.Merge

/-!
# Inserting an extent

An extent goes to the leaf its first block leads to.
-/

namespace TgosKits

open List Failing

/-- The place of a new extent in a leaf, and the merged leaf. -/
def insertLeafEntries (entries : List Ext4Extent) (newExt : Ext4Extent) :
    Except Ext4Error (List Ext4Extent) :=
  insertAndMergeLeafExtent entries (entries.takeWhile fun extent =>
      decide (extent.eeBlock < newExt.eeBlock)).length newExt

def insertIndexEntry (entries : List Ext4ExtentIdx) (newIdx : Ext4ExtentIdx) : List Ext4ExtentIdx :=
  entries.insertIdx (entries.takeWhile fun index => decide (index.key < newIdx.key)).length newIdx

def splitKey (right : ExtentNode) : Except Ext4Error Nat :=
  match right.firstKey with
  | some key => .ok key
  | none => .error (Ext4Error.corrupted.withOperation "extent:empty_split")

namespace ExtentM

variable (geometry : ExtentGeometry) (services : ExtentServices)

/-- `insert_recursive`; the depth of the node is enough fuel. -/
def insertRecursive : Nat → ExtentNode → Ext4Extent → Option Nat →
    ExtentM (ExtentNode × Option SplitInfo)
  | _, .leaf header entries, newExt, phyBlock => do
    let merged ← lift (insertLeafEntries entries newExt)
    settle geometry services splitKey (.leafOf header merged) phyBlock
  | 0, .index _ _, _, _ => fail .corrupted
  | depth + 1, .index header entries, newExt, phyBlock =>
    match entries[BlockTree.slot entries newExt.eeBlock]? with
    | none => fail .corrupted
    | some childIndex => do
      let childNode ← readChildNode geometry childIndex (header.ehDepth - 1)
      let (childNode, childSplit) ← insertRecursive depth childNode newExt (some childIndex.block)
      let entries := entries.set (BlockTree.slot entries newExt.eeBlock)
        { childIndex with key := childNode.startBlock }
      match childSplit with
      | none => return (.index header entries, none)
      | some splitInfo =>
        settle geometry services splitKey
          (.indexOf header (insertIndexEntry entries splitInfo.index)) phyBlock

def tryCollapseSingleLeafRoot (childIndex : Ext4ExtentIdx) : ExtentM Bool := do
  let child ← readChildNode geometry childIndex 0
  match child with
  | .index _ _ =>
    fail (Ext4Error.corrupted.withOperation "extent:merge_up_child")
  | .leaf header entries =>
    if entries.length > ExtentGeometry.inlineEhMax then
      return false
    else do
      let extension ← extendCredits services
      match extension with
      | some .extended =>
        collapseExternalRootChild geometry services childIndex.block (.leaf header entries)
      | _ => return false

/-- The root after an insertion that did not split it. -/
def storeOrCollapse (root : ExtentNode) : ExtentM Unit :=
  match root with
  | .index header [childIndex] =>
    if header.ehDepth = 1 then do
      let collapsed ← tryCollapseSingleLeafRoot geometry services childIndex
      match collapsed with
      | true => return ()
      | false => storeRootToInode geometry root
    else
      storeRootToInode geometry root
  | _ => storeRootToInode geometry root

def insertExtent (newExt : Ext4Extent) : ExtentM Unit := do
  lift (validateLeafEntries [newExt])
  lift (geometry.validatePhysicalRange newExt.startBlock newExt.len geometry.deviceBlocks)
  let root ← loadRoot geometry
  let (root, splitResult) ← insertRecursive geometry services root.header.ehDepth root newExt none
  match splitResult with
  | none => storeOrCollapse geometry services root
  | some splitInfo => promoteSplitRoot geometry services root splitInfo

end ExtentM

end TgosKits
