import TgosKits.Ext4.Insert
import TgosKits.Ext4.Rewrite

/-!
# Converting parts of an extent

A write into an unwritten extent first cuts the extent so that the range is one entry,
and marks that entry written once the data is on disk.
-/

namespace TgosKits

open Ext4Error Failing

def u32SaturatingAdd (left right : Nat) : Nat := min (left + right) (2 ^ 32 - 1)

def buildExtentWithState (logical physical len : Nat) (unwritten : Bool)
    (operation : String) : Except Ext4Error Ext4Extent :=
  let extent :=
    if unwritten then Ext4Extent.newUnwritten logical physical len
    else if len < 2 ^ 16 then some (Ext4Extent.new logical physical len)
    else none
  match extent with
  | some extent => .ok extent
  | none => .error (corrupted.withOperation operation)

/-- A piece that is left out when it has no blocks. -/
def buildPiece (logical physical len : Nat) (unwritten : Bool)
    (operation : String) : Except Ext4Error (List Ext4Extent) :=
  if len = 0 then
    .ok []
  else
    (buildExtentWithState logical physical len unwritten operation).map ([·])

def rewriteExtent (original : Ext4Extent) (start len : Nat)
    (expectedUnwritten middleUnwritten : Bool) : Except Ext4Error (List Ext4Extent) :=
  let originalEnd := original.eeBlock + original.len
  let writeEnd := start + len
  let leftLen := start - original.eeBlock
  let middlePhysical := original.startBlock + leftLen
  if original.isUnwritten != expectedUnwritten then
    .error (invalidInput.withOperation "extent:rewrite_state")
  else if originalEnd ≥ 2 ^ 32 then
    .error (corrupted.withOperation "extent:logical_overflow")
  else if writeEnd ≥ 2 ^ 32 then
    .error .fileTooLarge
  else if writeEnd > originalEnd then
    .error (invalidInput.withOperation "extent:unwritten_crossing")
  else do
    let left ← buildPiece original.eeBlock original.startBlock leftLen
      original.isUnwritten "extent:rewrite_left"
    if middlePhysical ≥ 2 ^ 64 then
      .error .overflow
    else do
      let middle ← buildExtentWithState start middlePhysical len middleUnwritten
        "extent:rewrite_middle"
      if originalEnd - writeEnd ≠ 0 ∧ middlePhysical + len ≥ 2 ^ 64 then
        .error .overflow
      else do
        let right ← buildPiece writeEnd (middlePhysical + len)
          (originalEnd - writeEnd) original.isUnwritten "extent:rewrite_right"
        return left ++ middle :: right

/-- The leaf case of `split_extent_recursive`: the extent that covers `start` is
replaced by its pieces. -/
def splitExtentEntries (entries : List Ext4Extent) (start len : Nat)
    (expectedUnwritten middleUnwritten : Bool) : Except Ext4Error (List Ext4Extent) :=
  match entries.findIdx? fun extent => decide (extent.eeBlock ≤ start ∧
      start < u32SaturatingAdd extent.eeBlock extent.len) with
  | none =>
    .error (invalidInput.withOperation "extent:unwritten_missing")
  | some position =>
    match entries[position]? with
    | none => .error .corrupted
    | some original =>
      match rewriteExtent original start len expectedUnwritten middleUnwritten with
      | .error error => .error error
      | .ok replacement =>
        let rewritten := entries.take position ++ (replacement ++ entries.drop (position + 1))
        if rewritten.length < 2 ^ 16 then
          .ok rewritten
        else
          .error (corrupted.withOperation "extent:entry_overflow")

def initializeExactEntries (entries : List Ext4Extent) (start len : Nat) :
    Except Ext4Error (List Ext4Extent) :=
  match entries.findIdx? fun extent =>
      decide (extent.eeBlock = start ∧ extent.len = len) with
  | none =>
    .error (corrupted.withOperation "extent:prepared_range_missing")
  | some position =>
    match entries[position]? with
    | none => .error .corrupted
    | some extent =>
      if !extent.isUnwritten then
        .error (corrupted.withOperation "extent:prepared_range_initialized")
      else
        match Ext4Extent.encodeLen len false with
        | none =>
          .error (corrupted.withOperation "extent:initialized_length")
        | some eeLen =>
          match mergeLeafExtentNeighbors (entries.take position)
              { extent with eeLen } (entries.drop (position + 1)) with
          | .error error => .error error
          | .ok merged =>
            if merged.length < 2 ^ 16 then
              .ok merged
            else
              .error (corrupted.withOperation "extent:entry_overflow")

def rewriteIndexEntries (entries : List Ext4ExtentIdx)
    (split : Option SplitInfo) : Except Ext4Error (List Ext4ExtentIdx) :=
  match split with
  | none => .ok entries
  | some split =>
    if (insertIndexEntry entries split.index).length < 2 ^ 16 then
      .ok (insertIndexEntry entries split.index)
    else
      .error (corrupted.withOperation "extent:index_overflow")

namespace ExtentM

variable (geometry : ExtentGeometry) (services : ExtentServices)

/-- `split_extent_recursive`; the depth of the node is enough fuel. -/
def splitExtentRecursive (start len : Nat) (expectedUnwritten middleUnwritten : Bool) :
    Nat → ExtentNode → Option Nat → ExtentM (ExtentNode × Option SplitInfo)
  | _, .leaf header entries, physicalNode => do
    let entries ← lift (splitExtentEntries entries start len expectedUnwritten middleUnwritten)
    settle geometry services (fun right => .ok right.startBlock)
      (.leafOf header entries) physicalNode
  | 0, .index _ _, _ => fail .corrupted
  | depth + 1, .index header entries, physicalNode =>
    match entries[BlockTree.slot entries start]? with
    | none =>
      fail (corrupted.withOperation "extent:empty_index")
    | some childIndex => do
      let child ← readChildNode geometry childIndex (header.ehDepth - 1)
      let (child, childSplit) ← splitExtentRecursive start len expectedUnwritten
        middleUnwritten depth child (some childIndex.block)
      let entries ← lift (rewriteIndexEntries (entries.set (BlockTree.slot entries start)
          { childIndex with key := child.startBlock }) childSplit)
      settle geometry services (fun right => .ok right.startBlock)
        (.indexOf header entries) physicalNode

def initializeExactRecursive (start len : Nat) : Nat → ExtentNode → Option Nat → ExtentM ExtentNode
  | _, .leaf header entries, physicalNode => do
    let entries ← lift (initializeExactEntries entries start len)
    writeBack geometry services physicalNode (.leafOf header entries)
    return .leafOf header entries
  | 0, .index _ _, _ => fail .corrupted
  | depth + 1, .index header entries, _ =>
    match entries[BlockTree.slot entries start]? with
    | none =>
      fail (corrupted.withOperation "extent:empty_index")
    | some index => do
      let child ← readChildNode geometry index (header.ehDepth - 1)
      let _ ← initializeExactRecursive start len depth child (some index.block)
      return .index header entries

/-- Both preparations: the range is cut out of an extent with the expected state
and gets another one. -/
def prepareRange (operation : String) (start len : Nat)
    (expectedUnwritten middleUnwritten : Bool) : ExtentM Unit :=
  if len = 0 ∨ len > Ext4Extent.extUninitMaxLen then
    fail (invalidInput.withOperation operation)
  else if start + len ≥ 2 ^ 32 then
    fail .fileTooLarge
  else do
    let root ← loadRoot geometry
    let (root, split) ← splitExtentRecursive geometry services start len
      expectedUnwritten middleUnwritten root.header.ehDepth root none
    match split with
    | none => storeRootToInode geometry root
    | some right => promoteSplitRoot geometry services root right

def prepareUnwrittenWrite (start len : Nat) : ExtentM Unit :=
  prepareRange geometry services "extent:unwritten_length" start len true true

def prepareInitializedZero (start len : Nat) : ExtentM Unit :=
  prepareRange geometry services "extent:zero_length" start len false true

def finishUnwrittenWrite (start len : Nat) : ExtentM Unit := do
  let root ← loadRoot geometry
  let root ← initializeExactRecursive geometry services start len root.header.ehDepth root none
  storeRootToInode geometry root

end ExtentM

end TgosKits
