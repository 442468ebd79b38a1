import TgosKits.Ext4.Extent
import TgosKits.MemoryAddr

/-! # Shifting extents -/

namespace TgosKits

open Ext4Extent Ext4Error List RunMap

inductive ExtentRangeTransform where
  | collapse (start stop : Nat)
  | insert (start len : Nat)
  deriving DecidableEq, Repr

structure TransformedExtents where
  mappings : List Ext4Extent
  releasedData : List (Nat × Nat)
  deriving DecidableEq, Repr

def u32TryFrom (value : Nat) (error : Ext4Error) : Except Ext4Error Nat :=
  if value < 2 ^ 32 then .ok value else .error error

def okOr {Value : Type} (value : Option Value) (error : Ext4Error) : Except Ext4Error Value :=
  match value with
  | some value => .ok value
  | none => .error error

def checkedSub (left right : Nat) : Option Nat :=
  if right ≤ left then some (left - right) else none

/-- Appends a part of the extent at another logical block. -/
def pushExtentSlice (output : List Ext4Extent) (original : Ext4Extent)
    (logicalStart physicalOffset len : Nat) : Except Ext4Error (List Ext4Extent) := do
  if len == 0 then
    return output
  let logicalStart ← u32TryFrom logicalStart .fileTooLarge
  let physicalStart ← okOr (checkedAdd original.startBlock physicalOffset) .overflow
  let eeLen ← okOr (original.buildLenLike len) (corrupted.withOperation "extent:range_slice")
  return output ++ [⟨logicalStart, eeLen, physicalStart % physicalLimit⟩]

/-- The part before the range. -/
def keptPart (start : Nat) (mappings : List Ext4Extent) (extent : Ext4Extent) :
    Except Ext4Error (List Ext4Extent) :=
  if extent.eeBlock < start then do
    let leftLen ← u32TryFrom (start - extent.eeBlock) .overflow
    pushExtentSlice mappings extent extent.eeBlock 0 leftLen
  else
    pure mappings

/-- The blocks inside the range. -/
def releasedPart (start stop extentEnd : Nat) (releasedData : List (Nat × Nat))
    (extent : Ext4Extent) : Except Ext4Error (List (Nat × Nat)) :=
  let removedStart := max extent.eeBlock start
  let removedEnd := min extentEnd stop
  if removedStart < removedEnd then do
    let physicalOffset ← u32TryFrom (removedStart - extent.eeBlock) .overflow
    let physicalStart ← okOr (checkedAdd extent.startBlock physicalOffset) .overflow
    let count ← u32TryFrom (removedEnd - removedStart) .overflow
    pure (releasedData ++ [(physicalStart, count)])
  else
    pure releasedData

/-- The part behind the range. -/
def movedPart (stop shift extentEnd : Nat) (mappings : List Ext4Extent)
    (extent : Ext4Extent) : Except Ext4Error (List Ext4Extent) :=
  if extentEnd > stop then do
    let physicalOffset ← u32TryFrom (stop - extent.eeBlock) .overflow
    let rightLen ← u32TryFrom (extentEnd - stop) .overflow
    let moved ← okOr (checkedSub stop shift) .overflow
    pushExtentSlice mappings extent moved physicalOffset rightLen
  else
    pure mappings

def collapseExtent (start stop : Nat) (result : TransformedExtents)
    (extent : Ext4Extent) : Except Ext4Error TransformedExtents := do
  let extentStart := extent.eeBlock
  let extentEnd ← okOr (checkedAdd extentStart extent.len)
    (corrupted.withOperation "extent:logical_overflow")
  let shift ← okOr (checkedSub stop start) (invalidInput.withOperation "extent:collapse")
  if extentEnd ≤ start then
    let mappings ← pushExtentSlice result.mappings extent extentStart 0 extent.len
    return { result with mappings }
  else if extentStart ≥ stop then
    let moved ← okOr (checkedSub extentStart shift) .overflow
    let mappings ← pushExtentSlice result.mappings extent moved 0 extent.len
    return { result with mappings }
  else
    let mappings ← keptPart start result.mappings extent
    let releasedData ← releasedPart start stop extentEnd result.releasedData extent
    let mappings ← movedPart stop shift extentEnd mappings extent
    return ⟨mappings, releasedData⟩

def insertExtent (start len : Nat) (result : TransformedExtents)
    (extent : Ext4Extent) : Except Ext4Error TransformedExtents := do
  let extentStart := extent.eeBlock
  let extentEnd ← okOr (checkedAdd extentStart extent.len)
    (corrupted.withOperation "extent:logical_overflow")
  if extentEnd ≤ start then
    let mappings ← pushExtentSlice result.mappings extent extentStart 0 extent.len
    return { result with mappings }
  else if extentStart ≥ start then
    let moved ← okOr (checkedAdd extentStart len) .fileTooLarge
    let mappings ← pushExtentSlice result.mappings extent moved 0 extent.len
    return { result with mappings }
  else
    let leftLen ← u32TryFrom (start - extentStart) .overflow
    let mappings ← pushExtentSlice result.mappings extent extentStart 0 leftLen
    let rightLen ← u32TryFrom (extentEnd - start) .overflow
    let moved ← okOr (checkedAdd start len) .fileTooLarge
    let mappings ← pushExtentSlice mappings extent moved leftLen rightLen
    return { result with mappings }

def transformExtents (oldExtents : List Ext4Extent)
    (transform : ExtentRangeTransform) : Except Ext4Error TransformedExtents :=
  oldExtents.foldlM (match transform with
      | .collapse start stop => collapseExtent start stop
      | .insert start len => insertExtent start len)
    ⟨[], []⟩

def checkedRangeEnd (offset len : Nat) (zeroLengthOperation : String) : Except Ext4Error Nat :=
  if len == 0 then
    .error (invalidInput.withOperation zeroLengthOperation)
  else
    okOr (checkedAdd offset len) .fileTooLarge

variable (blockBytes alignment inodeSize offset len : Nat)

/-- The transform `insert_range_inode` asks for. -/
def insertRange : Except Ext4Error ExtentRangeTransform := do
  let _ ← checkedRangeEnd offset len "fallocate:insert_zero_length"
  if offset % alignment != 0 || len % alignment != 0 then
    throw (invalidInput.withOperation "fallocate:insert_alignment")
  if offset ≥ inodeSize then
    throw (invalidInput.withOperation "fallocate:insert_eof")
  let newSize ← okOr (checkedAdd inodeSize len) .fileTooLarge
  if (newSize + blockBytes - 1) / blockBytes > 2 ^ 32 then
    throw .fileTooLarge
  return .insert (offset / blockBytes) (len / blockBytes)

/-! ## One extent -/

section

variable {output : List Ext4Extent} {extent : Ext4Extent} {result : TransformedExtents}
  {start stop logical skip length : Nat} {left right count : Nat}

theorem checkedSub_eq (order : right ≤ left) : checkedSub left right = some (left - right) :=
  if_pos order

theorem checkedAdd_eq (fits : left + right ≤ usizeMax) :
    checkedAdd left right = some (left + right) :=
  if_pos fits

theorem u32TryFrom_eq {value : Nat} {error : Ext4Error}
    (fits : value < 2 ^ 32) : u32TryFrom value error = .ok value :=
  if_pos fits

/-- An extent of a valid list, inside the 48 bits of physical block numbers. -/
structure PlainExtent (extent : Ext4Extent) : Prop where
  positive : 0 < extent.len
  logical : extent.eeBlock + extent.len < 2 ^ 32
  physical : extent.eeStart + extent.len ≤ physicalLimit

theorem pushExtentSlice_eq (plain : PlainExtent extent)
    (positive : 0 < length) (inside : skip + length ≤ extent.len) (fits : logical < 2 ^ 32) :
    ∃ piece : Ext4Extent, pushExtentSlice output extent logical skip length =
        .ok (output ++ [piece]) ∧
      piece.run = extent.run.slice logical skip length := by
  have physical := plain.physical
  have limit : physicalLimit < usizeMax := by decide
  have sum : checkedAdd extent.startBlock skip = some (extent.eeStart + skip) :=
    checkedAdd_eq (by unfold startBlock; omega)
  have short : length ≤ extent.len := by omega
  obtain ⟨rawLen, coded⟩ : ∃ rawLen, extent.buildLenLike length = some rawLen :=
    ⟨_, encodeLen_eq positive (short.trans len_le_maxLen)⟩
  have nonzero : ¬ (length == 0) = true := by simp [positive.ne']
  refine ⟨⟨logical, rawLen, (extent.eeStart + skip) % physicalLimit⟩, ?_, ?_⟩
  · unfold pushExtentSlice
    rw [if_neg nonzero, u32TryFrom_eq fits, sum, coded]
    rfl
  · rw [run_of_buildLenLike coded, Nat.mod_eq_of_lt (by omega)]
    rfl

theorem pushExtentSlice_eq_error (positive : 0 < length) (large : 2 ^ 32 ≤ logical) :
    pushExtentSlice output extent logical skip length = .error .fileTooLarge := by
  have nonzero : ¬ (length == 0) = true := by simp [positive.ne']
  have refused : u32TryFrom logical .fileTooLarge = .error .fileTooLarge :=
    if_neg (not_lt.mpr large)
  unfold pushExtentSlice
  rw [if_neg nonzero, refused]
  rfl

/-- What extents add to the result: their pieces and the blocks that are mapped no
more. -/
structure Relocated (old : List Ext4Extent) (start source dest : Nat)
    (result result' : TransformedExtents) : Prop where
  mappings : ∃ pieces : List Ext4Extent, result'.mappings = result.mappings ++ pieces ∧
      pieces.map run = (old.map run).flatMap (·.relocate start source dest)
  released : ∃ released : List (Nat × Nat), result'.releasedData = result.releasedData ++ released ∧
      released.flatMap (fun blocks => range' blocks.1 blocks.2) =
        (old.map run).flatMap (·.targetsBetween start source) ∧
      (source ≤ start → released = [])

theorem keptPart_eq (plain : PlainExtent extent) (overlaps : start < extent.eeBlock + extent.len) :
    ∃ pieces : List Ext4Extent, keptPart start output extent = .ok (output ++ pieces) ∧
      pieces.map run = if extent.run.first < start then
          [extent.run.slice extent.run.first 0 (min extent.run.stop start - extent.run.first)]
        else [] := by
  have logicalBound := plain.logical
  by_cases before : extent.eeBlock < start
  · have runFirst := @run_first extent
    have runStop := @run_stop extent
    rcases @pushExtentSlice_eq output extent extent.eeBlock 0
      (start - extent.eeBlock) plain (by omega) (by omega) (by omega) with
      ⟨piece, pushed, pieceRun⟩
    refine ⟨[piece], ?_, ?_⟩
    · unfold keptPart
      rw [if_pos before, u32TryFrom_eq (by omega)]
      exact pushed
    · rw [if_pos (by omega), map_singleton, pieceRun]
      congr 2
      omega
  · refine ⟨[], ?_, (if_neg before).symm⟩
    unfold keptPart
    rw [if_neg before, append_nil]
    rfl

private theorem movedPart_eq (plain : PlainExtent extent) (order : start ≤ stop)
    (overlaps : extent.eeBlock < stop) :
    ∃ pieces : List Ext4Extent,
      movedPart stop (stop - start) (extent.eeBlock + extent.len) output extent =
        .ok (output ++ pieces) ∧
      pieces.map run = if stop < extent.run.stop then
          [extent.run.slice (start + (max extent.run.first stop - stop))
            (max extent.run.first stop - extent.run.first)
            (extent.run.stop - max extent.run.first stop)]
        else [] := by
  have logicalBound := plain.logical
  by_cases behind : extent.eeBlock + extent.len > stop
  · have runFirst := @run_first extent
    have runStop := @run_stop extent
    have moved : stop - (stop - start) = start := by omega
    rcases @pushExtentSlice_eq output extent start (stop - extent.eeBlock)
      (extent.eeBlock + extent.len - stop) plain (by omega) (by omega)
      (by omega) with ⟨piece, pushed, pieceRun⟩
    refine ⟨[piece], ?_, ?_⟩
    · unfold movedPart
      rw [if_pos behind, u32TryFrom_eq (by omega), u32TryFrom_eq (by omega),
        checkedSub_eq (by omega), moved]
      exact pushed
    · rw [if_pos (by omega), map_singleton, pieceRun]
      congr 2 <;> omega
  · refine ⟨[], ?_, (if_neg behind).symm⟩
    unfold movedPart
    rw [if_neg behind, append_nil]
    rfl

private theorem releasedPart_eq {releasedData : List (Nat × Nat)} (plain : PlainExtent extent) :
    ∃ released : List (Nat × Nat),
      releasedPart start stop (extent.eeBlock + extent.len) releasedData extent =
        .ok (releasedData ++ released) ∧
      released.flatMap (fun blocks => range' blocks.1 blocks.2) =
        extent.run.targetsBetween start stop ∧
      (stop ≤ start → released = []) := by
  have logicalBound := plain.logical
  have physical := plain.physical
  have limit : physicalLimit < usizeMax := by decide
  have runFirst := @run_first extent
  have runStop := @run_stop extent
  by_cases inside : max extent.eeBlock start < min (extent.eeBlock + extent.len) stop
  · have sum : checkedAdd extent.startBlock (max extent.eeBlock start - extent.eeBlock) =
        some (extent.eeStart + (max extent.eeBlock start - extent.eeBlock)) :=
      checkedAdd_eq (by unfold startBlock; omega)
    refine ⟨[(extent.eeStart + (max extent.eeBlock start - extent.eeBlock),
      min (extent.eeBlock + extent.len) stop - max extent.eeBlock start)],
      ?_, ?_, by omega⟩
    · unfold releasedPart
      rw [if_pos inside, u32TryFrom_eq (by omega)]
      simp only [bind, Except.bind]
      rw [sum, u32TryFrom_eq (by omega)]
      rfl
    · simp [Run.targetsBetween, run_target, runStop, max_comm start, min_comm stop]
  · refine ⟨[], ?_, ?_, fun _ => rfl⟩
    · unfold releasedPart
      rw [if_neg inside, append_nil]
      rfl
    exact (Run.targetsBetween_eq_nil (by omega)).symm

theorem PlainExtent.ending (plain : PlainExtent extent) :
    checkedAdd extent.eeBlock extent.len = some (extent.eeBlock + extent.len) := by
  have logicalBound := plain.logical
  have word : 2 ^ 32 < usizeMax := by decide
  exact checkedAdd_eq (by omega)

theorem collapseExtent_adds (plain : PlainExtent extent) (order : start ≤ stop) :
    ∃ result', collapseExtent start stop result extent = .ok result' ∧
      Relocated [extent] start stop start result result' := by
  have positive := plain.positive
  have logicalBound := plain.logical
  have runFirst := @run_first extent
  have runStop := @run_stop extent
  have outside := @Run.targetsBetween_eq_nil _ extent.run start stop
  unfold collapseExtent
  simp only [plain.ending, checkedSub_eq order, okOr, bind, Except.bind]
  by_cases before : extent.eeBlock + extent.len ≤ start
  · rcases @pushExtentSlice_eq result.mappings extent extent.eeBlock 0 extent.len
      plain positive (by omega) (by omega) with ⟨piece, pushed, pieceRun⟩
    rw [if_pos before, pushed]
    refine ⟨_, rfl, ⟨[piece], rfl, ?_⟩, [], by simp, by simp [outside (by omega)], fun _ => rfl⟩
    rw [map_singleton, map_singleton, flatMap_singleton, pieceRun, Run.relocate,
      if_pos (by omega), if_neg (by omega)]
    congr 2
    omega
  rw [if_neg before]
  by_cases behind : extent.eeBlock ≥ stop
  · rcases @pushExtentSlice_eq result.mappings extent (extent.eeBlock - (stop - start)) 0 extent.len
      plain positive (by omega) (by omega) with ⟨piece, pushed, pieceRun⟩
    have shifted : checkedSub extent.eeBlock (stop - start) =
        some (extent.eeBlock - (stop - start)) := checkedSub_eq (by omega)
    rw [if_pos behind]
    simp only [shifted, pushed]
    refine ⟨_, rfl, ⟨[piece], rfl, ?_⟩, [], by simp, by simp [outside (by omega)], fun _ => rfl⟩
    rw [map_singleton, map_singleton, flatMap_singleton, pieceRun, Run.relocate,
      if_neg (by omega), if_pos (by omega)]
    congr 2 <;> omega
  · rw [if_neg behind]
    rcases @keptPart_eq result.mappings extent start plain (by omega) with
      ⟨left, pushedLeft, leftRuns⟩
    rcases @releasedPart_eq extent start stop result.releasedData plain with
      ⟨released, releasedEq, releasedBlocks⟩
    rcases @movedPart_eq (result.mappings ++ left) extent start stop plain order
      (by omega) with ⟨right, pushedRight, rightRuns⟩
    simp only [pushedLeft, releasedEq, pushedRight]
    refine ⟨_, rfl, ⟨left ++ right, append_assoc _ _ _, ?_⟩, released, rfl,
      by rwa [map_singleton, flatMap_singleton]⟩
    rw [map_append, leftRuns, rightRuns, map_singleton, flatMap_singleton]
    rfl

/-- The blocks behind `start` still have logical numbers after `count` blocks are
inserted there. -/
def ShiftFits (start count : Nat) (extent : Ext4Extent) : Prop :=
  start < extent.eeBlock + extent.len → max extent.eeBlock start + count < 2 ^ 32

theorem insertExtent_adds (plain : PlainExtent extent) (fits : ShiftFits start count extent) :
    ∃ result', insertExtent start count result extent = .ok result' ∧
      Relocated [extent] start start (start + count) result result' := by
  have positive := plain.positive
  have logicalBound := plain.logical
  have word : 2 ^ 32 < usizeMax := by decide
  have runFirst := @run_first extent
  have runStop := @run_stop extent
  have outside : extent.run.targetsBetween start start = [] := Run.targetsBetween_eq_nil (by omega)
  unfold insertExtent
  simp only [plain.ending, okOr, bind, Except.bind]
  by_cases before : extent.eeBlock + extent.len ≤ start
  · rcases @pushExtentSlice_eq result.mappings extent extent.eeBlock 0 extent.len
      plain positive (by omega) (by omega) with ⟨piece, pushed, pieceRun⟩
    rw [if_pos before, pushed]
    refine ⟨_, rfl, ⟨[piece], rfl, ?_⟩, [], by simp, by simp [outside], fun _ => rfl⟩
    rw [map_singleton, map_singleton, flatMap_singleton, pieceRun, Run.relocate,
      if_pos (by omega), if_neg (by omega)]
    congr 2
    omega
  have room := fits (by omega)
  rw [if_neg before]
  by_cases behind : extent.eeBlock ≥ start
  · rcases @pushExtentSlice_eq result.mappings extent (extent.eeBlock + count) 0
      extent.len plain positive (by omega) (by omega) with
      ⟨piece, pushed, pieceRun⟩
    have shifted : checkedAdd extent.eeBlock count =
        some (extent.eeBlock + count) := checkedAdd_eq (by omega)
    rw [if_pos behind]
    simp only [shifted, pushed]
    refine ⟨_, rfl, ⟨[piece], rfl, ?_⟩, [], by simp, by simp [outside], fun _ => rfl⟩
    rw [map_singleton, map_singleton, flatMap_singleton, pieceRun, Run.relocate,
      if_neg (by omega), if_pos (by omega)]
    congr 2 <;> omega
  · rcases @pushExtentSlice_eq result.mappings extent extent.eeBlock 0
      (start - extent.eeBlock) plain (by omega) (by omega) (by omega) with
      ⟨left, pushedLeft, leftRun⟩
    rcases @pushExtentSlice_eq (result.mappings ++ [left]) extent (start + count)
      (start - extent.eeBlock) (extent.eeBlock + extent.len - start) plain
      (by omega) (by omega) (by omega) with ⟨right, pushedRight, rightRun⟩
    have shifted : checkedAdd start count = some (start + count) := checkedAdd_eq (by omega)
    have leftLen : u32TryFrom (start - extent.eeBlock) .overflow =
        .ok (start - extent.eeBlock) := u32TryFrom_eq (by omega)
    have rightLen : u32TryFrom (extent.eeBlock + extent.len - start) .overflow =
        .ok (extent.eeBlock + extent.len - start) := u32TryFrom_eq (by omega)
    rw [if_neg behind]
    simp only [leftLen, rightLen, shifted, pushedLeft, pushedRight]
    refine ⟨_, rfl, ⟨[left, right], by simp, ?_⟩, [], by simp, by simp [outside], fun _ => rfl⟩
    rw [@map_singleton _ _ run extent, flatMap_singleton, Run.relocate, if_pos (by omega),
      if_pos (by omega)]
    have leftCount : min extent.run.stop start - extent.run.first =
        start - extent.eeBlock := by omega
    have rightFirst : start + count + (max extent.run.first start - start) =
        start + count := by omega
    have rightSkip : max extent.run.first start - extent.run.first =
        start - extent.eeBlock := by omega
    have rightCount : extent.run.stop - max extent.run.first start =
        extent.eeBlock + extent.len - start := by omega
    rw [leftCount, rightFirst, rightSkip, rightCount, map_cons, map_singleton, leftRun, rightRun]
    rfl

theorem insertExtent_refuses (plain : PlainExtent extent) (large : ¬ ShiftFits start count extent) :
    insertExtent start count result extent = .error .fileTooLarge := by
  have positive := plain.positive
  have logicalBound := plain.logical
  unfold ShiftFits at large
  push Not at large
  rcases large with ⟨overlaps, large⟩
  unfold insertExtent
  simp only [plain.ending, bind, Except.bind, okOr]
  rw [if_neg (not_le.mpr overlaps)]
  by_cases behind : extent.eeBlock ≥ start
  · unfold checkedAdd
    split_ifs
    · simp only
      rw [pushExtentSlice_eq_error positive (by omega)]
    · rfl
  · rcases @pushExtentSlice_eq result.mappings extent extent.eeBlock 0
      (start - extent.eeBlock) plain (by omega) (by omega) (by omega) with
      ⟨left, pushedLeft, _⟩
    have leftLen : u32TryFrom (start - extent.eeBlock) .overflow =
        .ok (start - extent.eeBlock) := u32TryFrom_eq (by omega)
    have rightLen : u32TryFrom (extent.eeBlock + extent.len - start) .overflow =
        .ok (extent.eeBlock + extent.len - start) := u32TryFrom_eq (by omega)
    simp only [leftLen, rightLen, pushedLeft]
    unfold checkedAdd
    split_ifs
    · simp only
      rw [pushExtentSlice_eq_error (by omega) (by omega)]
    · rfl

end

/-! ## All extents -/

section

variable {old : List Ext4Extent} {start source dest : Nat}
  {step : TransformedExtents → Ext4Extent → Except Ext4Error TransformedExtents}

theorem foldlM_relocates (each : ∀ extent ∈ old, ∀ result, ∃ result',
      step result extent = .ok result' ∧ Relocated [extent] start source dest result result')
    (result : TransformedExtents) :
    ∃ result', old.foldlM step result = .ok result' ∧
      Relocated old start source dest result result' := by
  induction old generalizing result with
  | nil =>
    exact ⟨result, rfl, ⟨[], by simp, rfl⟩, [], by simp, rfl, fun _ => rfl⟩
  | cons extent old ih =>
    rcases each extent mem_cons_self result with
      ⟨middle, stepped, ⟨pieces, mappings, runs⟩, released, blocks, targets, none⟩
    rcases ih (fun other member =>
      each other (mem_cons_of_mem _ member)) middle with
      ⟨result', folded, ⟨morePieces, moreMappings, moreRuns⟩, moreReleased,
        moreBlocks, moreTargets, moreNone⟩
    refine ⟨result', ?_, ⟨pieces ++ morePieces, ?_, ?_⟩, released ++ moreReleased, ?_, ?_, ?_⟩
    · rw [foldlM_cons, stepped]
      exact folded
    · rw [moreMappings, mappings, append_assoc]
    · rw [map_append, runs, moreRuns, ← flatMap_append]
      rfl
    · rw [moreBlocks, blocks, append_assoc]
    · rw [flatMap_append, targets, moreTargets, ← flatMap_append]
      rfl
    · intro order
      rw [none order, moreNone order, append_nil]

private theorem foldlM_insert_refuses {count : Nat} (plain : ∀ extent ∈ old, PlainExtent extent)
    (large : ∃ extent ∈ old, ¬ ShiftFits start count extent) (result : TransformedExtents) :
    old.foldlM (insertExtent start count) result = .error .fileTooLarge := by
  induction old generalizing result with
  | nil =>
    rcases large with ⟨extent, member, _⟩
    cases member
  | cons extent old ih =>
    rw [foldlM_cons]
    have here := plain extent mem_cons_self
    by_cases fits : ShiftFits start count extent
    · rcases @insertExtent_adds extent result start count here fits with ⟨middle, stepped, _⟩
      rw [stepped]
      refine ih (fun other member =>
        plain other (mem_cons_of_mem _ member)) ?_ middle
      rcases large with ⟨other, member, tooLarge⟩
      rcases mem_cons.mp member with rfl | member
      · exact absurd fits tooLarge
      · exact ⟨other, member, tooLarge⟩
    · rw [insertExtent_refuses here fits]
      rfl

/-- The extents of a relocated list: their order, what they map, and the blocks
that are mapped no more. -/
structure ShiftedTo (old : List Ext4Extent) (start source dest : Nat)
    (result : TransformedExtents) : Prop where
  ordered : Ordered (result.mappings.map run)
  mapping : ∀ lblock, mappingOf result.mappings lblock =
    if lblock < start then mappingOf old lblock
    else if lblock < dest then none
    else mappingOf old (source + (lblock - dest))
  released : result.releasedData.flatMap (fun blocks => range' blocks.1 blocks.2) =
    targetsIn (old.map run) start (source - start)
  nothing : source ≤ start → result.releasedData = []

theorem Relocated.shiftedTo {result : TransformedExtents}
    (relocated : Relocated old start source dest ⟨[], []⟩ result) (ordered : Ordered (old.map run))
    (room : start ≤ dest) (order : start ≤ source) : ShiftedTo old start source dest result := by
  rcases relocated with ⟨⟨pieces, mappings, runs⟩, released, blocks, targets, none⟩
  rw [nil_append] at mappings blocks
  refine ⟨?_, ?_, ?_, fun empty => blocks.trans (none empty)⟩
  · rw [mappings, runs]
    exact ordered_relocate room order ordered
  · intro lblock
    unfold mappingOf
    rw [mappings, runs]
    exact lookup_relocate_runs room
  · rw [blocks, targets, targetsIn_eq_flatMap ordered order]

end

/-- Collapsing and inserting move the mapping as a whole.  An insertion fails
exactly when an extent behind it would start beyond the last logical block. -/
theorem transformExtents_shifts {old : List Ext4Extent} (valid : validateLeafEntries old = .ok ())
    (physical : ∀ extent ∈ old, extent.eeStart + extent.len ≤ physicalLimit) (start count : Nat) :
    (∃ result, transformExtents old (.collapse start (start + count)) = .ok result ∧
      Ordered (result.mappings.map run) ∧
      (∀ lblock, mappingOf result.mappings lblock = if lblock < start then mappingOf old lblock
        else mappingOf old (lblock + count)) ∧
      result.releasedData.flatMap (fun blocks => range' blocks.1 blocks.2) =
        targetsIn (old.map run) start count) ∧
    ((∀ extent ∈ old, ShiftFits start count extent) → ∃ result,
      transformExtents old (.insert start count) = .ok result ∧
      Ordered (result.mappings.map run) ∧
      (∀ lblock, mappingOf result.mappings lblock = if lblock < start then mappingOf old lblock
        else if lblock < start + count then none
        else mappingOf old (lblock - count)) ∧
      result.releasedData = []) ∧
    ((∃ extent ∈ old, ¬ ShiftFits start count extent) →
      transformExtents old (.insert start count) = .error .fileTooLarge) := by
  have validExtents := validateLeafEntries_eq_ok_iff.mp valid
  have plain : ∀ extent ∈ old, PlainExtent extent := fun extent member =>
    ⟨validExtents.ordered.nonempty extent.run (mem_map_of_mem member),
      validExtents.logical extent member, physical extent member⟩
  refine ⟨?_, ?_, ?_⟩
  · rcases foldlM_relocates (fun extent member result =>
        @collapseExtent_adds extent result start (start + count)
          (plain extent member) (Nat.le_add_right _ _)) ⟨[], []⟩ with
      ⟨result, folded, relocated⟩
    have shifted := relocated.shiftedTo validExtents.ordered le_rfl (Nat.le_add_right _ _)
    refine ⟨result, folded, shifted.ordered, ?_, ?_⟩
    · intro lblock
      rw [shifted.mapping lblock]
      by_cases early : lblock < start
      · rw [if_pos early, if_pos early]
      · have moved : start + count + (lblock - start) = lblock + count := by omega
        rw [if_neg early, if_neg early, if_neg early, moved]
    · rw [shifted.released, Nat.add_sub_cancel_left]
  · intro fits
    rcases foldlM_relocates (fun extent member result =>
        @insertExtent_adds extent result start count (plain extent member)
          (fits extent member)) ⟨[], []⟩ with ⟨result, folded, relocated⟩
    have shifted := relocated.shiftedTo validExtents.ordered (Nat.le_add_right _ _) le_rfl
    refine ⟨result, folded, shifted.ordered, ?_, ?_⟩
    · intro lblock
      rw [shifted.mapping lblock]
      by_cases late : lblock < start + count
      · rw [if_pos late, if_pos late]
      · have moved : start + (lblock - (start + count)) = lblock - count := by
          omega
        rw [if_neg late, if_neg late, moved]
    · exact shifted.nothing le_rfl
  · exact fun large => foldlM_insert_refuses plain large ⟨[], []⟩

/-- Four written blocks at 0 and four unwritten ones at 10. -/
def twoExtents : List Ext4Extent := [⟨0, 4, 100⟩, ⟨10, 0x8004, 200⟩]

theorem twoExtents_shift : validateLeafEntries twoExtents = .ok () ∧ (∃ result,
        transformExtents twoExtents (.collapse 2 12) = .ok result ∧
        (∀ lblock, mappingOf result.mappings lblock = if lblock < 2 then mappingOf twoExtents lblock
          else mappingOf twoExtents (lblock + 10)) ∧
        result.releasedData.flatMap (fun blocks => range' blocks.1 blocks.2) =
          [102, 103, 200, 201]) ∧
      ∃ result, transformExtents twoExtents (.insert 2 5) = .ok result ∧
        ∀ lblock, mappingOf result.mappings lblock = if lblock < 2 then mappingOf twoExtents lblock
          else if lblock < 7 then none
          else mappingOf twoExtents (lblock - 5) := by
  have valid : validateLeafEntries twoExtents = .ok () := by decide
  have physical : ∀ extent ∈ twoExtents, extent.eeStart + extent.len ≤ physicalLimit := by decide
  have fits : ∀ extent ∈ twoExtents, ShiftFits 2 5 extent := by
    unfold ShiftFits
    decide
  refine ⟨valid, ?_, ?_⟩
  · rcases (transformExtents_shifts valid physical 2 10).1 with ⟨result, ran, _, mapping, released⟩
    exact ⟨result, ran, mapping, released.trans (by decide)⟩
  · rcases (transformExtents_shifts valid physical 2 5).2.1 fits with ⟨result, ran, _, mapping, _⟩
    exact ⟨result, ran, mapping⟩

/-- An extent behind the end of the file can be pushed out of the logical blocks
by an insertion that the file's size allows; and a piece that starts at block
`2 ^ 48` is written as one that starts at block zero. -/
theorem lateExtent_not_shifted : insertRange 4096 4096 4096 0 8192 = .ok (.insert 0 2) ∧
      validateLeafEntries [⟨2 ^ 32 - 2, 1, 1000⟩] = .ok () ∧
      transformExtents [⟨2 ^ 32 - 2, 1, 1000⟩] (.insert 0 2) = .error .fileTooLarge ∧
      validateLeafEntries [⟨0, 2, 2 ^ 48 - 1⟩] = .ok () ∧
      transformExtents [⟨0, 2, 2 ^ 48 - 1⟩] (.insert 1 1) =
        .ok ⟨[⟨0, 1, 2 ^ 48 - 1⟩, ⟨2, 1, 0⟩], []⟩ := by
  refine ⟨rfl, rfl, rfl, rfl, rfl⟩

end TgosKits
