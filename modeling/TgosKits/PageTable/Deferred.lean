import TgosKits.PageTable.Unmap

/-!
# Removal with deferred retirement (`unmap_range_deferred`)

The walk stops at entry boundaries, clears complete leaves only and detaches a table
once it is empty, from the bottom up.
-/

namespace TgosKits

def maxDeferredPageTableLevels : Nat := 8

structure DeferredRetirement where
  tables : List Nat
  retired : List (List Nat)
  panicked : Bool
  deriving DecidableEq, Repr

namespace DeferredRetirement

variable (gather : DeferredRetirement)

def finish : DeferredRetirement :=
  { gather with tables := [], retired := gather.retired ++ [gather.tables] }

def reserve : DeferredRetirement :=
  if gather.tables.length == maxDeferredPageTableLevels then
    gather.finish
  else
    gather

def tableRemoved (frame : Nat) : DeferredRetirement :=
  if gather.tables.length < maxDeferredPageTableLevels then
    { gather with tables := gather.tables ++ [frame] }
  else
    { gather with panicked := true }

/-- All frames gathered so far, in the order of their detachment. -/
def all : List Nat := gather.retired.flatten ++ gather.tables

end DeferredRetirement

/-- The state `remove_range` passes through its recursion. -/
structure RemovalState (Pte : Type) where
  memory : FrameMemory Pte
  removed : Nat
  gather : DeferredRetirement

structure RangeRemoval where
  empty : Bool
  changed : Bool
  deriving DecidableEq, Repr

/-- `remove_range` of a table, as a function of the frame and the two ends of
the range. -/
abbrev RangeWalk (Pte : Type) := Nat → Nat → Nat → RemovalState Pte →
    Except PagingError RangeRemoval × RemovalState Pte

namespace PteFormat

variable {Pte Config : Type} (format : PteFormat Pte Config) (layout : TableMeta)

/-- The end of the entry around the cursor or of the range. -/
def removalNext (level address stop : Nat) : Nat :=
  let levelSize := layout.levelSize level
  let toBoundary := levelSize - address % levelSize
  address + min toBoundary (stop - address)

/-- One round of the loop of `remove_range`; the result is whether an entry was
changed. -/
def removeEntry (child : RangeWalk Pte) (level frame stop : Nat)
    (retained : Option (Nat × Nat)) (address : Nat) (changed : Bool) (state : RemovalState Pte) :
    Except PagingError Bool × RemovalState Pte :=
  let levelSize := layout.levelSize level
  let index := layout.virtToIndex address level
  let next := removalNext layout level address stop
  let entry := state.memory frame index
  if format.unused entry then
    (.ok changed, state)
  else if level == 1 || format.huge entry true then
    if address % levelSize != 0 || next - address != levelSize then
      (.error (.invalidRange "Unmap range intersects a partial huge leaf"), state)
    else
      (.ok true,
        { memory := state.memory.store frame index (format.clear entry)
          removed := state.removed + 1
          gather := state.gather.reserve })
  else if !format.present entry then
    (.error (.hierarchyError "Non-present intermediate entry is not a leaf"), state)
  else
    let childPaddr := format.paddr entry true
    match child childPaddr address next state with
    | (.error error, state) => (.error error, state)
    | (.ok childRemoved, state) =>
      if childRemoved.empty && childRemoved.changed && !isRetained retained index then
        (.ok true,
          { state with
            memory := state.memory.store frame index (format.clear entry)
            gather := state.gather.reserve.tableRemoved childPaddr })
      else
        (.ok (changed || childRemoved.changed), state)

/-- The loop of `remove_range`; the length of the range is enough fuel. -/
def removeLoop (child : RangeWalk Pte) (level frame stop : Nat) (retained : Option (Nat × Nat)) :
    Nat → Nat → Bool → RemovalState Pte → Except PagingError RangeRemoval × RemovalState Pte
  | 0, _, changed, state =>
    (.ok ⟨format.allUnused layout state.memory level frame, changed⟩, state)
  | fuel + 1, address, changed, state =>
    if address < stop then
      match format.removeEntry layout child level frame stop retained address changed state with
      | (.error error, state) => (.error error, state)
      | (.ok changed, state) =>
        removeLoop child level frame stop retained fuel
          (removalNext layout level address stop) changed state
    else
      (.ok ⟨format.allUnused layout state.memory level frame, changed⟩, state)

def removeRange : Nat → Option (Nat × Nat) → RangeWalk Pte
  | 0, _ => fun _ _ _ state =>
    (.error (.hierarchyError "Invalid level"), state)
  | level + 1, retained => fun frame start stop state =>
    format.removeLoop layout (removeRange level none) (level + 1) frame stop
      retained (stop - start) start false state

end PteFormat

namespace PageTableRef

variable {Pte Config : Type} (format : PteFormat Pte Config)
  (layout : TableMeta) (table : PageTableRef)

def validateOwnedUnmapRange (start stop : Nat) : Except PagingError Unit :=
  if stop < start then
    .error (.invalidRange "Unmap range is reversed")
  else if stop - start == 0 then
    .ok ()
  else
    match validateUnmapParams layout start (stop - start) with
    | .error error => .error error
    | .ok () =>
      validateAddressWidth layout start (stop - start) "unmap_owned"

/-- `unmap_range_deferred`: the number of leaves removed, the memory and the
batches handed to `retire`, with a flag for a full batch. -/
def unmapRangeDeferred (start stop : Nat) (memory : FrameMemory Pte) :
    Except PagingError Nat × FrameMemory Pte × DeferredRetirement :=
  let gather : DeferredRetirement := ⟨[], [], false⟩
  match validateOwnedUnmapRange layout start stop with
  | .error error => (.error error, memory, gather)
  | .ok () =>
    if stop ≤ start then
      (.ok 0, memory, gather)
    else if layout.ptLevel > maxDeferredPageTableLevels then
      (.error (.hierarchyError
        "Page-table depth exceeds deferred reclaim capacity"), memory, gather)
    else
      let outcome := format.removeRange layout layout.ptLevel
        table.retainedRootEntries table.root start stop ⟨memory, 0, gather⟩
      let gather :=
        if outcome.2.removed != 0 then outcome.2.gather.finish
        else outcome.2.gather
      (outcome.1.map (fun _ => outcome.2.removed), outcome.2.memory, gather)

end PageTableRef

end TgosKits
