import TgosKits.Library.IntervalMap
import TgosKits.MemorySet.Area
import TgosKits.MemorySet.GapSearch

/-!
# The memory set

`MemorySet` keeps the areas in a map ordered by start address, next to the index
of the free gaps.  An operation answers together with the set and the world it
leaves behind, whether it succeeds, fails or panics; the panics are the failed
`expect` and `assert!` of the gap index and a missing key under `areas[&start]`.
-/

namespace TgosKits

open MappingBackend (Flags)

abbrev Areas (B : Type) [MappingBackend B] := SortedMap Nat (MemoryArea B)

structure MemorySet (B : Type) [MappingBackend B] where
  areas : Areas B
  gaps : GapIndex

structure Outcome (B : Type) [MappingBackend B] (α : Type) where
  result : Answer α
  set : MemorySet B
  world : World B

def Outcome.andThen {B : Type} [MappingBackend B] (outcome : Outcome B Unit)
    (next : MemorySet B → World B → Outcome B Unit) : Outcome B Unit :=
  match outcome.result with
  | .ok () => next outcome.set outcome.world
  | _ => outcome

namespace MemorySet

variable {B : Type} [MappingBackend B]

def new : MemorySet B := ⟨SortedMap.empty, GapIndex.new⟩

/-! ## Queries -/

variable (set : MemorySet B) (range : AddrRange)

def iterOverlapping : List (MemoryArea B) :=
  let first :=
    if range.isEmpty then
      range.start
    else
      match (set.areas.lastBelow range.start).filter
          (fun entry => decide (range.start < entry.2.stop)) with
      | some (start, _) => start
      | none => range.start
  (set.areas.between first range.stop).map Prod.snd

def overlaps (set : MemorySet B) (range : AddrRange) : Bool :=
  ((set.areas.lastBelow range.start).any (fun before => before.2.vaRange.overlaps range)) ||
  ((set.areas.firstFrom range.start).any (fun after => after.2.vaRange.overlaps range))

def find (addr : Nat) : Option (MemoryArea B) :=
  SortedMap.stab MemoryArea.start MemoryArea.stop set.areas addr

def findStart (addr : Nat) : Option Nat := ((set.areas.lastAtMost addr).filter
    (fun entry => decide (entry.2.vaRange.Contains addr))).map Prod.fst

def findFreeArea (hint size : Nat) (limit : AddrRange) (align : Nat) :
    Option Nat :=
  set.gaps.find (max hint limit.start) limit.stop size align

/-! ## Growing an area and taking it back -/

/-- Publish the areas and take the range out of the gaps. -/
def occupy (areas : Areas B) (gaps : GapIndex) (range : AddrRange) (world : World B) :
    Outcome B Unit :=
  match gaps.occupy range with
  | none => ⟨.panicked, ⟨areas, gaps⟩, world⟩
  | some gaps => ⟨.ok (), ⟨areas, gaps⟩, world⟩

def extendArea (addr additionalSize : Nat) (world : World B) : Outcome B Unit :=
  if additionalSize = 0 then
    ⟨.ok (), set, world⟩
  else
    match set.findStart addr with
    | none => ⟨.err .invalidParam, set, world⟩
    | some areaStart =>
      match set.areas.get? areaStart with
      | none => ⟨.panicked, set, world⟩
      | some area =>
        match checkedAdd area.stop additionalSize with
        | none => ⟨.err .invalidParam, set, world⟩
        | some newEnd =>
          -- Only the next area can conflict with the extension.
          if (set.areas.firstFrom area.stop).any (fun next => decide (next.2.start < newEnd)) then
            ⟨.err .alreadyExists, set, world⟩
          else
            match area.growRight additionalSize world with
            | (.error error, kept, world) =>
              ⟨.err error,
                { set with areas := set.areas.insert areaStart kept },
                world⟩
            | (.ok (), grown, world) =>
              occupy (set.areas.insert areaStart grown) set.gaps ⟨area.stop, newEnd⟩ world

/-- Revert a successful extension: unmap the suffix, then shorten the area.
The area is shortened in place, so a refusing backend hook leaves its backend
in the set. -/
def rollbackExtendArea (addr additionalSize : Nat) (world : World B) :
    Outcome B Unit :=
  if additionalSize = 0 then
    ⟨.ok (), set, world⟩
  else
    match set.findStart addr with
    | none => ⟨.err .invalidParam, set, world⟩
    | some areaStart =>
      match set.areas.get? areaStart with
      | none => ⟨.err .badState, set, world⟩
      | some area =>
        if area.size ≤ additionalSize then
          ⟨.err .invalidParam, set, world⟩
        else if area.stop < additionalSize then
          ⟨.err .invalidParam, set, world⟩
        else
          match world.validateUnmap area.backend (area.stop - additionalSize) additionalSize with
          | (false, world) => ⟨.err .badState, set, world⟩
          | (true, world) =>
            match world.unmap area.backend (area.stop - additionalSize) additionalSize with
            | (false, world) => ⟨.err .needsRepair, set, world⟩
            | (true, world) =>
              match area.shrinkRightMetadata (area.size - additionalSize) with
              | (.error error, left) =>
                ⟨.err error,
                  { set with
                    areas := set.areas.insert areaStart left },
                  world⟩
              | (.ok (), shrunk) =>
                ⟨.ok (), ⟨set.areas.insert areaStart shrunk, set.gaps.release
                      ⟨area.stop - additionalSize, area.stop⟩⟩,
                  world⟩

/-! ## Metadata surgery on an unpublished map -/

/-- The loop that drops the areas starting inside the range and ending by its
end.  Each round removes an area, so the number of areas bounds the loop. -/
def removeInside : Nat → AddrRange → Areas B → Areas B
  | 0, _, areas => areas
  | fuel + 1, range, areas =>
    match areas.firstIn range.start range.stop with
    | none => areas
    | some (areaStart, area) =>
      if range.stop < area.stop then
        areas
      else
        removeInside fuel range (areas.erase areaStart)

variable (areas : Areas B)

def trimBefore : Except MappingError (Areas B) :=
  match areas.lastBelow range.start with
  | none => .ok areas
  | some (beforeStart, before) =>
    if before.stop ≤ range.start then
      .ok areas
    else if before.stop ≤ range.stop then
      match before.shrinkRightMetadata (range.start - beforeStart) with
      | (.error error, _) => .error error
      | (.ok (), left) => .ok (areas.insert beforeStart left)
    else
      match before.split range.stop with
      | (.error error, _) => .error error
      | (.ok none, _) => .error .badState
      | (.ok (some rightPart), leftPart) =>
        match leftPart.shrinkRightMetadata (range.start - beforeStart) with
        | (.error error, _) => .error error
        | (.ok (), left) =>
          if rightPart.start ≠ range.stop then
            .error .badState
          else
            .ok ((areas.insert beforeStart left).insert range.stop rightPart)

def trimAfter : Except MappingError (Areas B) :=
  match areas.firstFrom range.start with
  | none => .ok areas
  | some (afterStart, newArea) =>
    if afterStart < range.stop then
      match newArea.shrinkLeftMetadata (newArea.stop - range.stop) with
      | (.error error, _) => .error error
      | (.ok (), right) =>
        if right.start ≠ range.stop then
          .error .badState
        else
          .ok ((areas.erase afterStart).insert range.stop right)
    else
      .ok areas

def prepareUnmapMetadata : Except MappingError (Areas B) :=
  match trimBefore range (removeInside set.areas.entries.length range set.areas) with
  | .error error => .error error
  | .ok areas => trimAfter range areas

/-! ## Unmapping -/

/-- Visit the areas one after the other with the interval clipped to the range,
up to the first error. -/
def visitEach (visit : MemoryArea B → Nat → Nat → World B → Except MappingError Unit × World B)
    (range : AddrRange) : List (MemoryArea B) → World B → Except MappingError Unit × World B
  | [], world => (.ok (), world)
  | area :: rest, world =>
    match visit area (max area.start range.start)
        (min area.stop range.stop - max area.start range.start) world with
    | (.error error, world) => (.error error, world)
    | (.ok (), world) => visitEach visit range rest world

def forEachIntersectingArea
    (visit : MemoryArea B → Nat → Nat → World B → Except MappingError Unit × World B)
    (world : World B) : Except MappingError Unit × World B :=
  match (set.find range.start).filter (fun area => decide (range.stop ≤ area.stop)) with
  | some area => visit area range.start range.size world
  | none => visitEach visit range (set.iterOverlapping range) world

def validateUnmap (start size : Nat) (world : World B) :
    Except MappingError Unit × World B :=
  match AddrRange.tryFromStartSize start size with
  | none => (.error .invalidParam, world)
  | some range =>
    if range.isEmpty then
      (.ok (), world)
    else
      set.forEachIntersectingArea range MemoryArea.validateUnmapRange world

def unmap (start size : Nat) (world : World B) : Outcome B Unit :=
  match AddrRange.tryFromStartSize start size with
  | none => ⟨.err .invalidParam, set, world⟩
  | some range =>
    if range.isEmpty then
      ⟨.ok (), set, world⟩
    else
      match set.validateUnmap start size world with
      | (.error error, world) => ⟨.err error, set, world⟩
      | (.ok (), world) =>
        match set.prepareUnmapMetadata range with
        | .error error => ⟨.err error, set, world⟩
        | .ok prepared =>
          match set.forEachIntersectingArea range MemoryArea.unmapRange world with
          | (.error error, world) => ⟨.err error, set, world⟩
          | (.ok (), world) =>
            ⟨.ok (), ⟨prepared, set.gaps.release range⟩, world⟩

/-- Remove area metadata without calling the backend's unmap hook. -/
def unmapMetadata (start size : Nat) (world : World B) : Outcome B Unit :=
  match AddrRange.tryFromStartSize start size with
  | none => ⟨.err .invalidParam, set, world⟩
  | some range =>
    if range.isEmpty then
      ⟨.ok (), set, world⟩
    else
      match set.prepareUnmapMetadata range with
      | .error error => ⟨.err error, set, world⟩
      | .ok prepared =>
        ⟨.ok (), ⟨prepared, set.gaps.release range⟩, world⟩

def unmapExact (start size : Nat) (world : World B) :
    Outcome B (MemoryArea B) :=
  match checkedAdd start size with
  | none => ⟨.err .invalidParam, set, world⟩
  | some stop =>
    match (set.areas.get? start).filter (fun area => decide (area.stop = stop)) with
    | none => ⟨.err .invalidParam, set, world⟩
    | some area =>
      match area.validateUnmapRange start size world with
      | (.error _, world) => ⟨.err .badState, set, world⟩
      | (.ok (), world) =>
        match world.unmap area.backend start size with
        | (false, world) => ⟨.err .badState, set, world⟩
        | (true, world) =>
          ⟨.ok area, ⟨set.areas.erase start, set.gaps.release ⟨start, stop⟩⟩, world⟩

/-! ## Mapping -/

/-- Reinstall the portions of the old areas that lie in the range.  `false`
means that the materialized state is indeterminate. -/
def restoreAreas (range : AddrRange) : List (MemoryArea B) → World B → Bool × World B
  | [], world => (true, world)
  | area :: rest, world =>
    if range.stop ≤ area.start then
      (true, world)
    else if area.stop ≤ range.start then
      restoreAreas range rest world
    else if max area.start range.start ≤ min area.stop range.stop then
      match world.map area.backend (max area.start range.start)
          (min area.stop range.stop - max area.start range.start)
          area.flags with
      | (false, world) => (false, world)
      | (true, world) => restoreAreas range rest world
    else
      (false, world)

def restoreOverlappedMappings
    (old : Areas B) (range : AddrRange) (world : World B) : Bool × World B :=
  restoreAreas range old.values world

/-- Undo a new mapping: unmap its range, then reinstall what the backup had
there.  Both are tried, and both have to succeed. -/
def revertMapping (backup : Option (MemorySet B)) (area : MemoryArea B) (world : World B) :
    Bool × World B :=
  match world.unmap area.backend area.start area.size with
  | (revertedNew, world) =>
    match backup with
    | none => (revertedNew, world)
    | some old =>
      match restoreOverlappedMappings old.areas area.vaRange world with
      | (restoredOld, world) => (revertedNew && restoredOld, world)

/-- The second half of `map`, after the overlap has been dealt with. -/
def installArea (backup : Option (MemorySet B)) (area : MemoryArea B)
    (world : World B) : Outcome B Unit :=
  match area.mapArea world with
  | (.error error, world) =>
    match revertMapping backup area world with
    | (true, world) => ⟨.err error, backup.getD set, world⟩
    | (false, world) => ⟨.err .needsRepair, backup.getD set, world⟩
  | (.ok (), world) =>
    match set.areas.get? area.start with
    | some _ =>
      let inserted :=
        { set with areas := set.areas.insert area.start area }
      match revertMapping backup area world with
      | (true, world) => ⟨.err .badState, backup.getD inserted, world⟩
      | (false, world) => ⟨.err .needsRepair, backup.getD inserted, world⟩
    | none =>
      match checkedAdd area.start area.size with
      | none =>
        ⟨.err .invalidParam,
          { set with areas := set.areas.insert area.start area }, world⟩
      | some stop =>
        occupy (set.areas.insert area.start area) set.gaps ⟨area.start, stop⟩ world

variable (area : MemoryArea B)

def map (unmapOverlap : Bool) (world : World B) : Outcome B Unit :=
  if area.vaRange.isEmpty then
    ⟨.err .invalidParam, set, world⟩
  else if set.overlaps area.vaRange then
    if unmapOverlap then
      (set.unmap area.start area.size world).andThen
        (fun cleared world => cleared.installArea (some set) area world)
    else
      ⟨.err .alreadyExists, set, world⟩
  else
    match area.validateMap world with
    | (.error error, world) => ⟨.err error, set, world⟩
    | (.ok (), world) => set.installArea none area world

/-- Publish metadata without invoking the backend's mapping operation. -/
def insertPreparedArea (world : World B) :
    Outcome B Unit :=
  if area.vaRange.isEmpty then
    ⟨.err .invalidParam, set, world⟩
  else if set.overlaps area.vaRange then
    ⟨.err .alreadyExists, set, world⟩
  else
    match set.areas.get? area.start with
    | some _ =>
      ⟨.err .badState,
        { set with areas := set.areas.insert area.start area }, world⟩
    | none =>
      occupy (set.areas.insert area.start area) set.gaps area.vaRange world

/-! ## Metadata replacement -/

def replaceExactBackend (start size : Nat) (backend : B) (world : World B) :
    Outcome B B :=
  match checkedAdd start size with
  | none => ⟨.err .invalidParam, set, world⟩
  | some stop =>
    match (set.areas.get? start).filter (fun area => decide (area.stop = stop)) with
    | none => ⟨.err .invalidParam, set, world⟩
    | some area =>
      ⟨.ok area.backend,
        { set with
          areas := set.areas.insert start (area.withBackend backend) },
        world⟩

/-- The key of the area that contains the replacement range. -/
def containingAreaForMetadataReplacement : Except MappingError Nat :=
  if area.vaRange.isEmpty then
    .error .invalidParam
  else
    match (set.areas.lastAtMost area.start).filter (fun old => decide (old.2.start ≤ area.start ∧
          area.stop ≤ old.2.stop)) with
    | none => .error .invalidParam
    | some (oldStart, _) => .ok oldStart

/-- Split `area`, which the map no longer holds, at `position`: the left part
goes back under `start`, the right part is the answer. -/
def splitOffLeft (start : Nat) (area : MemoryArea B) (position : Nat) :
    Except MappingError (Areas B × MemoryArea B) :=
  if start < position then
    match area.split position with
    | (.error error, _) => .error error
    | (.ok none, _) => .error .badState
    | (.ok (some right), left) => .ok (areas.insert start left, right)
  else
    .ok (areas, area)

/-- Split `area` at `position`: the right part goes back under its own start,
the left part is the answer. -/
def splitOffRight (position : Nat) :
    Except MappingError (Areas B × MemoryArea B) :=
  if position < area.stop then
    match area.split position with
    | (.error error, _) => .error error
    | (.ok none, _) => .error .badState
    | (.ok (some right), left) => .ok (areas.insert right.start right, left)
  else
    .ok (areas, area)

/-- Cut `[low, high)` out of the area under `start`: the answer is the map
without that piece, and the piece. -/
def carve (start low high : Nat) : Except MappingError (Areas B × MemoryArea B) :=
  match areas.get? start with
  | none => .error .badState
  | some area =>
    match splitOffLeft (areas.erase start) start area low with
    | .error error => .error error
    | .ok (areas, middle) => splitOffRight areas middle high

def replaceAreaMetadata (world : World B) :
    Outcome B Unit :=
  match set.containingAreaForMetadataReplacement area with
  | .error error => ⟨.err error, set, world⟩
  | .ok oldStart =>
    match carve set.areas oldStart area.start area.stop with
    | .error error => ⟨.err error, set, world⟩
    | .ok (areas, _) =>
      match areas.get? area.start with
      | some _ => ⟨.err .alreadyExists, set, world⟩
      | none =>
        ⟨.ok (), { set with areas := areas.insert area.start area }, world⟩

/-! ## Clearing -/

def validateAll : List (MemoryArea B) → World B → Except MappingError Unit × World B
  | [], world => (.ok (), world)
  | area :: rest, world =>
    match area.validateUnmapRange area.start area.size world with
    | (.error error, world) => (.error error, world)
    | (.ok (), world) => validateAll rest world

/-- Unmap every area.  Only a failure of the first one is recoverable. -/
def unmapAll (index : Nat) : List (MemoryArea B) → World B → Except MappingError Unit × World B
  | [], world => (.ok (), world)
  | area :: rest, world =>
    match area.unmapArea world with
    | (.error error, world) =>
      (.error (if index = 0 then error else .needsRepair), world)
    | (.ok (), world) => unmapAll (index + 1) rest world

def clear (world : World B) : Outcome B Unit :=
  match validateAll set.areas.values world with
  | (.error error, world) => ⟨.err error, set, world⟩
  | (.ok (), world) =>
    match unmapAll 0 set.areas.values world with
    | (.error error, world) => ⟨.err error, set, world⟩
    | (.ok (), world) => ⟨.ok (), new, world⟩

/-! ## Changing flags -/

structure ProtectOperation (B : Type) [MappingBackend B] where
  areaStart : Nat
  protectStart : Nat
  protectEnd : Nat
  oldFlags : Flags B
  newFlags : Flags B
  newReportedFlags : Flags B

def ProtectOperation.size (operation : ProtectOperation B) : Nat :=
  operation.protectEnd - operation.protectStart

/-- The answer of `updateFlags` for every area that meets the range. -/
def collectOperations (start stop : Nat)
    (updateFlags : Flags B → Flags B → Option (Flags B × Flags B)) :
    List (Nat × MemoryArea B) → List (ProtectOperation B)
  | [] => []
  | (areaStart, area) :: rest =>
    if stop ≤ areaStart then
      []
    else if area.stop ≤ start then
      collectOperations start stop updateFlags rest
    else
      match updateFlags area.flags area.reportedFlags with
      | none => collectOperations start stop updateFlags rest
      | some (newFlags, newReportedFlags) =>
        ⟨areaStart, max areaStart start, min area.stop stop, area.flags,
          newFlags, newReportedFlags⟩ ::
          collectOperations start stop updateFlags rest

/-- Preflight every operation and carve its piece out of the prepared map. -/
def prepareProtect (original : Areas B) : List (ProtectOperation B) → Areas B → World B →
      Answer (Areas B) × World B
  | [], prepared, world => (.ok prepared, world)
  | operation :: rest, prepared, world =>
    match original.get? operation.areaStart with
    | none => (.panicked, world)
    | some area =>
      match world.validateProtect area.backend operation.protectStart
          operation.size operation.newFlags with
      | (false, world) => (.err .badState, world)
      | (true, world) =>
        match carve prepared operation.areaStart operation.protectStart operation.protectEnd with
        | .error error => (.err error, world)
        | .ok (areas, middle) =>
          let changed := middle.setFlagsWithReportedFlags
            operation.newFlags operation.newReportedFlags
          prepareProtect original rest (areas.insert changed.start changed) world

/-- Give the pieces their old flags back, most recent first, and remember
whether every hook agreed. -/
def restoreFlags (original : Areas B) :
    List (ProtectOperation B) → Bool → World B → Option Bool × World B
  | [], restored, world => (some restored, world)
  | operation :: rest, restored, world =>
    match original.get? operation.areaStart with
    | none => (none, world)
    | some area =>
      match area.protectRange operation.protectStart operation.size operation.oldFlags world with
      | (.ok (), world) => restoreFlags original rest restored world
      | (.error _, world) => restoreFlags original rest false world

/-- Publish the new flags piece by piece.  `done` are the operations already
published, most recent first. -/
def applyProtect (original : Areas B) :
    List (ProtectOperation B) → List (ProtectOperation B) → World B → Answer Unit × World B
  | _, [], world => (.ok (), world)
  | done, operation :: rest, world =>
    match original.get? operation.areaStart with
    | none => (.panicked, world)
    | some area =>
      match area.protectRange operation.protectStart operation.size operation.newFlags world with
      | (.ok (), world) =>
        applyProtect original (operation :: done) rest world
      | (.error error, world) =>
        match restoreFlags original (operation :: done) true world with
        | (none, world) => (.panicked, world)
        | (some true, world) => (.err error, world)
        | (some false, world) => (.err .needsRepair, world)

def protectWithReportedFlags (start size : Nat)
    (updateFlags : Flags B → Flags B → Option (Flags B × Flags B))
    (world : World B) : Outcome B Unit :=
  match checkedAdd start size with
  | none => ⟨.err .invalidParam, set, world⟩
  | some stop =>
    if size = 0 then
      ⟨.ok (), set, world⟩
    else
      let operations := collectOperations start stop updateFlags set.areas.entries
      match prepareProtect set.areas operations set.areas world with
      | (.panicked, world) => ⟨.panicked, set, world⟩
      | (.err error, world) => ⟨.err error, set, world⟩
      | (.ok prepared, world) =>
        match applyProtect set.areas [] operations world with
        | (.panicked, world) => ⟨.panicked, set, world⟩
        | (.err error, world) => ⟨.err error, set, world⟩
        | (.ok (), world) =>
          ⟨.ok (), { set with areas := prepared }, world⟩

end MemorySet

/-! ## Operations as data -/

/-- The operations of a memory set, with their arguments. -/
inductive Operation (B : Type) [MappingBackend B] where
  | map (area : MemoryArea B) (unmapOverlap : Bool)
  | insertPreparedArea (area : MemoryArea B)
  | extendArea (addr additionalSize : Nat)
  | rollbackExtendArea (addr additionalSize : Nat)
  | unmap (start size : Nat)
  | unmapMetadata (start size : Nat)
  | unmapExact (start size : Nat)
  | replaceExactBackend (start size : Nat) (backend : B)
  | replaceAreaMetadata (area : MemoryArea B)
  | protectWithReportedFlags (start size : Nat)
      (updateFlags : Flags B → Flags B → Option (Flags B × Flags B))
  | clear

variable {B : Type} [MappingBackend B]

def Answer.void {α : Type} : Answer α → Answer Unit
  | .ok _ => .ok ()
  | .err error => .err error
  | .panicked => .panicked

def Outcome.void {α : Type} (outcome : Outcome B α) : Outcome B Unit :=
  ⟨outcome.result.void, outcome.set, outcome.world⟩

def Operation.run (operation : Operation B) (set : MemorySet B) (world : World B) :
    Outcome B Unit :=
  match operation with
  | .map area unmapOverlap => set.map area unmapOverlap world
  | .insertPreparedArea area => set.insertPreparedArea area world
  | .extendArea addr additionalSize => set.extendArea addr additionalSize world
  | .rollbackExtendArea addr additionalSize =>
    set.rollbackExtendArea addr additionalSize world
  | .unmap start size => set.unmap start size world
  | .unmapMetadata start size => set.unmapMetadata start size world
  | .unmapExact start size => (set.unmapExact start size world).void
  | .replaceExactBackend start size backend =>
    (set.replaceExactBackend start size backend world).void
  | .replaceAreaMetadata area => set.replaceAreaMetadata area world
  | .protectWithReportedFlags start size updateFlags =>
    set.protectWithReportedFlags start size updateFlags world
  | .clear => set.clear world

end TgosKits
