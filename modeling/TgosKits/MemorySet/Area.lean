import TgosKits.MemorySet.Backend

/-!
# Memory areas

An area is a range of addresses with its flags and its backend.  The
constructors of the source never produce a range that is reversed or leaves the
address space, so both facts are fields.

The metadata operations take `&mut self`: they answer together with the area
they leave behind, which on a refused backend hook is the old area with the
backend as the hook left it.
-/

namespace TgosKits

open MappingBackend (Flags)

/-- A continuous range of virtual memory with the same flags. -/
structure MemoryArea (B : Type) [MappingBackend B] where
  vaRange : AddrRange
  flags : Flags B
  reportedFlags : Flags B
  maxFlags : Flags B
  backend : B
  ordered : vaRange.start ≤ vaRange.stop
  bounded : vaRange.stop ≤ usizeMax

/-- The attributes an address inherits from the area that contains it. -/
structure Attributes (B : Type) [MappingBackend B] where
  flags : Flags B
  reportedFlags : Flags B
  maxFlags : Flags B

namespace MemoryArea

variable {B : Type} [MappingBackend B] (area : MemoryArea B)

def start : Nat := area.vaRange.start

def stop : Nat := area.vaRange.stop

def size : Nat := area.vaRange.size

def attributes : Attributes B :=
  ⟨area.flags, area.reportedFlags, area.maxFlags⟩

theorem start_le_stop : area.start ≤ area.stop := area.ordered

theorem stop_le_usizeMax : area.stop ≤ usizeMax := area.bounded

theorem size_eq : area.size = area.stop - area.start := rfl

theorem start_add_size : area.start + area.size = area.stop :=
  Nat.add_sub_cancel' area.ordered

theorem checkedAdd_start_size : checkedAdd area.start area.size = some area.stop :=
  checkedAdd_eq_some_iff.mpr ⟨area.start_add_size.symm, area.start_add_size.symm ▸ area.bounded⟩

def tryNewWithPermissions
    (start size : Nat) (flags reportedFlags maxFlags : Flags B) (backend : B) :
    Except MappingError (MemoryArea B) :=
  if fits : start + size ≤ usizeMax then
    if size = 0 then
      .error .invalidParam
    else
      .ok ⟨⟨start, start + size⟩, flags, reportedFlags, maxFlags, backend,
        Nat.le_add_right start size, fits⟩
  else
    .error .invalidParam

def tryNew (start size : Nat) (flags : Flags B) (backend : B) :
    Except MappingError (MemoryArea B) :=
  tryNewWithPermissions start size flags flags flags backend

def withStop (stop : Nat) (above : area.start ≤ stop) (below : stop ≤ usizeMax) : MemoryArea B :=
  { area with
    vaRange := ⟨area.start, stop⟩
    ordered := above
    bounded := below }

def withStart (start : Nat) (below : start ≤ area.stop) : MemoryArea B :=
  { area with
    vaRange := ⟨start, area.stop⟩
    ordered := below
    bounded := area.bounded }

def withBackend (backend : B) : MemoryArea B :=
  { area with backend := backend }

def setFlagsWithReportedFlags (newFlags newReportedFlags : Flags B) : MemoryArea B :=
  { area with flags := newFlags, reportedFlags := newReportedFlags }

/-! ## Page-table operations -/

def mapArea (world : World B) : Except MappingError Unit × World B :=
  okOrBadState (world.map area.backend area.start area.size area.flags)

def validateMap (world : World B) : Except MappingError Unit × World B :=
  okOrBadState (world.validateMap area.backend area.start area.size area.flags)

def unmapRange (start size : Nat) (world : World B) :
    Except MappingError Unit × World B :=
  okOrBadState (world.unmap area.backend start size)

def unmapArea (world : World B) : Except MappingError Unit × World B :=
  area.unmapRange area.start area.size world

def validateUnmapRange (start size : Nat) (world : World B) :
    Except MappingError Unit × World B :=
  okOrBadState (world.validateUnmap area.backend start size)

def protectRange (start size : Nat) (newFlags : Flags B)
    (world : World B) : Except MappingError Unit × World B :=
  okOrBadState (world.protect area.backend start size newFlags)

/-! ## Metadata operations -/

def shrinkLeftMetadata (newSize : Nat) :
    Except MappingError Unit × MemoryArea B :=
  if refused : newSize = 0 ∨ area.size ≤ newSize then
    (.error .invalidParam, area)
  else
    if area.start + (area.size - newSize) ≤ usizeMax then
      match MappingBackend.shrinkLeft area.backend (area.size - newSize) with
      | (false, backend) => (.error .badState, area.withBackend backend)
      | (true, backend) =>
        (.ok (), (area.withStart (area.start + (area.size - newSize)) (by
          have := area.size_eq
          have := area.start_le_stop
          omega)).withBackend backend)
    else
      (.error .invalidParam, area)

/-- Gives up the end of the area, not its mappings. -/
def shrinkRightMetadata (newSize : Nat) :
    Except MappingError Unit × MemoryArea B :=
  if refused : newSize = 0 ∨ area.size ≤ newSize then
    (.error .invalidParam, area)
  else
    if area.size - newSize ≤ area.stop then
      match MappingBackend.shrinkRight area.backend (area.size - newSize) with
      | (false, backend) => (.error .badState, area.withBackend backend)
      | (true, backend) =>
        (.ok (), (area.withStop (area.stop - (area.size - newSize)) (by
            have := area.size_eq
            have := area.start_le_stop
            omega)
          (by
            have := area.stop_le_usizeMax
            omega)).withBackend backend)
    else
      (.error .invalidParam, area)

/-- Maps the pages behind the area as well. -/
def growRight (additionalSize : Nat) (world : World B) :
    Except MappingError Unit × MemoryArea B × World B :=
  if additionalSize = 0 ∨ isAligned area.stop pageSize4K = false ∨
      additionalSize % pageSize4K ≠ 0 then
    (.error .invalidParam, area, world)
  else
    if fits : area.stop + additionalSize ≤ usizeMax then
      match world.validateMap area.backend area.stop additionalSize area.flags with
      | (false, world) => (.error .badState, area, world)
      | (true, world) =>
        match world.map area.backend area.stop additionalSize area.flags with
        | (false, world) =>
          -- A failed map may have written a prefix: try its inverse.
          match world.unmap area.backend area.stop additionalSize with
          | (true, world) => (.error .badState, area, world)
          | (false, world) => (.error .needsRepair, area, world)
        | (true, world) =>
          (.ok (), area.withStop (area.stop + additionalSize)
            (area.start_le_stop.trans (Nat.le_add_right _ _)) fits, world)
    else
      (.error .invalidParam, area, world)

/-- Split at `position`: the area keeps the left part, the right part is the
answer.  There is no right part when one of the two would be empty. -/
def split (position : Nat) :
    Except MappingError (Option (MemoryArea B)) × MemoryArea B :=
  if inside : area.start < position ∧ position < area.stop then
    match MappingBackend.split area.backend (position - area.start) with
    | (none, backend) => (.error .badState, area.withBackend backend)
    | (some right, backend) =>
      (.ok (some ((area.withStart position inside.2.le).withBackend right)),
        (area.withStop position inside.1.le
          (inside.2.le.trans area.stop_le_usizeMax)).withBackend backend)
  else
    (.ok none, area)

/-! ## What a metadata operation can do -/

variable {area shrunk left : MemoryArea B} {newSize additionalSize : Nat}

theorem shrinkLeftMetadata_ok (done : area.shrinkLeftMetadata newSize = (.ok (), shrunk)) :
    shrunk.start = area.stop - newSize ∧ shrunk.stop = area.stop ∧
      shrunk.attributes = area.attributes := by
  have sizeEq := area.size_eq
  unfold shrinkLeftMetadata at done
  split at done
  · cases done
  split at done
  · split at done
    · cases done
    cases done
    exact ⟨show area.start + (area.size - newSize) = _ by omega, rfl, rfl⟩
  · cases done

theorem shrinkRightMetadata_ok (done : area.shrinkRightMetadata newSize = (.ok (), shrunk)) :
    shrunk.start = area.start ∧ shrunk.stop = area.start + newSize ∧
      shrunk.attributes = area.attributes := by
  have sizeEq := area.size_eq
  unfold shrinkRightMetadata at done
  split at done
  · cases done
  split at done
  · split at done
    · cases done
    cases done
    exact ⟨rfl, show area.stop - (area.size - newSize) = _ by omega, rfl⟩
  · cases done

theorem shrinkRightMetadata_error {error : MappingError}
    (refusal : area.shrinkRightMetadata newSize = (.error error, left))
    (positive : 0 < newSize) (shorter : newSize < area.size) :
    ∃ backend, MappingBackend.shrinkRight area.backend (area.size - newSize) = (false, backend) ∧
      error = .badState ∧ left = area.withBackend backend := by
  have sizeEq := area.size_eq
  unfold shrinkRightMetadata at refusal
  rw [dif_neg (by omega), if_pos (by omega)] at refusal
  split at refusal
  · rename_i backend hook
    cases refusal
    exact ⟨backend, hook, rfl, rfl⟩
  · cases refusal

theorem split_ok {right : MemoryArea B} {position : Nat}
    (done : area.split position = (.ok (some right), left)) :
    left.start = area.start ∧ left.stop = position ∧ right.start = position ∧
      right.stop = area.stop ∧ left.attributes = area.attributes ∧
      right.attributes = area.attributes := by
  unfold split at done
  split at done
  · split at done
    · cases done
    · cases done
      exact ⟨rfl, rfl, rfl, rfl, rfl, rfl⟩
  · cases done

theorem growRight_ok {grown : MemoryArea B} {world after : World B}
    (done : area.growRight additionalSize world = (.ok (), grown, after)) :
    grown.start = area.start ∧ grown.stop = area.stop + additionalSize ∧
      grown.attributes = area.attributes ∧ 0 < additionalSize := by
  unfold growRight at done
  split at done
  · cases done
  rename_i accepted
  split at done
  · split at done
    · cases done
    split at done
    · split at done <;> cases done
    · cases done
      exact ⟨rfl, rfl, rfl, by omega⟩
  · cases done

theorem growRight_error {kept : MemoryArea B} {world after : World B} {error : MappingError}
    (refusal : area.growRight additionalSize world = (.error error, kept, after)) :
    kept = area := by
  unfold growRight at refusal
  split at refusal
  · cases refusal
    rfl
  split at refusal
  · split at refusal
    · cases refusal
      rfl
    · split at refusal
      · split at refusal <;> cases refusal <;> rfl
      · cases refusal
  · cases refusal
    rfl

end MemoryArea

end TgosKits
