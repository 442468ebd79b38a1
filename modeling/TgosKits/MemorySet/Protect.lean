import TgosKits.MemorySet.Surgery

/-! # Changing flags -/

namespace TgosKits

open List

open MappingBackend (Flags)
open MemorySet (ProtectOperation collectOperations prepareProtect restoreFlags applyProtect carve)

variable {B : Type} [MappingBackend B]

namespace MemorySet.ProtectOperation

def Covers (operation : ProtectOperation B) (addr : Nat) : Prop :=
  operation.protectStart ≤ addr ∧ addr < operation.protectEnd

/-- An operation on `area`, as collected for the range `[start, stop)`. -/
structure Concerns (operation : ProtectOperation B) (start stop : Nat)
    (updateFlags : Flags B → Flags B → Option (Flags B × Flags B))
    (area : MemoryArea B) : Prop where
  startEq : operation.areaStart = area.start
  protectStartEq : operation.protectStart = max area.start start
  protectEndEq : operation.protectEnd = min area.stop stop
  nonempty : operation.protectStart < operation.protectEnd
  oldFlagsEq : operation.oldFlags = area.flags
  answered : updateFlags area.flags area.reportedFlags =
    some (operation.newFlags, operation.newReportedFlags)

end MemorySet.ProtectOperation

namespace Areas

variable {areas original prepared after : Areas B} {start stop : Nat}
  {updateFlags : Flags B → Flags B → Option (Flags B × Flags B)}

/-- The operations belong to areas of the map, in increasing order. -/
structure Collected (original : Areas B) (start stop : Nat)
    (updateFlags : Flags B → Flags B → Option (Flags B × Flags B))
    (operations : List (ProtectOperation B)) : Prop where
  concerns : ∀ operation ∈ operations, ∃ area, original.get? operation.areaStart = some area ∧
      operation.Concerns start stop updateFlags area
  increasing : operations.Pairwise (fun earlier later => earlier.areaStart < later.areaStart)

variable {operation : ProtectOperation B} {rest : List (ProtectOperation B)}

theorem Collected.tail (collected : Collected original start stop updateFlags (operation :: rest)) :
    Collected original start stop updateFlags rest :=
  ⟨fun later member =>
      collected.concerns later (mem_cons_of_mem operation member),
    (pairwise_cons.mp collected.increasing).2⟩

/-- Collecting from a sorted list of entries of a tiled map: every operation
belongs to an entry, and every entry that meets the range and has an answer
gets its operation, although the loop stops at the first entry behind it. -/
theorem collectOperations_spec (updateFlags : Flags B → Flags B → Option (Flags B × Flags B))
    (tiled : original.Tiled) (nonempty : start < stop) (entries : List (Nat × MemoryArea B))
    (sorted : entries.Pairwise (fun left right => left.1 < right.1))
    (members : ∀ entry ∈ entries, original.get? entry.1 = some entry.2) :
    Collected original start stop updateFlags (collectOperations start stop updateFlags entries) ∧
      (∀ operation ∈ collectOperations start stop updateFlags entries,
        ∃ area, (operation.areaStart, area) ∈ entries) ∧
      ∀ entry ∈ entries, entry.1 < stop → start < entry.2.stop →
        updateFlags entry.2.flags entry.2.reportedFlags ≠ none →
        ∃ operation ∈ collectOperations start stop updateFlags entries,
          operation.areaStart = entry.1 := by
  induction entries with
  | nil =>
    simp only [collectOperations]
    exact ⟨⟨by simp, .nil⟩, by simp, by simp⟩
  | cons entry rest ih =>
    rcases entry with ⟨areaStart, area⟩
    obtain ⟨headLess, restSorted⟩ := pairwise_cons.mp sorted
    have bound : original.get? areaStart = some area := members _ mem_cons_self
    have startEq : area.start = areaStart := tiled.keyed bound
    have areaNonempty := tiled.nonempty bound
    obtain ⟨restCollected, restMembers, restComplete⟩ := ih restSorted
        (fun entry member => members entry (mem_cons_of_mem _ member))
    have restStarts : ∀ operation ∈ collectOperations start stop updateFlags rest,
        ∃ other, (operation.areaStart, other) ∈ (areaStart, area) :: rest := by
      intro operation member
      obtain ⟨other, otherMember⟩ := restMembers operation member
      exact ⟨other, mem_cons_of_mem _ otherMember⟩
    simp only [collectOperations]
    split_ifs with behind before
    · -- The loop stops; the later entries lie behind the range as well.
      refine ⟨⟨by simp, .nil⟩, by simp, ?_⟩
      intro entry member early _ _
      rcases mem_cons.mp member with rfl | inRest
      · exact absurd behind (not_le.mpr early)
      · have := headLess entry inRest
        omega
    · refine ⟨restCollected, restStarts, ?_⟩
      intro entry member early late answered
      rcases mem_cons.mp member with rfl | inRest
      · exact absurd before (not_le.mpr late)
      · exact restComplete entry inRest early late answered
    cases answer : updateFlags area.flags area.reportedFlags with
    | none =>
      refine ⟨restCollected, restStarts, ?_⟩
      intro entry member early late answered
      rcases mem_cons.mp member with rfl | inRest
      · exact absurd answer answered
      · exact restComplete entry inRest early late answered
    | some flags =>
      refine ⟨⟨?_, ?_⟩, ?_, ?_⟩
      · intro operation member
        rcases mem_cons.mp member with rfl | inRest
        · refine ⟨area, bound, startEq.symm, ?_, rfl, ?_, rfl, answer⟩
          · rw [startEq]
          · simp only
            omega
        · exact restCollected.concerns operation inRest
      · refine pairwise_cons.mpr ⟨?_, restCollected.increasing⟩
        intro operation member
        obtain ⟨other, otherMember⟩ := restMembers operation member
        exact headLess _ otherMember
      · intro operation member
        rcases mem_cons.mp member with rfl | inRest
        · exact ⟨area, mem_cons_self⟩
        · exact restStarts operation inRest
      · intro entry member early late answered
        rcases mem_cons.mp member with rfl | inRest
        · exact ⟨_, mem_cons_self, rfl⟩
        · obtain ⟨operation, operationMember, same⟩ := restComplete entry inRest early late answered
          exact ⟨operation, mem_cons_of_mem _ operationMember, same⟩

theorem concerns_within {area : MemoryArea B} {addr : Nat}
    (concern : operation.Concerns start stop updateFlags area) (covered : operation.Covers addr) :
    area.start ≤ addr ∧ addr < area.stop := by
  have low := concern.protectStartEq
  have high := concern.protectEndEq
  obtain ⟨above, below⟩ := covered
  omega

section

variable (tiled : original.Tiled)
  (collected : Collected original start stop updateFlags (operation :: rest))
include tiled collected

theorem Collected.disjoint {later : ProtectOperation B} (member : later ∈ rest) {addr : Nat}
    (covered : operation.Covers addr) : ¬ later.Covers addr := by
  obtain ⟨area, bound, concern⟩ := collected.concerns operation mem_cons_self
  obtain ⟨laterArea, laterBound, laterConcern⟩ := collected.tail.concerns later member
  have order := (pairwise_cons.mp collected.increasing).1 later member
  have apart := tiled.ordered bound laterBound order
  intro laterCovered
  have inside := concerns_within concern covered
  have laterInside := concerns_within laterConcern laterCovered
  omega

theorem Collected.untouched_tail {area : MemoryArea B}
    (bound : original.get? operation.areaStart = some area)
    (untouched : ∀ later ∈ operation :: rest,
      prepared.get? later.areaStart = original.get? later.areaStart)
    (behind : ∀ key, area.stop ≤ key → after.get? key = prepared.get? key) :
    ∀ later ∈ rest, after.get? later.areaStart = original.get? later.areaStart := by
  intro later member
  obtain ⟨laterArea, laterBound, laterConcern⟩ := collected.tail.concerns later member
  have order := (pairwise_cons.mp collected.increasing).1 later member
  have apart := tiled.ordered bound laterBound order
  rw [behind _ (by rw [laterConcern.startEq]; exact apart)]
  exact untouched later (mem_cons_of_mem _ member)

end

/-- One round of the preparation: the piece has its new flags, everything else
is as before, and the areas of later operations are untouched. -/
theorem changed_spec (tiled : prepared.Tiled) {area middle : MemoryArea B}
    {carvedAreas : Areas B} (bound : prepared.get? operation.areaStart = some area)
    (concern : operation.Concerns start stop updateFlags area)
    (carved : carve prepared operation.areaStart operation.protectStart
      operation.protectEnd = .ok (carvedAreas, middle)) :
    let changed := middle.setFlagsWithReportedFlags operation.newFlags operation.newReportedFlags
    Tiled (carvedAreas.insert changed.start changed) ∧ (∀ addr, operation.Covers addr →
        view (carvedAreas.insert changed.start changed) addr =
          some ⟨operation.newFlags, operation.newReportedFlags, area.maxFlags⟩) ∧
      (∀ addr, ¬ operation.Covers addr → view (carvedAreas.insert changed.start changed) addr =
          prepared.view addr) ∧
      ∀ key, area.stop ≤ key → (carvedAreas.insert changed.start changed).get? key =
          prepared.get? key := by
  intro changed
  have changedStart : changed.start = middle.start := rfl
  have changedStop : changed.stop = middle.stop := rfl
  have changedAttributes : changed.attributes =
      ⟨operation.newFlags, operation.newReportedFlags, middle.maxFlags⟩ := rfl
  clear_value changed
  have low := concern.protectStartEq
  have high := concern.protectEndEq
  have nonempty := concern.nonempty
  rw [concern.startEq] at bound carved
  obtain ⟨carvedTiled, middleStart, middleStop, middleAttributes, carvedView,
    others⟩ := carve_spec tiled bound (by omega) nonempty (by omega) carved
  have maxEq : middle.maxFlags = area.maxFlags := congrArg Attributes.maxFlags middleAttributes
  have vacant : ∀ addr, changed.start ≤ addr → addr < changed.stop →
      carvedAreas.view addr = none := by
    intro addr above below
    rw [carvedView, if_pos (by omega)]
  obtain ⟨insertedTiled, insertedView⟩ := carvedTiled.inserted (by omega) vacant
  refine ⟨insertedTiled, fun addr covered => ?_, fun addr uncovered => ?_, fun key behind => ?_⟩
  · obtain ⟨above, below⟩ := covered
    rw [insertedView, if_pos (by omega), changedAttributes, maxEq]
  · have outside : ¬ (operation.protectStart ≤ addr ∧ addr < operation.protectEnd) := uncovered
    rw [insertedView, if_neg (by omega), carvedView, if_neg outside]
  · rw [SortedMap.get?_insert, if_neg (by omega), others key (by omega)]

/-- What the prepared map looks like: the pieces have their new flags and the
other addresses are as before. -/
structure FlagsChanged (original before : Areas B) (operations : List (ProtectOperation B))
    (after : Areas B) : Prop where
  tiled : after.Tiled
  covered : ∀ operation ∈ operations, ∀ area, original.get? operation.areaStart = some area →
    ∀ addr, operation.Covers addr → after.view addr =
        some ⟨operation.newFlags, operation.newReportedFlags, area.maxFlags⟩
  uncovered : ∀ addr, (∀ operation ∈ operations, ¬ operation.Covers addr) →
    after.view addr = before.view addr

section

variable (operations : List (ProtectOperation B))
  (collected : Collected original start stop updateFlags operations)
include operations collected

theorem prepareProtect_spec (originalTiled : original.Tiled) (tiled : prepared.Tiled)
    (untouched : ∀ operation ∈ operations,
      prepared.get? operation.areaStart = original.get? operation.areaStart)
    {world worldAfter : World B}
    (done : prepareProtect original operations prepared world = (.ok after, worldAfter)) :
    FlagsChanged original prepared operations after := by
  induction operations generalizing prepared world with
  | nil =>
    cases done
    exact ⟨tiled, by simp, fun _ _ => rfl⟩
  | cons operation rest ih =>
    obtain ⟨area, bound, concern⟩ := collected.concerns operation mem_cons_self
    have preparedBound : prepared.get? operation.areaStart = some area :=
      (untouched operation mem_cons_self).trans bound
    simp only [prepareProtect, bound] at done
    split at done
    · cases done
    split at done
    · cases done
    rename_i carvedAreas middle carved
    obtain ⟨changedTiled, changedCovered, changedUncovered, changedBehind⟩ :=
      changed_spec tiled preparedBound concern carved
    have restUntouched := collected.untouched_tail originalTiled bound untouched changedBehind
    have restDone := ih collected.tail changedTiled restUntouched done
    refine ⟨restDone.tiled, ?_, ?_⟩
    · intro changed member owner ownerBound addr covered
      rcases mem_cons.mp member with rfl | inRest
      · cases bound.symm.trans ownerBound
        rw [restDone.uncovered addr (fun later laterMember =>
          collected.disjoint originalTiled laterMember covered)]
        exact changedCovered addr covered
      · exact restDone.covered changed inRest owner ownerBound addr covered
    · intro addr uncovered
      rw [restDone.uncovered addr (fun later laterMember =>
        uncovered later (mem_cons_of_mem _ laterMember))]
      exact changedUncovered addr (uncovered operation mem_cons_self)

theorem prepareProtect_ne_panicked (prepared : Areas B) (world : World B) :
    (prepareProtect original operations prepared world).1 ≠ .panicked := by
  induction operations generalizing prepared world with
  | nil => simp [prepareProtect]
  | cons operation rest ih =>
    obtain ⟨area, bound, -⟩ := collected.concerns operation mem_cons_self
    simp only [prepareProtect, bound]
    split
    · simp
    · split
      · simp
      · exact ih collected.tail _ _

end

private theorem restoreFlags_ne_none (operations : List (ProtectOperation B))
    (present : ∀ operation ∈ operations, ∃ area, original.get? operation.areaStart = some area)
    (restored : Bool) (world : World B) :
    (restoreFlags original operations restored world).1 ≠ none := by
  induction operations generalizing restored world with
  | nil => simp [restoreFlags]
  | cons operation rest ih =>
    obtain ⟨⟨area, bound⟩, restPresent⟩ := forall_mem_cons.mp present
    simp only [restoreFlags, bound]
    split <;> exact ih restPresent _ _

theorem applyProtect_ne_panicked (operations done : List (ProtectOperation B))
    (present : ∀ operation ∈ operations ++ done, ∃ area,
      original.get? operation.areaStart = some area) (world : World B) :
    (applyProtect original done operations world).1 ≠ .panicked := by
  induction operations generalizing done world with
  | nil => simp [applyProtect]
  | cons operation rest ih =>
    obtain ⟨area, bound⟩ := present operation (by simp)
    simp only [applyProtect, bound]
    split
    · apply ih
      intro other member
      apply present other
      simp only [mem_append, mem_cons] at member ⊢
      tauto
    · have restorable := restoreFlags_ne_none (operation :: done)
        (fun other member => present other (by
          simp only [mem_append, mem_cons] at member ⊢
          tauto)) true
      split
      · rename_i failed
        exact absurd (congrArg Prod.fst failed) (restorable _)
      · simp
      · simp

end Areas

end TgosKits
