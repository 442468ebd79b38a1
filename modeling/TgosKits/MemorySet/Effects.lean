import TgosKits.MemorySet.Invariant

/-! # Effects of the operations -/

namespace TgosKits.MemorySet

open AddrRange Areas SortedMap AddressMap MemoryArea Option

open MappingBackend (Flags)

variable {B : Type} [MappingBackend B] {set : MemorySet B} {area : MemoryArea B}

theorem Invariant.insert (invariant : set.Invariant) (nonempty : area.start < area.stop)
    (vacant : ∀ addr, area.vaRange.Contains addr → set.contents addr = none) (world : World B) :
    Achieves () (set.contents.fill area.vaRange area.attributes)
      (MemorySet.occupy (set.areas.insert area.start area) set.gaps area.vaRange world) := by
  obtain ⟨insertedTiled, insertedView⟩ := invariant.tiled.inserted nonempty
      (fun addr above below => vacant addr ⟨above, below⟩)
  exact invariant.occupy nonempty area.stop_le_usizeMax vacant insertedTiled
    (funext insertedView) world

theorem insertPreparedArea_effect
    (invariant : set.Invariant) (area : MemoryArea B) (world : World B) :
    Effect set (set.contents.fill area.vaRange area.attributes)
      (set.insertPreparedArea area world) := by
  unfold insertPreparedArea
  split_ifs with empty overlap
  · exact .failed _ rfl rfl
  · exact .failed _ rfl rfl
  have nonempty : area.start < area.stop := not_isEmpty_iff.mp empty
  have vacant : ∀ addr, area.vaRange.Contains addr → set.contents addr = none :=
    fun addr => overlaps_eq_false invariant.tiled (Bool.not_eq_true _ ▸ overlap)
  have free := invariant.tiled.get?_eq_none (vacant area.start ⟨le_rfl, nonempty⟩)
  rw [free]
  exact .done () (invariant.insert nonempty vacant world)

section

variable (invariant : set.Invariant) (start size : Nat) (world : World B)
include invariant start size world

theorem unmapMetadata_effect : Effect set (set.contents.clear ⟨start, start + size⟩)
      (set.unmapMetadata start size world) := by
  unfold unmapMetadata
  cases accepted : tryFromStartSize start size with
  | none => exact .failed _ rfl rfl
  | some range =>
    obtain rfl := tryFromStartSize_eq_some accepted
    simp only
    split_ifs with empty
    · exact .done () ⟨rfl, invariant, (clear_empty
        (fun order => not_isEmpty_iff.mpr order empty)).symm⟩
    split
    · exact .failed _ rfl rfl
    rename_i prepared preparedOk
    have order : start < start + size := not_isEmpty_iff.mp empty
    obtain ⟨tiled, viewEq⟩ := prepareUnmapMetadata_spec invariant.tiled order preparedOk
    exact .done () ⟨rfl, invariant.release order tiled (funext viewEq), funext viewEq⟩

theorem unmap_effect : Effect set (set.contents.clear ⟨start, start + size⟩)
      (set.unmap start size world) := by
  unfold unmap
  cases accepted : tryFromStartSize start size with
  | none => exact .failed _ rfl rfl
  | some range =>
    obtain rfl := tryFromStartSize_eq_some accepted
    simp only
    split_ifs with empty
    · exact .done () ⟨rfl, invariant, (clear_empty
        (fun order => not_isEmpty_iff.mpr order empty)).symm⟩
    split
    · exact .failed _ rfl rfl
    split
    · exact .failed _ rfl rfl
    rename_i prepared preparedOk
    split
    · exact .failed _ rfl rfl
    have order : start < start + size := not_isEmpty_iff.mp empty
    obtain ⟨tiled, viewEq⟩ := prepareUnmapMetadata_spec invariant.tiled order preparedOk
    exact .done () ⟨rfl, invariant.release order tiled (funext viewEq), funext viewEq⟩

theorem unmapExact_effect : Effect set (set.contents.clear ⟨start, start + size⟩)
      (set.unmapExact start size world) := by
  unfold unmapExact
  cases sum : checkedAdd start size with
  | none => exact .failed _ rfl rfl
  | some stop =>
    obtain ⟨rfl, -⟩ := checkedAdd_eq_some_iff.mp sum
    simp only
    split
    · exact .failed _ rfl rfl
    rename_i area found
    simp only [filter_eq_some_iff, decide_eq_true_eq] at found
    obtain ⟨bound, stopEq⟩ := found
    have startEq : area.start = start := invariant.tiled.keyed bound
    have nonempty := invariant.tiled.nonempty bound
    split
    · exact .failed _ rfl rfl
    split
    · exact .failed _ rfl rfl
    obtain ⟨erasedTiled, erasedView⟩ := invariant.tiled.erased bound
    rw [startEq, stopEq] at erasedView
    exact .done area ⟨rfl, invariant.release (by simp only; omega) erasedTiled
      (funext erasedView), funext erasedView⟩

end

/-! ### Mapping -/

/-- The second half of `map`, started where the range is unmapped.  Its errors
give the backup back. -/
theorem installArea_effect {cleared : MemorySet B} (invariant : cleared.Invariant)
    {backup : Option (MemorySet B)} (kept : backup.getD cleared = set)
    (nonempty : area.start < area.stop)
    (vacant : ∀ addr, area.vaRange.Contains addr → cleared.contents addr = none) (world : World B) :
    Effect set (cleared.contents.fill area.vaRange area.attributes)
      (cleared.installArea backup area world) := by
  unfold installArea
  split
  · split <;> exact .failed _ rfl kept
  rename_i mapped _
  have free := invariant.tiled.get?_eq_none (vacant area.start ⟨le_rfl, nonempty⟩)
  simp only [free, area.checkedAdd_start_size]
  exact .done () (invariant.insert nonempty vacant mapped)

theorem map_effect (invariant : set.Invariant) (area : MemoryArea B) (unmapOverlap : Bool)
    (world : World B) :
    Effect set (set.contents.fill area.vaRange area.attributes)
      (set.map area unmapOverlap world) := by
  unfold map
  split_ifs with empty overlap replace
  · exact .failed _ rfl rfl
  · have nonempty : area.start < area.stop := not_isEmpty_iff.mp empty
    have stopEq := area.start_add_size
    cases unmap_effect invariant area.start area.size world with
    | failed error resultEq kept =>
      simp only [Outcome.andThen, resultEq]
      exact .failed error resultEq kept
    | done value achieved =>
      obtain ⟨resultEq, clearedInvariant, contentsEq⟩ := achieved
      rw [stopEq] at contentsEq
      simp only [Outcome.andThen, resultEq]
      have vacant : ∀ addr, area.vaRange.Contains addr →
          (set.unmap area.start area.size world).set.contents addr = none := by
        intro addr contained
        rw [contentsEq]
        exact if_pos contained
      have filled := installArea_effect clearedInvariant
        (show (some set).getD _ = set from rfl) nonempty vacant
        (set.unmap area.start area.size world).world
      rw [contentsEq, show (⟨area.start, area.stop⟩ : AddrRange) =
        area.vaRange from rfl, fill_clear] at filled
      exact filled
  · exact .failed _ rfl rfl
  · split
    · exact .failed _ rfl rfl
    rename_i validated _
    exact installArea_effect invariant
      (show (none : Option (MemorySet B)).getD set = set from rfl) (not_isEmpty_iff.mp empty)
      (fun addr => overlaps_eq_false invariant.tiled (Bool.not_eq_true _ ▸ overlap)) validated

/-! ### Growing and taking back -/

def grown (set : MemorySet B) (addr additionalSize : Nat) : AddressMap (Attributes B) :=
  match set.areas.at addr with
  | none => set.contents
  | some area =>
    set.contents.fill ⟨area.stop, area.stop + additionalSize⟩ area.attributes

def takenBack (set : MemorySet B) (addr additionalSize : Nat) : AddressMap (Attributes B) :=
  match set.areas.at addr with
  | none => set.contents
  | some area =>
    set.contents.clear ⟨area.stop - additionalSize, area.stop⟩

private theorem grown_zero (set : MemorySet B) (addr : Nat) : set.grown addr 0 = set.contents := by
  unfold grown
  split
  · rfl
  · exact fill_empty (lt_irrefl _)

private theorem vacant_behind (tiled : set.areas.Tiled) {newEnd addr : Nat}
    (bound : set.areas.get? area.start = some area)
    (noConflict : ¬ (set.areas.firstFrom area.stop).any
      (fun next => decide (next.2.start < newEnd)) = true)
    (above : area.stop ≤ addr) (below : addr < newEnd) : set.contents addr = none := by
  rw [contents_eq_none, tiled.at_eq_none]
  intro key other otherBound starts
  have keyEq : other.start = key := tiled.keyed otherBound
  rcases lt_trichotomy key area.start with earlier | same | later
  · have := tiled.ordered otherBound bound earlier
    have := area.start_le_stop
    omega
  · subst same
    cases bound.symm.trans otherBound
    exact above
  have behind := tiled.ordered bound otherBound later
  exfalso
  apply noConflict
  cases answer : set.areas.firstFrom area.stop with
  | none =>
    have := firstFrom_eq_none answer otherBound
    omega
  | some entry =>
    obtain ⟨entryBound, -, first⟩ := firstFrom_eq_some answer
    have entryKey : entry.2.start = entry.1 := tiled.keyed entryBound
    have order := first key other otherBound (by omega)
    simp only [any_some, decide_eq_true_eq]
    omega

section

variable (invariant : set.Invariant)
include invariant

private theorem Invariant.grow {larger : MemoryArea B}
    {newEnd : Nat} (bound : set.areas.get? area.start = some area)
    (startEq : larger.start = area.start) (stopEq : larger.stop = newEnd)
    (attributesEq : larger.attributes = area.attributes)
    (longer : area.stop < newEnd) (fits : newEnd ≤ usizeMax)
    (vacant : ∀ addr, area.stop ≤ addr → addr < newEnd →
      set.contents addr = none) (world : World B) :
    Achieves () (set.contents.fill ⟨area.stop, newEnd⟩ area.attributes)
      (MemorySet.occupy (set.areas.insert area.start larger) set.gaps
        ⟨area.stop, newEnd⟩ world) := by
  have tiled := invariant.tiled
  have order := area.start_le_stop
  obtain ⟨erasedTiled, erasedView⟩ := tiled.erased bound
  have erasedVacant : ∀ addr, larger.start ≤ addr → addr < larger.stop →
      view (set.areas.erase area.start) addr = none := by
    intro addr above below
    rw [erasedView]
    split_ifs with owned
    · rfl
    · exact vacant addr (by omega) (by omega)
  obtain ⟨insertedTiled, insertedView⟩ := erasedTiled.inserted (by omega) erasedVacant
  rw [startEq, insert_erase_self] at insertedTiled insertedView
  refine invariant.occupy longer fits (fun addr contained => vacant addr contained.1 contained.2)
    insertedTiled (funext fun addr => ?_) world
  rw [insertedView, erasedView, stopEq, attributesEq]
  by_cases owned : area.start ≤ addr ∧ addr < area.stop
  · rw [if_pos (by omega), fill_of_not_contains (by rw [contains_mk]; omega), contents,
      tiled.view_of_get? bound owned.1 owned.2]
  rw [if_neg owned]
  by_cases added : area.stop ≤ addr ∧ addr < newEnd
  · rw [if_pos (by omega), fill_of_contains (contains_mk.mpr added)]
  · rw [if_neg (by omega), fill_of_not_contains (fun contained => added (contains_mk.mp contained))]
    rfl

theorem extendArea_effect (addr additionalSize : Nat) (world : World B) :
    Effect set (set.grown addr additionalSize) (set.extendArea addr additionalSize world) := by
  unfold extendArea
  split_ifs with zero
  · rw [zero]
    exact .done () ⟨rfl, invariant, (grown_zero set addr).symm⟩
  cases found : set.findStart addr with
  | none => exact .failed _ rfl rfl
  | some areaStart =>
    obtain ⟨area, bound, owner, rfl⟩ := findStart_eq_some invariant.tiled found
    simp only [bound]
    cases sum : checkedAdd area.stop additionalSize with
    | none => exact .failed _ rfl rfl
    | some newEnd =>
      obtain ⟨rfl, fits⟩ := checkedAdd_eq_some_iff.mp sum
      simp only
      split_ifs with conflict
      · exact .failed _ rfl rfl
      split
      · rename_i refusal
        have keptArea := growRight_error refusal
        refine .failed _ rfl ?_
        rw [keptArea, insert_of_get? bound]
      rename_i larger after grows
      obtain ⟨largerStart, largerStop, largerAttributes, positive⟩ := growRight_ok grows
      have contentsEq : set.grown addr additionalSize = set.contents.fill
          ⟨area.stop, area.stop + additionalSize⟩ area.attributes := by
        simp [grown, owner]
      rw [contentsEq]
      exact .done () (invariant.grow bound largerStart largerStop largerAttributes (by omega) fits
        (fun other => vacant_behind invariant.tiled bound conflict) after)

theorem Invariant.relabel {areas : Areas B} (tiled : areas.Tiled)
    (same : ∀ addr, areas.view addr = none ↔ set.contents addr = none) :
    Invariant ⟨areas, set.gaps⟩ := by
  refine ⟨tiled, invariant.gaps, fun addr => ?_⟩
  rw [invariant.complement addr, ← contents_eq_none, ← same addr]
  exact view_eq_none

theorem Invariant.withBackend (backend : B) (bound : set.areas.get? area.start = some area) :
    Invariant ⟨set.areas.insert area.start (area.withBackend backend), set.gaps⟩ ∧
      view (set.areas.insert area.start (area.withBackend backend)) = set.contents := by
  have tiled := invariant.tiled
  -- The new value has the range and the attributes of the old one.
  obtain ⟨changedTiled, changedView⟩ := tiled.shortened bound
    (show (area.withBackend backend).start = area.start from rfl) rfl (tiled.nonempty bound) le_rfl
  have same : view (set.areas.insert area.start (area.withBackend backend)) = set.contents := by
    funext addr
    rw [changedView, if_neg fun outside => absurd outside.2 (not_lt.mpr outside.1)]
    rfl
  exact ⟨invariant.relabel changedTiled fun addr => by rw [same], same⟩

end

/-- `rollback_extend_area` shortens the area in place.  Besides the two usual
ends there is a third: the `shrink_right` hook refuses, and the backend it
leaves behind stays in the set. -/
inductive RollbackEnd (set : MemorySet B) (addr additionalSize : Nat) (world : World B)
    (outcome : Outcome B Unit) : Prop where
  | effect (effect : Effect set (set.takenBack addr additionalSize) outcome)
  | refused (area : MemoryArea B) (backend : B) (found : set.areas.at addr = some area)
      (accepted : 0 < additionalSize ∧ additionalSize < area.size)
      (validated : (world.validateUnmap area.backend
        (area.stop - additionalSize) additionalSize).1 = true)
      (unmapped : ((world.validateUnmap area.backend
        (area.stop - additionalSize) additionalSize).2.unmap area.backend
          (area.stop - additionalSize) additionalSize).1 = true)
      (refusal : MappingBackend.shrinkRight area.backend additionalSize = (false, backend))
      (resultEq : outcome.result = .err .badState)
      (setEq : outcome.set = ⟨set.areas.insert area.start (area.withBackend backend), set.gaps⟩)

theorem rollbackExtendArea_end
    (invariant : set.Invariant) (addr additionalSize : Nat) (world : World B) :
    RollbackEnd set addr additionalSize world
      (set.rollbackExtendArea addr additionalSize world) := by
  unfold rollbackExtendArea
  split_ifs with zero
  · refine .effect (.done () ⟨rfl, invariant, ?_⟩)
    rw [zero, takenBack]
    split
    · rfl
    · exact (clear_empty (lt_irrefl _)).symm
  cases found : set.findStart addr with
  | none => exact .effect (.failed _ rfl rfl)
  | some areaStart =>
    obtain ⟨area, bound, owner, rfl⟩ := findStart_eq_some invariant.tiled found
    simp only [bound]
    have sizeEq := area.size_eq
    split
    · exact .effect (.failed _ rfl rfl)
    rename_i shorter
    split
    · exact .effect (.failed _ rfl rfl)
    split
    · exact .effect (.failed _ rfl rfl)
    rename_i validated validation
    split
    · exact .effect (.failed _ rfl rfl)
    rename_i unmapped unmapping
    split
    · rename_i refused error left refusal
      obtain ⟨backend, hook, errorEq, leftEq⟩ :=
        shrinkRightMetadata_error refusal (by omega) (by omega)
      subst errorEq leftEq
      refine .refused area backend owner (by omega) (by rw [validation]) ?_ ?_ rfl rfl
      · rw [validation, unmapping]
      · rw [← hook]
        congr 1
        omega
    · rename_i shrunk shrinks
      obtain ⟨shrunkStart, shrunkStop, shrunkAttributes⟩ := shrinkRightMetadata_ok shrinks
      obtain ⟨tiled, viewEq⟩ := invariant.tiled.shortened bound shrunkStart shrunkAttributes
        (by omega) (by omega)
      rw [show shrunk.stop = area.stop - additionalSize by omega] at viewEq
      have contentsEq : set.takenBack addr additionalSize = set.contents.clear
          ⟨area.stop - additionalSize, area.stop⟩ := by
        simp [takenBack, owner]
      exact .effect (.done () ⟨rfl, invariant.release (by simp only; omega) tiled (funext viewEq),
        (funext viewEq).trans contentsEq.symm⟩)

/-! ### Replacing metadata -/

theorem replaceExactBackend_effect (invariant : set.Invariant) (start size : Nat) (backend : B)
    (world : World B) :
    Effect set set.contents (set.replaceExactBackend start size backend world) := by
  unfold replaceExactBackend
  cases sum : checkedAdd start size with
  | none => exact .failed _ rfl rfl
  | some stop =>
    simp only
    split
    · exact .failed _ rfl rfl
    rename_i area found
    simp only [filter_eq_some_iff, decide_eq_true_eq] at found
    obtain rfl : area.start = start := invariant.tiled.keyed found.1
    obtain ⟨changedInvariant, viewEq⟩ := invariant.withBackend backend found.1
    exact .done area.backend ⟨rfl, changedInvariant, viewEq⟩

private theorem containingArea_ok (tiled : set.areas.Tiled) {oldStart : Nat}
    (contained : set.containingAreaForMetadataReplacement area = .ok oldStart) :
    ∃ old, set.areas.get? old.start = some old ∧ oldStart = old.start ∧
      old.start ≤ area.start ∧ area.start < area.stop ∧
      area.stop ≤ old.stop := by
  unfold containingAreaForMetadataReplacement at contained
  split_ifs at contained with empty
  split at contained
  · cases contained
  rename_i found
  cases contained
  simp only [filter_eq_some_iff, decide_eq_true_eq] at found
  obtain ⟨last, above, within⟩ := found
  obtain ⟨bound, -, -⟩ := lastAtMost_eq_some last
  have startEq := tiled.keyed bound
  exact ⟨_, startEq.symm ▸ bound, startEq.symm, above, not_isEmpty_iff.mp empty, within⟩

theorem replaceAreaMetadata_effect
    (invariant : set.Invariant) (area : MemoryArea B) (world : World B) :
    Effect set (set.contents.fill area.vaRange area.attributes)
      (set.replaceAreaMetadata area world) := by
  unfold replaceAreaMetadata
  split
  · exact .failed _ rfl rfl
  rename_i oldStart contained
  obtain ⟨old, bound, rfl, above, nonempty, within⟩ := containingArea_ok invariant.tiled contained
  split
  · exact .failed _ rfl rfl
  rename_i areas middle carved
  have spec := carve_spec invariant.tiled bound above nonempty within carved
  split
  · exact .failed _ rfl rfl
  obtain ⟨insertedTiled, insertedView⟩ := spec.tiled.inserted nonempty
    fun addr low high => by rw [spec.viewEq, if_pos ⟨low, high⟩]
  have viewEq : view (areas.insert area.start area) =
      set.contents.fill area.vaRange area.attributes := by
    funext addr
    rw [insertedView, spec.viewEq]
    split_ifs with inside
    · rw [fill_of_contains inside]
    · rw [fill_of_not_contains inside]
      rfl
  refine .done () ⟨rfl, ?_, viewEq⟩
  refine invariant.relabel insertedTiled (fun addr => ?_)
  rw [viewEq]
  by_cases inside : area.start ≤ addr ∧ addr < area.stop
  · have owned : set.contents addr = some old.attributes :=
      invariant.tiled.view_of_get? bound (by omega) (by omega)
    rw [fill_of_contains inside, owned]
    simp
  · rw [fill_of_not_contains inside]

theorem clear_effect (set : MemorySet B) (world : World B) :
    Effect set (fun _ => none) (set.clear world) := by
  unfold clear
  split
  · exact .failed _ rfl rfl
  split
  · exact .failed _ rfl rfl
  exact .done () ⟨rfl, invariant_new, rfl⟩

/-! ### Changing flags -/

/-- The attributes after `updateFlags` has been asked. -/
def reflag (updateFlags : Flags B → Flags B → Option (Flags B × Flags B))
    (attributes : Attributes B) : Attributes B :=
  match updateFlags attributes.flags attributes.reportedFlags with
  | none => attributes
  | some (newFlags, newReportedFlags) =>
    ⟨newFlags, newReportedFlags, attributes.maxFlags⟩

/-- Seen by address, the prepared map is the old one with the attributes reflagged inside
the range. -/
theorem flagsChanged_contents (tiled : set.areas.Tiled) {start stop : Nat} (nonempty : start < stop)
    {updateFlags : Flags B → Flags B → Option (Flags B × Flags B)} {prepared : Areas B}
    (changed : Areas.FlagsChanged set.areas set.areas
      (collectOperations start stop updateFlags set.areas.entries) prepared) :
    prepared.view = set.contents.update ⟨start, stop⟩ (reflag updateFlags) := by
  obtain ⟨collected, -, complete⟩ := collectOperations_spec updateFlags tiled nonempty
      set.areas.entries set.areas.sorted
      (fun entry member => get?_eq_some_iff.mpr member)
  -- An operation covers an address only through the area that contains it.
  have through : ∀ operation ∈ collectOperations start stop updateFlags set.areas.entries,
      ∀ addr, operation.Covers addr → ∃ area, set.areas.at addr = some area ∧
          set.areas.get? operation.areaStart = some area ∧
          operation.Concerns start stop updateFlags area ∧
          start ≤ addr ∧ addr < stop := by
    intro operation member addr covered
    obtain ⟨area, bound, concern⟩ := collected.concerns operation member
    have inside := concerns_within concern covered
    have low := concern.protectStartEq
    have high := concern.protectEndEq
    obtain ⟨above, below⟩ := covered
    exact ⟨area, tiled.at_of_get? bound inside.1 inside.2, bound, concern, by omega, by omega⟩
  funext addr
  by_cases contained : AddrRange.Contains ⟨start, stop⟩ addr
  · rw [update_of_contains contained]
    obtain ⟨startLe, stopGt⟩ := contains_mk.mp contained
    cases owner : set.areas.at addr with
    | none =>
      have unmapped : set.contents addr = none := contents_eq_none.mpr owner
      rw [unmapped, changed.uncovered addr]
      · exact unmapped
      · intro operation member covered
        obtain ⟨area, found, -⟩ := through operation member addr covered
        cases owner.symm.trans found
    | some area =>
      obtain ⟨bound, above, below⟩ := tiled.at_eq_some owner
      have attributes : set.contents addr = some area.attributes :=
        tiled.view_of_get? bound above below
      rw [attributes]
      cases answer : updateFlags area.flags area.reportedFlags with
      | none =>
        rw [changed.uncovered addr]
        · simp only [map_some, reflag, MemoryArea.attributes, answer]
          exact attributes
        · intro operation member covered
          obtain ⟨other, found, -, concern, -⟩ := through operation member addr covered
          cases owner.symm.trans found
          cases concern.answered.symm.trans answer
      | some flags =>
        obtain ⟨operation, member, same⟩ := complete (area.start, area)
            (get?_eq_some_iff.mp bound) (by simp only; omega)
            (by simp only; omega) (by simp [answer])
        obtain ⟨other, otherBound, concern⟩ := collected.concerns operation member
        cases bound.symm.trans ((congrArg set.areas.get? same).symm.trans otherBound)
        have covered : operation.Covers addr := by
          have low := concern.protectStartEq
          have high := concern.protectEndEq
          unfold ProtectOperation.Covers
          omega
        rw [changed.covered operation member area otherBound addr covered]
        simp [reflag, MemoryArea.attributes, concern.answered]
  · rw [update_of_not_contains contained, changed.uncovered addr]
    · rfl
    · intro operation member covered
      obtain ⟨-, -, -, -, above, below⟩ := through operation member addr covered
      exact contained ⟨above, below⟩

theorem protectWithReportedFlags_effect (invariant : set.Invariant) (start size : Nat)
    (updateFlags : Flags B → Flags B → Option (Flags B × Flags B)) (world : World B) :
    Effect set (set.contents.update ⟨start, start + size⟩ (reflag updateFlags))
      (set.protectWithReportedFlags start size updateFlags world) := by
  have tiled := invariant.tiled
  unfold protectWithReportedFlags
  cases sum : checkedAdd start size with
  | none => exact .failed _ rfl rfl
  | some stop =>
    obtain ⟨rfl, -⟩ := checkedAdd_eq_some_iff.mp sum
    simp only
    split_ifs with zero
    · refine .done () ⟨rfl, invariant, funext fun addr => ?_⟩
      rw [update_of_not_contains]
      rw [contains_mk]
      omega
    have nonempty : start < start + size := by omega
    obtain ⟨collected, -, -⟩ := collectOperations_spec updateFlags tiled nonempty
      set.areas.entries set.areas.sorted (fun entry member => get?_eq_some_iff.mpr member)
    have preparable := prepareProtect_ne_panicked _ collected set.areas world
    split
    · next panicked => exact absurd (congrArg Prod.fst panicked) preparable
    · exact .failed _ rfl rfl
    rename_i prepared afterPrepare preparedOk
    have changed := prepareProtect_spec _ collected tiled tiled (fun _ _ => rfl) preparedOk
    have applicable := applyProtect_ne_panicked _ [] (fun operation member => by
      rw [List.append_nil] at member
      obtain ⟨area, bound, -⟩ := collected.concerns operation member
      exact ⟨area, bound⟩) afterPrepare
    have viewEq := flagsChanged_contents tiled nonempty changed
    split
    · next panicked => exact absurd (congrArg Prod.fst panicked) applicable
    · exact .failed _ rfl rfl
    refine .done () ⟨rfl, ?_, viewEq⟩
    refine invariant.relabel changed.tiled (fun addr => ?_)
    rw [viewEq]
    by_cases contained : AddrRange.Contains ⟨start, start + size⟩ addr
    · rw [update_of_contains contained]
      simp
    · rw [update_of_not_contains contained]

end TgosKits.MemorySet
