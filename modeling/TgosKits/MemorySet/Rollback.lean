import TgosKits.MemorySet.Refinement

/-!
# Failed operations

An operation that fails leaves the areas and the gaps as they were, except in one place:
`rollback_extend_area` shrinks the backend of a live area in place, and a hook that
refuses after changing its backend leaves that backend behind.
-/

namespace TgosKits

open MappingBackend FlatBackend SortedMap List

open MappingBackend (Flags PageTable)

variable {B : Type} [MappingBackend B] {read : PageTable B → Nat → Option (Flags B)}

def World.shows (read : PageTable B → Nat → Option (Flags B)) (world : World B)
    (addr : Nat) : Option (Flags B) :=
  read world.pageTable addr

/-- A hook that gives a range its flags. When it refuses, it may have reached a part of
the range. -/
structure Paints (read : PageTable B → Nat → Option (Flags B))
    (hook : World B → B → Nat → Nat → Flags B → Bool × World B) : Prop where
  done : ∀ {world after backend start size flags},
    hook world backend start size flags = (true, after) →
    ∀ addr, after.shows read addr = if start ≤ addr ∧ addr < start + size then some flags
      else world.shows read addr
  refused : ∀ {world after backend start size flags},
    hook world backend start size flags = (false, after) →
    ∀ {addr}, ¬ (start ≤ addr ∧ addr < start + size) →
      after.shows read addr = world.shows read addr

/-- `read` shows the page table as optional flags per address. -/
structure FlatTable (B : Type) [MappingBackend B]
    (read : PageTable B → Nat → Option (Flags B)) : Prop where
  map : Paints read (World.map (B := B))
  protect : Paints read (World.protect (B := B))
  unmap : ∀ {world after : World B} {backend start size},
    world.unmap backend start size = (true, after) →
    ∀ addr, after.shows read addr = if start ≤ addr ∧ addr < start + size then none
      else world.shows read addr

variable {outcome : Bool × World B} {after : World B}

theorem okOrBadState_eq_ok (success : okOrBadState outcome = (.ok (), after)) :
    outcome = (true, after) := by
  obtain ⟨answer, world⟩ := outcome
  cases answer <;> cases success
  rfl

theorem okOrBadState_eq_error {error : MappingError}
    (failure : okOrBadState outcome = (.error error, after)) : outcome = (false, after) := by
  obtain ⟨answer, world⟩ := outcome
  cases answer <;> cases failure
  rfl

/-! ## The page table through `protect` -/

namespace MemorySet

variable {set : MemorySet B} {original : Areas B} {range : AddrRange} {backend : B}

/-- The addresses of the areas carry the flags of their areas. -/
def Carries (read : PageTable B → Nat → Option (Flags B)) (set : MemorySet B)
    (world : World B) : Prop :=
  ∀ addr area, set.find addr = some area → world.shows read addr = some area.flags

theorem prepareProtect_pageTable (original : Areas B) (operations : List (ProtectOperation B))
    (prepared : Areas B) (world : World B) :
    (prepareProtect original operations prepared world).2.pageTable = world.pageTable := by
  induction operations generalizing prepared world with
  | nil => rfl
  | cons operation rest ih =>
    simp only [prepareProtect]
    split
    · rfl
    rename_i area _
    have readOnly : (world.validateProtect area.backend operation.protectStart operation.size
        operation.newFlags).2.pageTable = world.pageTable := rfl
    split
    · next refusal => rwa [refusal] at readOnly
    rename_i validation
    rw [validation] at readOnly
    split
    · exact readOnly
    · exact (ih _ _).trans readOnly

variable {addr start size : Nat} {before world after : World B}
  {error : MappingError} {area : MemoryArea B}

theorem covers_iff {operation : ProtectOperation B}
    (order : operation.protectStart ≤ operation.protectEnd) :
    (operation.protectStart ≤ addr ∧ addr < operation.protectStart + operation.size) ↔
      operation.Covers addr := by
  unfold ProtectOperation.Covers ProtectOperation.size
  omega

/-- What `restoreFlags` needs to know about an operation: its range is ordered
and its old flags are those that `before` shows. -/
def Recorded (read : PageTable B → Nat → Option (Flags B)) (before : World B)
    (operation : ProtectOperation B) : Prop :=
  operation.protectStart ≤ operation.protectEnd ∧ ∀ addr, operation.Covers addr →
      before.shows read addr = some operation.oldFlags

section

variable (flat : FlatTable B read)
include flat

/-- When every hook of the rollback agrees, the pieces show the old flags
again, and nothing else changes. -/
private theorem restoreFlags_shows (operations : List (ProtectOperation B))
    (recorded : ∀ operation ∈ operations, Recorded read before operation) {restored : Bool}
    (done : restoreFlags original operations restored world = (some true, after)) :
    restored = true ∧ ∀ addr, ((∃ operation ∈ operations, operation.Covers addr) →
          after.shows read addr = before.shows read addr) ∧
        ((∀ operation ∈ operations, ¬ operation.Covers addr) →
          after.shows read addr = world.shows read addr) := by
  induction operations generalizing restored world with
  | nil =>
    cases done
    exact ⟨rfl, fun addr => ⟨by simp, fun _ => rfl⟩⟩
  | cons operation rest ih =>
    obtain ⟨⟨order, oldFlags⟩, restRecorded⟩ := forall_mem_cons.mp recorded
    simp only [restoreFlags] at done
    split at done
    · cases done
    split at done
    · rename_i between protecting
      have step := flat.protect.done (okOrBadState_eq_ok protecting)
      obtain ⟨restoredEq, shown⟩ := ih restRecorded done
      refine ⟨restoredEq, fun addr => ⟨?_, ?_⟩⟩
      · rintro ⟨covering, member, covered⟩
        by_cases later : ∃ operation ∈ rest, operation.Covers addr
        · exact (shown addr).1 later
        have notLater : ∀ operation ∈ rest, ¬ operation.Covers addr :=
          fun operation member covers => later ⟨operation, member, covers⟩
        rcases mem_cons.mp member with rfl | inRest
        · rw [(shown addr).2 notLater, step addr, if_pos ((covers_iff order).mpr covered),
            oldFlags addr covered]
        · exact absurd covered (notLater covering inRest)
      · intro uncovered
        rw [(shown addr).2 (fun later member =>
          uncovered later (mem_cons_of_mem _ member)), step addr, if_neg]
        rw [covers_iff order]
        exact uncovered operation mem_cons_self
    · cases (ih restRecorded done).1

private theorem applyProtect_shows (operations done : List (ProtectOperation B))
    (recorded : ∀ operation ∈ operations ++ done, Recorded read before operation)
    (soFar : ∀ addr, (∀ operation ∈ done, ¬ operation.Covers addr) →
      world.shows read addr = before.shows read addr)
    (failed : applyProtect original done operations world = (.err error, after))
    (recoverable : error ≠ .needsRepair) (addr : Nat) :
    after.shows read addr = before.shows read addr := by
  induction operations generalizing done world with
  | nil => cases failed
  | cons operation rest ih =>
    obtain ⟨order, -⟩ := recorded operation (by simp)
    have recordedNow : ∀ other ∈ rest ++ operation :: done, Recorded read before other := by
      intro other member
      apply recorded other
      simp only [mem_append, mem_cons] at member ⊢
      tauto
    -- What the operations so far and this one leave alone.
    have untouched : ∀ addr, (∀ other ∈ operation :: done, ¬ other.Covers addr) →
        ¬ (operation.protectStart ≤ addr ∧ addr < operation.protectStart + operation.size) ∧
          world.shows read addr = before.shows read addr := by
      intro addr uncovered
      rw [covers_iff order]
      exact ⟨uncovered operation mem_cons_self, soFar addr (fun earlier member =>
        uncovered earlier (mem_cons_of_mem _ member))⟩
    simp only [applyProtect] at failed
    split at failed
    · cases failed
    split at failed
    · rename_i between protecting
      apply ih (operation :: done) recordedNow _ failed
      intro addr uncovered
      obtain ⟨outside, same⟩ := untouched addr uncovered
      rw [flat.protect.done (okOrBadState_eq_ok protecting) addr, if_neg outside, same]
    rename_i between refusal
    split at failed
    · cases failed
    · rename_i restoring
      cases failed
      obtain ⟨-, shown⟩ := restoreFlags_shows flat _ (fun other member =>
        recordedNow other (mem_append_right _ member)) restoring
      by_cases covered : ∃ other ∈ operation :: done, other.Covers addr
      · exact (shown addr).1 covered
      have uncovered : ∀ other ∈ operation :: done, ¬ other.Covers addr :=
        fun other member covers => covered ⟨other, member, covers⟩
      obtain ⟨outside, same⟩ := untouched addr uncovered
      rw [(shown addr).2 uncovered,
        flat.protect.refused (okOrBadState_eq_error refusal) outside, same]
    · cases failed
      exact absurd rfl recoverable

theorem protectWithReportedFlags_shows (tiled : set.areas.Tiled)
    {updateFlags : Flags B → Flags B → Option (Flags B × Flags B)}
    (carries : set.Carries read world)
    (failed : (set.protectWithReportedFlags start size updateFlags world).result = .err error)
    (recoverable : error ≠ .needsRepair) (addr : Nat) :
    (set.protectWithReportedFlags start size updateFlags world).world.shows
      read addr = world.shows read addr := by
  unfold protectWithReportedFlags at failed ⊢
  cases sum : checkedAdd start size with
  | none => rfl
  | some stop =>
    obtain ⟨rfl, -⟩ := checkedAdd_eq_some_iff.mp sum
    simp only [sum] at failed ⊢
    by_cases zero : size = 0
    · rw [if_pos zero]
    rw [if_neg zero] at failed ⊢
    obtain ⟨collected, -, -⟩ := Areas.collectOperations_spec updateFlags tiled
      (show start < start + size by omega) set.areas.entries set.areas.sorted
      (fun entry member => get?_eq_some_iff.mpr member)
    have recorded : ∀ operation ∈ collectOperations start (start + size)
        updateFlags set.areas.entries, Recorded read world operation := by
      intro operation member
      obtain ⟨area, bound, concern⟩ := collected.concerns operation member
      refine ⟨concern.nonempty.le, fun addr covered => ?_⟩
      obtain ⟨above, below⟩ := Areas.concerns_within concern covered
      rw [carries addr area (tiled.at_of_get? bound above below), concern.oldFlagsEq]
    have readOnly := prepareProtect_pageTable set.areas
      (collectOperations start (start + size) updateFlags set.areas.entries) set.areas world
    split at failed
    · cases failed
    · rename_i refused prepareFailed
      simp only [prepareFailed] at readOnly ⊢
      exact congrArg (read · addr) readOnly
    rename_i prepared between preparedOk
    simp only [preparedOk] at readOnly ⊢
    split at failed <;> cases failed
    next applyFailed =>
      apply applyProtect_shows flat _ [] _ _ applyFailed recoverable
      · simpa using recorded
      · exact fun addr _ => congrArg (read · addr) readOnly

end

/-! ## The page table through `map` -/

section

variable {range : AddrRange} (property : World B → Prop)
  {visit : MemoryArea B → Nat → Nat → World B → Except MappingError Unit × World B}

/-- What every successful visit within the range keeps. -/
def VisitsKeep (visit : MemoryArea B → Nat → Nat → World B → Except MappingError Unit × World B)
    (range : AddrRange) (property : World B → Prop) : Prop :=
  ∀ area start size world after, range.start ≤ start → (size = 0 ∨ start + size ≤ range.stop) →
    visit area start size world = (.ok (), after) →
    property world → property after

variable (keeps : VisitsKeep visit range property)
include keeps

private theorem visitEach_keeps (areas : List (MemoryArea B))
    (visited : visitEach visit range areas world = (.ok (), after)) (holds : property world) :
    property after := by
  induction areas generalizing world with
  | nil =>
    cases visited
    exact holds
  | cons area rest ih =>
    simp only [visitEach] at visited
    split at visited
    · cases visited
    rename_i between visiting
    apply ih visited
    exact keeps area _ _ world between (le_max_right _ _) (by omega) visiting holds

theorem forEachIntersectingArea_keeps (order : range.start ≤ range.stop)
    (visited : set.forEachIntersectingArea range visit world = (.ok (), after))
    (holds : property world) : property after := by
  unfold forEachIntersectingArea at visited
  split at visited
  · apply keeps _ _ _ world after le_rfl _ visited holds
    unfold AddrRange.size
    omega
  · exact visitEach_keeps property keeps _ visited holds

end

theorem unmap_shows (flat : FlatTable B read)
    (success : (set.unmap start size world).result = .ok ())
    (outside : ¬ (start ≤ addr ∧ addr < start + size)) :
    (set.unmap start size world).world.shows read addr = world.shows read addr := by
  unfold unmap validateUnmap at success ⊢
  cases accepted : AddrRange.tryFromStartSize start size with
  | none => rfl
  | some range =>
    obtain rfl := AddrRange.tryFromStartSize_eq_some accepted
    simp only [accepted] at success ⊢
    by_cases isEmpty : (AddrRange.mk start (start + size)).isEmpty = true
    · rw [if_pos isEmpty]
    simp only [if_neg isEmpty] at success ⊢
    split at success
    · cases success
    rename_i between validated
    have validatedShows : between.shows read addr = world.shows read addr := by
      apply forEachIntersectingArea_keeps
        (fun other => other.shows read addr = world.shows read addr)
        _ (Nat.le_add_right start size) validated rfl
      intro area low length before after _ _ visiting same
      rw [← same]
      exact congrArg (fun outcome => outcome.2.shows read addr) visiting.symm
    split at success
    · cases success
    split at success
    · cases success
    rename_i after unmapping
    apply forEachIntersectingArea_keeps (fun other =>
        other.shows read addr = world.shows read addr)
      _ (Nat.le_add_right start size) unmapping validatedShows
    intro area low length before after above within visiting same
    rw [flat.unmap (okOrBadState_eq_ok visiting), if_neg]
    · exact same
    · simp only at above within
      omega

/-- When every hook agrees, the parts of the areas in the range show the flags
of their areas, and nothing else changes.  The areas have to be in order: the
loop stops at the first one behind the range. -/
private theorem restoreAreas_shows (flat : FlatTable B read) (areas : List (MemoryArea B))
    (ordered : areas.Pairwise (fun earlier later => earlier.stop ≤ later.start))
    (done : restoreAreas range areas world = (true, after)) (addr : Nat) :
    (∀ area ∈ areas, area.start ≤ addr → addr < area.stop →
      range.Contains addr → after.shows read addr = some area.flags) ∧
    ((range.Contains addr → ∀ area ∈ areas, ¬ (area.start ≤ addr ∧ addr < area.stop)) →
      after.shows read addr = world.shows read addr) := by
  induction areas generalizing world with
  | nil =>
    cases done
    exact ⟨fun _ member => absurd member not_mem_nil, fun _ => rfl⟩
  | cons area rest ih =>
    obtain ⟨behindHead, restOrdered⟩ := pairwise_cons.mp ordered
    have headOrder := area.start_le_stop
    simp only [restoreAreas] at done
    split at done
    · cases done
      refine ⟨fun other member above _ contained => ?_, fun _ => rfl⟩
      have below := contained.2
      rcases mem_cons.mp member with rfl | later
      · omega
      · have := behindHead other later
        omega
    split at done
    · obtain ⟨restored, kept⟩ := ih restOrdered done
      refine ⟨fun other member above below contained => ?_,
        fun uncovered => kept (fun contained other member =>
          uncovered contained other (mem_cons_of_mem _ member))⟩
      have atLeast := contained.1
      rcases mem_cons.mp member with rfl | later
      · omega
      · exact restored other later above below contained
    split at done
    · split at done
      · cases done
      rename_i between mapping
      obtain ⟨restored, kept⟩ := ih restOrdered done
      have step := flat.map.done mapping addr
      refine ⟨fun other member above below contained => ?_, fun uncovered => ?_⟩
      · rcases mem_cons.mp member with rfl | later
        · have := contained.1
          have := contained.2
          rw [kept, step, if_pos (by omega)]
          intro _ third thirdMember covered
          have := behindHead third thirdMember
          omega
        · exact restored other later above below contained
      · rw [kept (fun contained other member => uncovered contained
          other (mem_cons_of_mem _ member)), step, if_neg]
        intro covered
        exact uncovered ⟨by omega, by omega⟩ area mem_cons_self ⟨by omega, by omega⟩
    · cases done

private theorem values_ordered (tiled : set.areas.Tiled) : set.areas.values.Pairwise
      (fun earlier later => earlier.stop ≤ later.start) := by
  apply pairwise_map.mpr
  apply List.Pairwise.imp_of_mem _ set.areas.sorted
  intro earlier later earlierMember laterMember order
  exact tiled.ordered (get?_eq_some_iff.mpr earlierMember) (get?_eq_some_iff.mpr laterMember) order

/-- Nothing is mapped in the range but what the areas have there. -/
def Tidy (read : PageTable B → Nat → Option (Flags B)) (set : MemorySet B)
    (range : AddrRange) (world : World B) : Prop :=
  ∀ addr, range.Contains addr → set.find addr = none → world.shows read addr = none

/-- What the backup of `map` stands for: the set before the overlap was
removed, or nothing when there was no overlap. -/
def BackupOf (set : MemorySet B) (range : AddrRange) : Option (MemorySet B) → Prop
  | some old => old = set
  | none => ∀ addr, range.Contains addr → set.find addr = none

/-- The range shows what the areas have there and nothing else, and everything
outside is as before. -/
def Restored (read : PageTable B → Nat → Option (Flags B)) (set : MemorySet B)
    (range : AddrRange) (before after : World B) : Prop :=
  ∀ addr, (range.Contains addr → set.find addr = none → after.shows read addr = none) ∧
    (range.Contains addr ∧ set.find addr = none ∨
      after.shows read addr = before.shows read addr)

theorem Restored.same_iff (restored : set.Restored read range before after) :
    (∀ addr, after.shows read addr = before.shows read addr) ↔ set.Tidy read range before := by
  constructor
  · intro same addr contained unowned
    rw [← same addr]
    exact (restored addr).1 contained unowned
  · intro tidy addr
    rcases restored addr with ⟨cleared, ⟨contained, unowned⟩ | same⟩
    · rw [cleared contained unowned, tidy addr contained unowned]
    · exact same

theorem revertMapping_restored (flat : FlatTable B read) (tiled : set.areas.Tiled)
    {backup : Option (MemorySet B)} (backupOf : set.BackupOf area.vaRange backup)
    (carries : set.Carries read before) (outside : ∀ addr, ¬ area.vaRange.Contains addr →
      world.shows read addr = before.shows read addr)
    (reverted : revertMapping backup area world = (true, after)) :
    set.Restored read area.vaRange before after := by
  intro addr
  have sizeEq := area.start_add_size
  unfold revertMapping at reverted
  cases unmapping : world.unmap area.backend area.start area.size with
  | mk answer between =>
    rw [unmapping] at reverted
    cases backup with
    | none =>
      cases reverted
      rw [flat.unmap unmapping, sizeEq]
      split_ifs with contained
      · exact ⟨fun _ _ => rfl, .inl ⟨contained, backupOf addr contained⟩⟩
      · exact ⟨fun inside => absurd inside contained, .inr (outside addr contained)⟩
    | some old =>
      subst backupOf
      simp only at reverted
      cases restoring : restoreOverlappedMappings old.areas area.vaRange between with
      | mk restored final =>
        rw [restoring] at reverted
        simp only [Prod.mk.injEq, Bool.and_eq_true] at reverted
        obtain ⟨⟨rfl, rfl⟩, rfl⟩ := reverted
        obtain ⟨shown, kept⟩ := restoreAreas_shows flat _ (values_ordered tiled) restoring addr
        have step := flat.unmap unmapping addr
        rw [sizeEq] at step
        by_cases contained : area.start ≤ addr ∧ addr < area.stop
        · cases owner : old.find addr with
          | some holder =>
            obtain ⟨bound, above, below⟩ := tiled.at_eq_some owner
            refine ⟨fun _ unowned => absurd unowned (by simp), .inr ?_⟩
            rw [carries addr holder owner]
            exact shown holder (mem_values_iff.mpr ⟨_, bound⟩) above below contained
          | none =>
            refine ⟨fun _ _ => ?_, .inl ⟨contained, rfl⟩⟩
            rw [kept, step, if_pos contained]
            intro _ holder member covered
            obtain ⟨key, bound⟩ := mem_values_iff.mp member
            have owned := tiled.at_of_get? bound covered.1 covered.2
            rw [show old.find addr = old.areas.at addr from rfl, owned] at owner
            cases owner
        · refine ⟨fun inside => absurd inside contained, .inr ?_⟩
          rw [kept (fun inside => absurd inside contained), step, if_neg contained]
          exact outside addr contained

/-- The backend refuses the new mapping, and everything done so far is taken back. -/
def TakesBack (backup : Option (MemorySet B)) (area : MemoryArea B) (world : World B) : Prop :=
  (area.mapArea world).1 = .error .badState ∧
    (revertMapping backup area (area.mapArea world).2).1 = true

section

variable {backup : Option (MemorySet B)} {current : MemorySet B}

theorem installArea_of_takesBack (taken : TakesBack backup area world) :
    (current.installArea backup area world).result = .err .badState ∧
      (current.installArea backup area world).world =
        (revertMapping backup area (area.mapArea world).2).2 := by
  obtain ⟨refused, reverted⟩ := taken
  unfold installArea
  cases mapping : area.mapArea world with
  | mk answer mapped =>
    rw [mapping] at refused reverted
    cases refused
    simp only at reverted ⊢
    cases reverting : revertMapping backup area mapped with
    | mk answer after =>
      rw [reverting] at reverted
      cases reverted
      exact ⟨rfl, rfl⟩

private theorem takesBack_of_err (free : current.areas.get? area.start = none)
    (failed : (current.installArea backup area world).result = .err error)
    (recoverable : error ≠ .needsRepair) : TakesBack backup area world := by
  unfold installArea at failed
  split at failed
  · rename_i mapError mapped mapping
    have badState : mapError = .badState := by
      unfold MemoryArea.mapArea okOrBadState at mapping
      split at mapping <;> cases mapping
      rfl
    subst badState
    split at failed
    · rename_i reverting
      rw [TakesBack, mapping, reverting]
      exact ⟨rfl, rfl⟩
    · cases failed
      exact absurd rfl recoverable
  · simp only [free, area.checkedAdd_start_size] at failed
    unfold occupy at failed
    split at failed <;> cases failed

end

def EntersMapArea (set : MemorySet B) (area : MemoryArea B) (unmapOverlap : Bool)
    (world : World B) : Prop :=
  area.vaRange.isEmpty = false ∧
    if set.overlaps area.vaRange then
      unmapOverlap = true ∧ (set.unmap area.start area.size world).result = .ok ()
    else (area.validateMap world).1 = .ok ()

/-- The set to go back to, and the world in which `map_area` is entered. -/
def beforeMapArea (set : MemorySet B) (area : MemoryArea B) (world : World B) :
    Option (MemorySet B) × World B :=
  if set.overlaps area.vaRange then
    (some set, (set.unmap area.start area.size world).world)
  else
    (none, (area.validateMap world).2)

section

variable (flat : FlatTable B read) (invariant : set.Invariant)
include flat invariant

private theorem EntersMapArea.installs {unmapOverlap : Bool}
    (entered : set.EntersMapArea area unmapOverlap world) : ∃ cleared : MemorySet B,
      set.map area unmapOverlap world = cleared.installArea (set.beforeMapArea area world).1
        area (set.beforeMapArea area world).2 ∧
      cleared.areas.get? area.start = none ∧
      set.BackupOf area.vaRange (set.beforeMapArea area world).1 ∧
      ∀ addr, ¬ area.vaRange.Contains addr →
        (set.beforeMapArea area world).2.shows read addr = world.shows read addr := by
  obtain ⟨notEmpty, phase⟩ := entered
  have nonempty : area.start < area.stop := AddrRange.not_isEmpty_iff.mp (by simp [notEmpty])
  unfold map beforeMapArea
  rw [if_neg (by simp [notEmpty])]
  by_cases overlapping : set.overlaps area.vaRange = true
  · simp only [if_pos overlapping] at phase ⊢
    obtain ⟨rfl, success⟩ := phase
    refine ⟨(set.unmap area.start area.size world).set, by simp [Outcome.andThen, success],
      ?_, rfl, ?_⟩
    · cases unmap_effect invariant area.start area.size world with
      | failed error failed _ =>
        rw [failed] at success
        cases success
      | done value achieved =>
        refine achieved.invariant.tiled.get?_eq_none ((congrFun achieved.contentsEq _).trans ?_)
        exact if_pos ⟨le_rfl, area.start_add_size ▸ nonempty⟩
    · intro addr notContained
      apply unmap_shows flat success
      rwa [area.start_add_size]
  · simp only [if_neg overlapping] at phase ⊢
    have vacant : ∀ addr, area.vaRange.Contains addr → set.contents addr = none :=
      fun addr => overlaps_eq_false invariant.tiled (by simpa using overlapping)
    refine ⟨set, ?_, invariant.tiled.get?_eq_none (vacant area.start ⟨le_rfl, nonempty⟩),
      fun addr contained => contents_eq_none.mp (vacant addr contained), fun _ _ => rfl⟩
    split
    · rename_i refusal
      rw [refusal] at phase
      cases phase
    · rename_i validated
      rw [validated]

/-- A `map` that fails with a recoverable error takes back what it did, and then the
page table is as it was exactly when it had nothing of its own in the range. -/
theorem map_shows_iff {unmapOverlap : Bool} (carries : set.Carries read world)
    (entered : set.EntersMapArea area unmapOverlap world) :
    (∀ error, (set.map area unmapOverlap world).result = .err error → error ≠ .needsRepair →
      ∀ addr, (set.map area unmapOverlap world).world.shows read addr = world.shows read addr) ↔
      (TakesBack (set.beforeMapArea area world).1 area (set.beforeMapArea area world).2 →
        set.Tidy read area.vaRange world) := by
  obtain ⟨cleared, same, free, backupOf, outside⟩ := entered.installs flat invariant
  have restored : TakesBack (set.beforeMapArea area world).1 area
      (set.beforeMapArea area world).2 →
      set.Restored read area.vaRange world (set.map area unmapOverlap world).world := by
    intro taken
    rw [same, (installArea_of_takesBack taken).2]
    apply revertMapping_restored flat invariant.tiled backupOf carries _
      (Prod.ext taken.2 rfl)
    intro addr notContained
    rw [← outside addr notContained]
    exact flat.map.refused (okOrBadState_eq_error (Prod.ext taken.1 rfl))
      (area.start_add_size ▸ notContained)
  constructor
  · intro keeps taken
    refine (restored taken).same_iff.mp (keeps .badState ?_ (by decide))
    rw [same]
    exact (installArea_of_takesBack taken).1
  · intro tidy error failed recoverable
    have taken := takesBack_of_err free (same ▸ failed) recoverable
    exact (restored taken).same_iff.mpr (tidy taken)

end

/-! ## All operations -/

variable (operation : Operation B)

/-- The operation is a rollback whose `shrink_right` hook refuses, after the
mappings are gone, and leaves the backend of the live area changed. -/
def LeavesBackend (set : MemorySet B) (world : World B) : Prop :=
  ∃ addr additionalSize area backend, operation = .rollbackExtendArea addr additionalSize ∧
    set.find addr = some area ∧
    0 < additionalSize ∧ additionalSize < area.size ∧
    (world.validateUnmap area.backend (area.stop - additionalSize) additionalSize).1 = true ∧
    ((world.validateUnmap area.backend
      (area.stop - additionalSize) additionalSize).2.unmap area.backend
        (area.stop - additionalSize) additionalSize).1 = true ∧
    shrinkRight area.backend additionalSize = (false, backend) ∧
    backend ≠ area.backend

/-- The operation is a `map` that takes back a refused mapping, and an address of its
range was mapped without belonging to an area. -/
def LosesMapping (read : PageTable B → Nat → Option (Flags B)) (set : MemorySet B)
    (world : World B) : Prop :=
  ∃ area unmapOverlap, operation = .map area unmapOverlap ∧ set.Carries read world ∧
    set.EntersMapArea area unmapOverlap world ∧
    TakesBack (set.beforeMapArea area world).1 area (set.beforeMapArea area world).2 ∧
    ∃ addr, area.vaRange.Contains addr ∧ set.find addr = none ∧ world.shows read addr ≠ none

/-- The areas and the gaps are as they were whenever the operation fails. -/
def KeepsSet (set : MemorySet B) (world : World B) : Prop :=
  ∀ error, (operation.run set world).result = .err error → (operation.run set world).set = set

/-- The page table is as it was whenever `protect`, or `map` behind the entry
of `map_area`, fails with a recoverable error. -/
def KeepsTable (read : PageTable B → Nat → Option (Flags B)) (operation : Operation B)
    (set : MemorySet B) (world : World B) : Prop :=
  set.Carries read world →
  (match operation with
    | .map area unmapOverlap => set.EntersMapArea area unmapOverlap world
    | .protectWithReportedFlags _ _ _ => True
    | _ => False) →
  ∀ error, (operation.run set world).result = .err error → error ≠ .needsRepair →
    ∀ addr, (operation.run set world).world.shows read addr = world.shows read addr

private theorem keepsTable_iff (flat : FlatTable B read) (invariant : set.Invariant) :
    KeepsTable read operation set world ↔ ¬ LosesMapping operation read set world := by
  cases operation with
  | map area unmapOverlap =>
    constructor
    · rintro keeps ⟨_, _, same, carries, entered, taken, addr, contained, unowned, mapped⟩
      cases same
      exact mapped ((map_shows_iff flat invariant carries entered).mp
        (keeps carries entered) taken addr contained unowned)
    · intro keepsAll carries entered
      refine (map_shows_iff flat invariant carries entered).mpr ?_
      intro taken addr contained unowned
      by_contra mapped
      exact keepsAll ⟨_, _, rfl, carries, entered, taken, addr, contained, unowned, mapped⟩
  | protectWithReportedFlags start size updateFlags =>
    refine iff_of_true ?_ (by rintro ⟨_, _, same, _⟩; cases same)
    intro carries _ error failed recoverable
    exact protectWithReportedFlags_shows flat invariant.tiled carries failed recoverable
  | _ =>
    refine iff_of_true ?_ (by rintro ⟨_, _, same, _⟩; cases same)
    exact fun _ concerned => absurd concerned id

theorem Effect.kept {contents : AddressMap (Attributes B)}
    {outcome : Outcome B Unit} (effect : Effect set contents outcome)
    (failed : outcome.result = .err error) : outcome.set = set := by
  cases effect with
  | failed _ _ kept => exact kept
  | done value achieved =>
    rw [achieved.resultEq] at failed
    cases failed

theorem withBackend_eq_self_iff (bound : set.areas.get? area.start = some area) :
    (⟨set.areas.insert area.start (area.withBackend backend), set.gaps⟩ :
      MemorySet B) = set ↔ backend = area.backend := by
  constructor
  · intro same
    have lookup := congrArg (fun other : MemorySet B => other.areas.get? area.start) same
    simp only [get?_insert, if_true, bound, Option.some.injEq] at lookup
    exact congrArg MemoryArea.backend lookup
  · intro same
    rw [same, show area.withBackend area.backend = area from rfl, insert_of_get? bound]

private theorem findStart_of_find (tiled : set.areas.Tiled) (found : set.find addr = some area) :
    set.findStart addr = some area.start := by
  simp only [find, stab, Option.filter_eq_some_iff,
    Option.map_eq_some_iff, decide_eq_true_eq] at found
  obtain ⟨⟨⟨key, _⟩, last, rfl⟩, contained⟩ := found
  obtain ⟨bound, -, -⟩ := lastAtMost_eq_some last
  simp only [findStart, last, Option.map_eq_some_iff, Option.filter_eq_some_iff, decide_eq_true_eq]
  exact ⟨_, ⟨rfl, contained⟩, (tiled.keyed bound).symm⟩

private theorem rollbackExtendArea_refused (tiled : set.areas.Tiled) {additionalSize : Nat}
    (found : set.find addr = some area) (positive : 0 < additionalSize)
    (shorter : additionalSize < area.size) (validated : (world.validateUnmap area.backend
      (area.stop - additionalSize) additionalSize).1 = true)
    (unmapped : ((world.validateUnmap area.backend
      (area.stop - additionalSize) additionalSize).2.unmap area.backend
        (area.stop - additionalSize) additionalSize).1 = true)
    (refusal : shrinkRight area.backend additionalSize = (false, backend)) :
    (set.rollbackExtendArea addr additionalSize world).result = .err .badState ∧
      (set.rollbackExtendArea addr additionalSize world).set =
        ⟨set.areas.insert area.start (area.withBackend backend), set.gaps⟩ := by
  obtain ⟨bound, above, below⟩ := tiled.at_eq_some found
  have sizeEq := area.size_eq
  have shrink : area.shrinkRightMetadata (area.size - additionalSize) =
      (.error .badState, area.withBackend backend) := by
    unfold MemoryArea.shrinkRightMetadata
    rw [dif_neg (by omega), if_pos (by omega)]
    simp [show area.size - (area.size - additionalSize) = additionalSize by omega, refusal]
  unfold rollbackExtendArea
  rw [if_neg (by omega), findStart_of_find tiled found]
  simp only [bound]
  rw [if_neg (by omega), if_neg (by omega)]
  cases validation : world.validateUnmap area.backend
      (area.stop - additionalSize) additionalSize with
  | mk answer between =>
    rw [validation] at validated unmapped
    subst validated
    simp only
    cases unmapping : between.unmap area.backend (area.stop - additionalSize) additionalSize with
    | mk answer after =>
      rw [unmapping] at unmapped
      subst unmapped
      simp [shrink]

private theorem rollback_keepsSet_iff (invariant : set.Invariant) (addr additionalSize : Nat)
    (world : World B) :
    KeepsSet (.rollbackExtendArea addr additionalSize) set world ↔
      ¬ LeavesBackend (.rollbackExtendArea addr additionalSize) set world := by
  have tiled := invariant.tiled
  constructor
  · intro keeps leaves
    obtain ⟨_, _, area, backend, same, found, positive, shorter, validated,
      unmapped, refusal, changed⟩ := leaves
    cases same
    obtain ⟨failed, setEq⟩ := rollbackExtendArea_refused tiled found positive
      shorter validated unmapped refusal
    obtain ⟨bound, -, -⟩ := tiled.at_eq_some found
    exact changed ((withBackend_eq_self_iff bound).mp (setEq.symm.trans (keeps _ failed)))
  · intro leavesNot error failed
    cases rollbackExtendArea_end invariant addr additionalSize world with
    | effect effect => exact effect.kept failed
    | refused area backend found accepted validated unmapped refusal _ setEq =>
      obtain ⟨bound, -, -⟩ := tiled.at_eq_some found
      refine setEq.trans ((withBackend_eq_self_iff bound).mpr ?_)
      by_contra changed
      exact leavesNot ⟨addr, additionalSize, area, backend, rfl, found,
        accepted.1, accepted.2, validated, unmapped, refusal, changed⟩

/-- Four pages with one area whose backend refuses to be shrunk. -/
def stubbornPages : MemorySet (FlatBackend true) :=
  ((Operation.insertPreparedArea (fourPagesAt true)).run new (idleWorld true)).set

theorem reachable_stubbornPages : Reachable stubbornPages :=
  .single ⟨_, idleWorld true, rfl⟩

private theorem flatTable_flatBackend (stubborn : Bool) :
    FlatTable (FlatBackend stubborn) (fun table => table) where
  map := ⟨by rintro _ _ _ _ _ _ ⟨⟩ _; rfl, by rintro _ _ _ _ _ _ ⟨⟩⟩
  protect := ⟨by rintro _ _ _ _ _ _ ⟨⟩ _; rfl, by rintro _ _ _ _ _ _ ⟨⟩⟩
  unmap := by
    rintro _ _ _ _ _ ⟨⟩ _
    rfl

/-- A second mapping of a page of the area. -/
def secondMapping : Operation (FlatBackend true) :=
  .map (areaAt true 0x2000 0x1000 7 (by decide)) false

end MemorySet

end TgosKits
