import TgosKits.Slab.MoveSteps

/-! # Interleavings of the owner and the remote CPUs -/

namespace TgosKits.SlabMachine

open List

variable {Cpu : Type} [DecidableEq Cpu] {machine after : SlabMachine Cpu} {lists : SlabLists}
  {ahead : List Nat}

omit [DecidableEq Cpu] in
private theorem sound_advance (sound : machine.Sound lists ahead) :
    ∃ otherLists rest, machine.ownerStep.Sound otherLists rest := by
  cases standing : machine.owner with
  | idle outcome =>
    simp only [ownerStep, standing]
    exact ⟨lists, ahead, sound⟩
  | tryPartial sizeClass call => exact ⟨_, _, sound_tryPartial sound standing⟩
  | drain sizeClass base why => exact ⟨_, _, sound_drain sound standing⟩
  | resetCount sizeClass base ptr why =>
    exact ⟨_, _, sound_resetCount sound standing⟩
  | draining sizeClass base ptr why =>
    exact ⟨_, _, sound_draining sound standing⟩
  | localAlloc sizeClass base call =>
    exact ⟨_, _, sound_localAlloc sound standing⟩
  | checkFull sizeClass base slot => exact ⟨_, _, sound_checkFull sound standing⟩
  | unlink sizeClass base move => exact sound_unlink sound standing
  | link sizeClass base move =>
    rcases sound_link sound standing with ⟨otherLists, linked⟩
    exact ⟨otherLists, ahead, linked⟩
  | takeHint sizeClass => exact ⟨lists, sound_takeHint sound standing⟩
  | walk sizeClass base reclaimed => exact ⟨lists, sound_walk sound standing⟩
  | recycle sizeClass => exact ⟨_, _, sound_recycle sound standing⟩
  | checkRemote sizeClass base => exact ⟨_, _, sound_checkRemote sound standing⟩
  | checkEmpty sizeClass base => exact ⟨_, _, sound_checkEmpty sound standing⟩
  | detach sizeClass base =>
    rcases sound_detach sound standing with ⟨otherLists, detached⟩
    exact ⟨otherLists, ahead, detached⟩
  | release sizeClass base => exact ⟨_, _, sound_release sound standing⟩
  | panicked =>
    have atPlace := sound.place standing
    exact atPlace.elim

private theorem sound_step (sound : machine.Sound lists ahead) (step : machine.Step after) :
    ∃ otherLists rest, after.Sound otherLists rest := by
  obtain ⟨action, permitted, rfl⟩ := step
  cases action with
  | alloc sizeClass => exact ⟨_, _, sound_alloc sound permitted⟩
  | dealloc base slot => exact ⟨_, _, sound_dealloc sound permitted⟩
  | addSlab sizeClass base bytes => exact ⟨_, _, sound_addSlab sound permitted⟩
  | advance => exact sound_advance sound
  | deallocRemote cpu base slot =>
    exact ⟨_, _, sound_deallocRemote sound permitted⟩
  | remote cpu spurious => exact ⟨_, _, sound_remote sound cpu spurious⟩
  | write base slot value => exact ⟨_, _, sound_write sound permitted⟩
  | reuse base page => exact ⟨_, _, sound_reuse sound permitted⟩

omit [DecidableEq Cpu] in
private theorem sound_start (pages : Nat → SlabPage) :
    (start pages : SlabMachine Cpu).Sound (fun _ => []) [] := by
  have nothing : ∀ {goal : Prop} {base : Nat}, base ∈ (∅ : Finset Nat) → goal :=
    fun member => absurd member (Finset.notMem_empty _)
  refine ⟨⟨fun _ => nothing, ?_, fun _ => nothing, fun _ => nothing⟩,
    ⟨⟨⟨?_, ?_⟩, ?_⟩, ?_, ?_, fun _ => nothing⟩, ⟨?_, ?_, ?_⟩, ?_, rfl⟩
  · exact fun base slot member => absurd member (Finset.notMem_empty _)
  · exact fun _ _ => ⟨rfl, nodup_nil⟩
  · exact fun _ _ item _ _ member => absurd member not_mem_nil
  · exact fun _ _ base _ => iff_of_false not_mem_nil (fun both => Finset.notMem_empty base both.1)
  · exact fun _ => rfl
  · exact fun _ => Nat.zero_le 1
  · exact fun _ _ freeing => by cases freeing
  · exact fun _ _ _ _ loaded => by cases loaded
  · exact fun _ _ _ freeing => by cases freeing
  · exact fun _ base member => absurd member not_mem_nil

theorem Reachable.sound (reachable : machine.Reachable) :
    ∃ lists ahead, machine.Sound lists ahead := by
  obtain ⟨pages, run⟩ := reachable
  induction run with
  | refl => exact ⟨_, _, sound_start pages⟩
  | tail _ step ih =>
    obtain ⟨lists, ahead, sound⟩ := ih
    exact sound_step sound step

/-! ## What the invariant says -/

def SlotIn (machine : SlabMachine Cpu) (base slot : Nat) (place : SlotPlace) : Prop :=
  (machine.page base).InPlace base (machine.owner.drainHead base)
    (fun slot => (base, slot) ∈ machine.live) slot place

/-- The running allocation is about to take a slot, which it will return. -/
def Takes (machine : SlabMachine Cpu) (base slot : Nat) : Prop :=
  ∃ sizeClass call page, machine.owner = .localAlloc sizeClass base call ∧
    (machine.page base).localAlloc = some (slot, page)

def HasFreeSlot (machine : SlabMachine Cpu) (base : Nat) : Prop :=
  ∃ slot < (machine.page base).objectCount, Bitmap.get (machine.page base).localBitmap slot = true

omit [DecidableEq Cpu] in
theorem Sound.hasFreeSlot_iff {base : Nat} (sound : machine.Sound lists ahead)
    (inside : base ∈ machine.owned) :
    machine.HasFreeSlot base ↔ 0 < (machine.page base).localFreeCount := by
  have zero := (sound.slots.settled base inside).count_eq_zero
  rw [Nat.pos_iff_ne_zero, ← not_iff_not, not_not]
  refine .trans ?_ zero.symm
  simp [HasFreeSlot, page]

omit [DecidableEq Cpu] in
theorem Sound.fit_onList {sizeClass : SizeClass} {kind : SlabListState} {base : Nat}
    (sound : machine.Sound lists ahead) (listed : kind ≠ .notListed)
    (onList : machine.store.OnList sizeClass kind base) (notHeld : machine.owner.held ≠ some base) :
    base ∈ machine.owned ∧ (machine.page base).listState = kind ∧ (machine.page base).Fit := by
  have member := (sound.ranks.listing.onList_iff listed).mp onList
  obtain ⟨inside, -, state⟩ := sound.mem listed member
  exact ⟨inside, state, sound.ranks.fit base inside notHeld⟩

omit [DecidableEq Cpu] in
private theorem Sound.ahead_eq_nil (sound : machine.Sound lists ahead)
    (notWalking : machine.owner.walking = false) : ahead = [] := by
  have atPlace := sound.atPlace
  cases standing : machine.owner <;> rw [standing] at atPlace notWalking
  case drain why | resetCount why | draining why =>
    cases why with
    | walk next => cases notWalking
    | alloc | dealloc => exact atPlace.1.2
  case unlink sizeClass base move =>
    cases move with
    | walk next => cases notWalking
    | addSlab => exact atPlace.1.elim
    | allocated | recycle | dealloc | keepEmpty => exact atPlace.1.2
  case link sizeClass base move =>
    cases move with
    | walk next => cases notWalking
    | _ => exact atPlace.2.1
  case walk sizeClass base reclaimed => cases notWalking
  case localAlloc | checkFull => exact atPlace.2
  case checkRemote | checkEmpty | detach | release => exact atPlace.2.2
  case panicked => exact atPlace.elim
  all_goals exact atPlace

/-- In every interleaving: every slot is in one place, and free slots are
counted; a slab that the owner is not moving has a free slot exactly as its
list says; a cache keeps one empty slab at most; no live slot is allocated; and
a remote free in a full slab is announced. -/
theorem reachable_slots_and_lists (reachable : machine.Reachable) :
    (∀ base ∈ machine.owned, ∀ slot < (machine.page base).objectCount,
      ∃! place, machine.SlotIn base slot place) ∧
    (∀ base ∈ machine.owned, (machine.page base).localFreeCount =
      Bitmap.ones maxObjectsPerSlab (machine.page base).localBitmap) ∧
    (∀ sizeClass base, machine.store.OnList sizeClass .fullList base →
      machine.owner.held ≠ some base → ¬ machine.HasFreeSlot base) ∧
    (∀ sizeClass base, machine.store.OnList sizeClass .partialList base →
      machine.owner.held ≠ some base → machine.HasFreeSlot base ∨
          (machine.page base).remoteFreeHead ≠ 0) ∧
    (∀ sizeClass first second, machine.store.OnList sizeClass .emptyList first →
      machine.store.OnList sizeClass .emptyList second → first = second) ∧
    (∀ base slot, machine.Takes base slot → (base, slot) ∉ machine.live) ∧
    (∀ sizeClass base, machine.store.OnList sizeClass .fullList base →
      (machine.page base).remoteFreeHead ≠ 0 → (∀ cpu, (machine.remotes cpu).unannounced = false) →
      machine.owner.walking = false → RemoteFreeHint.isMarked machine.hint sizeClass = true) := by
  obtain ⟨lists, ahead, sound⟩ := reachable.sound
  refine ⟨?_, ?_, ?_, ?_, ?_, ?_, ?_⟩
  · intro base inside slot below
    exact (sound.slots.settled base inside).existsUnique below
  · intro base inside
    exact (sound.slots.settled base inside).counted
  · intro sizeClass base onList notHeld
    obtain ⟨inside, state, fit⟩ := sound.fit_onList (by decide) onList notHeld
    unfold SlabPage.Fit at fit
    simp only [state] at fit
    rw [sound.hasFreeSlot_iff inside, fit]
    exact lt_irrefl 0
  · intro sizeClass base onList notHeld
    obtain ⟨inside, state, fit⟩ := sound.fit_onList (by decide) onList notHeld
    unfold SlabPage.Fit at fit
    simp only [state] at fit
    rw [sound.hasFreeSlot_iff inside]
    exact fit
  · intro sizeClass first second firstOn secondOn
    have listed : SlabListState.emptyList ≠ .notListed := by decide
    have firstMember := (sound.ranks.listing.onList_iff listed).mp firstOn
    have secondMember := (sound.ranks.listing.onList_iff listed).mp secondOn
    have atMost := sound.ranks.oneEmpty sizeClass
    cases whole : lists (sizeClass, .emptyList) with
    | nil =>
      rw [whole] at firstMember
      exact absurd firstMember not_mem_nil
    | cons only rest =>
      have alone : rest = [] := by simpa [whole] using atMost
      rw [whole, alone, mem_singleton] at firstMember secondMember
      rw [firstMember, secondMember]
  · rintro base slot ⟨sizeClass, call, page, standing, taken⟩
    have atPlace := sound.place standing
    obtain ⟨inside, -, -⟩ := sound.mem (by decide) atPlace.1
    obtain ⟨found, foundEq, pairEq⟩ := Option.map_eq_some_iff.mp taken
    obtain ⟨rfl, -⟩ := Prod.mk.inj pairEq
    exact (sound.slots.settled base inside).not_live_of_free (Bitmap.firstSet_some foundEq).2
  · intro sizeClass base onList nonempty silent notWalking
    have member := (sound.ranks.listing.onList_iff (by decide)).mp onList
    have nothing := sound.ahead_eq_nil notWalking
    rcases sound.announces sizeClass base member (by simp [nothing]) nonempty
      with marked | ⟨cpu, inFlight⟩
    · exact marked
    · exact absurd inFlight (not_announcing (silent cpu))

/-! ## Slabs with one and two objects -/

def AllPermitted (machine : SlabMachine Cpu) : List (SlabAction Cpu) → Prop
  | [] => True
  | action :: rest => machine.Permitted action ∧ AllPermitted (machine.perform action) rest

theorem Reachable.foldl {actions : List (SlabAction Cpu)} (reachable : machine.Reachable)
    (permitted : machine.AllPermitted actions) : (actions.foldl perform machine).Reachable := by
  induction actions generalizing machine with
  | nil => exact reachable
  | cons action rest ih =>
    obtain ⟨pages, run⟩ := reachable
    exact ih ⟨pages, run.tail ⟨action, permitted.1, rfl⟩⟩ permitted.2

def blankPage : SlabPage where
  magic := 0
  sizeClass := .bytes8
  objectCount := 0
  localFreeCount := 0
  listPrev := 0
  listNext := 0
  listState := .notListed
  localBitmap := fun _ => 0
  remoteFreeHead := 0
  remoteFreeCount := 0
  firstWord := fun _ => 0

/-- Add a slab for one object, and allocate it up to the point where the owner
has seen that the slab is spent and has no remote frees. -/
def oneObjectActions : List (SlabAction Nat) :=
  [.addSlab .bytes2048 0x4000 0x1000, .advance, .alloc .bytes2048, .advance, .advance, .advance]

def spentSlab : SlabMachine Nat := oneObjectActions.foldl perform (start fun _ => blankPage)

private theorem spentSlab_reachable : spentSlab.Reachable := by
  refine Reachable.foldl ⟨_, .refl⟩ ⟨?_, trivial, ⟨_, rfl⟩, trivial, trivial, trivial, trivial⟩
  exact ⟨⟨_, rfl⟩, by decide, Finset.notMem_empty _, by decide⟩

/-- Before its move to the full list the slab is on the partial list, with no
free slot and no remote free. -/
theorem spentSlab_on_partial_list : spentSlab.Reachable ∧
      spentSlab.store.OnList .bytes2048 .partialList 0x4000 ∧
      ¬ spentSlab.HasFreeSlot 0x4000 ∧
      (spentSlab.page 0x4000).remoteFreeHead = 0 := by
  refine ⟨spentSlab_reachable, ⟨[0x4000], ⟨⟨rfl, by decide, rfl, rfl⟩, ?_⟩, ?_⟩, ?_, rfl⟩
  · exact nodup_singleton _
  · exact mem_singleton_self _
  · rintro ⟨slot, below, free⟩
    have one : (spentSlab.page 0x4000).objectCount = 1 := by decide
    obtain rfl : slot = 0 := by omega
    exact absurd free (by decide)

/-- Add a slab for two objects, allocate both, and free the first one from another CPU. -/
def remoteFreeActions : List (SlabAction Unit) :=
  [.addSlab .bytes2048 0x4000 0x1800, .advance, .alloc .bytes2048, .advance, .advance, .advance,
    .alloc .bytes2048, .advance, .advance, .advance, .advance, .advance,
    .deallocRemote () 0x4000 0, .remote () false, .remote () false, .remote () false,
    .remote () false, .remote () false]

def pushedSlab : SlabMachine Unit := remoteFreeActions.foldl perform (start fun _ => blankPage)

private theorem pushedSlab_reachable : pushedSlab.Reachable := by
  refine Reachable.foldl ⟨_, .refl⟩ ⟨?_, trivial, ⟨_, rfl⟩, trivial, trivial, trivial, ⟨_, rfl⟩,
    trivial, trivial, trivial, trivial, trivial, ?_, trivial, trivial, trivial, trivial, trivial,
    trivial⟩
  · exact ⟨⟨_, rfl⟩, by decide, Finset.notMem_empty _, by decide⟩
  · exact ⟨rfl, by decide, fun cpu => nofun⟩

/-- One slot is on the stack and one is live, and the push to the full slab is announced. -/
theorem pushedSlab_slots_and_lists : (∃! place, pushedSlab.SlotIn 0x4000 0 place) ∧
    pushedSlab.SlotIn 0x4000 0 .remoteFree ∧ (∃! place, pushedSlab.SlotIn 0x4000 1 place) ∧
    pushedSlab.SlotIn 0x4000 1 .live ∧
      RemoteFreeHint.isMarked pushedSlab.hint .bytes2048 = true := by
  have inside : 0x4000 ∈ pushedSlab.owned := by decide
  have onList : pushedSlab.store.OnList .bytes2048 .fullList 0x4000 :=
    ⟨[0x4000], ⟨⟨rfl, by decide, rfl, rfl⟩, nodup_singleton _⟩, mem_singleton_self _⟩
  obtain ⟨places, -, -, -, -, -, announced⟩ := reachable_slots_and_lists pushedSlab_reachable
  refine ⟨places 0x4000 inside 0 (by decide), ⟨[0x4800], ⟨rfl, by decide, rfl⟩, ?_⟩,
    places 0x4000 inside 1 (by decide), ?_,
    announced .bytes2048 0x4000 onList (by decide) (fun _ => rfl) rfl⟩
  · exact mem_singleton_self _
  · exact show (0x4000, 1) ∈ pushedSlab.live by decide

end TgosKits.SlabMachine
