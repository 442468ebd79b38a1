import TgosKits.Slab.Invariant

/-! # Steps beside the owner -/

namespace TgosKits

open Function Remote

variable {Cpu : Type}

namespace SlabMachine

variable {machine after : SlabMachine Cpu} {lists : SlabLists} {ahead : List Nat}

/-- What happens to the owner's data when another party takes a step. -/
structure Beside (machine after : SlabMachine Cpu) : Prop where
  owner : after.owner = machine.owner
  owned : after.owned = machine.owned
  caches : after.store.caches = machine.store.caches
  ties : ∀ base ∈ machine.owned, SameTies (machine.page base) (after.page base)
  objectCount : ∀ base ∈ machine.owned,
    (after.page base).objectCount = (machine.page base).objectCount
  localFreeCount : ∀ base ∈ machine.owned,
    (after.page base).localFreeCount = (machine.page base).localFreeCount
  head : ∀ base ∈ machine.owned, (machine.page base).remoteFreeHead ≠ 0 →
    (after.page base).remoteFreeHead ≠ 0
  announced : ∀ base ∈ machine.owned, ((machine.page base).remoteFreeHead ≠ 0 →
      Announced machine.hint machine.remotes (machine.page base).sizeClass base) →
    (after.page base).remoteFreeHead ≠ 0 →
      Announced after.hint after.remotes (machine.page base).sizeClass base

theorem Ranks.beside {held : Option Nat} (beside : machine.Beside after)
    (ranks : Ranks machine.store machine.owned lists held) :
    Ranks after.store after.owned lists held := by
  have heads : after.store.heads = machine.store.heads := by
    funext index
    simp [SlabStore.heads, beside.caches]
  rw [beside.owned]
  refine ⟨ranks.listing.congr heads ?_, ?_, ranks.oneEmpty, ?_⟩
  · intro base inside
    have ties := beside.ties base inside
    exact ⟨ties.listPrev, ties.listNext, ties.sizeClass, ties.listState⟩
  · rw [beside.caches]
    exact ranks.empties
  · intro base inside notHeld
    have fit := ranks.fit base inside notHeld
    have state := (beside.ties base inside).listState
    have count := beside.localFreeCount base inside
    have objects := beside.objectCount base inside
    have head := beside.head base inside
    simp only [page] at state count objects head
    unfold SlabPage.Fit at fit ⊢
    rw [state]
    cases kind : (machine.store.pages base).listState with
    | notListed => simp only [kind] at fit
    | partialList =>
      simp only [kind] at fit
      rw [count]
      exact fit.imp_right head
    | fullList =>
      simp only [kind] at fit
      simpa only [count] using fit
    | emptyList =>
      simp only [kind] at fit
      simpa only [count, objects] using fit

theorem Announces.beside (beside : machine.Beside after)
    (listing : machine.store.Listing machine.owned lists)
    (announces : Announces machine.store.pages machine.hint machine.remotes lists ahead) :
    Announces after.store.pages after.hint after.remotes lists ahead := by
  intro sizeClass base member notAhead nonempty
  obtain ⟨inside, ofClass, -⟩ := (listing.mem_iff sizeClass .fullList base (by decide)).mp member
  subst ofClass
  exact beside.announced base inside
    (announces (machine.page base).sizeClass base member notAhead) nonempty

variable {sizeClass : SizeClass} {base : Nat} {spurious : Bool}

theorem Loose.beside (beside : machine.Beside after)
    (loose : machine.Loose sizeClass base) : after.Loose sizeClass base := by
  obtain ⟨inside, ofClass, state⟩ := loose
  have ties := beside.ties base inside
  exact ⟨beside.owned ▸ inside, ties.sizeClass.trans ofClass, ties.listState.trans state⟩

theorem ready_beside {move : Move} (beside : machine.Beside after) (inside : base ∈ machine.owned)
    (ofClass : (machine.page base).sizeClass = sizeClass)
    (ready : move.Ready machine lists sizeClass base) : move.Ready after lists sizeClass base := by
  have count := beside.localFreeCount base inside
  have objects := beside.objectCount base inside
  cases move with
  | allocated slot =>
    refine ⟨count.trans ready.1, ?_⟩
    rw [← ofClass]
    exact beside.announced base inside (ofClass.symm ▸ ready.2)
  | keepEmpty => exact ⟨count.trans (ready.1.trans objects.symm), ready.2⟩
  | walk | recycle | dealloc | addSlab => exact lt_of_lt_of_eq ready count.symm

theorem drainFor_mem {why : DrainFor} (atPlace : why.At lists ahead sizeClass base) :
    ∃ kind, kind ≠ .notListed ∧ base ∈ lists (sizeClass, kind) := by
  cases why with
  | walk next =>
    obtain ⟨⟨visited, whole⟩, rest, aheadEq, -⟩ := atPlace
    refine ⟨.fullList, by decide, ?_⟩
    rw [whole, aheadEq]
    simp
  | alloc | dealloc => exact ⟨.partialList, by decide, atPlace.1⟩

theorem before_mem {move : Move} (before : move.Before lists ahead sizeClass base) :
    move.source ≠ .notListed ∧ base ∈ lists (sizeClass, move.source) := by
  cases move with
  | walk next =>
    obtain ⟨⟨visited, whole⟩, rest, aheadEq, -⟩ := before
    simp only [Move.source]
    rw [whole, aheadEq]
    simp
  | addSlab => exact before.elim
  | allocated | recycle | dealloc | keepEmpty => exact ⟨by simp [Move.source], before.1⟩

private theorem at_beside (beside : machine.Beside after)
    (listing : machine.store.Listing machine.owned lists)
    (atPlace : machine.owner.At machine lists ahead) : after.owner.At after lists ahead := by
  have listed : ∀ {sizeClass kind base}, kind ≠ .notListed → base ∈ lists (sizeClass, kind) →
        base ∈ machine.owned ∧ (machine.page base).sizeClass = sizeClass := by
    intro sizeClass kind base isListed member
    obtain ⟨inside, ofClass, -⟩ := (listing.mem_iff sizeClass kind base isListed).mp member
    exact ⟨inside, ofClass⟩
  rw [beside.owner]
  cases place : machine.owner <;> rw [place] at atPlace
  case drain sizeClass base why =>
    obtain ⟨kind, isListed, member⟩ := drainFor_mem atPlace.1
    exact ⟨atPlace.1, beside.head base (listed isListed member).1 atPlace.2⟩
  case draining sizeClass base ptr why =>
    obtain ⟨kind, isListed, member⟩ := drainFor_mem atPlace.1
    refine ⟨atPlace.1, ?_⟩
    rw [beside.localFreeCount base (listed isListed member).1]
    exact atPlace.2
  case unlink sizeClass base move =>
    obtain ⟨isListed, member⟩ := before_mem atPlace.1
    obtain ⟨inside, ofClass⟩ := listed isListed member
    exact ⟨atPlace.1, ready_beside beside inside ofClass atPlace.2⟩
  case link sizeClass base move =>
    obtain ⟨loose, between, ready⟩ := atPlace
    exact ⟨.beside beside loose, between, ready_beside beside loose.1 loose.2.1 ready⟩
  case checkRemote sizeClass base | checkEmpty sizeClass base =>
    refine ⟨atPlace.1, ?_, atPlace.2.2⟩
    rw [beside.localFreeCount base (listed (by decide) atPlace.1).1]
    exact atPlace.2.1
  case detach sizeClass base =>
    have inside := (listed (by decide) atPlace.1).1
    refine ⟨atPlace.1, ?_, atPlace.2.2⟩
    rw [beside.localFreeCount base inside, beside.objectCount base inside]
    exact atPlace.2.1
  case release sizeClass base =>
    have inside := atPlace.1.1
    refine ⟨.beside beside atPlace.1, ?_, atPlace.2.2⟩
    rw [beside.localFreeCount base inside, beside.objectCount base inside]
    exact atPlace.2.1
  all_goals exact atPlace

/-- A step beside the owner keeps the invariant if it keeps the slots and the
claims. -/
theorem Sound.beside (sound : machine.Sound lists ahead) (beside : machine.Beside after)
    (slots : Slots after.store.pages after.owned after.live
      (fun base => machine.owner.drainHead base))
    (claims : Claims after.store.pages after.live after.remotes) : after.Sound lists ahead where
  slots := beside.owner.symm ▸ slots
  ranks := beside.owner.symm ▸ sound.ranks.beside beside
  claims := claims
  announces := sound.announces.beside beside sound.ranks.listing
  atPlace := at_beside beside sound.ranks.listing sound.atPlace

/-! ## Single steps -/

variable [DecidableEq Cpu] {cpu : Cpu} {base slot : Nat} {new : Remote}

theorem Claims.setRemote {pages : Nat → SlabPage} {live : Finset (Nat × Nat)}
    {remotes : Cpu → Remote} (claims : Claims pages live remotes)
    (own : ∀ object, new.object = some object → object ∈ live ∧
      ∀ other, other ≠ cpu → (remotes other).object ≠ some object)
    (loaded : ∀ base slot oldHead, new = .loaded base slot oldHead →
      (pages base).firstWord ((pages base).objectAddr base slot) = oldHead) :
    Claims pages live (update remotes cpu new) := by
  constructor
  · intro other object freeing
    by_cases here : other = cpu
    · rw [here, update_self] at freeing
      exact (own object freeing).1
    · rw [update_of_ne here] at freeing
      exact claims.isLive other object freeing
  · intro other base slot oldHead isLoaded
    by_cases here : other = cpu
    · rw [here, update_self] at isLoaded
      exact loaded base slot oldHead isLoaded
    · rw [update_of_ne here] at isLoaded
      exact claims.loaded other base slot oldHead isLoaded
  · intro first second object firstFrees secondFrees
    by_cases firstHere : first = cpu <;> by_cases secondHere : second = cpu
    · rw [firstHere, secondHere]
    · rw [firstHere, update_self] at firstFrees
      rw [update_of_ne secondHere] at secondFrees
      exact absurd secondFrees ((own object firstFrees).2 second secondHere)
    · rw [update_of_ne firstHere] at firstFrees
      rw [secondHere, update_self] at secondFrees
      exact absurd firstFrees ((own object secondFrees).2 first firstHere)
    · rw [update_of_ne firstHere] at firstFrees
      rw [update_of_ne secondHere] at secondFrees
      exact claims.alone first second object firstFrees secondFrees

theorem Announced.setRemote {hint : BitVec 16} {remotes : Cpu → Remote}
    (announced : Announced hint remotes sizeClass base)
    (goesOn : remotes cpu = .queued base ∨ remotes cpu = .counted base ∨
        remotes cpu = .marking sizeClass →
      new = .queued base ∨ new = .counted base ∨ new = .marking sizeClass) :
    Announced hint (update remotes cpu new) sizeClass base := by
  rcases announced with marked | ⟨other, inFlight⟩
  · exact .inl marked
  right
  by_cases here : other = cpu
  · subst here
    exact ⟨other, by rw [update_self]; exact goesOn inFlight⟩
  · exact ⟨other, by rw [update_of_ne here]; exact inFlight⟩

theorem not_announcing {remote : Remote} (silent : remote.unannounced = false) :
    ¬ (remote = .queued base ∨ remote = .counted base ∨ remote = .marking sizeClass) := by
  rintro (rfl | rfl | rfl) <;> cases silent

theorem beside_setRemote (goesOn : ∀ base ∈ machine.owned, machine.remotes cpu = .queued base ∨
        machine.remotes cpu = .counted base ∨
        machine.remotes cpu = .marking (machine.page base).sizeClass →
      new = .queued base ∨ new = .counted base ∨ new = .marking (machine.page base).sizeClass) :
    machine.Beside (machine.setRemote cpu new) where
  owner := rfl
  owned := rfl
  caches := rfl
  ties := fun _ _ => ⟨rfl, rfl, rfl, rfl⟩
  objectCount := fun _ _ => rfl
  localFreeCount := fun _ _ => rfl
  head := fun _ _ nonempty => nonempty
  announced := fun base inside announced nonempty =>
    (announced nonempty).setRemote (goesOn base inside)

theorem modify_setRemote (machine : SlabMachine Cpu) (base : Nat)
    (change : SlabPage → SlabPage) (cpu : Cpu) (new : Remote) :
    (machine.modify base change).setRemote cpu new =
      (machine.setRemote cpu new).modify base change := rfl

theorem beside_setRemote_silent (silent : (machine.remotes cpu).unannounced = false) :
    machine.Beside (machine.setRemote cpu new) :=
  beside_setRemote fun _ _ announcing => absurd announcing (not_announcing silent)

omit [DecidableEq Cpu] in
theorem Beside.trans {middle : SlabMachine Cpu} (first : machine.Beside middle)
    (second : middle.Beside after) : machine.Beside after where
  owner := second.owner.trans first.owner
  owned := second.owned.trans first.owned
  caches := second.caches.trans first.caches
  ties := by
    intro base inside
    have before := first.ties base inside
    have behind := second.ties base (first.owned.symm ▸ inside)
    exact ⟨behind.listPrev.trans before.listPrev, behind.listNext.trans before.listNext,
      behind.sizeClass.trans before.sizeClass,
      behind.listState.trans before.listState⟩
  objectCount := fun base inside =>
    (second.objectCount base (first.owned.symm ▸ inside)).trans (first.objectCount base inside)
  localFreeCount := fun base inside =>
    (second.localFreeCount base (first.owned.symm ▸ inside)).trans
      (first.localFreeCount base inside)
  head := fun base inside nonempty =>
    second.head base (first.owned.symm ▸ inside) (first.head base inside nonempty)
  announced := by
    intro base inside announced
    have sameClass := (first.ties base inside).sizeClass
    rw [← sameClass]
    apply second.announced base (first.owned.symm ▸ inside)
    rw [sameClass]
    exact first.announced base inside announced

omit [DecidableEq Cpu] in
private theorem Beside.setLive (beside : machine.Beside after) (live : Finset (Nat × Nat)) :
    machine.Beside { after with live := live } :=
  { beside with }

/-- What a remote step keeps of the page it writes. -/
structure KeepsPage (machine : SlabMachine Cpu) (base : Nat) (after : SlabPage) : Prop where
  ties : SameTies (machine.page base) after
  objectCount : after.objectCount = (machine.page base).objectCount
  localFreeCount : after.localFreeCount = (machine.page base).localFreeCount
  head : (machine.page base).remoteFreeHead ≠ 0 → after.remoteFreeHead ≠ 0
  announced : ((machine.page base).remoteFreeHead ≠ 0 →
      Announced machine.hint machine.remotes (machine.page base).sizeClass base) →
    after.remoteFreeHead ≠ 0 → Announced machine.hint machine.remotes (machine.page base).sizeClass
        base

omit [DecidableEq Cpu] in
theorem beside_modify (base : Nat) (change : SlabPage → SlabPage)
    (keeps : base ∈ machine.owned → machine.KeepsPage base (change (machine.page base))) :
    machine.Beside (machine.modify base change) := by
  have kept : ∀ other ∈ machine.owned,
      machine.KeepsPage other ((machine.modify base change).page other) :=
    (forall_update_iff _ fun other page => other ∈ machine.owned → machine.KeepsPage other page).mpr
        ⟨keeps, fun _ _ _ => ⟨⟨rfl, rfl, rfl, rfl⟩, rfl, rfl, id, id⟩⟩
  exact {
    owner := rfl
    owned := rfl
    caches := rfl
    ties := fun other inside => (kept other inside).ties
    objectCount := fun other inside => (kept other inside).objectCount
    localFreeCount := fun other inside => (kept other inside).localFreeCount
    head := fun other inside => (kept other inside).head
    announced := fun other inside => (kept other inside).announced }

/-! ## The steps -/

variable (sound : machine.Sound lists ahead)
include sound

theorem sound_deallocRemote (permitted : machine.Permitted (.deallocRemote cpu base slot)) :
    (machine.perform (.deallocRemote cpu base slot)).Sound lists ahead := by
  obtain ⟨idle, isLive, free⟩ := permitted
  apply sound.beside (beside_setRemote_silent (by rw [idle]; rfl)) sound.slots
  apply sound.claims.setRemote
  · intro object freeing
    obtain rfl : (base, slot) = object := Option.some.inj freeing
    exact ⟨isLive, fun other _ => free other⟩
  · intro _ _ _ equal
    cases equal

theorem sound_write {value : Nat} (permitted : machine.Permitted (.write base slot value)) :
    (machine.perform (.write base slot value)).Sound lists ahead := by
  obtain ⟨isLive, free⟩ := permitted
  have inside := sound.slots.liveOwned base slot isLive
  apply sound.beside
  · exact beside_modify _ _ (fun _ => ⟨⟨rfl, rfl, rfl, rfl⟩, rfl, rfl, id, id⟩)
  · exact sound.slots.touch inside rfl ((sound.slots.settled base inside).store isLive value)
      (fun _ _ => rfl) (fun _ _ _ => .rfl)
  · refine sound.claims.touch rfl ?_ (fun _ _ _ => id)
    intro cpu other oldHead loaded
    apply update_of_ne
    intro sameAddr
    apply free cpu
    rw [loaded, SlabPage.objectAddr_inj sameAddr]
    rfl

omit [DecidableEq Cpu] in
theorem Sound.not_freed (outside : base ∉ machine.owned) (cpu : Cpu) (slot : Nat) :
    (machine.remotes cpu).object ≠ some (base, slot) := fun freeing =>
  outside (sound.slots.liveOwned base slot (sound.claims.isLive cpu (base, slot) freeing))

theorem sound_reuse {page : SlabPage} (permitted : machine.Permitted (.reuse base page)) :
    (machine.perform (.reuse base page)).Sound lists ahead := by
  have outside : base ∉ machine.owned := permitted
  apply sound.beside
  · exact beside_modify _ _ (fun inside => absurd inside outside)
  · exact sound.slots.outside outside (Finset.Subset.refl _) sound.slots.liveOwned
  · exact sound.claims.outside (sound.not_freed outside)

omit [DecidableEq Cpu] in
theorem Sound.freed (freeing : (machine.remotes cpu).object = some (base, slot)) :
    (base, slot) ∈ machine.live ∧ base ∈ machine.owned ∧
      ∀ other, other ≠ cpu → (machine.remotes other).object ≠ some (base, slot) := by
  have isLive := sound.claims.isLive cpu (base, slot) freeing
  refine ⟨isLive, sound.slots.liveOwned base slot isLive, ?_⟩
  intro other different also
  exact different (sound.claims.alone other cpu (base, slot) also freeing)

private theorem sound_freeing (standing : machine.remotes cpu = .freeing base slot) :
    (machine.remoteStep cpu spurious).Sound lists ahead := by
  obtain ⟨isLive, inside, own⟩ := sound.freed (by rw [standing]; rfl)
  have stored : machine.Beside (machine.modify base (fun page =>
      page.store (page.objectAddr base slot) (machine.page base).remoteFreeHead)) :=
    beside_modify _ _ (fun _ => ⟨⟨rfl, rfl, rfl, rfl⟩, rfl, rfl, id, id⟩)
  simp only [remoteStep, standing]
  apply sound.beside
  · apply stored.trans
    apply beside_setRemote_silent
    simp only [modify, standing]
    rfl
  · exact sound.slots.touch inside rfl ((sound.slots.settled base inside).store isLive _)
      (fun _ _ => rfl) (fun _ _ _ => .rfl)
  · refine .setRemote (sound.claims.touch rfl ?_ (fun _ _ _ => id)) ?_ ?_
    · intro other otherSlot oldHead loaded
      apply update_of_ne
      intro sameAddr
      have different : other ≠ cpu := by
        intro here
        rw [here, standing] at loaded
        cases loaded
      apply own other different
      rw [loaded, SlabPage.objectAddr_inj sameAddr]
      rfl
    · intro object new
      obtain rfl : (base, slot) = object := Option.some.inj new
      exact ⟨isLive, own⟩
    · intro other otherSlot oldHead equal
      obtain ⟨rfl, rfl, rfl⟩ := loaded.inj equal
      simp only [setRemote, modify, SlabStore.modify, update_self]
      exact update_self _ _ _

theorem sound_loaded {oldHead : Nat} (standing : machine.remotes cpu = .loaded base slot oldHead) :
    (machine.remoteStep cpu spurious).Sound lists ahead := by
  obtain ⟨isLive, inside, own⟩ := sound.freed (by rw [standing]; rfl)
  have silent : (machine.remotes cpu).unannounced = false := by
    rw [standing]
    rfl
  simp only [remoteStep, standing]
  split_ifs with succeeds
  · have linked := sound.claims.loaded cpu base slot oldHead standing
    have pushed := (sound.slots.settled base inside).push (sound.slots.real base inside) isLive
      (linked.trans succeeds.1.symm)
    have waiting : machine.Beside (machine.setRemote cpu (.queued base)) :=
      beside_setRemote_silent silent
    apply sound.beside
    · apply Beside.setLive
      apply waiting.trans
      rw [modify_setRemote]
      apply beside_modify
      intro _
      refine ⟨⟨rfl, rfl, rfl, rfl⟩, rfl, rfl, fun _ => ?_, fun _ _ => ?_⟩
      · exact SlabPage.objectAddr_ne_zero (sound.slots.real base inside)
      · exact .inr ⟨cpu, .inl (update_self _ _ _)⟩
    · refine sound.slots.touch inside rfl ?_ (fun _ _ => rfl) ?_
      · rw [live_erase]
        exact pushed
      · intro other otherSlot different
        simp [different]
    · refine .touch (sound.claims.setRemote (by simp [object]) (by simp)) rfl
        (fun _ _ _ _ => rfl) ?_
      intro other object freeingObject isLiveObject
      refine Finset.mem_erase.mpr ⟨?_, isLiveObject⟩
      rintro rfl
      simp only [setRemote] at freeingObject
      by_cases here : other = cpu
      · rw [here, update_self] at freeingObject
        cases freeingObject
      · rw [update_of_ne here] at freeingObject
        exact own other here freeingObject
  · apply sound.beside (beside_setRemote_silent silent) sound.slots
    apply sound.claims.setRemote
    · intro object new
      obtain rfl : (base, slot) = object := Option.some.inj new
      exact ⟨isLive, own⟩
    · intro _ _ _ equal
      cases equal

private theorem sound_queued (standing : machine.remotes cpu = .queued base) :
    (machine.remoteStep cpu spurious).Sound lists ahead := by
  have same : ∀ other, (machine.page other).SameObjects
      ((machine.modify base (fun page => { page with
        remoteFreeCount :=
          (page.remoteFreeCount + 1) % 0x100000000 })).page other) :=
    (forall_update_iff _ fun other => (machine.page other).SameObjects).mpr
      ⟨⟨rfl, rfl, rfl, rfl, rfl, rfl⟩, fun _ _ => ⟨rfl, rfl, rfl, rfl, rfl, rfl⟩⟩
  have goesOn : machine.Beside (machine.setRemote cpu (.counted base)) := by
    apply beside_setRemote
    rintro other - (equal | equal | equal) <;> rw [standing] at equal
    · exact .inr (.inl (by rw [queued.inj equal]))
    · cases equal
    · cases equal
  simp only [remoteStep, standing]
  apply sound.beside
  · apply goesOn.trans
    rw [modify_setRemote]
    apply beside_modify
    exact fun _ => ⟨⟨rfl, rfl, rfl, rfl⟩, rfl, rfl, id, id⟩
  · exact sound.slots.congr (fun other _ => same other)
  · exact (sound.claims.congr same).setRemote (by simp [object]) (by simp)

private theorem sound_counted (standing : machine.remotes cpu = .counted base) :
    (machine.remoteStep cpu spurious).Sound lists ahead := by
  simp only [remoteStep, standing]
  apply sound.beside
  · apply beside_setRemote
    rintro other - (equal | equal | equal) <;> rw [standing] at equal
    · cases equal
    · exact .inr (.inr (by rw [counted.inj equal]))
    · cases equal
  · exact sound.slots
  · exact sound.claims.setRemote (by simp [object]) (by simp)

private theorem sound_marking (standing : machine.remotes cpu = .marking sizeClass) :
    (machine.remoteStep cpu spurious).Sound lists ahead := by
  simp only [remoteStep, standing]
  apply sound.beside
  · refine ⟨rfl, rfl, rfl, fun _ _ => ⟨rfl, rfl, rfl, rfl⟩, fun _ _ => rfl,
      fun _ _ => rfl, fun _ _ => id, ?_⟩
    intro other inside announced nonempty
    rcases announced nonempty with marked | ⟨announcer, inFlight⟩
    · left
      simp [RemoteFreeHint.isMarked_mark, marked]
    by_cases here : announcer = cpu
    · left
      rw [here, standing] at inFlight
      rcases inFlight with equal | equal | equal
      · cases equal
      · cases equal
      · simp [RemoteFreeHint.isMarked_mark, marking.inj equal]
    · right
      refine ⟨announcer, ?_⟩
      simp only [setRemote, update_of_ne here]
      exact inFlight
  · exact sound.slots
  · exact sound.claims.setRemote (by simp [object]) (by simp)

theorem sound_remote (cpu : Cpu) (spurious : Bool) :
    (machine.perform (.remote cpu spurious)).Sound lists ahead := by
  simp only [perform]
  cases standing : machine.remotes cpu with
  | idle =>
    simp only [remoteStep, standing]
    exact sound
  | freeing base slot => exact sound_freeing sound standing
  | loaded base slot oldHead => exact sound_loaded sound standing
  | queued base => exact sound_queued sound standing
  | counted base => exact sound_counted sound standing
  | marking sizeClass => exact sound_marking sound standing

end SlabMachine

end TgosKits
