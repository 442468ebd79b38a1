import TgosKits.Slab.OwnerSteps

/-! # List moves -/

namespace TgosKits

open Function SlabPage SlabStore Finset List

variable {Cpu : Type}

namespace SlabMachine

variable {machine : SlabMachine Cpu} {lists : SlabLists} {ahead : List Nat} {sizeClass : SizeClass}
  {base : Nat} {store after : SlabStore} {move : Move} {states : Nat → SlabListState}
  {kind : SlabListState} {owned : Finset Nat}

section

variable (relinks : store.Relinks after states)
include relinks

theorem sameObjects_of_relinks (other : Nat) :
    (store.pages other).SameObjects (after.pages other) := by
  obtain ⟨prev, next, equal⟩ := relinks other
  rw [equal]
  exact ⟨rfl, rfl, rfl, rfl, rfl, rfl⟩

theorem listState_of_relinks (other : Nat) : (after.pages other).listState = states other := by
  obtain ⟨prev, next, equal⟩ := relinks other
  rw [equal]
  rfl

theorem fit_relinks {other : Nat} (state : states other = (store.pages other).listState) :
    (after.pages other).Fit ↔ (store.pages other).Fit := by
  have same := sameObjects_of_relinks relinks other
  unfold SlabPage.Fit
  rw [listState_of_relinks relinks, state, same.localFreeCount, same.objectCount,
    same.remoteFreeHead]

end

theorem ready_congr {otherLists : SlabLists} (machine after : SlabMachine Cpu)
    (hint : after.hint = machine.hint) (remotes : after.remotes = machine.remotes)
    (same : (machine.page base).SameObjects (after.page base)) (empties : move = .keepEmpty →
      otherLists (sizeClass, .emptyList) = lists (sizeClass, .emptyList))
    (ready : move.Ready machine lists sizeClass base) :
    move.Ready after otherLists sizeClass base := by
  cases move with
  | allocated slot =>
    simp only [Move.Ready, same.localFreeCount, same.remoteFreeHead, hint, remotes] at ready ⊢
    exact ready
  | keepEmpty =>
    simp only [Move.Ready, same.localFreeCount, same.objectCount, empties rfl] at ready ⊢
    exact ready
  | walk | recycle | dealloc | addSlab =>
    simpa only [Move.Ready, same.localFreeCount] using ready

theorem update_emptyList (notEmpty : kind ≠ .emptyList) (items : List Nat)
    (otherClass : SizeClass) : update lists (sizeClass, kind) items (otherClass, .emptyList) =
      lists (otherClass, .emptyList) :=
  update_of_ne (fun equal => notEmpty (Prod.mk.inj equal).2.symm) _ _

section

variable (ranks : Ranks store owned lists (some base))
include ranks

theorem Ranks.remove (listed : kind ≠ .notListed) (member : base ∈ lists (sizeClass, kind))
    (notEmpty : kind ≠ .emptyList) :
    Ranks (store.remove sizeClass kind base) owned (update lists (sizeClass, kind)
        ((lists (sizeClass, kind)).erase base)) (some base) := by
  have relinks := store.relinks_remove sizeClass kind base
  refine ⟨ranks.listing.remove listed member, ?_, ?_, ?_⟩
  · intro otherClass
    rw [emptyCount_remove, update_emptyList notEmpty]
    exact ranks.empties otherClass
  · intro otherClass
    rw [update_emptyList notEmpty]
    exact ranks.oneEmpty otherClass
  · intro other inside notHeld
    have different : other ≠ base := fun equal => notHeld (congrArg some equal.symm)
    rw [fit_relinks relinks (update_of_ne different _ _)]
    exact ranks.fit other inside notHeld

private theorem Ranks.removeEmpty (member : base ∈ lists (sizeClass, .emptyList)) :
    Ranks ((store.remove sizeClass .emptyList base).dropEmpty sizeClass) owned
      (update lists (sizeClass, .emptyList)
        ((lists (sizeClass, .emptyList)).erase base)) (some base) := by
  have relinks := store.relinks_remove sizeClass .emptyList base
  have length : ((lists (sizeClass, .emptyList)).erase base).length =
      (lists (sizeClass, .emptyList)).length - 1 :=
    length_erase_of_mem member
  refine ⟨?_, ?_, ?_, ?_⟩
  · refine (ranks.listing.remove (by decide) member).congr ?_ ?_
    · exact heads_setEmptyCount _ _ _
    · exact fun _ _ => ⟨rfl, rfl, rfl, rfl⟩
  · intro otherClass
    have count := (store.emptyCount_remove sizeClass .emptyList base otherClass).trans
      (ranks.empties otherClass)
    by_cases here : otherClass = sizeClass
    · subst here
      rw [update_self, length, ← count]
      simp [dropEmpty]
    · rw [update_of_ne (by simp [here]), ← count]
      simp [dropEmpty, here]
  · intro otherClass
    have atMost := ranks.oneEmpty otherClass
    by_cases here : otherClass = sizeClass
    · subst here
      rw [update_self, length]
      omega
    · rw [update_of_ne (by simp [here])]
      exact atMost
  · intro other inside notHeld
    have different : other ≠ base := fun equal => notHeld (congrArg some equal.symm)
    exact (fit_relinks relinks (update_of_ne different _ _)).mpr (ranks.fit other inside notHeld)

end

private theorem target_ne_notListed (move : Move) : move.target ≠ .notListed := by
  cases move <;> simp [Move.target]

theorem Ranks.link (ranks : Ranks machine.store machine.owned lists (some base))
    (loose : machine.Loose sizeClass base) (real : base ≠ 0)
    (ready : move.Ready machine lists sizeClass base) :
    Ranks (linkFor machine.store sizeClass base move) machine.owned
      (update lists (sizeClass, move.target) (base :: lists (sizeClass, move.target))) none := by
  obtain ⟨inside, ofClass, state⟩ := loose
  have relinks := machine.store.relinks_pushFront sizeClass move.target base
  have listing := ranks.listing.pushFront (target_ne_notListed move) inside real ofClass state
  have fits : ∀ other ∈ machine.owned,
      ((machine.store.pushFront sizeClass move.target base).pages other).Fit := by
    intro other otherInside
    by_cases here : other = base
    · subst here
      have same := sameObjects_of_relinks relinks other
      have newState := listState_of_relinks relinks other
      rw [update_self] at newState
      unfold SlabPage.Fit
      rw [newState, same.localFreeCount, same.objectCount, same.remoteFreeHead]
      cases move with
      | allocated | keepEmpty => exact ready.1
      | walk | recycle | dealloc | addSlab => exact .inl ready
    · rw [fit_relinks relinks (update_of_ne here _ _)]
      exact ranks.fit other otherInside (fun held => here (Option.some.inj held).symm)
  have counts : ∀ otherClass, ((machine.store.pushFront sizeClass move.target base).caches
        otherClass).emptyCount = (lists (otherClass, .emptyList)).length := by
    intro otherClass
    rw [emptyCount_pushFront]
    exact ranks.empties otherClass
  unfold linkFor
  by_cases toEmpty : move.target = .emptyList
  · obtain rfl : move = .keepEmpty := by
      cases move <;> first | rfl | cases toEmpty
    simp only [if_pos toEmpty]
    refine ⟨?_, ?_, ?_, fun other otherInside _ => fits other otherInside⟩
    · refine listing.congr (heads_setEmptyCount _ _ _) ?_
      exact fun _ _ => ⟨rfl, rfl, rfl, rfl⟩
    · intro otherClass
      by_cases here : otherClass = sizeClass
      · subst here
        have count := counts otherClass
        simp only [Move.target] at count ⊢
        simp [keepEmpty, count]
      · rw [update_of_ne (by simp [here]), ← counts otherClass]
        simp [keepEmpty, here]
    · intro otherClass
      by_cases here : otherClass = sizeClass
      · subst here
        have none := ready.2
        simp [Move.target, none]
      · rw [update_of_ne (by simp [here])]
        exact ranks.oneEmpty otherClass
  · simp only [if_neg toEmpty]
    refine ⟨listing, ?_, ?_, fun other otherInside _ => fits other otherInside⟩
    · intro otherClass
      rw [update_emptyList toEmpty]
      exact counts otherClass
    · intro otherClass
      rw [update_emptyList toEmpty]
      exact ranks.oneEmpty otherClass

theorem relinks_unlinkFor (store : SlabStore) (sizeClass : SizeClass) (base : Nat) (move : Move) :
    store.Relinks (unlinkFor store sizeClass base move)
      (update (fun other => (store.pages other).listState) base .notListed) := by
  unfold unlinkFor
  split <;> exact store.relinks_remove sizeClass move.source base

theorem relinks_linkFor (store : SlabStore) (sizeClass : SizeClass) (base : Nat) (move : Move) :
    store.Relinks (linkFor store sizeClass base move)
      (update (fun other => (store.pages other).listState) base move.target) := by
  unfold linkFor
  split <;> exact store.relinks_pushFront sizeClass move.target base

variable (sound : machine.Sound lists ahead)
include sound

theorem sound_unlink (standing : machine.owner = .unlink sizeClass base move) :
    ∃ after rest, machine.ownerStep.Sound after rest := by
  obtain ⟨before, ready⟩ := sound.place standing
  obtain ⟨listed, member⟩ := before_mem before
  obtain ⟨inside, ofClass, -⟩ := sound.mem listed member
  have relinks := relinks_unlinkFor machine.store sizeClass base move
  have same := sameObjects_of_relinks relinks
  have newState : ((unlinkFor machine.store sizeClass base move).pages
      base).listState = .notListed := by
    rw [listState_of_relinks relinks, update_self]
  have oldRanks := sound.ranks
  rw [standing] at oldRanks
  have ranks : Ranks (unlinkFor machine.store sizeClass base move)
      machine.owned (update lists (sizeClass, move.source)
        ((lists (sizeClass, move.source)).erase base)) (some base) := by
    unfold unlinkFor
    by_cases fromEmpty : move.source = .emptyList
    · rw [fromEmpty] at member ⊢
      exact oldRanks.removeEmpty member
    · simp only [if_neg fromEmpty]
      exact oldRanks.remove listed member fromEmpty
  have slots := sound.slots
  rw [standing] at slots
  refine ⟨update lists (sizeClass, move.source)
    ((lists (sizeClass, move.source)).erase base), ahead.tail, ?_⟩
  simp only [ownerStep, standing]
  refine ⟨slots.congr fun other _ => same other, ranks, sound.claims.congr same, ?_, ?_⟩
  · intro otherClass other otherMember notAhead nonempty
    have different : other ≠ base := by
      rintro rfl
      obtain ⟨-, -, state⟩ := (ranks.listing.mem_iff otherClass .fullList other
        (by decide)).mp otherMember
      rw [newState] at state
      cases state
    have oldMember : other ∈ lists (otherClass, .fullList) := by
      by_cases index : (otherClass, .fullList) = (sizeClass, move.source)
      · rw [index, update_self] at otherMember
        rw [index]
        exact mem_of_mem_erase otherMember
      · rwa [update_of_ne index] at otherMember
    apply sound.announces otherClass other oldMember
    · intro isAhead
      cases move with
      | walk next =>
        obtain ⟨-, rest, rfl, -⟩ := before
        exact notAhead ((mem_cons.mp isAhead).resolve_left different)
      | addSlab => exact before
      | allocated | recycle | dealloc | keepEmpty => simp [before.2] at isAhead
    · rwa [← (same other).remoteFreeHead]
  · refine ⟨⟨inside, (same base).sizeClass.trans ofClass, newState⟩, ?_, ?_⟩
    · cases move with
      | walk next =>
        obtain ⟨⟨visited, whole⟩, rest, rfl, nextEq⟩ := before
        refine ⟨⟨visited, ?_⟩, nextEq⟩
        have nodup := (oldRanks.listing.family.isList (sizeClass, .fullList) (by simp)).nodup
        rw [whole] at nodup
        have fresh : base ∉ visited := by
          intro earlier
          exact (nodup_append.mp nodup).2.2 base earlier base mem_cons_self rfl
        simp only [Move.source, update_self]
        rw [whole, erase_append_right _ fresh, erase_cons_head]
        rfl
      | addSlab => exact before.elim
      | allocated | recycle | dealloc | keepEmpty => simp [Move.Between, before.2]
    · refine ready_congr machine _ rfl rfl (same base) ?_ ready
      rintro rfl
      exact update_of_ne (by simp [Move.source]) _ _

theorem sound_link (standing : machine.owner = .link sizeClass base move) :
    ∃ after, machine.ownerStep.Sound after ahead := by
  obtain ⟨loose, between, ready⟩ := sound.place standing
  have inside := loose.1
  have relinks := relinks_linkFor machine.store sizeClass base move
  have same := sameObjects_of_relinks relinks
  have oldRanks := sound.ranks
  rw [standing] at oldRanks
  have ranks := oldRanks.link loose (sound.slots.real base inside) ready
  have slots := sound.slots
  rw [standing] at slots
  have notHeld : (Owner.afterMove sizeClass base move).held = none := by
    cases move <;> rfl
  have noDrain : (fun other =>
      (Owner.afterMove sizeClass base move).drainHead other) = fun _ => 0 := by
    cases move <;> rfl
  have sameFull : move.target = .partialList → update lists (sizeClass, move.target)
        (base :: lists (sizeClass, move.target)) (sizeClass, .fullList) =
      lists (sizeClass, .fullList) := by
    intro toPartial
    exact update_of_ne (by simp [toPartial]) _ _
  refine ⟨update lists (sizeClass, move.target) (base :: lists (sizeClass, move.target)), ?_⟩
  simp only [ownerStep, standing]
  refine ⟨?_, ?_, sound.claims.congr same, ?_, ?_⟩
  · simp only [noDrain]
    exact slots.congr fun other _ => same other
  · simp only [notHeld]
    exact ranks
  · intro otherClass other otherMember notAhead nonempty
    have oldHead : (machine.store.pages other).remoteFreeHead ≠ 0 := by
      rwa [← (same other).remoteFreeHead]
    by_cases index : (otherClass, SlabListState.fullList) = (sizeClass, move.target)
    · obtain ⟨rfl, toFull⟩ := Prod.mk.inj index
      rw [← toFull, update_self] at otherMember
      rcases mem_cons.mp otherMember with here | there
      · cases move with
        | allocated slot =>
          rw [here] at oldHead ⊢
          exact ready.2 oldHead
        | _ => cases toFull
      · exact sound.announces otherClass other there notAhead oldHead
    · rw [update_of_ne index] at otherMember
      exact sound.announces otherClass other otherMember notAhead oldHead
  · cases move with
    | allocated | recycle | keepEmpty | addSlab => exact between
    | walk next =>
      obtain ⟨⟨visited, whole⟩, nextEq⟩ := between
      exact ⟨⟨visited, (sameFull rfl).trans whole⟩, nextEq⟩
    | dealloc =>
      refine ⟨?_, ?_, between⟩
      · simp [Move.target]
      · exact lt_of_lt_of_eq ready (same base).localFreeCount.symm

theorem sound_detach (standing : machine.owner = .detach sizeClass base) :
    ∃ after, machine.ownerStep.Sound after ahead := by
  obtain ⟨member, allFree, nothing⟩ := sound.place standing
  obtain ⟨inside, ofClass, -⟩ := sound.mem (by decide) member
  have relinks := machine.store.relinks_remove sizeClass .partialList base
  have same := sameObjects_of_relinks relinks
  have oldRanks := sound.ranks
  rw [standing] at oldRanks
  have slots := sound.slots
  rw [standing] at slots
  refine ⟨update lists (sizeClass, .partialList) ((lists (sizeClass, .partialList)).erase base), ?_⟩
  simp only [ownerStep, standing]
  refine ⟨slots.congr fun other _ => same other,
    oldRanks.remove (by decide) member (by decide), sound.claims.congr same,
    ?_, ⟨inside, (same base).sizeClass.trans ofClass, ?_⟩, ?_, nothing⟩
  · intro otherClass other otherMember notAhead nonempty
    rw [update_of_ne (by simp)] at otherMember
    apply sound.announces otherClass other otherMember notAhead
    rwa [← (same other).remoteFreeHead]
  · exact (listState_of_relinks relinks base).trans (update_self _ _ _)
  · exact (same base).localFreeCount.trans (allFree.trans (same base).objectCount.symm)

theorem sound_release (standing : machine.owner = .release sizeClass base) :
    machine.ownerStep.Sound lists ahead := by
  obtain ⟨loose, allFree, nothing⟩ := sound.place standing
  have inside := loose.1
  have settled := sound.slots.settled base inside
  have noRemote : (machine.page base).remoteFreeHead = 0 := settled.head_of_allFree allFree
  have notLive : ∀ slot, (base, slot) ∉ machine.live :=
    fun slot => settled.not_live_of_allFree allFree
  have notFreed : ∀ cpu slot, (machine.remotes cpu).object ≠ some (base, slot) :=
    fun cpu slot freeing =>
      notLive slot (sound.claims.isLive cpu (base, slot) freeing)
  have slots := sound.slots
  rw [standing] at slots
  have ranks := sound.ranks
  rw [standing] at ranks
  simp only [ownerStep, standing]
  rw [if_neg (not_not.mpr noRemote)]
  refine ⟨?_, ?_, sound.claims.outside notFreed, ?_, nothing⟩
  · apply slots.outside (notMem_erase base machine.owned) (erase_subset base machine.owned)
    intro other slot isLive
    refine mem_erase.mpr ⟨?_, slots.liveOwned other slot isLive⟩
    rintro rfl
    exact notLive slot isLive
  · refine ⟨?_, ranks.empties, ranks.oneEmpty, ?_⟩
    · apply ranks.listing.outside (fun _ => loose.2.2)
      · intro other different
        simp [different]
      · intro member
        exact absurd member (notMem_erase base machine.owned)
    · intro other member _
      obtain ⟨different, otherInside⟩ := mem_erase.mp member
      simp only [modify, SlabStore.modify, update_of_ne different]
      exact ranks.fit other otherInside (fun held => different (Option.some.inj held).symm)
  · apply sound.announces.touch
    intro otherClass member
    obtain ⟨-, -, state⟩ := sound.mem (by decide) member
    exact absurd (state.symm.trans loose.2.2) (by decide)

/-! ## The start of an operation -/

variable [DecidableEq Cpu]

omit [DecidableEq Cpu] in
theorem Sound.idle (idle : machine.OwnerIdle) : ahead = [] ∧ machine.owner.held = none ∧
      (fun base => machine.owner.drainHead base) = fun _ => 0 := by
  obtain ⟨outcome, standing⟩ := idle
  have atPlace := sound.atPlace
  rw [standing] at atPlace ⊢
  exact ⟨atPlace, rfl, rfl⟩

theorem sound_alloc (permitted : machine.Permitted (.alloc sizeClass)) :
    (machine.perform (.alloc sizeClass)).Sound lists ahead := by
  obtain ⟨_, standing⟩ := permitted
  have nothing : ahead = [] := sound.place standing
  exact sound.reads standing rfl (fun _ => rfl) nothing

theorem sound_dealloc {slot : Nat} (permitted : machine.Permitted (.dealloc base slot)) :
    (machine.perform (.dealloc base slot)).Sound lists ahead := by
  obtain ⟨idle, isLive, free⟩ := permitted
  obtain ⟨nothing, notHeld, noDrain⟩ := sound.idle idle
  have inside := sound.slots.liveOwned base slot isLive
  have settled := sound.slots.settled base inside
  have fit : (machine.page base).Fit := sound.ranks.fit base inside (by simp [notHeld])
  have before : machine.owner.held.getD base = base := by rw [notHeld]; rfl
  have freed : ((machine.page base).localFree slot).Settled base 0
      (fun other => (base, other) ∈ machine.live.erase (base, slot)) := by
    rw [live_erase, ← congrFun noDrain base]
    exact settled.localFree isLive
  have sameLive : ∀ other otherSlot, other ≠ base →
      ((other, otherSlot) ∈ machine.live.erase (base, slot) ↔
        (other, otherSlot) ∈ machine.live) := by
    intro other otherSlot different
    simp [different]
  have kept : ∀ cpu object, (machine.remotes cpu).object = some object →
      object ∈ machine.live → object ∈ machine.live.erase (base, slot) := by
    intro cpu object freeing member
    refine mem_erase.mpr ⟨?_, member⟩
    rintro rfl
    exact free cpu freeing
  simp only [perform]
  split_ifs with wasFull
  · have member : base ∈ lists ((machine.page base).sizeClass, .fullList) :=
      (sound.ranks.listing.mem_iff _ .fullList base (by decide)).mpr ⟨inside, rfl, wasFull⟩
    simp only [goto]
    apply sound.touch inside before rfl
    · exact ⟨rfl, rfl, rfl, rfl⟩
    · rfl
    · rfl
    · exact id
    · exact freed
    · exact sameLive
    · exact kept
    · exact fun notHeld => absurd rfl notHeld
    · refine ⟨⟨member, nothing⟩, ?_⟩
      simp [Move.Ready, page, modify, SlabStore.modify, localFree]
  · -- A slab with a live object is on the full or on the partial list.
    have isPartial : (machine.page base).listState = .partialList := by
      unfold SlabPage.Fit at fit
      cases state : (machine.page base).listState with
      | notListed => simp only [state] at fit
      | partialList => rfl
      | fullList => exact absurd state wasFull
      | emptyList =>
        simp only [state] at fit
        exact absurd isLive (settled.not_live_of_allFree fit)
    have member : base ∈ lists ((machine.page base).sizeClass, .partialList) :=
      (sound.ranks.listing.mem_iff _ .partialList base (by decide)).mpr ⟨inside, rfl, isPartial⟩
    simp only [goto]
    apply sound.touch inside before rfl
    · exact ⟨rfl, rfl, rfl, rfl⟩
    · rfl
    · rfl
    · exact id
    · exact freed
    · exact sameLive
    · exact kept
    · unfold SlabPage.Fit
      simp [localFree, isPartial]
    · refine ⟨member, ?_, nothing⟩
      simp [page, modify, SlabStore.modify, localFree]

theorem sound_addSlab {bytes : Nat}
    (permitted : machine.Permitted (.addSlab sizeClass base bytes)) :
    (machine.perform (.addSlab sizeClass base bytes)).Sound lists ahead := by
  obtain ⟨idle, real, new, roomy⟩ := permitted
  obtain ⟨nothing, notHeld, noDrain⟩ := sound.idle idle
  have slots := sound.slots
  rw [noDrain] at slots
  simp only [perform]
  refine ⟨?_, ?_, sound.claims.outside (sound.not_freed new), ?_, ?_⟩
  · exact slots.insert new real roomy (settled_init _ base sizeClass bytes)
  · refine ⟨?_, sound.ranks.empties, sound.ranks.oneEmpty, ?_⟩
    · apply sound.ranks.listing.outside (fun member => absurd member new)
      · intro other different
        simp [different]
      · exact fun _ => rfl
    · intro other member held
      have different : other ≠ base := fun equal =>
        held (congrArg some equal.symm)
      simp only [modify, SlabStore.modify, update_of_ne different]
      exact sound.ranks.fit other ((mem_insert.mp member).resolve_left different)
        (by simp [notHeld])
  · apply sound.announces.touch
    intro otherClass member
    exact absurd (sound.mem (by decide) member).1 new
  · refine ⟨⟨mem_insert_self base machine.owned, ?_, ?_⟩, nothing, ?_⟩
    · simp [page, modify, SlabStore.modify, init]
    · simp [page, modify, SlabStore.modify, init]
    · simpa [Move.Ready, page, modify, SlabStore.modify, init] using roomy

end SlabMachine

end TgosKits
