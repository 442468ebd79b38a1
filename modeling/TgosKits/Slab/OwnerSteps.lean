import TgosKits.Slab.RemoteSteps

/-! # Steps of the owner -/

namespace TgosKits

open SlabPage

variable {Cpu : Type}

namespace SlabMachine

variable {machine : SlabMachine Cpu} {lists : SlabLists} {ahead : List Nat} {sizeClass : SizeClass}
  {base : Nat} {owner : Owner} {kind : SlabListState} {why : DrainFor} {rest : List Nat}

section

variable (sound : machine.Sound lists ahead)
include sound

theorem Sound.place (standing : machine.owner = owner) : owner.At machine lists ahead :=
  standing ▸ sound.atPlace

theorem Sound.settled (standing : machine.owner = owner) (inside : base ∈ machine.owned) :
    (machine.page base).Settled base (owner.drainHead base)
      (fun slot => (base, slot) ∈ machine.live) :=
  standing ▸ sound.slots.settled base inside

theorem Sound.goto (drain : ∀ base, owner.drainHead base = machine.owner.drainHead base)
    (fit : ∀ base, machine.owner.held = some base →
      owner.held ≠ some base → (machine.page base).Fit)
    (announces : Announces machine.store.pages machine.hint machine.remotes lists rest)
    (atPlace : owner.At machine lists rest) :
    (machine.goto owner).Sound lists rest where
  slots := by
    have same : (fun base => owner.drainHead base) =
        fun base => machine.owner.drainHead base := funext drain
    simp only [SlabMachine.goto, same]
    exact sound.slots
  ranks := by
    refine ⟨sound.ranks.listing, sound.ranks.empties, sound.ranks.oneEmpty, ?_⟩
    intro base inside notHeld
    by_cases before : machine.owner.held = some base
    · exact fit base before notHeld
    · exact sound.ranks.fit base inside before
  claims := sound.claims
  announces := announces
  atPlace := by cases owner <;> exact atPlace

end

theorem drainHead_of_not_held (notHeld : owner.held ≠ some base) : owner.drainHead base = 0 := by
  cases owner with
  | resetCount | draining => exact if_neg fun same => notHeld (congrArg some same)
  | _ => rfl

theorem Sound.goto_free (sound : machine.Sound lists ahead) (notHeld : machine.owner.held = none)
    (noDrain : ∀ base, owner.drainHead base = 0)
    (announces : Announces machine.store.pages machine.hint machine.remotes lists rest)
    (atPlace : owner.At machine lists rest) : (machine.goto owner).Sound lists rest := by
  refine sound.goto ?_ ?_ announces atPlace
  · intro base
    rw [noDrain, drainHead_of_not_held (by simp [notHeld])]
  · intro base held
    rw [notHeld] at held
    cases held

theorem Sound.reads {old : Owner} (sound : machine.Sound lists ahead)
    (standing : machine.owner = old) (notHeld : old.held = none)
    (noDrain : ∀ base, owner.drainHead base = 0) (atPlace : owner.At machine lists ahead) :
    (machine.goto owner).Sound lists ahead :=
  sound.goto_free (standing ▸ notHeld) noDrain sound.announces atPlace

/-! ## Lists -/

section

variable (sound : machine.Sound lists ahead) (listed : kind ≠ .notListed)
include sound listed

theorem Sound.mem (member : base ∈ lists (sizeClass, kind)) :
    base ∈ machine.owned ∧ (machine.page base).sizeClass = sizeClass ∧
      (machine.page base).listState = kind :=
  (sound.ranks.listing.mem_iff sizeClass kind base listed).mp member

theorem Sound.first_mem (nonempty : (machine.store.caches sizeClass).first kind ≠ 0) :
    (machine.store.caches sizeClass).first kind ∈ lists (sizeClass, kind) := by
  have isList := sound.ranks.listing.family.isList (sizeClass, kind) listed
  exact isList.chain.first_eq.resolve_left nonempty

end

theorem fit_of_partial (state : (machine.page base).listState = .partialList)
    (gives : 0 < (machine.page base).localFreeCount ∨ (machine.page base).remoteFreeHead ≠ 0) :
    (machine.page base).Fit := by
  unfold SlabPage.Fit
  simpa only [state] using gives

/-! ## Steps that only read -/

variable (sound : machine.Sound lists ahead) {call : AllocCall} {ptr : Nat}
include sound

theorem sound_tryPartial (standing : machine.owner = .tryPartial sizeClass call) :
    machine.ownerStep.Sound lists ahead := by
  have nothing : ahead = [] := sound.place standing
  simp only [ownerStep, standing]
  split_ifs with noSlab remote
  · cases call <;> exact sound.reads standing rfl (fun _ => rfl) nothing
  · have member := sound.first_mem (by decide) noSlab
    refine sound.reads standing rfl (fun _ => rfl) ⟨⟨member, nothing⟩, ?_⟩
    simpa [hasRemoteFrees] using remote
  · have member := sound.first_mem (by decide) noSlab
    exact sound.reads standing rfl (fun _ => rfl) ⟨member, nothing⟩

theorem sound_checkFull {slot : Nat} (standing : machine.owner = .checkFull sizeClass base slot) :
    machine.ownerStep.Sound lists ahead := by
  obtain ⟨member, nothing⟩ := sound.place standing
  obtain ⟨-, -, state⟩ := sound.mem (by decide) member
  have noDrain : ∀ base, (0 : Nat) = machine.owner.drainHead base := by
    intro base
    rw [standing]
    rfl
  simp only [ownerStep, standing, isLocalFull, hasRemoteFrees, Bool.and_eq_true, beq_iff_eq,
    Bool.not_eq_true', bne_eq_false_iff_eq]
  split_ifs with spent
  · refine sound.goto noDrain ?_ sound.announces
      ⟨⟨member, nothing⟩, spent.1, fun nonempty => absurd spent.2 nonempty⟩
    intro other held notHeld
    rw [standing] at held
    exact absurd held notHeld
  · refine sound.goto noDrain ?_ sound.announces nothing
    intro other held _
    rw [standing] at held
    obtain rfl : base = other := Option.some.inj held
    apply fit_of_partial state
    omega

private theorem sound_drained (standing : machine.owner = .draining sizeClass base 0 why) :
    machine.ownerStep.Sound lists ahead := by
  obtain ⟨drains, found⟩ := sound.place standing
  have free : 0 < (machine.page base).localFreeCount := by
    simpa using found
  have noDrain : ∀ other, (0 : Nat) = machine.owner.drainHead other := by
    rw [standing]
    simp [Owner.drainHead]
  have onlyBase : ∀ other, machine.owner.held = some other → base = other := by
    intro other held
    rw [standing] at held
    exact Option.some.inj held
  simp only [ownerStep, standing, if_true]
  cases why with
  | alloc call =>
    obtain ⟨-, -, state⟩ := sound.mem (by decide) drains.1
    refine sound.goto noDrain ?_ sound.announces drains
    intro other held _
    rw [← onlyBase other held]
    exact fit_of_partial state (.inl free)
  | walk next =>
    refine sound.goto noDrain ?_ sound.announces ⟨drains, free⟩
    intro other held notHeld
    rw [← onlyBase other held] at notHeld
    exact absurd rfl notHeld
  | dealloc =>
    obtain ⟨-, -, state⟩ := sound.mem (by decide) drains.1
    refine sound.goto noDrain ?_ sound.announces ⟨drains.1, free, drains.2⟩
    intro other held _
    rw [← onlyBase other held]
    exact fit_of_partial state (.inl free)

theorem sound_walk {reclaimed : Bool} (standing : machine.owner = .walk sizeClass base reclaimed) :
    ∃ rest, machine.ownerStep.Sound lists rest := by
  obtain ⟨⟨visited, whole⟩, baseEq⟩ := sound.place standing
  have isList := sound.ranks.listing.family.isList (sizeClass, .fullList) (by simp)
  simp only [ownerStep, standing]
  cases ahead with
  | nil =>
    have finished : base = 0 := baseEq
    refine ⟨[], ?_⟩
    rw [if_pos finished]
    cases reclaimed <;> exact sound.reads standing rfl (fun _ => rfl) rfl
  | cons first rest =>
    obtain rfl : base = first := baseEq
    have member : base ∈ lists (sizeClass, .fullList) := by
      rw [whole]
      simp
    have real : base ≠ 0 := isList.chain.ne_nil member
    have nextEq : (machine.page base).listNext = rest.headD 0 := by
      have chain := isList.chain
      rw [whole] at chain
      exact chain.next_eq_headD
    rw [if_neg real]
    split_ifs with remote
    · refine ⟨base :: rest, sound.reads standing rfl (fun _ => rfl)
        ⟨⟨⟨visited, whole⟩, rest, rfl, nextEq⟩, ?_⟩⟩
      simpa [hasRemoteFrees] using remote
    refine ⟨rest, ?_⟩
    -- The slab passed over has no remote free at this moment.
    have passed : Announces machine.store.pages machine.hint machine.remotes lists rest := by
      intro otherClass other otherMember notAhead nonempty
      by_cases here : other = base
      · subst here
        exact absurd nonempty (by
          simpa [hasRemoteFrees, page] using remote)
      · exact sound.announces otherClass other otherMember (by simp [here, notAhead]) nonempty
    refine sound.goto_free (by rw [standing]; rfl) (fun _ => rfl) passed
      ⟨⟨visited ++ [base], ?_⟩, nextEq⟩
    rw [whole]
    simp

theorem sound_recycle (standing : machine.owner = .recycle sizeClass) :
    machine.ownerStep.Sound lists ahead := by
  have nothing : ahead = [] := sound.place standing
  simp only [ownerStep, standing]
  split_ifs with noSlab
  · exact sound.reads standing rfl (fun _ => rfl) nothing
  have member := sound.first_mem (by decide) noSlab
  obtain ⟨inside, -, state⟩ := sound.mem (by decide) member
  have fit := sound.ranks.fit _ inside (by simp [standing, Owner.held])
  have roomy := sound.slots.roomy _ inside
  refine sound.reads standing rfl (fun _ => rfl) ⟨⟨member, nothing⟩, ?_⟩
  unfold SlabPage.Fit at fit
  simp only [page] at state
  simp only [state] at fit
  simp only [Move.Ready, page, fit]
  exact roomy

theorem sound_checkRemote (standing : machine.owner = .checkRemote sizeClass base) :
    machine.ownerStep.Sound lists ahead := by
  obtain ⟨member, free, nothing⟩ := sound.place standing
  simp only [ownerStep, standing]
  split_ifs with remote
  · refine sound.reads standing rfl (fun _ => rfl) ⟨⟨member, nothing⟩, ?_⟩
    simpa [hasRemoteFrees] using remote
  · exact sound.reads standing rfl (fun _ => rfl) ⟨member, free, nothing⟩

theorem sound_checkEmpty (standing : machine.owner = .checkEmpty sizeClass base) :
    machine.ownerStep.Sound lists ahead := by
  obtain ⟨member, free, nothing⟩ := sound.place standing
  simp only [ownerStep, standing, isAllFree, beq_iff_eq]
  split_ifs with counts noEmpty
  · have emptyNil : lists (sizeClass, .emptyList) = [] := by
      rw [← List.length_eq_zero_iff, ← sound.ranks.empties]
      exact noEmpty
    exact sound.reads standing rfl (fun _ => rfl) ⟨⟨member, nothing⟩, counts, emptyNil⟩
  · exact sound.reads standing rfl (fun _ => rfl) ⟨member, counts, nothing⟩
  · exact sound.reads standing rfl (fun _ => rfl) nothing

/-! ## Steps that change the contents of one slab -/

theorem Sound.touch {change : SlabPage → SlabPage} {live : Finset (Nat × Nat)}
    (inside : base ∈ machine.owned)
    (before : machine.owner.held.getD base = base) (behind : owner.held.getD base = base)
    (ties : SameTies (machine.page base) (change (machine.page base)))
    (count : (change (machine.page base)).objectCount = (machine.page base).objectCount)
    (words : (change (machine.page base)).firstWord = (machine.page base).firstWord)
    (head : (change (machine.page base)).remoteFreeHead ≠ 0 →
      (machine.page base).remoteFreeHead ≠ 0) (settled : (change (machine.page base)).Settled base
      (owner.drainHead base) (fun slot => (base, slot) ∈ live))
    (sameLive : ∀ other slot, other ≠ base → ((other, slot) ∈ live ↔ (other, slot) ∈ machine.live))
    (kept : ∀ cpu object, (machine.remotes cpu).object = some object →
      object ∈ machine.live → object ∈ live)
    (fit : owner.held ≠ some base → (change (machine.page base)).Fit) (atPlace : owner.At
      { machine.modify base change with owner := owner, live := live }
      lists ahead) :
    { machine.modify base change with
      owner := owner, live := live : SlabMachine Cpu }.Sound lists ahead := by
  have only : ∀ {owner : Owner} {other : Nat}, owner.held.getD base = base → other ≠ base →
      owner.held ≠ some other := by
    intro owner other here different held
    rw [held] at here
    exact different here
  constructor
  · refine sound.slots.touch inside count settled ?_ sameLive
    intro other different
    rw [drainHead_of_not_held (only behind different),
      drainHead_of_not_held (only before different)]
  · exact sound.ranks.touch ties fit (fun other different _ => only before different)
  · exact sound.claims.touch ties.sizeClass (fun _ _ _ _ => congrFun words _) kept
  · exact sound.announces.touch (fun _ _ _ => head)
  · exact atPlace

theorem sound_drain (standing : machine.owner = .drain sizeClass base why) :
    machine.ownerStep.Sound lists ahead := by
  obtain ⟨drains, nonempty⟩ := sound.place standing
  obtain ⟨kind, listed, member⟩ := drainFor_mem drains
  obtain ⟨inside, -, -⟩ := sound.mem listed member
  have settled := sound.settled standing inside
  simp only [ownerStep, standing, if_neg nonempty]
  apply sound.touch inside (by rw [standing]; rfl) rfl
  · exact ⟨rfl, rfl, rfl, rfl⟩
  · rfl
  · rfl
  · exact fun head => absurd rfl head
  · simpa [Owner.drainHead, modify] using settled.swap
  · exact fun _ _ _ => .rfl
  · exact fun _ _ _ => id
  · exact fun notHeld => absurd rfl notHeld
  · exact ⟨drains, nonempty⟩

theorem sound_resetCount (standing : machine.owner = .resetCount sizeClass base ptr why) :
    machine.ownerStep.Sound lists ahead := by
  obtain ⟨drains, more⟩ := sound.place standing
  obtain ⟨kind, listed, member⟩ := drainFor_mem drains
  obtain ⟨inside, -, -⟩ := sound.mem listed member
  have settled := sound.settled standing inside
  simp only [ownerStep, standing]
  apply sound.touch inside (by rw [standing]; rfl) rfl
  · exact ⟨rfl, rfl, rfl, rfl⟩
  · rfl
  · rfl
  · exact id
  · exact settled.congr ⟨rfl, rfl, rfl, rfl, rfl, rfl⟩
  · exact fun _ _ _ => .rfl
  · exact fun _ _ _ => id
  · exact fun notHeld => absurd rfl notHeld
  · exact ⟨drains, .inl more⟩

theorem sound_draining (standing : machine.owner = .draining sizeClass base ptr why) :
    machine.ownerStep.Sound lists ahead := by
  by_cases finished : ptr = 0
  · subst finished
    exact sound_drained sound standing
  obtain ⟨drains, -⟩ := sound.place standing
  obtain ⟨kind, listed, member⟩ := drainFor_mem drains
  obtain ⟨inside, -, -⟩ := sound.mem listed member
  have settled : (machine.page base).Settled base ptr
      (fun slot => (base, slot) ∈ machine.live) := by
    simpa [Owner.drainHead] using sound.settled standing inside
  simp only [ownerStep, standing, if_neg finished]
  apply sound.touch inside (by rw [standing]; rfl) rfl
  · exact ⟨rfl, rfl, rfl, rfl⟩
  · rfl
  · rfl
  · exact id
  · simpa [Owner.drainHead, modify] using settled.drainOne finished
  · exact fun _ _ _ => .rfl
  · exact fun _ _ _ => id
  · exact fun notHeld => absurd rfl notHeld
  · refine ⟨drains, .inr ?_⟩
    simp [page, modify, SlabStore.modify, localFree]

theorem sound_localAlloc (standing : machine.owner = .localAlloc sizeClass base call) :
    machine.ownerStep.Sound lists ahead := by
  obtain ⟨member, nothing⟩ := sound.place standing
  obtain ⟨inside, -, -⟩ := sound.mem (by decide) member
  have settled := sound.settled standing inside
  simp only [ownerStep, standing]
  cases taken : (machine.page base).localAlloc with
  | none => cases call <;> exact sound.reads standing rfl (fun _ => rfl) nothing
  | some result =>
    obtain ⟨slot, after⟩ := result
    obtain ⟨found, -, pairEq⟩ := Option.map_eq_some_iff.mp taken
    obtain ⟨rfl, rfl⟩ := Prod.mk.inj pairEq
    apply sound.touch inside (by rw [standing]; rfl) rfl
    · exact ⟨rfl, rfl, rfl, rfl⟩
    · rfl
    · rfl
    · exact id
    · have grown := settled.localAlloc taken
      simpa [Owner.drainHead, Finset.mem_insert, or_comm] using grown
    · intro other slot different
      simp [different]
    · exact fun _ _ _ => Finset.mem_insert_of_mem
    · exact fun notHeld => absurd rfl notHeld
    · exact ⟨member, nothing⟩

theorem sound_takeHint (standing : machine.owner = .takeHint sizeClass) :
    ∃ rest, machine.ownerStep.Sound lists rest := by
  have nothing : ahead = [] := sound.place standing
  have notHeld : machine.owner.held = none := by rw [standing]; rfl
  have noDrain : (fun base => machine.owner.drainHead base) = fun _ => 0 := by
    rw [standing]
    rfl
  have slots := sound.slots
  rw [noDrain] at slots
  have ranks := sound.ranks
  rw [notHeld] at ranks
  -- An announcement of another class stays.
  have stays : ∀ otherClass other, otherClass ≠ sizeClass →
      Announced machine.hint machine.remotes otherClass other →
      Announced (RemoteFreeHint.cleared machine.hint sizeClass)
        machine.remotes otherClass other := by
    intro otherClass other different announced
    refine announced.imp_left fun marked => ?_
    rw [RemoteFreeHint.isMarked_cleared, marked]
    simpa using different
  simp only [ownerStep, standing]
  split_ifs with marked
  · refine ⟨lists (sizeClass, .fullList), slots, ranks, sound.claims, ?_, ⟨[], rfl⟩,
      (sound.ranks.listing.family.isList (sizeClass, .fullList) (by simp)).chain.first_eq_headD⟩
    intro otherClass other member notAhead nonempty
    have different : otherClass ≠ sizeClass := by
      rintro rfl
      exact notAhead member
    exact stays otherClass other different
      (sound.announces otherClass other member (by simp [nothing]) nonempty)
  · refine ⟨[], slots, ranks, sound.claims, ?_, rfl⟩
    intro otherClass other member _ nonempty
    have announced := sound.announces otherClass other member (by simp [nothing]) nonempty
    by_cases same : otherClass = sizeClass
    · subst same
      exact .inr (announced.resolve_left marked)
    · exact stays otherClass other same announced

end SlabMachine

end TgosKits
