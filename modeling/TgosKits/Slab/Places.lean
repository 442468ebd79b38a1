import TgosKits.Slab.Page

/-! # Where the slots of a slab are -/

namespace TgosKits

open LinkedStack Bitmap List Function

inductive SlotPlace where
  | live
  | localFree
  | remoteFree
  | draining
  deriving DecidableEq, Repr

namespace SlabPage

variable {other : SlabPage} {otherLive : Nat → Prop} {otherDrained : List Nat}

/-- Whether a slot is in a place, given the live slots and the two stacks. -/
def Located (page : SlabPage) (base : Nat) (live : Nat → Prop)
    (stack drained : List Nat) (slot : Nat) : SlotPlace → Prop
  | .live => live slot
  | .localFree => get page.localBitmap slot = true
  | .remoteFree => page.objectAddr base slot ∈ stack
  | .draining => page.objectAddr base slot ∈ drained

/-- Whether a slot is in a place: the stacks are read off the memory. -/
def InPlace (page : SlabPage) (base drainHead : Nat) (live : Nat → Prop)
    (slot : Nat) : SlotPlace → Prop
  | .live => live slot
  | .localFree => get page.localBitmap slot = true
  | .remoteFree =>
    On page.firstWord 0 page.remoteFreeHead (page.objectAddr base slot)
  | .draining => On page.firstWord 0 drainHead (page.objectAddr base slot)

/-- The slots of a page, with a place for each.  `drainHead` is the top of the
stack being drained. -/
structure Accounts (page : SlabPage) (base drainHead : Nat) (live : Nat → Prop)
    (place : Nat → SlotPlace) (stack drained : List Nat) : Prop where
  small : page.objectCount ≤ maxObjectsPerSlab
  counted : page.localFreeCount = ones maxObjectsPerSlab page.localBitmap
  stackChain : Chain page.firstWord 0 page.remoteFreeHead stack
  drainedChain : Chain page.firstWord 0 drainHead drained
  stackNodup : stack.Nodup
  drainedNodup : drained.Nodup
  objects : ∀ addr ∈ stack ++ drained, ∃ slot, addr = page.objectAddr base slot
  located : ∀ slot which, page.Located base live stack drained slot which ↔
      slot < page.objectCount ∧ place slot = which

/-- Every slot has exactly one place. -/
def Settled (page : SlabPage) (base drainHead : Nat) (live : Nat → Prop) : Prop :=
  ∃ place stack drained, page.Accounts base drainHead live place stack drained

variable {page : SlabPage} {base drainHead slot : Nat} {live : Nat → Prop} {place : Nat → SlotPlace}
  {stack drained : List Nat}

/-! ## What the invariant says -/

section

variable (settled : page.Settled base drainHead live)
include settled

theorem Settled.existsUnique (inside : slot < page.objectCount) :
    ∃! which, page.InPlace base drainHead live slot which := by
  obtain ⟨place, stack, drained, accounts⟩ := settled
  have iff : ∀ which, page.InPlace base drainHead live slot which ↔ place slot = which := by
    intro which
    have located := accounts.located slot which
    rw [and_iff_right inside] at located
    rw [← located]
    cases which with
    | live | localFree => exact .rfl
    | remoteFree => exact accounts.stackChain.on_iff
    | draining => exact accounts.drainedChain.on_iff
  exact ⟨place slot, (iff _).mpr rfl, fun which inPlace =>
    ((iff which).mp inPlace).symm⟩

private theorem Settled.live_lt (isLive : live slot) : slot < page.objectCount := by
  obtain ⟨place, stack, drained, accounts⟩ := settled
  exact ((accounts.located slot .live).mp isLive).1

theorem Settled.free_lt (free : get page.localBitmap slot = true) : slot < page.objectCount := by
  obtain ⟨place, stack, drained, accounts⟩ := settled
  exact ((accounts.located slot .localFree).mp free).1

theorem Settled.not_live_of_free (free : get page.localBitmap slot = true) : ¬ live slot := by
  obtain ⟨place, stack, drained, accounts⟩ := settled
  intro isLive
  have first := ((accounts.located slot .localFree).mp free).2
  have second := ((accounts.located slot .live).mp isLive).2
  rw [first] at second
  cases second

theorem Settled.counted : page.localFreeCount = ones maxObjectsPerSlab page.localBitmap := by
  obtain ⟨place, stack, drained, accounts⟩ := settled
  exact accounts.counted

theorem Settled.small : page.objectCount ≤ maxObjectsPerSlab := by
  obtain ⟨place, stack, drained, accounts⟩ := settled
  exact accounts.small

theorem Settled.count_eq_zero :
    page.localFreeCount = 0 ↔ ∀ slot < page.objectCount, get page.localBitmap slot = false := by
  rw [settled.counted, ones_eq_zero]
  constructor
  · intro unset slot inside
    exact unset slot (inside.trans_le settled.small)
  · intro unset slot _
    by_contra isSet
    rw [Bool.not_eq_false] at isSet
    rw [unset slot (settled.free_lt isSet)] at isSet
    cases isSet

end

section

variable (settled : page.Settled base drainHead live)
  (allFree : page.localFreeCount = page.objectCount)
include settled allFree

theorem Settled.free_of_allFree (inside : slot < page.objectCount) :
    get page.localBitmap slot = true :=
  get_of_ones_eq (fun _ free => settled.free_lt free) (settled.counted.symm.trans allFree) inside

theorem Settled.not_live_of_allFree : ¬ live slot := by
  intro isLive
  exact settled.not_live_of_free (settled.free_of_allFree allFree (settled.live_lt isLive)) isLive

theorem Settled.head_of_allFree : page.remoteFreeHead = 0 := by
  have whole := settled
  obtain ⟨place, stack, drained, accounts⟩ := settled
  rw [accounts.stackChain.top_eq_nil]
  by_contra nonempty
  obtain ⟨addr, member⟩ := exists_mem_of_ne_nil stack nonempty
  obtain ⟨slot, addrEq⟩ := accounts.objects addr (mem_append_left drained member)
  rw [addrEq] at member
  obtain ⟨inside, remote⟩ := (accounts.located slot .remoteFree).mp member
  have free := whole.free_of_allFree allFree inside
  rw [((accounts.located slot .localFree).mp free).2] at remote
  cases remote

end

/-! ## What keeps it -/

/-- The pages agree in their slots. -/
structure SameObjects (page other : SlabPage) : Prop where
  sizeClass : other.sizeClass = page.sizeClass
  objectCount : other.objectCount = page.objectCount
  localFreeCount : other.localFreeCount = page.localFreeCount
  localBitmap : other.localBitmap = page.localBitmap
  remoteFreeHead : other.remoteFreeHead = page.remoteFreeHead
  firstWord : other.firstWord = page.firstWord

theorem SameObjects.objectAddr (same : page.SameObjects other) (base slot : Nat) :
    other.objectAddr base slot = page.objectAddr base slot := by
  unfold SlabPage.objectAddr SlabPage.dataStart
  rw [same.sizeClass]

theorem Settled.congr (settled : page.Settled base drainHead live) (same : page.SameObjects other) :
    other.Settled base drainHead live := by
  obtain ⟨place, stack, drained, accounts⟩ := settled
  refine ⟨place, stack, drained, ?_⟩
  constructor
  · rw [same.objectCount]
    exact accounts.small
  · rw [same.localFreeCount, same.localBitmap]
    exact accounts.counted
  · rw [same.firstWord, same.remoteFreeHead]
    exact accounts.stackChain
  · rw [same.firstWord]
    exact accounts.drainedChain
  · exact accounts.stackNodup
  · exact accounts.drainedNodup
  · intro addr member
    obtain ⟨slot, addrEq⟩ := accounts.objects addr member
    exact ⟨slot, by rw [same.objectAddr, addrEq]⟩
  · intro slot which
    rw [same.objectCount, ← accounts.located slot which]
    cases which <;> simp only [Located, same.localBitmap, same.objectAddr]

section

variable (accounts : page.Accounts base drainHead live place stack drained)
include accounts

/-- Moving one slot to another place, seen through the places alone. -/
theorem Accounts.relocate {otherStack : List Nat} {target : SlotPlace} (other : SlabPage)
    (inside : slot < page.objectCount) (count : other.objectCount = page.objectCount)
    (here : ∀ which, other.Located base otherLive otherStack otherDrained slot which ↔
        which = target) (elsewhere : ∀ moved ≠ slot, ∀ which,
      other.Located base otherLive otherStack otherDrained moved which ↔
        page.Located base live stack drained moved which) :
    ∀ moved which, other.Located base otherLive otherStack otherDrained moved which ↔
        moved < other.objectCount ∧ update place slot target moved = which := by
  intro moved which
  by_cases same : moved = slot
  · subst same
    rw [here, update_self, count, and_iff_right inside, eq_comm]
  · rw [elsewhere moved same, update_of_ne same, count, accounts.located]

theorem Accounts.not_located (which other : SlotPlace)
    (here : page.Located base live stack drained slot which) (different : other ≠ which) :
    ¬ page.Located base live stack drained slot other := by
  intro there
  have first := ((accounts.located slot which).mp here).2
  have second := ((accounts.located slot other).mp there).2
  exact different (second.symm.trans first)

end

theorem settled_init (page : SlabPage) (base : Nat) (sizeClass : SizeClass) (bytes : Nat) :
    (page.init sizeClass bytes).Settled base 0 (fun _ => False) := by
  have small : capacity sizeClass bytes ≤ maxObjectsPerSlab := min_le_right _ _
  refine ⟨fun _ => .localFree, [], [], small, ?_, rfl, rfl, nodup_nil, nodup_nil, ?_, ?_⟩
  · exact (ones_fill (by decide) small).symm
  · intro addr member
    exact absurd member not_mem_nil
  · intro slot which
    cases which <;>
      simp [Located, init, get_fill]

theorem Settled.store (settled : page.Settled base drainHead live) (isLive : live slot)
    (value : Nat) : (page.store (page.objectAddr base slot) value).Settled base drainHead
      live := by
  obtain ⟨place, stack, drained, accounts⟩ := settled
  have untouched : ∀ addr ∈ stack ++ drained,
      update page.firstWord (page.objectAddr base slot) value addr = page.firstWord addr := by
    intro addr member
    apply update_of_ne
    intro equal
    rw [equal] at member
    rcases mem_append.mp member with remote | draining
    · exact accounts.not_located .live .remoteFree isLive (by decide) remote
    · exact accounts.not_located .live .draining isLive (by decide) draining
  refine ⟨place, stack, drained, accounts.small, accounts.counted, ?_, ?_,
    accounts.stackNodup, accounts.drainedNodup, accounts.objects,
    accounts.located⟩
  · exact accounts.stackChain.congr (fun addr member =>
      untouched addr (mem_append_left drained member))
  · exact accounts.drainedChain.congr (fun addr member =>
      untouched addr (mem_append_right stack member))

theorem Settled.push (settled : page.Settled base drainHead live) (real : base ≠ 0)
    (isLive : live slot)
    (linked : page.firstWord (page.objectAddr base slot) = page.remoteFreeHead) :
    (page.setHead (page.objectAddr base slot)).Settled base drainHead
      (fun other => live other ∧ other ≠ slot) := by
  obtain ⟨place, stack, drained, accounts⟩ := settled
  have inside : slot < page.objectCount := ((accounts.located slot .live).mp isLive).1
  refine ⟨update place slot .remoteFree,
    page.objectAddr base slot :: stack, drained, accounts.small,
    accounts.counted, accounts.stackChain.push (objectAddr_ne_zero real) linked,
    accounts.drainedChain, nodup_cons.mpr ⟨?_, accounts.stackNodup⟩,
    accounts.drainedNodup, ?_, ?_⟩
  · exact accounts.not_located .live .remoteFree isLive (by decide)
  · intro addr member
    rcases mem_cons.mp member with here | there
    · exact ⟨slot, here⟩
    · exact accounts.objects addr there
  · apply accounts.relocate _ inside rfl
    · intro which
      have elsewhere := fun other different =>
        accounts.not_located .live other isLive different
      cases which with
      | live => simp [Located]
      | remoteFree => exact iff_of_true mem_cons_self rfl
      | localFree => exact iff_of_false (elsewhere .localFree (by decide)) (by decide)
      | draining => exact iff_of_false (elsewhere .draining (by decide)) (by decide)
    · intro moved different which
      cases which with
      | live => exact and_iff_left different
      | localFree | draining => exact .rfl
      | remoteFree =>
        have addrNe : page.objectAddr base moved ≠ page.objectAddr base slot :=
          fun equal => different (objectAddr_inj equal)
        exact mem_cons.trans (or_iff_right addrNe)

theorem Settled.swap (settled : page.Settled base 0 live) :
    (page.setHead 0).Settled base page.remoteFreeHead live := by
  obtain ⟨place, stack, drained, accounts⟩ := settled
  obtain rfl : drained = [] := accounts.drainedChain.top_eq_nil.mp rfl
  refine ⟨fun slot => if place slot = .remoteFree then .draining else place slot,
    [], stack, accounts.small, accounts.counted, rfl, accounts.stackChain,
    nodup_nil, accounts.stackNodup, ?_, ?_⟩
  · intro addr member
    exact accounts.objects addr (by simpa using member)
  · intro slot which
    have noDraining := accounts.located slot .draining
    have here := accounts.located slot which
    have remote := accounts.located slot .remoteFree
    cases which with
    | live | localFree =>
      refine here.trans (and_congr_right fun _ => ?_)
      split <;> simp_all
    | remoteFree =>
      refine iff_of_false not_mem_nil ?_
      rintro ⟨-, equal⟩
      split at equal
      · cases equal
      · contradiction
    | draining =>
      refine remote.trans (and_congr_right fun inside => ?_)
      have notDraining : place slot ≠ .draining := fun equal =>
        not_mem_nil (noDraining.mpr ⟨inside, equal⟩)
      by_cases isRemote : place slot = .remoteFree
      · simp [isRemote]
      · simp [isRemote, notDraining]

theorem Accounts.enterBitmap {otherHead : Nat}
    (accounts : page.Accounts base drainHead live place stack drained) (source : SlotPlace)
    (here : page.Located base live stack drained slot source)
    (fromElsewhere : source = .live ∨ source = .draining)
    (liveIff : ∀ other, otherLive other ↔ live other ∧ other ≠ slot)
    (chain : Chain page.firstWord 0 otherHead otherDrained) (nodup : otherDrained.Nodup)
    (drainedIff : ∀ addr, addr ∈ otherDrained ↔ addr ∈ drained ∧ addr ≠ page.objectAddr base slot) :
    (page.localFree slot).Accounts base otherHead otherLive
      (update place slot .localFree) stack otherDrained := by
  have inside : slot < page.objectCount := ((accounts.located slot source).mp here).1
  have positive : 0 < 64 := by decide
  have notRemote : ¬ page.Located base live stack drained slot .remoteFree := by
    apply accounts.not_located source .remoteFree here
    rcases fromElsewhere with equal | equal <;> rw [equal] <;> decide
  have notFree : ¬ page.Located base live stack drained slot .localFree := by
    apply accounts.not_located source .localFree here
    rcases fromElsewhere with equal | equal <;> rw [equal] <;> decide
  refine ⟨accounts.small, ?_, accounts.stackChain, chain, accounts.stackNodup, nodup, ?_, ?_⟩
  · have unset : get page.localBitmap slot = false := Bool.eq_false_iff.mpr notFree
    have grown := ones_set positive (inside.trans_le accounts.small) unset
    exact (congrArg (· + 1) accounts.counted).trans grown.symm
  · intro addr member
    apply accounts.objects addr
    rcases mem_append.mp member with remote | draining
    · exact mem_append_left drained remote
    · exact mem_append_right stack ((drainedIff addr).mp draining).1
  · apply accounts.relocate (page.localFree slot) inside rfl
    · intro which
      cases which with
      | live => simp [Located, liveIff]
      | localFree => simp [Located, localFree, get_set]
      | remoteFree => exact iff_of_false notRemote (by decide)
      | draining =>
        refine iff_of_false (fun member => ?_) (by decide)
        exact ((drainedIff _).mp member).2 rfl
    · intro moved different which
      cases which with
      | live => exact (liveIff moved).trans (and_iff_left different)
      | localFree => simp [Located, localFree, get_set, different]
      | remoteFree => exact .rfl
      | draining =>
        have addrNe : page.objectAddr base moved ≠ page.objectAddr base slot :=
          fun equal => different (objectAddr_inj equal)
        exact (drainedIff _).trans (and_iff_left addrNe)

variable (settled : page.Settled base drainHead live)
include settled

theorem Settled.localFree (isLive : live slot) :
    (page.localFree slot).Settled base drainHead (fun other => live other ∧ other ≠ slot) := by
  obtain ⟨place, stack, drained, accounts⟩ := settled
  refine ⟨_, stack, drained, accounts.enterBitmap .live isLive (.inl rfl)
    (fun _ => .rfl) accounts.drainedChain accounts.drainedNodup
    (fun addr => (and_iff_left_of_imp fun member => ?_).symm)⟩
  intro equal
  rw [equal] at member
  exact accounts.not_located .live .draining isLive (by decide) member

theorem Settled.drainOne (more : drainHead ≠ 0) :
    (page.localFree (page.objectIndex base drainHead)).Settled base
      (page.firstWord drainHead) live := by
  obtain ⟨place, stack, drained, accounts⟩ := settled
  have chain := accounts.drainedChain
  cases drained with
  | nil => exact absurd chain more
  | cons addr rest =>
    obtain ⟨rfl, -, tail⟩ := chain
    obtain ⟨slot, addrEq⟩ := accounts.objects drainHead (mem_append_right stack mem_cons_self)
    obtain ⟨fresh, restNodup⟩ := nodup_cons.mp accounts.drainedNodup
    have here : page.Located base live stack (drainHead :: rest) slot .draining := by
      rw [addrEq]
      exact mem_cons_self
    have indexEq : page.objectIndex base drainHead = slot := by
      rw [addrEq, objectIndex_objectAddr]
    rw [indexEq]
    refine ⟨_, stack, rest, accounts.enterBitmap .draining here (.inr rfl) ?_ tail restNodup ?_⟩
    · intro other
      refine (and_iff_left_of_imp fun isLive equal => ?_).symm
      rw [equal] at isLive
      exact accounts.not_located .draining .live here (by decide) isLive
    · intro addr
      rw [← addrEq, mem_cons]
      constructor
      · intro member
        exact ⟨.inr member, fun equal => fresh (equal ▸ member)⟩
      · rintro ⟨equal | member, different⟩
        · exact absurd equal different
        · exact member

theorem Settled.localAlloc {after : SlabPage} (taken : page.localAlloc = some (slot, after)) :
    after.Settled base drainHead (fun other => live other ∨ other = slot) := by
  obtain ⟨place, stack, drained, accounts⟩ := settled
  obtain ⟨found, foundEq, pairEq⟩ := Option.map_eq_some_iff.mp taken
  obtain ⟨rfl, rfl⟩ := Prod.mk.inj pairEq
  have positive : 0 < 64 := by decide
  have here : page.Located base live stack drained found .localFree := (firstSet_some foundEq).2
  have inside : found < page.objectCount := ((accounts.located found .localFree).mp here).1
  have elsewhere := fun other different =>
    accounts.not_located .localFree other here different
  refine ⟨update place found .live, stack, drained, accounts.small, ?_,
    accounts.stackChain, accounts.drainedChain, accounts.stackNodup,
    accounts.drainedNodup, accounts.objects, ?_⟩
  · have shrunk := ones_clear positive (inside.trans_le accounts.small) here
    have counted := accounts.counted
    simp only [takeSlot]
    omega
  · apply accounts.relocate (page.takeSlot found) inside rfl
    · intro which
      cases which with
      | live => simp [Located]
      | localFree => simp [Located, takeSlot, get_clear]
      | remoteFree => exact iff_of_false (elsewhere .remoteFree (by decide)) (by decide)
      | draining => exact iff_of_false (elsewhere .draining (by decide)) (by decide)
    · intro moved different which
      cases which with
      | live => exact or_iff_left different
      | localFree => simp [Located, takeSlot, get_clear, different]
      | remoteFree | draining => exact .rfl

end SlabPage

end TgosKits
