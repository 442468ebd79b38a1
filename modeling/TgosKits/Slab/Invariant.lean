import TgosKits.Slab.Machine

/-! # The invariant of the slab machine -/

namespace TgosKits

open Function

variable {Cpu : Type}

abbrev SlabLists := SizeClass × SlabListState → List Nat

/-- What the list of a slab says about its slots. -/
def SlabPage.Fit (page : SlabPage) : Prop :=
  match page.listState with
  | .notListed => False
  | .partialList => 0 < page.localFreeCount ∨ page.remoteFreeHead ≠ 0
  | .fullList => page.localFreeCount = 0
  | .emptyList => page.localFreeCount = page.objectCount

namespace SlabMachine

/-! ## The four concerns -/

structure Slots (pages : Nat → SlabPage) (owned : Finset Nat)
    (live : Finset (Nat × Nat)) (drain : Nat → Nat) : Prop where
  real : ∀ base ∈ owned, base ≠ 0
  liveOwned : ∀ base slot, (base, slot) ∈ live → base ∈ owned
  roomy : ∀ base ∈ owned, 0 < (pages base).objectCount
  settled : ∀ base ∈ owned, (pages base).Settled base (drain base) (fun slot => (base, slot) ∈ live)

/-- All slabs but the one that is held are on the list they belong to. -/
structure Ranks (store : SlabStore) (owned : Finset Nat) (lists : SlabLists)
    (held : Option Nat) : Prop where
  listing : store.Listing owned lists
  empties : ∀ sizeClass, (store.caches sizeClass).emptyCount =
      (lists (sizeClass, .emptyList)).length
  oneEmpty : ∀ sizeClass, (lists (sizeClass, .emptyList)).length ≤ 1
  fit : ∀ base ∈ owned, held ≠ some base → (store.pages base).Fit

/-- No two CPUs free one object. -/
structure Claims (pages : Nat → SlabPage) (live : Finset (Nat × Nat))
    (remotes : Cpu → Remote) : Prop where
  isLive : ∀ cpu object, (remotes cpu).object = some object → object ∈ live
  loaded : ∀ cpu base slot oldHead, remotes cpu = .loaded base slot oldHead →
      (pages base).firstWord ((pages base).objectAddr base slot) = oldHead
  alone : ∀ first second object, (remotes first).object = some object →
      (remotes second).object = some object → first = second

/-- A remote free in the slab at `base` is announced, or about to be. -/
def Announced (hint : BitVec 16) (remotes : Cpu → Remote) (sizeClass : SizeClass)
    (base : Nat) : Prop :=
  RemoteFreeHint.isMarked hint sizeClass = true ∨
    ∃ cpu, remotes cpu = .queued base ∨ remotes cpu = .counted base ∨
      remotes cpu = .marking sizeClass

/-- No remote free is forgotten, save in slabs the walk has yet to visit. -/
def Announces (pages : Nat → SlabPage) (hint : BitVec 16) (remotes : Cpu → Remote)
    (lists : SlabLists) (ahead : List Nat) : Prop :=
  ∀ sizeClass, ∀ base ∈ lists (sizeClass, .fullList), base ∉ ahead →
    (pages base).remoteFreeHead ≠ 0 → Announced hint remotes sizeClass base

end SlabMachine

/-! ## The place of the owner -/

variable (lists : SlabLists)

/-- The walk over the full list has yet to visit `ahead`. -/
def WalksOn (sizeClass : SizeClass) (ahead : List Nat) : Prop :=
  ∃ visited, lists (sizeClass, .fullList) = visited ++ ahead

def SlabMachine.Loose (machine : SlabMachine Cpu) (sizeClass : SizeClass) (base : Nat) : Prop :=
  base ∈ machine.owned ∧ (machine.page base).sizeClass = sizeClass ∧
    (machine.page base).listState = .notListed

/-- The slab that is drained, and what the walk has yet to visit. -/
def DrainFor.At (ahead : List Nat) (sizeClass : SizeClass) (base : Nat) : DrainFor → Prop
  | .walk next =>
    WalksOn lists sizeClass ahead ∧ ∃ rest, ahead = base :: rest ∧ next = rest.headD 0
  | _ => base ∈ lists (sizeClass, .partialList) ∧ ahead = []

namespace Move

def Before (ahead : List Nat) (sizeClass : SizeClass) (base : Nat) : Move → Prop
  | .walk next =>
    WalksOn lists sizeClass ahead ∧ ∃ rest, ahead = base :: rest ∧ next = rest.headD 0
  | .addSlab => False
  | move => base ∈ lists (sizeClass, move.source) ∧ ahead = []

/-- What the walk has yet to visit in the middle of a move. -/
def Between (ahead : List Nat) (sizeClass : SizeClass) : Move → Prop
  | .walk next => WalksOn lists sizeClass ahead ∧ next = ahead.headD 0
  | _ => ahead = []

/-- Why a slab may go to the list a move puts it on. -/
def Ready (machine : SlabMachine Cpu) (lists : SlabLists) (sizeClass : SizeClass)
    (base : Nat) : Move → Prop
  | .allocated _ =>
    (machine.page base).localFreeCount = 0 ∧ ((machine.page base).remoteFreeHead ≠ 0 →
        SlabMachine.Announced machine.hint machine.remotes sizeClass base)
  | .keepEmpty =>
    (machine.page base).localFreeCount = (machine.page base).objectCount ∧
      lists (sizeClass, .emptyList) = []
  | _ => 0 < (machine.page base).localFreeCount

end Move

def Owner.At (machine : SlabMachine Cpu) (lists : SlabLists) (ahead : List Nat) : Owner → Prop
  | .drain sizeClass base why =>
    why.At lists ahead sizeClass base ∧ (machine.page base).remoteFreeHead ≠ 0
  | .resetCount sizeClass base ptr why =>
    why.At lists ahead sizeClass base ∧ ptr ≠ 0
  | .draining sizeClass base ptr why =>
    why.At lists ahead sizeClass base ∧ (ptr ≠ 0 ∨ 0 < (machine.page base).localFreeCount)
  | .localAlloc sizeClass base _ =>
    base ∈ lists (sizeClass, .partialList) ∧ ahead = []
  | .checkFull sizeClass base _ =>
    base ∈ lists (sizeClass, .partialList) ∧ ahead = []
  | .unlink sizeClass base move =>
    move.Before lists ahead sizeClass base ∧ move.Ready machine lists sizeClass base
  | .link sizeClass base move =>
    machine.Loose sizeClass base ∧ move.Between lists ahead sizeClass ∧
      move.Ready machine lists sizeClass base
  | .walk sizeClass base _ =>
    WalksOn lists sizeClass ahead ∧ base = ahead.headD 0
  | .checkRemote sizeClass base =>
    base ∈ lists (sizeClass, .partialList) ∧ 0 < (machine.page base).localFreeCount ∧ ahead = []
  | .checkEmpty sizeClass base =>
    base ∈ lists (sizeClass, .partialList) ∧ 0 < (machine.page base).localFreeCount ∧ ahead = []
  | .detach sizeClass base =>
    base ∈ lists (sizeClass, .partialList) ∧ (machine.page base).localFreeCount =
        (machine.page base).objectCount ∧ ahead = []
  | .release sizeClass base =>
    machine.Loose sizeClass base ∧ (machine.page base).localFreeCount =
        (machine.page base).objectCount ∧ ahead = []
  | .panicked => False
  | _ => ahead = []

namespace SlabMachine

/-- The invariant, for given lists and a given rest of the walk. -/
structure Sound (machine : SlabMachine Cpu) (lists : SlabLists) (ahead : List Nat) : Prop where
  slots : Slots machine.store.pages machine.owned machine.live
    (fun base => machine.owner.drainHead base)
  ranks : Ranks machine.store machine.owned lists machine.owner.held
  claims : Claims machine.store.pages machine.live machine.remotes
  announces : Announces machine.store.pages machine.hint machine.remotes lists ahead
  atPlace : machine.owner.At machine lists ahead

variable {pages after : Nat → SlabPage} {store : SlabStore} {owned : Finset Nat}
  {live otherLive : Finset (Nat × Nat)} {drain otherDrain : Nat → Nat} {lists : SlabLists}
  {held otherHeld : Option Nat} {remotes : Cpu → Remote} {hint : BitVec 16} {ahead : List Nat}
  {base : Nat} {page : SlabPage}

/-! ## Slots -/

theorem live_erase {slot : Nat} : (fun other => (base, other) ∈ live.erase (base, slot)) =
    fun other => (base, other) ∈ live ∧ other ≠ slot := by
  simp [and_comm]

section

variable (slots : Slots pages owned live drain)
include slots

theorem Slots.touch (inside : base ∈ owned) (count : page.objectCount = (pages base).objectCount)
    (settled : page.Settled base (otherDrain base) (fun slot => (base, slot) ∈ otherLive))
    (sameDrain : ∀ other, other ≠ base → otherDrain other = drain other)
    (sameLive : ∀ other slot, other ≠ base → ((other, slot) ∈ otherLive ↔ (other, slot) ∈ live)) :
    Slots (update pages base page) owned otherLive otherDrain := by
  constructor
  · exact slots.real
  · intro other slot isLive
    by_cases here : other = base
    · rw [here]
      exact inside
    · exact slots.liveOwned other slot ((sameLive other slot here).mp isLive)
  · intro other otherInside
    by_cases here : other = base
    · subst here
      rw [update_self, count]
      exact slots.roomy other otherInside
    · rw [update_of_ne here]
      exact slots.roomy other otherInside
  · intro other otherInside
    by_cases here : other = base
    · subst here
      rw [update_self]
      exact settled
    · rw [update_of_ne here, sameDrain other here]
      simp only [sameLive other _ here]
      exact slots.settled other otherInside

theorem Slots.congr (same : ∀ base ∈ owned, (pages base).SameObjects (after base)) :
    Slots after owned live drain := by
  refine ⟨slots.real, slots.liveOwned, ?_, ?_⟩
  · intro base inside
    rw [(same base inside).objectCount]
    exact slots.roomy base inside
  · intro base inside
    exact (slots.settled base inside).congr (same base inside)

theorem Slots.outside {remaining : Finset Nat} (gone : base ∉ remaining)
    (subset : remaining ⊆ owned) (kept : ∀ other slot, (other, slot) ∈ live → other ∈ remaining) :
    Slots (update pages base page) remaining live drain := by
  have different : ∀ other ∈ remaining, other ≠ base :=
    fun other inside equal => gone (equal ▸ inside)
  constructor
  · exact fun other inside => slots.real other (subset inside)
  · exact kept
  · intro other inside
    rw [update_of_ne (different other inside)]
    exact slots.roomy other (subset inside)
  · intro other inside
    rw [update_of_ne (different other inside)]
    exact slots.settled other (subset inside)

theorem Slots.insert (new : base ∉ owned) (real : base ≠ 0) (roomy : 0 < page.objectCount)
    (settled : page.Settled base (drain base) (fun _ => False)) :
    Slots (update pages base page) (insert base owned) live
      drain := by
  have different : ∀ other ∈ owned, other ≠ base := fun other inside equal => new (equal ▸ inside)
  have notLive : ∀ slot, (base, slot) ∉ live :=
    fun slot isLive => new (slots.liveOwned base slot isLive)
  constructor
  · intro other inside
    rcases Finset.mem_insert.mp inside with here | there
    · rw [here]
      exact real
    · exact slots.real other there
  · intro other slot isLive
    exact Finset.mem_insert_of_mem (slots.liveOwned other slot isLive)
  · intro other inside
    rcases Finset.mem_insert.mp inside with here | there
    · rw [here, update_self]
      exact roomy
    · rw [update_of_ne (different other there)]
      exact slots.roomy other there
  · intro other inside
    rcases Finset.mem_insert.mp inside with here | there
    · rw [here, update_self]
      simp only [notLive]
      exact settled
    · rw [update_of_ne (different other there)]
      exact slots.settled other there

end

/-! ## Ranks -/

/-- The pages agree in their links and size class. -/
structure SameTies (page other : SlabPage) : Prop where
  listPrev : other.listPrev = page.listPrev
  listNext : other.listNext = page.listNext
  sizeClass : other.sizeClass = page.sizeClass
  listState : other.listState = page.listState

theorem Ranks.touch {change : SlabPage → SlabPage} (ranks : Ranks store owned lists held)
    (ties : SameTies (store.pages base) (change (store.pages base)))
    (fit : otherHeld ≠ some base → (change (store.pages base)).Fit)
    (sameHeld : ∀ other, other ≠ base → otherHeld ≠ some other → held ≠ some other) :
    Ranks (store.modify base change) owned lists otherHeld := by
  refine ⟨?_, ranks.empties, ranks.oneEmpty, ?_⟩
  · refine ranks.listing.congr (store.heads_modify base change) ?_
    intro other inside
    by_cases here : other = base
    · subst here
      simp only [SlabStore.modify, update_self]
      exact ⟨ties.listPrev, ties.listNext, ties.sizeClass, ties.listState⟩
    · simp [SlabStore.modify, here]
  · intro other inside notHeld
    by_cases here : other = base
    · subst here
      simp only [SlabStore.modify, update_self]
      exact fit notHeld
    · simp only [SlabStore.modify, update_of_ne here]
      exact ranks.fit other inside (sameHeld other here notHeld)

/-! ## Claims -/

section

variable (claims : Claims pages live remotes)
include claims

theorem Claims.touch (sameClass : page.sizeClass = (pages base).sizeClass)
    (sameWord : ∀ cpu slot oldHead, remotes cpu = .loaded base slot oldHead →
      page.firstWord ((pages base).objectAddr base slot) =
        (pages base).firstWord ((pages base).objectAddr base slot))
    (kept : ∀ cpu object, (remotes cpu).object = some object → object ∈ live → object ∈ otherLive) :
    Claims (update pages base page) otherLive remotes := by
  refine ⟨?_, ?_, claims.alone⟩
  · intro cpu object freeing
    exact kept cpu object freeing (claims.isLive cpu object freeing)
  · intro cpu other slot oldHead loaded
    have old := claims.loaded cpu other slot oldHead loaded
    by_cases here : other = base
    · subst here
      have sameAddr : page.objectAddr other slot = (pages other).objectAddr other slot := by
        simp [SlabPage.objectAddr, SlabPage.dataStart, sameClass]
      rw [update_self, sameAddr, sameWord cpu slot oldHead loaded]
      exact old
    · rw [update_of_ne here]
      exact old

theorem Claims.outside (notFreed : ∀ cpu slot, (remotes cpu).object ≠ some (base, slot)) :
    Claims (update pages base page) live remotes := by
  refine ⟨claims.isLive, ?_, claims.alone⟩
  intro cpu other slot oldHead loaded
  have different : other ≠ base := by
    intro here
    apply notFreed cpu slot
    rw [loaded, here]
    rfl
  rw [update_of_ne different]
  exact claims.loaded cpu other slot oldHead loaded

theorem Claims.congr (same : ∀ base, (pages base).SameObjects (after base)) :
    Claims after live remotes := by
  refine ⟨claims.isLive, ?_, claims.alone⟩
  intro cpu base slot oldHead loaded
  rw [(same base).objectAddr, (same base).firstWord]
  exact claims.loaded cpu base slot oldHead loaded

end

/-! ## Announcements -/

theorem Announces.touch (announces : Announces pages hint remotes lists ahead)
    (head : ∀ sizeClass, base ∈ lists (sizeClass, .fullList) → base ∉ ahead →
      page.remoteFreeHead ≠ 0 → (pages base).remoteFreeHead ≠ 0) :
    Announces (update pages base page) hint remotes lists ahead := by
  intro sizeClass other member notAhead nonempty
  by_cases here : other = base
  · subst here
    rw [update_self] at nonempty
    exact announces sizeClass other member notAhead (head sizeClass member notAhead nonempty)
  · rw [update_of_ne here] at nonempty
    exact announces sizeClass other member notAhead nonempty

end SlabMachine

end TgosKits
