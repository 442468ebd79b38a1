import TgosKits.Buddy.Runs

/-!
# A heap with too many frames

`init_at` accepts a heap of `2 ^ 32 + 1` pages, but the links of the free lists
are 32 bits wide.  The last frame, `2 ^ 32`, is pushed as frame 0, which is the
head of a block of the greatest order already.
-/

namespace TgosKits

open BuddyRun Function FreeLists BuddySection

def hugePages : Nat := 2 ^ 32 + 1

def hugeSpec : SectionInitSpec where
  regionStart := 0
  regionSize := 2 ^ 40 + hugePages * 0x1000
  metaSize := hugePages * 12
  heapStart := 2 ^ 40
  heapSize := hugePages * 0x1000

def hugeSection : BuddySection :=
  cutIntoBlocks hugePages 0 (blank 0x1000 hugeSpec)

def hugeRun : BuddyRun := ⟨⟨[hugeSection]⟩, []⟩

namespace BuddySection

/-- The loop before it comes to the last frame: only the list of the greatest
order is in use, and only frames that are multiples of the greatest block have
been touched. -/
structure BeforeLast (pfn : Nat) (state : BuddySection) : Prop where
  pages : state.totalPages = hugePages
  otherHeads : ∀ order ≠ 20, state.lists.heads order = pfnNone
  lastHead : state.lists.heads 20 = pfnNone ∨ 2 ^ 20 ∣ state.lists.heads 20
  second : state.lists.pageMeta 1 = .new
  third : state.lists.pageMeta 2 = .new
  first : pfn ≠ 0 → (state.lists.pageMeta 0).flags = .free ∧ (state.lists.pageMeta 0).order = 20

/-- The section after the last frame has been pushed as frame 0. -/
structure AfterLast (state : BuddySection) : Prop where
  firstHead : state.lists.heads 0 = 0
  secondHead : state.lists.heads 1 = pfnNone
  first : state.lists.pageMeta 0 = ⟨.free, 20, pfnNone, pfnNone⟩
  second : state.lists.pageMeta 1 = .new
  third : state.lists.pageMeta 2 = .new

variable {pfn : Nat} {state : BuddySection}

theorem putFree_pageMeta_of_ne {lists : FreeLists} {order frame : Nat} (notMarked : frame ≠ pfn)
    (notPushed : frame ≠ toU32 pfn) (notHead : frame ≠ lists.heads order) :
    (lists.putFree pfn order).pageMeta frame = lists.pageMeta frame := by
  simp only [putFree, freeListPush, setHead]
  split <;>
    simp [FreeLists.modify, notMarked, notPushed, notHead]

theorem BeforeLast.next (before : BeforeLast pfn state) (divides : 2 ^ 20 ∣ pfn)
    (below : pfn < 2 ^ 32) :
    BeforeLast (pfn + 2 ^ 20)
      { state with
        lists := state.lists.putFree pfn 20
        freePages := state.freePages + 2 ^ 20 } := by
  have sameFrame : toU32 pfn = pfn := Nat.mod_eq_of_lt below
  have headsEq : (state.lists.putFree pfn 20).heads = update state.lists.heads 20 pfn := by
    rw [putFree, heads_freeListPush, sameFrame]
    rfl
  have untouched : ∀ frame, ¬ 2 ^ 20 ∣ frame → frame ≠ pfnNone →
      (state.lists.putFree pfn 20).pageMeta frame = state.lists.pageMeta frame := by
    intro frame odd real
    apply putFree_pageMeta_of_ne
    · exact fun equal => odd (equal ▸ divides)
    · rw [sameFrame]
      exact fun equal => odd (equal ▸ divides)
    · intro equal
      rcases before.lastHead with none | multiple
      · exact real (equal.trans none)
      · exact odd (equal ▸ multiple)
  refine ⟨before.pages, ?_, ?_, ?_, ?_, ?_⟩
  · intro order different
    simp only [headsEq, update_of_ne different]
    exact before.otherHeads order different
  · simp only [headsEq, update_self]
    exact .inr divides
  · exact (untouched 1 (by decide) (by decide)).trans before.second
  · exact (untouched 2 (by decide) (by decide)).trans before.third
  · intro _
    have marks := sameMarks_freeListPush (state.lists.modify pfn
        (fun entry => { entry with flags := .free, order := 20 }))
      (toU32 pfn) 20 0
    simp only [putFree, marks.1, marks.2]
    by_cases atFirst : 0 = pfn
    · subst atFirst
      simp [FreeLists.modify]
    · simp only [FreeLists.modify, update_of_ne atFirst]
      exact before.first (.symm atFirst)

private theorem fittingOrder_beforeLast (divides : 2 ^ 20 ∣ pfn) (below : pfn < 2 ^ 32) :
    fittingOrder hugePages pfn maxOrder = 20 := by
  have fits : 2 ^ 20 ≤ hugePages - pfn ∧ pfn &&& (2 ^ 20 - 1) = 0 := by
    rw [Nat.and_two_pow_sub_one_eq_mod]
    unfold hugePages
    exact ⟨by omega, Nat.mod_eq_zero_of_dvd divides⟩
  exact if_pos fits

private theorem cutIntoBlocks_behind (fuel : Nat) (behind : state.totalPages ≤ pfn) :
    cutIntoBlocks fuel pfn state = state := by
  cases fuel with
  | zero => rfl
  | succ fuel => rw [cutIntoBlocks, if_neg (not_lt.mpr behind)]

theorem BeforeLast.last (fuel : Nat) (before : BeforeLast (2 ^ 32) state) :
    AfterLast (cutIntoBlocks (fuel + 1) (2 ^ 32) state) := by
  have below : 2 ^ 32 < state.totalPages := by
    rw [before.pages]
    decide
  have orderZero : fittingOrder state.totalPages (2 ^ 32) maxOrder = 0 := by
    rw [before.pages]
    decide
  rw [cutIntoBlocks, if_pos below, orderZero]
  simp only
  rw [cutIntoBlocks_behind fuel (by
    simp only [before.pages, hugePages]
    omega)]
  obtain ⟨isFree, orderEq⟩ := before.first (by decide)
  have emptyHead := before.otherHeads 0 (by decide)
  have headsEq : (state.lists.putFree (2 ^ 32) 0).heads = update state.lists.heads 0 0 := by
    rw [putFree, heads_freeListPush]
    rfl
  have untouched : ∀ frame, frame ≠ 2 ^ 32 → frame ≠ 0 → frame ≠ pfnNone →
      (state.lists.putFree (2 ^ 32) 0).pageMeta frame = state.lists.pageMeta frame := by
    intro frame notLast notFirst real
    exact putFree_pageMeta_of_ne notLast notFirst (emptyHead ▸ real)
  refine ⟨?_, ?_, ?_, ?_, ?_⟩
  · simp only [headsEq, update_self]
  · simp only [headsEq]
    rw [update_of_ne (by decide)]
    exact before.otherHeads 1 (by decide)
  · have unlinked : state.lists.heads 0 = pfnNone := emptyHead
    simp only [putFree, freeListPush, setHead,
      FreeLists.modify, unlinked, ne_eq, not_true, if_false,
      show toU32 (2 ^ 32) = 0 from rfl, update_self]
    rw [update_of_ne (by decide)]
    simp [isFree, orderEq]
  · exact (untouched 1 (by decide) (by decide) (by decide)).trans before.second
  · exact (untouched 2 (by decide) (by decide) (by decide)).trans before.third

theorem BeforeLast.run (rounds fuel : Nat) (before : BeforeLast pfn state)
    (divides : 2 ^ 20 ∣ pfn) (distance : pfn + rounds * 2 ^ 20 = 2 ^ 32) :
    AfterLast (cutIntoBlocks (rounds + fuel + 1) pfn state) := by
  induction rounds generalizing pfn state with
  | zero =>
    rw [zero_mul, add_zero] at distance
    subst distance
    rw [zero_add]
    exact before.last fuel
  | succ rounds ih =>
    rw [Nat.succ_mul] at distance
    have below : pfn < 2 ^ 32 := by omega
    have inHeap : pfn < state.totalPages := by
      rw [before.pages, hugePages]
      omega
    have orderEq : fittingOrder state.totalPages pfn maxOrder = 20 := by
      rw [before.pages]
      exact fittingOrder_beforeLast divides below
    rw [show rounds + 1 + fuel + 1 = (rounds + fuel + 1) + 1 by omega,
      cutIntoBlocks, if_pos inHeap, orderEq]
    exact ih (before.next divides below) (Nat.dvd_add divides dvd_rfl) (by omega)

theorem afterLast_hugeSection : AfterLast hugeSection := by
  have before : BeforeLast 0 (blank 0x1000 hugeSpec) :=
    ⟨rfl, fun _ _ => rfl, .inl rfl, rfl, rfl, fun impossible =>
      absurd rfl impossible⟩
  have rounds : hugePages = 2 ^ 12 + (hugePages - 2 ^ 12 - 1) + 1 := by decide
  unfold hugeSection
  rw [rounds]
  exact before.run (2 ^ 12) _ (dvd_zero _) (by decide)

end BuddySection

theorem reachable_hugeRun (virtToPhys : Nat → Nat) :
    Relation.ReflTransGen (Step virtToPhys 0x1000) start hugeRun :=
  .single ⟨.addRegion hugeSpec, Nat.zero_le _, rfl⟩

end TgosKits
