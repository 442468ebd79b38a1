import Mathlib.Data.List.DropRight
import TgosKits.BlockCache.FolioCache

/-!
# The frames of a block cache

Every folio, cached or in flight, holds one permit of a budget as large as the index.
-/

namespace TgosKits

open List FolioCache

/-- Permits for frames, given out up to a capacity. -/
structure FrameBudget where
  used : Nat
  capacity : Nat

namespace FrameBudget

variable (budget : FrameBudget)

def acquire : Option FrameBudget :=
  if budget.used + 1 ≤ budget.capacity then some { budget with used := budget.used + 1 } else none

/-- A permit is dropped. -/
def release : FrameBudget := { budget with used := budget.used - 1 }

end FrameBudget

variable {T : Type}

/-- The index, and how many permits are held outside of it. -/
structure BlockAddressSpace (T : Type) where
  folios : FolioCache T
  budget : FrameBudget
  outside : Nat

inductive CacheOperation (T : Type) where
  | getMut (frame : UInt64)
  | touch (frame : UInt64)
  /-- The allocator decides whether the reservation succeeds. -/
  | tryReserveEntry (granted : Bool)
  | insertReserved (frame : UInt64) (folio : T)
  | remove (frame : UInt64)
  | leastRecent
  | acquire
  | dropPermit
  deriving DecidableEq

inductive CacheAnswer (T : Type) where
  | folio (found : Option T)
  | frame (found : Option UInt64)
  | granted (yes : Bool)
  | done
  deriving DecidableEq

namespace BlockAddressSpace

def withCapacity (capacity : Nat) : BlockAddressSpace T :=
  ⟨.new (max capacity 1), ⟨0, max capacity 1⟩, 0⟩

variable (space : BlockAddressSpace T)

/-- An inserted folio brings its permit along; a removed one keeps it until it is dropped. -/
def perform : CacheOperation T → Option (CacheAnswer T × BlockAddressSpace T)
  | .getMut frame => do
    let (found, folios) ← space.folios.getMut frame
    some (.folio found, { space with folios })
  | .touch frame => do
    let folios ← space.folios.touch frame
    some (.done, { space with folios })
  | .tryReserveEntry granted => some (.granted granted, space)
  | .insertReserved frame folio => do
    let folios ← space.folios.insertReserved frame folio
    some (.done, { space with folios, outside := space.outside - 1 })
  | .remove frame => do
    let (removed, folios) ← space.folios.remove frame
    some (.folio removed,
      { space with folios, outside := if removed.isSome then space.outside + 1 else space.outside })
  | .leastRecent => some (.frame space.folios.leastRecent, space)
  | .acquire =>
    match space.budget.acquire with
    | some budget => some (.granted true, { space with budget, outside := space.outside + 1 })
    | none => some (.granted false, space)
  | .dropPermit =>
    some (.done, { space with budget := space.budget.release, outside := space.outside - 1 })

end BlockAddressSpace

/-- The answers of a run, which stops where a step has none. -/
def runAll {State : Type} (step : State → CacheOperation T → Option (CacheAnswer T × State))
    (state : State) : List (CacheOperation T) → Option (List (CacheAnswer T) × State)
  | [] => some ([], state)
  | operation :: rest => do
    let (answer, state) ← step state operation
    let (answers, state) ← runAll step state rest
    some (answer :: answers, state)

/-! ## A list of folios -/

/-- The folios from the most to the least recently used. -/
structure LruList (T : Type) where
  order : List (UInt64 × T)
  outside : Nat
  capacity : Nat

namespace LruList

variable (lru : LruList T)

def without (frame : UInt64) : List (UInt64 × T) := lru.order.filter (·.1 ≠ frame)

def toFront (frame : UInt64) : LruList T :=
  match lru.order.lookup frame with
  | none => lru
  | some folio => { lru with order := (frame, folio) :: lru.without frame }

/-- The block cache inserts absent frames only, and only with a permit. -/
def perform : CacheOperation T → Option (CacheAnswer T × LruList T)
  | .getMut frame => some (.folio (lru.order.lookup frame), lru.toFront frame)
  | .touch frame => some (.done, lru.toFront frame)
  | .tryReserveEntry granted => some (.granted granted, lru)
  | .insertReserved frame folio =>
    if frame ∉ lru.order.map Prod.fst ∧ 0 < lru.outside then
      some (.done, { lru with order := (frame, folio) :: lru.order, outside := lru.outside - 1 })
    else none
  | .remove frame =>
    match lru.order.lookup frame with
    | none => some (.folio none, lru)
    | some folio => some (.folio (some folio),
        { lru with order := lru.without frame, outside := lru.outside + 1 })
  | .leastRecent => some (.frame (lru.order.getLast?.map Prod.fst), lru)
  | .acquire =>
    if lru.order.length + lru.outside < lru.capacity then
      some (.granted true, { lru with outside := lru.outside + 1 })
    else some (.granted false, lru)
  | .dropPermit =>
    if 0 < lru.outside then some (.done, { lru with outside := lru.outside - 1 }) else none

structure Sound : Prop where
  distinct : (lru.order.map Prod.fst).Nodup
  fits : lru.order.length + lru.outside ≤ lru.capacity

/-- The block cache that holds the folios of the list. -/
def space : BlockAddressSpace T :=
  ⟨.ofOrder lru.capacity lru.order, ⟨lru.order.length + lru.outside, lru.capacity⟩, lru.outside⟩

variable {lru} {frame : UInt64} {value : T}

theorem missing_of_lookup (nothing : lru.order.lookup frame = none) :
    lru.space.folios.entries frame = none := by
  rw [lookup_eq_none_iff] at nothing
  refine entryIn_eq_none fun known => ?_
  obtain ⟨entry, member, rfl⟩ := mem_map.mp known
  simpa using nothing entry member

variable (sound : lru.Sound)
include sound

theorem Sound.split (found : lru.order.lookup frame = some value) :
    ∃ before after, lru.order = before ++ (frame, value) :: after ∧
      lru.without frame = before ++ after := by
  obtain ⟨before, after, split, -⟩ := lookup_eq_some_iff.mp found
  have fresh := fresh_of_nodup (split ▸ sound.distinct)
  refine ⟨before, after, split, ?_⟩
  rw [without, split, filter_append, filter_cons_of_neg (by simp), ← filter_append, filter_eq_self]
  intro entry member
  simpa using fun same => fresh (mem_map.mpr ⟨entry, member, same⟩)

theorem Sound.touch (frame : UInt64) :
    lru.space.folios.touch frame = some (lru.toFront frame).space.folios ∧
      ((lru.toFront frame).space.folios.entries frame).map CachedFolio.folio =
        lru.order.lookup frame ∧
      (lru.toFront frame).Sound ∧
      { lru.space with folios := (lru.toFront frame).space.folios } =
        (lru.toFront frame).space := by
  have ⟨distinct, fits⟩ := sound
  unfold toFront
  cases found : lru.order.lookup frame with
  | none =>
    have missing := missing_of_lookup found
    exact ⟨by simp [FolioCache.touch, missing], congrArg _ missing, sound, rfl⟩
  | some value =>
    obtain ⟨before, after, split, rest⟩ := sound.split found
    dsimp only
    rw [rest, space, split]
    rw [split] at distinct fits
    have same : (before ++ (frame, value) :: after).length =
        ((frame, value) :: (before ++ after)).length := by simp [Nat.add_assoc]
    refine ⟨FolioCache.touch_eq distinct, ?_, ⟨?_, same ▸ fits⟩, ?_⟩
    · simp [space, FolioCache.ofOrder, FolioCache.entryIn]
    · simpa [nodup_middle] using distinct
    · simp only [same]
      rfl

theorem Sound.perform {operation : CacheOperation T} {answer : CacheAnswer T} {lru' : LruList T}
    (ran : lru.perform operation = some (answer, lru')) :
    lru.space.perform operation = some (answer, lru'.space) ∧ lru'.Sound := by
  have ⟨distinct, fits⟩ := sound
  cases operation with
  | getMut frame =>
    cases ran
    obtain ⟨touched, found, kept, moved⟩ := sound.touch frame
    refine ⟨?_, kept⟩
    rw [← found, BlockAddressSpace.perform, FolioCache.getMut, touched]
    exact congrArg (fun space => some (CacheAnswer.folio _, space)) moved
  | touch frame =>
    cases ran
    obtain ⟨touched, -, kept, moved⟩ := sound.touch frame
    rw [BlockAddressSpace.perform, touched]
    exact ⟨congrArg (fun space => some (CacheAnswer.done, space)) moved, kept⟩
  | tryReserveEntry granted =>
    cases ran
    exact ⟨rfl, sound⟩
  | insertReserved frame folio =>
    obtain ⟨⟨fresh, permit⟩, same⟩ := Option.ite_none_right_eq_some.mp ran
    cases same
    have used : lru.order.length + lru.outside = lru.order.length + 1 + (lru.outside - 1) := by
      omega
    have inserted := @FolioCache.insertReserved_eq T frame folio lru.order lru.capacity fresh
      (by omega)
    refine ⟨?_, nodup_cons.mpr ⟨fresh, distinct⟩, used ▸ fits⟩
    simp [BlockAddressSpace.perform, space, inserted, used]
  | remove frame =>
    rw [LruList.perform] at ran
    cases found : lru.order.lookup frame with
    | none =>
      rw [found] at ran
      cases ran
      refine ⟨?_, sound⟩
      simp [BlockAddressSpace.perform, FolioCache.remove, missing_of_lookup found]
    | some value =>
      obtain ⟨before, after, split, rest⟩ := sound.split found
      rw [found, rest] at ran
      cases ran
      rw [split] at distinct fits
      have removed := @FolioCache.remove_eq T frame value before after lru.capacity distinct
      have used : (before ++ (frame, value) :: after).length + lru.outside =
          (before ++ after).length + (lru.outside + 1) := by
        simp
        omega
      refine ⟨?_, ?_, used ▸ fits⟩
      · simp only [BlockAddressSpace.perform, space, split, removed, used]
        rfl
      · rw [map_append, map_cons, nodup_middle, ← map_append] at distinct
        exact (nodup_cons.mp distinct).2
  | leastRecent =>
    cases ran
    exact ⟨rfl, sound⟩
  | acquire =>
    rw [LruList.perform] at ran
    split_ifs at ran with room <;> cases ran
    · have acquired : lru.space.budget.acquire = some _ := if_pos room
      rw [BlockAddressSpace.perform, acquired]
      exact ⟨rfl, distinct, room⟩
    · have refused : lru.space.budget.acquire = none := if_neg room
      rw [BlockAddressSpace.perform, refused]
      exact ⟨rfl, sound⟩
  | dropPermit =>
    obtain ⟨permit, same⟩ := Option.ite_none_right_eq_some.mp ran
    cases same
    have used : lru.order.length + lru.outside - 1 = lru.order.length + (lru.outside - 1) :=
      Nat.add_sub_assoc permit _
    refine ⟨?_, distinct, used ▸ Nat.le_trans (Nat.sub_le _ _) fits⟩
    simp [BlockAddressSpace.perform, FrameBudget.release, space, used]

theorem Sound.runAll {operations : List (CacheOperation T)} {answers : List (CacheAnswer T)}
    {lru' : LruList T} (ran : runAll LruList.perform lru operations = some (answers, lru')) :
    TgosKits.runAll BlockAddressSpace.perform lru.space operations = some (answers, lru'.space) ∧
      lru'.Sound := by
  induction operations generalizing lru answers with
  | nil =>
    cases ran
    exact ⟨rfl, sound⟩
  | cons operation rest ih =>
    simp only [TgosKits.runAll, Option.bind_eq_bind, Option.bind_eq_some_iff, Prod.exists] at ran
    obtain ⟨answer, middle, step, later, final, ranRest, same⟩ := ran
    cases same
    obtain ⟨performed, sound⟩ := sound.perform step
    obtain ⟨performedRest, sound⟩ := ih sound ranRest
    exact ⟨by simp [TgosKits.runAll, performed, performedRest], sound⟩

end LruList

namespace BlockAddressSpace

/-- The chain of the entries, from both ends: every frame of the list names the frame
before and behind it. -/
structure Linked (folios : FolioCache T) (order : List (UInt64 × T)) : Prop where
  distinct : (order.map Prod.fst).Nodup
  entry : ∀ before frame folio after, order = before ++ (frame, folio) :: after →
    folios.entries frame =
      some ⟨folio, before.getLast?.map Prod.fst, after.head?.map Prod.fst⟩
  absent : ∀ frame, frame ∉ order.map Prod.fst → folios.entries frame = none
  mostRecent : folios.mostRecent = order.head?.map Prod.fst
  leastRecent : folios.leastRecent = order.getLast?.map Prod.fst

/-- Whatever the block cache performs, no expectation fails, the index answers as the list
does, and there is room in it for every permit that is held outside. -/
theorem cache_is_lru_list {capacity : Nat} {operations : List (CacheOperation T)}
    {answers : List (CacheAnswer T)} {lru : LruList T}
    (admitted : runAll LruList.perform ⟨[], 0, max capacity 1⟩ operations = some (answers, lru)) :
    ∃ space, runAll perform (withCapacity capacity) operations = some (answers, space) ∧
      Linked space.folios lru.order ∧ space.folios.len + space.outside = space.budget.used ∧
      (0 < space.outside → space.folios.isFull = false) := by
  have start : LruList.Sound (T := T) ⟨[], 0, max capacity 1⟩ := ⟨nodup_nil, Nat.zero_le _⟩
  obtain ⟨ran, distinct, fits⟩ := start.runAll admitted
  refine ⟨_, ran, ⟨distinct, ?_, ?_, rfl, rfl⟩, rfl, fun permit => ?_⟩
  · intro before frame folio after split
    rw [LruList.space, split]
    exact entry_eq (split ▸ distinct)
  · exact fun frame => entryIn_eq_none
  · have outside : 0 < lru.outside := permit
    refine decide_eq_false (Nat.not_le.mpr ?_)
    exact Nat.lt_of_lt_of_le (Nat.lt_add_of_pos_right outside) fits

/-- The middle one of three folios is touched, and then the one behind it is removed. -/
theorem cache_of_three_folios : ∃ space, runAll perform (withCapacity 3)
      [.acquire, .insertReserved 1 'a', .acquire, .insertReserved 2 'b', .acquire,
        .tryReserveEntry true, .insertReserved 3 'c', .touch 2, .leastRecent, .remove 3, .acquire,
        .getMut 1, .leastRecent, .dropPermit] =
    some ([.granted true, .done, .granted true, .done, .granted true, .granted true, .done, .done,
      .frame (some 1), .folio (some 'c'), .granted false, .folio (some 'a'), .frame (some 2),
      .done], space) ∧ Linked space.folios [(1, 'a'), (2, 'b')] :=
  (@cache_is_lru_list Char 3 _ _ ⟨[(1, 'a'), (2, 'b')], 0, 3⟩ (by rfl)).imp fun _ outcome =>
    ⟨outcome.1, outcome.2.1⟩

variable (pinned : UInt64 × T → Bool)

/-- A folio is looked at once; what is seen of its pins is up to their owners. -/
def evictionCandidate : Nat → FolioCache T → Option (Option (UInt64 × T) × FolioCache T)
  | 0, folios => some (none, folios)
  | rounds + 1, folios =>
    match folios.leastRecent.bind fun frame => (folios.entries frame).map (frame, ·.folio) with
    | none => some (none, folios)
    | some found =>
      if pinned found then folios.touch found.1 >>= evictionCandidate rounds
      else some (some found, folios)

private theorem evictionCandidate_eq {moved rest : List (UInt64 × T)} {capacity : Nat}
    (distinct : ((moved ++ rest).map Prod.fst).Nodup) :
    evictionCandidate pinned rest.length (ofOrder capacity (moved ++ rest)) =
      some ((rest.rdropWhile pinned).getLast?,
        ofOrder capacity (rest.rtakeWhile pinned ++ moved ++ rest.rdropWhile pinned)) := by
  induction rest using reverseRecOn generalizing moved with
  | nil => simp [evictionCandidate]
  | append_singleton rest entry ih =>
    rw [← append_assoc] at distinct ⊢
    have last : (ofOrder capacity (moved ++ rest ++ [entry])).leastRecent = some entry.1 := by
      simp [ofOrder]
    rw [length_append, length_singleton, evictionCandidate, last, Option.bind_some,
      entry_eq distinct, rdropWhile_concat, rtakeWhile_concat]
    cases isPinned : pinned entry with
    | false => simp [isPinned]
    | true =>
      have shifted := ((perm_append_singleton entry _).map _).nodup_iff.mp distinct
      simp only [Option.map_some, isPinned, if_true, touch_eq distinct, append_nil]
      simpa using @ih (entry :: moved) shifted

/-- The least recent folio without a pin is found, and only pinned ones move. -/
theorem candidate_is_least_recent {lru : LruList T} (sound : lru.Sound) :
    evictionCandidate pinned lru.space.folios.len lru.space.folios =
      some ((lru.order.rdropWhile pinned).getLast?, ofOrder lru.capacity
        (lru.order.rtakeWhile pinned ++ lru.order.rdropWhile pinned)) := by
  have found := @evictionCandidate_eq T pinned [] lru.order lru.capacity sound.distinct
  rwa [append_nil] at found

theorem pinned_folio_passed : evictionCandidate (·.2 = 'b') 2 (ofOrder 2 [(7, 'a'), (9, 'b')]) =
    some (some (7, 'a'), ofOrder 2 [(9, 'b'), (7, 'a')]) :=
  @candidate_is_least_recent _ _ ⟨[(7, 'a'), (9, 'b')], 0, 2⟩ ⟨by decide, by decide⟩

end BlockAddressSpace

end TgosKits
