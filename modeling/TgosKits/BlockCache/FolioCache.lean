import Mathlib.Data.List.Nodup

/-!
# The index of cached folios

The frames of a device cache stand in a hash map, read here as a function and a length.
The order of their use is a doubly linked list through the entries of that map, with frame
numbers as links.
-/

namespace TgosKits

open Function List Prod Option

structure CachedFolio (T : Type) where
  folio : T
  moreRecent : Option UInt64
  lessRecent : Option UInt64

/-- Folios linked from the most to the least recent. -/
structure FolioCache (T : Type) where
  entries : UInt64 → Option (CachedFolio T)
  len : Nat
  capacity : Nat
  mostRecent : Option UInt64
  leastRecent : Option UInt64

namespace FolioCache

variable {T : Type}

def new (capacity : Nat) : FolioCache T := ⟨fun _ => none, 0, capacity, none, none⟩

variable (cache : FolioCache T)

def isFull : Bool := cache.capacity ≤ cache.len

/-- Change an entry that is expected to be there; otherwise the code panics. -/
def modifyEntry (frame : UInt64) (change : CachedFolio T → CachedFolio T) :
    Option (FolioCache T) :=
  (cache.entries frame).map fun entry =>
    { cache with entries := update cache.entries frame (some (change entry)) }

/-- `lessRecent` follows `moreRecent`, or starts the list. -/
def setLess (moreRecent lessRecent : Option UInt64) : Option (FolioCache T) :=
  match moreRecent with
  | some frame => cache.modifyEntry frame ({ · with lessRecent })
  | none => some { cache with mostRecent := lessRecent }

/-- `moreRecent` precedes `lessRecent`, or ends the list. -/
def setMore (moreRecent lessRecent : Option UInt64) : Option (FolioCache T) :=
  match lessRecent with
  | some frame => cache.modifyEntry frame ({ · with moreRecent })
  | none => some { cache with leastRecent := moreRecent }

/-- Link the two neighbours of an entry to each other. -/
def bypass (moreRecent lessRecent : Option UInt64) : Option (FolioCache T) := do
  let cache ← cache.setLess moreRecent lessRecent
  cache.setMore moreRecent lessRecent

/-- Make `frame` the head, in front of the previous one. -/
def lead (frame : UInt64) (previous : Option UInt64) : Option (FolioCache T) := do
  let cache ← cache.setMore (some frame) previous
  some { cache with mostRecent := some frame }

def touch (frame : UInt64) : Option (FolioCache T) :=
  if cache.mostRecent = some frame then some cache
  else match cache.entries frame with
    | none => some cache
    | some entry => do
      let cache ← cache.bypass entry.moreRecent entry.lessRecent
      let previous := cache.mostRecent
      let cache ← cache.modifyEntry frame
        ({ · with moreRecent := none, lessRecent := previous })
      cache.lead frame previous

def getMut (frame : UInt64) : Option (Option T × FolioCache T) := do
  let cache ← cache.touch frame
  some ((cache.entries frame).map CachedFolio.folio, cache)

/-- The two conditions are debug assertions. -/
def insertReserved (frame : UInt64) (folio : T) : Option (FolioCache T) :=
  if (cache.entries frame).isSome || cache.isFull then none
  else
    let previous := cache.mostRecent
    let entries := update cache.entries frame (some ⟨folio, none, previous⟩)
    lead { cache with entries, len := cache.len + 1 } frame previous

def remove (frame : UInt64) : Option (Option T × FolioCache T) :=
  match cache.entries frame with
  | none => some (none, cache)
  | some entry => do
    let entries := update cache.entries frame none
    let cache ← bypass { cache with entries, len := cache.len - 1 } entry.moreRecent
      entry.lessRecent
    some (some entry.folio, cache)

/-! ## The links of a list of folios -/

/-- The entries of `order`, linked from the most to the least recent. -/
def entryIn (moreRecent : Option UInt64) : List (UInt64 × T) → UInt64 → Option (CachedFolio T)
  | [] => fun _ => none
  | (frame, folio) :: rest =>
    update (entryIn (some frame) rest) frame (some ⟨folio, moreRecent, rest.head?.map Prod.fst⟩)

def ofOrder (capacity : Nat) (order : List (UInt64 × T)) : FolioCache T :=
  ⟨entryIn none order, order.length, capacity, order.head?.map Prod.fst,
    order.getLast?.map Prod.fst⟩

def relink (change : CachedFolio T → CachedFolio T) (entries : UInt64 → Option (CachedFolio T)) :
    Option UInt64 → UInt64 → Option (CachedFolio T)
  | none => entries
  | some frame => update entries frame ((entries frame).map change)

variable {cache} {frame : UInt64} {value : T} {order before after : List (UInt64 × T)}
  {moreRecent lessRecent node : Option UInt64} {change : CachedFolio T → CachedFolio T}
  {entries : UInt64 → Option (CachedFolio T)} {capacity len : Nat}

theorem isSome_relink : (relink change entries node frame).isSome = (entries frame).isSome := by
  cases node with
  | none => rfl
  | some other => by_cases same : frame = other <;> simp [relink, same]

theorem relink_update (apart : frame ∉ node) (entry : Option (CachedFolio T)) :
    relink change (update entries frame entry) node =
      update (relink change entries node) frame entry := by
  cases node with
  | none => rfl
  | some other =>
    have different : other ≠ frame := fun same => apart (congrArg some same)
    rw [relink, relink, update_of_ne different, update_comm different]

theorem isSome_entryIn : (entryIn moreRecent order frame).isSome ↔ frame ∈ order.map fst := by
  induction order generalizing moreRecent with
  | nil => simp [entryIn]
  | cons entry rest ih =>
    rw [entryIn, update_apply, map_cons, mem_cons]
    split_ifs with same
    · simp [same]
    · rw [ih, or_iff_right same]

theorem entryIn_eq_none (absent : frame ∉ order.map fst) : entryIn moreRecent order frame = none :=
  not_isSome_iff_eq_none.mp (mt isSome_entryIn.mp absent)

theorem entryIn_split (fresh : frame ∉ before.map fst) :
    entryIn moreRecent (before ++ (frame, value) :: after) frame =
      some ⟨value, (before.getLast?.map fst).or moreRecent, after.head?.map fst⟩ := by
  induction before generalizing moreRecent with
  | nil => simp [entryIn]
  | cons entry rest ih =>
    rw [map_cons, mem_cons, not_or] at fresh
    rw [cons_append, entryIn, update_of_ne fresh.1, ih fresh.2, getLast?_cons]
    cases rest.getLast? <;> rfl

/-- Only the first entry names what comes before the list. -/
theorem entryIn_more : entryIn moreRecent order =
    relink ({ · with moreRecent }) (entryIn node order) (order.head?.map fst) := by
  cases order with
  | nil => rfl
  | cons entry rest => simp [entryIn, relink]

theorem apart_head (fresh : frame ∉ order.map fst) : frame ∉ order.head?.map fst :=
  fun isHead => fresh (mem_of_head? (head?_map.trans isHead))

private theorem entryIn_bypass (distinct : ((before ++ (frame, value) :: after).map fst).Nodup)
    (entry : Option (CachedFolio T)) :
    relink ({ · with moreRecent := (before.getLast?.map fst).or moreRecent })
      (relink ({ · with lessRecent := after.head?.map fst })
        (update (entryIn moreRecent (before ++ (frame, value) :: after)) frame entry)
        (before.getLast?.map fst)) (after.head?.map fst) =
      update (entryIn moreRecent (before ++ after)) frame entry := by
  induction before generalizing moreRecent with
  | nil =>
    have apart := apart_head (nodup_cons.mp distinct).1
    simp only [nil_append, getLast?_nil, map_none, none_or, entryIn, update_idem]
    rw [relink, relink_update apart, ← entryIn_more]
  | cons first rest ih =>
    have later : first.1 ∉ (rest ++ (frame, value) :: after).map fst ∧ _ := nodup_cons.mp distinct
    simp only [map_append, map_cons, mem_append, mem_cons, not_or] at later
    have apart := apart_head later.1.2.2
    simp only [cons_append, entryIn, getLast?_cons]
    rw [update_comm later.1.2.1, update_comm later.1.2.1, ← ih (by simpa using later.2)]
    cases lastEq : rest.getLast? with
    | none =>
      rw [getLast?_eq_none_iff.mp lastEq, getD_none, map_some, relink, update_self,
        update_idem, relink_update apart]
      rfl
    | some last =>
      have notLast : first.1 ∉ some last.1 := fun same =>
        later.1.1 (mem_map.mpr ⟨last, mem_of_getLast? lastEq, some_inj.mp same⟩)
      rw [getD_some, map_some, relink_update notLast, relink_update apart]
      cases rest with
      | nil => cases lastEq
      | cons => rfl

/-! ## The operations -/

theorem modifyEntry_eq (change : CachedFolio T → CachedFolio T)
    (known : (cache.entries frame).isSome) : cache.modifyEntry frame change =
      some { cache with entries := relink change cache.entries (some frame) } := by
  obtain ⟨entry, found⟩ := isSome_iff_exists.mp known
  rw [modifyEntry, found, relink, found]
  rfl

theorem setMore_eq (known : ∀ frame ∈ lessRecent, (cache.entries frame).isSome) :
    cache.setMore moreRecent lessRecent = some { cache with
      entries := relink ({ · with moreRecent }) cache.entries lessRecent
      leastRecent := if lessRecent = none then moreRecent else cache.leastRecent } := by
  cases lessRecent with
  | none => rfl
  | some frame => exact modifyEntry_eq _ (known frame rfl)

private theorem bypass_eq (more : ∀ frame ∈ moreRecent, (cache.entries frame).isSome)
    (less : ∀ frame ∈ lessRecent, (cache.entries frame).isSome) :
    cache.bypass moreRecent lessRecent = some { cache with
      entries := relink ({ · with moreRecent }) (relink ({ · with lessRecent }) cache.entries
        moreRecent) lessRecent
      mostRecent := if moreRecent = none then lessRecent else cache.mostRecent
      leastRecent := if lessRecent = none then moreRecent else cache.leastRecent } := by
  have first : cache.setLess moreRecent lessRecent = some { cache with
      entries := relink ({ · with lessRecent }) cache.entries moreRecent
      mostRecent := if moreRecent = none then lessRecent else cache.mostRecent } := by
    cases moreRecent with
    | none => rfl
    | some frame => exact modifyEntry_eq _ (more frame rfl)
  rw [bypass, first]
  exact setMore_eq (by simpa only [isSome_relink] using less)

theorem isSome_of_mem {other : UInt64} {entry : Option (CachedFolio T)}
    (member : other ∈ order.map fst) (different : other ≠ frame) :
    (update (entryIn moreRecent order) frame entry other).isSome := by
  rw [update_of_ne different]
  exact isSome_entryIn.mpr member

theorem lead_eq (fresh : frame ∉ order.map fst) : lead { ofOrder capacity order with
      entries := update (entryIn none order) frame
        (some ⟨value, none, order.head?.map fst⟩), len } frame (order.head?.map fst) =
      some { ofOrder capacity ((frame, value) :: order) with len } := by
  rw [lead, setMore_eq]
  · simp only [relink_update (apart_head fresh), ← entryIn_more]
    cases order <;> rfl
  · intro other isHead
    have member : other ∈ order.map fst := mem_of_head? (head?_map.trans isHead)
    exact isSome_of_mem member (ne_of_mem_of_not_mem member fresh)

theorem insertReserved_eq (fresh : frame ∉ order.map fst) (room : order.length < capacity) :
    (ofOrder capacity order).insertReserved frame value =
      some (ofOrder capacity ((frame, value) :: order)) := by
  rw [insertReserved, if_neg]
  · exact lead_eq fresh
  · have absent : (ofOrder capacity order).entries frame = none := entryIn_eq_none fresh
    have notFull : (ofOrder capacity order).isFull = false := decide_eq_false (Nat.not_le.mpr room)
    simp [absent, notFull]

variable (distinct : ((before ++ (frame, value) :: after).map Prod.fst).Nodup)
include distinct

theorem fresh_of_nodup : frame ∉ (before ++ after).map fst := by
  rw [map_append, map_cons, nodup_middle, ← map_append] at distinct
  exact (nodup_cons.mp distinct).1

theorem entry_eq : (ofOrder capacity (before ++ (frame, value) :: after)).entries frame =
    some ⟨value, before.getLast?.map fst, after.head?.map fst⟩ := by
  have fresh := fresh_of_nodup distinct
  rw [map_append, mem_append, not_or] at fresh
  exact (entryIn_split fresh.1).trans (by rw [or_none])

theorem bypass_ofOrder (entry : Option (CachedFolio T)) :
    bypass { ofOrder capacity (before ++ (frame, value) :: after) with
      entries := update (entryIn none (before ++ (frame, value) :: after)) frame entry, len }
      (before.getLast?.map fst) (after.head?.map fst) =
    some { ofOrder capacity (before ++ after) with
      entries := update (entryIn none (before ++ after)) frame entry, len } := by
  have fresh := fresh_of_nodup distinct
  have known : ∀ other ∈ (before ++ after).map fst, (update (entryIn none
      (before ++ (frame, value) :: after)) frame entry other).isSome := fun other member =>
    isSome_of_mem (by grind) (ne_of_mem_of_not_mem member fresh)
  rw [map_append] at known
  rw [bypass_eq]
  · have bypassed := @entryIn_bypass T frame value before after none distinct entry
    rw [or_none] at bypassed
    rw [bypassed]
    cases before with
    | nil => cases after <;> simp [ofOrder]
    | cons => cases after <;> simp [ofOrder, getLast?_append, getLast?_cons]
  · intro other isLast
    exact known other (mem_append_left _ (mem_of_getLast? (getLast?_map.trans isLast)))
  · intro other isHead
    exact known other (mem_append_right _ (mem_of_head? (head?_map.trans isHead)))

theorem remove_eq : (ofOrder capacity (before ++ (frame, value) :: after)).remove frame =
    some (some value, ofOrder capacity (before ++ after)) := by
  have absent : update (entryIn none (before ++ after)) frame none = _ :=
    update_eq_self_iff.mpr (entryIn_eq_none (fresh_of_nodup distinct)).symm
  have passed := @bypass_ofOrder T frame value before after capacity
    ((before ++ (frame, value) :: after).length - 1) distinct none
  rw [absent] at passed
  rw [remove, entry_eq distinct]
  refine (congrArg (· >>= fun cache => some (some value, cache)) passed).trans ?_
  simp [ofOrder]

theorem touch_eq : (ofOrder capacity (before ++ (frame, value) :: after)).touch frame =
    some (ofOrder capacity ((frame, value) :: (before ++ after))) := by
  have fresh := fresh_of_nodup distinct
  rw [touch]
  split_ifs with first
  · cases before with
    | nil => rfl
    | cons entry rest =>
      simp only [ofOrder, cons_append, head?_cons, map_some, some.injEq] at first
      simp [first] at fresh
  · have passed := @bypass_ofOrder T frame value before after capacity
      (before ++ (frame, value) :: after).length distinct
      (some ⟨value, before.getLast?.map fst, after.head?.map fst⟩)
    have own := @entry_eq T frame value before after capacity distinct
    rw [update_eq_self_iff.mpr own.symm] at passed
    rw [own]
    refine (congrArg (· >>= _) passed).trans ?_
    simp only [modifyEntry, update_self, update_idem, map_some, bind_eq_bind, bind_some]
    refine (lead_eq fresh).trans ?_
    simp [ofOrder, Nat.add_assoc]

end FolioCache

end TgosKits
