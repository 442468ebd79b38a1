import Mathlib.Data.List.Sort

/-!
# Ordered maps as sorted association lists

A map from a linearly ordered key type is a list of entries whose keys increase
strictly.
-/

universe u v

/-- A finite map whose entries stand in strictly increasing key order. -/
structure SortedMap (κ : Type u) (α : Type v) [LinearOrder κ] where
  entries : List (κ × α)
  sorted : entries.Pairwise (fun left right => left.1 < right.1)

namespace SortedMap

open List

variable {κ : Type u} {α : Type v} [LinearOrder κ]

def empty : SortedMap κ α := ⟨[], List.Pairwise.nil⟩

def get? (map : SortedMap κ α) (key : κ) : Option α :=
  (map.entries.find? (fun entry => decide (entry.1 = key))).map Prod.snd

variable {key low high other : κ} {value : α} {entry : κ × α} {map : SortedMap κ α}
  {admits : κ → Bool}

/-- Entries below a key, one with the key and entries above it are in order. -/
private theorem insert_sorted (map : SortedMap κ α) (key : κ) (value : α) :
    (map.entries.filter (fun entry => decide (entry.1 < key)) ++
      (key, value) :: map.entries.filter (fun entry => decide (key < entry.1))).Pairwise
        fun left right => left.1 < right.1 := by
  refine pairwise_append.mpr ⟨map.sorted.filter _, pairwise_cons.mpr ⟨?_, map.sorted.filter _⟩, ?_⟩
  · simp
  · simp only [mem_filter, mem_cons, decide_eq_true_eq]
    rintro left ⟨_, below⟩ right (rfl | ⟨_, above⟩)
    · exact below
    · exact below.trans above

/-- The map with the key bound to the value; an old binding of the key is dropped. -/
def insert (map : SortedMap κ α) (key : κ) (value : α) : SortedMap κ α :=
  ⟨_, map.insert_sorted key value⟩

theorem entries_insert {before after : List (κ × α)} (value : α)
    (items : map.entries = before ++ after) (earlier : ∀ item ∈ before, item.1 < key)
    (later : ∀ item ∈ after, key < item.1) :
    (map.insert key value).entries = before ++ (key, value) :: after := by
  simp only [insert, items, filter_append]
  rw [filter_eq_self.mpr, filter_eq_nil_iff.mpr, filter_eq_nil_iff.mpr, filter_eq_self.mpr]
  · simp
  · simpa using fun item value member => later (item, value) member
  · simpa using fun item value member => (earlier (item, value) member).le
  · simpa using fun item value member => (later (item, value) member).le
  · simpa using fun item value member => earlier (item, value) member

def erase (map : SortedMap κ α) (key : κ) : SortedMap κ α :=
  ⟨map.entries.filter (fun entry => decide (entry.1 ≠ key)), map.sorted.filter _⟩

def values (map : SortedMap κ α) : List α := map.entries.map Prod.snd

/-- The last entry with an admitted key. -/
def lastWhere (map : SortedMap κ α) (admits : κ → Bool) : Option (κ × α) :=
  (map.entries.filter (fun entry => admits entry.1)).getLast?

def firstWhere (map : SortedMap κ α) (admits : κ → Bool) : Option (κ × α) :=
  (map.entries.filter (fun entry => admits entry.1)).head?

def lastBelow (map : SortedMap κ α) (key : κ) : Option (κ × α) :=
  map.lastWhere (fun other => decide (other < key))

def lastAtMost (map : SortedMap κ α) (key : κ) : Option (κ × α) :=
  map.lastWhere (fun other => decide (other ≤ key))

def firstFrom (map : SortedMap κ α) (key : κ) : Option (κ × α) :=
  map.firstWhere (fun other => decide (key ≤ other))

def firstIn (map : SortedMap κ α) (low high : κ) : Option (κ × α) :=
  map.firstWhere (fun other => decide (low ≤ other ∧ other < high))

def between (map : SortedMap κ α) (low high : κ) : List (κ × α) :=
  map.entries.filter (fun entry => decide (low ≤ entry.1 ∧ entry.1 < high))

/-! ## Membership and extensionality -/

theorem get?_eq_some_iff : map.get? key = some value ↔ (key, value) ∈ map.entries := by
  obtain ⟨items, itemsSorted⟩ := map
  simp only [get?, Option.map_eq_some_iff]
  induction items with
  | nil =>
    simp
  | cons head rest ih =>
    obtain ⟨headBelow, restSorted⟩ := pairwise_cons.mp itemsSorted
    have restIff := ih restSorted
    by_cases headEq : head.1 = key
    · have restNe : (key, value) ∉ rest := by
        intro member
        exact absurd (headBelow _ member) (by simp [headEq])
      simp [headEq, restNe, Prod.ext_iff, eq_comm]
    · have headNe : (key, value) ≠ head := by
        rintro rfl
        exact headEq rfl
      simpa [find?_cons, headEq, headNe] using restIff

@[simp]
theorem get?_empty (key : κ) : (empty : SortedMap κ α).get? key = none := rfl

@[simp]
theorem get?_insert (map : SortedMap κ α) (key other : κ) (value : α) :
    (map.insert key value).get? other = if other = key then some value else map.get? other := by
  apply Option.ext
  intro candidate
  rw [get?_eq_some_iff]
  simp only [insert, mem_append, mem_cons, mem_filter, decide_eq_true_eq, Prod.mk.injEq]
  split_ifs with equal
  · simp [equal, eq_comm]
  · simp [equal, get?_eq_some_iff, ← and_or_left, lt_or_gt_of_ne equal]

@[simp]
theorem get?_erase (map : SortedMap κ α) (key other : κ) : (map.erase key).get? other =
      if other = key then none else map.get? other := by
  apply Option.ext
  intro candidate
  rw [get?_eq_some_iff]
  simp only [erase, mem_filter, ne_eq, decide_not, Bool.not_eq_true', decide_eq_false_iff_not]
  split_ifs with equal
  · simp [equal]
  · simp [equal, get?_eq_some_iff]

theorem ne_of_get?_eq_none (absent : map.get? key = none) (member : entry ∈ map.entries) :
    entry.1 ≠ key := by
  rintro rfl
  rw [get?_eq_some_iff.mpr member] at absent
  cases absent

theorem ext_get? {first second : SortedMap κ α} (same : ∀ key, first.get? key = second.get? key) :
    first = second := by
  have members : ∀ entry, entry ∈ first.entries ↔ entry ∈ second.entries := by
    rintro ⟨key, value⟩
    rw [← get?_eq_some_iff, ← get?_eq_some_iff, same key]
  have nodup : ∀ map : SortedMap κ α, map.entries.Nodup :=
    fun map => map.sorted.imp (fun below equal => absurd (equal ▸ below) (lt_irrefl _))
  have permutation : first.entries.Perm second.entries :=
    (perm_ext_iff_of_nodup (nodup first) (nodup second)).mpr members
  have listsEqual : first.entries = second.entries := permutation.eq_of_pairwise
      (fun _ _ _ _ below above => absurd (below.trans above) (lt_irrefl _))
      first.sorted second.sorted
  obtain ⟨firstItems, firstSorted⟩ := first
  obtain ⟨secondItems, secondSorted⟩ := second
  cases listsEqual
  rfl

theorem insert_erase_self (map : SortedMap κ α) (key : κ) (value : α) :
    (map.erase key).insert key value = map.insert key value := by
  apply ext_get?
  intro other
  simp only [get?_insert, get?_erase]
  split_ifs <;> rfl

theorem insert_of_get? (bound : map.get? key = some value) : map.insert key value = map := by
  apply ext_get?
  intro other
  rw [get?_insert]
  split_ifs with same
  · rw [same, bound]
  · rfl

theorem mem_values_iff : value ∈ map.values ↔ ∃ key, map.get? key = some value := by
  simp [values, get?_eq_some_iff]

theorem mem_between_iff : entry ∈ map.between low high ↔
      map.get? entry.1 = some entry.2 ∧ low ≤ entry.1 ∧ entry.1 < high := by
  rw [get?_eq_some_iff]
  simp [between]

/-! ## Neighbour queries -/

private theorem last_is_greatest {items : List (κ × α)}
    (itemsSorted : items.Pairwise (fun left right => left.1 < right.1))
    (isLast : items.getLast? = some entry) : entry ∈ items ∧ ∀ item ∈ items, item.1 ≤ entry.1 := by
  obtain ⟨initial, rfl⟩ := getLast?_eq_some_iff.mp isLast
  refine ⟨by simp, ?_⟩
  intro item member
  rcases mem_append.mp member with early | last
  · exact (pairwise_append.mp itemsSorted).2.2 item early entry (by simp) |>.le
  · exact (mem_singleton.mp last) ▸ le_rfl

private theorem head_is_least {items : List (κ × α)}
    (itemsSorted : items.Pairwise (fun left right => left.1 < right.1))
    (isHead : items.head? = some entry) : entry ∈ items ∧ ∀ item ∈ items, entry.1 ≤ item.1 := by
  obtain ⟨rest, rfl⟩ := head?_eq_some_iff.mp isHead
  refine ⟨by simp, ?_⟩
  intro item member
  rcases mem_cons.mp member with equal | later
  · exact equal ▸ le_rfl
  · exact ((pairwise_cons.mp itemsSorted).1 item later).le

theorem lastWhere_eq_some (found : map.lastWhere admits = some entry) :
    map.get? entry.1 = some entry.2 ∧ admits entry.1 ∧
      ∀ other value, map.get? other = some value → admits other → other ≤ entry.1 := by
  obtain ⟨member, greatest⟩ := last_is_greatest (map.sorted.filter _) found
  simp only [mem_filter] at member greatest
  exact ⟨get?_eq_some_iff.mpr member.1, member.2, fun other value bound admitted =>
      greatest (other, value) ⟨get?_eq_some_iff.mp bound, admitted⟩⟩

theorem firstWhere_eq_some (found : map.firstWhere admits = some entry) :
    map.get? entry.1 = some entry.2 ∧ admits entry.1 ∧
      ∀ other value, map.get? other = some value → admits other → entry.1 ≤ other := by
  obtain ⟨member, least⟩ := head_is_least (map.sorted.filter _) found
  simp only [mem_filter] at member least
  exact ⟨get?_eq_some_iff.mpr member.1, member.2, fun other value bound admitted =>
      least (other, value) ⟨get?_eq_some_iff.mp bound, admitted⟩⟩

private theorem not_admitted (noEntry : map.entries.filter (fun entry => admits entry.1) = [])
    (bound : map.get? other = some value) : ¬ admits other := by
  intro admitted
  have member : (other, value) ∈ map.entries.filter (fun entry => admits entry.1) :=
    mem_filter.mpr ⟨get?_eq_some_iff.mp bound, admitted⟩
  simp [noEntry] at member

theorem lastWhere_eq_none (missing : map.lastWhere admits = none)
    (bound : map.get? other = some value) : ¬ admits other :=
  not_admitted (getLast?_eq_none_iff.mp missing) bound

theorem firstWhere_eq_none (missing : map.firstWhere admits = none)
    (bound : map.get? other = some value) : ¬ admits other :=
  not_admitted (head?_eq_none_iff.mp missing) bound

theorem firstWhere_eq_some_iff : map.firstWhere admits = some entry ↔
      map.get? entry.1 = some entry.2 ∧ admits entry.1 ∧
        ∀ other value, map.get? other = some value → admits other → entry.1 ≤ other := by
  constructor
  · exact firstWhere_eq_some
  · rintro ⟨bound, admitted, least⟩
    cases found : map.firstWhere admits with
    | none => exact absurd admitted (firstWhere_eq_none found bound)
    | some first =>
      obtain ⟨firstBound, firstAdmitted, firstLeast⟩ := firstWhere_eq_some found
      have sameKey : first.1 = entry.1 := le_antisymm (firstLeast entry.1 entry.2 bound admitted)
          (least first.1 first.2 firstBound firstAdmitted)
      have sameValue : first.2 = entry.2 := by
        rw [sameKey, bound, Option.some.injEq] at firstBound
        exact firstBound.symm
      rw [Prod.ext sameKey sameValue]

theorem lastBelow_eq_some (found : map.lastBelow key = some entry) :
    map.get? entry.1 = some entry.2 ∧ entry.1 < key ∧
      ∀ other value, map.get? other = some value → other < key → other ≤ entry.1 := by
  simpa only [decide_eq_true_eq] using lastWhere_eq_some found

theorem lastBelow_eq_none (missing : map.lastBelow key = none)
    (bound : map.get? other = some value) : key ≤ other := by
  simpa using lastWhere_eq_none missing bound

theorem lastAtMost_eq_some (found : map.lastAtMost key = some entry) :
    map.get? entry.1 = some entry.2 ∧ entry.1 ≤ key ∧
      ∀ other value, map.get? other = some value → other ≤ key → other ≤ entry.1 := by
  simpa only [decide_eq_true_eq] using lastWhere_eq_some found

theorem firstFrom_eq_some (found : map.firstFrom key = some entry) :
    map.get? entry.1 = some entry.2 ∧ key ≤ entry.1 ∧
      ∀ other value, map.get? other = some value → key ≤ other → entry.1 ≤ other := by
  simpa only [decide_eq_true_eq] using firstWhere_eq_some found

theorem firstFrom_eq_none (missing : map.firstFrom key = none)
    (bound : map.get? other = some value) : other < key := by
  simpa using firstWhere_eq_none missing bound

theorem firstIn_eq_some (found : map.firstIn low high = some entry) :
    map.get? entry.1 = some entry.2 ∧ low ≤ entry.1 ∧
      ∀ other value, map.get? other = some value → low ≤ other → entry.1 ≤ other := by
  obtain ⟨bound, admitted, least⟩ := firstWhere_eq_some found
  simp only [decide_eq_true_eq] at admitted least
  refine ⟨bound, admitted.1, ?_⟩
  intro other value otherBound otherAbove
  by_cases otherBelow : other < high
  · exact least other value otherBound ⟨otherAbove, otherBelow⟩
  · exact (admitted.2.trans_le (not_lt.mp otherBelow)).le

theorem firstIn_eq_none (missing : map.firstIn low high = none)
    (bound : map.get? other = some value) (above : low ≤ other) : high ≤ other := by
  have rejected := firstWhere_eq_none missing bound
  simp only [decide_eq_true_eq, not_and, not_lt] at rejected
  exact rejected above

theorem erase_length_lt (bound : map.get? key = some value) :
    (map.erase key).entries.length < map.entries.length := by
  apply length_filter_lt_length_iff_exists.mpr
  exact ⟨(key, value), get?_eq_some_iff.mp bound, by simp⟩

end SortedMap
