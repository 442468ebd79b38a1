import TgosKits.Library.RadixGrow
import TgosKits.PageTable.Map
import TgosKits.PageTable.Removal

/-! # Mapping one leaf -/

namespace TgosKits

open RadixTree RadixTree.Grows

variable {Pte Config : Type}

/-- From a request on, the allocator hands out every frame once, none of those in
use, and only frames the entry format can point to. -/
structure FreshFrames (format : PteFormat Pte Config)
    (alloc : Nat → Option Nat) (first : Nat) (used : List Nat) : Prop where
  notUsed : ∀ request, first ≤ request → ∀ frame, alloc request = some frame → frame ∉ used
  distinct : ∀ request other, first ≤ request → first ≤ other → ∀ frame,
    alloc request = some frame → alloc other = some frame → request = other
  linkable : ∀ request, first ≤ request → ∀ frame, alloc request = some frame → ∀ level, 1 < level →
    format.entryKind level (format.newTable frame) = .table frame

/-- The frames handed out for a sequence of requests. -/
structure Granted (alloc : Nat → Option Nat) (first last : Nat) (fresh : List Nat) : Prop where
  order : first ≤ last
  nodup : fresh.Nodup
  answered : ∀ frame ∈ fresh, ∃ request, first ≤ request ∧ request < last ∧
    alloc request = some frame

section Allocator

variable {format : PteFormat Pte Config} {alloc : Nat → Option Nat}
  {first middle last : Nat} {used used' fresh fresh' : List Nat}

theorem Granted.nothing (alloc : Nat → Option Nat) (order : first ≤ last) :
    Granted alloc first last [] :=
  ⟨order, List.nodup_nil, by simp⟩

variable (freshFrames : FreshFrames format alloc first used)
include freshFrames

theorem Granted.apart (granted : Granted alloc first last fresh) :
    ∀ frame ∈ fresh, frame ∉ used := by
  intro frame member
  rcases granted.answered frame member with ⟨request, lower, _, answer⟩
  exact freshFrames.notUsed request lower frame answer

theorem FreshFrames.advance (granted : Granted alloc first last fresh)
    (grown : ∀ frame, frame ∈ used' → frame ∈ used ∨ frame ∈ fresh) :
    FreshFrames format alloc last used' where
  notUsed := by
    intro request lower frame answer member
    have order := granted.order
    rcases grown frame member with old | new
    · exact freshFrames.notUsed request (by omega) frame answer old
    · rcases granted.answered frame new with ⟨earlier, low, high, same⟩
      have equal := freshFrames.distinct request earlier (by omega) low frame answer same
      omega
  distinct := by
    intro request other lower otherLower
    have order := granted.order
    exact freshFrames.distinct request other (by omega) (by omega)
  linkable := by
    intro request lower
    have order := granted.order
    exact freshFrames.linkable request (by omega)

theorem Granted.append (granted : Granted alloc first middle fresh)
    (granted' : Granted alloc middle last fresh') : Granted alloc first last (fresh ++ fresh') where
  order := granted.order.trans granted'.order
  nodup := by
    apply List.Nodup.append granted.nodup granted'.nodup
    intro frame early late
    rcases granted.answered frame early with ⟨request, low, high, answer⟩
    rcases granted'.answered frame late with ⟨other, otherLow, _, same⟩
    have equal := freshFrames.distinct request other low (by omega) frame answer same
    omega
  answered := by
    intro frame member
    have order := granted.order
    have order' := granted'.order
    rcases List.mem_append.mp member with early | late
    · rcases granted.answered frame early with ⟨request, low, high, answer⟩
      exact ⟨request, low, by omega, answer⟩
    · rcases granted'.answered frame late with ⟨request, low, high, answer⟩
      exact ⟨request, by omega, high, answer⟩

end Allocator

namespace RadixTree

variable {Entry : Type} (tree : RadixTree Entry)

/-- The walk of an address goes through tables down to a level. -/
def PathTo (memory : FrameMemory Entry) (bottom : Nat) : Nat → Nat → Nat → Prop
  | 0, _, _ => True
  | level + 1, frame, addr =>
    level + 1 ≤ bottom ∨ ∃ child, tree.kind (level + 1)
          (memory frame (tree.index (level + 1) addr)) = .table child ∧
        PathTo memory bottom level child addr

variable {tree} {memory memory' : FrameMemory Entry} {bottom level frame addr base : Nat}

section

variable (path : tree.PathTo memory bottom level frame addr)
include path

theorem PathTo.mono (kept : ∀ other ∈ tree.frames memory level frame, ∀ index,
      tree.unused (memory other index) = false →
      memory' other index = memory other index) : tree.PathTo memory' bottom level frame addr := by
  induction level generalizing frame with
  | zero => trivial
  | succ level ih =>
    rcases path with arrived | ⟨child, isTable, below⟩
    · exact .inl arrived
    have used : tree.unused (memory frame (tree.index (level + 1) addr)) = false := by
      rw [← Bool.not_eq_true]
      intro unused
      rw [(tree.kind_eq_empty (level + 1) _).mpr unused] at isTable
      cases isTable
    refine .inr ⟨child, ?_, ih below ?_⟩
    · rw [kept frame frame_mem_frames _ used]
      exact isTable
    · intro other member
      exact kept other (frames_subset_of_table (tree.index_lt _ _) isTable member)

theorem PathTo.level_le {slot : EntrySlot}
    (found : tree.endSlot memory level frame addr = some slot) : slot.level ≤ bottom := by
  induction level generalizing frame with
  | zero => simp [endSlot] at found
  | succ level ih =>
    rcases path with arrived | ⟨child, isTable, below⟩
    · exact (endSlot_level found).2.trans arrived
    · rw [endSlot_of_table isTable] at found
      exact ih below found

end

theorem PathTo.of_selects (path : tree.PathTo memory bottom level frame base)
    (selects : tree.Selects bottom level addr base) :
    tree.PathTo memory bottom level frame addr := by
  induction level generalizing frame with
  | zero => trivial
  | succ level ih =>
    rcases path with arrived | ⟨child, isTable, below⟩
    · exact .inl arrived
    by_cases arrived : level + 1 ≤ bottom
    · exact .inl arrived
    · refine .inr ⟨child, ?_, ih below (fun lower low high => selects lower low (by omega))⟩
      rw [selects (level + 1) (by omega) le_rfl]
      exact isTable

end RadixTree

namespace PteFormat

variable {format : PteFormat Pte Config} {layout : TableMeta}
  {alloc : Nat → Option Nat} {allowHuge : Bool} {config : Config}
  {bottom level frame vaddr paddr : Nat} {tables tables' : PageTables Pte}

/-- A range that a walk maps by one leaf of level `bottom`. -/
structure BlockFits (layout : TableMeta) (allowHuge : Bool) (bottom vaddr paddr : Nat) : Prop where
  positive : 0 < bottom
  aligned : layout.levelSize bottom ∣ vaddr
  here : bottom = 1 ∨ hugeFits layout allowHuge bottom vaddr paddr (layout.levelSize bottom) = true
  above : ∀ level, bottom < level → level ≤ layout.ptLevel →
    hugeFits layout allowHuge level vaddr paddr (layout.levelSize bottom) = false
  vaddrFits : vaddr + layout.levelSize bottom ≤ usizeMax
  paddrFits : paddr + layout.levelSize bottom ≤ usizeMax

def blockEntry (format : PteFormat Pte Config) (bottom paddr : Nat) (config : Config) : Pte :=
  format.newPage paddr config (decide (bottom > 1))

structure BlockOutcome (format : PteFormat Pte Config) (layout : TableMeta)
    (alloc : Nat → Option Nat) (bottom vaddr paddr : Nat) (config : Config)
    (level frame : Nat) (result : Except PagingError Unit)
    (tables tables' : PageTables Pte) (fresh : List Nat) : Prop where
  grows : (format.tree layout).Grows tables.memory tables'.memory level frame fresh
  granted : Granted alloc tables.requests tables'.requests fresh
  failed : ∀ error, result = .error error → ∀ addr,
    (format.tree layout).lookup tables'.memory level frame addr =
      (format.tree layout).lookup tables.memory level frame addr
  wasFree : result = .ok () → ∀ addr, (format.tree layout).Selects bottom level addr vaddr →
    (format.tree layout).lookup tables.memory level frame addr = none
  installed : result = .ok () → ∀ addr, (format.tree layout).Selects bottom level addr vaddr →
    (format.tree layout).lookup tables'.memory level frame addr =
      if format.unused (format.blockEntry bottom paddr config) then none
      else some (bottom, format.blockEntry bottom paddr config)
  others : result = .ok () → ∀ addr, ¬ (format.tree layout).Selects bottom level addr vaddr →
    (format.tree layout).lookup tables'.memory level frame addr =
      (format.tree layout).lookup tables.memory level frame addr
  path : result = .ok () → (format.tree layout).PathTo tables'.memory bottom level frame vaddr

private theorem blockEntry_not_table (positive : 0 < bottom) (below : Nat) :
    format.entryKind bottom (format.blockEntry bottom paddr config) ≠ .table below := by
  by_cases huge : bottom > 1
  · have isBlock := format.block_not_table paddr config
    unfold blockEntry entryKind isLeaf
    rw [decide_eq_true huge]
    split_ifs with unused table
    · simp
    · simp only [Bool.and_eq_true, Bool.not_eq_true', Bool.or_eq_false_iff] at table
      rcases isBlock with block | absent
      · rw [block] at table
        exact absurd table.1.1 (by simp)
      · rw [absent] at table
        exact absurd table.2 (by simp)
    · simp
  · have lowest : bottom = 1 := by omega
    subst bottom
    exact entryKind_one_ne_table

/-! ## The entry of the block -/

variable {child : MapWalk Pte} {error : PagingError}

private theorem mapEntry_at_bottom (fits : BlockFits layout allowHuge bottom vaddr paddr) :
    format.mapEntry layout alloc child bottom frame
        (vaddr + layout.levelSize bottom) allowHuge config vaddr paddr tables =
      if format.unused (tables.memory frame (layout.virtToIndex vaddr bottom)) then
        (.ok (vaddr + layout.levelSize bottom, paddr + layout.levelSize bottom),
          tables.write frame (layout.virtToIndex vaddr bottom)
            (format.blockEntry bottom paddr config))
      else
        (.error (.mappingConflict vaddr (format.paddr
          (tables.memory frame (layout.virtToIndex vaddr bottom))
          (decide (bottom > 1)))), tables) := by
  have remaining : vaddr + layout.levelSize bottom - vaddr = layout.levelSize bottom := by omega
  suffices written : format.mapEntry layout alloc child bottom frame
      (vaddr + layout.levelSize bottom) allowHuge config vaddr paddr tables =
      format.writeLeaf layout bottom frame vaddr paddr (layout.levelSize bottom) config
        (decide (bottom > 1)) tables by
    simp only [written, writeLeaf, blockEntry, advanceBoth, checkedAdd, fits.vaddrFits,
      fits.paddrFits, if_true]
    cases format.unused (tables.memory frame (layout.virtToIndex vaddr bottom)) <;> simp
  simp only [mapEntry, remaining]
  by_cases huge : hugeFits layout allowHuge bottom vaddr paddr (layout.levelSize bottom) = true
  · rw [if_pos huge]
    simp only [hugeFits, Bool.and_eq_true, decide_eq_true_eq] at huge
    simp [huge.1.1.1.1.2]
  have lowest : bottom = 1 := by
    rcases fits.here with lowest | huge'
    · exact lowest
    · exact absurd huge' huge
  rw [if_neg huge]
  subst bottom
  simp [layout.levelSize_one]

theorem mapLoop_single {stop fuel : Nat} {next : Nat × Nat} (inRange : vaddr < stop)
    (finishes : next.1 = stop)
    (entry : format.mapEntry layout alloc child level frame stop allowHuge config
      vaddr paddr tables = (.ok next, tables')) :
    format.mapLoop layout alloc child level frame stop allowHuge config
      (fuel + 1) vaddr paddr tables = (.ok (), tables') := by
  rw [mapLoop, if_pos inRange, entry]
  simp only
  cases fuel with
  | zero => rfl
  | succ fuel => rw [mapLoop, if_neg (by omega)]

theorem mapLoop_error {stop fuel : Nat} (inRange : vaddr < stop)
    (entry : format.mapEntry layout alloc child level frame stop allowHuge config
      vaddr paddr tables = (.error error, tables')) :
    format.mapLoop layout alloc child level frame stop allowHuge config
      (fuel + 1) vaddr paddr tables = (.error error, tables') := by
  rw [mapLoop, if_pos inRange, entry]

theorem mapRangeRecursive_block :
    format.mapRangeRecursive layout alloc allowHuge config (level + 1) frame
        vaddr (vaddr + layout.levelSize bottom) paddr tables =
      format.mapLoop layout alloc (format.mapRangeRecursive layout alloc allowHuge config level)
        (level + 1) frame (vaddr + layout.levelSize bottom) allowHuge config
        (layout.levelSize bottom - 1 + 1) vaddr paddr tables := by
  have positive := layout.levelSize_pos bottom
  have fuel : vaddr + layout.levelSize bottom - vaddr = layout.levelSize bottom - 1 + 1 := by omega
  rw [← fuel, mapRangeRecursive]

theorem BlockOutcome.unchanged {requests : Nat} (order : tables.requests ≤ requests) :
    BlockOutcome format layout alloc bottom vaddr paddr config level frame
      (.error error) tables { tables with requests := requests } [] where
  grows := refl _ _ _
  granted := .nothing alloc order
  failed := fun _ _ _ => rfl
  wasFree := by simp
  installed := by simp
  others := by simp
  path := by simp

private theorem map_at_bottom (fits : BlockFits layout allowHuge (level + 1) vaddr paddr)
    (wellFormed : (format.tree layout).WellFormed tables.memory (level + 1) frame) :
    BlockOutcome format layout alloc (level + 1) vaddr paddr config (level + 1) frame
      (format.mapRangeRecursive layout alloc allowHuge config (level + 1) frame
        vaddr (vaddr + layout.levelSize (level + 1)) paddr tables).1
      tables
      (format.mapRangeRecursive layout alloc allowHuge config (level + 1) frame
        vaddr (vaddr + layout.levelSize (level + 1)) paddr tables).2 [] := by
  have inRange : vaddr < vaddr + layout.levelSize (level + 1) := by
    have := layout.levelSize_pos (level + 1)
    omega
  have entry : format.mapEntry layout alloc
      (format.mapRangeRecursive layout alloc allowHuge config level) (level + 1)
      frame _ allowHuge config vaddr paddr tables = _ :=
    mapEntry_at_bottom fits
  have notTable : ∀ below, format.entryKind (level + 1)
      (format.blockEntry (level + 1) paddr config) ≠ .table below :=
    blockEntry_not_table fits.positive
  rw [mapRangeRecursive_block]
  by_cases unused : format.unused (tables.memory frame
      (layout.virtToIndex vaddr (level + 1))) = true
  · rw [if_pos unused] at entry
    rw [mapLoop_single inRange rfl entry]
    have stored : ∀ addr, (format.tree layout).lookup
        (tables.write frame (layout.virtToIndex vaddr (level + 1))
          (format.blockEntry (level + 1) paddr config)).memory (level + 1) frame
        addr = _ :=
      fun addr => lookup_store wellFormed notTable
    refine
      { grows := store wellFormed ((format.tree layout).index_lt (level + 1) vaddr) unused notTable
        granted := .nothing alloc le_rfl
        failed := by simp
        wasFree := ?_
        installed := ?_
        others := ?_
        path := fun _ => .inl le_rfl }
    · intro _ addr selects
      apply lookup_of_empty
      rw [selects_same.mp selects]
      exact ((format.tree layout).kind_eq_empty _ _).mpr unused
    · intro _ addr selects
      have here : (format.tree layout).index (level + 1) addr =
          layout.virtToIndex vaddr (level + 1) :=
        selects_same.mp selects
      rw [stored, if_pos here]
      rfl
    · intro _ addr different
      have elsewhere : ¬ (format.tree layout).index (level + 1) addr =
          layout.virtToIndex vaddr (level + 1) :=
        fun same => different (selects_same.mpr same)
      rw [stored, if_neg elsewhere]
  · rw [if_neg unused] at entry
    rw [mapLoop_error inRange entry]
    exact .unchanged le_rfl

/-! ## The tables above the block -/

/-- The table behind an entry: found there, or linked there; no walk can tell. -/
private theorem childTable_spec {result : Except PagingError Nat} (wellFormed :
      (format.tree layout).WellFormed tables.memory (level + 2) frame)
    (freshFrames : FreshFrames format alloc tables.requests
      ((format.tree layout).frames tables.memory (level + 2) frame))
    (ran : format.childTable layout alloc (level + 2) frame vaddr tables = (result, tables')) :
    ∃ fresh, (format.tree layout).Grows tables.memory tables'.memory (level + 2) frame fresh ∧
      Granted alloc tables.requests tables'.requests fresh ∧
      (∀ addr, (format.tree layout).lookup tables'.memory (level + 2) frame addr =
        (format.tree layout).lookup tables.memory (level + 2) frame addr) ∧
      ∀ child, result = .ok child → format.entryKind (level + 2)
        (tables'.memory frame (layout.virtToIndex vaddr (level + 2))) = .table child := by
  have nothing : (format.tree layout).Grows tables.memory tables.memory
      (level + 2) frame [] := refl _ _ _
  unfold childTable at ran
  by_cases unused : format.unused
      (tables.memory frame (layout.virtToIndex vaddr (level + 2))) = true
  · rw [if_neg (by simp [unused])] at ran
    unfold newFrame at ran
    cases answer : alloc tables.requests with
    | none =>
      simp only [answer] at ran
      cases ran
      exact ⟨[], nothing, .nothing alloc (Nat.le_succ _), fun _ => rfl, by simp⟩
    | some newFrame =>
      simp only [answer] at ran
      cases ran
      have notUsed := freshFrames.notUsed _ le_rfl newFrame answer
      have isTable := freshFrames.linkable _ le_rfl newFrame answer (level + 2) (by omega)
      refine ⟨[newFrame], ?_, ⟨Nat.le_succ _, List.nodup_singleton _, ?_⟩, ?_, ?_⟩
      · exact link wellFormed notUsed unused (fun _ => format.unused_zero) isTable
          ((format.tree layout).index_lt (level + 2) vaddr)
      · intro frame' member
        rw [List.mem_singleton] at member
        subst frame'
        exact ⟨tables.requests, le_rfl, Nat.lt_succ_self _, answer⟩
      · intro addr
        exact lookup_link wellFormed notUsed unused (fun _ => format.unused_zero) isTable
      · intro child same
        cases same
        rw [PageTables.memory_write, FrameMemory.store_same]
        exact isTable
  · rw [if_pos (by simp [unused])] at ran
    refine ⟨[], ?_⟩
    split_ifs at ran with huge absent
    · cases ran
      exact ⟨nothing, .nothing alloc le_rfl, fun _ => rfl, by simp⟩
    · cases ran
      exact ⟨nothing, .nothing alloc le_rfl, fun _ => rfl, by simp⟩
    cases ran
    refine ⟨nothing, .nothing alloc le_rfl, fun _ => rfl, ?_⟩
    intro child same
    cases same
    rw [Bool.not_eq_true] at huge
    rw [Bool.not_eq_true, Bool.not_eq_false'] at absent
    simp [entryKind, isLeaf, unused, huge, absent]

section

variable (fits : BlockFits layout allowHuge bottom vaddr paddr)
include fits

theorem BlockFits.next_eq (order : bottom ≤ level) : min (vaddr + layout.levelSize bottom)
      ((vaddr / layout.levelSize level + 1) * layout.levelSize level) =
        vaddr + layout.levelSize bottom := by
  apply Nat.min_eq_left
  rcases fits.aligned with ⟨first, rfl⟩
  rcases layout.levelSize_dvd order with ⟨factor, size⟩
  have bottomPos := layout.levelSize_pos bottom
  have factorPos : 0 < factor := by
    have := layout.levelSize_pos level
    rw [size] at this
    exact Nat.pos_of_mul_pos_left this
  rw [size, Nat.mul_div_mul_left _ _ bottomPos]
  have inside : first < (first / factor + 1) * factor := by
    rw [Nat.add_mul, Nat.one_mul]
    exact Nat.lt_div_mul_add factorPos
  calc layout.levelSize bottom * first + layout.levelSize bottom
    _ ≤ layout.levelSize bottom * ((first / factor + 1) * factor) := Nat.mul_le_mul_left _ inside
    _ = (first / factor + 1) * (layout.levelSize bottom * factor) := by ring

private theorem mapEntry_above (order : bottom < level) (inside : level ≤ layout.ptLevel) :
    format.mapEntry layout alloc child level frame
        (vaddr + layout.levelSize bottom) allowHuge config vaddr paddr tables =
      match format.childTable layout alloc level frame vaddr tables with
      | (.error error, tables) => (.error error, tables)
      | (.ok childFrame, tables) =>
        match child childFrame vaddr (vaddr + layout.levelSize bottom) paddr tables with
        | (.error error, tables) => (.error error, tables)
        | (.ok (), tables) =>
          (.ok (vaddr + layout.levelSize bottom, paddr + layout.levelSize bottom), tables) := by
  have remaining : vaddr + layout.levelSize bottom - vaddr = layout.levelSize bottom := by omega
  have inRange : vaddr < vaddr + layout.levelSize bottom := by
    have := layout.levelSize_pos bottom
    omega
  have notLowest : ¬ (level == 1) = true := by
    have := fits.positive
    rw [beq_iff_eq]
    omega
  simp only [mapEntry, remaining, fits.above level order inside]
  rw [if_neg (by simp), if_neg notLowest]
  rcases format.childTable layout alloc level frame vaddr tables with ⟨error | childFrame, linked⟩
  · rfl
  simp only [entryStop_eq inRange fits.vaddrFits, fits.next_eq order.le]
  rcases child childFrame vaddr (vaddr + layout.levelSize bottom) paddr linked with
    ⟨error | done, walked⟩
  · rfl
  · simp only [remaining, checkedAdd, fits.paddrFits, if_true]

end

theorem BlockOutcome.ofChild {child : Nat} {result : Except PagingError Unit}
    {linked : PageTables Pte} {fresh fresh' : List Nat} (order : bottom ≤ level + 1)
    (wellFormed : (format.tree layout).WellFormed tables.memory (level + 2) frame)
    (freshFrames : FreshFrames format alloc tables.requests
      ((format.tree layout).frames tables.memory (level + 2) frame))
    (grows : (format.tree layout).Grows tables.memory linked.memory (level + 2) frame fresh)
    (granted : Granted alloc tables.requests linked.requests fresh)
    (unseen : ∀ addr, (format.tree layout).lookup linked.memory (level + 2) frame addr =
        (format.tree layout).lookup tables.memory (level + 2) frame addr)
    (isTable : format.entryKind (level + 2)
      (linked.memory frame (layout.virtToIndex vaddr (level + 2))) = .table child)
    (below : BlockOutcome format layout alloc bottom vaddr paddr config
      (level + 1) child result linked tables' fresh') :
    BlockOutcome format layout alloc bottom vaddr paddr config (level + 2) frame
      result tables tables' (fresh ++ fresh') := by
  have apart := granted.apart freshFrames
  have linkedWellFormed := grows.wellFormed wellFormed granted.nodup apart
  have linkedFresh : FreshFrames format alloc linked.requests
      ((format.tree layout).frames linked.memory (level + 2) frame) :=
    freshFrames.advance granted fun other member =>
      List.mem_append.mp (grows.frames.mem_iff.mp member)
  have belowApart := below.granted.apart linkedFresh
  have bound := (format.tree layout).index_lt (level + 2) vaddr
  have lifted := below.grows.ofChild linkedWellFormed bound isTable belowApart
  have seen : ∀ addr, (format.tree layout).lookup tables'.memory (level + 2)
      frame addr = _ := fun addr =>
    below.grows.lookup_ofChild linkedWellFormed bound isTable belowApart
  have tableBefore : ∀ addr, (format.tree layout).index (level + 2) addr =
      (format.tree layout).index (level + 2) vaddr →
      (format.tree layout).lookup linked.memory (level + 2) frame addr =
        (format.tree layout).lookup linked.memory (level + 1) child addr := by
    intro addr same
    apply lookup_of_table
    rw [same]
    exact isTable
  refine
    { grows := grows.trans lifted
      granted := granted.append freshFrames below.granted
      failed := ?_
      wasFree := ?_
      installed := ?_
      others := ?_
      path := ?_ }
  · intro error failed addr
    rw [seen, ← unseen]
    split_ifs with same
    · rw [below.failed error failed, tableBefore addr same]
    · rfl
  · intro ok addr selects
    rcases (selects_succ order).mp selects with ⟨same, inside⟩
    rw [← unseen, tableBefore addr same]
    exact below.wasFree ok addr inside
  · intro ok addr selects
    rcases (selects_succ order).mp selects with ⟨same, inside⟩
    rw [seen, if_pos same]
    exact below.installed ok addr inside
  · intro ok addr different
    rw [seen, ← unseen]
    split_ifs with same
    · rw [tableBefore addr same]
      apply below.others ok
      intro inside
      exact different ((selects_succ order).mpr ⟨same, inside⟩)
    · rfl
  · intro ok
    have here := below.grows.frame_eq linkedWellFormed bound isTable belowApart
    refine .inr ⟨child, ?_, below.path ok⟩
    rw [here]
    exact isTable

/-- The walk of a block maps it by one leaf, or leaves every walk as it was. -/
theorem mapRangeRecursive_outcome (fits : BlockFits layout allowHuge bottom vaddr paddr)
    (order : bottom ≤ level) (inside : level ≤ layout.ptLevel)
    (wellFormed : (format.tree layout).WellFormed tables.memory level frame)
    (freshFrames : FreshFrames format alloc tables.requests
      ((format.tree layout).frames tables.memory level frame)) :
    ∃ fresh, BlockOutcome format layout alloc bottom vaddr paddr config level frame
      (format.mapRangeRecursive layout alloc allowHuge config level frame vaddr
        (vaddr + layout.levelSize bottom) paddr tables).1
      tables
      (format.mapRangeRecursive layout alloc allowHuge config level frame vaddr
        (vaddr + layout.levelSize bottom) paddr tables).2 fresh := by
  induction level, order using Nat.le_induction generalizing frame tables with
  | base =>
    cases bottom with
    | zero => exact absurd fits.positive (by simp)
    | succ level => exact ⟨[], map_at_bottom fits wellFormed⟩
  | succ level order ih =>
    cases level with
    | zero =>
      have positive := fits.positive
      omega
    | succ level =>
      have inRange : vaddr < vaddr + layout.levelSize bottom := by
        have := layout.levelSize_pos bottom
        omega
      have entry : format.mapEntry layout alloc
          (format.mapRangeRecursive layout alloc allowHuge config
            (level + 1)) (level + 2) frame _ allowHuge config vaddr paddr
          tables = _ :=
        mapEntry_above fits (by omega) inside
      rw [mapRangeRecursive_block]
      cases link : format.childTable layout alloc (level + 2) frame vaddr tables with
      | mk result linked =>
        rcases childTable_spec wellFormed freshFrames link with
          ⟨fresh, grows, granted, unseen, isTable⟩
        simp only [link] at entry
        cases result with
        | error error =>
          rw [mapLoop_error inRange entry]
          exact ⟨fresh,
            { grows, granted
              failed := fun _ _ => unseen
              wasFree := by simp
              installed := by simp
              others := by simp
              path := by simp }⟩
        | ok child =>
          have linkedWellFormed := grows.wellFormed wellFormed
            granted.nodup (granted.apart freshFrames)
          have bound := (format.tree layout).index_lt (level + 2) vaddr
          have childTable := isTable child rfl
          have childFresh : FreshFrames format alloc linked.requests
              ((format.tree layout).frames linked.memory (level + 1) child) :=
            freshFrames.advance granted fun other member =>
              List.mem_append.mp (grows.frames.mem_iff.mp
                (frames_subset_of_table bound childTable member))
          rcases ih (by omega) (linkedWellFormed.child bound childTable)
            childFresh with ⟨fresh', below⟩
          refine ⟨fresh ++ fresh', ?_⟩
          have above := BlockOutcome.ofChild order wellFormed freshFrames
            grows granted unseen childTable below
          cases walk : format.mapRangeRecursive layout alloc allowHuge
              config (level + 1) child vaddr
              (vaddr + layout.levelSize bottom) paddr linked with
          | mk walked tables' =>
            rw [walk] at above
            simp only [walk] at entry
            cases walked with
            | error error =>
              rw [mapLoop_error inRange entry]
              exact above
            | ok done =>
              rw [mapLoop_single inRange rfl entry]
              exact above

end PteFormat

end TgosKits
