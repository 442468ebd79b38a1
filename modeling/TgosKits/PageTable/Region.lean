import TgosKits.PageTable.Rollback

/-! # Mapping a region -/

namespace TgosKits

open PteFormat List RadixTree

/-! ## The addresses of a block -/

namespace PteFormat

variable {Pte Config : Type} {format : PteFormat Pte Config}
  {layout : TableMeta} {bottom level addr base : Nat}

theorem selects_of_mem (aligned : layout.levelSize bottom ∣ base)
    (lower : base ≤ addr) (upper : addr < base + layout.levelSize bottom) :
    (format.tree layout).Selects bottom level addr base := by
  intro above order _
  apply index_eq_of_div_eq
  rcases layout.levelSize_dvd order with ⟨factor, size⟩
  have same : addr / layout.levelSize bottom = base / layout.levelSize bottom := by
    rcases aligned with ⟨quotient, rfl⟩
    have positive := layout.levelSize_pos bottom
    rw [Nat.mul_div_cancel_left _ positive]
    apply Nat.div_eq_of_lt_le
    · rw [Nat.mul_comm]
      exact lower
    · rw [Nat.add_mul, Nat.one_mul, Nat.mul_comm]
      exact upper
  rw [tree_size, size, ← Nat.div_div_eq_div_mul, ← Nat.div_div_eq_div_mul, same]

theorem index_add_mul {lower quotient : Nat} (positive : 0 < lower)
    (order : lower < bottom) (inside : bottom ≤ layout.ptLevel) :
    layout.virtToIndex (layout.levelSize bottom * quotient + addr) lower =
      layout.virtToIndex addr lower := by
  rcases layout.levelSize_dvd (show lower + 1 ≤ bottom by omega) with ⟨factor, size⟩
  have digits : layout.levelSize (lower + 1) =
      layout.levelSize lower * 2 ^ layout.bitsAt lower := by
    unfold TableMeta.levelSize
    rw [layout.levelShift_succ positive (by omega), Nat.pow_add]
  change (_ / layout.levelSize lower) % _ = (_ / layout.levelSize lower) % _
  have multiple : layout.levelSize bottom * quotient + addr = layout.levelSize lower *
        (2 ^ layout.bitsAt lower * (factor * quotient)) + addr := by
    rw [size, digits]
    ring
  rw [multiple, Nat.mul_add_div (layout.levelSize_pos lower), Nat.mul_add_mod]

private theorem mod_validBits_eq {other : Nat}
    (selects : (format.tree layout).Selects 1 layout.ptLevel addr other)
    (offset : addr % layout.pageSize = other % layout.pageSize) :
    addr % 2 ^ layout.validBits = other % 2 ^ layout.validBits := by
  have upper : ∀ depth level, level + depth = layout.ptLevel → 0 < level →
      addr / layout.levelSize level % 2 ^ (layout.validBits - layout.levelShift level) =
        other / layout.levelSize level % 2 ^ (layout.validBits - layout.levelShift level) := by
    intro depth
    induction depth with
    | zero =>
      intro level top positive
      obtain rfl : level = layout.ptLevel := by omega
      rw [layout.validBits_eq, Nat.add_sub_cancel_left]
      exact selects layout.ptLevel positive le_rfl
    | succ depth ih =>
      intro level top positive
      have below : level < layout.ptLevel := by omega
      have shift := layout.levelShift_succ positive below
      have atMost : layout.levelShift (level + 1) ≤ layout.validBits := by
        rw [layout.validBits_eq]
        exact (layout.levelShift_le (by omega)).trans (Nat.le_add_right _ _)
      have bits : layout.validBits - layout.levelShift level = layout.bitsAt level +
            (layout.validBits - layout.levelShift (level + 1)) := by
        omega
      have digit : addr / layout.levelSize level % 2 ^ layout.bitsAt level =
          other / layout.levelSize level % 2 ^ layout.bitsAt level :=
        selects level positive below.le
      have size : layout.levelSize (level + 1) =
          layout.levelSize level * 2 ^ layout.bitsAt level := by
        unfold TableMeta.levelSize
        rw [shift, Nat.pow_add]
      have rest := ih (level + 1) (by omega) (by omega)
      rw [size, ← Nat.div_div_eq_div_mul, ← Nat.div_div_eq_div_mul] at rest
      rw [bits, Nat.pow_add, Nat.mod_mul, Nat.mod_mul, digit, rest]
  have lowest := upper (layout.ptLevel - 1) 1 (by have := layout.ptLevel_pos; omega) Nat.one_pos
  have atLeast : layout.pageShift ≤ layout.validBits := Nat.le_add_left _ _
  have width : 2 ^ layout.validBits =
      layout.pageSize * 2 ^ (layout.validBits - layout.pageShift) := by
    unfold TableMeta.pageSize
    rw [← Nat.pow_add]
    congr 1
    omega
  rw [layout.levelSize_one, layout.levelShift_one] at lowest
  rw [width, Nat.mod_mul, Nat.mod_mul, offset, lowest]

theorem exists_mem_of_selects (positive : 0 < bottom) (inside : bottom ≤ layout.ptLevel)
    (aligned : layout.levelSize bottom ∣ base)
    (selects : (format.tree layout).Selects bottom layout.ptLevel addr base) :
    ∃ other, base ≤ other ∧ other < base + layout.levelSize bottom ∧
      (format.tree layout).Selects 1 layout.ptLevel addr other ∧
      addr % 2 ^ layout.validBits = other % 2 ^ layout.validBits := by
  have remainder := Nat.mod_lt addr (layout.levelSize_pos bottom)
  have upper : base + addr % layout.levelSize bottom < base + layout.levelSize bottom := by omega
  have digits : (format.tree layout).Selects 1 layout.ptLevel addr
      (base + addr % layout.levelSize bottom) := by
    intro lower low high
    by_cases above : bottom ≤ lower
    · have ofBase : (format.tree layout).Selects bottom layout.ptLevel
          (base + addr % layout.levelSize bottom) base :=
        selects_of_mem aligned (Nat.le_add_right _ _) upper
      rw [ofBase lower above high]
      exact selects lower above high
    · rcases aligned with ⟨quotient, rfl⟩
      rw [tree_index, tree_index, index_add_mul low (by omega) inside]
      nth_rewrite 1 [← Nat.div_add_mod addr (layout.levelSize bottom)]
      exact index_add_mul low (by omega) inside
  refine ⟨base + addr % layout.levelSize bottom, Nat.le_add_right _ _, upper,
    digits, mod_validBits_eq digits ?_⟩
  have pageDvd : layout.pageSize ∣ layout.levelSize bottom := by
    rw [← layout.levelSize_one]
    exact layout.levelSize_dvd positive
  rw [Nat.add_mod, Nat.mod_eq_zero_of_dvd (pageDvd.trans aligned), Nat.zero_add,
    Nat.mod_mod_of_dvd _ pageDvd, Nat.mod_mod]

end PteFormat

namespace PageTableRef

variable {Pte Config : Type} {format : PteFormat Pte Config} {layout : TableMeta}
  {alloc : Nat → Option Nat} {table : PageTableRef} {config : Config}
  {selection : RegionPageSelection} {vaddr paddr remaining : Nat} {tables : PageTables Pte}

theorem levelSize_isPowerOfTwo (level : Nat) : (layout.levelSize level).isPowerOfTwo :=
  ⟨layout.levelShift level, rfl⟩

variable {addr level size bottom : Nat}

theorem isAligned_levelSize : isAligned addr (layout.levelSize level) = true ↔
      layout.levelSize level ∣ addr := by
  unfold isAligned
  rw [alignOffset_eq (levelSize_isPowerOfTwo level), beq_iff_eq, Nat.dvd_iff_mod_eq_zero]

theorem alignDown_levelSize (bounded : addr ≤ usizeMax) (aligned : layout.levelSize level ∣ addr) :
    alignDown addr (layout.levelSize level) = addr := by
  rw [alignDown_eq bounded (levelSize_isPowerOfTwo level)
    (layout.levelSize_le_usizeMax level), Nat.mod_eq_zero_of_dvd aligned,
    Nat.sub_zero]

theorem hugeFits_iff {allowHuge : Bool} : hugeFits layout allowHuge level vaddr paddr size = true ↔
      allowHuge = true ∧ 1 < level ∧ level ≤ layout.maxBlockLevel ∧
        layout.levelSize level ≤ size ∧ layout.levelSize level ∣ vaddr ∧
        layout.levelSize level ∣ paddr := by
  simp [hugeFits, Bool.and_eq_true, decide_eq_true_eq, beq_iff_eq, Nat.dvd_iff_mod_eq_zero,
    gt_iff_lt, and_assoc]

/-- A page size and the level whose leaves have it. -/
structure SizeOfLevel (layout : TableMeta) (vaddr paddr remaining size : Nat)
    (bottom : Nat) : Prop where
  positive : 0 < bottom
  inside : bottom ≤ layout.ptLevel
  size_eq : size = layout.levelSize bottom
  enough : size ≤ remaining
  vaddrAligned : size ∣ vaddr
  paddrAligned : size ∣ paddr
  here : bottom = 1 ∨ hugeFits layout
    (decide (size > layout.pageSize)) bottom vaddr paddr size = true
  above : ∀ level, bottom < level → level ≤ layout.ptLevel →
    hugeFits layout (decide (size > layout.pageSize)) level vaddr paddr size = false

section

variable (vaddrAligned : layout.pageSize ∣ vaddr)
  (paddrAligned : layout.pageSize ∣ paddr) (enough : layout.pageSize ≤ remaining)
include vaddrAligned paddrAligned enough

theorem SizeOfLevel.basePage : SizeOfLevel layout vaddr paddr remaining layout.pageSize 1 where
  positive := one_pos
  inside := layout.ptLevel_pos
  size_eq := layout.levelSize_one.symm
  enough := enough
  vaddrAligned := vaddrAligned
  paddrAligned := paddrAligned
  here := .inl rfl
  above := by
    intro level _ _
    rw [← Bool.not_eq_true, hugeFits_iff]
    simp

private theorem largestPageSize_level {allowHuge : Bool} :
    ∃ bottom, SizeOfLevel layout vaddr paddr remaining
      (largestPageSize layout vaddr paddr remaining allowHuge) bottom := by
  have basePage := SizeOfLevel.basePage vaddrAligned paddrAligned enough
  unfold largestPageSize
  split_ifs with allowed
  · simp only
    split
    · rename_i level found
      rw [find?_eq_some_iff_append] at found
      rcases found with ⟨fits, higher, lower, divided, refused⟩
      simp only [Bool.and_eq_true, isAligned_levelSize, decide_eq_true_eq, and_assoc] at fits
      rcases fits with ⟨vaddrFits, paddrFits, sizeFits⟩
      have member : level ∈ range' 2 (min layout.ptLevel layout.maxBlockLevel - 1) := by
        rw [← mem_reverse, divided]
        simp
      rw [mem_range'_1] at member
      by_cases larger : layout.levelSize level > layout.pageSize
      · refine ⟨level, by omega, by omega, rfl, sizeFits, vaddrFits, paddrFits,
          .inr (hugeFits_iff.mpr ⟨by simpa using larger, by omega, by omega,
            le_rfl, vaddrFits, paddrFits⟩), ?_⟩
        intro other above inside
        rw [← Bool.not_eq_true, hugeFits_iff]
        intro ⟨_, _, block, small, otherVaddr, otherPaddr⟩
        -- a higher level with the same size would have been chosen before
        have inHigher : other ∈ higher := by
          have listed : other ∈ higher ++ level :: lower := by
            rw [← divided, mem_reverse, mem_range'_1]
            omega
          have decreasing : (higher ++ level :: lower).Pairwise (· > ·) := by
            rw [← divided, pairwise_reverse]
            exact pairwise_lt_range'
          rcases mem_append.mp listed with early | late
          · exact early
          rcases mem_cons.mp late with same | after
          · omega
          · have order := rel_of_pairwise_cons (pairwise_append.mp decreasing).2.1 after
            omega
        have refusal := refused other inHigher
        have accepted : (isAligned vaddr (layout.levelSize other) &&
            isAligned paddr (layout.levelSize other) &&
            decide (remaining ≥ layout.levelSize other)) = true := by
          simp only [Bool.and_eq_true, isAligned_levelSize, decide_eq_true_eq]
          exact ⟨⟨otherVaddr, otherPaddr⟩, small.trans sizeFits⟩
        rw [accepted] at refusal
        cases refusal
      · have base : layout.levelSize level = layout.pageSize := by
          have order : layout.levelSize 1 ≤ layout.levelSize level :=
            Nat.le_of_dvd (layout.levelSize_pos level) (layout.levelSize_dvd (by omega))
          rw [layout.levelSize_one] at order
          omega
        rw [base]
        exact ⟨1, basePage⟩
    · exact ⟨1, basePage⟩
  · exact ⟨1, basePage⟩

theorem selectedPageSize_level : ∃ bottom, SizeOfLevel layout vaddr paddr remaining
      (selectedPageSize layout selection vaddr paddr remaining) bottom := by
  cases selection with
  | basePages =>
    exact ⟨1, .basePage vaddrAligned paddrAligned enough⟩
  | linear allowHuge =>
    exact largestPageSize_level vaddrAligned paddrAligned enough

end

theorem selectedPageSize_huge (sizeOfLevel : SizeOfLevel layout vaddr paddr remaining
      (selectedPageSize layout selection vaddr paddr remaining) bottom) (above : 1 < bottom) :
    selection = .linear true ∧ bottom ≤ layout.maxBlockLevel := by
  rcases sizeOfLevel.here with lowest | fits
  · omega
  rcases hugeFits_iff.mp fits with ⟨larger, _, block, _⟩
  refine ⟨?_, block⟩
  rw [decide_eq_true_eq] at larger
  match selection with
  | .basePages | .linear false => exact absurd larger (lt_irrefl _)
  | .linear true => rfl

theorem map_outcome (sizeOfLevel : SizeOfLevel layout vaddr paddr remaining size bottom)
    (wellFormed : table.WellFormed format layout tables.memory)
    (freshFrames : FreshFrames format alloc tables.requests
      ((format.tree layout).frames tables.memory layout.ptLevel table.root)) :
    ∃ fresh, BlockOutcome format layout alloc bottom vaddr paddr config layout.ptLevel table.root
      (table.map format layout alloc vaddr paddr size config
        (decide (size > layout.pageSize)) tables).1
      tables
      (table.map format layout alloc vaddr paddr size config
        (decide (size > layout.pageSize)) tables).2 fresh := by
  have sizeEq := sizeOfLevel.size_eq
  unfold map
  cases valid : validateMapping layout vaddr paddr size with
  | error error => exact ⟨[], .unchanged le_rfl⟩
  | ok done =>
    have sums : vaddr + size ≤ usizeMax ∧ paddr + size ≤ usizeMax := by
      unfold validateMapping at valid
      split_ifs at valid with _ _ _ overflow
      simpa [checkedAdd] using overflow
    rcases sums with ⟨vaddrFits, paddrFits⟩
    have fits : BlockFits layout (decide (size > layout.pageSize)) bottom vaddr paddr := by
      refine ⟨sizeOfLevel.positive, ?_, ?_, ?_, ?_, ?_⟩
      · exact sizeEq ▸ sizeOfLevel.vaddrAligned
      · exact sizeEq ▸ sizeOfLevel.here
      · exact sizeEq ▸ sizeOfLevel.above
      · exact sizeEq ▸ vaddrFits
      · exact sizeEq ▸ paddrFits
    simp only [checkedAdd, vaddrFits, if_true]
    rw [sizeEq]
    rw [sizeEq] at fits
    exact mapRangeRecursive_outcome fits sizeOfLevel.inside le_rfl wellFormed freshFrames

/-! ## The leaves installed so far -/

structure MappedBlock where
  bottom : Nat
  vaddr : Nat
  paddr : Nat
  deriving DecidableEq, Repr

structure BlockPlaced (layout : TableMeta) (getPaddr : Nat → Except PagingError Nat)
    (selection : RegionPageSelection) (start offset : Nat) (block : MappedBlock) : Prop where
  positive : 0 < block.bottom
  inside : block.bottom ≤ layout.ptLevel
  aligned : layout.levelSize block.bottom ∣ block.vaddr
  first : start ≤ block.vaddr
  last : block.vaddr + layout.levelSize block.bottom ≤ start + offset
  resolved : getPaddr block.vaddr = .ok block.paddr
  paddrAligned : layout.levelSize block.bottom ∣ block.paddr
  huge : 1 < block.bottom → selection = .linear true ∧ block.bottom ≤ layout.maxBlockLevel

/-- What walks see once the region is mapped up to an offset. -/
structure RegionMapped (format : PteFormat Pte Config) (layout : TableMeta)
    (alloc : Nat → Option Nat) (table : PageTableRef) (config : Config)
    (getPaddr : Nat → Except PagingError Nat) (selection : RegionPageSelection) (start offset : Nat)
    (before now : PageTables Pte) (blocks : List MappedBlock) : Prop where
  wellFormed : table.WellFormed format layout now.memory
  freshFrames : FreshFrames format alloc now.requests
    ((format.tree layout).frames now.memory layout.ptLevel table.root)
  placed : ∀ block ∈ blocks, BlockPlaced layout getPaddr selection start offset block
  tiled : ∀ addr, start ≤ addr → addr < start + offset → ∃ block ∈ blocks,
    block.vaddr ≤ addr ∧ addr < block.vaddr + layout.levelSize block.bottom
  others : ∀ addr, (∀ block ∈ blocks, ¬ (format.tree layout).Selects block.bottom
      layout.ptLevel addr block.vaddr) →
    (format.tree layout).lookup now.memory layout.ptLevel table.root addr =
      (format.tree layout).lookup before.memory layout.ptLevel table.root addr
  wasFree : ∀ block ∈ blocks, ∀ addr,
    (format.tree layout).Selects block.bottom layout.ptLevel addr block.vaddr →
    (format.tree layout).lookup before.memory layout.ptLevel table.root addr = none
  installed : ∀ block ∈ blocks, format.unused
      (format.blockEntry block.bottom block.paddr config) = false → ∀ addr,
    (format.tree layout).Selects block.bottom layout.ptLevel addr block.vaddr →
    (format.tree layout).lookup now.memory layout.ptLevel table.root addr =
      some (block.bottom, format.blockEntry block.bottom block.paddr config)
  path : ∀ block ∈ blocks, (format.tree layout).PathTo now.memory block.bottom
    layout.ptLevel table.root block.vaddr

variable {getPaddr : Nat → Except PagingError Nat} {start offset : Nat}
  {before now after : PageTables Pte} {blocks : List MappedBlock}

theorem RegionMapped.nothing (wellFormed : table.WellFormed format layout tables.memory)
    (freshFrames : FreshFrames format alloc tables.requests
      ((format.tree layout).frames tables.memory layout.ptLevel table.root)) :
    RegionMapped format layout alloc table config getPaddr selection start 0 tables tables [] where
  wellFormed := wellFormed
  freshFrames := freshFrames
  placed := by simp
  tiled := by omega
  others := fun _ _ => rfl
  wasFree := by simp
  installed := by simp
  path := by simp

variable {bottom size : Nat}

section

variable
  (mapped : RegionMapped format layout alloc table config getPaddr selection start offset before
    now blocks)

include mapped

theorem RegionMapped.install {fresh : List Nat}
    (placed : BlockPlaced layout getPaddr selection start
      (offset + layout.levelSize bottom) ⟨bottom, start + offset, paddr⟩)
    (outcome : BlockOutcome format layout alloc bottom (start + offset)
      paddr config layout.ptLevel table.root (.ok ()) now after fresh) :
    RegionMapped format layout alloc table config getPaddr selection start
      (offset + layout.levelSize bottom) before after
      (blocks ++ [⟨bottom, start + offset, paddr⟩]) where
  wellFormed := outcome.grows.wellFormed mapped.wellFormed outcome.granted.nodup
    (outcome.granted.apart mapped.freshFrames)
  freshFrames := mapped.freshFrames.advance outcome.granted fun _ member =>
    mem_append.mp (outcome.grows.frames.mem_iff.mp member)
  placed := by
    intro block member
    rcases mem_append.mp member with old | new
    · have earlier := mapped.placed block old
      exact { earlier with last := by have := earlier.last; omega }
    · rw [mem_singleton] at new
      exact new ▸ placed
  tiled := by
    intro addr lower upper
    by_cases early : addr < start + offset
    · rcases mapped.tiled addr lower early with ⟨block, old, range⟩
      exact ⟨block, mem_append_left _ old, range⟩
    · exact ⟨_, mem_append_right _ (mem_singleton_self _),
        Nat.le_of_not_lt early, by simpa [Nat.add_assoc] using upper⟩
  others := by
    intro addr notSelected
    rw [outcome.others rfl addr (notSelected _ (mem_append_right _ (mem_singleton_self _)))]
    exact mapped.others addr fun block old =>
      notSelected block (mem_append_left _ old)
  wasFree := by
    intro block member addr selects
    rcases mem_append.mp member with old | new
    · exact mapped.wasFree block old addr selects
    rw [mem_singleton] at new
    subst block
    by_cases earlier : ∃ block ∈ blocks, (format.tree layout).Selects
        block.bottom layout.ptLevel addr block.vaddr
    · rcases earlier with ⟨block, old, selected⟩
      exact mapped.wasFree block old addr selected
    · push Not at earlier
      rw [← mapped.others addr earlier]
      exact outcome.wasFree rfl addr selects
  installed := by
    intro block member used addr selects
    rcases mem_append.mp member with old | new
    · have seen := mapped.installed block old used addr selects
      rw [outcome.others rfl addr, seen]
      intro again
      rw [outcome.wasFree rfl addr again] at seen
      cases seen
    · rw [mem_singleton] at new
      subst block
      rw [outcome.installed rfl addr selects, if_neg (by simp [used])]
  path := by
    intro block member
    rcases mem_append.mp member with old | new
    · exact (mapped.path block old).mono outcome.grows.kept
    · rw [mem_singleton] at new
      subst block
      exact outcome.path rfl

theorem RegionMapped.refused {fresh : List Nat} {error : PagingError}
    (outcome : BlockOutcome format layout alloc bottom (start + offset)
      paddr config layout.ptLevel table.root (.error error) now after fresh) :
    RegionMapped format layout alloc table config getPaddr selection start offset
      before after blocks where
  wellFormed := outcome.grows.wellFormed mapped.wellFormed outcome.granted.nodup
    (outcome.granted.apart mapped.freshFrames)
  freshFrames := mapped.freshFrames.advance outcome.granted fun _ member =>
    mem_append.mp (outcome.grows.frames.mem_iff.mp member)
  placed := mapped.placed
  tiled := mapped.tiled
  others := by
    intro addr notSelected
    rw [outcome.failed error rfl addr]
    exact mapped.others addr notSelected
  wasFree := mapped.wasFree
  installed := by
    intro block member used addr selects
    rw [outcome.failed error rfl addr]
    exact mapped.installed block member used addr selects
  path := fun block member =>
    (mapped.path block member).mono outcome.grows.kept

private theorem RegionMapped.endsInside :
    (format.tree layout).EndsInside now.memory layout.ptLevel table.root start
      (start + offset) := by
  intro addr lower upper slot found
  rcases mapped.tiled addr lower upper with ⟨block, member, above, below⟩
  have placed := mapped.placed block member
  have path := (mapped.path block member).of_selects (selects_of_mem placed.aligned above below)
  have divides := layout.levelSize_dvd (path.level_le found)
  have positive := layout.levelSize_pos slot.level
  rcases divides with ⟨factor, size⟩
  rcases placed.aligned with ⟨quotient, base⟩
  have quotientBound : addr / layout.levelSize slot.level < factor * quotient + factor := by
    apply (Nat.div_lt_iff_lt_mul positive).mpr
    calc addr < block.vaddr + layout.levelSize block.bottom := below
      _ = (factor * quotient + factor) * layout.levelSize slot.level := by
        rw [base, size]
        ring
  calc (addr / layout.levelSize slot.level + 1) * layout.levelSize slot.level
      ≤ (factor * quotient + factor) * layout.levelSize slot.level :=
        Nat.mul_le_mul_right _ quotientBound
    _ = block.vaddr + layout.levelSize block.bottom := by
        rw [base, size]
        ring
    _ ≤ start + offset := placed.last

theorem RegionMapped.cursorOk (some : 0 < offset) :
    (format.tree layout).CursorOk now.memory layout.ptLevel table.root
      start := by
  rcases mapped.tiled start le_rfl (by omega) with ⟨block, member, above, _⟩
  have placed := mapped.placed block member
  have equal : block.vaddr = start := by
    have := placed.first
    omega
  rw [← equal]
  exact (mapped.path block member).cursorOk placed.aligned

theorem RegionMapped.restored (some : 0 < offset)
    (prunes : (format.tree layout).Prunes now.memory after.memory layout.ptLevel
      table.root ((format.tree layout).Hit now.memory layout.ptLevel table.root
        start (start + offset))) (addr : Nat) :
    (format.tree layout).lookup after.memory layout.ptLevel table.root addr =
      (format.tree layout).lookup before.memory layout.ptLevel table.root
        addr := by
  by_cases selected : ∃ block ∈ blocks, (format.tree layout).Selects
      block.bottom layout.ptLevel addr block.vaddr
  · rcases selected with ⟨block, member, selects⟩
    have placed := mapped.placed block member
    rw [mapped.wasFree block member addr selects, RadixTree.lookup, Option.map_eq_none_iff]
    cases found : (format.tree layout).endSlot now.memory layout.ptLevel table.root addr with
    | none => exact prunes.endSlot_of_none found
    | some slot =>
      rcases exists_mem_of_selects placed.positive placed.inside
        placed.aligned selects with ⟨other, lower, upper, digits, _⟩
      have order : start ≤ other := placed.first.trans lower
      have same : (format.tree layout).endSlot now.memory layout.ptLevel
          table.root other = .some slot :=
        endSlot_eq_of_selects found (endSlot_level found).1
          (fun level low high => (digits level low high).symm)
      exact prunes.endSlot_of_hit found ⟨other, order, lt_of_lt_of_le upper placed.last, same,
        (mapped.cursorOk some).reached order⟩
  · push Not at selected
    rw [← mapped.others addr selected]
    unfold RadixTree.lookup
    cases found : (format.tree layout).endSlot now.memory layout.ptLevel table.root addr with
    | none => simp [prunes.endSlot_of_none found]
    | some slot =>
      have notHit : ¬ (format.tree layout).Hit now.memory layout.ptLevel
          table.root start (start + offset) slot := by
        rintro ⟨other, lower, upper, same, _⟩
        rcases mapped.tiled other lower upper with ⟨block, member, above, below⟩
        have otherSelects : (format.tree layout).Selects block.bottom
            layout.ptLevel other block.vaddr :=
          selects_of_mem (mapped.placed block member).aligned above below
        have depth := ((mapped.path block member).of_selects otherSelects).level_le same
        have digits := selects_of_endSlot_eq mapped.wellFormed found same
        apply selected block member
        intro level low high
        exact (digits level (depth.trans low) high).trans (otherSelects level low high)
      have kept := prunes.endSlot_of_not_hit found notHit
      rw [kept, Option.map_some, Option.map_some,
        prunes.thinner.eq_of_kind (by simp) (endSlot_kind kept)]

end

private theorem validateAddressWidth_prefix {operation other : String}
    (width : validateAddressWidth layout start size operation = .ok ()) (some : 0 < offset)
    (order : offset ≤ size) : validateAddressWidth layout start offset other = .ok () := by
  unfold validateAddressWidth at width ⊢
  split_ifs at width ⊢ with lax
  · rfl
  split at width
  · cases width
  rename_i stop accepted
  rcases checkedAdd_eq_some_iff.mp accepted with ⟨rfl, fits⟩
  split_ifs at width with outside
  have small : start + offset ≤ usizeMax := by omega
  simp only [checkedAdd, small, if_true]
  rw [if_neg]
  simp only [TableMeta.isAddrInWidth, Bool.or_eq_true, Bool.not_eq_true',
    Bool.or_eq_false_iff, decide_eq_false_iff_not] at outside ⊢
  omega

theorem RegionMapped.rolledBack {operation : String} {error : PagingError}
    (mapped : RegionMapped format layout alloc table config getPaddr selection
      start offset before now blocks) (startAligned : start % layout.pageSize = 0)
    (offsetAligned : offset % layout.pageSize = 0) (fits : start + size ≤ usizeMax)
    (order : offset ≤ size) (width : validateAddressWidth layout start size operation = .ok ()) :
    ∃ after, table.rollback format layout start offset error now = (.error error, after) ∧ ∀ addr,
        (format.tree layout).lookup after.memory layout.ptLevel table.root addr =
          (format.tree layout).lookup before.memory layout.ptLevel table.root
            addr := by
  unfold rollback
  rcases eq_zero_or_pos offset with rfl | some
  · refine ⟨now, by simp, fun addr => mapped.others addr ?_⟩
    intro block member
    have placed := mapped.placed block member
    have positive := layout.levelSize_pos block.bottom
    have first := placed.first
    have last := placed.last
    omega
  · have notZero : ¬ (offset == 0) = true := by
      rw [beq_iff_eq]
      omega
    rw [if_neg notZero]
    rcases Nat.exists_eq_succ_of_ne_zero layout.ptLevel_pos.ne' with ⟨level, top⟩
    have succeeds : SucceedsInside format layout layout.ptLevel
        (format.unmapRangeRecursive layout layout.ptLevel table.retainedRootEntries) := by
      rw [top]
      exact unmapRangeRecursive_succeeds level _
    rcases succeeds table.root start (start + offset) now mapped.wellFormed
      (by omega) (mapped.cursorOk some) mapped.endsInside with
      ⟨canReclaim, after, walk⟩
    have ran : table.unmapWithConfig format layout start offset now = (.ok (), after) := by
      have params : validateUnmapParams layout start offset = .ok () := by
        simp [validateUnmapParams, startAligned, offsetAligned, some.ne']
      have sum : checkedAdd start offset = .some (start + offset) := by
        simp [checkedAdd, show start + offset ≤ usizeMax by omega]
      unfold unmapWithConfig unmapNamed
      simp [params, sum, validateAddressWidth_prefix width some order, walk]
    rw [ran]
    exact ⟨after, rfl, mapped.restored some (unmap_prunes ran mapped.wellFormed)⟩

end PageTableRef

end TgosKits
