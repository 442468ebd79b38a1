import TgosKits.MemorySet.GapTree

/-!
# The free-range index

`GapIndex` keeps the free gaps below `tailStart` in a tree and everything from
`tailStart` on as one implicit gap.
-/

namespace TgosKits

open GapTree AddrRange

structure GapIndex where
  root : GapTree
  tailStart : Nat
  deriving DecidableEq, Repr

namespace GapIndex

def new : GapIndex := ⟨.nil, 0⟩

def insert (index : GapIndex) (range : AddrRange) : GapIndex :=
  if range.start < range.stop then
    { index with root := index.root.insert range }
  else
    index

/-- Remove a mapped range from the free gap it lies in.  `none` is a failed
`expect` or `assert!`. -/
def occupy (index : GapIndex) (range : AddrRange) : Option GapIndex :=
  if index.tailStart ≤ range.start then
    some { index.insert ⟨index.tailStart, range.start⟩ with
      tailStart := range.stop }
  else
    match index.root.predecessor range.start with
    | none => none
    | some gap =>
      if range.stop ≤ gap.stop then
        some <| ({ index with root := index.root.remove gap.start }.insert
            ⟨gap.start, range.start⟩).insert ⟨range.stop, gap.stop⟩
      else
        none

/-- The loop of `release`: swallow the gaps that start inside or right behind
the range.  Each round removes a gap, so the number of gaps bounds the loop. -/
def absorb : Nat → GapTree → AddrRange → GapTree × AddrRange
  | 0, root, range => (root, range)
  | fuel + 1, root, range =>
    match root.successor range.start with
    | none => (root, range)
    | some next =>
      if range.stop < next.start then
        (root, range)
      else
        absorb fuel (root.remove next.start) ⟨range.start, max range.stop next.stop⟩

def absorbPrevious (root : GapTree) (range : AddrRange) : GapTree × AddrRange :=
  match root.predecessor range.start with
  | none => (root, range)
  | some previous =>
    if range.start ≤ previous.stop then
      (root.remove previous.start, ⟨previous.start, max range.stop previous.stop⟩)
    else
      (root, range)

def touchTail (tailStart : Nat) (range : AddrRange) : AddrRange :=
  if tailStart ≤ range.stop then
    ⟨min range.start tailStart, range.stop⟩
  else
    range

def publish (tailStart : Nat) (merged : GapTree × AddrRange) : GapIndex :=
  if tailStart ≤ merged.2.stop then
    ⟨merged.1, merged.2.start⟩
  else
    insert ⟨merged.1, tailStart⟩ merged.2

/-- Add free coverage, coalescing adjacent intervals and the implicit tail. -/
def release (index : GapIndex) (range : AddrRange) : GapIndex :=
  let previous := absorbPrevious index.root (touchTail index.tailStart range)
  publish index.tailStart (absorb previous.1.toList.length previous.1 previous.2)

/-! ## Invariant and coverage -/

structure Gaps (tree : GapTree) : Prop where
  ordered : tree.Ordered
  balanced : tree.Balanced maxLength
  nonempty : ∀ gap ∈ tree, gap.start < gap.stop
  apart : ∀ first ∈ tree, ∀ second ∈ tree, first.start < second.start → first.stop < second.start

/-- Invariant of the index: the gaps end strictly before the tail begins. -/
structure WellFormed (index : GapIndex) : Prop where
  gaps : Gaps index.root
  belowTail : ∀ gap ∈ index.root, gap.stop < index.tailStart
  bounded : index.tailStart ≤ usizeMax

def Covered (tree : GapTree) (addr : Nat) : Prop := ∃ gap ∈ tree, gap.Contains addr

def Free (index : GapIndex) (addr : Nat) : Prop := Covered index.root addr ∨ index.tailStart ≤ addr

namespace Gaps

variable {tree : GapTree}

protected theorem nil : Gaps .nil where
  ordered := .nil
  balanced := trivial
  nonempty _ member := absurd member AvlTree.not_mem_nil
  apart _ member := absurd member AvlTree.not_mem_nil

variable {first second gap new : AddrRange}

section

variable (gaps : Gaps tree)
include gaps

theorem eq_of_start (firstMember : first ∈ tree) (secondMember : second ∈ tree)
    (same : first.start = second.start) : first = second := by
  exact List.Pairwise.forall_of_forall_of_flip
    (R := fun first second => first.start = second.start → first = second) (fun _ _ _ => rfl)
    (gaps.ordered.imp fun less equal => absurd equal less.ne)
    (gaps.ordered.imp fun less equal => absurd equal less.ne') firstMember secondMember same

theorem eq_of_touching (firstMember : first ∈ tree) (secondMember : second ∈ tree)
    (firstReaches : second.start ≤ first.stop) (secondReaches : first.start ≤ second.stop) :
    first = second := by
  apply gaps.eq_of_start firstMember secondMember
  rcases lt_trichotomy first.start second.start with less | same | greater
  · have := gaps.apart first firstMember second secondMember less
    omega
  · exact same
  · have := gaps.apart second secondMember first firstMember greater
    omega

protected theorem remove (start : Nat) : Gaps (tree.remove start) := by
  have older : ∀ gap ∈ tree.remove start, gap ∈ tree :=
    fun gap member => ((mem_remove gaps.ordered).mp member).1
  exact
    { ordered := ordered_remove gaps.ordered
      balanced := balanced_remove gaps.balanced
      nonempty := fun gap member => gaps.nonempty gap (older gap member)
      apart := fun first firstMember second secondMember =>
        gaps.apart first (older first firstMember) second (older second secondMember) }

theorem covered_remove (member : gap ∈ tree) (addr : Nat) : Covered tree addr ↔
      Covered (tree.remove gap.start) addr ∨ gap.Contains addr := by
  constructor
  · rintro ⟨owner, ownerMember, inside⟩
    by_cases same : owner.start = gap.start
    · obtain rfl := gaps.eq_of_start ownerMember member same
      exact .inr inside
    · exact .inl ⟨owner, (mem_remove gaps.ordered).mpr ⟨ownerMember, same⟩, inside⟩
  · rintro (⟨owner, ownerMember, inside⟩ | inside)
    · exact ⟨owner, ((mem_remove gaps.ordered).mp ownerMember).1, inside⟩
    · exact ⟨gap, member, inside⟩

end

/-- What it takes to store a new gap: it keeps its distance. -/
def Clear (tree : GapTree) (new : AddrRange) : Prop :=
  ∀ gap ∈ tree, gap.stop < new.start ∨ new.stop < gap.start

variable (gaps : Gaps tree) (nonempty : new.start < new.stop) (clear : Clear tree new)
include gaps nonempty clear

theorem fresh_of_clear : ∀ old ∈ tree, old.start ≠ new.start := by
  intro old member
  have := gaps.nonempty old member
  have := clear old member
  omega

theorem mem_insert : gap ∈ tree.insert new ↔ gap = new ∨ gap ∈ tree :=
  GapTree.mem_insert (gaps.fresh_of_clear nonempty clear)

protected theorem insert : Gaps (tree.insert new) where
  ordered := ordered_insert (gaps.fresh_of_clear nonempty clear) gaps.ordered
  balanced := balanced_insert (gaps.fresh_of_clear nonempty clear) gaps.balanced
  nonempty := by
    intro gap member
    rcases (gaps.mem_insert nonempty clear).mp member with rfl | old
    · exact nonempty
    · exact gaps.nonempty gap old
  apart := by
    intro first firstMember second secondMember less
    rcases (gaps.mem_insert nonempty clear).mp firstMember with rfl | firstOld <;>
      rcases (gaps.mem_insert nonempty clear).mp secondMember with rfl | secondOld
    · omega
    · have := gaps.nonempty second secondOld
      have := clear second secondOld
      omega
    · have := clear first firstOld
      omega
    · exact gaps.apart first firstOld second secondOld less

private theorem covered_insert (addr : Nat) :
    Covered (tree.insert new) addr ↔ Covered tree addr ∨ new.Contains addr := by
  unfold Covered
  simp only [gaps.mem_insert nonempty clear]
  constructor
  · rintro ⟨gap, rfl | old, inside⟩
    · exact .inr inside
    · exact .inl ⟨gap, old, inside⟩
  · rintro (⟨gap, old, inside⟩ | inside)
    · exact ⟨gap, .inr old, inside⟩
    · exact ⟨new, .inl rfl, inside⟩

end Gaps

/-! ## Occupying a range -/

variable {index : GapIndex}

theorem wellFormed_new : WellFormed new where
  gaps := .nil
  belowTail _ member := absurd member AvlTree.not_mem_nil
  bounded := Nat.zero_le _

theorem free_new (addr : Nat) : Free new addr := .inr (Nat.zero_le addr)

theorem WellFormed.gap_of_free (wellFormed : WellFormed index) {low high : Nat}
    (nonempty : low < high) (free : ∀ addr, low ≤ addr → addr < high → index.Free addr) :
    (∃ gap ∈ index.root, gap.start ≤ low ∧ high ≤ gap.stop) ∨ index.tailStart ≤ low := by
  rcases free low le_rfl nonempty with ⟨gap, member, inside⟩ | inTail
  · refine .inl ⟨gap, member, inside.1, ?_⟩
    by_contra short
    -- The end of the gap would be free, yet no gap and no tail touches it.
    have atEnd := free gap.stop inside.2.le (not_le.mp short)
    rcases atEnd with ⟨other, otherMember, otherInside⟩ | tailReached
    · have positive := wellFormed.gaps.nonempty gap member
      obtain rfl : gap = other := wellFormed.gaps.eq_of_touching member otherMember otherInside.1
          (positive.le.trans otherInside.2.le)
      exact absurd otherInside.2 (lt_irrefl _)
    · have := wellFormed.belowTail gap member
      omega
  · exact .inr inTail

theorem WellFormed.insert (wellFormed : WellFormed index) {new : AddrRange}
    (clear : Gaps.Clear index.root new) (below : new.stop < index.tailStart) :
    WellFormed (index.insert new) ∧ (index.insert new).tailStart = index.tailStart ∧
      (∀ gap ∈ (index.insert new).root, gap = new ∨ gap ∈ index.root) ∧
      ∀ addr, Covered (index.insert new).root addr ↔
        Covered index.root addr ∨ new.Contains addr := by
  unfold GapIndex.insert
  split_ifs with nonempty
  · have members : ∀ gap ∈ index.root.insert new, gap = new ∨ gap ∈ index.root :=
      fun gap => (wellFormed.gaps.mem_insert nonempty clear).mp
    refine ⟨⟨wellFormed.gaps.insert nonempty clear, ?_, wellFormed.bounded⟩,
      rfl, members, wellFormed.gaps.covered_insert nonempty clear⟩
    intro gap member
    rcases members gap member with rfl | old
    · exact below
    · exact wellFormed.belowTail gap old
  · refine ⟨wellFormed, rfl, fun gap => .inr, fun addr => ?_⟩
    have empty : ¬ new.Contains addr := by
      unfold Contains
      omega
    simp [empty]

variable {range gap : AddrRange} {tree : GapTree}

/-- A run that starts in the tail: the part of the tail before it becomes a
gap, and the tail moves behind it. -/
private theorem occupy_tail (wellFormed : WellFormed index) (nonempty : range.start < range.stop)
    (bounded : range.stop ≤ usizeMax) (inTail : index.tailStart ≤ range.start) :
    ∃ after, index.occupy range = some after ∧ WellFormed after ∧
      ∀ addr, after.Free addr ↔ index.Free addr ∧ ¬ range.Contains addr := by
  have moved : WellFormed ⟨index.root, range.stop⟩ := ⟨wellFormed.gaps,
      fun gap member => (wellFormed.belowTail gap member).trans (inTail.trans_lt nonempty),
      bounded⟩
  have clear : Gaps.Clear index.root ⟨index.tailStart, range.start⟩ :=
    fun gap member => .inl (wellFormed.belowTail gap member)
  obtain ⟨afterWellFormed, tailEq, -, covered⟩ := moved.insert clear nonempty
  have shape : { index.insert ⟨index.tailStart, range.start⟩ with
      tailStart := range.stop } = .insert ⟨index.root, range.stop⟩
          ⟨index.tailStart, range.start⟩ := by
    unfold GapIndex.insert
    split_ifs <;> rfl
  refine ⟨_, if_pos inTail, ?_, ?_⟩
  · rw [shape]
    exact afterWellFormed
  · intro addr
    rw [shape]
    unfold Free
    rw [covered, tailEq]
    have below : Covered index.root addr → addr < index.tailStart := by
      rintro ⟨gap, member, inside⟩
      exact inside.2.trans (wellFormed.belowTail gap member)
    simp only [Contains]
    constructor
    · rintro ((old | between) | behind)
      · have := below old
        exact ⟨.inl old, by omega⟩
      · exact ⟨.inr between.1, by omega⟩
      · exact ⟨.inr (by omega), by omega⟩
    · rintro ⟨old | tail, outside⟩
      · exact .inl (.inl old)
      · by_cases before : addr < range.start
        · exact .inl (.inr ⟨tail, before⟩)
        · exact .inr (by omega)

private theorem Gaps.predecessor_of_contains (gaps : Gaps tree) {addr : Nat}
    (member : gap ∈ tree) (inside : gap.Contains addr) : tree.predecessor addr = some gap := by
  cases answer : tree.predecessor addr with
  | none =>
    have := predecessor_eq_none gaps.ordered answer member
    have := inside.1
    omega
  | some other =>
    obtain ⟨otherMember, otherBefore, otherLast⟩ := predecessor_eq_some gaps.ordered answer
    have later := otherLast gap member inside.1
    have positive := gaps.nonempty other otherMember
    have reaches := inside.2
    rw [gaps.eq_of_touching otherMember member (by omega) (by omega)]

theorem Gaps.clear_remove (gaps : Gaps tree) (member : gap ∈ tree) :
    Clear (tree.remove gap.start) gap := by
  intro other otherMember
  obtain ⟨old, differs⟩ := (mem_remove gaps.ordered).mp otherMember
  rcases lt_or_gt_of_ne differs with before | behind
  · exact .inl (gaps.apart other old gap member before)
  · exact .inr (gaps.apart gap member other old behind)

section

variable (wellFormed : WellFormed index)
include wellFormed

theorem WellFormed.remove (start : Nat) : WellFormed ⟨index.root.remove start, index.tailStart⟩ :=
  ⟨wellFormed.gaps.remove start, fun other otherMember => wellFormed.belowTail other
      ((mem_remove wellFormed.gaps.ordered).mp otherMember).1,
    wellFormed.bounded⟩

private theorem occupy_gap (nonempty : range.start < range.stop) (member : gap ∈ index.root)
    (above : gap.start ≤ range.start) (within : range.stop ≤ gap.stop) :
    ∃ after, index.occupy range = some after ∧ WellFormed after ∧
      ∀ addr, after.Free addr ↔ index.Free addr ∧ ¬ range.Contains addr := by
  have gapBelow := wellFormed.belowTail gap member
  have found : index.root.predecessor range.start = some gap :=
    wellFormed.gaps.predecessor_of_contains member ⟨above, by omega⟩
  have distant := wellFormed.gaps.clear_remove member
  have leftClear : Gaps.Clear (index.root.remove gap.start) ⟨gap.start, range.start⟩ := by
    intro other otherMember
    have := distant other otherMember
    simp only
    omega
  obtain ⟨leftWellFormed, leftTail, leftMembers, leftCovered⟩ :=
    (wellFormed.remove gap.start).insert leftClear (show range.start < index.tailStart by omega)
  have rightClear : Gaps.Clear (GapIndex.insert ⟨index.root.remove gap.start, index.tailStart⟩
        ⟨gap.start, range.start⟩).root ⟨range.stop, gap.stop⟩ := by
    intro other otherMember
    rcases leftMembers other otherMember with rfl | oldMember
    · exact .inl nonempty
    · have := distant other oldMember
      simp only
      omega
  obtain ⟨afterWellFormed, afterTail, -, afterCovered⟩ := leftWellFormed.insert rightClear
      (show gap.stop < _ by rw [leftTail]; exact gapBelow)
  refine ⟨_, ?_, afterWellFormed, ?_⟩
  · unfold occupy
    rw [if_neg (by omega), found]
    exact if_pos within
  intro addr
  unfold Free
  rw [afterCovered, leftCovered, afterTail, leftTail, wellFormed.gaps.covered_remove member]
  have elsewhere : Covered (index.root.remove gap.start) addr → ¬ gap.Contains addr := by
    rintro ⟨other, otherMember, inside⟩ contained
    have := distant other otherMember
    unfold Contains at inside contained
    omega
  simp only [Contains] at elsewhere ⊢
  constructor
  · rintro (((old | left) | right) | tail)
    · have := elsewhere old
      exact ⟨.inl (.inl old), by omega⟩
    · exact ⟨.inl (.inr (by omega)), by omega⟩
    · exact ⟨.inl (.inr (by omega)), by omega⟩
    · exact ⟨.inr tail, by omega⟩
  · rintro ⟨(old | inGap) | tail, outside⟩
    · exact .inl (.inl (.inl old))
    · by_cases before : addr < range.start
      · exact .inl (.inl (.inr ⟨inGap.1, before⟩))
      · exact .inl (.inr ⟨by omega, inGap.2⟩)
    · exact .inr tail

theorem occupy_spec (nonempty : range.start < range.stop) (bounded : range.stop ≤ usizeMax)
    (free : ∀ addr, range.Contains addr → index.Free addr) :
    ∃ after, index.occupy range = some after ∧ WellFormed after ∧
      ∀ addr, after.Free addr ↔ index.Free addr ∧ ¬ range.Contains addr := by
  rcases wellFormed.gap_of_free nonempty (fun addr above below => free addr ⟨above, below⟩) with
    ⟨gap, member, above, within⟩ | inTail
  · exact occupy_gap wellFormed nonempty member above within
  · exact occupy_tail wellFormed nonempty bounded inTail

end

/-! ## Releasing a range -/

/-- Gaps that start by the start of `range` also end before it. -/
def Leads (tree : GapTree) (range : AddrRange) : Prop :=
  ∀ gap ∈ tree, gap.start ≤ range.start → gap.stop < range.start

/-- `merged` is `tree` with some gaps moved into `range`: nothing else changes
about what is covered. -/
structure Merges (tree : GapTree) (range : AddrRange) (merged : GapTree × AddrRange) : Prop where
  gaps : Gaps merged.1
  older : ∀ gap ∈ merged.1, gap ∈ tree
  start_le : merged.2.start ≤ range.start
  stop_ge : range.stop ≤ merged.2.stop
  bounded : ∀ bound, range.stop ≤ bound → (∀ gap ∈ tree, gap.stop ≤ bound) → merged.2.stop ≤ bound
  covered : ∀ addr, (Covered merged.1 addr ∨ merged.2.Contains addr) ↔
      (Covered tree addr ∨ range.Contains addr)

namespace Merges

variable {tree : GapTree} {range : AddrRange}

protected theorem refl (gaps : Gaps tree) : Merges tree range (tree, range) :=
  ⟨gaps, fun _ => id, le_rfl, le_rfl, fun _ reached _ => reached, fun _ => .rfl⟩

protected theorem trans {first second : GapTree × AddrRange}
    (one : Merges tree range first) (two : Merges first.1 first.2 second) :
    Merges tree range second where
  gaps := two.gaps
  older gap member := one.older gap (two.older gap member)
  start_le := two.start_le.trans one.start_le
  stop_ge := one.stop_ge.trans two.stop_ge
  bounded bound reached all := two.bounded bound (one.bounded bound reached all)
      (fun gap member => all gap (one.older gap member))
  covered addr := (two.covered addr).trans (one.covered addr)

protected theorem remove (gaps : Gaps tree) {gap : AddrRange} (member : gap ∈ tree)
    (rangeReaches : gap.start ≤ range.stop) (gapReaches : range.start ≤ gap.stop) :
    Merges tree range (tree.remove gap.start,
      ⟨min range.start gap.start, max range.stop gap.stop⟩) where
  gaps := gaps.remove gap.start
  older other member := ((mem_remove gaps.ordered).mp member).1
  start_le := min_le_left _ _
  stop_ge := le_max_left _ _
  bounded bound reached all := Nat.max_le.mpr ⟨reached, all gap member⟩
  covered addr := by
    rw [gaps.covered_remove member, or_assoc]
    apply or_congr_right
    simp only [Contains]
    omega

end Merges

private theorem absorbPrevious_spec (gaps : Gaps tree) (nonempty : range.start < range.stop) :
    Merges tree range (absorbPrevious tree range) ∧
      Leads (absorbPrevious tree range).1 (absorbPrevious tree range).2 := by
  cases answer : tree.predecessor range.start with
  | none =>
    have unchanged : absorbPrevious tree range = (tree, range) := by
      simp [absorbPrevious, answer]
    rw [unchanged]
    refine ⟨.refl gaps, fun gap member before => ?_⟩
    have := predecessor_eq_none gaps.ordered answer member
    simp only at before
    omega
  | some previous =>
    obtain ⟨member, before, last⟩ := predecessor_eq_some gaps.ordered answer
    by_cases touching : range.start ≤ previous.stop
    · have merged : absorbPrevious tree range =
          (tree.remove previous.start, ⟨min range.start previous.start,
            max range.stop previous.stop⟩) := by
        simp [absorbPrevious, answer, touching, min_eq_right before]
      rw [merged]
      refine ⟨.remove gaps member (before.trans nonempty.le) touching,
        fun gap old earlier => ?_⟩
      have := gaps.clear_remove member gap old
      simp only at earlier ⊢
      omega
    · have unchanged : absorbPrevious tree range = (tree, range) := by
        simp [absorbPrevious, answer, touching]
      rw [unchanged]
      refine ⟨.refl gaps, fun gap old earlier => ?_⟩
      simp only at old earlier ⊢
      by_cases same : gap.start = previous.start
      · rw [gaps.eq_of_start old member same]
        omega
      · have := last gap old earlier
        have := gaps.apart gap old previous member (by omega)
        omega

/-- The loop swallows every gap that touches the range: what is left keeps its
distance on both sides. -/
private theorem absorb_spec (fuel : Nat) (gaps : Gaps tree)
    (nonempty : range.start < range.stop) (leads : Leads tree range)
    (enough : tree.toList.length ≤ fuel) :
    Merges tree range (absorb fuel tree range) ∧
      Gaps.Clear (absorb fuel tree range).1 (absorb fuel tree range).2 := by
  -- Each round removes one gap, so the fuel outlasts the tree.
  induction fuel generalizing tree range with
  | zero =>
    obtain rfl : tree = .nil := by
      cases tree with
      | nil => rfl
      | node => simp at enough
    exact ⟨.refl gaps, fun gap member => absurd member AvlTree.not_mem_nil⟩
  | succ fuel ih =>
    cases answer : tree.successor range.start with
    | none =>
      have finished : absorb (fuel + 1) tree range = (tree, range) := by
        simp [absorb, answer]
      rw [finished]
      refine ⟨Merges.refl gaps, fun gap member => .inl ?_⟩
      have := successor_eq_none gaps.ordered answer member
      exact leads gap member (by omega)
    | some next =>
      obtain ⟨member, behind, first⟩ := successor_eq_some gaps.ordered answer
      by_cases distant : range.stop < next.start
      · have finished : absorb (fuel + 1) tree range = (tree, range) := by
          simp [absorb, answer, distant]
        rw [finished]
        refine ⟨Merges.refl gaps, fun gap old => ?_⟩
        by_cases later : range.start ≤ gap.start
        · exact .inr (distant.trans_le (first gap old later))
        · exact .inl (leads gap old (by omega))
      · have merging : absorb (fuel + 1) tree range = absorb fuel (tree.remove next.start)
              ⟨min range.start next.start, max range.stop next.stop⟩ := by
          simp [absorb, answer, distant, min_eq_left behind]
        have shorter := length_remove gaps.ordered member
        have positive := gaps.nonempty next member
        have merges : Merges tree range (tree.remove next.start,
            ⟨min range.start next.start, max range.stop next.stop⟩) :=
          .remove gaps member (by omega) (by omega)
        have restLeads : Leads (tree.remove next.start)
            ⟨min range.start next.start, max range.stop next.stop⟩ := by
          intro gap old earlier
          simp only [min_eq_left behind] at earlier ⊢
          exact leads gap (merges.older gap old) earlier
        have restNonempty : min range.start next.start < max range.stop next.stop := by omega
        have restEnough : (tree.remove next.start).toList.length ≤ fuel := by omega
        obtain ⟨rest, clear⟩ := ih merges.gaps restNonempty restLeads restEnough
        rw [merging]
        exact ⟨merges.trans rest, clear⟩

theorem touchTail_spec {tailStart : Nat} (nonempty : range.start < range.stop) :
    (touchTail tailStart range).stop = range.stop ∧ (touchTail tailStart range).start < range.stop ∧
      (tailStart ≤ range.stop → (touchTail tailStart range).start ≤ tailStart) ∧
      ∀ addr, ((touchTail tailStart range).Contains addr ∨ tailStart ≤ addr) ↔
        (range.Contains addr ∨ tailStart ≤ addr) := by
  unfold touchTail Contains
  split_ifs with reached
  · refine ⟨rfl, (min_le_left _ _).trans_lt nonempty, fun _ => min_le_right _ _, fun addr => ?_⟩
    simp only
    omega
  · exact ⟨rfl, nonempty, fun contrary => absurd contrary reached, fun _ => .rfl⟩

private theorem publish_spec {tailStart : Nat} (wellFormed : WellFormed ⟨tree, tailStart⟩)
    (clear : Gaps.Clear tree range)
    (reachesTail : tailStart ≤ range.stop → range.start ≤ tailStart) :
    WellFormed (publish tailStart (tree, range)) ∧
      ∀ addr, (publish tailStart (tree, range)).Free addr ↔
        (Covered tree addr ∨ range.Contains addr) ∨ tailStart ≤ addr := by
  by_cases reached : tailStart ≤ range.stop
  · have startBelow := reachesTail reached
    have published : publish tailStart (tree, range) = ⟨tree, range.start⟩ := if_pos reached
    rw [published]
    refine ⟨⟨wellFormed.gaps, ?_, startBelow.trans wellFormed.bounded⟩, ?_⟩
    · intro gap member
      have below : gap.stop < tailStart := wellFormed.belowTail gap member
      have positive := wellFormed.gaps.nonempty gap member
      have distance := clear gap member
      simp only
      omega
    · intro addr
      rw [or_assoc]
      apply or_congr_right
      simp only [Contains]
      omega
  · have published : publish tailStart (tree, range) =
        .insert ⟨tree, tailStart⟩ range := if_neg reached
    obtain ⟨afterWellFormed, tailEq, -, covered⟩ := wellFormed.insert clear (not_le.mp reached)
    rw [published]
    refine ⟨afterWellFormed, fun addr => ?_⟩
    unfold Free
    rw [covered, tailEq]

theorem release_merges (wellFormed : WellFormed index) (nonempty : range.start < range.stop) :
    ∃ tree merged, index.release range = publish index.tailStart (tree, merged) ∧
        Merges index.root (touchTail index.tailStart range) (tree, merged) ∧
        Gaps.Clear tree merged := by
  obtain ⟨stopEq, touchedBelow, -, -⟩ := touchTail_spec nonempty
  have touchedNonempty := stopEq.symm ▸ touchedBelow
  obtain ⟨previousMerges, leads⟩ := absorbPrevious_spec wellFormed.gaps touchedNonempty
  have previousNonempty := previousMerges.start_le.trans_lt
    (touchedNonempty.trans_le previousMerges.stop_ge)
  obtain ⟨loopMerges, clear⟩ := absorb_spec _ previousMerges.gaps previousNonempty leads le_rfl
  exact ⟨_, _, rfl, previousMerges.trans loopMerges, clear⟩

theorem release_spec (wellFormed : WellFormed index) (nonempty : range.start < range.stop) :
    WellFormed (index.release range) ∧ ∀ addr, (index.release range).Free addr ↔
        index.Free addr ∨ range.Contains addr := by
  obtain ⟨stopEq, -, touchedLow, touchedCover⟩ := touchTail_spec nonempty
  obtain ⟨tree, merged, released, merges, clear⟩ := release_merges wellFormed nonempty
  have remaining : WellFormed ⟨tree, index.tailStart⟩ := ⟨merges.gaps, fun gap member =>
      wellFormed.belowTail gap (merges.older gap member), wellFormed.bounded⟩
  have reachesTail : index.tailStart ≤ merged.stop → merged.start ≤ index.tailStart := by
    intro reached
    by_cases early : index.tailStart ≤ range.stop
    · exact merges.start_le.trans (touchedLow early)
    have short : merged.stop ≤ index.tailStart - 1 :=
      merges.bounded (index.tailStart - 1) (by omega) (fun gap member =>
        Nat.le_sub_one_of_lt (wellFormed.belowTail gap member))
    omega
  obtain ⟨afterWellFormed, free⟩ := publish_spec remaining clear reachesTail
  rw [released]
  refine ⟨afterWellFormed, fun addr => ?_⟩
  rw [free addr, merges.covered addr, or_assoc, touchedCover addr]
  unfold Free
  tauto

end GapIndex

end TgosKits
