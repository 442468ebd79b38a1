import TgosKits.Buddy.Init

/-! # Runs of the buddy allocator -/

namespace TgosKits

open DyadicTiling BuddyAllocator BuddySection

structure LiveBlock where
  addr : Nat
  order : Nat
  deriving DecidableEq, Repr

/-- The allocator and the blocks handed out by it. -/
structure BuddyRun where
  allocator : BuddyAllocator
  live : List LiveBlock

inductive BuddyAction where
  | addRegion (spec : SectionInitSpec)
  | allocPages (count align : Nat)
  | allocPagesLowmem (count align : Nat)
  | deallocPages (block : LiveBlock) (count : Nat)

namespace BuddyRun

def start : BuddyRun := ⟨.new, []⟩

def noteAnswer (count : Nat) (live : List LiveBlock) : Except AllocError Nat → List LiveBlock
  | .ok addr => ⟨addr, orderFor count⟩ :: live
  | .error _ => live

def perform (virtToPhys : Nat → Nat) (pageSize : Nat) (run : BuddyRun) : BuddyAction → BuddyRun
  | .addRegion spec =>
    match run.allocator.addRegionRaw pageSize spec with
    | .ok allocator => { run with allocator := allocator }
    | .error _ => run
  | .allocPages count align =>
    match run.allocator.allocPages pageSize count align with
    | (answer, allocator) => ⟨allocator, noteAnswer count run.live answer⟩
  | .allocPagesLowmem count align =>
    match run.allocator.allocPagesLowmem virtToPhys pageSize count align with
    | (answer, allocator) => ⟨allocator, noteAnswer count run.live answer⟩
  | .deallocPages block count =>
    ⟨run.allocator.deallocPages pageSize block.addr count, run.live.erase block⟩

/-- What callers promise: a heap lies behind the start of its region, and only
live blocks are freed. -/
def Permitted (run : BuddyRun) : BuddyAction → Prop
  | .addRegion spec => spec.regionStart ≤ spec.heapStart
  | .deallocPages block _ => block ∈ run.live
  | _ => True

/-- The frame numbers of an added heap fit into the links of the lists. -/
def Fits (pageSize : Nat) : BuddyAction → Prop
  | .addRegion spec => spec.heapSize / pageSize ≤ u32Max
  | _ => True

def liveIn (pageSize : Nat) (state : BuddySection) (live : List LiveBlock) : Set Block :=
  {block | block.start < state.totalPages ∧
    (⟨state.heapStart + block.start * pageSize, block.order⟩ : LiveBlock) ∈
      live}

def HeapsApart (first second : BuddySection) : Prop :=
  first.heapStart + first.heapSize ≤ second.heapStart ∨
    second.heapStart + second.heapSize ≤ first.heapStart

structure Invariant (pageSize : Nat) (run : BuddyRun) : Prop where
  sound : ∀ state ∈ run.allocator.sections, state.Sound pageSize (liveIn pageSize state run.live)
  inRegion : ∀ state ∈ run.allocator.sections, state.regionStart ≤ state.heapStart ∧
      state.heapStart + state.heapSize ≤ state.regionStart + state.regionSize
  apart : run.allocator.sections.Pairwise HeapsApart
  owned : ∀ block ∈ run.live, ∃ state ∈ run.allocator.sections,
    ∃ pfn < state.totalPages, block.addr = state.heapStart + pfn * pageSize
  nodup : run.live.Nodup
  origin : ∀ state ∈ run.allocator.sections, ∃ spec fresh, initAt pageSize spec = .ok fresh ∧
      spec.heapSize / pageSize ≤ u32Max ∧ fresh.SameHeap state

variable {pageSize : Nat} {run : BuddyRun} {state after : BuddySection} {live : List LiveBlock}

/-! ## One section among others -/

private theorem liveIn_sameHeap (same : state.SameHeap after) :
    liveIn pageSize after live = liveIn pageSize state live := by
  rw [same]
  rfl

variable {set : Set Block} {pfn order align count : Nat}
  {before rest : List BuddySection} {answer : Except AllocError Nat} {allocator : BuddyAllocator}

theorem dimensions_sameHeap (same : state.SameHeap after) :
    after.heapStart = state.heapStart ∧ after.heapSize = state.heapSize ∧
      after.totalPages = state.totalPages := by
  rw [same]
  exact ⟨rfl, rfl, rfl⟩

theorem addr_in_heap (sound : state.Sound pageSize set) (below : pfn < state.totalPages) :
    state.heapStart ≤ state.heapStart + pfn * pageSize ∧ state.heapStart + pfn * pageSize <
        state.heapStart + state.heapSize := by
  have positive := Nat.pos_of_isPowerOfTwo sound.powerOfTwo
  rw [sound.pagesEq] at below
  have scaled : (pfn + 1) * pageSize ≤ state.heapSize :=
    (Nat.mul_le_mul_right pageSize below).trans (Nat.div_mul_le_self _ _)
  rw [Nat.succ_mul] at scaled
  omega

theorem addr_ne_of_apart {other : BuddySection} {otherSet : Set Block}
    (sound : state.Sound pageSize set) (otherSound : other.Sound pageSize otherSet)
    (apart : HeapsApart state other) {start : Nat} (below : pfn < state.totalPages)
    (startBelow : start < other.totalPages) :
    other.heapStart + start * pageSize ≠ state.heapStart + pfn * pageSize := by
  have here := addr_in_heap sound below
  have there := addr_in_heap otherSound startBelow
  unfold HeapsApart at apart
  omega

instance : Std.Symm HeapsApart := ⟨fun _ _ => Or.symm⟩

theorem apart_from (apart : (before ++ state :: rest).Pairwise HeapsApart)
    {other : BuddySection} (member : other ∈ before ∨ other ∈ rest) : HeapsApart state other := by
  obtain ⟨-, behind, across⟩ := List.pairwise_append.mp apart
  rcases member with earlier | later
  · exact Or.symm (across other earlier state List.mem_cons_self)
  · exact (List.pairwise_cons.mp behind).1 other later

/-- Replacing a section by one with the same heap, when only the blocks at one of
its own addresses come or go. -/
theorem Invariant.replace {liveAfter : List LiveBlock}
    (invariant : Invariant pageSize ⟨⟨before ++ state :: rest⟩, live⟩) (same : state.SameHeap after)
    (sound : after.Sound pageSize (liveIn pageSize state liveAfter))
    (below : pfn < state.totalPages) (concerns : ∀ block : LiveBlock,
      block.addr ≠ state.heapStart + pfn * pageSize →
        (block ∈ liveAfter ↔ block ∈ live)) (nodup : liveAfter.Nodup) :
    Invariant pageSize ⟨⟨before ++ after :: rest⟩, liveAfter⟩ := by
  have inside : state ∈ before ++ state :: rest := by simp
  obtain ⟨heapStartEq, heapSizeEq, totalEq⟩ := dimensions_sameHeap same
  -- A member of the new list is the new section or an old one apart from it.
  have members : ∀ other ∈ before ++ after :: rest, other = after ∨
        (other ∈ before ++ state :: rest ∧ HeapsApart state other) := by
    intro other member
    rw [List.mem_append, List.mem_cons] at member
    rcases member with earlier | rfl | later
    · exact .inr ⟨List.mem_append_left _ earlier, apart_from invariant.apart (.inl earlier)⟩
    · exact .inl rfl
    · exact .inr ⟨List.mem_append_right _ (List.mem_cons_of_mem _ later),
        apart_from invariant.apart (.inr later)⟩
  have untouched : ∀ other ∈ before ++ state :: rest, HeapsApart state other →
        liveIn pageSize other liveAfter = liveIn pageSize other live := by
    intro other member apart
    ext block
    apply and_congr_right
    intro startBelow
    apply concerns
    exact addr_ne_of_apart (invariant.sound state inside)
      (invariant.sound other member) apart below startBelow
  refine ⟨?_, ?_, ?_, ?_, nodup, ?_⟩
  · intro other member
    rcases members other member with rfl | ⟨old, apart⟩
    · rw [liveIn_sameHeap same]
      exact sound
    · rw [untouched other old apart]
      exact invariant.sound other old
  · intro other member
    rcases members other member with rfl | ⟨old, -⟩
    · rw [same]
      exact invariant.inRegion state inside
    · exact invariant.inRegion other old
  · have apart := invariant.apart
    simp only [List.pairwise_append, List.pairwise_cons, List.mem_cons,
      forall_eq_or_imp, HeapsApart, heapStartEq, heapSizeEq] at apart ⊢
    exact apart
  · intro block member
    by_cases atBlock : block.addr = state.heapStart + pfn * pageSize
    · exact ⟨after, by simp, pfn, totalEq ▸ below, heapStartEq ▸ atBlock⟩
    obtain ⟨owner, ownerMember, start, startBelow, addrEq⟩ :=
      invariant.owned block ((concerns block atBlock).mp member)
    rw [List.mem_append, List.mem_cons] at ownerMember
    rcases ownerMember with earlier | rfl | later
    · exact ⟨owner, by simp [earlier], start, startBelow, addrEq⟩
    · exact ⟨after, by simp, start, totalEq ▸ startBelow, heapStartEq ▸ addrEq⟩
    · exact ⟨owner, by simp [later], start, startBelow, addrEq⟩
  · intro other member
    rcases members other member with rfl | ⟨old, -⟩
    · obtain ⟨spec, fresh, done, small, sameFresh⟩ := invariant.origin state inside
      refine ⟨spec, fresh, done, small, ?_⟩
      unfold BuddySection.SameHeap at *
      rw [same, sameFresh]
    · exact invariant.origin other old

/-! ## Allocation -/

private theorem allocFirst_spec (alloc : BuddySection → Except AllocError Nat × BuddySection)
    {liveOf : BuddySection → Set Block} (sections : List BuddySection)
    (each : ∀ state ∈ sections, BuddySection.Allocated pageSize order align
      state (liveOf state) (alloc state)) :
    allocFirst alloc sections = (.error .noMemory, sections) ∨ ∃ before state rest target after,
        sections = before ++ state :: rest ∧
        allocFirst alloc sections = (.ok (state.heapStart + target * pageSize),
            before ++ after :: rest) ∧
        after.Sound pageSize (insert ⟨target, order⟩ (liveOf state)) ∧
        (⟨target, order⟩ : Block) ∉ liveOf state ∧
        align ∣ state.heapStart + target * pageSize ∧
        state.SameHeap after := by
  induction sections with
  | nil => exact .inl rfl
  | cons state rest ih =>
    have first := each state List.mem_cons_self
    unfold allocFirst
    generalize alloc state = outcome at first
    cases first with
    | granted target after sound fresh aligned same =>
      exact .inr ⟨[], state, rest, target, after, rfl, rfl, sound, fresh, aligned, same⟩
    | refused =>
      rcases ih (fun other member =>
        each other (List.mem_cons_of_mem state member)) with refused |
        ⟨before, other, behind, target, after, split, done, sound, fresh, aligned, same⟩
      · simp only [refused]
        exact .inl trivial
      · simp only [done]
        exact .inr ⟨state :: before, other, behind, target, after,
          by rw [split]; rfl, rfl, sound, fresh, aligned, same⟩

structure Grant (pageSize : Nat) (run : BuddyRun) (count align addr : Nat) : Prop where
  inHeap : ∃ state ∈ run.allocator.sections, state.heapStart ≤ addr ∧
    addr + 2 ^ orderFor count * pageSize ≤ state.heapStart + state.heapSize
  aligned : (if align = 0 then pageSize else align) ∣ addr
  covers : count ≤ 2 ^ orderFor count
  disjoint : ∀ block ∈ run.live, addr + 2 ^ orderFor count * pageSize ≤ block.addr ∨
      block.addr + 2 ^ block.order * pageSize ≤ addr

private theorem le_two_pow_orderFor (count : Nat) : count ≤ 2 ^ orderFor count := by
  unfold orderFor
  split
  · next small => simpa using small
  · have bound := Nat.lt_log2_self (n := count - 1)
    omega

private theorem checkRequest_eq_ok {aligned : Nat}
    (accepted : checkRequest pageSize count align = .ok (order, aligned)) :
    order = orderFor count ∧ order ≤ maxOrder ∧ aligned = (if align = 0 then pageSize else align) ∧
      aligned.isPowerOfTwo ∧ pageSize ≤ aligned := by
  simp only [checkRequest] at accepted
  generalize (if align = 0 then pageSize else align) = effective at *
  split at accepted
  · cases accepted
  split at accepted
  · cases accepted
  rename_i valid
  split at accepted
  · cases accepted
  rename_i small
  cases accepted
  rw [not_or, not_not, not_lt] at valid
  exact ⟨rfl, not_lt.mp small, rfl, valid.1, valid.2⟩

theorem Sound.block_in_heap (sound : state.Sound pageSize set) {block : Block}
    (member : block ∈ set) :
    state.heapStart + block.start * pageSize + block.size * pageSize ≤
      state.heapStart + state.heapSize := by
  obtain ⟨free, arranged, -⟩ := sound.arranged
  have within := arranged.tiling.within block (.inl (.inr member))
  have scaled := Nat.mul_le_mul_right pageSize within
  have heap := Nat.div_mul_le_self state.heapSize pageSize
  rw [sound.pagesEq, Nat.add_mul] at scaled
  omega

private theorem Sound.blocks_apart (sound : state.Sound pageSize set) {first second : Block}
    (firstMember : first ∈ set) (secondMember : second ∈ set) (different : first ≠ second) :
    state.heapStart + first.start * pageSize + first.size * pageSize ≤
        state.heapStart + second.start * pageSize ∨
      state.heapStart + second.start * pageSize + second.size * pageSize ≤
        state.heapStart + first.start * pageSize := by
  obtain ⟨free, arranged, -⟩ := sound.arranged
  have apart : first.start + first.size ≤ second.start ∨
      second.start + second.size ≤ first.start := by
    by_contra meeting
    have firstPositive := first.size_pos
    have secondPositive := second.size_pos
    apply different
    apply arranged.tiling.disjoint first (.inl (.inr firstMember)) second
      (.inl (.inr secondMember)) (max first.start second.start)
    · exact ⟨by omega, by omega⟩
    · exact ⟨by omega, by omega⟩
  rcases apart with before | behind
  · have scaled := Nat.mul_le_mul_right pageSize before
    rw [add_mul] at scaled
    omega
  · have scaled := Nat.mul_le_mul_right pageSize behind
    rw [add_mul] at scaled
    omega

section

variable (invariant : run.Invariant pageSize)
include invariant

theorem Invariant.live_apart {first second : LiveBlock} (firstMember : first ∈ run.live)
    (secondMember : second ∈ run.live) (different : first ≠ second) :
    first.addr + 2 ^ first.order * pageSize ≤ second.addr ∨
      second.addr + 2 ^ second.order * pageSize ≤ first.addr := by
  obtain ⟨state, member, pfn, below, addrEq⟩ := invariant.owned first firstMember
  obtain ⟨other, otherMember, start, startBelow, otherEq⟩ := invariant.owned second secondMember
  have inSet : (⟨pfn, first.order⟩ : Block) ∈
      liveIn pageSize state run.live := ⟨below, addrEq ▸ firstMember⟩
  have otherSet : (⟨start, second.order⟩ : Block) ∈
      liveIn pageSize other run.live := ⟨startBelow, otherEq ▸ secondMember⟩
  rw [addrEq, otherEq]
  by_cases here : state = other
  · subst here
    apply Sound.blocks_apart (invariant.sound state member) inSet otherSet
    intro equal
    apply different
    obtain ⟨addr, order⟩ := first
    obtain ⟨otherAddr, otherOrder⟩ := second
    simp only [Block.mk.injEq] at equal addrEq otherEq
    rw [addrEq, otherEq, equal.1, equal.2]
  · have apart : HeapsApart state other := invariant.apart.forall member otherMember here
    have inHeap := Sound.block_in_heap (invariant.sound state member) inSet
    have otherHeap := Sound.block_in_heap (invariant.sound other otherMember) otherSet
    simp only [Block.size] at inHeap otherHeap
    unfold HeapsApart at apart
    omega

theorem Invariant.granted {target : Nat} (split : run.allocator.sections = before ++ state :: rest)
    (sound : after.Sound pageSize (insert ⟨target, orderFor count⟩
        (liveIn pageSize state run.live)))
    (fresh : (⟨target, orderFor count⟩ : Block) ∉ liveIn pageSize state run.live)
    (same : state.SameHeap after)
    (aligned : (if align = 0 then pageSize else align) ∣ state.heapStart + target * pageSize) :
    Invariant pageSize ⟨⟨before ++ after :: rest⟩, ⟨state.heapStart + target * pageSize,
          orderFor count⟩ :: run.live⟩ ∧
      Grant pageSize run count align (state.heapStart + target * pageSize) := by
  have inside : state ∈ run.allocator.sections := by simp [split]
  obtain ⟨heapStartEq, heapSizeEq, totalEq⟩ := dimensions_sameHeap same
  have inHeap := Sound.block_in_heap sound (.inl rfl)
  simp only [heapStartEq, heapSizeEq, Block.size] at inHeap
  have positive := Nat.pos_of_isPowerOfTwo sound.powerOfTwo
  obtain ⟨free, arranged, -⟩ := sound.arranged
  have within := arranged.tiling.within ⟨target, orderFor count⟩ (.inl (.inr (.inl rfl)))
  simp only [totalEq, Block.size] at within
  have below : target < state.totalPages := by
    have := Nat.two_pow_pos (orderFor count)
    omega
  have liveAfter : liveIn pageSize state
      (⟨state.heapStart + target * pageSize, orderFor count⟩ :: run.live) =
      insert ⟨target, orderFor count⟩ (liveIn pageSize state run.live) := by
    ext ⟨start, order⟩
    simp only [liveIn, List.mem_cons, LiveBlock.mk.injEq, Nat.add_left_cancel_iff,
      Nat.mul_left_inj positive.ne', Set.mem_insert_iff, Block.mk.injEq,
      Set.mem_ofPred_eq]
    constructor
    · rintro ⟨startBelow, equal | member⟩
      · exact .inl equal
      · exact .inr ⟨startBelow, member⟩
    · rintro (equal | ⟨startBelow, member⟩)
      · exact ⟨equal.1 ▸ below, .inl equal⟩
      · exact ⟨startBelow, .inr member⟩
  have unrecorded : (⟨state.heapStart + target * pageSize,
      orderFor count⟩ : LiveBlock) ∉ run.live :=
    fun member => fresh ⟨below, member⟩
  have whole : Invariant pageSize ⟨⟨before ++ state :: rest⟩, run.live⟩ := by
    rw [← split]
    exact invariant
  have invariantAfter : Invariant pageSize ⟨⟨before ++ after :: rest⟩,
      ⟨state.heapStart + target * pageSize, orderFor count⟩ :: run.live⟩ := by
    apply whole.replace same (liveAfter ▸ sound) below
    · intro block different
      rw [List.mem_cons, or_iff_right]
      intro equal
      exact different (congrArg LiveBlock.addr equal)
    · exact List.nodup_cons.mpr ⟨unrecorded, invariant.nodup⟩
  refine ⟨invariantAfter, ⟨state, inside, Nat.le_add_right _ _, inHeap⟩,
    aligned, le_two_pow_orderFor count, fun block member => ?_⟩
  exact invariantAfter.live_apart List.mem_cons_self
    (List.mem_cons_of_mem _ member) (fun equal => unrecorded (equal ▸ member))

theorem Invariant.alloc {alloc : Nat → Nat → BuddySection → Except AllocError Nat × BuddySection}
    (each : ∀ order effective (state : BuddySection) (set : Set Block),
      state.Sound pageSize set → effective.isPowerOfTwo →
      pageSize ≤ effective → BuddySection.Allocated pageSize order effective
        state set (alloc order effective state))
    (done : (match checkRequest pageSize count align with
      | .error error => (.error error, run.allocator)
      | .ok (order, align) =>
          match allocFirst (alloc order align) run.allocator.sections with
          | (answer, sections) => (answer, (⟨sections⟩ : BuddyAllocator))) =
        (answer, allocator)) :
    Invariant pageSize ⟨allocator, noteAnswer count run.live answer⟩ ∧
      ∀ addr, answer = .ok addr → Grant pageSize run count align addr := by
  cases accepted : checkRequest pageSize count align with
  | error error =>
    rw [accepted] at done
    cases done
    exact ⟨invariant, fun _ impossible => by cases impossible⟩
  | ok request =>
    obtain ⟨order, effective⟩ := request
    obtain ⟨rfl, -, rfl, power, atLeast⟩ := checkRequest_eq_ok accepted
    rw [accepted] at done
    simp only at done
    rcases allocFirst_spec (alloc (orderFor count) _) run.allocator.sections
      (fun state member => each _ _ state _ (invariant.sound state member)
        power atLeast) with refused |
      ⟨before, state, rest, target, after, split, granted, sound, fresh, aligned, same⟩
    · rw [refused] at done
      cases done
      exact ⟨invariant, fun _ impossible => by cases impossible⟩
    rw [granted] at done
    cases done
    obtain ⟨invariantAfter, grant⟩ := invariant.granted split sound fresh same aligned
    refine ⟨invariantAfter, fun addr same => ?_⟩
    cases same
    exact grant

end

/-! ## Deallocation -/

private theorem deallocFirst_eq {addr : Nat}
    (elsewhere : ∀ other ∈ before, other.containsHeapAddr addr = false)
    (here : state.containsHeapAddr addr = true) :
    deallocFirst pageSize addr (before ++ state :: rest) = before ++
        state.deallocInSection ((addr - state.heapStart) / pageSize) (state.lists.pageMeta
            ((addr - state.heapStart) / pageSize)).order :: rest := by
  induction before with
  | nil => simp [deallocFirst, here]
  | cons other before ih =>
    have outside := elsewhere other List.mem_cons_self
    simp only [List.cons_append, deallocFirst, outside]
    rw [ih (fun further member =>
      elsewhere further (List.mem_cons_of_mem other member))]
    rfl

theorem Invariant.dealloc (invariant : run.Invariant pageSize) {block : LiveBlock}
    (member : block ∈ run.live) (count : Nat) :
    Invariant pageSize ⟨run.allocator.deallocPages pageSize block.addr count,
        run.live.erase block⟩ := by
  obtain ⟨state, inside, pfn, below, addrEq⟩ := invariant.owned block member
  have sound := invariant.sound state inside
  have positive := Nat.pos_of_isPowerOfTwo sound.powerOfTwo
  obtain ⟨before, rest, split⟩ := List.append_of_mem inside
  have inHeap := addr_in_heap sound below
  have whole : Invariant pageSize ⟨⟨before ++ state :: rest⟩, run.live⟩ := by
    rw [← split]
    exact invariant
  have elsewhere : ∀ other ∈ before, other.containsHeapAddr block.addr = false := by
    intro other earlier
    have apart := apart_from whole.apart (.inl earlier)
    unfold HeapsApart at apart
    simp only [containsHeapAddr, decide_eq_false_iff_not, addrEq]
    omega
  have here : state.containsHeapAddr block.addr = true := by
    simp only [containsHeapAddr, decide_eq_true_eq, addrEq]
    exact inHeap
  have inSet : (⟨pfn, block.order⟩ : Block) ∈
      liveIn pageSize state run.live := ⟨below, addrEq ▸ member⟩
  have pfnEq : (block.addr - state.heapStart) / pageSize = pfn := by
    rw [addrEq, Nat.add_sub_cancel_left, Nat.mul_div_cancel _ positive]
  have orderEq : (state.lists.pageMeta pfn).order = block.order := by
    obtain ⟨free, arranged, -⟩ := sound.arranged
    exact (arranged.liveMarked _ inSet).2
  obtain ⟨soundAfter, same⟩ := deallocInSection_spec sound inSet
  have liveAfter : liveIn pageSize state (run.live.erase block) =
      liveIn pageSize state run.live \ {⟨pfn, block.order⟩} := by
    ext ⟨start, order⟩
    simp only [liveIn, Set.mem_ofPred_eq, Set.mem_sdiff,
      Set.mem_singleton_iff, Block.mk.injEq, invariant.nodup.mem_erase_iff]
    have sameBlock : (⟨state.heapStart + start * pageSize, order⟩ :
        LiveBlock) = block ↔ start = pfn ∧ order = block.order := by
      obtain ⟨addr, level⟩ := block
      simp only at addrEq
      rw [LiveBlock.mk.injEq, addrEq, Nat.add_left_cancel_iff, Nat.mul_left_inj positive.ne']
    tauto
  unfold deallocPages
  rw [split, deallocFirst_eq elsewhere here, pfnEq, orderEq]
  apply whole.replace same (liveAfter ▸ soundAfter) below
  · intro other different
    apply List.mem_erase_of_ne
    intro equal
    exact different (equal ▸ addrEq)
  · exact invariant.nodup.erase block

/-! ## Adding a region -/

theorem Invariant.addRegion (invariant : run.Invariant pageSize) {spec : SectionInitSpec}
    (small : spec.heapSize / pageSize ≤ u32Max) (behind : spec.regionStart ≤ spec.heapStart)
    (done : run.allocator.addRegionRaw pageSize spec = .ok allocator) :
    Invariant pageSize { run with allocator := allocator } := by
  unfold addRegionRaw at done
  split at done
  swap
  · cases done
  rename_i regionEnd heapEnd regionSum heapSum
  obtain ⟨rfl, -⟩ := checkedAdd_eq_some_iff.mp regionSum
  obtain ⟨rfl, -⟩ := checkedAdd_eq_some_iff.mp heapSum
  split at done
  · cases done
  rename_i inRegion
  split at done
  · cases done
  rename_i noMeeting
  split at done
  · cases done
  rename_i fresh initialised
  cases done
  obtain ⟨sound, -, same⟩ := initAt_sound small initialised
  have startEq : fresh.heapStart = spec.heapStart := (dimensions_sameHeap same).1
  have sizeEq : fresh.heapSize = spec.heapSize := (dimensions_sameHeap same).2.1
  have apart : ∀ other ∈ run.allocator.sections, HeapsApart other fresh := by
    intro other member
    have inOther := invariant.inRegion other member
    have separate : ¬ regionsMeet spec other = true := by
      intro meeting
      exact noMeeting (List.any_eq_true.mpr ⟨other, member, meeting⟩)
    simp only [regionsMeet, decide_eq_true_eq] at separate
    unfold HeapsApart
    omega
  have nothingLive : liveIn pageSize fresh run.live = ∅ := by
    rw [Set.eq_empty_iff_forall_notMem]
    rintro block ⟨below, member⟩
    obtain ⟨owner, ownerMember, pfn, pfnBelow, addrEq⟩ := invariant.owned _ member
    exact addr_ne_of_apart (invariant.sound owner ownerMember) sound
      (apart owner ownerMember) pfnBelow below addrEq
  refine ⟨List.forall_mem_append.mpr ⟨invariant.sound, ?_⟩,
    List.forall_mem_append.mpr ⟨invariant.inRegion, ?_⟩,
    List.pairwise_append.mpr ⟨invariant.apart, List.pairwise_singleton _ _, ?_⟩, ?_,
    invariant.nodup, List.forall_mem_append.mpr ⟨invariant.origin, ?_⟩⟩
  · rw [List.forall_mem_singleton, nothingLive]
    exact sound
  · rw [List.forall_mem_singleton, same]
    exact ⟨behind, not_lt.mp inRegion⟩
  · intro other member
    exact List.forall_mem_singleton.mpr (apart other member)
  · intro block member
    obtain ⟨owner, ownerMember, rest⟩ := invariant.owned block member
    exact ⟨owner, List.mem_append_left _ ownerMember, rest⟩
  · exact List.forall_mem_singleton.mpr ⟨spec, fresh, initialised, small, rfl⟩

/-! ## Runs -/

def Step (virtToPhys : Nat → Nat) (pageSize : Nat) (before after : BuddyRun) : Prop :=
  ∃ action, before.Permitted action ∧ before.perform virtToPhys pageSize action = after

def FittingStep (virtToPhys : Nat → Nat) (pageSize : Nat) (before after : BuddyRun) : Prop :=
  ∃ action, before.Permitted action ∧ Fits pageSize action ∧
    before.perform virtToPhys pageSize action = after

variable {virtToPhys : Nat → Nat}

private theorem invariant_start : start.Invariant pageSize where
  sound _ member := absurd member List.not_mem_nil
  inRegion _ member := absurd member List.not_mem_nil
  apart := .nil
  owned _ member := absurd member List.not_mem_nil
  nodup := List.nodup_nil
  origin _ member := absurd member List.not_mem_nil

section

variable (invariant : run.Invariant pageSize)
include invariant

/-- The allocation of a run keeps the invariant and grants a good block. -/
theorem Invariant.allocPages
    (done : run.allocator.allocPages pageSize count align = (answer, allocator)) :
    Invariant pageSize ⟨allocator, noteAnswer count run.live answer⟩ ∧
      ∀ addr, answer = .ok addr → Grant pageSize run count align addr :=
  invariant.alloc (fun _ _ _ _ sound power atLeast =>
      allocFromSectionAligned_spec sound power atLeast) done

theorem Invariant.allocPagesLowmem
    (done : run.allocator.allocPagesLowmem virtToPhys pageSize count align = (answer, allocator)) :
    Invariant pageSize ⟨allocator, noteAnswer count run.live answer⟩ ∧
      ∀ addr, answer = .ok addr → Grant pageSize run count align addr :=
  invariant.alloc (fun _ _ _ _ sound power atLeast =>
      allocLowmemFromSection_spec sound power atLeast virtToPhys)
    done

theorem Invariant.step {after : BuddyRun} (step : FittingStep virtToPhys pageSize run after) :
    after.Invariant pageSize := by
  obtain ⟨action, permitted, fits, rfl⟩ := step
  cases action with
  | addRegion spec =>
    simp only [perform]
    split
    · next done => exact invariant.addRegion fits permitted done
    · exact invariant
  | allocPages count align => exact (invariant.allocPages rfl).1
  | allocPagesLowmem count align => exact (invariant.allocPagesLowmem rfl).1
  | deallocPages block count => exact invariant.dealloc permitted count

end

def Reachable (virtToPhys : Nat → Nat) (pageSize : Nat) (run : BuddyRun) : Prop :=
  Relation.ReflTransGen (FittingStep virtToPhys pageSize) start run

theorem Reachable.invariant (reachable : Reachable virtToPhys pageSize run) :
    run.Invariant pageSize := by
  induction reachable with
  | refl => exact invariant_start
  | tail _ step ih => exact ih.step step

end BuddyRun

end TgosKits
