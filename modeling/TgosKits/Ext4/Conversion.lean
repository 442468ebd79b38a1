import TgosKits.Ext4.Convert
import TgosKits.Ext4.Insertion

/-! # What a conversion does to the tree -/

namespace TgosKits

open ExtentM BlockTree List.Pairwise Ext4Extent List Option Failing

def convertedMapping (start stop : Nat) (unwritten : Bool) (lblock : Nat)
    (mapping : Option (Nat × Bool)) : Option (Nat × Bool) :=
  if start ≤ lblock ∧ lblock < stop then
    mapping.map fun target => (target.1, unwritten)
  else
    mapping

/-- Every extent lies inside the range or outside of it. -/
def Separates (start stop : Nat) (extents : List Ext4Extent) : Prop := ∀ extent ∈ extents,
    start ≤ extent.eeBlock ∧ extent.eeBlock + extent.len ≤ stop ∨
      extent.eeBlock + extent.len ≤ start ∨ stop ≤ extent.eeBlock

/-! ## Pieces -/

/-- The extents that map `[logical, logical + len)` to the blocks from `physical`
on, all in one state. -/
structure PieceOf (logical physical len : Nat) (unwritten : Bool)
    (extents : List Ext4Extent) : Prop where
  mapping : ∀ lblock, mappingOf extents lblock =
    if logical ≤ lblock ∧ lblock < logical + len then
      some (physical + (lblock - logical), unwritten)
    else none
  bounds : ExtentsIn logical (logical + len) extents
  first : 0 < len → extents.head?.map eeBlock = some logical

theorem bind_eq_ok_iff {Value Result : Type} {outcome : Except Ext4Error Value}
    {next : Value → Except Ext4Error Result} {result : Result} :
    (outcome >>= next) = .ok result ↔ ∃ value, outcome = .ok value ∧ next value = .ok result := by
  cases outcome <;> simp [bind, Except.bind]

section

variable {logical physical len start : Nat} {unwritten : Bool} {operation : String}
  {extent original : Ext4Extent} {extents before after new : List Ext4Extent}

theorem pieceOf_singleton (positive : 0 < extent.len) :
    PieceOf extent.eeBlock extent.eeStart extent.len extent.isUnwritten [extent] := by
  refine ⟨?_, ?_, fun _ => rfl⟩
  · intro lblock
    rw [mappingOf_cons]
    rfl
  · exact extentsIn_cons.mpr ⟨le_refl _, positive, le_refl _, nil, by simp⟩

section

variable (ran : buildExtentWithState logical physical len unwritten operation = .ok extent)
  (small : physical < physicalLimit)
include ran small

private theorem run_of_buildExtentWithState (short : len ≤ extInitMaxLen) :
    extent.run = ⟨logical, len, physical, unwritten⟩ := by
  unfold buildExtentWithState at ran
  cases unwritten with
  | true =>
    simp only [if_true, newUnwritten] at ran
    cases coded : encodeLen len true with
    | none =>
      rw [coded] at ran
      cases ran
    | some rawLen =>
      rw [coded] at ran
      cases ran
      rcases encodeLen_some coded with ⟨_, decoded, state⟩
      unfold Ext4Extent.run Ext4Extent.len Ext4Extent.startBlock isUnwritten new
      simp [decoded, state, Nat.mod_eq_of_lt small]
  | false =>
    have fits : len < 2 ^ 16 := by
      have bound : len ≤ 32768 := short
      omega
    rw [if_pos fits] at ran
    cases ran
    have bound : len ≤ 32768 := short
    unfold Ext4Extent.run Ext4Extent.len Ext4Extent.startBlock isUnwritten new decodeLen
      extInitMaxLen extUnwrittenFlag
    simp only [Nat.mod_eq_of_lt small]
    have state : decide (len > 0x8000) = false := by
      rw [decide_eq_false_iff_not]
      omega
    rw [state]
    split_ifs with full
    · rw [beq_iff_eq] at full
      rw [full]
    · rw [beq_iff_eq] at full
      rw [Nat.mod_eq_of_lt (by omega)]

theorem pieceOf_buildExtentWithState (positive : 0 < len) (short : len ≤ extInitMaxLen) :
    PieceOf logical physical len unwritten [extent] := by
  have run := run_of_buildExtentWithState ran small short
  have block : extent.eeBlock = logical := congrArg Run.first run
  have length : extent.len = len := congrArg Run.count run
  have target : extent.eeStart = physical := congrArg Run.target run
  have state : extent.isUnwritten = unwritten := congrArg Run.state run
  have piece : PieceOf extent.eeBlock extent.eeStart extent.len
      extent.isUnwritten [extent] := pieceOf_singleton (by omega)
  rwa [block, length, target, state] at piece

end

theorem pieceOf_buildPiece (ran : buildPiece logical physical len unwritten operation = .ok extents)
    (small : 0 < len → physical < physicalLimit)
    (short : len ≤ extInitMaxLen) : PieceOf logical physical len unwritten extents := by
  unfold buildPiece at ran
  split_ifs at ran with empty
  · cases ran
    subst empty
    refine ⟨fun lblock => ?_, ⟨nil, by simp⟩, by simp⟩
    rw [if_neg (by omega)]
    rfl
  · rcases map_eq_ok_iff.mp ran with ⟨extent, built, rfl⟩
    exact pieceOf_buildExtentWithState built (small (by omega)) (by omega) short

theorem PieceOf.separates {stop : Nat} (piece : PieceOf logical physical len unwritten extents)
    (apart : start ≤ logical ∧ logical + len ≤ stop ∨ logical + len ≤ start ∨ stop ≤ logical) :
    Separates start stop extents := by
  intro extent member
  have bounds := piece.bounds.inside extent member
  omega

theorem Separates.append {stop : Nat} (left : Separates start stop before)
    (right : Separates start stop after) : Separates start stop (before ++ after) := by
  intro extent member
  rcases mem_append.mp member with member | member
  · exact left extent member
  · exact right extent member

/-- What the pieces of an extent keep, and what they change. -/
structure PiecesOf (original : Ext4Extent) (start stop : Nat) (unwritten : Bool)
    (pieces : List Ext4Extent) : Prop where
  lower : original.eeBlock ≤ start
  upper : stop ≤ original.eeBlock + original.len
  bounds : ExtentsIn original.eeBlock (original.eeBlock + original.len) pieces
  first : pieces.head?.map eeBlock = some original.eeBlock
  remaps : Remaps (convertedMapping start stop unwritten) [original] pieces
  separates : Separates start stop pieces

theorem rewriteExtent_ok {expected middle : Bool} {pieces : List Ext4Extent}
    (ran : rewriteExtent original start len expected middle = .ok pieces)
    (lower : original.eeBlock ≤ start)
    (physical : original.eeStart + original.len ≤ physicalLimit) (positive : 0 < len) :
    PiecesOf original start (start + len) middle pieces ∧ original.isUnwritten = expected := by
  have longest : original.len ≤ extInitMaxLen := decodeLen_le
  have limit : physicalLimit = 2 ^ 48 := rfl
  have start48 : original.startBlock = original.eeStart := rfl
  unfold rewriteExtent at ran
  dsimp only at ran
  iterate 4
    split at ran
    · cases ran
  rename_i state logical range crossing
  rcases bind_eq_ok_iff.mp ran with ⟨leftPiece, left, ran⟩
  rw [if_neg (by omega)] at ran
  rcases bind_eq_ok_iff.mp ran with ⟨middlePiece, mid, ran⟩
  rw [if_neg (by omega)] at ran
  rcases bind_eq_ok_iff.mp ran with ⟨rightPiece, right, ran⟩
  cases ran
  have leftOf := pieceOf_buildPiece left (by omega) (by omega)
  have midOf := pieceOf_buildExtentWithState mid (by omega) positive (by omega)
  have rightOf := pieceOf_buildPiece right (by omega) (by omega)
  have expectedState : original.isUnwritten = expected := by
    simpa only [bne_iff_ne, ne_eq, not_not] using state
  have whole : PieceOf original.eeBlock original.eeStart original.len
      original.isUnwritten [original] := pieceOf_singleton (by omega)
  refine ⟨⟨lower, by omega, ?_, ?_, ?_, ?_⟩, expectedState⟩
  · have tail := midOf.bounds.append rightOf.bounds (by omega) (by omega)
    exact (leftOf.bounds.mono le_rfl (by omega)).append (tail.mono le_rfl (by omega)) lower
      (by omega)
  · by_cases cut : start - original.eeBlock = 0
    · have none : leftPiece = [] := by
        rw [eq_nil_iff_forall_not_mem]
        intro extent member
        have bounds := leftOf.bounds.inside extent member
        omega
      rw [none, nil_append]
      refine (midOf.first positive).trans ?_
      congr 1
      omega
    · have first := leftOf.first (by omega)
      cases leftPiece with
      | nil => cases first
      | cons extent leftPiece => exact first
  · intro lblock
    have shape : leftPiece ++ middlePiece :: rightPiece =
        leftPiece ++ ([middlePiece] ++ rightPiece) := rfl
    rw [shape, mappingOf_append, mappingOf_append, leftOf.mapping,
      midOf.mapping, rightOf.mapping, whole.mapping, convertedMapping]
    by_cases inMiddle : start ≤ lblock ∧ lblock < start + len
    · simp only [if_pos inMiddle, some_or]
      rw [if_neg (by omega : ¬ (_ ∧ lblock < _ + (start - _))), if_pos (by omega)]
      simp only [none_or, map_some, some.injEq, Prod.mk.injEq, and_true]
      omega
    · simp only [if_neg inMiddle, none_or]
      by_cases inLeft : lblock < start
      · rw [if_neg (by omega : ¬ (start + len ≤ lblock ∧ _)), or_none]
        exact if_congr (by omega) rfl rfl
      · rw [if_neg (by omega : ¬ (_ ∧ lblock < _ + (start - _))), none_or]
        split_ifs <;> first | rfl | omega | (congr 2; omega)
  · have left := leftOf.separates (.inr (.inl (by omega : _ ≤ start)) : _ ∨ _ ∨ start + len ≤ _)
    have middle := midOf.separates (.inl ⟨le_refl start, le_refl (start + len)⟩)
    have right := rightOf.separates (.inr (.inr (le_refl (start + len))) : start ≤ _ ∧ _ ∨ _)
    exact left.append (middle.append right)

end

/-! ## Leaves -/

/-- The blocks of the range had one state and get another one; no other block
changes. -/
structure Converts (start stop : Nat) (expected unwritten : Bool)
    (old new : List Ext4Extent) : Prop where
  remaps : Remaps (convertedMapping start stop unwritten) old new
  was : ∀ lblock, start ≤ lblock → lblock < stop →
    ∃ block, mappingOf old lblock = some (block, expected)

section

variable {start stop len lo hi position : Nat} {expected unwritten : Bool}
  {extent : Ext4Extent} {entries new before after old : List Ext4Extent}

theorem localChange_converts : LocalChange start stop (Converts start stop expected unwritten) := by
  intro lo hi before old new after left right converts
  refine ⟨converts.remaps.between ?_ left right, ?_⟩
  · intro lblock mapping outside
    exact if_neg outside
  · intro lblock lower upper
    rcases converts.was lblock lower upper with ⟨block, mapping⟩
    refine ⟨block, ?_⟩
    rw [mappingOf_append, mappingOf_append, mappingOf_of_le left lower, mapping]
    rfl

theorem localChange_separates : LocalChange start stop fun old new =>
      Converts start stop expected unwritten old new ∧ Separates start stop new := by
  intro lo hi before old new after left right ⟨converts, separates⟩
  refine ⟨localChange_converts left right converts, ?_⟩
  have ahead : Separates start stop before := fun extent member =>
    .inr (.inl (left.inside extent member).2.2)
  have behind : Separates start stop after := fun extent member =>
    .inr (.inr (right.inside extent member).1)
  exact ahead.append (separates.append behind)

theorem eq_take_append_cons_drop (found : entries[position]? = some extent) :
    entries = entries.take position ++ extent :: entries.drop (position + 1) := by
  rcases List.getElem?_eq_some_iff.mp found with ⟨short, same⟩
  rw [← same, getElem_cons_drop, take_append_drop]

/-- What the change of one extent of a leaf means for the leaf. -/
structure LeafChanged (lo hi start stop : Nat) (change : List Ext4Extent → List Ext4Extent → Prop)
    (entries new : List Ext4Extent) : Prop where
  lower : lo ≤ start
  upper : stop ≤ hi
  bounds : ExtentsIn lo hi new
  first : ∃ key, entries.head?.map eeBlock = some key ∧
    new.head?.map eeBlock = some key
  changed : change entries new

theorem head_of_replaced {pieces : List Ext4Extent}
    (first : pieces.head?.map eeBlock = some extent.eeBlock) :
    ∃ key, (before ++ extent :: after).head?.map eeBlock = some key ∧
      (before ++ (pieces ++ after)).head?.map eeBlock = some key := by
  cases before with
  | nil =>
    cases pieces with
    | nil => cases first
    | cons piece pieces => exact ⟨_, rfl, first⟩
  | cons other before => exact ⟨_, rfl, rfl⟩

section

variable (inside : ExtentsIn lo hi (before ++ extent :: after))
include inside

theorem ExtentsIn.around :
    ExtentsIn lo extent.eeBlock before ∧ ExtentsIn (extent.eeBlock + extent.len) hi after ∧
      lo ≤ extent.eeBlock ∧ extent.eeBlock + extent.len ≤ hi := by
  rw [extentsIn_append] at inside
  rcases inside with ⟨first, second, cross⟩
  rcases extentsIn_cons.mp second with ⟨lower, _, upper, behind⟩
  refine ⟨⟨first.apart, fun other member => ?_⟩, behind, lower, upper⟩
  have bounds := first.inside other member
  exact ⟨bounds.1, bounds.2.1, (extentsIn_cons.mp (cross other member)).1⟩

theorem ExtentsIn.replace {pieces : List Ext4Extent}
    (pieces_in : ExtentsIn extent.eeBlock (extent.eeBlock + extent.len) pieces) :
    ExtentsIn lo hi (before ++ (pieces ++ after)) := by
  rcases inside.around with ⟨ahead, behind, lower, upper⟩
  exact ahead.append (pieces_in.append behind (by omega) upper) lower (by omega)

end

theorem splitExtentEntries_ok
    (ran : splitExtentEntries entries start len expected unwritten = .ok new)
    (inside : ExtentsIn lo hi entries)
    (physical : ∀ extent ∈ entries, extent.eeStart + extent.len ≤ physicalLimit)
    (positive : 0 < len) :
    LeafChanged lo hi start (start + len)
      (fun old new => Converts start (start + len) expected unwritten old new ∧
        Separates start (start + len) new) entries new := by
  unfold splitExtentEntries at ran
  split at ran
  · cases ran
  rename_i position place
  split at ran
  · cases ran
  rename_i original found
  split at ran
  · cases ran
  rename_i pieces rewritten
  simp only at ran
  split_ifs at ran with short
  cases ran
  have covered := of_findIdx?_eq_some place
  rw [found] at covered
  simp only [decide_eq_true_eq] at covered
  have shape := eq_take_append_cons_drop found
  generalize entries.take position = before at shape ⊢
  generalize entries.drop (position + 1) = after at shape ⊢
  subst shape
  have member : original ∈ before ++ original :: after := by simp
  rcases rewriteExtent_ok rewritten covered.1 (physical original member)
    positive with ⟨piecesOf, state⟩
  have lower := piecesOf.lower
  have upper := piecesOf.upper
  rcases inside.around with ⟨ahead, behind, low, high⟩
  refine ⟨by omega, by omega, inside.replace piecesOf.bounds, head_of_replaced piecesOf.first, ?_⟩
  have changed : Converts start (start + len) expected unwritten [original] pieces := by
    refine ⟨piecesOf.remaps, fun lblock above below => ?_⟩
    refine ⟨original.eeStart + (lblock - original.eeBlock), ?_⟩
    rw [mappingOf_cons, if_pos (by omega), state]
  exact localChange_separates (ahead.mono le_rfl lower)
    (behind.mono upper le_rfl) ⟨changed, piecesOf.separates⟩

theorem initializeExactEntries_ok (ran : initializeExactEntries entries start len = .ok new)
    (inside : ExtentsIn lo hi entries) :
    LeafChanged lo hi start (start + len)
      (Converts start (start + len) true false) entries new := by
  unfold initializeExactEntries at ran
  split at ran
  · cases ran
  rename_i position place
  split at ran
  · cases ran
  rename_i extent found
  split_ifs at ran with state
  split at ran
  · cases ran
  rename_i eeLen coded
  split at ran
  · cases ran
  rename_i merged mergeRan
  split_ifs at ran with short
  cases ran
  have exactly := of_findIdx?_eq_some place
  rw [found] at exactly
  simp only [decide_eq_true_eq] at exactly
  rcases exactly with ⟨rfl, rfl⟩
  simp only [Bool.not_eq_true', Bool.not_eq_false] at state
  have shape := eq_take_append_cons_drop found
  generalize entries.take position = before at shape mergeRan
  generalize entries.drop (position + 1) = after at shape mergeRan
  subst shape
  have merges := mergesTo_of_mergedNeighbors mergeRan
  rcases encodeLen_some coded with ⟨positive, decoded, written⟩
  have length : len { extent with eeLen } = extent.len := decoded
  have newState : isUnwritten { extent with eeLen } = false := written
  have single : ExtentsIn extent.eeBlock (extent.eeBlock + extent.len) [{ extent with eeLen }] := by
    refine extentsIn_cons.mpr ⟨le_refl _, by rwa [length], ?_, nil, by simp⟩
    rw [length]
  rcases inside.around with ⟨ahead, behind, low, high⟩
  refine ⟨low, high, merges.bounds _ _ (inside.replace single), ?_, ?_⟩
  · have sameBlock : [{ extent with eeLen }].head?.map eeBlock = some extent.eeBlock := rfl
    rcases head_of_replaced sameBlock with ⟨key, old, new⟩
    exact ⟨key, old, merges.first.trans new⟩
  · have changed : Converts extent.eeBlock (extent.eeBlock + extent.len) true
        false [extent] [{ extent with eeLen }] := by
      refine ⟨fun lblock => ?_, fun lblock above below => ?_⟩
      · rw [mappingOf_cons, mappingOf_cons, length, newState, convertedMapping]
        split_ifs <;> rfl
      · refine ⟨extent.eeStart + (lblock - extent.eeBlock), ?_⟩
        rw [mappingOf_cons, if_pos ⟨above, below⟩, state]
    have inPlace := localChange_converts ahead behind changed
    refine ⟨fun lblock => ?_, inPlace.was⟩
    rw [merges.mapping]
    exact inPlace.remaps lblock

end

/-! ## Steps -/

structure ConvertOutcome (geometry : ExtentGeometry) (services : ExtentServices)
    (used : List Nat) (state state' : ExtentState) (depth : Nat)
    (node node' : ExtentNode) (split : Option SplitInfo) (phyBlock : Option Nat)
    (lo hi start stop : Nat) (change : List Ext4Extent → List Ext4Extent → Prop) : Prop where
  lower : lo ≤ start
  upper : stop ≤ hi
  first : ∃ key, node.firstKey = some key ∧ node'.firstKey = some key
  frame : ∀ block ∈ used, ¬ Touched state.device lo hi block →
    state'.device block = state.device block
  grown : ∃ extents,
    change ((extentTree geometry).contents state.device depth node) extents ∧
      Grown geometry services state state' depth node' split lo hi extents
        (· ∈ (extentTree geometry).blocks state.device depth node)
  onDisk : ∀ block ∈ phyBlock, ∃ disk, HoldsNode geometry state'.device block node' disk

section

variable {geometry : ExtentGeometry} {services : ExtentServices} {state middle state' : ExtentState}
  {header : Ext4ExtentHeader} {entries merged : List Ext4Extent}
  {node node' child child' : ExtentNode} {used : List Nat} {phyBlock : Option Nat}
  {split : Option SplitInfo} {pre post : List Ext4ExtentIdx} {entry : Ext4ExtentIdx}
  {depth lo hi start stop len : Nat} {expected unwritten : Bool}
  {change : List Ext4Extent → List Ext4Extent → Prop}

theorem startBlock_keyed (right : ExtentNode) (key : Nat) (first : right.firstKey = some key) :
    (.ok right.startBlock : Except Ext4Error Nat) = .ok key := by
  rw [ExtentNode.startBlock_of_firstKey first]

private theorem ConvertOutcome.of_leaf (allocator : AllocatesUnused geometry services used)
    (ready : NodeReady geometry used state 0 (.leaf header entries) phyBlock lo hi)
    (capacity : 0 < header.ehMax) (changed : LeafChanged lo hi start stop change entries merged)
    (ran : settle geometry services
      (fun right => .ok right.startBlock) (.leafOf header merged) phyBlock state =
        (.ok (node', split), state')) :
    ConvertOutcome geometry services used state state' 0 (.leaf header entries)
      node' split phyBlock lo hi start stop change := by
  have sound : (extentTree geometry).Sound state.device 0 (.leafOf header merged) lo hi :=
    (sound_leaf rfl).mpr (items_iff_extentsIn.mpr changed.bounds)
  have knows : ∀ block ∈ (extentTree geometry).blocks state.device 0 (.leafOf header merged),
      block ∈ (extentTree geometry).blocks state.device 0 (.leaf header entries) := fun _ => id
  rcases settle_grown allocator startBlock_keyed ran ready.kind
    ready.depth_eq capacity sound rfl knows
    (fun own isOwn => ⟨ready.own_inUse isOwn, not_mem_nil⟩)
    (fun _ _ => not_mem_nil) with ⟨grown, disk, frame, same⟩
  rcases changed.first with ⟨key, oldFirst, newFirst⟩
  refine ⟨changed.lower, changed.upper, ⟨key, oldFirst, same.trans newFirst⟩, ?_,
    ⟨merged, changed.changed, grown⟩, disk⟩
  intro block inUse untouched
  exact frame block (fun isOwn => untouched (ready.own_touched isOwn oldFirst))
    (allocator.not_allocated inUse)

theorem ConvertOutcome.parent {header' : Ext4ExtentHeader}
    (localChange : LocalChange start stop change) (ready : NodeReady geometry used state (depth + 1)
      (.index header (pre ++ entry :: post)) phyBlock lo hi)
    (stored : state.device entry.block = some child) (accepted : geometry.Accepts depth entry child)
    (outcome : ConvertOutcome geometry services used state state' depth child
      child' split (some entry.block) entry.key (bound post hi) start
      stop change) :
    let node' := ExtentNode.index header'
      (pre ++ (entry :: split.toList.map SplitInfo.index ++ post))
    child'.startBlock = entry.key ∧ lo ≤ start ∧ stop ≤ hi ∧
      (extentTree geometry).Sound state'.device (depth + 1) node' lo hi ∧
      change ((extentTree geometry).contents state.device (depth + 1)
          (.index header (pre ++ entry :: post)))
        ((extentTree geometry).contents state'.device (depth + 1) node') ∧
      ∀ block ∈ (extentTree geometry).blocks state'.device (depth + 1) node',
        block ∈ (extentTree geometry).blocks state.device (depth + 1)
            (.index header (pre ++ entry :: post)) ∨
          Allocated services state.requests state'.requests block := by
  intro node'
  rcases outcome.first with ⟨key, oldFirst, newFirst⟩
  obtain rfl : key = entry.key := accepted.key key oldFirst
  rcases outcome.grown with ⟨extents, changed, grown⟩
  rcases outcome.onDisk entry.block rfl with ⟨disk, holds⟩
  rcases ready.sound.focus_bounds rfl with ⟨lower, nextLe⟩
  rcases ready.sound.focus rfl with ⟨before, _, behind⟩
  have startLower := outcome.lower
  have stopUpper := outcome.upper
  have shape : (extentTree geometry).view node' = .index (pre ++
      (⟨entry.key, entry.block⟩ :: split.toList.map SplitInfo.index ++ post)) := rfl
  rcases BlockTree.Regrown.parent ready.sound rfl (ready.kept outcome.frame)
    grown.regrown holds.stored holds.view
    (holds.accepts grown.depth_eq newFirst)
    (extentTree_firstKey.trans newFirst) (.inr le_rfl) shape with
    ⟨sound, contents, blocks⟩
  rw [min_eq_left lower] at sound
  refine ⟨ExtentNode.startBlock_of_firstKey newFirst, by omega, by omega, sound, ?_, ?_⟩
  · rw [contents, contents_focus rfl stored]
    exact localChange ((items_iff_extentsIn.mp before.inOrder).mono le_rfl startLower)
      ((items_iff_extentsIn.mp behind.inOrder).mono stopUpper le_rfl) changed
  · intro block member
    rcases blocks block member with old | known | allocated
    · exact .inl old
    · refine .inl ?_
      rw [blocks_focus rfl stored]
      exact mem_append_right _ (mem_append_left _ (mem_cons_of_mem _ known))
    · exact .inr allocated

private theorem rewriteIndexEntries_ok {extents : List Ext4Extent}
    {known : Nat → Prop} {indexes : List Ext4ExtentIdx}
    (ready : NodeReady geometry used state (depth + 1)
      (.index header (pre ++ entry :: post)) phyBlock lo hi)
    (grown : Grown geometry services state state' depth child' split entry.key
      (bound post hi) extents known) (first : child'.firstKey = some entry.key)
    (ran : rewriteIndexEntries (pre ++ entry :: post) split = .ok indexes) :
    indexes = pre ++ (entry :: split.toList.map SplitInfo.index ++ post) := by
  cases split with
  | none =>
    cases ran
    simp
  | some info =>
    rw [rewriteIndexEntries] at ran
    split_ifs at ran with short
    cases ran
    exact grown.place_split ready.sound (.inr le_rfl) first

section

variable (allocator : AllocatesUnused geometry services used)
include allocator

theorem ConvertOutcome.of_child {indexes : List Ext4ExtentIdx} {childSplit : Option SplitInfo}
    (localChange : LocalChange start stop change) (ready : NodeReady geometry used state (depth + 1)
      (.index header (pre ++ entry :: post)) phyBlock lo hi) (capacity : 0 < header.ehMax)
    (stored : state.device entry.block = some child) (accepted : geometry.Accepts depth entry child)
    (outcome : ConvertOutcome geometry services used state middle depth child
      child' childSplit (some entry.block) entry.key (bound post hi)
      start stop change) (indexesEq : rewriteIndexEntries
      (pre ++ ⟨child'.startBlock, entry.block⟩ :: post) childSplit = .ok indexes)
    (ran : settle geometry services
      (fun right => .ok right.startBlock) (.indexOf header indexes) phyBlock
      middle = (.ok (node', split), state')) :
    ConvertOutcome geometry services used state state' (depth + 1)
      (.index header (pre ++ entry :: post)) node' split phyBlock lo hi start stop
      change := by
  rcases outcome.parent localChange ready stored accepted with
    ⟨sameKey, lower, upper, sound, changed, blocks⟩
  rcases outcome.first with ⟨key, oldFirst, newFirst⟩
  obtain rfl : key = entry.key := accepted.key key oldFirst
  rcases outcome.grown with ⟨extents, _, grown⟩
  rw [sameKey] at indexesEq
  have shape := rewriteIndexEntries_ok ready grown newFirst indexesEq
  subst shape
  rcases settle_grown allocator startBlock_keyed ran ready.kind
    ready.depth_eq capacity sound rfl blocks (fun _ isOwn => ready.own_fresh isOwn allocator)
    (fun _ => allocator.fresh fun block member =>
      ready.inUse block (mem_append_right _ member)) with
    ⟨settled, onDisk, frame, same⟩
  refine ⟨lower, upper, ⟨_, firstKey_focus, same.trans firstKey_focus⟩, ?_,
    ⟨_, changed, settled.after grown⟩, onDisk⟩
  intro block blockInUse untouched
  rcases ready.sound.focus_bounds rfl with ⟨low, high⟩
  rw [frame block (fun isOwn => untouched (ready.own_touched isOwn firstKey_focus))
    (allocator.not_allocated blockInUse)]
  exact outcome.frame block blockInUse fun touched => untouched (touched.mono low high)

/-- What the preparation of a range does at a node, at any depth. -/
theorem splitExtentRecursive_outcome (positive : 0 < len)
    (ready : NodeReady geometry used state depth node phyBlock lo hi)
    (capacity : 0 < node.header.ehMax)
    (ran : splitExtentRecursive geometry services start len expected
      unwritten depth node phyBlock state = (.ok (node', split), state')) :
    ConvertOutcome geometry services used state state' depth node node' split
      phyBlock lo hi start (start + len)
      (fun old new => Converts start (start + len) expected unwritten old new ∧
        Separates start (start + len) new) := by
  induction depth generalizing node node' split phyBlock lo hi state' with
  | zero =>
    rcases exists_leaf_of_sound ready.sound with ⟨header, entries, rfl⟩
    rw [splitExtentRecursive] at ran
    rcases lift_bind_eq_ok_iff.mp ran with ⟨new, lifted, ran⟩
    have inside := items_iff_extentsIn.mp ((sound_leaf rfl).mp ready.sound)
    have inRange : ∀ extent ∈ entries, _ := ready.inRange
    exact .of_leaf allocator ready capacity (splitExtentEntries_ok lifted inside
      (fun extent member => (ExtentGeometry.le_of_validatePhysicalRange
        (inRange extent member)).trans geometry.blocks_le) positive) ran
  | succ depth ih =>
    rcases exists_index_of_sound ready.sound with ⟨header, indexes, rfl⟩
    have below : header.ehDepth - 1 = depth := by
      have same : header.ehDepth = depth + 1 := ready.depth_eq
      omega
    by_cases nonempty : indexes = []
    · subst nonempty
      cases ran
    rcases exists_focus start nonempty with ⟨pre, entry, post, rfl, place, _⟩
    rcases ready.exists_child with ⟨child, stored, read, accepted, childReady⟩
    rw [splitExtentRecursive, getElem?_focus place] at ran
    simp only [below, set_focus place] at ran
    rw [readChildNode_bind read] at ran
    rcases Failing.bind_eq_ok_iff.mp ran with ⟨⟨child', childSplit⟩, middle, childRan, ran⟩
    rcases lift_bind_eq_ok_iff.mp ran with ⟨new, lifted, ran⟩
    exact (ih childReady accepted.valid.max_pos childRan).of_child allocator
      localChange_separates ready capacity stored accepted lifted ran

end

/-- What marking a prepared range written does at a node, at any depth; nodes
further up are not written. -/
private theorem initializeExactRecursive_outcome
    (ready : NodeReady geometry used state depth node phyBlock lo hi)
    (ran : initializeExactRecursive geometry services start len depth node
      phyBlock state = (.ok node', state')) :
    ConvertOutcome geometry services used state state' depth node node' none
        phyBlock lo hi start (start + len)
        (Converts start (start + len) true false) ∧
      ∀ block held, state.device block = some held → depth < held.header.ehDepth →
        state'.device block = state.device block := by
  induction depth generalizing node node' phyBlock lo hi state' with
  | zero =>
    rcases exists_leaf_of_sound ready.sound with ⟨header, entries, rfl⟩
    rw [initializeExactRecursive] at ran
    rcases lift_bind_eq_ok_iff.mp ran with ⟨new, lifted, ran⟩
    rcases Failing.bind_eq_ok_iff.mp ran with ⟨_, middle, wrote, done⟩
    cases done
    have inside := items_iff_extentsIn.mp ((sound_leaf rfl).mp ready.sound)
    have changed := initializeExactEntries_ok lifted inside
    rcases writeBack_ok wrote with ⟨root, freed, requests, frame, disk⟩
    have sound : (extentTree geometry).Sound state'.device 0 (.leafOf header new) lo hi :=
      (sound_leaf rfl).mpr (items_iff_extentsIn.mpr changed.bounds)
    rcases changed.first with ⟨key, oldFirst, newFirst⟩
    refine ⟨⟨changed.lower, changed.upper, ⟨key, oldFirst, newFirst⟩, ?_,
      ⟨new, changed.changed, ready.kind, ready.depth_eq, requests, root, freed,
        .of_sound sound fun _ member => nomatch member⟩, ?_⟩,
      ?_⟩
    · intro block _ untouched
      exact frame block fun isOwn =>
        untouched (ready.own_touched isOwn oldFirst)
    · intro block isOwn
      rcases disk block isOwn with ⟨valid, stored⟩
      exact ⟨_, .of_valid ready.kind valid stored⟩
    · intro block held stored deep
      refine frame block fun isOwn => ?_
      rw [(ready.onDisk block isOwn).stored] at stored
      cases stored
      have shallow := ready.depth_eq
      omega
  | succ depth ih =>
    rcases exists_index_of_sound ready.sound with ⟨header, indexes, rfl⟩
    have depthEq : header.ehDepth = depth + 1 := ready.depth_eq
    have below : header.ehDepth - 1 = depth := by omega
    by_cases nonempty : indexes = []
    · subst nonempty
      cases ran
    rcases exists_focus start nonempty with ⟨pre, entry, post, rfl, place, _⟩
    rcases ready.exists_child with ⟨child, stored, read, accepted, childReady⟩
    rw [initializeExactRecursive, getElem?_focus place] at ran
    simp only [below] at ran
    rw [readChildNode_bind read] at ran
    rcases Failing.bind_eq_ok_iff.mp ran with ⟨child', middle, childRan, done⟩
    cases done
    rcases ih childReady childRan with ⟨outcome, shallow⟩
    rcases outcome.parent localChange_converts ready stored accepted with
      ⟨_, lower, upper, sound, changed, blocks⟩
    rcases outcome.grown with ⟨extents, _, grown⟩
    rcases ready.sound.focus_bounds rfl with ⟨low, high⟩
    refine ⟨⟨lower, upper, ⟨_, firstKey_focus, firstKey_focus⟩, ?_,
      ⟨_, changed, ready.kind, ready.depth_eq, grown.requests_le, grown.root_eq, grown.freed_eq,
        .of_sound sound blocks⟩, ?_⟩, ?_⟩
    · intro block blockInUse untouched
      exact outcome.frame block blockInUse fun touched =>
        untouched (touched.mono low high)
    · intro block isOwn
      have held := ready.onDisk block isOwn
      have same := shallow block _ held.stored (by
        rw [ready.depth_eq]
        omega)
      exact ⟨_, same.trans held.stored, rfl, held.kind, rfl, held.valid⟩
    · intro block held isStored deep
      exact shallow block held isStored (by omega)

end

/-! ## Whole conversions -/

section

variable {geometry : ExtentGeometry} {services : ExtentServices}
  {state state' : ExtentState} {start len : Nat} {expected unwritten : Bool}

theorem ExtentState.InSearchOrder.ready (tree : state.InSearchOrder geometry) :
    NodeReady geometry (state.nodeBlocks geometry) state
      state.root.header.ehDepth state.root none 0 (2 ^ 32) :=
  ⟨tree.kind, rfl, tree.sound, tree.valid.entries.inRange, fun _ => id, by simp⟩

theorem inSearchOrder_of_storeRoot {middle : ExtentState} {node : ExtentNode}
    {depth : Nat} {extents : List Ext4Extent} {known : Nat → Prop}
    (stored : storeRootToInode geometry node middle = (.ok (), state'))
    (grown : Grown geometry services state middle depth node none 0 (2 ^ 32) extents known) :
    state'.InSearchOrder geometry ∧ state'.extents geometry = extents := by
  rcases storeRootToInode_ok stored with ⟨valid, rfl⟩
  have sound := grown.regrown.sound
  have contents := grown.regrown.contents
  rw [← grown.depth_eq] at sound contents
  refine ⟨⟨grown.kind, valid, sound⟩, ?_⟩
  rw [← contents]
  exact (append_nil _).symm

section

variable (tree : state.InSearchOrder geometry)
include tree

/-- A successful preparation changes the state of the blocks of the range and no
other mapping, and no extent crosses the border of the range any more. -/
theorem prepareRange_ok {operation : String}
    (allocator : AllocatesUnused geometry services (state.nodeBlocks geometry))
    (ran : prepareRange geometry services operation start len expected
      unwritten state = (.ok (), state')) :
    state'.InSearchOrder geometry ∧
      Converts start (start + len) expected unwritten (state.extents geometry)
        (state'.extents geometry) ∧
      Separates start (start + len) (state'.extents geometry) := by
  unfold prepareRange at ran
  split_ifs at ran with length range
  · cases ran
  · cases ran
  rw [tree.loadRoot_bind] at ran
  rcases Failing.bind_eq_ok_iff.mp ran with ⟨⟨root', split⟩, middle, recursion, ran⟩
  have outcome := splitExtentRecursive_outcome allocator (by omega) tree.ready
    tree.valid.max_pos recursion
  rcases outcome.grown with ⟨extents, ⟨converts, separates⟩, grown⟩
  have stands : state'.InSearchOrder geometry ∧ state'.extents geometry = extents := by
    cases split with
    | none => exact inSearchOrder_of_storeRoot ran grown
    | some info =>
      rcases outcome.first with ⟨key, _, firstKey⟩
      exact promoteSplitRoot_ok allocator ran grown.kind grown.depth_eq firstKey grown.regrown
        fun _ => allocator.fresh fun _ => id
  rcases stands with ⟨stands, same⟩
  rw [same]
  exact ⟨stands, converts, separates⟩

private theorem finishUnwrittenWrite_ok
    (ran : finishUnwrittenWrite geometry services start len state = (.ok (), state')) :
    state'.InSearchOrder geometry ∧ Converts start (start + len) true false (state.extents geometry)
        (state'.extents geometry) := by
  unfold finishUnwrittenWrite at ran
  rw [tree.loadRoot_bind] at ran
  rcases Failing.bind_eq_ok_iff.mp ran with ⟨root', middle, recursion, stored⟩
  rcases initializeExactRecursive_outcome tree.ready recursion with ⟨outcome, _⟩
  rcases outcome.grown with ⟨extents, converts, grown⟩
  rcases inSearchOrder_of_storeRoot stored grown with ⟨stands, same⟩
  rw [same]
  exact ⟨stands, converts⟩

theorem Converts.mapBlock (tree' : state'.InSearchOrder geometry)
    (converts : Converts start (start + len) expected unwritten
      (state.extents geometry) (state'.extents geometry)) {lblock : Nat}
    (inside : lblock < 2 ^ 32) :
    if start ≤ lblock ∧ lblock < start + len then
      ∃ block, state.mapBlock geometry lblock = .ok (.ofMapping (some (block, expected))) ∧
        state'.mapBlock geometry lblock = .ok (.ofMapping (some (block, unwritten)))
    else
      state'.mapBlock geometry lblock = state.mapBlock geometry lblock := by
  have remapped := converts.remaps lblock
  rw [tree.mapBlock_eq inside, tree'.mapBlock_eq inside, remapped]
  by_cases within : start ≤ lblock ∧ lblock < start + len
  · rcases converts.was lblock within.1 within.2 with ⟨block, was⟩
    rw [if_pos within, was]
    refine ⟨block, rfl, ?_⟩
    rw [convertedMapping, if_pos within]
    rfl
  · rw [if_neg within, convertedMapping, if_neg within]

end

/-- Preparing an unwritten range changes no mapping and cuts the extents at its
borders; finishing it makes exactly the blocks of the range written; zeroing an
initialized range makes exactly its blocks unwritten. The tree can be read after
each of them. -/
theorem conversions_exact (tree : state.InSearchOrder geometry)
    (allocator : AllocatesUnused geometry services (state.nodeBlocks geometry)) :
    (∀ prepared, prepareUnwrittenWrite geometry services start len state = (.ok (), prepared) →
      prepared.InSearchOrder geometry ∧
      (∃ extents, prepared.allExtents geometry = .ok extents ∧
        Separates start (start + len) extents) ∧
      (∀ lblock < 2 ^ 32, prepared.mapBlock geometry lblock = state.mapBlock geometry lblock) ∧
      ∀ later finished, finishUnwrittenWrite geometry later start len
          prepared = (.ok (), finished) →
        finished.InSearchOrder geometry ∧
        (∃ extents, finished.allExtents geometry = .ok extents) ∧
        ∀ lblock < 2 ^ 32, if start ≤ lblock ∧ lblock < start + len then
            ∃ block, state.mapBlock geometry lblock = .ok (.unwritten block) ∧
              finished.mapBlock geometry lblock = .ok (.initialized block)
          else
            finished.mapBlock geometry lblock = state.mapBlock geometry lblock) ∧
    ∀ zeroed, prepareInitializedZero geometry services start len state = (.ok (), zeroed) →
      zeroed.InSearchOrder geometry ∧
      (∃ extents, zeroed.allExtents geometry = .ok extents) ∧
      ∀ lblock < 2 ^ 32, if start ≤ lblock ∧ lblock < start + len then
          ∃ block, state.mapBlock geometry lblock = .ok (.initialized block) ∧
            zeroed.mapBlock geometry lblock = .ok (.unwritten block)
        else
          zeroed.mapBlock geometry lblock = state.mapBlock geometry lblock := by
  refine ⟨?_, ?_⟩
  · intro prepared ran
    rcases prepareRange_ok tree allocator ran with ⟨preparedTree, converts, separates⟩
    have same : ∀ lblock < 2 ^ 32,
        prepared.mapBlock geometry lblock = state.mapBlock geometry lblock := by
      intro lblock inside
      have read := converts.mapBlock tree preparedTree inside
      by_cases within : start ≤ lblock ∧ lblock < start + len
      · rw [if_pos within] at read
        rcases read with ⟨block, before, after⟩
        exact after.trans before.symm
      · rw [if_neg within] at read
        exact read
    refine ⟨preparedTree, ⟨_, preparedTree.allExtents_eq, separates⟩, same, ?_⟩
    intro later finished finish
    rcases finishUnwrittenWrite_ok preparedTree finish with ⟨finishedTree, written⟩
    refine ⟨finishedTree, ⟨_, finishedTree.allExtents_eq⟩, ?_⟩
    intro lblock inside
    have read := written.mapBlock preparedTree finishedTree inside
    rw [same lblock inside] at read
    exact read
  · intro zeroed ran
    rcases prepareRange_ok tree allocator ran with ⟨zeroedTree, converts, _⟩
    exact ⟨zeroedTree, ⟨_, zeroedTree.allExtents_eq⟩, fun lblock inside =>
      converts.mapBlock tree zeroedTree inside⟩

end

def fullRoot : ExtentState where
  root := .leaf (magicHeader 4 4 0) [⟨0, 32768 + 10, 50⟩, ⟨20, 5, 70⟩, ⟨30, 5, 80⟩, ⟨40, 5, 90⟩]
  inodeBlocks := ⟨50, false⟩
  device _ := none
  requests := 0
  freed := []

private theorem fullRoot_inSearchOrder : fullRoot.InSearchOrder smallFilesystem := by
  have root : smallFilesystem.loadRoot fullRoot.root = .ok fullRoot.root := rfl
  rcases ExtentGeometry.loadRoot_eq_ok_iff.mp root with ⟨_, kind, valid⟩
  refine ⟨kind, valid, (sound_leaf rfl).mpr (items_iff_extentsIn.mpr ?_)⟩
  refine extentsIn_cons.mpr ⟨by decide, by decide, by decide, ?_⟩
  refine extentsIn_cons.mpr ⟨by decide, by decide, by decide, ?_⟩
  refine extentsIn_cons.mpr ⟨by decide, by decide, by decide, ?_⟩
  exact extentsIn_cons.mpr ⟨by decide, by decide, by decide, nil, by simp⟩

/-- Three blocks in the middle of the unwritten extent become written; the root is
split on the way. -/
theorem fullRoot_conversion : ∃ prepared finished, prepareUnwrittenWrite smallFilesystem
        spareServices 2 3 fullRoot = (.ok (), prepared) ∧
      finishUnwrittenWrite smallFilesystem spareServices 2 3 prepared = (.ok (), finished) ∧
      finished.InSearchOrder smallFilesystem ∧
      (∃ extents, finished.allExtents smallFilesystem = .ok extents) ∧
      ∀ lblock < 2 ^ 32, if 2 ≤ lblock ∧ lblock < 2 + 3 then
          ∃ block, fullRoot.mapBlock smallFilesystem lblock = .ok (.unwritten block) ∧
            finished.mapBlock smallFilesystem lblock = .ok (.initialized block)
        else
          finished.mapBlock smallFilesystem lblock = fullRoot.mapBlock smallFilesystem lblock := by
  refine ⟨_, _, rfl, rfl, ?_⟩
  exact ((conversions_exact fullRoot_inSearchOrder
    (spareServices_allocatesUnused (by decide))).1 _ rfl).2.2.2 spareServices _
    rfl

/-! ## Index entries out of order -/

/-- Every node passes the reader's checks, but the first leaf reaches past the key
of the second one. -/
def crossedLeaves : ExtentState where
  root := .index (magicHeader 2 4 1) [⟨0, 10⟩, ⟨50, 11⟩]
  inodeBlocks := ⟨100, false⟩
  device block :=
    match block with
    | 10 => some (.leaf (magicHeader 3 3 0) [⟨0, 32768 + 10, 500⟩, ⟨100, 10, 600⟩, ⟨200, 10, 700⟩])
    | 11 => some (.leaf (magicHeader 1 84 0) [⟨50, 10, 800⟩])
    | _ => none
  requests := 0
  freed := []

/-- Preparing a write splits the first leaf, and a hole becomes mapped. -/
theorem crossedLeaves_conversion : crossedLeaves.allExtents smallFilesystem =
        .ok [⟨0, 32768 + 10, 500⟩, ⟨100, 10, 600⟩, ⟨200, 10, 700⟩, ⟨50, 10, 800⟩] ∧
      crossedLeaves.mapBlock smallFilesystem 100 = .ok .hole ∧
      ∃ prepared, prepareUnwrittenWrite smallFilesystem spareServices 0 5
          crossedLeaves = (.ok (), prepared) ∧
        prepared.mapBlock smallFilesystem 100 = .ok (.initialized 600) := by
  exact ⟨rfl, rfl, _, rfl, rfl⟩

end TgosKits
