import TgosKits.Library.TreeEdit

/-! # Growing a search tree -/

namespace TgosKits.BlockTree

open List Function

variable {Content Item : Type} (tree : BlockTree Content Item)

/-- A node and the entries of the nodes split off to its right; `known` holds of
every block below. -/
structure Regrown (store : Nat → Option Content) (depth : Nat)
    (content : Content) (rights : List IndexEntry) (lo hi : Nat)
    (items : List Item) (known : Nat → Prop) : Prop where
  sound : tree.Sound store depth content lo (bound rights hi)
  spans : Spans (tree.Below store depth) rights hi
  contents : tree.contents store depth content ++
    rights.flatMap (gather store (tree.contents store depth)) = items
  blocks : ∀ block ∈ tree.blocks store depth content, known block
  rightBlocks : ∀ entry ∈ rights, ∀ block ∈ entry.block ::
    gather store (tree.blocks store depth) entry, known block

/-- The two parts of a node that is cut at the first key of the second one. -/
structure Halves (store : Nat → Option Content) (depth : Nat)
    (left right : Content) (key lo hi : Nat) (items : List Item) (known : Nat → Prop) : Prop where
  first : tree.firstKey right = some key
  low : tree.Sound store depth left lo key
  high : tree.Sound store depth right key hi
  contents : tree.contents store depth left ++ tree.contents store depth right = items
  blocks : ∀ block ∈ tree.blocks store depth left ++ tree.blocks store depth right, known block

variable {tree} {store store' : Nat → Option Content} {content content' left right disk : Content}
  {items : List Item} {pre post rights : List IndexEntry} {entry : IndexEntry}
  {depth lo lo' hi key block : Nat} {known known' : Nat → Prop}

/-! ## Nodes that look alike -/

section

variable (same : tree.view content' = tree.view content)
include same

private theorem Sound.of_view (sound : tree.Sound store depth content lo hi) :
    tree.Sound store depth content' lo hi := by
  cases depth with
  | zero =>
    rcases sound.exists_leaf with ⟨items, isLeaf⟩
    rw [sound_leaf isLeaf] at sound
    rwa [sound_leaf (same.trans isLeaf)]
  | succ depth =>
    rcases sound.exists_index with ⟨entries, isIndex⟩
    rw [sound_index isIndex] at sound
    rwa [sound_index (same.trans isIndex)]

theorem contents_of_view :
    tree.contents store depth content' = tree.contents store depth content := by
  cases depth <;> rw [contents, contents, same]

theorem blocks_of_view : tree.blocks store depth content' = tree.blocks store depth content := by
  cases depth with
  | zero => rfl
  | succ depth => rw [blocks, blocks, same]

theorem firstKey_of_view : tree.firstKey content' = tree.firstKey content := by
  rw [firstKey, firstKey, same]

end

section

variable (sound : tree.Sound store depth content lo hi)
include sound

theorem Sound.below (stored : store block = some disk) (same : tree.view disk = tree.view content)
    (accepted : tree.accepts depth ⟨key, block⟩ disk) (first : tree.firstKey content = some key) :
    tree.Below store depth ⟨key, block⟩ hi := by
  rcases sound.tighten first with ⟨tight, _, less⟩
  exact ⟨less, disk, stored, accepted, tight.of_view same⟩

/-! ## Parts of a node -/

theorem Regrown.of_sound (knows : ∀ block ∈ tree.blocks store depth content, known block) :
    tree.Regrown store depth content [] lo hi (tree.contents store depth content) known :=
  ⟨sound, trivial, by simp, knows, by simp⟩

end

section

variable (regrown : tree.Regrown store depth content rights lo hi items known)
include regrown

theorem Regrown.weaken (weaker : ∀ block, known block → known' block) :
    tree.Regrown store depth content rights lo hi items known' :=
  ⟨regrown.sound, regrown.spans, regrown.contents,
    fun block member => weaker block (regrown.blocks block member),
    fun entry member block inside =>
      weaker block (regrown.rightBlocks entry member block inside)⟩

theorem Regrown.congr (same : ∀ block, known block → store' block = store block) :
    tree.Regrown store' depth content rights lo hi items known := by
  rcases blind regrown.sound (fun block member =>
    same block (regrown.blocks block member)) with ⟨sound, contents, blocks⟩
  have keptRights := fun entry member block inside =>
    same block (regrown.rightBlocks entry member block inside)
  rcases blind.spans regrown.spans le_rfl keptRights with ⟨spans, rightContents, rightBlocks⟩
  refine ⟨sound, spans, ?_, ?_, ?_⟩
  · rw [contents, rightContents, regrown.contents]
  · rw [blocks]
    exact regrown.blocks
  · intro entry member block inside
    have listed : block ∈ rights.flatMap (tree.branch store' depth) :=
      mem_flatMap.mpr ⟨entry, member, inside⟩
    rw [rightBlocks] at listed
    rcases mem_flatMap.mp listed with ⟨other, otherMember, otherInside⟩
    exact regrown.rightBlocks other otherMember block otherInside

end

theorem Halves.regrown (halves : tree.Halves store depth left right key lo hi items known)
    (unknown : ¬ known block) (same : tree.view disk = tree.view right)
    (accepted : tree.accepts depth ⟨key, block⟩ disk) :
    tree.Regrown (update store block (some disk)) depth left [⟨key, block⟩] lo hi items
      (fun other => known other ∨ other = block) := by
  have kept : ∀ other, known other → update store block (some disk) other = store other := by
    intro other isKnown
    refine update_of_ne ?_ _ _
    rintro rfl
    exact unknown isKnown
  have knownLeft := fun other member =>
    halves.blocks other (mem_append_left _ member)
  have knownRight := fun other member =>
    halves.blocks other (mem_append_right _ member)
  rcases blind halves.low (fun other member =>
    kept other (knownLeft other member)) with ⟨low, lowContents, lowBlocks⟩
  rcases blind halves.high (fun other member =>
    kept other (knownRight other member)) with
    ⟨high, highContents, highBlocks⟩
  have stored : update store block (some disk)
      (IndexEntry.mk key block).block = some disk := update_self ..
  refine ⟨low, ⟨high.below stored same accepted halves.first, trivial⟩, ?_, ?_, ?_⟩
  · rw [flatMap_singleton, gather_of_some stored, contents_of_view same,
      lowContents, highContents, halves.contents]
  · intro other member
    rw [lowBlocks] at member
    exact .inl (knownLeft other member)
  · intro entry member other inside
    obtain rfl := mem_singleton.mp member
    rw [gather_of_some stored, blocks_of_view same, highBlocks] at inside
    rcases mem_cons.mp inside with rfl | inside
    · exact .inr rfl
    · exact .inl (knownRight other inside)

theorem Sound.leafHalves {leftItems rightItems : List Item} {item : Item}
    (sound : tree.Sound store 0 content lo hi)
    (shape : tree.view content = .leaf (leftItems ++ item :: rightItems))
    (shapeLeft : tree.view left = .leaf leftItems)
    (shapeRight : tree.view right = .leaf (item :: rightItems)) :
    tree.Halves store 0 left right (tree.first item) lo hi
      (tree.contents store 0 content) known := by
  have inside := (sound_leaf shape).mp sound
  rcases pairwise_append.mp inside.apart with ⟨apartLeft, apartRight, cross⟩
  have rightBehind : ∀ other ∈ item :: rightItems, tree.first item ≤ tree.first other := by
    intro other member
    rcases mem_cons.mp member with rfl | member
    · exact le_refl _
    · have apart := (pairwise_cons.mp apartRight).1 other member
      have bounds := inside.inside item (mem_append_right _ mem_cons_self)
      omega
  refine ⟨?_, ?_, ?_, ?_, ?_⟩
  · rw [firstKey_leaf shapeRight]
    rfl
  · rw [sound_leaf shapeLeft]
    refine ⟨apartLeft, fun other member => ?_⟩
    have bounds := inside.inside other (mem_append_left _ member)
    have apart := cross other member item mem_cons_self
    omega
  · rw [sound_leaf shapeRight]
    refine ⟨apartRight, fun other member => ?_⟩
    have bounds := inside.inside other (mem_append_right _ member)
    have behind := rightBehind other member
    omega
  · rw [contents_leaf shapeLeft, contents_leaf shapeRight, contents_leaf shape]
  · intro block member
    cases member

theorem Sound.indexHalves {leftEntries rightEntries : List IndexEntry}
    (sound : tree.Sound store (depth + 1) content lo hi)
    (shape : tree.view content = .index (leftEntries ++ entry :: rightEntries))
    (shapeLeft : tree.view left = .index leftEntries)
    (shapeRight : tree.view right = .index (entry :: rightEntries))
    (knows : ∀ block ∈ tree.blocks store (depth + 1) content, known block) :
    tree.Halves store (depth + 1) left right entry.key lo hi
      (tree.contents store (depth + 1) content) known := by
  rcases sound.split shape shapeLeft shapeRight with ⟨low, high, contents, blocks⟩
  rw [blocks] at knows
  exact ⟨by rw [firstKey_index shapeRight]; rfl, low, high, contents.symm, knows⟩

/-! ## The parent -/

theorem Regrown.entries (regrown : tree.Regrown store depth content rights lo hi items known)
    (stored : store block = some disk) (same : tree.view disk = tree.view content)
    (accepted : tree.accepts depth ⟨key, block⟩ disk) (first : tree.firstKey content = some key) :
    Spans (tree.Below store depth) (⟨key, block⟩ :: rights) hi ∧ (⟨key, block⟩ :: rights).flatMap
        (gather store (tree.contents store depth)) = items ∧
      ∀ other ∈ (IndexEntry.mk key block :: rights).flatMap (tree.branch store depth),
        other = block ∨ known other := by
  refine ⟨⟨regrown.sound.below stored same accepted first, regrown.spans⟩, ?_, ?_⟩
  · have gathered : gather store (tree.contents store depth)
        ⟨key, block⟩ = tree.contents store depth disk := gather_of_some stored
    rw [flatMap_cons, gathered, contents_of_view same, regrown.contents]
  · intro other member
    rw [flatMap_cons, mem_append] at member
    rcases member with member | member
    · have gathered : gather store (tree.blocks store depth)
          ⟨key, block⟩ = tree.blocks store depth disk := gather_of_some stored
      rw [branch, gathered, blocks_of_view same] at member
      rcases mem_cons.mp member with rfl | member
      · exact .inl rfl
      · exact .inr (regrown.blocks other member)
    · rcases mem_flatMap.mp member with ⟨entry, listed, inside⟩
      exact .inr (regrown.rightBlocks entry listed other inside)

theorem Regrown.parent (sound : tree.Sound store (depth + 1) content lo hi)
    (shape : tree.view content = .index (pre ++ entry :: post))
    (kept : tree.Spares store store' depth (pre ++ post))
    (regrown : tree.Regrown store' depth left rights lo' (bound post hi) items known)
    (stored : store' entry.block = some disk) (same : tree.view disk = tree.view left)
    (accepted : tree.accepts depth ⟨key, entry.block⟩ disk) (first : tree.firstKey left = some key)
    (order : pre = [] ∨ entry.key ≤ lo')
    (shape' : tree.view content' = .index (pre ++ (⟨key, entry.block⟩ :: rights ++ post))) :
    tree.Sound store' (depth + 1) content' (min lo lo') hi ∧
      tree.contents store' (depth + 1) content' =
        pre.flatMap (gather store (tree.contents store depth)) ++
          (items ++ post.flatMap (gather store (tree.contents store depth))) ∧
      ∀ block ∈ tree.blocks store' (depth + 1) content',
        block ∈ tree.blocks store (depth + 1) content ∨ known block := by
  rcases regrown.entries stored same accepted first with ⟨spans, contents, blocks⟩
  have keyBound := (regrown.sound.tighten first).2.1
  have wide := sound.mono (min_le_left lo lo') le_rfl
  rcases wide.replace shape shape' kept (fun _ => (min_le_right lo lo').trans keyBound)
      (order.imp_right (·.trans keyBound)) spans with
    ⟨result, resultContents, resultBlocks⟩
  refine ⟨result, ?_, ?_⟩
  · rw [resultContents, contents]
  · intro block member
    rw [blocks_index shape, flatMap_append, flatMap_cons]
    rw [resultBlocks] at member
    simp only [mem_append] at member ⊢
    rcases member with member | member | member
    · exact .inl (.inl member)
    · rcases blocks block member with rfl | isKnown
      · exact .inl (.inr (.inl mem_cons_self))
      · exact .inr isKnown
    · exact .inl (.inr (.inr member))

end TgosKits.BlockTree
