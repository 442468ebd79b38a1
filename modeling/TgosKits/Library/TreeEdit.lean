import TgosKits.Library.BlockTree

/-! # Searching and editing a search tree -/

namespace TgosKits.BlockTree

open List

variable {Content Item : Type}

/-! ## Search -/

/-- The place of the last entry whose key is not behind `key`, or the first
place. -/
def slot (entries : List IndexEntry) (key : Nat) : Nat :=
  (entries.takeWhile fun entry => decide (entry.key ≤ key)).length - 1

theorem exists_focus {entries : List IndexEntry} (key : Nat) (nonempty : entries ≠ []) :
    ∃ pre entry post, entries = pre ++ entry :: post ∧ pre.length = slot entries key ∧
      (pre = [] ∧ key < entry.key ∨ entry.key ≤ key ∧ ∀ hi, key < hi → key < bound post hi) := by
  induction entries with
  | nil => exact absurd rfl nonempty
  | cons entry rest ih =>
    by_cases behind : entry.key ≤ key
    · cases rest with
      | nil =>
        exact ⟨[], entry, [], rfl, by simp [slot, behind], .inr ⟨behind, fun _ less => less⟩⟩
      | cons next rest =>
        by_cases further : next.key ≤ key
        · rcases ih (cons_ne_nil _ _) with ⟨pre, found, post, same, place, order⟩
          refine ⟨entry :: pre, found, post, by rw [same]; rfl, ?_, ?_⟩
          · rw [length_cons, place]
            simp [slot, behind, further]
          · rcases order with ⟨rfl, early⟩ | order
            · cases same
              omega
            · exact .inr order
        · refine ⟨[], entry, next :: rest, rfl, ?_, .inr ⟨behind, ?_⟩⟩
          · simp [slot, behind, further]
          · simp only [bound_cons]
            omega
    · refine ⟨[], entry, rest, rfl, ?_, .inl ⟨rfl, by omega⟩⟩
      simp [slot, behind]

variable (tree : BlockTree Content Item)

def covers (key : Nat) (item : Item) : Bool :=
  decide (tree.first item ≤ key) && decide (key < tree.stop item)

/-- What a search from the root finds. -/
def find (store : Nat → Option Content) : Nat → Content → Nat → Option Item
  | 0, content, key =>
    match tree.view content with
    | .leaf items => items.find? (tree.covers key)
    | .index _ => none
  | depth + 1, content, key =>
    match tree.view content with
    | .leaf _ => none
    | .index entries =>
      match entries[slot entries key]? with
      | none => none
      | some entry =>
        match store entry.block with
        | none => none
        | some child => find store depth child key

section Search

variable {tree} {store : Nat → Option Content} {content child : Content} {items : List Item}
  {entries pre post : List IndexEntry} {entry : IndexEntry} {depth lo hi key : Nat}

theorem covers_iff {item : Item} : tree.covers key item = true ↔
      tree.first item ≤ key ∧ key < tree.stop item := by
  simp [covers]

theorem find?_of_outside (inside : tree.Items lo hi items) (outside : key < lo ∨ hi ≤ key) :
    items.find? (tree.covers key) = none := by
  rw [find?_eq_none]
  intro item member
  have bounds := inside.inside item member
  rw [covers_iff]
  omega

theorem getElem?_focus (place : pre.length = slot (pre ++ entry :: post) key) :
    (pre ++ entry :: post)[slot (pre ++ entry :: post) key]? = some entry := by
  rw [← place, getElem?_append_right (le_refl _), Nat.sub_self]
  rfl

section

variable (sound : tree.Sound store (depth + 1) content lo hi)
  (isIndex : tree.view content = .index (pre ++ entry :: post))
include sound isIndex

theorem Sound.focus : Spans (tree.Below store depth) pre entry.key ∧
      tree.Below store depth entry (bound post hi) ∧ Spans (tree.Below store depth) post hi :=
  spans_append.mp ((sound_index isIndex).mp sound).2

theorem Sound.focus_bounds : lo ≤ entry.key ∧ bound post hi ≤ hi := by
  have spans := (sound_index isIndex).mp sound
  have low := (spans.2.key_lt (mem_append_right pre mem_cons_self)).1
  exact ⟨spans.1.trans low, (sound.focus isIndex).2.2.bound_le⟩

end

theorem set_focus (place : pre.length = slot (pre ++ entry :: post) key) (other : IndexEntry) :
    (pre ++ entry :: post).set (slot (pre ++ entry :: post) key) other = pre ++ other :: post := by
  rw [← place, set_append_right _ _ le_rfl, Nat.sub_self]
  rfl

theorem Sound.find_eq (sound : tree.Sound store depth content lo hi) (inside : key < hi) :
    tree.find store depth content key =
      (tree.contents store depth content).find? (tree.covers key) := by
  induction depth generalizing content lo hi with
  | zero =>
    rcases sound.exists_leaf with ⟨items, isLeaf⟩
    rw [contents_leaf isLeaf, find, isLeaf]
  | succ depth ih =>
    rcases sound.exists_index with ⟨entries, isIndex⟩
    rw [contents_index isIndex, find, isIndex]
    rcases (sound_index isIndex).mp sound with ⟨_, spans⟩
    rcases eq_or_ne entries [] with rfl | nonempty
    · rfl
    rcases exists_focus key nonempty with ⟨pre, entry, post, rfl, place, order⟩
    rw [spans_append] at spans
    rcases spans with ⟨before, ⟨less, child, stored, _, below⟩, behind⟩
    simp only [getElem?_focus place, stored]
    have next : key < bound post hi := by
      rcases order with ⟨_, early⟩ | ⟨_, next⟩
      · omega
      · exact next hi inside
    rw [ih below next, flatMap_append, flatMap_cons,
      gather_of_some stored, find?_append, find?_append,
      find?_of_outside behind.inOrder (.inl next), Option.or_none]
    have none : (pre.flatMap (gather store (tree.contents store depth))).find?
        (tree.covers key) = .none := by
      rcases order with ⟨rfl, _⟩ | ⟨reached, _⟩
      · rfl
      · exact find?_of_outside before.inOrder (.inr reached)
    rw [none, Option.none_or]

end Search

/-! ## Where a block belongs -/

def firstKey (content : Content) : Option Nat :=
  match tree.view content with
  | .leaf items => items.head?.map tree.first
  | .index entries => entries.head?.map IndexEntry.key

section Blocks

variable {tree} {store : Nat → Option Content} {content child : Content} {items : List Item}
  {entries pre post : List IndexEntry} {entry : IndexEntry} {depth depth' lo hi key block : Nat}

theorem firstKey_leaf (isLeaf : tree.view content = .leaf items) :
    tree.firstKey content = items.head?.map tree.first := by
  rw [firstKey, isLeaf]

theorem firstKey_index (isIndex : tree.view content = .index entries) :
    tree.firstKey content = entries.head?.map IndexEntry.key := by
  rw [firstKey, isIndex]

theorem firstKey_of_accepts (accepted : tree.accepts depth entry content)
    (first : tree.firstKey content = some key) : key = entry.key := by
  cases shape : tree.view content with
  | leaf items =>
    rw [firstKey_leaf shape] at first
    cases items with
    | nil => cases first
    | cons item items =>
      cases first
      exact tree.accepts_leaf accepted shape
  | index entries =>
    rw [firstKey_index shape] at first
    cases entries with
    | nil => cases first
    | cons child entries =>
      cases first
      exact tree.accepts_index accepted shape

section

variable (isIndex : tree.view content = .index (pre ++ entry :: post))
  (stored : store entry.block = some child)
include isIndex stored

theorem contents_focus : tree.contents store (depth + 1) content =
      pre.flatMap (gather store (tree.contents store depth)) ++ (tree.contents store depth child ++
          post.flatMap (gather store (tree.contents store depth))) := by
  rw [contents_index isIndex, flatMap_append, flatMap_cons, gather_of_some stored]

theorem blocks_focus : tree.blocks store (depth + 1) content =
      pre.flatMap (tree.branch store depth) ++ (entry.block :: tree.blocks store depth child ++
        post.flatMap (tree.branch store depth)) := by
  rw [blocks_index isIndex, flatMap_append, flatMap_cons, branch, gather_of_some stored]

end

section

variable (sound : tree.Sound store depth content lo hi)
include sound

theorem Sound.tighten (first : tree.firstKey content = some key) :
    tree.Sound store depth content key hi ∧ lo ≤ key ∧ key < hi := by
  cases depth with
  | zero =>
    rcases sound.exists_leaf with ⟨items, isLeaf⟩
    rw [sound_leaf isLeaf] at sound ⊢
    rw [firstKey_leaf isLeaf] at first
    cases items with
    | nil => cases first
    | cons item items =>
      cases first
      have bounds := sound.inside item mem_cons_self
      refine ⟨⟨sound.apart, ?_⟩, by omega, by omega⟩
      intro other member
      have inside := sound.inside other member
      refine ⟨?_, inside.2⟩
      rcases mem_cons.mp member with rfl | member
      · exact le_refl _
      · have apart := (pairwise_cons.mp sound.apart).1 other member
        omega
  | succ depth =>
    rcases sound.exists_index with ⟨entries, isIndex⟩
    rw [sound_index isIndex] at sound ⊢
    rw [firstKey_index isIndex] at first
    cases entries with
    | nil => cases first
    | cons entry entries =>
      cases first
      have less := (sound.2.key_lt mem_cons_self).2
      exact ⟨⟨le_refl _, sound.2⟩, sound.1, less⟩

theorem Sound.exists_entry (member : block ∈ tree.blocks store depth content) :
    ∃ depth' entry child, depth' < depth ∧
      store block = some child ∧ tree.accepts depth' entry child ∧
      lo ≤ entry.key ∧ entry.key < hi := by
  induction depth generalizing content lo hi with
  | zero => cases member
  | succ depth ih =>
    rcases sound.exists_index with ⟨entries, isIndex⟩
    rw [blocks_index isIndex] at member
    rcases (sound_index isIndex).mp sound with ⟨low, spans⟩
    rcases mem_flatMap.mp member with ⟨entry, listed, inEntry⟩
    rcases append_of_mem listed with ⟨pre, post, rfl⟩
    have order := spans.key_lt listed
    rw [spans_append] at spans
    rcases spans with ⟨_, ⟨less, child, stored, accepted, below⟩, behind⟩
    have behindLe := behind.bound_le
    rcases mem_cons.mp inEntry with rfl | deeper
    · exact ⟨depth, entry, child, Nat.lt_succ_self _, stored, accepted, by omega, by omega⟩
    rw [gather_of_some stored] at deeper
    rcases ih below deeper with
      ⟨depth', other, found, shallow, storedOther, acceptedOther, lower, upper⟩
    exact ⟨depth', other, found, by omega, storedOther, acceptedOther, by omega, by omega⟩

theorem Sound.not_mem_of_key (stored : store block = some child)
    (first : tree.firstKey child = some key) (outside : key < lo ∨ hi ≤ key) :
    block ∉ tree.blocks store depth content := by
  intro member
  rcases sound.exists_entry member with ⟨_, entry, found, _, storedFound, accepted, lower, upper⟩
  cases stored.symm.trans storedFound
  have same := firstKey_of_accepts accepted first
  omega

end

theorem Spans.not_mem_of_key (spans : Spans (tree.Below store depth) entries hi)
    (stored : store block = some child) (first : tree.firstKey child = some key)
    (outside : key < bound entries hi ∨ hi ≤ key) (member : entry ∈ entries) :
    block ∉ tree.branch store depth entry := by
  have order := spans.key_lt member
  rcases append_of_mem member with ⟨pre, post, rfl⟩
  rw [spans_append] at spans
  rcases spans with ⟨_, ⟨less, found, storedFound, accepted, sound⟩, behind⟩
  have behindLe := behind.bound_le
  intro inside
  rcases mem_cons.mp inside with rfl | inside
  · cases stored.symm.trans storedFound
    have same := firstKey_of_accepts accepted first
    omega
  · rw [gather_of_some storedFound] at inside
    exact sound.not_mem_of_key stored first (by omega) inside

end Blocks

/-! ## Edits -/

variable {tree} {store store' : Nat → Option Content} {content content' child : Content}
  {pre post news left right : List IndexEntry} {entry : IndexEntry} {depth lo hi : Nat}
  (sound : tree.Sound store (depth + 1) content lo hi)
include sound

/-- An entry is replaced by others over the keys it had. -/
theorem Sound.replace (shape : tree.view content = .index (pre ++ entry :: post))
    (shape' : tree.view content' = .index (pre ++ (news ++ post)))
    (kept : tree.Spares store store' depth (pre ++ post))
    (low : pre = [] → lo ≤ bound (news ++ post) hi)
    (order : pre = [] ∨ entry.key ≤ bound (news ++ post) hi)
    (inside : Spans (tree.Below store' depth) news (bound post hi)) :
    tree.Sound store' (depth + 1) content' lo hi ∧ tree.contents store' (depth + 1) content' =
        pre.flatMap (gather store (tree.contents store depth)) ++
          (news.flatMap (gather store' (tree.contents store' depth)) ++
            post.flatMap (gather store (tree.contents store depth))) ∧
      tree.blocks store' (depth + 1) content' = pre.flatMap (tree.branch store depth) ++
          (news.flatMap (tree.branch store' depth) ++ post.flatMap (tree.branch store depth)) := by
  rcases (sound_index shape).mp sound with ⟨lower, spans⟩
  rw [spans_append] at spans
  rcases spans with ⟨before, _, behind⟩
  rcases blind.spans behind le_rfl (fun other member =>
    kept other (mem_append_right _ member)) with
    ⟨behind', behindContents, behindBlocks⟩
  have keptBefore := fun other member =>
    kept other (mem_append_left post member)
  rw [sound_index shape', contents_index shape', blocks_index shape']
  simp only [flatMap_append]
  rcases eq_nil_or_concat pre with rfl | ⟨init, last, concat⟩
  · refine ⟨⟨low rfl, ?_⟩, ?_, ?_⟩
    · rw [nil_append, spans_append]
      exact ⟨inside, behind'⟩
    · rw [behindContents]
      rfl
    · rw [behindBlocks]
      rfl
  · have nonempty : pre ≠ [] := by
      rw [concat, concat_eq_append]
      exact append_ne_nil_of_right_ne_nil _ (cons_ne_nil _ _)
    have grows := order.resolve_left nonempty
    rcases blind.spans before grows keptBefore with ⟨before', beforeContents, beforeBlocks⟩
    refine ⟨⟨?_, ?_⟩, ?_, ?_⟩
    · cases pre with
      | nil => exact absurd rfl nonempty
      | cons head pre => exact lower
    · rw [spans_append, spans_append]
      exact ⟨before', inside, behind'⟩
    · rw [beforeContents, behindContents]
    · rw [beforeBlocks, behindBlocks]

theorem Sound.split (shape : tree.view content = .index (left ++ right))
    (shapeLeft : tree.view content' = .index left) (shapeRight : tree.view child = .index right) :
    tree.Sound store (depth + 1) content' lo (bound right hi) ∧
      tree.Sound store (depth + 1) child (bound right hi) hi ∧
      tree.contents store (depth + 1) content = tree.contents store (depth + 1) content' ++
          tree.contents store (depth + 1) child ∧
      tree.blocks store (depth + 1) content = tree.blocks store (depth + 1) content' ++
          tree.blocks store (depth + 1) child := by
  rcases (sound_index shape).mp sound with ⟨lower, spans⟩
  rw [spans_append] at spans
  rw [bound_append] at lower
  rw [sound_index shapeLeft, sound_index shapeRight, contents_index shape,
    contents_index shapeLeft, contents_index shapeRight, blocks_index shape,
    blocks_index shapeLeft, blocks_index shapeRight]
  exact ⟨⟨lower, spans.1⟩, ⟨le_refl _, spans.2⟩, flatMap_append, flatMap_append⟩

end TgosKits.BlockTree
