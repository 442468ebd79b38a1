import Mathlib.Data.List.Range

/-!
# Search trees in a block store

A node holds items or pointers to blocks with the nodes below.
-/

namespace TgosKits

structure IndexEntry where
  key : Nat
  block : Nat
  deriving DecidableEq, Repr

inductive TreeNode (Item : Type) where
  | leaf (items : List Item)
  | index (entries : List IndexEntry)

/-- How blocks are read as nodes.  `accepts` is the check a reader makes on the
node below an entry; it fixes the depth of the node, and its first key if there is
one. -/
structure BlockTree (Content Item : Type) where
  view : Content → TreeNode Item
  accepts : Nat → IndexEntry → Content → Prop
  first : Item → Nat
  stop : Item → Nat
  accepts_leaf : ∀ {depth entry content item items},
    accepts depth entry content → view content = .leaf (item :: items) →
    first item = entry.key
  accepts_index : ∀ {depth entry content child children},
    accepts depth entry content → view content = .index (child :: children) →
    child.key = entry.key
  accepts_depth : ∀ {depth depth' entry entry' content},
    accepts depth entry content → accepts depth' entry' content →
    depth = depth'

namespace BlockTree

open List

/-- The key behind the entries: that of the first one, or the end. -/
def bound (entries : List IndexEntry) (hi : Nat) : Nat :=
  match entries with
  | [] => hi
  | entry :: _ => entry.key

def Spans (inside : IndexEntry → Nat → Prop) : List IndexEntry → Nat → Prop
  | [], _ => True
  | entry :: rest, hi => inside entry (bound rest hi) ∧ Spans inside rest hi

section Spans

variable {inside inside' : IndexEntry → Nat → Prop}
  {entries left right : List IndexEntry} {entry : IndexEntry} {hi hi' : Nat}

@[simp]
theorem bound_cons : bound (entry :: entries) hi = entry.key :=
  rfl

theorem bound_append : bound (left ++ right) hi = bound left (bound right hi) := by
  cases left <;> rfl

theorem spans_append : Spans inside (left ++ right) hi ↔
      Spans inside left (bound right hi) ∧ Spans inside right hi := by
  induction left with
  | nil => simp [Spans]
  | cons entry left ih =>
    simp [cons_append, Spans, ih, bound_append, and_assoc]

theorem bound_mono (grows : hi ≤ hi') : bound entries hi ≤ bound entries hi' := by
  cases entries with
  | nil => exact grows
  | cons entry entries => exact le_rfl

variable (spans : Spans inside entries hi)
include spans

theorem Spans.mono (weaken : ∀ entry ∈ entries, ∀ next next', next ≤ next' →
      inside entry next → inside' entry next') (grows : hi ≤ hi') : Spans inside' entries hi' := by
  induction entries with
  | nil => trivial
  | cons entry entries ih =>
    rcases spans with ⟨here, rest⟩
    exact ⟨weaken entry mem_cons_self _ _ (bound_mono grows) here,
      ih rest fun other member => weaken other (mem_cons_of_mem _ member)⟩

theorem Spans.exists_next (member : entry ∈ entries) : ∃ next, inside entry next := by
  induction entries with
  | nil => cases member
  | cons other entries ih =>
    rcases mem_cons.mp member with rfl | member
    · exact ⟨_, spans.1⟩
    · exact ih spans.2 member

end Spans

variable {Content Item : Type} (tree : BlockTree Content Item)

structure Items (lo hi : Nat) (items : List Item) : Prop where
  apart : items.Pairwise fun left right => tree.stop left ≤ tree.first right
  inside : ∀ item ∈ items, lo ≤ tree.first item ∧ tree.first item < tree.stop item ∧
      tree.stop item ≤ hi

/-- The tree below a node is in search order inside `[lo, hi)`, and a reader
accepts every node below it. -/
def Sound (store : Nat → Option Content) : Nat → Content → Nat → Nat → Prop
  | 0, content, lo, hi => ∃ items, tree.view content = .leaf items ∧ tree.Items lo hi items
  | depth + 1, content, lo, hi => ∃ entries,
    tree.view content = .index entries ∧ lo ≤ bound entries hi ∧
      Spans (fun entry next => entry.key < next ∧ ∃ child,
        store entry.block = some child ∧ tree.accepts depth entry child ∧
          Sound store depth child entry.key next) entries hi

/-- The node below an entry, as a root of its own. -/
def Below (store : Nat → Option Content) (depth : Nat) (entry : IndexEntry) (next : Nat) : Prop :=
  entry.key < next ∧ ∃ child, store entry.block = some child ∧ tree.accepts depth entry child ∧
      tree.Sound store depth child entry.key next

/-- A list gathered from the node below an entry. -/
def gather {Result : Type} (store : Nat → Option Content)
    (collect : Content → List Result) (entry : IndexEntry) : List Result :=
  match store entry.block with
  | some child => collect child
  | none => []

/-- The items of the leaves, from left to right. -/
def contents (store : Nat → Option Content) : Nat → Content → List Item
  | 0, content =>
    match tree.view content with
    | .leaf items => items
    | .index _ => []
  | depth + 1, content =>
    match tree.view content with
    | .leaf _ => []
    | .index entries => entries.flatMap (gather store (contents store depth))

/-- The blocks of the nodes below this one. -/
def blocks (store : Nat → Option Content) : Nat → Content → List Nat
  | 0, _ => []
  | depth + 1, content =>
    match tree.view content with
    | .leaf _ => []
    | .index entries => entries.flatMap fun entry =>
      entry.block :: gather store (blocks store depth) entry

def branch (store : Nat → Option Content) (depth : Nat) (entry : IndexEntry) : List Nat :=
  entry.block :: gather store (tree.blocks store depth) entry

/-- A change of the store spares the blocks of some entries. -/
def Spares (store store' : Nat → Option Content) (depth : Nat) (entries : List IndexEntry) : Prop :=
  ∀ entry ∈ entries, ∀ block ∈ tree.branch store depth entry, store' block = store block

variable {tree} {store store' : Nat → Option Content} {content child : Content} {items : List Item}
  {entries : List IndexEntry} {entry : IndexEntry} {depth lo hi lo' hi' next : Nat}

theorem sound_leaf (isLeaf : tree.view content = .leaf items) :
    tree.Sound store 0 content lo hi ↔ tree.Items lo hi items := by
  simp [Sound, isLeaf]

theorem sound_index (isIndex : tree.view content = .index entries) :
    tree.Sound store (depth + 1) content lo hi ↔ lo ≤ bound entries hi ∧
        Spans (tree.Below store depth) entries hi := by
  rw [Sound, isIndex]
  constructor
  · intro ⟨_, same, inside⟩
    cases same
    exact inside
  · exact fun inside => ⟨entries, rfl, inside⟩

theorem Sound.exists_leaf (sound : tree.Sound store 0 content lo hi) :
    ∃ items, tree.view content = .leaf items :=
  sound.imp fun _ parts => parts.1

theorem Sound.exists_index (sound : tree.Sound store (depth + 1) content lo hi) :
    ∃ entries, tree.view content = .index entries :=
  sound.imp fun _ parts => parts.1

theorem contents_leaf (isLeaf : tree.view content = .leaf items) :
    tree.contents store 0 content = items := by
  unfold contents
  rw [isLeaf]

section

variable (isIndex : tree.view content = .index entries)
include isIndex

theorem contents_index : tree.contents store (depth + 1) content =
      entries.flatMap (gather store (tree.contents store depth)) := by
  rw [contents, isIndex]

theorem blocks_index :
    tree.blocks store (depth + 1) content = entries.flatMap (tree.branch store depth) := by
  rw [blocks, isIndex]
  rfl

end

theorem gather_of_some {Result : Type} {collect : Content → List Result}
    (stored : store entry.block = some child) : gather store collect entry = collect child := by
  unfold gather
  rw [stored]

theorem Items.mono (inside : tree.Items lo hi items) (lower : lo' ≤ lo)
    (upper : hi ≤ hi') : tree.Items lo' hi' items :=
  ⟨inside.apart, fun item member => by
    have bounds := inside.inside item member
    omega⟩

theorem Sound.mono (sound : tree.Sound store depth content lo hi)
    (lower : lo' ≤ lo) (upper : hi ≤ hi') : tree.Sound store depth content lo' hi' := by
  induction depth generalizing content lo hi lo' hi' with
  | zero =>
    rcases sound.exists_leaf with ⟨items, isLeaf⟩
    rw [sound_leaf isLeaf] at sound ⊢
    exact sound.mono lower upper
  | succ depth ih =>
    rcases sound.exists_index with ⟨entries, isIndex⟩
    rw [sound_index isIndex] at sound ⊢
    rcases sound with ⟨low, spans⟩
    refine ⟨(lower.trans low).trans (bound_mono upper), spans.mono ?_ upper⟩
    intro entry _ next next' order ⟨key, child, stored, accepted, sound⟩
    exact ⟨by omega, child, stored, accepted, ih sound le_rfl order⟩

section

variable (spans : Spans (tree.Below store depth) entries hi)
include spans

theorem Spans.bound_le : bound entries hi ≤ hi := by
  induction entries with
  | nil => exact le_rfl
  | cons entry entries ih => exact spans.1.1.le.trans (ih spans.2)

theorem Spans.key_lt
    (member : entry ∈ entries) : bound entries hi ≤ entry.key ∧ entry.key < hi := by
  induction entries with
  | nil => cases member
  | cons other entries ih =>
    have here := spans.1.1
    have behind := spans.2.bound_le
    rcases mem_cons.mp member with rfl | member
    · exact ⟨le_rfl, by omega⟩
    have further := ih spans.2 member
    simp only [bound_cons]
    omega

theorem Spans.inOrder_of_each (each : ∀ child lo hi, tree.Sound store depth child lo hi →
      tree.Items lo hi (tree.contents store depth child)) :
    tree.Items (bound entries hi) hi
      (entries.flatMap (gather store (tree.contents store depth))) := by
  induction entries with
  | nil => exact ⟨.nil, by simp⟩
  | cons entry entries ih =>
    rcases spans with ⟨⟨key, child, stored, _, below⟩, rest⟩
    have here := each _ _ _ below
    have behind := ih rest
    have order := rest.bound_le
    rw [flatMap_cons, gather_of_some stored]
    refine ⟨pairwise_append.mpr ⟨here.apart, behind.apart, ?_⟩, ?_⟩
    · intro left leftMember right rightMember
      exact (here.inside left leftMember).2.2.trans (behind.inside right rightMember).1
    · intro item member
      simp only [bound_cons]
      have bounds := (mem_append.mp member).imp (here.inside item) (behind.inside item)
      omega

end

theorem Sound.inOrder (sound : tree.Sound store depth content lo hi) :
    tree.Items lo hi (tree.contents store depth content) := by
  induction depth generalizing content lo hi with
  | zero =>
    rcases sound.exists_leaf with ⟨items, isLeaf⟩
    rw [contents_leaf isLeaf]
    exact (sound_leaf isLeaf).mp sound
  | succ depth ih =>
    rcases sound.exists_index with ⟨entries, isIndex⟩
    rw [contents_index isIndex]
    rcases (sound_index isIndex).mp sound with ⟨low, spans⟩
    exact (spans.inOrder_of_each fun _ _ _ => ih).mono low le_rfl

theorem Spans.inOrder (spans : Spans (tree.Below store depth) entries hi) :
    tree.Items (bound entries hi) hi (entries.flatMap (gather store (tree.contents store depth))) :=
  spans.inOrder_of_each fun _ _ _ => Sound.inOrder

theorem Below.mono {next next' : Nat} (below : tree.Below store depth entry next)
    (order : next ≤ next') : tree.Below store depth entry next' := by
  rcases below with ⟨less, child, stored, accepted, sound⟩
  exact ⟨by omega, child, stored, accepted, sound.mono le_rfl order⟩

/-- Changes outside the blocks of a tree of this depth do not reach it. -/
def Blind (tree : BlockTree Content Item) (store store' : Nat → Option Content)
    (depth : Nat) : Prop :=
  ∀ ⦃content lo hi⦄, tree.Sound store depth content lo hi →
    (∀ block ∈ tree.blocks store depth content, store' block = store block) →
    tree.Sound store' depth content lo hi ∧
      tree.contents store' depth content = tree.contents store depth content ∧
      tree.blocks store' depth content = tree.blocks store depth content

theorem Blind.spans (blind : tree.Blind store store' depth)
    (spans : Spans (tree.Below store depth) entries hi) (order : hi ≤ hi')
    (kept : tree.Spares store store' depth entries) :
    Spans (tree.Below store' depth) entries hi' ∧
      entries.flatMap (gather store' (tree.contents store' depth)) =
        entries.flatMap (gather store (tree.contents store depth)) ∧
      entries.flatMap (tree.branch store' depth) = entries.flatMap (tree.branch store depth) := by
  have each : ∀ entry ∈ entries, ∀ next, tree.Below store depth entry next →
      tree.Below store' depth entry next ∧ gather store' (tree.contents store' depth) entry =
          gather store (tree.contents store depth) entry ∧
        tree.branch store' depth entry = tree.branch store depth entry := by
    intro entry member next ⟨less, child, stored, accepted, below⟩
    have own : store' entry.block = some child := by
      rw [kept entry member entry.block mem_cons_self, stored]
    rcases blind below (fun block inside => kept entry member block
      (mem_cons_of_mem _ (by rwa [gather_of_some stored]))) with
      ⟨sound, contents, blocks⟩
    refine ⟨⟨less, child, own, accepted, sound⟩, ?_, ?_⟩
    · rw [gather_of_some own, gather_of_some stored, contents]
    · rw [branch, branch, gather_of_some own, gather_of_some stored, blocks]
  refine ⟨spans.mono (fun entry member next next' order below =>
    ((each entry member next below).1).mono order) order, ?_, ?_⟩
  · refine flatMap_congr fun entry member => ?_
    rcases spans.exists_next member with ⟨next, below⟩
    exact (each entry member next below).2.1
  · refine flatMap_congr fun entry member => ?_
    rcases spans.exists_next member with ⟨next, below⟩
    exact (each entry member next below).2.2

theorem blind : tree.Blind store store' depth := by
  induction depth with
  | zero =>
    intro content lo hi sound same
    rcases sound.exists_leaf with ⟨items, isLeaf⟩
    rw [sound_leaf isLeaf] at sound ⊢
    exact ⟨sound, rfl, rfl⟩
  | succ depth ih =>
    intro content lo hi sound same
    rcases sound.exists_index with ⟨entries, isIndex⟩
    rw [sound_index isIndex] at sound ⊢
    rw [contents_index isIndex, contents_index isIndex, blocks_index isIndex, blocks_index isIndex]
    rw [blocks_index isIndex] at same
    have kept := ih.spans sound.2 le_rfl fun entry member block inside =>
      same block (mem_flatMap.mpr ⟨entry, member, inside⟩)
    exact ⟨⟨sound.1, kept.1⟩, kept.2⟩

end BlockTree

end TgosKits
