import TgosKits.Ext4.Insert
import TgosKits.Ext4.Rewrite

/-! # What an insertion does to the tree -/

namespace TgosKits

open BlockTree ExtentM List Failing Ext4Extent ExtentNode Option

section

variable {geometry : ExtentGeometry} {services : ExtentServices} {state state' : ExtentState}
  {header : Ext4ExtentHeader} {child' : ExtentNode}
  {pre post : List Ext4ExtentIdx} {entry : Ext4ExtentIdx} {depth lo hi : Nat}

theorem firstKey_focus {key : Nat} : (pre ++ ⟨key, entry.block⟩ :: post).head?.map IndexEntry.key =
      some ((pre.head?.map IndexEntry.key).getD key) := by
  cases pre <;> rfl

private theorem insertIndexEntry_eq {left right : List Ext4ExtentIdx}
    {newIdx : Ext4ExtentIdx} (before : ∀ index ∈ left, index.key < newIdx.key)
    (behind : ∀ index ∈ right.head?, newIdx.key ≤ index.key) :
    insertIndexEntry (left ++ right) newIdx = left ++ newIdx :: right := by
  unfold insertIndexEntry
  induction left with
  | nil =>
    cases right with
    | nil => rfl
    | cons index right =>
      have late : ¬ index.key < newIdx.key := by
        have order := behind index rfl
        omega
      rw [nil_append, takeWhile_cons_of_neg (by simpa using late)]
      rfl
  | cons index left ih =>
    have early : index.key < newIdx.key := before index mem_cons_self
    rw [cons_append, takeWhile_cons_of_pos (by simpa using early), length_cons, insertIdx_succ_cons,
      ih fun other member => before other (mem_cons_of_mem _ member)]
    rfl

theorem Grown.place_split {extents : List Ext4Extent} {info : SplitInfo}
    {key low : Nat} {known : Nat → Prop}
    (grown : Grown geometry services state state' depth child' (some info)
      low (bound post hi) extents known)
    (sound : (extentTree geometry).Sound state.device (depth + 1)
      (.index header (pre ++ entry :: post)) lo hi) (order : pre = [] ∨ entry.key ≤ low)
    (first : child'.firstKey = some key) :
    insertIndexEntry (pre ++ ⟨key, entry.block⟩ :: post) info.index =
      pre ++ (⟨key, entry.block⟩ :: (some info).toList.map SplitInfo.index ++ post) := by
  rcases grown.regrown.sound.tighten (extentTree_firstKey.trans first) with ⟨_, lower, upper⟩
  have upper : key < info.index.key := upper
  have next := grown.regrown.spans.1.1
  rw [append_cons, insertIndexEntry_eq]
  · simp
  · intro index member
    rcases mem_append.mp member with member | member
    · have ahead := ((sound.focus rfl).1.key_lt member).2
      rcases order with rfl | order
      · cases member
      · omega
    · rw [mem_singleton] at member
      subst member
      exact upper
  · intro index isHead
    cases post with
    | nil => cases isHead
    | cons behind post =>
      cases isHead
      exact next.le

end

/-! ## A file that becomes unreadable -/

private theorem fourThousandBlocks_le : 4096 ≤ physicalLimit := by
  decide

def smallFilesystem : ExtentGeometry where
  blockSize := 1024
  firstDataBlock := 0
  filesystemBlocks := 4096
  deviceBlocks := 4096
  inodeNum := none
  systemZones := []
  hugeFile := false
  blocks_le := fourThousandBlocks_le
  device_covers := le_refl 4096

def fullServices : ExtentServices where
  fault _ := none
  alloc _ := .error .noSpace
  extend _ := .ok none

def magicHeader (entries ehMax depth : Nat) : Ext4ExtentHeader :=
  ⟨Ext4ExtentHeader.ext4ExtMagic, entries, ehMax, depth⟩

def deepTree : ExtentState where
  root := .index (magicHeader 1 4 2) [⟨100, 10⟩]
  inodeBlocks := ⟨6, false⟩
  device block :=
    match block with
    | 10 => some (.index (magicHeader 1 84 1) [⟨100, 11⟩])
    | 11 => some (.leaf (magicHeader 1 84 0) [⟨100, 1, 50⟩])
    | _ => none
  requests := 0
  freed := []

private theorem deepTree_inSearchOrder : deepTree.InSearchOrder smallFilesystem := by
  have root : smallFilesystem.loadRoot deepTree.root = .ok deepTree.root := rfl
  have middle : smallFilesystem.readChildNode deepTree.device ⟨100, 10⟩ 1 =
      .ok (.index (magicHeader 1 84 1) [⟨100, 11⟩]) := rfl
  have leaf : smallFilesystem.readChildNode deepTree.device ⟨100, 11⟩ 0 =
      .ok (.leaf (magicHeader 1 84 0) [⟨100, 1, 50⟩]) := rfl
  rcases ExtentGeometry.loadRoot_eq_ok_iff.mp root with ⟨_, kind, valid⟩
  rcases ExtentGeometry.readChildNode_eq_ok_iff.mp middle with ⟨_, middleStored, middleAccepted⟩
  rcases ExtentGeometry.readChildNode_eq_ok_iff.mp leaf with ⟨_, leafStored, leafAccepted⟩
  have leafSound : (extentTree smallFilesystem).Sound deepTree.device 0
      (.leaf (magicHeader 1 84 0) [⟨100, 1, 50⟩]) 100 (2 ^ 32) := by
    rw [sound_leaf rfl, items_iff_extentsIn]
    exact extentsIn_cons.mpr ⟨by decide, by decide, by decide, .nil, by simp⟩
  have middleSound : (extentTree smallFilesystem).Sound deepTree.device 1
      (.index (magicHeader 1 84 1) [⟨100, 11⟩]) 100 (2 ^ 32) := by
    rw [sound_index rfl]
    exact ⟨le_refl 100, ⟨by decide, _, leafStored, leafAccepted, leafSound⟩, trivial⟩
  refine ⟨kind, valid, (sound_index rfl).mpr ⟨Nat.zero_le _, ?_⟩⟩
  exact ⟨⟨by decide, _, middleStored, middleAccepted, middleSound⟩, trivial⟩

/-- The checked walk of the deep tree lists its two nodes. -/
theorem deepTree_nodes : ∃ blocks, deepTree.externalNodeBlocks smallFilesystem = .ok blocks ∧
    blocks.Pairwise (· < ·) ∧ ∀ block, block ∈ blocks ↔ block ∈ [10, 11] :=
  deepTree_inSearchOrder.externalNodeBlocks_ok

def spareServices : ExtentServices where
  fault _ := none
  alloc request := if request < 100 then .ok (1000 + request) else .error .noSpace
  extend _ := .ok none

theorem spareServices_alloc {request block : Nat}
    (allocated : spareServices.alloc request = .ok block) :
    request < 100 ∧ block = 1000 + request := by
  simp only [spareServices] at allocated
  split_ifs at allocated with early
  cases allocated
  exact ⟨early, rfl⟩

theorem spareServices_allocatesUnused {used : List Nat} (small : ∀ block ∈ used, block < 1000) :
    AllocatesUnused smallFilesystem spareServices used := by
  refine ⟨?_, ?_, ?_⟩
  · intro request block allocated
    have spare := spareServices_alloc allocated
    change block < 4096
    omega
  · intro request block allocated member
    have spare := spareServices_alloc allocated
    have below := small block member
    omega
  · intro request request' block allocated again
    have spare := spareServices_alloc allocated
    have other := spareServices_alloc again
    omega

/-- An extent is inserted below the first one, and the file cannot be read any
more. -/
theorem deepTree_unreadable : deepTree.allExtents smallFilesystem = .ok [⟨100, 1, 50⟩] ∧
      deepTree.mapBlock smallFilesystem 0 = .ok .hole ∧
      deepTree.mapBlock smallFilesystem 100 = .ok (.initialized 50) ∧
      ∃ state', insertExtent smallFilesystem fullServices ⟨0, 1, 60⟩ deepTree = (.ok (), state') ∧
        state'.mapBlock smallFilesystem 0 =
          .error (Ext4Error.corrupted.withOperation "extent:parent_key") ∧
        state'.mapBlock smallFilesystem 100 =
          .error (Ext4Error.corrupted.withOperation "extent:parent_key") := by
  exact ⟨rfl, rfl, rfl, _, rfl, rfl, rfl⟩

end TgosKits
