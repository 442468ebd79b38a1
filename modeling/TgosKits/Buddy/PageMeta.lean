import TgosKits.Library.LinkedList

/-!
# Page metadata (`buddy/page_meta.rs`)

Every page frame has a metadata entry.
-/

namespace TgosKits

open LinkedList Function Links

def u32Max : Nat := 0xffffffff

def toU32 (value : Nat) : Nat := value % 0x100000000

def pfnNone : Nat := u32Max

inductive PageFlags where
  | free
  | allocated
  | slab
  deriving DecidableEq, Repr

structure PageMeta where
  flags : PageFlags
  order : Nat
  prev : Nat
  next : Nat
  deriving DecidableEq, Repr

def PageMeta.new : PageMeta := ⟨.free, 0, pfnNone, pfnNone⟩

/-- What the free-list helpers work on: the metadata array and the heads. -/
structure FreeLists where
  pageMeta : Nat → PageMeta
  heads : Nat → Nat

namespace FreeLists

variable (lists : FreeLists)

def modify (pfn : Nat) (change : PageMeta → PageMeta) : FreeLists :=
  { lists with
    pageMeta :=
      update lists.pageMeta pfn (change (lists.pageMeta pfn)) }

def setHead (order pfn : Nat) : FreeLists :=
  { lists with heads := update lists.heads order pfn }

def freeListPush (pfn order : Nat) : FreeLists :=
  let oldHead := lists.heads order
  let linked := lists.modify pfn (fun entry => { entry with prev := pfnNone, next := oldHead })
  let relinked :=
    if oldHead ≠ pfnNone then
      linked.modify oldHead (fun entry => { entry with prev := pfn })
    else linked
  relinked.setHead order pfn

def freeListRemove (pfn order : Nat) : FreeLists :=
  let prev := (lists.pageMeta pfn).prev
  let next := (lists.pageMeta pfn).next
  let forward :=
    if prev ≠ pfnNone then
      lists.modify prev (fun entry => { entry with next := next })
    else lists.setHead order next
  let backward :=
    if next ≠ pfnNone then
      forward.modify next (fun entry => { entry with prev := prev })
    else forward
  backward.modify pfn (fun entry => { entry with prev := pfnNone, next := pfnNone })

def links : Links Nat :=
  ⟨fun pfn => (lists.pageMeta pfn).prev, fun pfn => (lists.pageMeta pfn).next⟩

def Holds (order : Nat) (items : List Nat) : Prop :=
  IsList lists.links pfnNone (lists.heads order) items

/-- Neither helper touches the flags and orders of the frames. -/
def SameMarks (lists other : FreeLists) : Prop :=
  ∀ pfn, (other.pageMeta pfn).flags = (lists.pageMeta pfn).flags ∧
    (other.pageMeta pfn).order = (lists.pageMeta pfn).order

variable {lists other : FreeLists} {pfn order : Nat}

/-! ## Marks -/

theorem SameMarks.trans {first second third : FreeLists}
    (left : SameMarks first second) (right : SameMarks second third) : SameMarks first third :=
  fun pfn =>
    ⟨(right pfn).1.trans (left pfn).1, (right pfn).2.trans (left pfn).2⟩

section

variable (lists)

theorem sameMarks_setHead (order pfn : Nat) : SameMarks lists (lists.setHead order pfn) :=
  fun _ => ⟨rfl, rfl⟩

theorem sameMarks_modify (pfn : Nat) {change : PageMeta → PageMeta}
    (keeps : ∀ entry, (change entry).flags = entry.flags ∧ (change entry).order = entry.order) :
    SameMarks lists (lists.modify pfn change) := by
  intro other
  rcases eq_or_ne other pfn with rfl | different
  · simpa [modify] using keeps (lists.pageMeta other)
  · simp [modify, different]

variable (pfn order : Nat)

theorem sameMarks_freeListPush : SameMarks lists (lists.freeListPush pfn order) := by
  unfold freeListPush
  simp only
  refine .trans ?_ (sameMarks_setHead _ order pfn)
  have linked : SameMarks lists (lists.modify pfn (fun entry =>
      { entry with prev := pfnNone, next := lists.heads order })) :=
    sameMarks_modify lists pfn (fun _ => ⟨rfl, rfl⟩)
  split
  · exact linked.trans (sameMarks_modify _ _ (fun _ => ⟨rfl, rfl⟩))
  · exact linked

theorem sameMarks_freeListRemove : SameMarks lists (lists.freeListRemove pfn order) := by
  unfold freeListRemove
  simp only
  refine .trans ?_ (sameMarks_modify _ _ (fun _ => ⟨rfl, rfl⟩))
  have forward : SameMarks lists (if (lists.pageMeta pfn).prev ≠ pfnNone then
        lists.modify (lists.pageMeta pfn).prev
          (fun entry => { entry with next := (lists.pageMeta pfn).next })
      else lists.setHead order (lists.pageMeta pfn).next) := by
    split
    · exact sameMarks_modify _ _ (fun _ => ⟨rfl, rfl⟩)
    · exact sameMarks_setHead _ _ _
  split
  · exact forward.trans (sameMarks_modify _ _ (fun _ => ⟨rfl, rfl⟩))
  · exact forward

/-! ## Links -/

theorem links_modify (pfn : Nat) (change : PageMeta → PageMeta) : (lists.modify pfn change).links =
      ⟨update lists.links.prev pfn (change (lists.pageMeta pfn)).prev,
        update lists.links.next pfn (change (lists.pageMeta pfn)).next⟩ :=
  congrArg₂ Links.mk (comp_update PageMeta.prev ..) (comp_update PageMeta.next ..)

theorem links_setHead (order pfn : Nat) : (lists.setHead order pfn).links = lists.links := rfl

theorem links_setPrev (pfn prev : Nat) :
    (lists.modify pfn (fun entry => { entry with prev := prev })).links =
      ⟨update lists.links.prev pfn prev, lists.links.next⟩ := by
  rw [links_modify]
  simp [links]

theorem links_setBoth (pfn prev next : Nat) : (lists.modify pfn
      (fun entry => { entry with prev := prev, next := next })).links =
      ⟨update lists.links.prev pfn prev, update lists.links.next pfn next⟩ :=
  links_modify lists pfn _

private theorem links_freeListPush :
    (lists.freeListPush pfn order).links = lists.links.push pfnNone (lists.heads order) pfn := by
  simp only [freeListPush, links_setHead]
  by_cases emptyList : lists.heads order = pfnNone
  · rw [if_neg (not_not.mpr emptyList), links_setBoth]
    simp [push, emptyList]
  · rw [if_pos emptyList, links_setPrev, links_setBoth]
    simp [push, emptyList]

private theorem links_freeListRemove :
    (lists.freeListRemove pfn order).links = lists.links.unlink pfnNone pfn := by
  simp only [freeListRemove, links_setBoth]
  by_cases front : (lists.pageMeta pfn).prev = pfnNone <;>
    by_cases back : (lists.pageMeta pfn).next = pfnNone
  · rw [if_neg (not_not.mpr back), if_neg (not_not.mpr front), links_setHead]
    simp [unlink, links, front, back]
  · rw [if_pos back, if_neg (not_not.mpr front), links_setPrev, links_setHead]
    simp [unlink, links, front, back]
  · rw [if_neg (not_not.mpr back), if_pos front, links_modify]
    simp [unlink, links, front, back]
  · rw [if_pos back, if_pos front, links_setPrev, links_modify]
    simp [unlink, links, front, back]

theorem heads_freeListPush :
    (lists.freeListPush pfn order).heads = update lists.heads order pfn := by
  simp only [freeListPush, setHead]
  split <;> rfl

theorem heads_freeListRemove : (lists.freeListRemove pfn order).heads = update lists.heads order
        (lists.links.headWithout pfnNone (lists.heads order) pfn) := by
  simp only [freeListRemove, headWithout]
  by_cases front : (lists.pageMeta pfn).prev = pfnNone
  · rw [if_neg (not_not.mpr front), if_pos (show lists.links.prev pfn = pfnNone from front)]
    split <;> rfl
  · rw [if_pos front, if_neg (show ¬ lists.links.prev pfn = pfnNone from front), update_eq_self]
    split <;> rfl

end

theorem links_mark {change : PageMeta → PageMeta}
    (keeps : ∀ entry, (change entry).prev = entry.prev ∧ (change entry).next = entry.next) :
    (lists.modify pfn change).links = lists.links := by
  rw [links_modify, (keeps _).1, (keeps _).2]
  simp [links]

/-! ## Lists -/

variable {free : Nat → List Nat} {greatest : Nat}
  (holds : ∀ order ≤ greatest, lists.Holds order (free order))
  (apart : ∀ first ≤ greatest, ∀ second ≤ greatest, ∀ item,
    item ∈ free first → item ∈ free second → first = second) (bounded : order ≤ greatest)
include holds apart

theorem family : Family lists.links pfnNone (· ≤ greatest) lists.heads free :=
  ⟨holds, fun first second item firstBounded secondBounded =>
    apart first firstBounded second secondBounded item⟩

include bounded

theorem holds_freeListPush (fresh : ∀ other ≤ greatest, pfn ∉ free other) (real : pfn ≠ pfnNone) :
    ∀ other ≤ greatest, (lists.freeListPush pfn order).Holds other
      (update free order (pfn :: free order) other) := by
  intro other otherBounded
  unfold Holds
  rw [links_freeListPush, heads_freeListPush]
  exact ((family holds apart).push bounded fresh real).isList other otherBounded

theorem holds_freeListRemove (member : pfn ∈ free order) :
    ∀ other ≤ greatest, (lists.freeListRemove pfn order).Holds other
      (update free order ((free order).erase pfn) other) := by
  intro other otherBounded
  unfold Holds
  rw [links_freeListRemove, heads_freeListRemove]
  exact ((family holds apart).unlink bounded member).isList other otherBounded

end FreeLists

end TgosKits
