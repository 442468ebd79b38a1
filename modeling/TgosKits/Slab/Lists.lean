import TgosKits.Library.LinkedList
import TgosKits.Slab.Places

/-!
# The lists of a slab cache (`slab/cache.rs`)

A cache of one size class keeps its slabs on three lists that are linked through the
headers; the address zero means "no slab".
-/

namespace TgosKits

open LinkedList Function Links

/-- `SlabCache`: the heads of its lists by kind, and the number of empty slabs
it keeps. -/
structure SlabCache where
  first : SlabListState → Nat
  emptyCount : Nat

/-- What the owner CPU works on: slab pages by address, caches by class. -/
structure SlabStore where
  pages : Nat → SlabPage
  caches : SizeClass → SlabCache

namespace SlabStore

def modify (store : SlabStore) (base : Nat) (change : SlabPage → SlabPage) : SlabStore :=
  { store with
    pages := update store.pages base (change (store.pages base)) }

def setFirst (store : SlabStore) (sizeClass : SizeClass) (kind : SlabListState)
    (base : Nat) : SlabStore :=
  { store with
    caches := update store.caches sizeClass
      { store.caches sizeClass with
        first :=
          update (store.caches sizeClass).first kind base } }

def pushFront (store : SlabStore) (sizeClass : SizeClass) (kind : SlabListState)
    (base : Nat) : SlabStore :=
  let oldFirst := (store.caches sizeClass).first kind
  let linked := store.modify base (fun page =>
    { page with listState := kind, listPrev := 0, listNext := oldFirst })
  let relinked :=
    if oldFirst ≠ 0 then
      linked.modify oldFirst (fun page => { page with listPrev := base })
    else linked
  relinked.setFirst sizeClass kind base

def remove (store : SlabStore) (sizeClass : SizeClass) (kind : SlabListState)
    (base : Nat) : SlabStore :=
  let prev := (store.pages base).listPrev
  let next := (store.pages base).listNext
  let forward :=
    if prev ≠ 0 then
      store.modify prev (fun page => { page with listNext := next })
    else store.setFirst sizeClass kind next
  let backward :=
    if next ≠ 0 then
      forward.modify next (fun page => { page with listPrev := prev })
    else forward
  backward.modify base (fun page =>
    { page with listPrev := 0, listNext := 0, listState := .notListed })

def keepEmpty (store : SlabStore) (sizeClass : SizeClass) : SlabStore :=
  { store with
    caches := update store.caches sizeClass
      { store.caches sizeClass with
        emptyCount := (store.caches sizeClass).emptyCount + 1 } }

def dropEmpty (store : SlabStore) (sizeClass : SizeClass) : SlabStore :=
  { store with
    caches := update store.caches sizeClass
      { store.caches sizeClass with
        emptyCount := (store.caches sizeClass).emptyCount - 1 } }

def links (store : SlabStore) : Links Nat := ⟨fun base => (store.pages base).listPrev,
    fun base => (store.pages base).listNext⟩

def heads (store : SlabStore) (index : SizeClass × SlabListState) : Nat :=
  (store.caches index.1).first index.2

def OnList (store : SlabStore) (sizeClass : SizeClass) (kind : SlabListState) (base : Nat) : Prop :=
  ∃ items, IsList store.links 0 (store.heads (sizeClass, kind)) items ∧ base ∈ items

variable {store : SlabStore} {sizeClass : SizeClass} {kind : SlabListState} {base other : Nat}

/-! ## Links and heads -/

section

variable (store sizeClass kind base) (change : SlabPage → SlabPage)

theorem links_modify : (store.modify base change).links = ⟨update store.links.prev base
          (change (store.pages base)).listPrev,
        update store.links.next base (change (store.pages base)).listNext⟩ :=
  congrArg₂ Links.mk (comp_update SlabPage.listPrev ..) (comp_update SlabPage.listNext ..)

theorem links_setPrev (prev : Nat) :
    (store.modify base (fun page => { page with listPrev := prev })).links =
      ⟨update store.links.prev base prev, store.links.next⟩ := by
  rw [links_modify]
  simp [links]

theorem links_setFirst : (store.setFirst sizeClass kind base).links = store.links := rfl

theorem links_pushFront : (store.pushFront sizeClass kind base).links =
      store.links.push 0 (store.heads (sizeClass, kind)) base := by
  simp only [pushFront, links_setFirst]
  by_cases emptyList : (store.caches sizeClass).first kind = 0
  · rw [if_neg (not_not.mpr emptyList), links_modify]
    simp [push, heads, emptyList]
  · rw [if_pos emptyList, links_setPrev, links_modify]
    simp [push, heads, emptyList]

theorem links_remove : (store.remove sizeClass kind base).links = store.links.unlink 0 base := by
  simp only [remove, links_modify]
  by_cases front : (store.pages base).listPrev = 0 <;>
    by_cases back : (store.pages base).listNext = 0
  · rw [if_neg (not_not.mpr back), if_neg (not_not.mpr front), links_setFirst]
    simp [unlink, links, front, back]
  · rw [if_pos back, if_neg (not_not.mpr front), links_setPrev, links_setFirst]
    simp [unlink, links, front, back]
  · rw [if_neg (not_not.mpr back), if_pos front, links_modify]
    simp [unlink, links, front, back]
  · rw [if_pos back, if_pos front, links_setPrev, links_modify]
    simp [unlink, links, front, back]

theorem heads_setFirst :
    (store.setFirst sizeClass kind base).heads = update store.heads (sizeClass, kind) base := by
  funext index
  rcases index with ⟨otherClass, otherKind⟩
  by_cases sameClass : otherClass = sizeClass
  · subst sameClass
    by_cases sameKind : otherKind = kind
    · subst sameKind
      simp [heads, setFirst]
    · simp [heads, setFirst, sameKind]
  · simp [heads, setFirst, sameClass]

theorem heads_modify : (store.modify base change).heads = store.heads := rfl

theorem heads_pushFront :
    (store.pushFront sizeClass kind base).heads = update store.heads (sizeClass, kind) base := by
  simp only [pushFront, heads_setFirst]
  split <;> rfl

theorem heads_remove :
    (store.remove sizeClass kind base).heads = update store.heads (sizeClass, kind)
        (store.links.headWithout 0 (store.heads (sizeClass, kind)) base) := by
  simp only [remove, heads_modify, headWithout]
  by_cases front : (store.pages base).listPrev = 0
  · rw [if_neg (not_not.mpr front), if_pos (show store.links.prev base = 0 from front)]
    split <;> simp only [heads_modify, heads_setFirst] <;> rfl
  · rw [if_pos front, if_neg (show ¬ store.links.prev base = 0 from front), update_eq_self]
    split <;> rfl

theorem heads_setEmptyCount (emptyCount : Nat) : heads { store with
      caches := update store.caches sizeClass { store.caches sizeClass with emptyCount } } =
      store.heads := by
  funext index
  by_cases same : index.1 = sizeClass
  · simp [heads, same]
  · simp [heads, same]

end

/-! ## Pages and counts -/

/-- The pages of `after` differ from those of `store` in what ties them to
lists; `states` are their states in `after`. -/
def Relinks (store after : SlabStore) (states : Nat → SlabListState) : Prop := ∀ other, ∃ prev next,
    after.pages other = (store.pages other).relink prev next (states other)

theorem Relinks.refl (store : SlabStore) :
    Relinks store store (fun base => (store.pages base).listState) :=
  fun _ => ⟨_, _, rfl⟩

variable {after : SlabStore} {states : Nat → SlabListState}

section

variable (relinks : Relinks store after states)
include relinks

theorem Relinks.modify (base : Nat) (change : SlabPage → SlabPage) (state : SlabListState)
    (isRelink : ∃ prev next,
      change (after.pages base) = (after.pages base).relink prev next state) :
    Relinks store (after.modify base change) (update states base state) := by
  intro other
  by_cases here : other = base
  · subst here
    obtain ⟨prev, next, changed⟩ := isRelink
    obtain ⟨oldPrev, oldNext, old⟩ := relinks other
    refine ⟨prev, next, ?_⟩
    simp only [SlabStore.modify, update_self]
    rw [changed, old]
    rfl
  · simpa [SlabStore.modify, here] using relinks other

theorem Relinks.modify_link (base : Nat) (change : SlabPage → SlabPage)
    (isRelink : ∃ prev next, change (after.pages base) =
      (after.pages base).relink prev next (after.pages base).listState) :
    Relinks store (after.modify base change) states := by
  have changed := relinks.modify base change _ isRelink
  obtain ⟨prev, next, old⟩ := relinks base
  have same : (after.pages base).listState = states base := by
    rw [old]
    rfl
  rwa [same, update_eq_self] at changed

theorem Relinks.setFirst (sizeClass : SizeClass) (kind : SlabListState) (base : Nat) :
    Relinks store (after.setFirst sizeClass kind base) states := relinks

end

section

variable (store sizeClass kind base)

theorem relinks_pushFront : Relinks store (store.pushFront sizeClass kind base)
      (update (fun other => (store.pages other).listState) base kind) := by
  have linked := (Relinks.refl store).modify base (fun page => { page with
      listState := kind, listPrev := 0,
      listNext := (store.caches sizeClass).first kind })
    kind ⟨_, _, rfl⟩
  apply Relinks.setFirst
  split
  · apply linked.modify_link
    exact ⟨_, _, rfl⟩
  · exact linked

theorem relinks_remove : Relinks store (store.remove sizeClass kind base)
      (update (fun other => (store.pages other).listState) base .notListed) := by
  simp only [remove]
  refine .modify ?_ base _ .notListed ⟨_, _, rfl⟩
  have forward : Relinks store (if (store.pages base).listPrev ≠ 0 then
        store.modify (store.pages base).listPrev (fun page =>
          { page with listNext := (store.pages base).listNext })
      else store.setFirst sizeClass kind (store.pages base).listNext)
      (fun other => (store.pages other).listState) := by
    split
    · apply (Relinks.refl store).modify_link
      exact ⟨_, _, rfl⟩
    · exact (Relinks.refl store).setFirst _ _ _
  split
  · apply forward.modify_link
    exact ⟨_, _, rfl⟩
  · exact forward

variable (other : SizeClass)

theorem emptyCount_setFirst : ((store.setFirst sizeClass kind base).caches other).emptyCount =
      (store.caches other).emptyCount := by
  by_cases here : other = sizeClass
  · simp [setFirst, here]
  · simp [setFirst, here]

theorem emptyCount_pushFront : ((store.pushFront sizeClass kind base).caches other).emptyCount =
      (store.caches other).emptyCount := by
  simp only [pushFront, emptyCount_setFirst]
  split <;> rfl

theorem emptyCount_remove : ((store.remove sizeClass kind base).caches other).emptyCount =
      (store.caches other).emptyCount := by
  have first := store.emptyCount_setFirst sizeClass kind (store.pages base).listNext other
  simp only [remove]
  split <;> split <;> first | rfl | exact first

end

/-! ## All lists of a store -/

/-- The lists of a store: each slab in `owned` is on the list of its class and
its state, and on no other. -/
structure Listing (store : SlabStore) (owned : Finset Nat)
    (lists : SizeClass × SlabListState → List Nat) : Prop where
  family : Family store.links 0 (fun index => index.2 ≠ .notListed) store.heads lists
  mem_iff : ∀ sizeClass kind base, kind ≠ .notListed → (base ∈ lists (sizeClass, kind) ↔
      base ∈ owned ∧ (store.pages base).sizeClass = sizeClass ∧ (store.pages base).listState = kind)

variable {owned : Finset Nat} {lists : SizeClass × SlabListState → List Nat}
  (listing : store.Listing owned lists)
include listing

theorem Listing.onList_iff (listed : kind ≠ .notListed) :
    store.OnList sizeClass kind base ↔ base ∈ lists (sizeClass, kind) := by
  have isList := listing.family.isList (sizeClass, kind) listed
  constructor
  · rintro ⟨items, other, member⟩
    rwa [isList.chain.unique other.chain]
  · intro member
    exact ⟨_, isList, member⟩

theorem Listing.congr (heads : after.heads = store.heads) (same : ∀ base ∈ owned,
      (after.pages base).listPrev = (store.pages base).listPrev ∧
        (after.pages base).listNext = (store.pages base).listNext ∧
        (after.pages base).sizeClass = (store.pages base).sizeClass ∧
        (after.pages base).listState = (store.pages base).listState) :
    after.Listing owned lists := by
  constructor
  · rw [heads]
    apply listing.family.congr
    intro index listed base member
    have inside := ((listing.mem_iff index.1 index.2 base listed).mp member).1
    exact ⟨(same base inside).1, (same base inside).2.1⟩
  · intro sizeClass kind base listed
    rw [listing.mem_iff sizeClass kind base listed]
    refine and_congr_right fun inside => ?_
    rw [(same base inside).2.2.1, (same base inside).2.2.2]

theorem Listing.outside {otherOwned : Finset Nat}
    (unlisted : base ∈ owned → (store.pages base).listState = .notListed) (page : SlabPage)
    (agree : ∀ other, other ≠ base → (other ∈ otherOwned ↔ other ∈ owned))
    (fresh : base ∈ otherOwned → page.listState = .notListed) :
    (store.modify base (fun _ => page)).Listing otherOwned lists := by
  have notMember : ∀ sizeClass kind, kind ≠ .notListed → base ∉ lists (sizeClass, kind) := by
    intro sizeClass kind listed member
    obtain ⟨inside, -, state⟩ := (listing.mem_iff sizeClass kind base listed).mp member
    exact listed (state.symm.trans (unlisted inside))
  constructor
  · apply listing.family.congr
    intro index listed node member
    have different : node ≠ base := fun equal =>
      notMember index.1 index.2 listed (equal ▸ member)
    simp [links, modify, different]
  · intro sizeClass kind node listed
    by_cases here : node = base
    · subst here
      refine iff_of_false (notMember sizeClass kind listed) ?_
      rintro ⟨inside, -, state⟩
      simp only [modify, update_self] at state
      exact listed (state.symm.trans (fresh inside))
    · rw [listing.mem_iff sizeClass kind node listed, agree node here]
      simp [modify, here]

theorem Listing.pushFront (listed : kind ≠ .notListed)
    (inside : base ∈ owned) (real : base ≠ 0) (ofClass : (store.pages base).sizeClass = sizeClass)
    (loose : (store.pages base).listState = .notListed) :
    (store.pushFront sizeClass kind base).Listing owned (update lists (sizeClass, kind)
        (base :: lists (sizeClass, kind))) := by
  constructor
  · rw [links_pushFront, heads_pushFront]
    apply listing.family.push listed _ real
    intro index otherListed member
    obtain ⟨-, -, state⟩ := (listing.mem_iff index.1 index.2 base otherListed).mp member
    exact otherListed (state.symm.trans loose)
  · intro otherClass otherKind other otherListed
    obtain ⟨prev, next, pageEq⟩ := relinks_pushFront store sizeClass kind base other
    have old := listing.mem_iff otherClass otherKind other otherListed
    rw [pageEq]
    simp only [SlabPage.relink]
    by_cases here : other = base
    · subst here
      rw [update_self]
      by_cases index : (otherClass, otherKind) = (sizeClass, kind)
      · obtain ⟨rfl, rfl⟩ := Prod.mk.inj index
        rw [update_self]
        simp [inside, ofClass]
      have notOld : other ∉ lists (otherClass, otherKind) := by
        rw [old, loose]
        exact fun both => otherListed both.2.2.symm
      rw [update_of_ne index]
      refine iff_of_false notOld ?_
      rintro ⟨-, sameClass, sameKind⟩
      exact index (by rw [← sameClass, ofClass, sameKind])
    · rw [update_of_ne here, ← old]
      by_cases index : (otherClass, otherKind) = (sizeClass, kind)
      · rw [index, update_self]
        exact List.mem_cons.trans (or_iff_right here)
      · rw [update_of_ne index]

theorem Listing.remove (listed : kind ≠ .notListed) (member : base ∈ lists (sizeClass, kind)) :
    (store.remove sizeClass kind base).Listing owned (update lists (sizeClass, kind)
        ((lists (sizeClass, kind)).erase base)) := by
  constructor
  · rw [links_remove, heads_remove]
    exact listing.family.unlink listed member
  · intro otherClass otherKind other otherListed
    obtain ⟨prev, next, pageEq⟩ := relinks_remove store sizeClass kind base other
    have old := listing.mem_iff otherClass otherKind other otherListed
    have nodup := (listing.family.isList (sizeClass, kind) listed).nodup
    rw [pageEq]
    simp only [SlabPage.relink]
    by_cases here : other = base
    · subst here
      rw [update_self]
      refine iff_of_false ?_ (fun both => otherListed both.2.2.symm)
      by_cases index : (otherClass, otherKind) = (sizeClass, kind)
      · rw [index, update_self]
        exact nodup.not_mem_erase
      · rw [update_of_ne index]
        intro inside
        exact index (listing.family.apart _ _ _ otherListed listed inside member)
    · rw [update_of_ne here, ← old]
      by_cases index : (otherClass, otherKind) = (sizeClass, kind)
      · rw [index, update_self]
        exact List.mem_erase_of_ne here
      · rw [update_of_ne index]

end SlabStore

end TgosKits
