import Mathlib.Algebra.Group.Nat.Defs
import Mathlib.Algebra.Group.Int.Defs
import Mathlib.Data.List.Pairwise
import TgosKits.Library.SwapScan

/-!
# Record locks

The `fcntl` locks of an inode: an unordered list of ranges with their owners, which are
processes or open file descriptions.
-/

namespace TgosKits

open List SwapScan

inductive LockKind where
  | read
  | write
  deriving DecidableEq, Repr

structure PidSnapshot where
  identityId : Nat
  /-- The namespaces the process is visible in, with its number there. -/
  bindings : List (Nat × Nat)
  deriving DecidableEq, Repr

def PidSnapshot.visibleNumber (snapshot : PidSnapshot) (observer : Nat) : Option Nat :=
  (snapshot.bindings.find? fun binding => binding.1 == observer).map Prod.snd

/-- Owner of an entry. An open file description has an address, and `weak` is the
file whose strong references tell whether it is still open. -/
inductive FOwner where
  | posix (owner : PidSnapshot)
  | ofd (addr weak : Nat)
  deriving DecidableEq, Repr

namespace FOwner

def sameAs : FOwner → FOwner → Bool
  | posix a, posix b => a.identityId == b.identityId
  | ofd a _, ofd b _ => a == b
  | _, _ => false

def reportPid (observer : Nat) : FOwner → Int
  | posix owner => ((owner.visibleNumber observer).map Int.ofNat).getD 0
  | ofd _ _ => -1

def isDead (strongCount : Nat → Nat) : FOwner → Bool
  | posix _ => false
  | ofd _ weak => strongCount weak == 0

def identity : FOwner → Nat ⊕ Nat
  | posix owner => .inl owner.identityId
  | ofd addr _ => .inr addr

theorem sameAs_iff {first second : FOwner} :
    first.sameAs second = true ↔ first.identity = second.identity := by
  cases first <;> cases second <;> simp [sameAs, identity]

end FOwner

/-- A lock on the half-open range `[start, stop)`. -/
structure FLockEntry where
  start : Int
  stop : Int
  kind : LockKind
  owner : FOwner
  deriving DecidableEq, Repr

inductive StarryError where
  | invalidInput
  deriving DecidableEq, Repr

def offsetMax : Int := 2 ^ 63 - 1

def offsetAdd (a b : Int) : Except StarryError Int :=
  if -(2 ^ 63) ≤ a + b ∧ a + b ≤ offsetMax then .ok (a + b) else .error .invalidInput

def flockRange (lStart lLen : Int64) : Except StarryError (Int × Int) :=
  let lStart := lStart.toInt
  let lLen := lLen.toInt
  if lLen = 0 then
    if lStart < 0 then .error .invalidInput else .ok (lStart, offsetMax)
  else do
    let (start, stop) ←
      if 0 < lLen then
        (offsetAdd lStart lLen).map fun stop => (lStart, stop)
      else
        (offsetAdd lStart lLen).map fun start => (start, lStart)
    if start < 0 then .error .invalidInput else .ok (start, stop)

def rangesOverlap (aStart aStop bStart bStop : Int) : Bool :=
  decide (aStart < bStop ∧ bStart < aStop)

/-- Read-read is the only mutually compatible pair. -/
def kindsConflict (a b : LockKind) : Bool := !(a == .read && b == .read)

/-- The entries that `clear_owner_overlap` touches. -/
def touches (owner : FOwner) (start stop : Int) (entry : FLockEntry) : Bool :=
  entry.owner.sameAs owner && rangesOverlap entry.start entry.stop start stop

def fragments (start stop : Int) (entry : FLockEntry) : List FLockEntry :=
  (if entry.start < start then [{ entry with stop := start }] else []) ++
    if stop < entry.stop then [{ entry with start := stop }] else []

theorem mem_fragments {start stop : Int} {entry piece : FLockEntry} :
    piece ∈ fragments start stop entry ↔
      entry.start < start ∧ piece = { entry with stop := start } ∨
        stop < entry.stop ∧ piece = { entry with start := stop } := by
  rw [fragments, mem_append]
  split_ifs with head tail tail <;> simp [head, tail]

private theorem touches_fragments (owner : FOwner) (start stop : Int) (entry : FLockEntry) :
    ∀ piece ∈ fragments start stop entry, touches owner start stop piece = false := by
  intro piece member
  rcases mem_fragments.mp member with ⟨_, rfl⟩ | ⟨_, rfl⟩ <;>
    simp [touches, rangesOverlap]

def clearOwnerOverlap (entries : List FLockEntry) (owner : FOwner)
    (start stop : Int) : List FLockEntry × Bool :=
  scan (touches owner start stop) (fragments start stop)
    (touches_fragments owner start stop) entries 0

def conflicts (requester : FOwner) (start stop : Int) (kind : LockKind)
    (entry : FLockEntry) : Bool :=
  !entry.owner.sameAs requester && rangesOverlap entry.start entry.stop start stop &&
    kindsConflict entry.kind kind

section

variable (strongCount : Nat → Nat) (entries : List FLockEntry)

def retainLive : List FLockEntry :=
  entries.filter fun entry => !entry.owner.isDead strongCount

def findConflict (requester : FOwner)
    (start stop : Int) (kind : LockKind) : List FLockEntry × Option FLockEntry :=
  let entries := retainLive strongCount entries
  (entries, entries.find? (conflicts requester start stop kind))

inductive SetlkAttempt where
  | done (wokeOthers : Bool)
  | conflict
  deriving DecidableEq, Repr

/-- One attempt to install or to clear a lock; without an entry an inode has the
empty table. -/
def trySetlkOnce (owner : FOwner) (start stop : Int)
    (kind : Option LockKind) : SetlkAttempt × List FLockEntry :=
  let entries := retainLive strongCount entries
  match kind with
  | none =>
    let (entries, wokeOthers) := clearOwnerOverlap entries owner start stop
    (.done wokeOthers, entries)
  | some kind =>
    match findConflict strongCount entries owner start stop kind with
    | (entries, some _) => (.conflict, entries)
    | (entries, none) =>
      let (entries, wokeOthers) := clearOwnerOverlap entries owner start stop
      (.done wokeOthers, entries ++ [⟨start, stop, kind, owner⟩])

/-- What `F_GETLK` reports: kind, owner, start and length of the first conflict. -/
def getlkReport (observer : Nat) (entries : List FLockEntry) (requester : FOwner)
    (start stop : Int) (kind : LockKind) : Option (LockKind × Int × Int × Int) :=
  (entries.find? fun entry => !entry.owner.isDead strongCount &&
    conflicts requester start stop kind entry).map fun entry =>
      (entry.kind, entry.owner.reportPid observer, entry.start,
        if entry.stop = offsetMax then 0 else entry.stop - entry.start)

end

/-- What stays when a process gives up its locks, and whether an entry went. -/
def releasePosix (owner : Nat) (entries : List FLockEntry) : List FLockEntry × Bool :=
  let kept := entries.filter fun entry =>
    match entry.owner with
    | .posix candidate => candidate.identityId != owner
    | .ofd _ _ => true
  (kept, kept.length != entries.length)

/-! ## Views -/

def FLockEntry.Covers (entry : FLockEntry) (offset : Int) : Prop :=
  entry.start ≤ offset ∧ offset < entry.stop

instance (entry : FLockEntry) (offset : Int) : Decidable (entry.Covers offset) :=
  inferInstanceAs (Decidable (_ ∧ _))

/-- The kind of lock that an owner holds at an offset; dead owners hold none. -/
def lockView (strongCount : Nat → Nat) (entries : List FLockEntry)
    (owner : Nat ⊕ Nat) (offset : Int) : Option LockKind :=
  ((retainLive strongCount entries).find? fun entry =>
    decide (entry.owner.identity = owner ∧ entry.Covers offset)).map FLockEntry.kind

def Holds (strongCount : Nat → Nat) (entries : List FLockEntry)
    (owner : Nat ⊕ Nat) (offset : Int) (kind : LockKind) : Prop :=
  ∃ entry ∈ entries, entry.owner.isDead strongCount = false ∧
    entry.owner.identity = owner ∧ entry.Covers offset ∧ entry.kind = kind

/-- A range of `flock_range`: only the one at the end of all files is empty. -/
def Proper (start stop : Int) : Prop :=
  start < stop ∧ stop ≤ offsetMax ∨ start = offsetMax ∧ stop = offsetMax

theorem proper_of_flockRange {lStart lLen : Int64} {start stop : Int}
    (ran : flockRange lStart lLen = .ok (start, stop)) : Proper start stop := by
  have small : lStart.toInt ≤ offsetMax := Int.le_of_lt_add_one lStart.toInt_lt
  unfold flockRange at ran
  dsimp only at ran
  split_ifs at ran with whole negative forward
  · simp only [Except.ok.injEq, Prod.mk.injEq] at ran
    unfold Proper
    omega
  all_goals
    unfold offsetAdd at ran
    split_ifs at ran with inside
    · simp only [Except.map, bind, Except.bind] at ran
      split_ifs at ran
      simp only [Except.ok.injEq, Prod.mk.injEq] at ran
      unfold Proper
      omega
    · cases ran

theorem rangesOverlap_iff {aStart aStop bStart bStop : Int}
    (aProper : Proper aStart aStop) (bProper : Proper bStart bStop) :
    rangesOverlap aStart aStop bStart bStop = true ↔ ∃ offset, (aStart ≤ offset ∧ offset < aStop) ∧
        bStart ≤ offset ∧ offset < bStop := by
  unfold Proper at aProper bProper
  simp only [rangesOverlap, decide_eq_true_eq]
  constructor
  · intro overlap
    exact ⟨max aStart bStart, by omega, by omega⟩
  · rintro ⟨offset, inA, inB⟩
    omega

/-- Two entries of one owner share no offset, and two entries of live owners that
share one are compatible. -/
def Peaceful (strongCount : Nat → Nat) (first second : FLockEntry) : Prop :=
  ∀ offset, first.Covers offset → second.Covers offset →
    first.owner.identity ≠ second.owner.identity ∧ (first.owner.isDead strongCount = false →
        second.owner.isDead strongCount = false →
        kindsConflict first.kind second.kind = false)

structure LockTable (strongCount : Nat → Nat) (entries : List FLockEntry) : Prop where
  proper : ∀ entry ∈ entries, Proper entry.start entry.stop
  peaceful : entries.Pairwise (Peaceful strongCount)

section Views

variable {strongCount laterCount : Nat → Nat} {entries : List FLockEntry}
  {entry piece first second : FLockEntry} {owner requester : FOwner} {identity : Nat ⊕ Nat}
  {start stop offset : Int} {kind : LockKind} {wanted : Option LockKind}

theorem kindsConflict_comm (a b : LockKind) : kindsConflict a b = kindsConflict b a := by
  cases a <;> cases b <;> rfl

theorem Peaceful.symm (peaceful : Peaceful strongCount first second) :
    Peaceful strongCount second first := by
  intro offset inSecond inFirst
  rcases peaceful offset inFirst inSecond with ⟨apart, compatible⟩
  refine ⟨apart.symm, fun secondLive firstLive => ?_⟩
  rw [kindsConflict_comm]
  exact compatible firstLive secondLive

instance : Std.Symm (Peaceful strongCount) := ⟨fun _ _ peaceful => peaceful.symm⟩

theorem mem_retainLive : entry ∈ retainLive strongCount entries ↔
      entry ∈ entries ∧ entry.owner.isDead strongCount = false := by
  simp [retainLive]

namespace LockTable

theorem nil : LockTable strongCount [] := ⟨by simp, .nil⟩

variable (table : LockTable strongCount entries)
include table

theorem filter (keep : FLockEntry → Bool) : LockTable strongCount (entries.filter keep) :=
  ⟨fun entry member => table.proper entry (mem_filter.mp member).1, table.peaceful.filter keep⟩

theorem later (dead : ∀ file, strongCount file = 0 → laterCount file = 0) :
    LockTable laterCount entries := by
  have alive : ∀ owner : FOwner, owner.isDead laterCount = false →
      owner.isDead strongCount = false := by
    intro owner
    cases owner with
    | posix owner => exact id
    | ofd addr weak =>
      simp only [FOwner.isDead, beq_eq_false_iff_ne]
      exact mt (dead weak)
  refine ⟨table.proper, table.peaceful.imp ?_⟩
  intro first second peaceful offset inFirst inSecond
  rcases peaceful offset inFirst inSecond with ⟨apart, compatible⟩
  exact ⟨apart, fun firstLive secondLive =>
    compatible (alive _ firstLive) (alive _ secondLive)⟩

theorem view_eq_some_iff : lockView strongCount entries identity offset = some kind ↔
      Holds strongCount entries identity offset kind := by
  rw [lockView, Option.map_eq_some_iff]
  constructor
  · rintro ⟨entry, found, rfl⟩
    have test := find?_some found
    rw [decide_eq_true_eq] at test
    rcases mem_retainLive.mp (mem_of_find?_eq_some found) with ⟨member, live⟩
    exact ⟨entry, member, live, test.1, test.2, rfl⟩
  · rintro ⟨entry, member, live, same, covers, rfl⟩
    have isSome : ((retainLive strongCount entries).find? fun entry =>
        decide (entry.owner.identity = identity ∧ entry.Covers offset)).isSome :=
      find?_isSome.mpr ⟨entry, mem_retainLive.mpr ⟨member, live⟩, decide_eq_true ⟨same, covers⟩⟩
    rcases Option.isSome_iff_exists.mp isSome with ⟨found, isFound⟩
    refine ⟨found, isFound, ?_⟩
    have test := find?_some isFound
    rw [decide_eq_true_eq] at test
    by_contra differ
    have ne : found ≠ entry := fun equal => differ (congrArg FLockEntry.kind equal)
    have foundMember := (mem_retainLive.mp (mem_of_find?_eq_some isFound)).1
    exact (table.peaceful.forall foundMember member ne offset test.2 covers).1
      (test.1.trans same.symm)

theorem compatible {other : Nat ⊕ Nat} {held : LockKind} (ne : identity ≠ other)
    (first : Holds strongCount entries identity offset kind)
    (second : Holds strongCount entries other offset held) : kindsConflict kind held = false := by
  rcases first with ⟨entry, member, live, rfl, covers, rfl⟩
  rcases second with ⟨found, foundMember, foundLive, rfl, foundCovers, rfl⟩
  have different : entry ≠ found := fun equal =>
    ne (congrArg (fun entry => entry.owner.identity) equal)
  exact (table.peaceful.forall member foundMember different offset covers
    foundCovers).2 live foundLive

end LockTable

private theorem LockTable.of_perm {other : List FLockEntry} (table : LockTable strongCount entries)
    (same : other.Perm entries) : LockTable strongCount other :=
  ⟨fun entry member => table.proper entry (same.mem_iff.mp member),
    (same.pairwise_iff (fun peaceful => peaceful.symm)).mpr table.peaceful⟩

/-! ## Clearing a range -/

def remains (owner : FOwner) (start stop : Int) : FLockEntry → List FLockEntry :=
  rest (touches owner start stop) (fragments start stop)

theorem clear_perm : (clearOwnerOverlap entries owner start stop).1.Perm
      (entries.flatMap (remains owner start stop)) :=
  (scan_perm (by simp)).1

theorem clear_changed : (clearOwnerOverlap entries owner start stop).2 =
      entries.any (touches owner start stop) :=
  (scan_perm (by simp)).2

theorem mem_remains : piece ∈ remains owner start stop entry ↔
      touches owner start stop entry = false ∧ piece = entry ∨
        touches owner start stop entry = true ∧ piece ∈ fragments start stop entry := by
  unfold remains rest
  cases touches owner start stop entry <;> simp

theorem part_of_mem_remains (member : piece ∈ remains owner start stop entry) :
    piece.owner = entry.owner ∧ piece.kind = entry.kind ∧
      ∀ offset, piece.Covers offset → entry.Covers offset ∧
        ¬ (entry.owner.identity = owner.identity ∧ start ≤ offset ∧ offset < stop) := by
  unfold FLockEntry.Covers
  rcases mem_remains.mp member with ⟨missed, rfl⟩ | ⟨touched, member⟩
  · refine ⟨rfl, rfl, fun offset covers => ⟨covers, ?_⟩⟩
    rintro ⟨same, inside⟩
    rw [touches, FOwner.sameAs_iff.mpr same, Bool.true_and, rangesOverlap,
      decide_eq_false_iff_not] at missed
    omega
  · rw [touches, Bool.and_eq_true, rangesOverlap, decide_eq_true_eq] at touched
    rcases mem_fragments.mp member with ⟨cut, rfl⟩ | ⟨cut, rfl⟩
    all_goals
      refine ⟨rfl, rfl, ?_⟩
      intro offset covers
      dsimp only at covers
      omega

private theorem exists_remains (covers : entry.Covers offset)
    (outside : ¬ (entry.owner.identity = owner.identity ∧ start ≤ offset ∧ offset < stop)) :
    ∃ piece ∈ remains owner start stop entry, piece.Covers offset := by
  unfold FLockEntry.Covers at covers ⊢
  by_cases touched : touches owner start stop entry = true
  · have same : entry.owner.identity = owner.identity := by
      rw [touches, Bool.and_eq_true] at touched
      exact FOwner.sameAs_iff.mp touched.1
    have beside : offset < start ∨ stop ≤ offset := by
      by_contra inside
      exact outside ⟨same, by omega⟩
    rcases beside with before | behind
    · exact ⟨_, mem_remains.mpr (.inr ⟨touched, mem_fragments.mpr
        (.inl ⟨by omega, rfl⟩)⟩), covers.1, before⟩
    · exact ⟨_, mem_remains.mpr (.inr ⟨touched, mem_fragments.mpr
        (.inr ⟨by omega, rfl⟩)⟩), behind, covers.2⟩
  · exact ⟨entry, mem_remains.mpr (.inl ⟨by simpa using touched, rfl⟩), covers⟩

theorem holds_clear : Holds strongCount (clearOwnerOverlap entries owner start stop).1 identity
        offset kind ↔
      Holds strongCount entries identity offset kind ∧
        ¬ (identity = owner.identity ∧ start ≤ offset ∧ offset < stop) := by
  constructor
  · rintro ⟨piece, member, live, rfl, covers, rfl⟩
    rcases mem_flatMap.mp (clear_perm.mem_iff.mp member) with ⟨entry, entryMember, isPiece⟩
    rcases part_of_mem_remains isPiece with ⟨ownerEq, kindEq, part⟩
    rcases part offset covers with ⟨entryCovers, outside⟩
    rw [ownerEq] at live ⊢
    exact ⟨⟨entry, entryMember, live, rfl, entryCovers, kindEq.symm⟩, outside⟩
  · rintro ⟨⟨entry, member, live, rfl, covers, rfl⟩, outside⟩
    rcases exists_remains covers outside with ⟨piece, isPiece, pieceCovers⟩
    rcases part_of_mem_remains isPiece with ⟨ownerEq, kindEq, _⟩
    exact ⟨piece, clear_perm.mem_iff.mpr
      (mem_flatMap.mpr ⟨entry, member, isPiece⟩), by rw [ownerEq, live],
      by rw [ownerEq], pieceCovers, kindEq⟩

theorem LockTable.clear (table : LockTable strongCount entries) (proper : Proper start stop) :
    LockTable strongCount (clearOwnerOverlap entries owner start stop).1 := by
  have range : start ≤ stop := by
    unfold Proper at proper
    omega
  refine .of_perm ⟨?_, ?_⟩ clear_perm
  · intro piece member
    rcases mem_flatMap.mp member with ⟨entry, entryMember, isPiece⟩
    have entryProper := table.proper entry entryMember
    unfold Proper at entryProper proper ⊢
    rcases mem_remains.mp isPiece with ⟨_, rfl⟩ | ⟨_, isPiece⟩
    · exact entryProper
    · rcases mem_fragments.mp isPiece with ⟨cut, rfl⟩ | ⟨cut, rfl⟩ <;>
        dsimp only <;> omega
  · rw [pairwise_flatMap]
    constructor
    · intro entry _
      unfold remains rest fragments
      split_ifs <;> simp [Peaceful, FLockEntry.Covers]
      omega
    · refine table.peaceful.imp ?_
      intro first second peaceful left isLeft right isRight offset inLeft inRight
      rcases part_of_mem_remains isLeft with ⟨leftOwner, leftKind, part⟩
      rcases part_of_mem_remains isRight with ⟨rightOwner, rightKind, part'⟩
      rw [leftOwner, leftKind, rightOwner, rightKind]
      exact peaceful offset (part offset inLeft).1 (part' offset inRight).1

/-! ## Setting a lock -/

theorem holds_retainLive : Holds strongCount (retainLive strongCount entries) identity offset kind ↔
      Holds strongCount entries identity offset kind := by
  constructor
  · rintro ⟨entry, member, holds⟩
    exact ⟨entry, (mem_retainLive.mp member).1, holds⟩
  · rintro ⟨entry, member, live, holds⟩
    exact ⟨entry, mem_retainLive.mpr ⟨member, live⟩, live, holds⟩

theorem retainLive_retainLive : retainLive strongCount (retainLive strongCount entries) =
      retainLive strongCount entries := by
  simp [retainLive]

/-- Another live owner holds an incompatible lock at an offset of the range. -/
def Opposed (strongCount : Nat → Nat) (entries : List FLockEntry)
    (requester : FOwner) (start stop : Int) (kind : LockKind) : Prop :=
  ∃ identity offset held, identity ≠ requester.identity ∧ start ≤ offset ∧
    offset < stop ∧ lockView strongCount entries identity offset = some held ∧
    kindsConflict held kind = true

private theorem conflicts_iff : conflicts requester start stop kind entry = true ↔
      entry.owner.identity ≠ requester.identity ∧
        rangesOverlap entry.start entry.stop start stop = true ∧
        kindsConflict entry.kind kind = true := by
  rw [← FOwner.sameAs_iff.ne, conflicts]
  simp [and_assoc]

theorem LockTable.opposed_iff (table : LockTable strongCount entries) (proper : Proper start stop) :
    Opposed strongCount entries requester start stop kind ↔
      ∃ entry ∈ entries, entry.owner.isDead strongCount = false ∧
        conflicts requester start stop kind entry = true := by
  simp only [conflicts_iff]
  constructor
  · rintro ⟨identity, offset, held, ne, above, below, view, conflict⟩
    rcases table.view_eq_some_iff.mp view with ⟨entry, member, live, rfl, covers, rfl⟩
    exact ⟨entry, member, live, ne, (rangesOverlap_iff (table.proper entry member)
      proper).mpr ⟨offset, covers, above, below⟩, conflict⟩
  · rintro ⟨entry, member, live, ne, overlap, conflict⟩
    rcases (rangesOverlap_iff (table.proper entry member) proper).mp overlap with
      ⟨offset, covers, above, below⟩
    exact ⟨_, offset, _, ne, above, below,
      table.view_eq_some_iff.mpr ⟨entry, member, live, rfl, covers, rfl⟩, conflict⟩

theorem LockTable.install (table : LockTable strongCount entries) (proper : Proper start stop)
    (free : ¬ Opposed strongCount entries owner start stop kind) :
    LockTable strongCount ((clearOwnerOverlap entries owner start stop).1 ++
        [⟨start, stop, kind, owner⟩]) := by
  have cleared : LockTable strongCount
      (clearOwnerOverlap entries owner start stop).1 := table.clear proper
  refine ⟨?_, pairwise_append.mpr ⟨cleared.peaceful, by simp, ?_⟩⟩
  · intro entry member
    rcases mem_append.mp member with member | member
    · exact cleared.proper entry member
    · rw [mem_singleton] at member
      subst member
      exact proper
  · intro piece member new isNew offset inPiece inNew
    rw [mem_singleton] at isNew
    subst isNew
    rcases mem_flatMap.mp (clear_perm.mem_iff.mp member) with ⟨entry, entryMember, isPiece⟩
    rcases part_of_mem_remains isPiece with ⟨ownerEq, kindEq, part⟩
    rcases part offset inPiece with ⟨covers, outside⟩
    rw [ownerEq, kindEq]
    have ne : entry.owner.identity ≠ owner.identity := fun same => outside ⟨same, inNew⟩
    refine ⟨ne, fun live _ => ?_⟩
    by_contra conflict
    exact free ⟨_, offset, _, ne, inNew.1, inNew.2,
      table.view_eq_some_iff.mpr ⟨entry, entryMember, live, rfl, covers, rfl⟩,
      by simpa using conflict⟩

theorem trySetlkOnce_some : trySetlkOnce strongCount entries owner start stop (some kind) =
      if (retainLive strongCount entries).any (conflicts owner start stop kind) then
        (.conflict, retainLive strongCount entries)
      else
        let cleared := clearOwnerOverlap (retainLive strongCount entries) owner start stop
        (.done cleared.2, cleared.1 ++ [⟨start, stop, kind, owner⟩]) := by
  rw [trySetlkOnce]
  simp only [findConflict, retainLive_retainLive]
  cases found : (retainLive strongCount entries).find? (conflicts owner start stop kind) with
  | none =>
    rw [if_neg]
    simpa using found
  | some entry =>
    rw [if_pos]
    exact any_eq_true.mpr ⟨entry, mem_of_find?_eq_some found, find?_some found⟩

section

variable (table : LockTable strongCount entries)
include table

theorem LockTable.any_conflicts_iff (proper : Proper start stop) :
    (retainLive strongCount entries).any (conflicts owner start stop kind) = true ↔
      Opposed strongCount entries owner start stop kind := by
  simp [table.opposed_iff proper, any_eq_true, mem_retainLive, and_assoc]

theorem LockTable.retain : LockTable strongCount (retainLive strongCount entries) := table.filter _

private theorem LockTable.view_retain :
    lockView strongCount (retainLive strongCount entries) identity offset =
      lockView strongCount entries identity offset := by
  refine Option.ext fun kind => ?_
  rw [table.view_eq_some_iff, table.retain.view_eq_some_iff]
  exact holds_retainLive

theorem LockTable.setlk (proper : Proper start stop) : LockTable strongCount
      (trySetlkOnce strongCount entries owner start stop wanted).2 := by
  cases wanted with
  | none => exact table.retain.clear proper
  | some kind =>
    rw [trySetlkOnce_some]
    split_ifs with opposed
    · exact table.retain
    · refine table.retain.install proper ?_
      rwa [← table.retain.any_conflicts_iff proper, retainLive_retainLive]

theorem LockTable.conflict_iff (proper : Proper start stop) :
    (trySetlkOnce strongCount entries owner start stop wanted).1 = .conflict ↔
      ∃ kind, wanted = some kind ∧ Opposed strongCount entries owner start stop kind := by
  cases wanted with
  | none => simp [trySetlkOnce]
  | some kind =>
    simp only [trySetlkOnce_some, Option.some.injEq, exists_eq_left',
      ← table.any_conflicts_iff proper]
    split_ifs with opposed <;> simp [opposed]

end

theorem mem_trySetlkOnce_cases
    (member : piece ∈ (trySetlkOnce strongCount entries owner start stop wanted).2) :
    piece.owner = owner ∨ ∃ entry ∈ entries, piece.owner = entry.owner ∧
      (entry.owner.identity = owner.identity ∨ piece = entry) := by
  have cleared : ∀ piece ∈ (clearOwnerOverlap (retainLive strongCount entries) owner start stop).1,
      ∃ entry ∈ entries, piece.owner = entry.owner ∧
        (entry.owner.identity = owner.identity ∨ piece = entry) := by
    intro piece member
    rcases mem_flatMap.mp (clear_perm.mem_iff.mp member) with ⟨entry, entryMember, isPiece⟩
    refine ⟨entry, (mem_retainLive.mp entryMember).1, (part_of_mem_remains isPiece).1, ?_⟩
    rcases mem_remains.mp isPiece with ⟨_, same⟩ | ⟨touched, _⟩
    · exact .inr same
    · rw [touches, Bool.and_eq_true, FOwner.sameAs_iff] at touched
      exact .inl touched.1
  cases wanted with
  | none => exact .inr (cleared piece member)
  | some kind =>
    rw [trySetlkOnce_some] at member
    split_ifs at member
    · exact .inr ⟨piece, (mem_retainLive.mp member).1, rfl, .inr rfl⟩
    rcases mem_append.mp member with member | isNew
    · exact .inr (cleared piece member)
    · rw [mem_singleton.mp isNew]
      exact .inl rfl

private theorem holds_append_new (live : owner.isDead strongCount = false) {held : LockKind} :
    Holds strongCount (entries ++ [⟨start, stop, kind, owner⟩]) identity offset held ↔
      Holds strongCount entries identity offset held ∨
        identity = owner.identity ∧ (start ≤ offset ∧ offset < stop) ∧ kind = held := by
  simp only [Holds, mem_append, mem_singleton, or_and_right, exists_or,
    exists_eq_left, live, FLockEntry.Covers, true_and, eq_comm]

variable (table : LockTable strongCount entries)
include table

/-- A successful attempt sets exactly the range of its owner. -/
theorem LockTable.view_setlk (proper : Proper start stop) (live : owner.isDead strongCount = false)
    (done : (trySetlkOnce strongCount entries owner start stop wanted).1 ≠ .conflict) :
    lockView strongCount (trySetlkOnce strongCount entries owner start stop wanted).2 identity
        offset =
      if identity = owner.identity ∧ start ≤ offset ∧ offset < stop then wanted
      else lockView strongCount entries identity offset := by
  refine Option.ext fun held => ?_
  rw [(table.setlk proper).view_eq_some_iff]
  cases wanted with
  | none =>
    rw [trySetlkOnce, holds_clear, holds_retainLive]
    split_ifs with within
    · simp [within]
    · rw [table.view_eq_some_iff]
      exact and_iff_left within
  | some kind =>
    rw [trySetlkOnce_some] at done ⊢
    split_ifs at done with opposed
    · exact absurd rfl done
    rw [if_neg opposed, holds_append_new live, holds_clear, holds_retainLive]
    split_ifs with within
    · simp [within]
    · rw [table.view_eq_some_iff]
      tauto

theorem LockTable.view_conflict
    (conflict : (trySetlkOnce strongCount entries owner start stop wanted).1 = .conflict) :
    lockView strongCount (trySetlkOnce strongCount entries owner start stop wanted).2 identity
        offset =
      lockView strongCount entries identity offset := by
  cases wanted with
  | none => simp [trySetlkOnce] at conflict
  | some kind =>
    rw [trySetlkOnce_some] at conflict ⊢
    split_ifs at conflict with opposed
    · rw [if_pos opposed]
      exact table.view_retain

theorem LockTable.getlkReport_eq_none_iff (proper : Proper start stop) {observer : Nat} :
    getlkReport strongCount observer entries owner start stop kind = none ↔
      (trySetlkOnce strongCount entries owner start stop (some kind)).1 ≠ .conflict := by
  rw [Ne, table.conflict_iff proper]
  simp [getlkReport, table.opposed_iff proper]

end Views

/-! ## All tables -/

/-- The tables of all inodes and the strong references to open files. -/
structure FcntlLocks (Key : Type) where
  tables : Key → List FLockEntry
  strongCount : Nat → Nat

namespace FcntlLocks

variable {Key : Type}

def view (locks : FcntlLocks Key) (key : Key) : Nat ⊕ Nat → Int → Option LockKind :=
  lockView locks.strongCount (locks.tables key)

def releasePidLocks (locks : FcntlLocks Key) (owner : Nat) : FcntlLocks Key × (Key → Bool) :=
  ({ locks with tables := fun key => (releasePosix owner (locks.tables key)).1 },
    fun key => (releasePosix owner (locks.tables key)).2)

variable [DecidableEq Key]

def setTable (locks : FcntlLocks Key) (key : Key) (entries : List FLockEntry) : FcntlLocks Key :=
  { locks with tables := Function.update locks.tables key entries }

def trySetlkOnce (locks : FcntlLocks Key) (key : Key) (owner : FOwner)
    (start stop : Int) (kind : Option LockKind) : SetlkAttempt × FcntlLocks Key :=
  let (attempt, entries) :=
    TgosKits.trySetlkOnce locks.strongCount (locks.tables key) owner start stop kind
  (attempt, locks.setTable key entries)

def releaseInodePosixLocks (locks : FcntlLocks Key) (owner : Nat) (key : Key) :
    FcntlLocks Key × Bool :=
  let (entries, changed) := releasePosix owner (locks.tables key)
  (locks.setTable key entries, changed)

/-- What happens to the tables. Dead entries are dropped by readers and waiters too,
and open files lose references at any time. -/
inductive Step (locks : FcntlLocks Key) : FcntlLocks Key → Prop where
  | setlk {key owner lStart lLen start stop kind} (ran : flockRange lStart lLen = .ok (start, stop))
      (live : owner.isDead locks.strongCount = false) :
      Step locks (locks.trySetlkOnce key owner start stop kind).2
  | releasePid {owner} : Step locks (locks.releasePidLocks owner).1
  | releaseInode {owner key} : Step locks (locks.releaseInodePosixLocks owner key).1
  | prune {key} : Step locks (locks.setTable key (retainLive locks.strongCount (locks.tables key)))
  | files {strongCount} (dead : ∀ file, locks.strongCount file = 0 →
      strongCount file = 0) : Step locks { locks with strongCount }

inductive Reachable : FcntlLocks Key → Prop where
  | start (strongCount : Nat → Nat) : Reachable ⟨fun _ => [], strongCount⟩
  | step {locks after : FcntlLocks Key} (reached : Reachable locks)
      (step : locks.Step after) : Reachable after

variable {locks after : FcntlLocks Key}

def Sound (locks : FcntlLocks Key) : Prop := ∀ key, LockTable locks.strongCount (locks.tables key)

theorem Sound.setTable (sound : locks.Sound) {key : Key} {entries : List FLockEntry}
    (table : LockTable locks.strongCount entries) : (locks.setTable key entries).Sound := by
  intro other
  by_cases same : other = key
  · subst same
    simpa [FcntlLocks.setTable] using table
  · simpa [FcntlLocks.setTable, same] using sound other

theorem Sound.step (sound : locks.Sound) (step : locks.Step after) : after.Sound := by
  cases step with
  | setlk ran live => exact sound.setTable ((sound _).setlk (proper_of_flockRange ran))
  | releasePid => exact fun key => (sound key).filter _
  | releaseInode => exact sound.setTable ((sound _).filter _)
  | prune => exact sound.setTable (sound _).retain
  | files dead => exact fun key => (sound key).later dead

theorem Reachable.sound (reachable : locks.Reachable) : locks.Sound := by
  induction reachable with
  | start strongCount => exact fun _ => .nil
  | step _ step sound => exact sound.step step

/-- In every reachable table: entries of one owner do not overlap; an attempt fails
exactly when another live owner opposes it, and then changes nothing; a successful one
sets the range of its owner and nothing else; no two live owners hold incompatible
locks at one offset; and `F_GETLK` reports no lock exactly when the set would
succeed. -/
theorem reachable_record_locks (reachable : locks.Reachable) (key : Key) :
    ((locks.tables key).Pairwise fun first second =>
      first.owner.sameAs second.owner = true →
        ∀ offset, ¬ (first.Covers offset ∧ second.Covers offset)) ∧
    (∀ owner lStart lLen start stop kind, owner.isDead locks.strongCount = false →
      flockRange lStart lLen = .ok (start, stop) →
      let outcome := locks.trySetlkOnce key owner start stop kind
      (outcome.1 = .conflict ↔ ∃ wanted, kind = some wanted ∧
        ∃ other offset held, other ≠ owner.identity ∧ start ≤ offset ∧
          offset < stop ∧ locks.view key other offset = some held ∧
          kindsConflict held wanted = true) ∧
      (outcome.1 = .conflict → outcome.2.view = locks.view) ∧
      (outcome.1 ≠ .conflict → ∀ inode other offset, outcome.2.view inode other offset =
          if inode = key ∧ other = owner.identity ∧ start ≤ offset ∧ offset < stop then kind
          else locks.view inode other offset) ∧
      ∀ observer wanted, kind = some wanted →
        (getlkReport locks.strongCount observer (locks.tables key) owner start stop
            wanted = none ↔ outcome.1 ≠ .conflict)) ∧
    ∀ first second offset kind held, first ≠ second → locks.view key first offset = some kind →
      locks.view key second offset = some held → kindsConflict kind held = false := by
  have table := reachable.sound key
  refine ⟨?_, ?_, ?_⟩
  · refine table.peaceful.imp ?_
    rintro first second peaceful same offset ⟨inFirst, inSecond⟩
    exact (peaceful offset inFirst inSecond).1 (FOwner.sameAs_iff.mp same)
  · intro owner lStart lLen start stop kind live ran outcome
    have proper := proper_of_flockRange ran
    have elsewhere : ∀ inode, inode ≠ key → outcome.2.view inode = locks.view inode := by
      intro inode ne
      simp [outcome, view, FcntlLocks.trySetlkOnce, setTable, ne]
    have here : outcome.2.view key = lockView locks.strongCount
        (TgosKits.trySetlkOnce locks.strongCount (locks.tables key) owner start stop kind).2 := by
      simp [outcome, view, FcntlLocks.trySetlkOnce, setTable]
    refine ⟨table.conflict_iff proper, ?_, ?_, ?_⟩
    · intro conflict
      funext inode other offset
      by_cases same : inode = key
      · subst same
        rw [here]
        exact table.view_conflict conflict
      · rw [elsewhere inode same]
    · intro done inode other offset
      by_cases same : inode = key
      · subst same
        rw [here, table.view_setlk proper live done]
        simp [view]
      · rw [elsewhere inode same, if_neg (by simp [same])]
    · intro observer wanted isKind
      subst isKind
      exact table.getlkReport_eq_none_iff proper
  · intro first second offset kind held ne isFirst isSecond
    exact table.compatible ne (table.view_eq_some_iff.mp isFirst)
      (table.view_eq_some_iff.mp isSecond)

/-- One process has locked the first ten bytes of a file for writing. -/
def writerLocks : FcntlLocks Nat :=
  (FcntlLocks.trySetlkOnce ⟨fun _ => [], fun _ => 1⟩ 0 (.posix ⟨1, []⟩) 0 10 (some .write)).2

theorem writerLocks_record_locks :
    (writerLocks.trySetlkOnce 0 (.ofd 7 7) 5 15 (some .read)).1 = .conflict ∧
      (writerLocks.trySetlkOnce 0 (.ofd 7 7) 5 15 (some .read)).2.view = writerLocks.view := by
  have reached : writerLocks.Reachable := .step (.start fun _ => 1)
      (.setlk (show flockRange 0 10 = .ok (0, 10) by decide) rfl)
  have conflict : (writerLocks.trySetlkOnce 0 (.ofd 7 7) 5 15 (some .read)).1 = .conflict := by
    simp [writerLocks, FcntlLocks.trySetlkOnce, TgosKits.trySetlkOnce, setTable,
      findConflict, retainLive, clearOwnerOverlap, scan, conflicts,
      FOwner.isDead, FOwner.sameAs, rangesOverlap, kindsConflict]
  have range : flockRange 5 10 = .ok (5, 15) := by decide
  exact ⟨conflict, ((reachable_record_locks reached 0).2.1 (.ofd 7 7) 5 10 5 15
    (some .read) rfl range).2.1 conflict⟩

end FcntlLocks

end TgosKits
