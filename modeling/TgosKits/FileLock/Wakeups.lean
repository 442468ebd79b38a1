import TgosKits.FileLock.Records

/-!
# Waking those who wait for a lock

The locks of `flock(2)` beside the record locks, and the operations that wake the queues
of an inode.
-/

namespace TgosKits

open Function List

/-- A lock of `flock(2)`, held by the open file description at an address. -/
structure FlockEntry where
  addr : Nat
  weak : Nat
  kind : LockKind
  owner : Nat
  deriving DecidableEq, Repr

inductive FlockAttempt where
  | done
  | conflict
  deriving DecidableEq, Repr

/-- One attempt to install or to clear a lock, and whether the length of the table
changed; without an entry an inode has the empty table. -/
def tryFlockOnce (strongCount : Nat → Nat) (entries : List FlockEntry)
    (current addr file : Nat) (kind : Option LockKind) : (FlockAttempt × Bool) × List FlockEntry :=
  let before := entries.length
  let entries := entries.filter fun entry => strongCount entry.weak != 0
  let entries := entries.filter fun entry =>
    !(entry.owner == current && decide (strongCount entry.weak < 1))
  let (outcome, entries) : FlockAttempt × List FlockEntry :=
    match kind with
    | none => (.done, entries.filter fun entry => entry.addr != addr)
    | some want =>
      -- A conversion drops the lock it had before it looks for conflicts.
      let entries := entries.filter fun entry => entry.addr != addr
      if entries.any fun entry => kindsConflict entry.kind want then (.conflict, entries)
      else (.done, entries ++ [⟨addr, file, want, current⟩])
  ((outcome, entries.length != before), entries)

def retainFlocks (keep : FlockEntry → Bool) (entries : List FlockEntry) : List FlockEntry × Bool :=
  let kept := entries.filter keep
  (kept, kept.length != entries.length)

def releaseFlockLock (addr : Nat) : List FlockEntry → List FlockEntry × Bool :=
  retainFlocks fun entry => entry.addr != addr

def releasePidFlock (owner : Nat) : List FlockEntry → List FlockEntry × Bool :=
  retainFlocks fun entry => entry.owner != owner

/-! ## One table -/

section

variable {strongCount : Nat → Nat} {entries : List FlockEntry} {entry : FlockEntry}
  {current addr file : Nat} {wanted : Option LockKind}

def Agree (strongCount : Nat → Nat) (first second : FlockEntry) : Prop :=
  strongCount first.weak ≠ 0 → strongCount second.weak ≠ 0 →
    kindsConflict first.kind second.kind = false

instance : Std.Symm (Agree strongCount) :=
  ⟨fun _ _ agree firstLive secondLive => kindsConflict_comm _ _ ▸ agree secondLive firstLive⟩

def liveOthers (strongCount : Nat → Nat) (addr : Nat) (entries : List FlockEntry) :
    List FlockEntry :=
  entries.filter fun entry => entry.addr != addr && strongCount entry.weak != 0

theorem mem_liveOthers : entry ∈ liveOthers strongCount addr entries ↔
    entry ∈ entries ∧ entry.addr ≠ addr ∧ strongCount entry.weak ≠ 0 := by
  simp [liveOthers]

theorem tryFlockOnce_entries : (tryFlockOnce strongCount entries current addr file wanted).2 =
      match wanted with
      | none => liveOthers strongCount addr entries
      | some want =>
        if (liveOthers strongCount addr entries).any fun entry => kindsConflict entry.kind want
        then liveOthers strongCount addr entries
        else liveOthers strongCount addr entries ++ [⟨addr, file, want, current⟩] := by
  have pruned : ((entries.filter fun entry => strongCount entry.weak != 0).filter fun entry =>
      !(entry.owner == current && decide (strongCount entry.weak < 1))) =
      entries.filter fun entry => strongCount entry.weak != 0 := by
    rw [filter_eq_self]
    intro entry member
    have live : strongCount entry.weak ≠ 0 := by simpa using (mem_filter.mp member).2
    simp [live]
  unfold tryFlockOnce liveOthers
  dsimp only
  rw [pruned, filter_filter]
  cases wanted with
  | none => rfl
  | some want =>
    dsimp only
    split_ifs <;> rfl

theorem tryFlockOnce_mutated : (tryFlockOnce strongCount entries current addr file wanted).1.2 =
      ((tryFlockOnce strongCount entries current addr file wanted).2.length != entries.length) :=
  rfl

theorem weak_of_mem_tryFlockOnce
    (member : entry ∈ (tryFlockOnce strongCount entries current addr file wanted).2) :
    entry.weak = file ∨ entry ∈ entries := by
  rw [tryFlockOnce_entries] at member
  cases wanted with
  | none => exact .inr (mem_liveOthers.mp member).1
  | some want =>
    dsimp only at member
    split_ifs at member
    · exact .inr (mem_liveOthers.mp member).1
    rcases mem_append.mp member with member | isNew
    · exact .inr (mem_liveOthers.mp member).1
    · rw [mem_singleton.mp isNew]
      exact .inl rfl

section

variable (agree : entries.Pairwise (Agree strongCount))
include agree

theorem agree_tryFlockOnce :
    (tryFlockOnce strongCount entries current addr file wanted).2.Pairwise (Agree strongCount) := by
  have kept : (liveOthers strongCount addr entries).Pairwise (Agree strongCount) := agree.filter _
  rw [tryFlockOnce_entries]
  cases wanted with
  | none => exact kept
  | some want =>
    dsimp only
    split_ifs with blocked
    · exact kept
    refine pairwise_append.mpr ⟨kept, by simp, ?_⟩
    intro first member second isNew _ _
    rw [mem_singleton] at isNew
    subst isNew
    rw [Bool.not_eq_true, any_eq_false] at blocked
    simpa using blocked first member

/-- An attempt that gives up a lock without a change of the length turned the only
entry from writing to reading, if a request is free afterwards. -/
theorem sole_of_not_mutated (isOpen : strongCount file ≠ 0) (member : entry ∈ entries)
    (live : strongCount entry.weak ≠ 0) (own : entry.addr = addr) {kind : LockKind}
    (blocked : kindsConflict entry.kind kind = true)
    (freed : ∀ after ∈ (tryFlockOnce strongCount entries current addr file wanted).2,
      strongCount after.weak ≠ 0 → after.addr = addr → kindsConflict after.kind kind = false)
    (quiet : (tryFlockOnce strongCount entries current addr file wanted).1.2 = false) :
    wanted = some .read ∧ entries = [entry] ∧ entry.kind = .write := by
  have shorter : (liveOthers strongCount addr entries).length < entries.length :=
    length_filter_lt_length_iff_exists.mpr ⟨entry, member, by simp [own]⟩
  rw [tryFlockOnce_mutated, bne_eq_false_iff_eq] at quiet
  rw [tryFlockOnce_entries] at quiet freed
  cases wanted with
  | none => exact absurd quiet (Nat.ne_of_lt shorter)
  | some want =>
    dsimp only at quiet freed
    split_ifs at quiet freed
    · exact absurd quiet (Nat.ne_of_lt shorter)
    have newFree := freed _ (mem_append_right _ (mem_singleton_self _)) isOpen rfl
    have isRead : want = .read ∧ entry.kind = .write := by
      cases want <;> cases kind <;> cases heldKind : entry.kind <;> simp_all [kindsConflict]
    have alone : liveOthers strongCount addr entries = [] := by
      rw [eq_nil_iff_forall_not_mem]
      intro other isOther
      rcases mem_liveOthers.mp isOther with ⟨otherMember, ne, otherLive⟩
      have different : other ≠ entry := fun same => ne (same ▸ own)
      have compatible := agree.forall otherMember member different otherLive live
      rw [isRead.2] at compatible
      simp [kindsConflict] at compatible
    rw [alone] at quiet
    rcases length_eq_one_iff.mp quiet.symm with ⟨only, isOnly⟩
    rw [isOnly, mem_singleton] at member
    exact ⟨by rw [isRead.1], by rw [isOnly, member], isRead.2⟩

end

theorem mem_filter_of_length {α : Type} {items : List α} {item : α} {keep : α → Bool}
    (member : item ∈ items) (quiet : ((items.filter keep).length != items.length) = false) :
    item ∈ items.filter keep := by
  rwa [filter_sublist.eq_of_length (bne_eq_false_iff_eq.mp quiet)]

theorem mem_clear {entries : List FLockEntry} {entry : FLockEntry} {owner : FOwner}
    {start stop : Int} (member : entry ∈ entries)
    (quiet : (clearOwnerOverlap entries owner start stop).2 = false) :
    entry ∈ (clearOwnerOverlap entries owner start stop).1 := by
  rw [clear_changed, any_eq_false] at quiet
  have untouched : touches owner start stop entry = false := by simpa using quiet entry member
  exact clear_perm.mem_iff.mpr
    (mem_flatMap.mpr ⟨entry, member, mem_remains.mpr (.inl ⟨untouched, rfl⟩)⟩)

end

/-! ## All tables -/

structure OpenFiles (Key : Type) where
  inodeKey : Nat → Key
  ofdAddr : Nat → Nat

def OpenFiles.makeOwner {Key : Type} (files : OpenFiles Key) (current : PidSnapshot)
    (ofd : Bool) (file : Nat) : FOwner :=
  if ofd then .ofd (files.ofdAddr file) file else .posix current

inductive LockOperation where
  | setlk (current : PidSnapshot) (ofd : Bool) (file : Nat) (start stop : Int)
      (kind : Option LockKind)
  | flock (current file : Nat) (kind : Option LockKind)
  | exit (current : Nat)
  /-- Close a descriptor; `contained` tells whether a table of descriptors still has
  the file. -/
  | close (current file : Nat) (contained : Bool)

structure FileLocks (Key : Type) where
  records : FcntlLocks Key
  flocks : Key → List FlockEntry

/-- The locks behind an operation, and the queues that it wakes. -/
structure LockOutcome (Key : Type) where
  locks : FileLocks Key
  wakesLock : Key → Bool
  wakesFlock : Key → Bool

namespace FileLocks

variable {Key : Type} [DecidableEq Key]

def run (files : OpenFiles Key) (locks : FileLocks Key) : LockOperation → LockOutcome Key
  | .setlk current ofd file start stop kind =>
    let key := files.inodeKey file
    let (attempt, records) :=
      locks.records.trySetlkOnce key (files.makeOwner current ofd file) start stop kind
    ⟨{ locks with records }, fun other => other == key && attempt == .done true, fun _ => false⟩
  | .flock current file kind =>
    let key := files.inodeKey file
    let ((_, mutated), entries) := tryFlockOnce locks.records.strongCount (locks.flocks key)
      current (files.ofdAddr file) file kind
    ⟨{ locks with flocks := update locks.flocks key entries },
      fun _ => false, fun other => other == key && mutated⟩
  | .exit current =>
    let (records, affected) := locks.records.releasePidLocks current
    ⟨⟨records, fun key => (releasePidFlock current (locks.flocks key)).1⟩, affected,
      fun key => (releasePidFlock current (locks.flocks key)).2⟩
  | .close current file contained =>
    let key := files.inodeKey file
    let (records, _) := locks.records.releaseInodePosixLocks current key
    let flocks :=
      if contained then locks.flocks
      else update locks.flocks key (releaseFlockLock (files.ofdAddr file) (locks.flocks key)).1
    let strongCount := update locks.records.strongCount file (locks.records.strongCount file - 1)
    ⟨⟨{ records with strongCount }, flocks⟩, fun other => other == key, fun other => other == key⟩

def lockBlocked (locks : FileLocks Key) (key : Key) (requester : FOwner) (start stop : Int)
    (kind : LockKind) : Bool :=
  (locks.records.tables key).any fun entry =>
    !entry.owner.isDead locks.records.strongCount && conflicts requester start stop kind entry

def flockBlocked (locks : FileLocks Key) (key : Key) (addr : Nat) (kind : LockKind) : Bool :=
  (locks.flocks key).any fun entry => locks.records.strongCount entry.weak != 0 &&
    (entry.addr != addr && kindsConflict entry.kind kind)

end FileLocks

namespace LockOperation

variable {Key : Type}

def owner (files : OpenFiles Key) : LockOperation → FOwner
  | setlk current ofd file _ _ _ => files.makeOwner current ofd file
  | flock _ file _ => .ofd (files.ofdAddr file) file
  | exit current => .posix ⟨current, []⟩
  | close current _ _ => .posix ⟨current, []⟩

def Open (strongCount : Nat → Nat) : LockOperation → Prop
  | setlk _ _ file _ _ _ => strongCount file ≠ 0
  | flock _ file _ => strongCount file ≠ 0
  | exit _ => True
  | close _ file _ => strongCount file ≠ 0

end LockOperation

namespace FileLocks

variable {Key : Type} [DecidableEq Key] {files : OpenFiles Key} {locks : FileLocks Key}
  {operation : LockOperation}

/-- Tables behind operations. Waiters drop the dead entries of record locks, and open
files lose references at any time. -/
inductive Reachable (files : OpenFiles Key) : FileLocks Key → Prop where
  | start (strongCount : Nat → Nat) : Reachable files ⟨⟨fun _ => [], strongCount⟩, fun _ => []⟩
  | operation {locks : FileLocks Key} (reached : Reachable files locks) (operation : LockOperation)
      (isOpen : operation.Open locks.records.strongCount) :
      Reachable files (locks.run files operation).locks
  | prune {locks : FileLocks Key} (reached : Reachable files locks) (key : Key) :
      Reachable files ⟨locks.records.setTable key
        (retainLive locks.records.strongCount (locks.records.tables key)), locks.flocks⟩
  | files {locks : FileLocks Key} (reached : Reachable files locks) {strongCount : Nat → Nat}
      (dead : ∀ file, locks.records.strongCount file = 0 → strongCount file = 0) :
      Reachable files ⟨{ locks.records with strongCount }, locks.flocks⟩

/-- An operation that ends the conflict of another owner's request wakes the queue. -/
def WakesFreed (files : OpenFiles Key) (locks : FileLocks Key) (operation : LockOperation) : Prop :=
  ∀ key requester kind, requester.sameAs (operation.owner files) = false →
    let outcome := locks.run files operation
    (∀ start stop, locks.lockBlocked key requester start stop kind = true →
      outcome.locks.lockBlocked key requester start stop kind = false →
        outcome.wakesLock key = true) ∧
    ∀ addr weak, requester = .ofd addr weak → locks.flockBlocked key addr kind = true →
      outcome.locks.flockBlocked key addr kind = false → outcome.wakesFlock key = true

/-- A description turns its lock for writing into one for reading, and the table of
its inode has no other entry. -/
def SoleDowngrade (files : OpenFiles Key) (locks : FileLocks Key)
    (operation : LockOperation) : Prop :=
  ∃ current file entry, operation = .flock current file (some .read) ∧
    locks.flocks (files.inodeKey file) = [entry] ∧ entry.addr = files.ofdAddr file ∧
    entry.kind = .write ∧ locks.records.strongCount entry.weak ≠ 0

/-- The record locks of open files are in the tables of their inodes. -/
def RecordsPlaced (files : OpenFiles Key) (key : Key) (entries : List FLockEntry) : Prop :=
  ∀ entry ∈ entries, ∀ addr weak, entry.owner = .ofd addr weak → files.inodeKey weak = key

def FlocksPlaced (files : OpenFiles Key) (key : Key) (entries : List FlockEntry) : Prop :=
  ∀ entry ∈ entries, files.inodeKey entry.weak = key

structure Sound (files : OpenFiles Key) (locks : FileLocks Key) : Prop where
  record : ∀ key, RecordsPlaced files key (locks.records.tables key)
  flock : ∀ key, FlocksPlaced files key (locks.flocks key)
  agree : ∀ key, (locks.flocks key).Pairwise (Agree locks.records.strongCount)

theorem agree_later {strongCount laterCount : Nat → Nat} {entries : List FlockEntry}
    (dead : ∀ file, strongCount file = 0 → laterCount file = 0)
    (agree : entries.Pairwise (Agree strongCount)) : entries.Pairwise (Agree laterCount) :=
  agree.imp fun compatible firstLive secondLive =>
    compatible (mt (dead _) firstLive) (mt (dead _) secondLive)

theorem Sound.run (sound : Sound files locks) : Sound files (locks.run files operation).locks := by
  cases operation with
  | setlk current ofd file start stop kind =>
    refine ⟨(forall_update_iff _ (RecordsPlaced files)).mpr ⟨?_, fun key _ => sound.record key⟩,
      sound.flock, sound.agree⟩
    intro entry member addr weak isOwner
    rcases mem_trySetlkOnce_cases member with own | ⟨held, heldMember, heldOwner, _⟩
    · rw [isOwner, OpenFiles.makeOwner] at own
      split_ifs at own
      rw [(FOwner.ofd.inj own).2]
    · exact sound.record _ held heldMember addr weak (heldOwner.symm.trans isOwner)
  | flock current file kind =>
    refine ⟨sound.record,
      (forall_update_iff _ (FlocksPlaced files)).mpr ⟨?_, fun key _ => sound.flock key⟩,
      (forall_update_iff _ fun _ => List.Pairwise (Agree _)).mpr
        ⟨agree_tryFlockOnce (sound.agree _), fun key _ => sound.agree key⟩⟩
    intro entry member
    rcases weak_of_mem_tryFlockOnce member with own | held
    · rw [own]
    · exact sound.flock _ entry held
  | exit current =>
    exact ⟨fun key entry member => sound.record key entry (mem_filter.mp member).1,
      fun key entry member => sound.flock key entry (mem_filter.mp member).1,
      fun key => (sound.agree key).filter _⟩
  | close current file contained =>
    have dead : ∀ other, locks.records.strongCount other = 0 → update
        locks.records.strongCount file (locks.records.strongCount file - 1) other = 0 := by
      intro other isDead
      by_cases same : other = file
      · subst same
        simp [isDead]
      · simpa [same] using isDead
    have flocks : ∀ key, ((locks.run files (.close current file contained)).locks.flocks
        key).Sublist (locks.flocks key) := by
      intro key
      cases contained with
      | true => exact .refl _
      | false =>
        exact (forall_update_iff _ fun key entries =>
          List.Sublist entries (locks.flocks key)).mpr ⟨filter_sublist, fun _ _ => .refl _⟩ key
    refine ⟨(forall_update_iff _ (RecordsPlaced files)).mpr ⟨fun entry member =>
        sound.record _ entry (mem_filter.mp member).1, fun key _ => sound.record key⟩,
      fun key entry member => sound.flock key entry ((flocks key).subset member), fun key =>
        ((agree_later dead (sound.agree key)).sublist (flocks key))⟩

theorem Reachable.sound (reachable : Reachable files locks) : Sound files locks := by
  induction reachable with
  | start strongCount => exact ⟨by simp [RecordsPlaced], by simp [FlocksPlaced], by simp⟩
  | operation _ operation _ sound => exact sound.run
  | prune _ key sound =>
    exact ⟨(forall_update_iff _ (RecordsPlaced files)).mpr ⟨fun entry member =>
      sound.record _ entry (mem_retainLive.mp member).1, fun key _ => sound.record key⟩,
      sound.flock, sound.agree⟩
  | files _ dead sound =>
    exact ⟨sound.record, sound.flock, fun key => agree_later dead (sound.agree key)⟩

/-- Without a wake-up, every record lock of a live owner stays. -/
private theorem record_stays (sound : Sound files locks) {key : Key} {entry : FLockEntry}
    (member : entry ∈ locks.records.tables key)
    (live : entry.owner.isDead locks.records.strongCount = false)
    (quiet : (locks.run files operation).wakesLock key = false) :
    entry ∈ (locks.run files operation).locks.records.tables key ∧
      entry.owner.isDead (locks.run files operation).locks.records.strongCount = false := by
  cases operation with
  | setlk current ofd file start stop kind =>
    refine ⟨?_, live⟩
    by_cases same : key = files.inodeKey file
    · subst same
      simp only [run, FcntlLocks.trySetlkOnce, FcntlLocks.setTable, update_self,
        beq_self_eq_true, Bool.true_and, beq_eq_false_iff_ne] at quiet ⊢
      have kept := mem_retainLive.mpr ⟨member, live⟩
      cases kind with
      | none => exact mem_clear kept (by simpa [trySetlkOnce] using quiet)
      | some kind =>
        rw [trySetlkOnce_some] at quiet ⊢
        split_ifs at quiet ⊢
        · exact kept
        · exact mem_append_left _ (mem_clear kept (by simpa using quiet))
    · simpa [run, FcntlLocks.trySetlkOnce, FcntlLocks.setTable, same] using member
  | flock current file kind => exact ⟨member, live⟩
  | exit current => exact ⟨mem_filter_of_length member quiet, live⟩
  | close current file contained =>
    have ne : key ≠ files.inodeKey file := by simpa [run] using quiet
    refine ⟨by simpa [run, FcntlLocks.releaseInodePosixLocks, FcntlLocks.setTable, ne] using member,
      ?_⟩
    cases isOwner : entry.owner with
    | posix owner => rfl
    | ofd addr weak =>
      have other : weak ≠ file := by
        intro same
        exact ne (same ▸ sound.record key entry member addr weak isOwner).symm
      simpa [run, FOwner.isDead, isOwner, other] using live

private theorem flock_stays (sound : Sound files locks) {key : Key} {entry : FlockEntry}
    (member : entry ∈ locks.flocks key) (live : locks.records.strongCount entry.weak ≠ 0)
    (quiet : (locks.run files operation).wakesFlock key = false)
    (other : ∀ current file kind, operation = .flock current file kind →
      key = files.inodeKey file → entry.addr ≠ files.ofdAddr file) :
    entry ∈ (locks.run files operation).locks.flocks key ∧
      (locks.run files operation).locks.records.strongCount entry.weak ≠ 0 := by
  cases operation with
  | setlk current ofd file start stop kind => exact ⟨member, live⟩
  | flock current file kind =>
    refine ⟨?_, live⟩
    by_cases same : key = files.inodeKey file
    · have stays : entry ∈ (tryFlockOnce locks.records.strongCount (locks.flocks key) current
          (files.ofdAddr file) file kind).2 := by
        have kept := mem_liveOthers.mpr ⟨member, other current file kind rfl same, live⟩
        rw [tryFlockOnce_entries]
        cases kind with
        | none => exact kept
        | some want =>
          dsimp only
          split_ifs
          · exact kept
          · exact mem_append_left _ kept
      subst same
      simpa [run] using stays
    · simpa [run, same] using member
  | exit current => exact ⟨mem_filter_of_length member quiet, live⟩
  | close current file contained =>
    have ne : key ≠ files.inodeKey file := by simpa [run] using quiet
    have different : entry.weak ≠ file := by
      intro same
      exact ne (same ▸ sound.flock key entry member).symm
    constructor
    · cases contained <;> simpa [run, ne] using member
    · simpa [run, different] using live

/-- An operation on reachable tables wakes the queue whenever it ends the conflict of
another owner's request, except for one: the conversion of an inode's only lock from
writing to reading keeps the number of entries. -/
theorem wakesFreed_iff (reachable : Reachable files locks)
    (isOpen : operation.Open locks.records.strongCount) :
    WakesFreed files locks operation ↔ ¬ SoleDowngrade files locks operation := by
  have sound := reachable.sound
  constructor
  · rintro wakes ⟨current, file, entry, rfl, isSole, own, isWrite, live⟩
    have woken := (wakes (files.inodeKey file) (.ofd (files.ofdAddr file + 1) 0) .read
      (by simp [LockOperation.owner, FOwner.sameAs])).2 _ _ rfl
    have alone : (tryFlockOnce locks.records.strongCount [entry] current (files.ofdAddr file) file
        (some .read)).2 = [⟨files.ofdAddr file, file, .read, current⟩] := by
      simp [tryFlockOnce_entries, liveOthers, own]
    simp [flockBlocked, run, tryFlockOnce_mutated, isSole, alone, isWrite, live, own,
      kindsConflict] at woken
  · intro notSole key requester kind other
    constructor
    · intro start stop blocked freed
      by_contra quiet
      rcases any_eq_true.mp blocked with ⟨entry, member, waits⟩
      rw [Bool.and_eq_true, Bool.not_eq_true'] at waits
      have stays := record_stays sound member waits.1 (Bool.not_eq_true _ ▸ quiet)
      rw [lockBlocked, any_eq_false] at freed
      exact freed entry stays.1 (by rw [stays.2, waits.2]; rfl)
    · intro addr weak isRequester blocked freed
      subst isRequester
      by_contra quiet
      rw [Bool.not_eq_true] at quiet
      rcases any_eq_true.mp blocked with ⟨entry, member, waits⟩
      simp only [Bool.and_eq_true, bne_iff_ne] at waits
      have free : ∀ after ∈ (locks.run files operation).locks.flocks key,
          (locks.run files operation).locks.records.strongCount after.weak ≠ 0 →
          after.addr ≠ addr → kindsConflict after.kind kind = false := by
        simpa [flockBlocked] using freed
      by_cases apart : ∀ current file kind, operation = .flock current file kind →
          key = files.inodeKey file → entry.addr ≠ files.ofdAddr file
      · have stays := flock_stays sound member waits.1 quiet apart
        have compatible := free entry stays.1 stays.2 waits.2.1
        rw [waits.2.2] at compatible
        cases compatible
      push Not at apart
      rcases apart with ⟨current, file, wanted, rfl, rfl, own⟩
      have differ : addr ≠ files.ofdAddr file := not_eq_of_beq_eq_false other
      simp only [run, update_self, beq_self_eq_true, Bool.true_and] at quiet free
      have sole := sole_of_not_mutated (sound.agree _) isOpen member waits.1 own waits.2.2
        (fun after isAfter afterLive afterOwn => free after isAfter afterLive
          (afterOwn ▸ differ.symm)) quiet
      exact notSole ⟨current, file, entry, by rw [sole.1], sole.2.1, own, sole.2.2, waits.1⟩

/-- Every file is on the same inode, at its own address. -/
def oneInode : OpenFiles Nat := ⟨fun _ => 0, id⟩

/-- A description has locked the inode for writing. -/
def exclusiveLocks : FileLocks Nat :=
  (run oneInode ⟨⟨fun _ => [], fun _ => 1⟩, fun _ => []⟩ (.flock 1 7 (some .write))).locks

theorem exclusiveLocks_reachable : Reachable oneInode exclusiveLocks :=
  .operation (.start fun _ => 1) (.flock 1 7 (some .write)) Nat.one_ne_zero

/-- Another description may read after the conversion, and is not woken. -/
theorem downgrade_not_wakesFreed : Reachable oneInode exclusiveLocks ∧
      ¬ WakesFreed oneInode exclusiveLocks (.flock 1 7 (some .read)) := by
  refine ⟨exclusiveLocks_reachable, fun wakes => ?_⟩
  have woken := (wakes 0 (.ofd 8 8) .read (by decide)).2 8 8 rfl (by decide) (by decide)
  revert woken
  decide

theorem unlock_wakesFreed : WakesFreed oneInode exclusiveLocks (.flock 1 7 none) := by
  have isOpen : LockOperation.Open exclusiveLocks.records.strongCount (.flock 1 7 none) :=
    Nat.one_ne_zero
  refine (wakesFreed_iff exclusiveLocks_reachable isOpen).mpr ?_
  rintro ⟨current, file, entry, isRead, _⟩
  cases isRead

end FileLocks

end TgosKits
