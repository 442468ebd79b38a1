import TgosKits.FileLock.Records
import TgosKits.Library.WaitGraph

/-!
# Deadlocks of record locks

A process that waits for a record lock waits for the processes that hold conflicting
ones.
-/

namespace TgosKits

open Relation WaitGraph List FcntlLocks

variable {Key : Type}

structure WaitingLock (Key : Type) where
  key : Key
  start : Int
  stop : Int
  kind : LockKind
  deriving DecidableEq, Repr

/-- The registered requests, each with the process that waits for it. -/
abbrev PosixLockWaitTable (Key : Type) := List (Nat × WaitingLock Key)

/-- The last element of the source's vector is the head of the list. -/
def pushPosixConflictPids (entries : List FLockEntry) (requester : Nat)
    (request : WaitingLock Key) (out : List Nat) : List Nat :=
  entries.foldl (fun out entry =>
    if !rangesOverlap entry.start entry.stop request.start request.stop ||
      !kindsConflict entry.kind request.kind then out
    else
      match entry.owner with
      | .posix owner =>
        if owner.identityId ≠ requester ∧ owner.identityId ∉ out then owner.identityId :: out
        else out
      | .ofd _ _ => out) out

variable (tables : Key → List FLockEntry) (waits : PosixLockWaitTable Key)

def pushBlockers (blocker : Nat) (stack : List Nat) : List Nat :=
  (waits.filter fun wait => wait.1 == blocker).foldl
    (fun stack wait => pushPosixConflictPids (tables wait.2.key) blocker wait.2 stack) stack

/-- The waits of processes that have not been seen yet. -/
def unseen (seen : List Nat) : PosixLockWaitTable Key :=
  waits.filter fun wait => decide (wait.1 ∉ seen)

private theorem unseen_cons (blocker : Nat) (seen : List Nat) : unseen waits (blocker :: seen) =
      (unseen waits seen).filter fun wait => decide (wait.1 ≠ blocker) := by
  simp [unseen]

def blockersReach (tables : Key → List FLockEntry) (waits : PosixLockWaitTable Key)
    (requester : Nat) (stack seen : List Nat) : Bool :=
  match stack with
  | [] => false
  | blocker :: stack =>
    if blocker = requester then true
    else if blocker ∈ seen then blockersReach tables waits requester stack seen
    else blockersReach tables waits requester (pushBlockers tables waits blocker stack)
      (blocker :: seen)
termination_by ((unseen waits seen).length, stack.length)
decreasing_by
  · exact Prod.Lex.right _ (Nat.lt_succ_self _)
  · rw [unseen_cons]
    by_cases idle : waits.filter (fun wait => wait.1 == blocker) = []
    · rw [pushBlockers, idle]
      exact Prod.Lex.right' _ (length_filter_le _ _) (Nat.lt_succ_self _)
    rcases exists_mem_of_ne_nil _ idle with ⟨wait, member⟩
    rw [mem_filter, beq_iff_eq] at member
    refine Prod.Lex.left _ _ (length_filter_lt_length_iff_exists.mpr ⟨wait, ?_, ?_⟩)
    · exact mem_filter.mpr ⟨member.1, by simpa [member.2]⟩
    · simp [member.2]

def posixLockDeadlockWouldOccur (requester : Nat) (request : WaitingLock Key) : Bool :=
  blockersReach tables waits requester
    (pushPosixConflictPids (tables request.key) requester request []) []

/-! ## The graph -/

/-- A process holds a lock that conflicts with the request of another one. -/
def Blocks (entries : List FLockEntry) (requester : Nat) (request : WaitingLock Key)
    (holder : Nat) : Prop :=
  ∃ entry ∈ entries, entry.owner.identity = .inl holder ∧ holder ≠ requester ∧
    rangesOverlap entry.start entry.stop request.start request.stop = true ∧
    kindsConflict entry.kind request.kind = true

def WaitsOn (waiter holder : Nat) : Prop :=
  ∃ request, (waiter, request) ∈ waits ∧ Blocks (tables request.key) waiter request holder

variable {tables : Key → List FLockEntry} {waits : PosixLockWaitTable Key}
  {entries : List FLockEntry} {request : WaitingLock Key} {requester pid blocker : Nat}
  {stack seen out : List Nat}

theorem mem_pushPosixConflictPids : pid ∈ pushPosixConflictPids entries requester request out ↔
    pid ∈ out ∨ Blocks entries requester request pid := by
  unfold pushPosixConflictPids
  induction entries generalizing out with
  | nil => simp [Blocks]
  | cons entry rest ih =>
    rw [foldl_cons, ih]
    simp only [Blocks, exists_mem_cons_iff, ← or_assoc]
    refine or_congr_left ?_
    cases entry.owner with
    | ofd addr weak => simp [FOwner.identity]
    | posix owner =>
      simp only [FOwner.identity, Sum.inl.injEq]
      grind

theorem mem_pushBlockers : pid ∈ pushBlockers tables waits blocker stack ↔
    pid ∈ stack ∨ WaitsOn tables waits blocker pid := by
  unfold pushBlockers WaitsOn
  induction waits generalizing stack with
  | nil => simp
  | cons wait rest ih =>
    by_cases same : wait.1 = blocker
    · subst same
      rw [filter_cons_of_pos (by simp), foldl_cons, ih, mem_pushPosixConflictPids]
      grind
    · rw [filter_cons_of_neg (by simpa using same), ih]
      grind

private theorem blockersReach_iff (fresh : requester ∉ seen)
    (closed : ∀ node ∈ seen, ∀ next, WaitsOn tables waits node next → next ∈ seen ∨ next ∈ stack) :
    blockersReach tables waits requester stack seen = true ↔
      ∃ node ∈ stack, ReflTransGen (WaitsOn tables waits) node requester := by
  fun_induction blockersReach tables waits requester stack seen with
  | case1 => simp
  | case2 seen stack => exact iff_of_true rfl ⟨_, mem_cons_self, .refl⟩
  | case3 seen blocker stack differs member ih =>
    have closed' : ∀ node ∈ seen, ∀ next, WaitsOn tables waits node next →
        next ∈ seen ∨ next ∈ stack := by
      intro node isSeen next edge
      rcases closed node isSeen next edge with isSeen | isNext
      · exact .inl isSeen
      · rcases mem_cons.mp isNext with rfl | isNext
        · exact .inl member
        · exact .inr isNext
    rw [ih fresh closed', exists_mem_cons_iff]
    exact ⟨.inr, fun reach => reach.elim (exists_border closed' · member fresh) id⟩
  | case4 seen blocker stack differs notSeen ih =>
    have fresh' : requester ∉ blocker :: seen := by
      simp [fresh, Ne.symm differs]
    have closed' : ∀ node ∈ blocker :: seen, ∀ next, WaitsOn tables waits node next →
        next ∈ blocker :: seen ∨ next ∈ pushBlockers tables waits blocker stack := by
      intro node isSeen next edge
      rw [mem_pushBlockers]
      rcases mem_cons.mp isSeen with rfl | isSeen
      · exact .inr (.inr edge)
      rcases closed node isSeen next edge with isSeen | isNext
      · exact .inl (mem_cons_of_mem _ isSeen)
      · rcases mem_cons.mp isNext with rfl | isNext
        · exact .inl mem_cons_self
        · exact .inr (.inl isNext)
    rw [ih fresh' closed', exists_mem_cons_iff]
    constructor
    · rintro ⟨node, isNext, path⟩
      rcases mem_pushBlockers.mp isNext with isNext | edge
      · exact .inr ⟨node, isNext, path⟩
      · exact .inl (path.head edge)
    · rintro (path | ⟨node, isNext, path⟩)
      · exact exists_border closed' path mem_cons_self fresh'
      · exact ⟨node, mem_pushBlockers.mpr (.inl isNext), path⟩

theorem posixLockDeadlockWouldOccur_iff :
    posixLockDeadlockWouldOccur tables waits requester request = true ↔
      ∃ holder, Blocks (tables request.key) requester request holder ∧
        ReflTransGen (WaitsOn tables waits) holder requester := by
  rw [posixLockDeadlockWouldOccur, blockersReach_iff (by simp) (by simp)]
  simp [mem_pushPosixConflictPids, not_mem_nil]

/-- Edges only depend on the locks of processes. -/
theorem Blocks.mono {entries' : List FLockEntry} {holder : Nat}
    (blocks : Blocks entries requester request holder)
    (held : ∀ entry ∈ entries, entry.owner.identity = .inl holder → entry ∈ entries') :
    Blocks entries' requester request holder := by
  rcases blocks with ⟨entry, member, isHolder, blocks⟩
  exact ⟨entry, held entry member isHolder, isHolder, blocks⟩

theorem WaitsOn.mono {tables' : Key → List FLockEntry} {waits' : PosixLockWaitTable Key}
    {waiter holder : Nat} (edge : WaitsOn tables waits waiter holder)
    (kept : ∀ wait ∈ waits, wait ∈ waits')
    (held : ∀ key, ∀ entry ∈ tables key, entry.owner.identity = .inl holder → entry ∈ tables' key) :
    WaitsOn tables' waits' waiter holder := by
  rcases edge with ⟨request, registered, blocks⟩
  exact ⟨request, kept _ registered, blocks.mono (held request.key)⟩

theorem mem_prune {strongCount : Nat → Nat} {entry : FLockEntry}
    (isPosix : entry.owner.identity = .inl pid) :
    entry ∈ retainLive strongCount entries ↔ entry ∈ entries := by
  rw [mem_retainLive]
  cases isOwner : entry.owner with
  | posix owner => simp [FOwner.isDead]
  | ofd addr weak => simp [isOwner, FOwner.identity] at isPosix

/-! ## Waiting -/

inductive Errno where
  | edeadlk
  deriving DecidableEq, Repr

/-- The tables of locks and the registered waits. -/
structure LockWaits (Key : Type) where
  locks : FcntlLocks Key
  waits : PosixLockWaitTable Key

namespace LockWaits

variable [DecidableEq Key]

/-- `PosixLockWaitGuard::try_new`: the guard of a registered request, or nothing if the
request no longer conflicts. -/
def tryNew (state : LockWaits Key) (current : PidSnapshot) (request : WaitingLock Key) :
    Except Errno (Option (Nat × WaitingLock Key)) × LockWaits Key :=
  let entries := retainLive state.locks.strongCount (state.locks.tables request.key)
  let (entries, conflict) := findConflict state.locks.strongCount entries (.posix current)
    request.start request.stop request.kind
  let state := { state with locks := state.locks.setTable request.key entries }
  let waiter := current.identityId
  if conflict.isNone then (.ok none, state)
  else if posixLockDeadlockWouldOccur state.locks.tables state.waits waiter request then
    (.error .edeadlk, state)
  else (.ok (some (waiter, request)), { state with waits := state.waits ++ [(waiter, request)] })

/-- A set or unlock of a process that does not wait, or of an open file; exits and
closes; dead entries and files that go; attempts to wait and guards that are dropped. -/
inductive Step (state : LockWaits Key) : LockWaits Key → Prop where
  | setlk {key owner start stop kind}
      (idle : ∀ pid request, owner.identity = .inl pid → (pid, request) ∉ state.waits) :
      Step state ⟨(state.locks.trySetlkOnce key owner start stop kind).2, state.waits⟩
  | exit {owner} : Step state ⟨(state.locks.releasePidLocks owner).1, state.waits⟩
  | close {owner key} : Step state ⟨(state.locks.releaseInodePosixLocks owner key).1, state.waits⟩
  | prune {key} : Step state ⟨state.locks.setTable key
      (retainLive state.locks.strongCount (state.locks.tables key)), state.waits⟩
  | files {strongCount} : Step state ⟨{ state.locks with strongCount }, state.waits⟩
  | tryNew {current request} : Step state (state.tryNew current request).2
  | withdraw {guard} : Step state ⟨state.locks, state.waits.erase guard⟩

inductive Reachable : LockWaits Key → Prop where
  | start (strongCount : Nat → Nat) : Reachable ⟨⟨fun _ => [], strongCount⟩, []⟩
  | step {state after : LockWaits Key} (reached : Reachable state) (step : state.Step after) :
      Reachable after

variable {state after : LockWaits Key}

def Edge (state : LockWaits Key) : Nat → Nat → Prop := WaitsOn state.locks.tables state.waits

def pruned (state : LockWaits Key) (key : Key) : LockWaits Key :=
  ⟨state.locks.setTable key (retainLive state.locks.strongCount (state.locks.tables key)),
    state.waits⟩

theorem mem_pruned {key other : Key} {entry : FLockEntry}
    (isPosix : entry.owner.identity = .inl pid) :
    entry ∈ (state.pruned key).locks.tables other ↔ entry ∈ state.locks.tables other := by
  by_cases same : other = key
  · subst same
    simp [pruned, setTable, mem_prune isPosix]
  · simp [pruned, setTable, same]

theorem edge_pruned {key : Key} : (state.pruned key).Edge = state.Edge := by
  funext waiter holder
  refine propext ⟨fun edge => edge.mono (fun _ => id) ?_, fun edge => edge.mono (fun _ => id) ?_⟩
  · exact fun other entry member isHolder => (mem_pruned isHolder).mp member
  · exact fun other entry member isHolder => (mem_pruned isHolder).mpr member

theorem tryNew_eq {current : PidSnapshot} : state.tryNew current request =
    let pruned := state.pruned request.key
    let entries := retainLive state.locks.strongCount (state.locks.tables request.key)
    if entries.any (conflicts (.posix current) request.start request.stop request.kind) then
      if posixLockDeadlockWouldOccur pruned.locks.tables state.waits current.identityId request then
        (.error .edeadlk, pruned)
      else (.ok (some (current.identityId, request)),
        { pruned with waits := state.waits ++ [(current.identityId, request)] })
    else (.ok none, pruned) := by
  simp only [tryNew, findConflict, retainLive_retainLive]
  cases found : (retainLive state.locks.strongCount (state.locks.tables request.key)).find?
      (conflicts (.posix current) request.start request.stop request.kind) with
  | none =>
    have quiet : (retainLive state.locks.strongCount (state.locks.tables request.key)).any
        (conflicts (.posix current) request.start request.stop request.kind) = false := by
      simpa using found
    simp only [quiet]
    rfl
  | some entry =>
    simp only [any_eq_true.mpr ⟨entry, mem_of_find?_eq_some found, find?_some found⟩]
    rfl

theorem deadlock_iff {current : PidSnapshot} :
    posixLockDeadlockWouldOccur (state.pruned request.key).locks.tables state.waits
        current.identityId request = true ↔
      ∃ holder, Blocks (state.locks.tables request.key) current.identityId request holder ∧
        ReflTransGen state.Edge holder current.identityId := by
  rw [posixLockDeadlockWouldOccur_iff, ← edge_pruned]
  refine exists_congr fun holder => and_congr_left fun _ => ⟨?_, ?_⟩
  · exact fun blocks => blocks.mono fun entry member isHolder => (mem_pruned isHolder).mp member
  · exact fun blocks => blocks.mono fun entry member isHolder => (mem_pruned isHolder).mpr member

private theorem ranked_register (ranked : Ranked state.Edge) {current : PidSnapshot}
    (free : posixLockDeadlockWouldOccur (state.pruned request.key).locks.tables state.waits
      current.identityId request = false) :
    Ranked (WaitsOn (state.pruned request.key).locks.tables
      (state.waits ++ [(current.identityId, request)])) := by
  have noCycle := mt deadlock_iff.mpr (Bool.not_eq_true _ ▸ free)
  have blocks : ∀ holder, holder ∈ pushPosixConflictPids (state.locks.tables request.key)
      current.identityId request [] ↔
      Blocks (state.locks.tables request.key) current.identityId request holder := by
    simp [mem_pushPosixConflictPids]
  refine ranked.add_edges (fun holder member path =>
    noCycle ⟨holder, (blocks holder).mp member, path⟩) ?_
  intro waiter holder edge
  have edge : WaitsOn state.locks.tables (state.waits ++ [(current.identityId, request)]) waiter
      holder :=
    edge.mono (fun _ => id) fun _ _ member isHolder => (mem_pruned isHolder).mp member
  rcases edge with ⟨request', registered, blocking⟩
  rcases mem_append.mp registered with old | isNew
  · exact .inl ⟨request', old, blocking⟩
  · cases mem_singleton.mp isNew
    exact .inr ⟨rfl, (blocks holder).mpr blocking⟩

theorem Step.ranked (ranked : Ranked state.Edge) (step : state.Step after) : Ranked after.Edge := by
  have pruned : ∀ key, Ranked (state.pruned key).Edge := fun key => by rwa [edge_pruned]
  cases step with
  | @setlk key owner start stop kind idle =>
    have others : ∀ pid, owner.identity ≠ .inl pid → ∀ waiter, WaitsOn
        (state.locks.trySetlkOnce key owner start stop kind).2.tables state.waits waiter pid →
        state.Edge waiter pid := by
      intro pid ne waiter edge
      refine edge.mono (fun _ => id) fun other entry member isHolder => ?_
      by_cases same : other = key
      · subst same
        simp only [FcntlLocks.trySetlkOnce, FcntlLocks.setTable, Function.update_self] at member
        rcases mem_trySetlkOnce_cases member with own | ⟨whole, isWhole, sameOwner, own | rfl⟩
        · exact absurd (own ▸ isHolder) ne
        · exact absurd (own ▸ sameOwner ▸ isHolder) ne
        · exact isWhole
      · simpa [FcntlLocks.trySetlkOnce, FcntlLocks.setTable, same] using member
    cases isOwner : owner.identity with
    | inl pid =>
      have sink : ∀ tables holder, ¬ WaitsOn tables state.waits pid holder := by
        rintro tables holder ⟨request, registered, _⟩
        exact idle pid request isOwner registered
      refine ranked.add_sink (sink _) fun waiter holder edge => ?_
      by_cases same : holder = pid
      · exact .inr same
      · exact .inl (others holder (by simp [isOwner, Ne.symm same]) waiter edge)
    | inr addr =>
      exact ranked.mono fun waiter holder edge => others holder (by simp [isOwner]) waiter edge
  | exit =>
    exact ranked.mono fun _ _ edge =>
      edge.mono (fun _ => id) fun _ _ member _ => (mem_filter.mp member).1
  | @close owner key =>
    refine ranked.mono fun _ _ edge => edge.mono (fun _ => id) fun other entry member _ => ?_
    by_cases same : other = key
    · subst same
      simp only [releaseInodePosixLocks, setTable, Function.update_self] at member
      exact (mem_filter.mp member).1
    · simpa [releaseInodePosixLocks, setTable, same] using member
  | prune => exact pruned _
  | files => exact ranked
  | tryNew =>
    rw [tryNew_eq]
    dsimp only
    split_ifs with blocked deadlock
    · exact pruned _
    · exact ranked_register ranked (Bool.not_eq_true _ ▸ deadlock)
    · exact pruned _
  | withdraw =>
    exact ranked.mono fun _ _ edge =>
      edge.mono (fun _ => mem_of_mem_erase) fun _ _ member _ => member

theorem Reachable.ranked (reachable : Reachable state) : Ranked state.Edge := by
  induction reachable with
  | start strongCount => exact ⟨fun _ => 0, fun _ _ ⟨_, registered, _⟩ => by simp at registered⟩
  | step _ step ih => exact step.ranked ih

/-- A request is refused exactly if it still conflicts and a process that holds a
conflicting lock waits, directly or not, for the requester; and nobody ever waits for
themselves. -/
theorem deadlock_detection : (∀ (state : LockWaits Key) current request,
      (state.tryNew current request).1 = .error .edeadlk ↔
        (∃ entry ∈ state.locks.tables request.key,
          entry.owner.isDead state.locks.strongCount = false ∧ conflicts (.posix current)
            request.start request.stop request.kind entry = true) ∧
        ∃ holder, Blocks (state.locks.tables request.key) current.identityId request holder ∧
          ReflTransGen state.Edge holder current.identityId) ∧
    ∀ state : LockWaits Key, Reachable state → ∀ pid, ¬ TransGen state.Edge pid pid := by
  refine ⟨fun state current request => ?_, fun state reachable => reachable.ranked.acyclic⟩
  rw [tryNew_eq, ← deadlock_iff]
  have blocked : (retainLive state.locks.strongCount (state.locks.tables request.key)).any
      (conflicts (.posix current) request.start request.stop request.kind) = true ↔
      ∃ entry ∈ state.locks.tables request.key,
        entry.owner.isDead state.locks.strongCount = false ∧ conflicts (.posix current)
          request.start request.stop request.kind entry = true := by
    simp [any_eq_true, mem_retainLive, and_assoc]
  rw [← blocked]
  dsimp only
  split_ifs with conflict deadlock <;> simp [*]

/-- A writer holds the first ten bytes of a file, and another process, which has locked a
second file, waits for them. -/
def waitingReader : LockWaits Nat :=
  (tryNew ⟨(writerLocks.trySetlkOnce 1 (.posix ⟨2, []⟩) 0 10 (some .write)).2, []⟩ ⟨2, []⟩
    ⟨0, 5, 15, .read⟩).2

/-- The writer is refused the second file, for which it would wait in a circle. -/
theorem waitingReader_acyclic :
    (waitingReader.tryNew ⟨1, []⟩ ⟨1, 0, 10, .read⟩).1 = .error .edeadlk ∧
      waitingReader.Edge 2 1 ∧ ¬ TransGen waitingReader.Edge 2 2 := by
  have shape : waitingReader.locks.tables 0 = [⟨0, 10, .write, .posix ⟨1, []⟩⟩] ∧
      waitingReader.locks.tables 1 = [⟨0, 10, .write, .posix ⟨2, []⟩⟩] ∧
      waitingReader.waits = [(2, ⟨0, 5, 15, .read⟩)] := by
    simp [waitingReader, tryNew_eq, pruned, writerLocks, FcntlLocks.trySetlkOnce, trySetlkOnce,
      FcntlLocks.setTable, findConflict, retainLive, clearOwnerOverlap, SwapScan.scan, conflicts,
      FOwner.isDead, FOwner.sameAs, rangesOverlap, kindsConflict, posixLockDeadlockWouldOccur,
      pushPosixConflictPids, blockersReach, pushBlockers]
  obtain ⟨first, second, waits⟩ := shape
  have edge : waitingReader.Edge 2 1 := by
    simp [Edge, WaitsOn, Blocks, first, waits, FOwner.identity, rangesOverlap, kindsConflict]
  have locked : Reachable ⟨writerLocks, []⟩ := .step (.start fun _ => 1) (.setlk (by simp))
  refine ⟨(deadlock_detection.1 _ _ _).mpr ⟨?_, 2, ?_, .single edge⟩, edge,
    deadlock_detection.2 _ (.step (.step locked (.setlk (by simp))) .tryNew) 2⟩
  · simp [second, FOwner.isDead, conflicts, FOwner.sameAs, rangesOverlap, kindsConflict]
  · simp [second, Blocks, FOwner.identity, rangesOverlap, kindsConflict]

end LockWaits

end TgosKits
