import TgosKits.Slab.Lists

/-!
# The slab allocator of one CPU, step by step (`slab/cache.rs`, `slab/mod.rs`)

The owner CPU allocates and frees under its lock, so that one of its operations
runs at a time.  Any number of other CPUs free objects of its slabs without the
lock.  An atomic step is one access to what they share (the stack of a slab, or
the hint of classes with remote frees) or one step of the owner on its own
data: a list move, a round of the drain loop, a change of the bitmap.

Objects are named by their slab and slot.  What is live, and which pages the
cache has been given, is noted beside the machine's memory; the code does not
keep it.
-/

namespace TgosKits

/-! ## The hint (`RemoteFreeHint`) -/

namespace RemoteFreeHint

variable (hint : BitVec 16) (sizeClass : SizeClass)

def mark : BitVec 16 :=
  hint ||| BitVec.twoPow 16 sizeClass.index

def isMarked : Bool := hint.getLsbD sizeClass.index

/-- What `take` leaves behind; it reports `isMarked` of the old value. -/
def cleared : BitVec 16 :=
  hint &&& ~~~ BitVec.twoPow 16 sizeClass.index

theorem isMarked_mark (sizeClass other : SizeClass) :
    isMarked (mark hint sizeClass) other = (isMarked hint other || decide (other = sizeClass)) := by
  have small := sizeClass.index_lt
  have iff : sizeClass.index = other.index ↔ other = sizeClass := by
    rw [SizeClass.index_injective.eq_iff, eq_comm]
  simp [isMarked, mark, small, iff]

theorem isMarked_cleared (sizeClass other : SizeClass) : isMarked (cleared hint sizeClass) other =
      (isMarked hint other && decide (other ≠ sizeClass)) := by
  have small := other.index_lt
  simp [isMarked, cleared, small, SizeClass.index_injective.eq_iff]

end RemoteFreeHint

/-! ## The owner -/

/-- The calls of `try_alloc_from_partial` in `alloc_object_hinted`. -/
inductive AllocCall where
  | first
  | reclaimed
  | recycled
  deriving DecidableEq, Repr

/-- What a slab is drained for. -/
inductive DrainFor where
  | alloc (call : AllocCall)
  | walk (next : Nat)
  | dealloc
  deriving DecidableEq, Repr

/-- Why a slab changes lists. -/
inductive Move where
  | allocated (slot : Nat)
  | walk (next : Nat)
  | recycle
  | dealloc
  | keepEmpty
  | addSlab
  deriving DecidableEq, Repr

namespace Move

def source : Move → SlabListState
  | allocated _ => .partialList
  | walk _ => .fullList
  | recycle => .emptyList
  | dealloc => .fullList
  | keepEmpty => .partialList
  | addSlab => .notListed

def target : Move → SlabListState
  | allocated _ => .fullList
  | walk _ => .partialList
  | recycle => .partialList
  | dealloc => .partialList
  | keepEmpty => .emptyList
  | addSlab => .partialList

end Move

inductive SlabOutcome where
  | allocated (base slot : Nat)
  | needsSlab
  | done
  | freeSlab (base : Nat)
  deriving DecidableEq, Repr

/-- Where the owner is in its operation. -/
inductive Owner where
  | idle (outcome : SlabOutcome)
  | tryPartial (sizeClass : SizeClass) (call : AllocCall)
  | drain (sizeClass : SizeClass) (base : Nat) (why : DrainFor)
  | resetCount (sizeClass : SizeClass) (base ptr : Nat) (why : DrainFor)
  | draining (sizeClass : SizeClass) (base ptr : Nat) (why : DrainFor)
  | localAlloc (sizeClass : SizeClass) (base : Nat) (call : AllocCall)
  | checkFull (sizeClass : SizeClass) (base slot : Nat)
  /-- Before the removal from a list that a move starts with. -/
  | unlink (sizeClass : SizeClass) (base : Nat) (move : Move)
  | link (sizeClass : SizeClass) (base : Nat) (move : Move)
  | takeHint (sizeClass : SizeClass)
  | walk (sizeClass : SizeClass) (base : Nat) (reclaimed : Bool)
  | recycle (sizeClass : SizeClass)
  | checkRemote (sizeClass : SizeClass) (base : Nat)
  | checkEmpty (sizeClass : SizeClass) (base : Nat)
  /-- Before the last removal of a slab that is given back. -/
  | detach (sizeClass : SizeClass) (base : Nat)
  | release (sizeClass : SizeClass) (base : Nat)
  /-- The assertion of `prepare_for_buddy_free` has failed. -/
  | panicked
  deriving DecidableEq, Repr

namespace Owner

/-- The slab whose list and contents may disagree for the moment: the owner has
changed it, and has not finished moving it. -/
def held : Owner → Option Nat
  | resetCount _ base _ _ => some base
  | draining _ base _ _ => some base
  | checkFull _ base _ => some base
  | unlink _ base _ => some base
  | link _ base _ => some base
  | detach _ base => some base
  | release _ base => some base
  | _ => none

/-- The top of the stack that is being drained into the slab at `base`. -/
def drainHead (base : Nat) : Owner → Nat
  | resetCount _ held ptr _ => if held = base then ptr else 0
  | draining _ held ptr _ => if held = base then ptr else 0
  | _ => 0

/-- Whether the owner is between `hint.take` and the end of its walk. -/
def walking : Owner → Bool
  | drain _ _ (.walk _) => true
  | resetCount _ _ _ (.walk _) => true
  | draining _ _ _ (.walk _) => true
  | unlink _ _ (.walk _) => true
  | link _ _ (.walk _) => true
  | walk _ _ _ => true
  | _ => false

variable (sizeClass : SizeClass)

def noPartial : AllocCall → Owner
  | .first => takeHint sizeClass
  | _ => idle .needsSlab

def afterDrain (base : Nat) : DrainFor → Owner
  | .alloc call => localAlloc sizeClass base call
  | .walk next => unlink sizeClass base (.walk next)
  | .dealloc => checkEmpty sizeClass base

def afterMove (base : Nat) : Move → Owner
  | .allocated slot => idle (.allocated base slot)
  | .walk next => walk sizeClass next true
  | .recycle => tryPartial sizeClass .recycled
  | .dealloc => checkRemote sizeClass base
  | .keepEmpty => idle .done
  | .addSlab => idle .done

end Owner

/-! ## The remote CPUs -/

/-- Where a remote CPU stands in `dealloc_remote`. -/
inductive Remote where
  | idle
  | freeing (base slot : Nat)
  /-- The top is loaded and written into the object; before the exchange. -/
  | loaded (base slot oldHead : Nat)
  /-- The object is pushed; before `remote_free_count` is raised. -/
  | queued (base : Nat)
  | counted (base : Nat)
  | marking (sizeClass : SizeClass)
  deriving DecidableEq, Repr

namespace Remote

/-- The object that is being freed and is not yet pushed. -/
def object : Remote → Option (Nat × Nat)
  | freeing base slot => some (base, slot)
  | loaded base slot _ => some (base, slot)
  | _ => none

/-- Whether the CPU is between its push and its mark. -/
def unannounced : Remote → Bool
  | queued _ => true
  | counted _ => true
  | marking _ => true
  | _ => false

end Remote

/-! ## The machine -/

/-- One cache, its owner and the CPUs that free remotely. -/
structure SlabMachine (Cpu : Type) where
  store : SlabStore
  hint : BitVec 16
  owner : Owner
  remotes : Cpu → Remote
  owned : Finset Nat
  live : Finset (Nat × Nat)

inductive SlabAction (Cpu : Type) where
  | alloc (sizeClass : SizeClass)
  | dealloc (base slot : Nat)
  | addSlab (sizeClass : SizeClass) (base bytes : Nat)
  | advance
  | deallocRemote (cpu : Cpu) (base slot : Nat)
  /-- A remote CPU takes its next step; an exchange may fail spuriously. -/
  | remote (cpu : Cpu) (spurious : Bool)
  | write (base slot value : Nat)
  | reuse (base : Nat) (page : SlabPage)

namespace SlabMachine

variable {Cpu : Type} [DecidableEq Cpu]

def start (pages : Nat → SlabPage) : SlabMachine Cpu where
  store := ⟨pages, fun _ => ⟨fun _ => 0, 0⟩⟩
  hint := 0
  owner := .idle .done
  remotes := fun _ => .idle
  owned := ∅
  live := ∅

variable (machine : SlabMachine Cpu)

def page (base : Nat) : SlabPage := machine.store.pages base

def goto (owner : Owner) : SlabMachine Cpu :=
  { machine with owner := owner }

def modify (machine : SlabMachine Cpu) (base : Nat) (change : SlabPage → SlabPage) :
    SlabMachine Cpu :=
  { machine with store := machine.store.modify base change }

def setRemote (cpu : Cpu) (remote : Remote) : SlabMachine Cpu :=
  { machine with remotes := Function.update machine.remotes cpu remote }

def unlinkFor (store : SlabStore) (sizeClass : SizeClass) (base : Nat) (move : Move) : SlabStore :=
  let removed := store.remove sizeClass move.source base
  if move.source = .emptyList then removed.dropEmpty sizeClass else removed

def linkFor (store : SlabStore) (sizeClass : SizeClass) (base : Nat) (move : Move) : SlabStore :=
  let pushed := store.pushFront sizeClass move.target base
  if move.target = .emptyList then pushed.keepEmpty sizeClass else pushed

/-- One atomic step of the owner. -/
def ownerStep : SlabMachine Cpu :=
  match machine.owner with
  | .idle _ => machine
  | .tryPartial sizeClass call =>
    let base := (machine.store.caches sizeClass).first .partialList
    if base = 0 then machine.goto (.noPartial sizeClass call)
    else if (machine.page base).hasRemoteFrees then
      machine.goto (.drain sizeClass base (.alloc call))
    else machine.goto (.localAlloc sizeClass base call)
  | .drain sizeClass base why =>
    let head := (machine.page base).remoteFreeHead
    let swapped := machine.modify base (fun page => page.setHead 0)
    if head = 0 then swapped.goto (.afterDrain sizeClass base why)
    else swapped.goto (.resetCount sizeClass base head why)
  | .resetCount sizeClass base ptr why =>
    (machine.modify base (fun page => { page with remoteFreeCount := 0 })).goto
      (.draining sizeClass base ptr why)
  | .draining sizeClass base ptr why =>
    if ptr = 0 then machine.goto (.afterDrain sizeClass base why)
    else
      let next := (machine.page base).firstWord ptr
      (machine.modify base (fun page => page.localFree (page.objectIndex base ptr))).goto
        (.draining sizeClass base next why)
  | .localAlloc sizeClass base call =>
    match (machine.page base).localAlloc with
    | some (slot, page) =>
      { machine.modify base (fun _ => page) with
        owner := .checkFull sizeClass base slot
        live := insert (base, slot) machine.live }
    | none => machine.goto (.noPartial sizeClass call)
  | .checkFull sizeClass base slot =>
    let page := machine.page base
    if page.isLocalFull && !page.hasRemoteFrees then
      machine.goto (.unlink sizeClass base (.allocated slot))
    else machine.goto (.idle (.allocated base slot))
  | .unlink sizeClass base move =>
    { machine with
      store := unlinkFor machine.store sizeClass base move
      owner := .link sizeClass base move }
  | .link sizeClass base move =>
    { machine with
      store := linkFor machine.store sizeClass base move
      owner := .afterMove sizeClass base move }
  | .takeHint sizeClass =>
    let taken :=
      { machine with hint := RemoteFreeHint.cleared machine.hint sizeClass }
    if RemoteFreeHint.isMarked machine.hint sizeClass then
      taken.goto (.walk sizeClass ((machine.store.caches sizeClass).first .fullList) false)
    else taken.goto (.recycle sizeClass)
  | .walk sizeClass base reclaimed =>
    if base = 0 then
      if reclaimed then machine.goto (.tryPartial sizeClass .reclaimed)
      else machine.goto (.recycle sizeClass)
    else
      let next := (machine.page base).listNext
      if (machine.page base).hasRemoteFrees then
        machine.goto (.drain sizeClass base (.walk next))
      else machine.goto (.walk sizeClass next reclaimed)
  | .recycle sizeClass =>
    let base := (machine.store.caches sizeClass).first .emptyList
    if base = 0 then machine.goto (.idle .needsSlab)
    else machine.goto (.unlink sizeClass base .recycle)
  | .checkRemote sizeClass base =>
    if (machine.page base).hasRemoteFrees then
      machine.goto (.drain sizeClass base .dealloc)
    else machine.goto (.checkEmpty sizeClass base)
  | .checkEmpty sizeClass base =>
    if (machine.page base).isAllFree then
      if (machine.store.caches sizeClass).emptyCount = 0 then
        machine.goto (.unlink sizeClass base .keepEmpty)
      else machine.goto (.detach sizeClass base)
    else machine.goto (.idle .done)
  | .detach sizeClass base =>
    { machine with
      store := machine.store.remove sizeClass .partialList base
      owner := .release sizeClass base }
  | .release _ base =>
    if (machine.page base).remoteFreeHead ≠ 0 then machine.goto .panicked
    else
      { machine.modify base SlabPage.prepareForBuddyFree with
        owner := .idle (.freeSlab base)
        owned := machine.owned.erase base }
  | .panicked => machine

/-- One atomic step of `remote_free`; a weak exchange may fail. -/
def remoteStep (cpu : Cpu) (spurious : Bool) : SlabMachine Cpu :=
  match machine.remotes cpu with
  | .idle => machine
  | .freeing base slot =>
    let head := (machine.page base).remoteFreeHead
    (machine.modify base (fun page =>
      page.store (page.objectAddr base slot) head)).setRemote cpu
      (.loaded base slot head)
  | .loaded base slot oldHead =>
    if (machine.page base).remoteFreeHead = oldHead ∧ spurious = false then
      { (machine.modify base (fun page =>
          page.setHead (page.objectAddr base slot))).setRemote cpu
          (.queued base) with
        live := machine.live.erase (base, slot) }
    else machine.setRemote cpu (.freeing base slot)
  | .queued base =>
    (machine.modify base (fun page => { page with
      remoteFreeCount := (page.remoteFreeCount + 1) % 0x100000000 })).setRemote
      cpu (.counted base)
  | .counted base =>
    machine.setRemote cpu (.marking (machine.page base).sizeClass)
  | .marking sizeClass =>
    { machine.setRemote cpu .idle with
      hint := RemoteFreeHint.mark machine.hint sizeClass }

def perform : SlabAction Cpu → SlabMachine Cpu
  | .alloc sizeClass => machine.goto (.tryPartial sizeClass .first)
  | .dealloc base slot =>
    let sizeClass := (machine.page base).sizeClass
    let freed :=
      { machine.modify base (fun page => page.localFree slot) with
        live := machine.live.erase (base, slot) }
    if (machine.page base).listState = .fullList then
      freed.goto (.unlink sizeClass base .dealloc)
    else freed.goto (.checkRemote sizeClass base)
  | .addSlab sizeClass base bytes =>
    { machine.modify base (fun page => page.init sizeClass bytes) with
      owner := .link sizeClass base .addSlab
      owned := insert base machine.owned }
  | .advance => machine.ownerStep
  | .deallocRemote cpu base slot =>
    machine.setRemote cpu (.freeing base slot)
  | .remote cpu spurious => machine.remoteStep cpu spurious
  | .write base slot value =>
    machine.modify base (fun page => page.store (page.objectAddr base slot) value)
  | .reuse base page => machine.modify base (fun _ => page)

/-- Live, and no CPU is freeing it. -/
def InUse (base slot : Nat) : Prop := (base, slot) ∈ machine.live ∧
    ∀ cpu, (machine.remotes cpu).object ≠ some (base, slot)

def OwnerIdle : Prop := ∃ outcome, machine.owner = .idle outcome

/-- What callers promise: the owner runs one operation at a time, objects are
freed once and not used afterwards, and an added slab is new memory with room
for an object. -/
def Permitted : SlabAction Cpu → Prop
  | .alloc _ => machine.OwnerIdle
  | .dealloc base slot => machine.OwnerIdle ∧ machine.InUse base slot
  | .addSlab sizeClass base bytes =>
    machine.OwnerIdle ∧ base ≠ 0 ∧ base ∉ machine.owned ∧ 0 < SlabPage.capacity sizeClass bytes
  | .advance => True
  | .deallocRemote cpu base slot =>
    machine.remotes cpu = .idle ∧ machine.InUse base slot
  | .remote _ _ => True
  | .write base slot _ => machine.InUse base slot
  | .reuse base _ => base ∉ machine.owned

def Step (machine after : SlabMachine Cpu) : Prop :=
  ∃ action, machine.Permitted action ∧ after = machine.perform action

def Reachable : Prop :=
  ∃ pages, Relation.ReflTransGen Step (start pages) machine

end SlabMachine

end TgosKits
