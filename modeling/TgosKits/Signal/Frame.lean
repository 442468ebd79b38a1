import TgosKits.MemoryAddr
import TgosKits.Signal.Pending

/-!
# Signal frames

A delivery saves the interrupted context in a frame, below the stack pointer or on the
alternate stack. Whether the thread runs on the alternate stack is told from a depth
that only deliveries and returns change. A handler that is left by a jump keeps the
depth, and the next frame for the alternate stack lies below a stack pointer outside it.
Sums and differences without a check of their own wrap.
-/

namespace TgosKits

open Option

structure SignalStack where
  sp : Nat
  flags : BitVec 32
  size : Nat

namespace SignalStack

def ssOnstack : BitVec 32 := 1

def ssDisable : BitVec 32 := 2

def default : SignalStack := ⟨0, ssDisable, 0⟩

variable (stack : SignalStack)

def disabled : Bool := stack.flags &&& ssDisable != 0

def withoutRuntimeFlags : SignalStack :=
  { stack with flags := stack.flags &&& ~~~ssOnstack }

def contains (addr : Nat) : Bool :=
  stack.sp ≤ addr && addr < stack.sp + stack.size

end SignalStack

/-- The registers that a machine context keeps: those that a delivery sets, and the
others. -/
structure MContext (General : Type) where
  ip : Nat
  sp : Nat
  ra : Nat
  arg0 : Nat
  arg1 : Nat
  arg2 : Nat
  general : General

structure UserContext (General Rest : Type) where
  registers : MContext General
  rest : Rest

def MContext.restore {General Rest : Type} (mcontext : MContext General)
    (uctx : UserContext General Rest) : UserContext General Rest :=
  { uctx with registers := mcontext }

structure UContext (General : Type) where
  sigmask : SignalSet
  mcontext : MContext General
  fpstate : Nat

structure SignalFrame (General Rest : Type) where
  ucontext : UContext General
  siginfo : SignalInfo
  uctx : UserContext General Rest
  usedSigaltstack : Bool

structure PreparedSignalHandler where
  signo : Signo
  siginfo : SignalInfo
  restoreBlocked : SignalSet
  handler : Nat
  restorer : Nat
  addBlocked : SignalSet
  useSigaltstack : Bool

/-- What differs between the targets: the size of a frame and of its first field, and
the floating-point state that only one of them stores above the frame. -/
structure SignalTarget where
  isX86 : Bool
  frameSize : Nat
  ucontextSize : Nat
  /-- The size of the extended state, if the processor has it. -/
  xsave : Option Nat
  /-- Everything that a delivery writes is small beside the address space. -/
  small : frameSize + xsave.getD 0 + 1024 ≤ 2 ^ 64

namespace SignalTarget

variable (target : SignalTarget)

def fpFrameSize : Nat :=
  match target.xsave with
  | none => 512
  | some size => size + 4

def checkedSub (left right : Nat) : Option Nat :=
  if right ≤ left then some (left - right) else none

/-- The address `addr & !(align - 1)` for a power of two. -/
def roundDown (addr align : Nat) : Nat := addr / align * align

def frameAddress (sp : Nat) : Option (Nat × Nat) :=
  if target.isX86 then do
    -- the red zone of the interrupted function
    let sp ← checkedSub sp 128
    let sp ← checkedSub sp target.fpFrameSize
    let fpstateAddress := roundDown sp 64
    let frameAddress ← checkedSub fpstateAddress target.frameSize
    some (roundDown frameAddress 16, fpstateAddress)
  else do
    let frameAddress ← checkedSub sp target.frameSize
    some (roundDown frameAddress 16, 0)

def wrappingSub (left right : Nat) : Nat :=
  if right ≤ left then left - right else left + 2 ^ 64 - right

/-- The stack pointer of the handler; its return address lies below the frame if the
target has no register for it. -/
def handlerSp (alignedSp : Nat) : Nat :=
  if target.isX86 then wrappingSub alignedSp 8 else alignedSp

/-- The addresses and sizes of everything that a delivery writes. -/
def writes (alignedSp fpstateAddress : Nat) : List (Nat × Nat) :=
  if target.isX86 then
    [(fpstateAddress, target.fpFrameSize), (alignedSp, target.frameSize),
      (target.handlerSp alignedSp, 8)]
  else
    [(alignedSp, target.frameSize)]

/-- A frame as high below an address as its alignment allows. -/
def RightBelow (base address fpstate : Nat) : Prop :=
  address % 16 = 0 ∧
    if target.isX86 then
      fpstate % 64 = 0 ∧ fpstate + target.fpFrameSize + 128 ≤ base ∧
        base < fpstate + target.fpFrameSize + 128 + 64 ∧
        address + target.frameSize ≤ fpstate ∧ fpstate < address + target.frameSize + 16
    else
      fpstate = 0 ∧ address + target.frameSize ≤ base ∧ base < address + target.frameSize + 16

theorem frameAddress_eq_some_iff {base address fpstate : Nat} :
    target.frameAddress base = some (address, fpstate) ↔
      target.RightBelow base address fpstate := by
  unfold frameAddress RightBelow checkedSub roundDown
  cases target.isX86 with
  | true =>
    simp only [if_true, bind_eq_bind, bind_eq_some_iff,
      ite_none_right_eq_some, some.injEq, Prod.mk.injEq]
    constructor
    · rintro ⟨_, ⟨_, rfl⟩, _, ⟨_, rfl⟩, _, ⟨_, rfl⟩, rfl, rfl⟩
      omega
    · rintro ⟨aligned, fpAligned, fpBelow, fpHigh, below, high⟩
      exact ⟨_, ⟨by omega, rfl⟩, _, ⟨by omega, rfl⟩, _, ⟨by omega, rfl⟩, by omega, by omega⟩
  | false =>
    simp only [Bool.false_eq_true, if_false, bind_eq_bind, bind_eq_some_iff,
      ite_none_right_eq_some, some.injEq, Prod.mk.injEq]
    constructor
    · rintro ⟨_, ⟨_, rfl⟩, rfl, rfl⟩
      omega
    · rintro ⟨aligned, isZero, below, high⟩
      exact ⟨_, ⟨by omega, rfl⟩, by omega, isZero.symm⟩

/-- The writes lie below the base unless the return address wraps around. -/
theorem writes_below_iff {base address fpstate : Nat}
    (placed : target.RightBelow base address fpstate) :
    (∀ write ∈ target.writes address fpstate, write.1 + write.2 ≤ base) ↔
      (target.isX86 = true → address ≠ 0) := by
  have small := target.small
  unfold RightBelow at placed
  unfold writes handlerSp wrappingSub
  cases isX86 : target.isX86 with
  | false =>
    rw [isX86] at placed
    simpa using placed.2.2.1
  | true =>
    rw [isX86] at placed
    have state : target.fpFrameSize ≤ target.xsave.getD 0 + 512 := by
      unfold fpFrameSize
      cases target.xsave <;> simp
    simp only [if_true, List.forall_mem_cons, List.not_mem_nil, false_implies, implies_true,
      and_true, forall_const] at placed ⊢
    split_ifs <;> omega

end SignalTarget

/-- The part of a thread that deliveries and returns change. -/
structure ThreadSignalManager where
  stack : SignalStack
  stackActiveDepth : Nat
  blocked : SignalSet

/-- A frame that was written, with the addresses and sizes of everything written. -/
structure SignalDelivery (General Rest : Type) where
  manager : ThreadSignalManager
  uctx : UserContext General Rest
  address : Nat
  frame : SignalFrame General Rest
  writes : List (Nat × Nat)

namespace ThreadSignalManager

variable {General Rest : Type} (target : SignalTarget) (manager : ThreadSignalManager)

def stackActive : Bool := 0 < manager.stackActiveDepth

def enterStack : ThreadSignalManager :=
  { manager with stackActiveDepth := manager.stackActiveDepth + 1 }

def leaveStack : ThreadSignalManager :=
  { manager with stackActiveDepth := manager.stackActiveDepth - 1 }

def setStack (stack : SignalStack) : ThreadSignalManager :=
  { manager with stack := stack.withoutRuntimeFlags }

variable (useSigaltstack : Bool) (sp : Nat)

/-- The address that a frame is placed under, and whether it uses the alternate stack. -/
def frameBase : Nat × Bool :=
  if useSigaltstack then
    if manager.stack.disabled then
      (sp, false)
    else if manager.stackActive then
      (sp, true)
    else
      ((manager.stack.sp + manager.stack.size) % 2 ^ 64, true)
  else
    (sp, false)

/-- The delivery to a handler; nothing is delivered if the frame does not fit or cannot
be written. -/
def installSignalHandler (writable : Nat → Nat → Bool) (uctx : UserContext General Rest)
    (prepared : PreparedSignalHandler) : Option (SignalDelivery General Rest) := do
  let (sp, usesSigaltstack) := manager.frameBase prepared.useSigaltstack uctx.registers.sp
  let (alignedSp, fpstateAddress) ← target.frameAddress sp
  let writes := target.writes alignedSp fpstateAddress
  let blocked := { manager with blocked := manager.blocked.union prepared.addBlocked }
  if writes.all fun write => writable write.1 write.2 then
    some
      { manager := if usesSigaltstack then blocked.enterStack else blocked
        uctx :=
          { uctx with
            registers :=
              { uctx.registers with
                ip := prepared.handler
                sp := target.handlerSp alignedSp
                ra := if target.isX86 then uctx.registers.ra else prepared.restorer
                arg0 := prepared.signo.number
                arg1 := alignedSp + target.ucontextSize
                arg2 := alignedSp } }
        address := alignedSp
        frame :=
          { ucontext := ⟨prepared.restoreBlocked, uctx.registers, fpstateAddress⟩
            siginfo := prepared.siginfo
            uctx := uctx
            usedSigaltstack := usesSigaltstack }
        writes := writes }
  else
    none

/-- The return from a handler, with what the memory holds and whether it decodes the
floating-point state. -/
def restore (read : Nat → Option (SignalFrame General Rest)) (decodes : Nat → Bool)
    (uctx : UserContext General Rest) :
    Option (ThreadSignalManager × UserContext General Rest) := do
  let frame ← read uctx.registers.sp
  if target.isX86 && !decodes frame.ucontext.fpstate then
    none
  else
    let manager := { manager with blocked := frame.ucontext.sigmask }
    some (if frame.usedSigaltstack then manager.leaveStack else manager,
      frame.ucontext.mcontext.restore frame.uctx)

/-! ## Nesting -/

def expectedBase : Nat :=
  if useSigaltstack && !manager.stack.disabled && !manager.stack.contains sp then
    manager.stack.sp + manager.stack.size
  else
    sp

/-- The depth tells whether the stack pointer lies on the alternate stack, whose end is an
address, or the frame is the same in either case. -/
def Tracks : Prop :=
  (useSigaltstack && !manager.stack.disabled) = true →
    manager.stackActive = manager.stack.contains sp ∧
        (manager.stackActive = true ∨ manager.stack.sp + manager.stack.size < 2 ^ 64) ∨
      target.frameAddress (manager.frameBase useSigaltstack sp).1 =
        target.frameAddress (manager.expectedBase useSigaltstack sp)

/-- The return address does not wrap around. -/
def HasRoom : Prop :=
  target.isX86 = true →
    (target.frameAddress (manager.frameBase useSigaltstack sp).1).map Prod.fst ≠ some 0

variable {target manager useSigaltstack sp} {writable : Nat → Nat → Bool}
  {uctx : UserContext General Rest} {prepared : PreparedSignalHandler}
  {delivery : SignalDelivery General Rest}

theorem installSignalHandler_ok
    (delivered : manager.installSignalHandler target writable uctx prepared = some delivery) :
    ∃ fpstate,
      target.frameAddress (manager.frameBase prepared.useSigaltstack uctx.registers.sp).1 =
        some (delivery.address, fpstate) ∧
      delivery.frame = ⟨⟨prepared.restoreBlocked, uctx.registers, fpstate⟩, prepared.siginfo,
        uctx, (manager.frameBase prepared.useSigaltstack uctx.registers.sp).2⟩ ∧
      delivery.writes = target.writes delivery.address fpstate := by
  unfold installSignalHandler at delivered
  simp only [bind_eq_bind, bind_eq_some_iff, Prod.exists] at delivered
  rcases delivered with ⟨address, fpstate, placed, delivered⟩
  split_ifs at delivered
  all_goals
    cases delivered
    exact ⟨fpstate, placed, rfl, rfl⟩

theorem frameBase_eq_expectedBase (onStack : (useSigaltstack && !manager.stack.disabled) = true →
      manager.stackActive = manager.stack.contains sp ∧
        (manager.stackActive = true ∨ manager.stack.sp + manager.stack.size < 2 ^ 64)) :
    (manager.frameBase useSigaltstack sp).1 = manager.expectedBase useSigaltstack sp := by
  unfold frameBase expectedBase
  cases asked : useSigaltstack with
  | false => rfl
  | true =>
    cases disabled : manager.stack.disabled with
    | true => rfl
    | false =>
      rcases onStack (by simp [asked, disabled]) with ⟨same, fits⟩
      rw [← same]
      cases active : manager.stackActive with
      | true => rfl
      | false =>
        rw [active] at fits
        exact Nat.mod_eq_of_lt (fits.resolve_left Bool.false_ne_true)

theorem tracks_iff : manager.Tracks target useSigaltstack sp ↔
    target.frameAddress (manager.frameBase useSigaltstack sp).1 =
      target.frameAddress (manager.expectedBase useSigaltstack sp) := by
  constructor
  · intro tracks
    by_cases asked : (useSigaltstack && !manager.stack.disabled) = true
    · rcases tracks asked with onStack | same
      · rw [frameBase_eq_expectedBase fun _ => onStack]
      · exact same
    · rw [frameBase_eq_expectedBase fun isAsked => absurd isAsked asked]
  · exact fun same _ => .inr same

end ThreadSignalManager

/-! ## Runs -/

/-- A thread between two of its events. -/
structure SignalThread (General Rest : Type) where
  manager : ThreadSignalManager
  uctx : UserContext General Rest

/-- A delivery, a return, a new alternate stack, or whatever the thread does in user mode
with its registers. What the memory answers is part of the event. -/
inductive FrameEvent (General Rest : Type) where
  | deliver (writable : Nat → Nat → Bool) (prepared : PreparedSignalHandler)
  | sigreturn (read : Nat → Option (SignalFrame General Rest)) (decodes : Nat → Bool)
  | setStack (stack : SignalStack)
  | user (uctx : UserContext General Rest)

namespace SignalThread

variable {General Rest : Type} (target : SignalTarget) (thread : SignalThread General Rest)

/-- A delivery or return that fails leaves the thread to be killed. -/
def step : FrameEvent General Rest → SignalThread General Rest
  | .deliver writable prepared =>
    match thread.manager.installSignalHandler target writable thread.uctx prepared with
    | none => thread
    | some delivery => ⟨delivery.manager, delivery.uctx⟩
  | .sigreturn read decodes =>
    match thread.manager.restore target read decodes thread.uctx with
    | none => thread
    | some (manager, uctx) => ⟨manager, uctx⟩
  | .setStack stack => { thread with manager := thread.manager.setStack stack }
  | .user uctx => { thread with uctx }

def run (events : List (FrameEvent General Rest)) : SignalThread General Rest :=
  events.foldl (step target) thread

/-- The property holds of every delivery of a run, with the thread before it and the
events after it. -/
def EachDelivery (property : SignalThread General Rest → PreparedSignalHandler →
      SignalDelivery General Rest → List (FrameEvent General Rest) → Prop) :
    SignalThread General Rest → List (FrameEvent General Rest) → Prop
  | _, [] => True
  | thread, event :: after =>
    (match event with
      | .deliver writable prepared => ∀ delivery,
        thread.manager.installSignalHandler target writable thread.uctx prepared =
          some delivery → property thread prepared delivery after
      | _ => True) ∧
      EachDelivery property (thread.step target event) after

/-- A frame that lies where it belongs, and from which every later return of the run takes
the interrupted context and mask, as long as the frame is not modified. -/
structure Nests (prepared : PreparedSignalHandler) (delivery : SignalDelivery General Rest)
    (after : List (FrameEvent General Rest)) : Prop where
  placed : target.RightBelow
    (thread.manager.expectedBase prepared.useSigaltstack thread.uctx.registers.sp)
    delivery.address delivery.frame.ucontext.fpstate
  below : ∀ write ∈ delivery.writes, write.1 + write.2 ≤
    thread.manager.expectedBase prepared.useSigaltstack thread.uctx.registers.sp
  restores : ∀ inner read decodes rest, after = inner ++ .sigreturn read decodes :: rest →
    (run target ⟨delivery.manager, delivery.uctx⟩ inner).uctx.registers.sp = delivery.address →
    read delivery.address = some delivery.frame →
    decodes delivery.frame.ucontext.fpstate = true →
    (run target ⟨delivery.manager, delivery.uctx⟩ (inner ++ [.sigreturn read decodes])).uctx =
        thread.uctx ∧
      (run target ⟨delivery.manager, delivery.uctx⟩
        (inner ++ [.sigreturn read decodes])).manager.blocked = prepared.restoreBlocked

/-- The thread can take the delivery, as far as its depth and its stacks go. -/
def Ready (prepared : PreparedSignalHandler) : Prop :=
  thread.manager.Tracks target prepared.useSigaltstack thread.uctx.registers.sp ∧
    thread.manager.HasRoom target prepared.useSigaltstack thread.uctx.registers.sp

variable {target thread} {writable : Nat → Nat → Bool} {prepared : PreparedSignalHandler}
  {delivery : SignalDelivery General Rest} {after : List (FrameEvent General Rest)}

theorem delivery_nests_iff (delivered : thread.manager.installSignalHandler target writable
      thread.uctx prepared = some delivery) :
    thread.Nests target prepared delivery after ↔ thread.Ready target prepared := by
  rcases ThreadSignalManager.installSignalHandler_ok delivered with
    ⟨fpstate, placed, frame, writes⟩
  unfold Ready ThreadSignalManager.HasRoom
  rw [ThreadSignalManager.tracks_iff, placed, eq_comm, target.frameAddress_eq_some_iff,
    map_some, ne_eq, some.injEq]
  constructor
  · intro nests
    have rightBelow := nests.placed
    have below := nests.below
    rw [frame] at rightBelow
    rw [writes] at below
    exact ⟨rightBelow, (target.writes_below_iff rightBelow).mp below⟩
  · rintro ⟨rightBelow, inside⟩
    refine ⟨by rwa [frame], ?_, ?_⟩
    · rw [writes]
      exact (target.writes_below_iff rightBelow).mpr inside
    · intro inner read decodes rest _ returns unmodified decoded
      rw [frame] at unmodified decoded
      unfold run at returns ⊢
      rw [List.foldl_append, List.foldl_cons, List.foldl_nil, step,
        ThreadSignalManager.restore, returns, unmodified, bind_eq_bind, bind_some, decoded]
      simp only [Bool.not_true, Bool.and_false, Bool.false_eq_true, if_false]
      exact ⟨rfl, by split <;> rfl⟩

end SignalThread

/-! ## A handler that is left by a jump -/

namespace ThreadSignalManager

private theorem riscvFrame_small : 1376 + (none : Option Nat).getD 0 + 1024 ≤ 2 ^ 64 := by
  decide

def riscvTarget : SignalTarget := ⟨false, 1376, 960, none, riscvFrame_small⟩

/-- A thread with an alternate stack and every signal let through. -/
def withStack : ThreadSignalManager :=
  setStack ⟨.default, 0, .empty⟩ ⟨0x10000, 0, 0x4000⟩

def runningAt (sp : Nat) : UserContext Unit Unit := ⟨⟨0, sp, 0, 0, 0, 0, ()⟩, ()⟩

def onStack : PreparedSignalHandler :=
  ⟨.sigusr1, ⟨.sigusr1, 0, 0⟩, .empty, 0x400, 0x800, .empty, true⟩

/-- A delivery to the alternate stack. -/
def deliverOnStack : FrameEvent Unit Unit := .deliver (fun _ _ => true) onStack

end ThreadSignalManager

end TgosKits
