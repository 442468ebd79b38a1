import TgosKits.MemoryAddr

/-!
# Mapping backends

A backend is an arbitrary value with the hooks of `MappingBackend`.  A hook that
takes `&mut self` answers together with the backend it leaves behind, also when
it refuses; a hook that takes the page table answers together with the context
and the page table it leaves behind.

`World` is what the hooks share during one operation.  It also keeps the list of
hook calls, so that *which* sub-ranges a backend was asked about is a property
of the model and not of a particular backend.
-/

namespace TgosKits

inductive MappingError where
  | invalidParam
  | alreadyExists
  | badState
  | needsRepair
  deriving DecidableEq, Repr

/-- How an operation ends: normally, with an error, or in a panic. -/
inductive Answer (α : Type) where
  | ok (value : α)
  | err (error : MappingError)
  | panicked
  deriving DecidableEq, Repr

/-- The hooks of a mapping backend.  The read-only ones have the source's
defaults. -/
class MappingBackend (B : Type) where
  Flags : Type
  MutationContext : Type
  PageTable : Type
  map : B → Nat → Nat → Flags → MutationContext → PageTable → Bool × MutationContext × PageTable
  validateMap : B → Nat → Nat → Flags → PageTable → Bool := fun _ _ _ _ _ => true
  unmap : B → Nat → Nat → MutationContext → PageTable → Bool × MutationContext × PageTable
  validateUnmap : B → Nat → Nat → PageTable → Bool := fun _ _ _ _ => true
  validateProtect : B → Nat → Nat → Flags → PageTable → Bool := fun _ _ _ _ _ => true
  protect : B → Nat → Nat → Flags → MutationContext → PageTable → Bool × MutationContext × PageTable
  split : B → Nat → Option B × B
  shrinkLeft : B → Nat → Bool × B := fun backend _ => (true, backend)
  shrinkRight : B → Nat → Bool × B := fun backend _ => (true, backend)

open MappingBackend (Flags MutationContext PageTable)

inductive HookCall (B : Type) [MappingBackend B] where
  | map (backend : B) (start size : Nat) (flags : Flags B)
  | validateMap (backend : B) (start size : Nat) (flags : Flags B)
  | unmap (backend : B) (start size : Nat)
  | validateUnmap (backend : B) (start size : Nat)
  | protect (backend : B) (start size : Nat) (flags : Flags B)
  | validateProtect (backend : B) (start size : Nat) (flags : Flags B)

/-- The mutation context, the page table, and the calls made so far. -/
structure World (B : Type) [MappingBackend B] where
  context : MutationContext B
  pageTable : PageTable B
  calls : List (HookCall B)

namespace World

variable {B : Type} [MappingBackend B]

/-- Take over what a mutating hook leaves behind and note the call. -/
def after (world : World B) (call : HookCall B)
    (outcome : Bool × MutationContext B × PageTable B) : Bool × World B :=
  (outcome.1, ⟨outcome.2.1, outcome.2.2, world.calls ++ [call]⟩)

def noted (world : World B) (call : HookCall B) : World B :=
  { world with calls := world.calls ++ [call] }

def map (world : World B) (backend : B) (start size : Nat) (flags : Flags B) : Bool × World B :=
  world.after (.map backend start size flags) <|
    MappingBackend.map backend start size flags world.context world.pageTable

def unmap (world : World B) (backend : B) (start size : Nat) : Bool × World B :=
  world.after (.unmap backend start size) <|
    MappingBackend.unmap backend start size world.context world.pageTable

def protect (world : World B) (backend : B) (start size : Nat) (flags : Flags B) : Bool × World B :=
  world.after (.protect backend start size flags) <| MappingBackend.protect backend start size flags
      world.context world.pageTable

def validateMap (world : World B) (backend : B) (start size : Nat) (flags : Flags B) :
    Bool × World B :=
  (MappingBackend.validateMap backend start size flags world.pageTable,
    world.noted (.validateMap backend start size flags))

def validateUnmap (world : World B) (backend : B) (start size : Nat) : Bool × World B :=
  (MappingBackend.validateUnmap backend start size world.pageTable,
    world.noted (.validateUnmap backend start size))

def validateProtect (world : World B) (backend : B) (start size : Nat) (flags : Flags B) :
    Bool × World B :=
  (MappingBackend.validateProtect backend start size flags world.pageTable,
    world.noted (.validateProtect backend start size flags))

end World

/-- `.then_some(()).ok_or(MappingError::BadState)`. -/
def okOrBadState {B : Type} [MappingBackend B]
    (outcome : Bool × World B) : Except MappingError Unit × World B :=
  (if outcome.1 then .ok () else .error .badState, outcome.2)

end TgosKits
