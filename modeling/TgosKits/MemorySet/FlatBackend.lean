import TgosKits.MemorySet.Area

/-! # A backend over a flat page table -/

namespace TgosKits

/-- Every hook succeeds, except `shrink_right` of a stubborn one. -/
structure FlatBackend (stubborn : Bool) where
  attempts : Nat
  deriving DecidableEq, Repr

namespace FlatBackend

/-- The table with one entry in a whole range. -/
def overwrite (table : Nat → Option Nat) (start size : Nat) (entry : Option Nat) :
    Nat → Option Nat :=
  fun addr => if start ≤ addr ∧ addr < start + size then entry else table addr

instance (stubborn : Bool) : MappingBackend (FlatBackend stubborn) where
  Flags := Nat
  MutationContext := Unit
  PageTable := Nat → Option Nat
  map _ start size flags _ table := (true, (), overwrite table start size (some flags))
  unmap _ start size _ table := (true, (), overwrite table start size none)
  protect _ start size flags _ table := (true, (), overwrite table start size (some flags))
  split backend _ := (some backend, backend)
  shrinkRight backend _ := (!stubborn, ⟨backend.attempts + 1⟩)

def idleWorld (stubborn : Bool) : World (FlatBackend stubborn) := ⟨(), fun _ => none, []⟩

def areaAt (stubborn : Bool) (start size flags : Nat) (fits : start + size ≤ usizeMax) :
    MemoryArea (FlatBackend stubborn) :=
  ⟨⟨start, start + size⟩, flags, flags, flags, ⟨0⟩, Nat.le_add_right start size, fits⟩

def fourPagesAt (stubborn : Bool) : MemoryArea (FlatBackend stubborn) :=
  areaAt stubborn 0x1000 0x4000 7 (by decide)

end FlatBackend

end TgosKits
