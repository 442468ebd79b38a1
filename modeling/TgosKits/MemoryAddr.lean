import TgosKits.Library.BitMask

/-!
# Machine addresses (`memory_addr`)

Addresses are natural numbers below `2 ^ 64`; an operation that can leave this
range is checked, as it is in the source.  `AddrRange` keeps the source's two
public fields (`end` is a keyword, so the upper one is called `stop`).
-/

namespace TgosKits

def usizeMax : Nat := 2 ^ 64 - 1

def pageSize4K : Nat := 0x1000

/-- `usize::checked_add`. -/
def checkedAdd (left right : Nat) : Option Nat :=
  if left + right ≤ usizeMax then some (left + right) else none

theorem checkedAdd_eq_some_iff {left right sum : Nat} :
    checkedAdd left right = some sum ↔ sum = left + right ∧ left + right ≤ usizeMax := by
  unfold checkedAdd
  split_ifs with fits
  · simp [fits, eq_comm]
  · simp [fits]

theorem checkedAdd_eq_none_iff {left right : Nat} :
    checkedAdd left right = none ↔ usizeMax < left + right := by
  simp [checkedAdd]

/-- `!word` on 64 bits. -/
def bitNot (word : Nat) : Nat := usizeMax - word

/-- `align_down`, exact for powers of two only. -/
def alignDown (addr align : Nat) : Nat := addr &&& bitNot (align - 1)

def alignOffset (addr align : Nat) : Nat := addr &&& (align - 1)

def isAligned (addr align : Nat) : Bool := alignOffset addr align == 0

/-- The greatest multiple of `align` up to the address. -/
theorem alignDown_eq {addr align : Nat} (bounded : addr ≤ usizeMax)
    (powerOfTwo : align.isPowerOfTwo) (fits : align ≤ usizeMax) :
    alignDown addr align = addr - addr % align := by
  obtain ⟨bits, rfl⟩ := powerOfTwo
  have small : bits ≤ 64 := by
    by_contra large
    have huge : 2 ^ 64 ≤ 2 ^ bits := Nat.pow_le_pow_right (by omega) (by omega)
    unfold usizeMax at fits
    omega
  have bound : addr < 2 ^ 64 := by
    unfold usizeMax at bounded
    omega
  exact BitMask.land_high_mask small bound

theorem alignOffset_eq {addr align : Nat} (powerOfTwo : align.isPowerOfTwo) :
    alignOffset addr align = addr % align := by
  obtain ⟨bits, rfl⟩ := powerOfTwo
  exact Nat.and_two_pow_sub_one_eq_mod addr bits

/-- The addresses from `start` up to `stop`. -/
structure AddrRange where
  start : Nat
  stop : Nat
  deriving DecidableEq, Repr

namespace AddrRange

/-- Refuses a range whose end overflows. -/
def tryFromStartSize (start size : Nat) : Option AddrRange :=
  (checkedAdd start size).map (fun stop => ⟨start, stop⟩)

/-- True of an invalid range as well. -/
def isEmpty (range : AddrRange) : Bool :=
  decide (range.stop ≤ range.start)

def size (range : AddrRange) : Nat := range.stop - range.start

def overlaps (range other : AddrRange) : Bool :=
  decide (range.start < other.stop ∧ other.start < range.stop)

/-- `contains`, as a proposition. -/
def Contains (range : AddrRange) (addr : Nat) : Prop := range.start ≤ addr ∧ addr < range.stop

instance (range : AddrRange) (addr : Nat) : Decidable (range.Contains addr) :=
  inferInstanceAs (Decidable (_ ∧ _))

@[simp]
theorem contains_mk {start stop addr : Nat} :
    (⟨start, stop⟩ : AddrRange).Contains addr ↔ start ≤ addr ∧ addr < stop :=
  .rfl

theorem not_isEmpty_iff {range : AddrRange} :
    ¬ range.isEmpty = true ↔ range.start < range.stop := by
  simp [isEmpty]

theorem tryFromStartSize_eq_some {start size : Nat} {range : AddrRange}
    (accepted : tryFromStartSize start size = some range) :
    range = ⟨start, start + size⟩ := by
  simp only [tryFromStartSize, Option.map_eq_some_iff] at accepted
  obtain ⟨stop, sum, rfl⟩ := accepted
  rw [(checkedAdd_eq_some_iff.mp sum).1]

end AddrRange

end TgosKits
