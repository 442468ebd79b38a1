import Mathlib.Tactic.IntervalCases
import TgosKits.MemoryAddr
import TgosKits.Slab.Page

/-!
# The slab of an object (`slab/page.rs`)

A free knows only the address of the object.
-/

namespace TgosKits

open Function

def SizeClass.slabPages (sizeClass : SizeClass) (pageSize : Nat) : Nat :=
  if sizeClass.size ≤ 256 then 1
  else if sizeClass.size ≤ 1024 then 2
  else max 1 (min 4 (16 * pageSize / (sizeClass.size * 8)))

namespace SlabBase

/-- The `u32` at each address. -/
abbrev Memory := Nat → Nat

def maxSlabPages : Nat := 4

def magicAt (memory : Memory) (header : Nat) : Nat := memory header

def slabBytesAt (memory : Memory) (header : Nat) : Nat := memory (header + 16)

/-- The first of so many pages, from the page of the address backwards, whose
header is accepted. -/
def searchBack (pageSize addr pages : Nat) (accept : Nat → Bool) : Option Nat :=
  let pageBase := alignDown addr pageSize
  ((List.range pages).find? fun pageIdx =>
    decide (pageIdx * pageSize ≤ pageBase) && accept (pageBase - pageIdx * pageSize)).map
    fun pageIdx => pageBase - pageIdx * pageSize

/-- The end of a slab wraps as a machine word does. -/
def covers (candidate slabBytes addr : Nat) : Bool :=
  decide (candidate ≤ addr ∧ addr < (candidate + slabBytes) % 2 ^ 64)

def baseFromObjAddr (pageSize : Nat) (memory : Memory) (addr slabBytes : Nat) : Nat :=
  (searchBack pageSize addr (slabBytes / pageSize) fun candidate =>
    magicAt memory candidate == slabMagic && slabBytesAt memory candidate == slabBytes &&
      covers candidate slabBytes addr).getD (alignDown addr pageSize)

/-- Whether a page begins like a slab that the address lies in. -/
def looksLikeSlab (pageSize : Nat) (memory : Memory) (addr candidate : Nat) : Bool :=
  let slabBytes := slabBytesAt memory candidate
  magicAt memory candidate == slabMagic && slabBytes != 0 && slabBytes % pageSize == 0 &&
    decide (slabBytes / pageSize ≤ maxSlabPages) && covers candidate slabBytes addr

def baseFromObjAddrUnknown (pageSize : Nat) (memory : Memory) (addr : Nat) : Option Nat :=
  if pageSize = 0 ∨ ¬ pageSize.isPowerOfTwo then none
  else searchBack pageSize addr maxSlabPages (looksLikeSlab pageSize memory addr)

variable {pageSize base addr pages : Nat} {memory : Memory} {sizeClass : SizeClass}

private theorem slabPages_eq_pow (power : pageSize.isPowerOfTwo) :
    ∃ bits ≤ 2, sizeClass.slabPages pageSize = 2 ^ bits := by
  obtain ⟨exponent, rfl⟩ := power
  unfold SizeClass.slabPages
  cases sizeClass with
  | bytes512 | bytes1024 => exact ⟨1, by decide, rfl⟩
  | bytes2048 =>
    by_cases small : exponent < 12
    · interval_cases exponent <;> decide
    · have large : 2 ^ 12 ≤ 2 ^ exponent := Nat.pow_le_pow_right (by decide) (by omega)
      refine ⟨2, le_rfl, ?_⟩
      simp only [SizeClass.size, Nat.reduceLeDiff, if_false]
      omega
  | _ => exact ⟨0, by decide, rfl⟩

theorem searchBack_eq_some_iff {accept : Nat → Bool} (power : pageSize.isPowerOfTwo)
    (pageFits : pageSize ≤ usizeMax) (addrFits : addr ≤ usizeMax) (aligned : pageSize ∣ base)
    (above : base ≤ addr) (below : addr < base + pages * pageSize) :
    searchBack pageSize addr pages accept = some base ↔ accept base = true ∧
      ∀ page, base < page → page ≤ addr → pageSize ∣ page → accept page = false := by
  have positive := Nat.pos_of_isPowerOfTwo power
  obtain ⟨first, rfl⟩ := exists_eq_mul_left_of_dvd aligned
  have pageBase : alignDown addr pageSize = addr / pageSize * pageSize := by
    rw [alignDown_eq addrFits power pageFits]
    have division := Nat.div_add_mod' addr pageSize
    omega
  have firstLe : first ≤ addr / pageSize := (Nat.le_div_iff_mul_le positive).mpr above
  have topLt : addr / pageSize < first + pages :=
    (Nat.div_lt_iff_lt_mul positive).mpr (by rwa [Nat.add_mul])
  simp only [searchBack, pageBase, ← Nat.sub_mul, Nat.mul_le_mul_right_iff positive,
    Option.map_eq_some_iff, List.find?_range_eq_some, Nat.mul_left_inj positive.ne']
  constructor
  · rintro ⟨pageIdx, ⟨found, member, before⟩, rfl⟩
    simp only [Bool.and_eq_true, decide_eq_true_eq] at found
    refine ⟨found.2, ?_⟩
    intro page inner le divides
    obtain ⟨number, rfl⟩ := exists_eq_mul_left_of_dvd divides
    have numberLe : number ≤ addr / pageSize := (Nat.le_div_iff_mul_le positive).mpr le
    have numberLt := Nat.lt_of_mul_lt_mul_right inner
    simpa [Nat.sub_sub_self numberLe] using before (addr / pageSize - number) (by omega)
  · rintro ⟨accepted, inner⟩
    refine ⟨addr / pageSize - first, ⟨?_, ?_, ?_⟩, by omega⟩
    · simpa [Nat.sub_sub_self firstLe] using accepted
    · exact List.mem_range.mpr (by omega)
    · intro pageIdx before
      have refused := inner ((addr / pageSize - pageIdx) * pageSize)
        (Nat.mul_lt_mul_of_pos_right (by omega) positive)
        ((Nat.mul_le_mul_right _ (Nat.sub_le _ _)).trans (Nat.div_mul_le_self _ _))
        (Nat.dvd_mul_left _ _)
      simp [refused]

/-- Both searches find the slab of an address exactly when its size fits into the
header and no later page up to the address begins like a slab. -/
theorem base_from_obj_addr_iff {slabBytes : Nat} (power : pageSize.isPowerOfTwo)
    (bytesEq : slabBytes = sizeClass.slabPages pageSize * pageSize) (aligned : pageSize ∣ base)
    (fits : base + slabBytes ≤ usizeMax) (above : base ≤ addr) (below : addr < base + slabBytes)
    (magic : magicAt memory base = slabMagic)
    (bytes : slabBytesAt memory base = slabBytes % 2 ^ 32) :
    (baseFromObjAddr pageSize memory addr slabBytes = base ∧
        baseFromObjAddrUnknown pageSize memory addr = some base) ↔
      slabBytes < 2 ^ 32 ∧ ∀ page, base < page → page ≤ addr → pageSize ∣ page →
        looksLikeSlab pageSize memory addr page = false := by
  have positive := Nat.pos_of_isPowerOfTwo power
  obtain ⟨bits, small, pagesEq⟩ := @slabPages_eq_pow _ sizeClass power
  have pagesLe : 2 ^ bits ≤ 2 ^ 2 := Nat.pow_le_pow_right (by decide) small
  rw [pagesEq] at bytesEq
  have atLeastPage : pageSize ≤ slabBytes := bytesEq ▸ Nat.le_mul_of_pos_left _ (by positivity)
  have atMost : slabBytes ≤ maxSlabPages * pageSize := bytesEq ▸ Nat.mul_le_mul_right _ pagesLe
  have quotient : slabBytes / pageSize = 2 ^ bits := bytesEq ▸ Nat.mul_div_cancel _ positive
  have looks : ∀ page, magicAt memory page = slabMagic → slabBytesAt memory page = slabBytes →
      covers page slabBytes addr = true → looksLikeSlab pageSize memory addr page = true := by
    intro page magic bytes covered
    simp only [looksLikeSlab, magic, bytes, covered, quotient, beq_self_eq_true, Bool.and_true,
      Bool.true_and, Bool.and_eq_true, bne_iff_ne, beq_iff_eq, decide_eq_true_eq]
    exact ⟨⟨by omega, bytesEq ▸ Nat.mul_mod_left _ _⟩, pagesLe⟩
  have covered : covers base slabBytes addr = true := by
    unfold usizeMax at fits
    exact decide_eq_true ⟨above, by omega⟩
  have looksBase : looksLikeSlab pageSize memory addr base = true ↔ slabBytes < 2 ^ 32 := by
    constructor
    · intro looked
      have nonzero : slabBytes % 2 ^ 32 ≠ 0 := by
        simp only [looksLikeSlab, bytes, Bool.and_eq_true, bne_iff_ne] at looked
        exact looked.1.1.1.2
      obtain ⟨exponent, rfl⟩ := power
      rw [bytesEq, ← pow_add] at nonzero ⊢
      by_contra large
      exact nonzero (Nat.mod_eq_zero_of_dvd (pow_dvd_pow 2
        ((Nat.pow_le_pow_iff_right (by decide)).mp (Nat.not_lt.mp large))))
    · exact fun short => looks base magic (bytes.trans (Nat.mod_eq_of_lt short)) covered
  have unknown := @searchBack_eq_some_iff _ _ _ maxSlabPages (looksLikeSlab pageSize memory addr)
    power (by omega) (by omega) aligned above (by omega)
  rw [baseFromObjAddrUnknown, if_neg (by simp [positive.ne', power]), unknown, looksBase]
  refine and_iff_right_of_imp ?_
  rintro ⟨short, inner⟩
  rw [baseFromObjAddr, (searchBack_eq_some_iff power (by omega) (by omega) aligned above
    (by rwa [quotient, ← bytesEq])).mpr ⟨?_, ?_⟩]
  · rfl
  · have whole : slabBytesAt memory base = slabBytes := bytes.trans (Nat.mod_eq_of_lt short)
    simp [magic, whole, covered]
  · intro page later le divides
    have unlike := inner page later le divides
    by_contra accepted
    simp only [Bool.not_eq_false, Bool.and_eq_true, beq_iff_eq] at accepted
    simp [looks page accepted.1.1 accepted.1.2 accepted.2] at unlike

/-- A slab of two pages at 0x4000 whose objects hold zeros, and the same slab after
the program has filled the object at 0x5000 with a header. -/
def twoPageSlab : Memory :=
  update (update (fun _ => 0) 0x4000 slabMagic) 0x4010 0x2000

def forgedSlab : Memory :=
  update (update twoPageSlab 0x5000 slabMagic) 0x5010 0x2000

theorem twoPageSlab_base : baseFromObjAddr 0x1000 twoPageSlab 0x5200 0x2000 = 0x4000 ∧
    baseFromObjAddrUnknown 0x1000 twoPageSlab 0x5200 = some 0x4000 := by
  refine (@base_from_obj_addr_iff 0x1000 0x4000 0x5200 _ .bytes512 0x2000 ⟨12, rfl⟩ rfl
    (by decide) (by decide) (by decide) (by decide) rfl rfl).mpr ⟨by decide, ?_⟩
  intro page later _ _
  have unlike : magicAt twoPageSlab page ≠ slabMagic := by
    unfold magicAt twoPageSlab slabMagic
    simp only [update_apply]
    split_ifs <;> omega
  simp [looksLikeSlab, unlike]

/-- Object 7 of the slab begins on its second page.  Freeing it takes its data for
the header of a slab. -/
theorem forgedSlab_base : 0x4000 + SlabPage.dataOffset 512 + 7 * 512 = 0x5000 ∧
    SizeClass.bytes512.slabPages 0x1000 * 0x1000 = 0x2000 ∧
    magicAt forgedSlab 0x4000 = slabMagic ∧ slabBytesAt forgedSlab 0x4000 = 0x2000 ∧
    baseFromObjAddr 0x1000 forgedSlab 0x5000 0x2000 = 0x5000 ∧
    baseFromObjAddrUnknown 0x1000 forgedSlab 0x5000 = some 0x5000 := by
  decide

end SlabBase

end TgosKits
