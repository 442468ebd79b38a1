import Mathlib.Algebra.Group.Nat.Defs
import TgosKits.Library.RunMap

/-!
# Extents

An extent maps logical blocks of a file to physical blocks.
-/

namespace TgosKits

open List

inductive Ext4ErrorKind where
  | corrupted
  | noSpace
  | invalidInput
  | overflow
  | fileTooLarge
  deriving DecidableEq, Repr

structure Ext4Error where
  kind : Ext4ErrorKind
  operation : Option String
  deriving DecidableEq, Repr

namespace Ext4Error

def withOperation (error : Ext4Error) (operation : String) : Ext4Error :=
  { error with operation := some operation }

def corrupted : Ext4Error := ⟨.corrupted, none⟩

def invalidInput : Ext4Error := ⟨.invalidInput, none⟩

def overflow : Ext4Error := ⟨.overflow, none⟩

def fileTooLarge : Ext4Error := ⟨.fileTooLarge, none⟩

def noSpace : Ext4Error := ⟨.noSpace, none⟩

end Ext4Error

/-- `Ext4Extent`; `eeStart` joins the two halves of the physical start. -/
structure Ext4Extent where
  eeBlock : Nat
  eeLen : Nat
  eeStart : Nat
  deriving DecidableEq, Repr

namespace Ext4Extent

def extInitMaxLen : Nat := 32768

def extUninitMaxLen : Nat := 32767

def extUnwrittenFlag : Nat := 0x8000

def physicalLimit : Nat := 2 ^ 48

/-- Unwritten extents are marked in the top bit. -/
def encodeLen (len : Nat) (unwritten : Bool) : Option Nat :=
  if len == 0 then
    none
  else if unwritten then
    if len > extUninitMaxLen then none else some (len + extUnwrittenFlag)
  else
    if len > extInitMaxLen then none else some len

def decodeLen (rawLen : Nat) : Nat :=
  if rawLen == extInitMaxLen then extInitMaxLen else rawLen % extUnwrittenFlag

def new (logicStart startPhyBlock len : Nat) : Ext4Extent :=
  ⟨logicStart, len, startPhyBlock % physicalLimit⟩

def newUnwritten (logicStart startPhyBlock len : Nat) : Option Ext4Extent :=
  (encodeLen len true).map fun rawLen => new logicStart startPhyBlock rawLen

variable (extent : Ext4Extent)

def startBlock : Nat := extent.eeStart

def len : Nat := decodeLen extent.eeLen

def isUnwritten : Bool :=
  decide (extent.eeLen > extUnwrittenFlag)

def buildLenLike (len : Nat) : Option Nat := encodeLen len extent.isUnwritten

/-- The extent as a run from logical to physical blocks. -/
def run : Run Bool := ⟨extent.eeBlock, extent.len, extent.startBlock, extent.isUnwritten⟩

variable {extent} {length rawLen : Nat} {unwritten : Bool}

@[simp]
theorem run_first : extent.run.first = extent.eeBlock :=
  rfl

@[simp]
theorem run_stop : extent.run.stop = extent.eeBlock + extent.len :=
  rfl

@[simp]
theorem run_target : extent.run.target = extent.eeStart :=
  rfl

@[simp]
theorem run_state : extent.run.state = extent.isUnwritten :=
  rfl

theorem decodeLen_le : decodeLen rawLen ≤ extInitMaxLen := by
  unfold decodeLen
  split_ifs with full
  · exact le_refl _
  · exact (Nat.mod_lt _ (by decide)).le

def maxLen (unwritten : Bool) : Nat :=
  if unwritten then extUninitMaxLen else extInitMaxLen

theorem len_le_maxLen : extent.len ≤ maxLen extent.isUnwritten := by
  unfold len isUnwritten maxLen decodeLen extInitMaxLen extUninitMaxLen extUnwrittenFlag
  split_ifs <;> simp_all <;> omega

theorem encodeLen_eq (positive : 0 < length) (short : length ≤ maxLen unwritten) :
    encodeLen length unwritten =
      some (if unwritten then length + extUnwrittenFlag else length) := by
  have nonzero : ¬ (length == 0) = true := by
    rw [beq_iff_eq]
    omega
  unfold encodeLen
  rw [if_neg nonzero]
  cases unwritten with
  | false =>
    have fits : ¬ length > extInitMaxLen := not_lt.mpr short
    rw [if_neg (by simp), if_neg fits, if_neg (by simp)]
  | true =>
    have fits : ¬ length > extUninitMaxLen := not_lt.mpr short
    rw [if_pos rfl, if_neg fits, if_pos rfl]

theorem encodeLen_some (coded : encodeLen length unwritten = some rawLen) :
    0 < length ∧ decodeLen rawLen = length ∧
      decide (rawLen > extUnwrittenFlag) = unwritten := by
  by_cases zero : (length == 0) = true
  · simp [encodeLen, zero] at coded
  have positive : 0 < length := by
    rw [beq_iff_eq] at zero
    omega
  by_cases short : length ≤ maxLen unwritten
  · rw [encodeLen_eq positive short, Option.some.injEq] at coded
    subst coded
    cases unwritten with
    | false =>
      have bound : length ≤ 32768 := short
      refine ⟨positive, ?_, decide_eq_false (not_lt.mpr bound)⟩
      unfold decodeLen extInitMaxLen extUnwrittenFlag
      simp only [Bool.false_eq_true, if_false]
      split_ifs with full
      · exact (beq_iff_eq.mp full).symm
      · rw [beq_iff_eq] at full
        exact Nat.mod_eq_of_lt (by omega)
    | true =>
      have bound : length ≤ 32767 := short
      unfold decodeLen extInitMaxLen extUnwrittenFlag
      simp only [if_true]
      refine ⟨positive, ?_, decide_eq_true (by omega)⟩
      rw [if_neg (by rw [beq_iff_eq]; omega)]
      omega
  · have refused : encodeLen length unwritten = none := by
      unfold encodeLen
      rw [if_neg zero]
      cases unwritten <;> exact if_pos (not_le.mp short)
    rw [refused] at coded
    cases coded

theorem run_of_buildLenLike {block start : Nat} (coded : extent.buildLenLike length = some rawLen) :
    (Ext4Extent.mk block rawLen start).run = ⟨block, length, start, extent.isUnwritten⟩ := by
  rcases encodeLen_some coded with ⟨_, decoded, state⟩
  unfold run len startBlock
  rw [decoded]
  exact congrArg (Run.mk block length start) state

end Ext4Extent

/-- The mapping of a list of extents: the physical block and whether it is
unwritten. -/
def mappingOf (extents : List Ext4Extent) (lblock : Nat) : Option (Nat × Bool) :=
  RunMap.lookup (extents.map Ext4Extent.run) lblock

def validateLeafEntriesFrom (previousEnd : Option Nat) : List Ext4Extent → Except Ext4Error Unit
  | [] => .ok ()
  | extent :: rest =>
    if extent.len == 0 then
      .error (Ext4Error.corrupted.withOperation "extent:zero_length")
    else if extent.eeBlock + extent.len ≥ 2 ^ 32 then
      .error (Ext4Error.corrupted.withOperation "extent:logical_overflow")
    else if extent.startBlock + extent.len ≥ 2 ^ 64 then
      .error (Ext4Error.corrupted.withOperation "extent:physical_overflow")
    else if previousEnd.any fun stop => decide (extent.eeBlock < stop) then
      .error (Ext4Error.corrupted.withOperation "extent:overlap_or_order")
    else
      validateLeafEntriesFrom (some (extent.eeBlock + extent.len)) rest

def validateLeafEntries (entries : List Ext4Extent) : Except Ext4Error Unit :=
  validateLeafEntriesFrom none entries

/-- What `validate_leaf_entries` accepts. -/
structure ValidExtents (entries : List Ext4Extent) : Prop where
  ordered : RunMap.Ordered (entries.map Ext4Extent.run)
  logical : ∀ extent ∈ entries, extent.eeBlock + extent.len < 2 ^ 32
  physical : ∀ extent ∈ entries, extent.startBlock + extent.len < 2 ^ 64

private theorem validExtents_nil : ValidExtents [] := ⟨RunMap.ordered_nil, by simp, by simp⟩

private theorem validExtents_cons {extent : Ext4Extent} {rest : List Ext4Extent} :
    ValidExtents (extent :: rest) ↔ 0 < extent.len ∧ extent.eeBlock + extent.len < 2 ^ 32 ∧
        extent.startBlock + extent.len < 2 ^ 64 ∧
        (∀ other ∈ rest, extent.eeBlock + extent.len ≤ other.eeBlock) ∧
        ValidExtents rest := by
  constructor
  · intro valid
    have ordered := valid.ordered
    rw [map_cons, RunMap.ordered_cons] at ordered
    rcases ordered with ⟨positive, before, rest⟩
    refine ⟨positive, valid.logical extent mem_cons_self,
      valid.physical extent mem_cons_self, ?_, rest,
      fun other member => valid.logical other (mem_cons_of_mem _ member),
      fun other member => valid.physical other (mem_cons_of_mem _ member)⟩
    intro other member
    exact before other.run (mem_map_of_mem member)
  · intro ⟨positive, logical, physical, before, valid⟩
    refine ⟨?_, ?_, ?_⟩
    · rw [map_cons, RunMap.ordered_cons]
      refine ⟨positive, ?_, valid.ordered⟩
      intro other member
      rcases mem_map.mp member with ⟨extent, listed, rfl⟩
      exact before extent listed
    · intro other member
      rcases mem_cons.mp member with rfl | member
      · exact logical
      · exact valid.logical other member
    · intro other member
      rcases mem_cons.mp member with rfl | member
      · exact physical
      · exact valid.physical other member

theorem validateLeafEntriesFrom_eq_ok_iff {entries : List Ext4Extent} {previousEnd : Option Nat} :
    validateLeafEntriesFrom previousEnd entries = .ok () ↔ ValidExtents entries ∧
        ∀ stop ∈ previousEnd, ∀ extent ∈ entries, stop ≤ extent.eeBlock := by
  induction entries generalizing previousEnd with
  | nil => simp [validateLeafEntriesFrom, validExtents_nil]
  | cons extent rest ih =>
    rw [validExtents_cons]
    unfold validateLeafEntriesFrom
    split_ifs with zero logical physical early
    · rw [beq_iff_eq] at zero
      simp [zero]
    · simp only [false_iff]
      omega
    · simp only [false_iff]
      omega
    · simp only [false_iff, not_and]
      intro _ ordered
      rcases Option.any_eq_true_iff_get _ _ |>.mp early with ⟨isSome, less⟩
      have order := ordered _ (Option.get_mem isSome) extent mem_cons_self
      rw [decide_eq_true_eq] at less
      omega
    · rw [ih]
      rw [beq_iff_eq] at zero
      constructor
      · intro ⟨valid, behind⟩
        refine ⟨⟨by omega, by omega, by omega, behind _ rfl, valid⟩, ?_⟩
        intro stop isStop other member
        have here : stop ≤ extent.eeBlock := by
          rw [isStop, Option.any_some, decide_eq_true_eq] at early
          omega
        rcases mem_cons.mp member with rfl | member
        · exact here
        · have order := behind _ rfl other member
          omega
      · intro ⟨⟨_, _, _, behind, valid⟩, _⟩
        refine ⟨valid, ?_⟩
        intro stop isStop other member
        cases isStop
        exact behind other member

theorem validateLeafEntries_eq_ok_iff {entries : List Ext4Extent} :
    validateLeafEntries entries = .ok () ↔ ValidExtents entries := by
  unfold validateLeafEntries
  rw [validateLeafEntriesFrom_eq_ok_iff]
  simp

end TgosKits
