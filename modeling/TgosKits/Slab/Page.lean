import TgosKits.Library.Bitmap
import TgosKits.Library.LinkedStack

/-!
# Slab pages (`slab/page.rs`, `slab/size_class.rs`)

A slab page starts with a header and holds an array of objects of one size.
-/

namespace TgosKits

inductive SizeClass where
  | bytes8
  | bytes16
  | bytes32
  | bytes64
  | bytes128
  | bytes256
  | bytes512
  | bytes1024
  | bytes2048
  deriving DecidableEq, Repr

namespace SizeClass

def index : SizeClass → Nat
  | bytes8 => 0
  | bytes16 => 1
  | bytes32 => 2
  | bytes64 => 3
  | bytes128 => 4
  | bytes256 => 5
  | bytes512 => 6
  | bytes1024 => 7
  | bytes2048 => 8

def size : SizeClass → Nat
  | bytes8 => 8
  | bytes16 => 16
  | bytes32 => 32
  | bytes64 => 64
  | bytes128 => 128
  | bytes256 => 256
  | bytes512 => 512
  | bytes1024 => 1024
  | bytes2048 => 2048

theorem index_injective : Function.Injective index := by
  intro first second equal
  cases first <;> cases second <;> first | rfl | exact absurd equal (by decide)

theorem index_lt (sizeClass : SizeClass) : sizeClass.index < 16 := by
  cases sizeClass <;> decide

theorem size_pos (sizeClass : SizeClass) : 0 < sizeClass.size := by
  cases sizeClass <;> decide

end SizeClass

def slabMagic : Nat := 0x534C4142

def maxObjectsPerSlab : Nat := 512

def bitmapWords : Nat := 8

/-- The list of its cache that a slab is on. -/
inductive SlabListState where
  | notListed
  | partialList
  | fullList
  | emptyList
  deriving DecidableEq, Repr

/-- A slab: its header, and the first word of every object by address. -/
structure SlabPage where
  magic : Nat
  sizeClass : SizeClass
  objectCount : Nat
  localFreeCount : Nat
  listPrev : Nat
  listNext : Nat
  listState : SlabListState
  localBitmap : Nat → BitVec 64
  remoteFreeHead : Nat
  remoteFreeCount : Nat
  firstWord : Nat → Nat

namespace SlabPage

def headerSize : Nat := 128

/-- Offset of the first object: the header size, aligned to the object size. -/
def dataOffset (objSize : Nat) : Nat :=
  (headerSize + (objSize - 1)) - (headerSize + (objSize - 1)) % objSize

variable (page : SlabPage)

def dataStart (base : Nat) : Nat := base + dataOffset page.sizeClass.size

def objectAddr (base index : Nat) : Nat :=
  page.dataStart base + index * page.sizeClass.size

def objectIndex (base addr : Nat) : Nat :=
  (addr - page.dataStart base) / page.sizeClass.size

def capacity (sizeClass : SizeClass) (bytes : Nat) : Nat :=
  min ((bytes - dataOffset sizeClass.size) / sizeClass.size) maxObjectsPerSlab

def init (sizeClass : SizeClass) (bytes : Nat) : SlabPage :=
  let count := capacity sizeClass bytes
  { page with
    magic := slabMagic
    sizeClass := sizeClass
    objectCount := count
    localFreeCount := count
    listPrev := 0
    listNext := 0
    listState := .notListed
    localBitmap := Bitmap.fill count
    remoteFreeHead := 0
    remoteFreeCount := 0 }

def takeSlot (slot : Nat) : SlabPage :=
  { page with
    localBitmap := Bitmap.clear page.localBitmap slot
    localFreeCount := page.localFreeCount - 1 }

/-- Takes the lowest free slot. -/
def localAlloc : Option (Nat × SlabPage) :=
  (Bitmap.firstSet bitmapWords page.localBitmap).map (fun slot => (slot, page.takeSlot slot))

/-- `local_free`; draining a remote free does the same to its slot. -/
def localFree (index : Nat) : SlabPage :=
  { page with
    localBitmap := Bitmap.set page.localBitmap index
    localFreeCount := page.localFreeCount + 1 }

def isAllFree : Bool := page.localFreeCount == page.objectCount

def isLocalFull : Bool := page.localFreeCount == 0

def hasRemoteFrees : Bool := page.remoteFreeHead != 0

/-- `prepare_for_buddy_free`, once its assertion has passed. -/
def prepareForBuddyFree : SlabPage :=
  { page with
    listPrev := 0
    listNext := 0
    listState := .notListed
    magic := 0 }

def relink (prev next : Nat) (state : SlabListState) : SlabPage :=
  { page with listPrev := prev, listNext := next, listState := state }

def setHead (addr : Nat) : SlabPage :=
  { page with remoteFreeHead := addr }

def store (addr value : Nat) : SlabPage :=
  { page with firstWord := Function.update page.firstWord addr value }

theorem objectIndex_objectAddr (base index : Nat) :
    page.objectIndex base (page.objectAddr base index) = index := by
  unfold objectIndex objectAddr
  rw [Nat.add_sub_cancel_left]
  exact Nat.mul_div_cancel _ page.sizeClass.size_pos

theorem objectAddr_inj {page : SlabPage} {base index other : Nat}
    (equal : page.objectAddr base index = page.objectAddr base other) : index = other := by
  rw [← objectIndex_objectAddr page base index, equal, objectIndex_objectAddr]

theorem objectAddr_ne_zero {page : SlabPage} {base index : Nat} (real : base ≠ 0) :
    page.objectAddr base index ≠ 0 := by
  unfold objectAddr dataStart
  omega

end SlabPage

end TgosKits
