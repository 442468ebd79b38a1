import Mathlib.Algebra.Group.Nat.Defs
import Mathlib.Data.Fintype.EquivFin
import TgosKits.Library.AccessTree

/-!
# Descriptor chains of a virtqueue

The guest links the buffers of a request through a table of descriptors in its own
memory, which it may rewrite while the device walks the chain. The walk takes the
next index before it compares the number of descriptors with the size of the table,
so a guest that rewrites a descriptor in time makes the chain one longer than the
table.
-/

namespace TgosKits

open AccessTree

/-! ## Model -/

/-- The errors of the walk; `memoryError` and `invalidAddress` are the answers of the guest
memory to an access it refuses. -/
inductive VirtioError where
  | invalidQueue
  | queueNotReady
  | invalidDescriptor
  | memoryError
  | notSupported
  | invalidAddress
  deriving DecidableEq, Repr

abbrev guestAddresses : Nat := 2 ^ 64

def guestAddr (base offset : Nat) : Nat := (base + offset) % guestAddresses

def fromLeBytes : List UInt8 → Nat
  | [] => 0
  | byte :: rest => byte.toNat + 256 * fromLeBytes rest

abbrev GuestProgram (Result : Type) := AccessTree UInt8 VirtioError (Except VirtioError Result)

structure VirtQueueDesc where
  baseAddr : Nat
  len : Nat
  flags : UInt16
  next : UInt16
  deriving DecidableEq, Repr

namespace VirtQueueDesc

variable (desc : VirtQueueDesc)

def hasNext : Bool := desc.flags &&& 1 ≠ 0

def isIndirect : Bool := desc.flags &&& 4 ≠ 0

def decode (bytes : Vector UInt8 16) : VirtQueueDesc where
  baseAddr := fromLeBytes (bytes.toList.take 8)
  len := fromLeBytes ((bytes.toList.drop 8).take 4)
  flags := .ofNat (fromLeBytes ((bytes.toList.drop 12).take 2))
  next := .ofNat (fromLeBytes (bytes.toList.drop 14))

def Acceptable (desc : VirtQueueDesc) : Prop :=
  desc.isIndirect = false ∧ desc.baseAddr + desc.len < guestAddresses

instance (desc : VirtQueueDesc) : Decidable desc.Acceptable := inferInstanceAs (Decidable (_ ∧ _))

end VirtQueueDesc

structure DescriptorChain where
  head : UInt16
  descriptors : List VirtQueueDesc
  deriving DecidableEq, Repr

structure DescriptorTable where
  baseAddr : Nat
  size : UInt16
  deriving DecidableEq, Repr

namespace DescriptorTable

variable (table : DescriptorTable)

def descAddr (index : UInt16) : Option Nat :=
  if table.size ≤ index then
    none
  else
    some (guestAddr table.baseAddr (index.toNat * 16))

def isValid : Bool := table.baseAddr ≠ 0 && 0 < table.size

def readDesc (index : UInt16) : GuestProgram VirtQueueDesc :=
  if !table.isValid then
    .result (.error .queueNotReady)
  else
    match table.descAddr index with
    | none => .result (.error .invalidQueue)
    | some address =>
      .read address 16 (fun reply =>
        match reply with
        | .error error => .result (.error error)
        | .ok bytes => .result (.ok (.decode bytes)))

/-- The walk from one descriptor on, after those that it has collected. -/
def descriptorChainFrom (current : UInt16) (descriptors : List VirtQueueDesc) :
    GuestProgram (List VirtQueueDesc) :=
  if table.size ≤ current then
    .result (.error .invalidDescriptor)
  else
    (table.readDesc current).bind (fun reply =>
      match reply with
      | .error error => .result (.error error)
      | .ok desc =>
        if desc.isIndirect then
          .result (.error .notSupported)
        else if guestAddresses ≤ desc.baseAddr + desc.len then
          .result (.error .invalidDescriptor)
        else if !desc.hasNext then
          .result (.ok (descriptors ++ [desc]))
        else if _tooMany : table.size.toNat < (descriptors ++ [desc]).length then
          .result (.error .invalidDescriptor)
        else
          descriptorChainFrom desc.next (descriptors ++ [desc]))
  termination_by table.size.toNat + 1 - descriptors.length
  decreasing_by
    rw [List.length_append, List.length_singleton] at _tooMany ⊢
    omega

def descriptorChain (head : UInt16) : GuestProgram DescriptorChain :=
  if !table.isValid then
    .result (.error .queueNotReady)
  else if table.size ≤ head then
    .result (.error .invalidDescriptor)
  else
    (table.descriptorChainFrom head []).bind (fun reply =>
      match reply with
      | .error error => .result (.error error)
      | .ok descriptors => .result (.ok ⟨head, descriptors⟩))

/-! ## Memories that change -/

variable {table} {State : Type} {environment : Environment UInt8 VirtioError State}

/-- A memory presents a path: one read after the other finds an acceptable
descriptor, each linked from the one before, and only the last one has no link. -/
inductive Presents (table : DescriptorTable) (environment : Environment UInt8 VirtioError State) :
    State → UInt16 → List VirtQueueDesc → Prop where
  | last {state after : State} {index : UInt16} {bytes : Vector UInt8 16} : index < table.size →
      environment.read state (guestAddr table.baseAddr (index.toNat * 16)) 16 = (.ok bytes, after) →
      (VirtQueueDesc.decode bytes).Acceptable →
      (VirtQueueDesc.decode bytes).hasNext = false →
      Presents table environment state index [.decode bytes]
  | next {state after : State} {index : UInt16} {bytes : Vector UInt8 16}
      {rest : List VirtQueueDesc} :
      index < table.size →
      environment.read state (guestAddr table.baseAddr (index.toNat * 16)) 16 = (.ok bytes, after) →
      (VirtQueueDesc.decode bytes).Acceptable →
      (VirtQueueDesc.decode bytes).hasNext = true →
      Presents table environment after (VirtQueueDesc.decode bytes).next rest →
      Presents table environment state index (.decode bytes :: rest)

variable {current : UInt16} {state after : State} {path : List VirtQueueDesc}

private theorem run_descriptorChainFrom (valid : table.isValid = true) (state : State)
    (descriptors : List VirtQueueDesc) (inTable : current < table.size) :
    (table.descriptorChainFrom current descriptors).run environment state =
      match environment.read state (guestAddr table.baseAddr (current.toNat * 16)) 16 with
      | (.error error, after) => (.error error, after)
      | (.ok bytes, after) =>
        let desc := VirtQueueDesc.decode bytes
        if desc.isIndirect then
          (.error .notSupported, after)
        else if guestAddresses ≤ desc.baseAddr + desc.len then
          (.error .invalidDescriptor, after)
        else if !desc.hasNext then
          (.ok (descriptors ++ [desc]), after)
        else if table.size.toNat < descriptors.length + 1 then
          (.error .invalidDescriptor, after)
        else
          (table.descriptorChainFrom desc.next (descriptors ++ [desc])).run environment after := by
  have notBeyond : ¬ table.size ≤ current := UInt16.not_le.mpr inTable
  have address : table.descAddr current = some (guestAddr table.baseAddr (current.toNat * 16)) := by
    rw [descAddr, if_neg notBeyond]
  rw [descriptorChainFrom, if_neg notBeyond, run_bind, readDesc, if_neg (by simp [valid]), address]
  rw [run]
  rcases environment.read state
    (guestAddr table.baseAddr (current.toNat * 16)) 16 with ⟨reply, after⟩
  cases reply with
  | error error => rfl
  | ok bytes =>
    simp only [run_result, List.length_append, List.length_singleton]
    split_ifs <;> rfl

theorem not_presents_of_le (beyond : table.size ≤ current) :
    ¬ Presents table environment state current path := by
  intro presents
  cases presents with
  | last inTable | next inTable => exact UInt16.not_le.mpr inTable beyond

private theorem presents_iff {bytes : Vector UInt8 16} (inTable : current < table.size)
    (answer : environment.read state
      (guestAddr table.baseAddr (current.toNat * 16)) 16 = (.ok bytes, after)) :
    Presents table environment state current path ↔ (VirtQueueDesc.decode bytes).Acceptable ∧
        ((VirtQueueDesc.decode bytes).hasNext = false ∧ path = [.decode bytes] ∨
          (VirtQueueDesc.decode bytes).hasNext = true ∧ ∃ rest, path = .decode bytes :: rest ∧
              Presents table environment after (VirtQueueDesc.decode bytes).next rest) := by
  constructor
  · intro presents
    cases presents with
    | last _ answer' acceptable isLast =>
      rw [answer, Prod.mk.injEq, Except.ok.injEq] at answer'
      rw [answer'.1]
      exact ⟨acceptable, .inl ⟨isLast, rfl⟩⟩
    | next _ answer' acceptable hasNext further =>
      rw [answer, Prod.mk.injEq, Except.ok.injEq] at answer'
      rw [answer'.1, answer'.2]
      exact ⟨acceptable, .inr ⟨hasNext, _, rfl, further⟩⟩
  · rintro ⟨acceptable, ⟨isLast, rfl⟩ | ⟨hasNext, rest, rfl, further⟩⟩
    · exact .last inTable answer acceptable isLast
    · exact .next inTable answer acceptable hasNext further

/-- The walk returns the path that the memory presents, if it has at most one
descriptor more than the table. -/
private theorem run_descriptorChainFrom_iff (valid : table.isValid = true)
    (state : State) (current : UInt16) (descriptors path : List VirtQueueDesc)
    (room : descriptors.length ≤ table.size.toNat) :
    ((table.descriptorChainFrom current descriptors).run environment state).1 = .ok path ↔
      ∃ rest, path = descriptors ++ rest ∧ Presents table environment state current rest ∧
        path.length ≤ table.size.toNat + 1 := by
  induction left : table.size.toNat - descriptors.length using
    Nat.strong_induction_on generalizing state current descriptors with
  | _ left ih =>
    by_cases inTable : current < table.size
    · rw [run_descriptorChainFrom valid state descriptors inTable]
      rcases answer : environment.read state
        (guestAddr table.baseAddr (current.toNat * 16)) 16 with ⟨reply, after⟩
      cases reply with
      | error error =>
        have none : ∀ rest, ¬ Presents table environment state current rest := by
          intro rest presents
          cases presents with
          | last _ answer' | next _ answer' =>
            rw [answer] at answer'
            exact absurd answer' (by simp)
        simp [none]
      | ok bytes =>
        simp only [presents_iff inTable answer]
        generalize VirtQueueDesc.decode bytes = desc
        by_cases acceptable : desc.Acceptable
        · have notWrapping : ¬ guestAddresses ≤ desc.baseAddr + desc.len :=
            Nat.not_le.mpr acceptable.2
          rw [if_neg (by simp [acceptable.1]), if_neg notWrapping]
          cases hasNext : desc.hasNext with
          | false =>
            rw [if_pos (by simp)]
            simp only [Except.ok.injEq]
            constructor
            · rintro rfl
              refine ⟨[desc], rfl, ⟨acceptable, .inl ⟨trivial, rfl⟩⟩, ?_⟩
              rw [List.length_append, List.length_singleton]
              omega
            · rintro ⟨rest, rfl, ⟨_, ⟨_, rfl⟩ | ⟨impossible, _⟩⟩, _⟩
              · rfl
              · exact absurd impossible (by simp)
          | true =>
            rw [if_neg (by simp)]
            have longer : (descriptors ++ [desc]).length = descriptors.length + 1 := by simp
            by_cases full : table.size.toNat < descriptors.length + 1
            · rw [if_pos full]
              constructor
              · intro impossible
                exact absurd impossible (by simp)
              · rintro ⟨rest, rfl, ⟨_, ⟨impossible, _⟩ | ⟨_, further, rfl, presents⟩⟩, short⟩
                · exact absurd impossible (by simp)
                · have positive : 0 < further.length := by cases presents <;> simp
                  rw [List.length_append, List.length_cons] at short
                  omega
            · rw [if_neg full, ih _ (by omega) after desc.next
                (descriptors ++ [desc]) (by omega) rfl]
              constructor
              · rintro ⟨rest, rfl, presents, short⟩
                exact ⟨desc :: rest, by simp,
                  ⟨acceptable, .inr ⟨rfl, rest, rfl, presents⟩⟩, short⟩
              · rintro ⟨rest, rfl, ⟨_, ⟨impossible, _⟩ | ⟨_, further, rfl, presents⟩⟩, short⟩
                · exact absurd impossible (by simp)
                · exact ⟨further, by simp, presents, short⟩
        · have refused : ∀ rest, ¬ (desc.Acceptable ∧ rest) := fun rest both => acceptable both.1
          simp only [refused, false_and, and_false, exists_false, iff_false]
          by_cases indirect : desc.isIndirect = true
          · rw [if_pos indirect]
            simp
          have wrapping : guestAddresses ≤ desc.baseAddr + desc.len := by
            by_contra short
            exact acceptable ⟨by simpa using indirect, Nat.not_le.mp short⟩
          rw [if_neg indirect, if_pos wrapping]
          simp
    · have beyond : table.size ≤ current := UInt16.not_lt.mp inTable
      have none : ∀ rest, ¬ Presents table environment state current rest :=
        fun rest => not_presents_of_le beyond
      rw [descriptorChainFrom, if_pos beyond]
      simp [none]

/-- The chain that a walk returns is what the memory presents. -/
theorem run_descriptorChain_iff (state : State) (head : UInt16) (chain : DescriptorChain) :
    ((table.descriptorChain head).run environment state).1 = .ok chain ↔
      table.isValid = true ∧ chain.head = head ∧
        Presents table environment state head chain.descriptors ∧
        chain.descriptors.length ≤ table.size.toNat + 1 := by
  rw [descriptorChain]
  cases valid : table.isValid with
  | false => simp
  | true =>
    rw [if_neg (by simp)]
    by_cases beyond : table.size ≤ head
    · have none : ¬ Presents table environment state head chain.descriptors :=
        not_presents_of_le beyond
      rw [if_pos beyond]
      simp [none]
    have walk : ((table.descriptorChainFrom head []).run environment
        state).1 = .ok chain.descriptors ↔ _ :=
      run_descriptorChainFrom_iff valid state head [] chain.descriptors (Nat.zero_le _)
    simp only [List.nil_append, exists_eq_left'] at walk
    rw [if_neg beyond, run_bind, ← walk]
    rcases chain with ⟨chainHead, descriptors⟩
    cases (table.descriptorChainFrom head []).run environment state with
    | mk result after =>
      cases result with
      | error error => simp
      | ok found =>
        simp only [run_result, Except.ok.injEq, DescriptorChain.mk.injEq, true_and, eq_comm]

/-! ## Memories that do not change -/

/-- Reads at one address always give the same answer. -/
def Stable (environment : Environment UInt8 VirtioError State)
    (memory : Nat → Except VirtioError (Vector UInt8 16)) : Prop :=
  ∀ state address, (environment.read state address 16).1 = memory address

/-- The path of links through a memory, with the indices that it visits. -/
inductive Path (table : DescriptorTable) (memory : Nat → Except VirtioError (Vector UInt8 16)) :
    UInt16 → List UInt16 → List VirtQueueDesc → Prop where
  | last {index : UInt16} {bytes : Vector UInt8 16} : index < table.size →
      memory (guestAddr table.baseAddr (index.toNat * 16)) = .ok bytes →
      (VirtQueueDesc.decode bytes).Acceptable →
      (VirtQueueDesc.decode bytes).hasNext = false →
      Path table memory index [index] [.decode bytes]
  | next {index : UInt16} {bytes : Vector UInt8 16} {indices : List UInt16}
      {rest : List VirtQueueDesc} :
      index < table.size →
      memory (guestAddr table.baseAddr (index.toNat * 16)) = .ok bytes →
      (VirtQueueDesc.decode bytes).Acceptable →
      (VirtQueueDesc.decode bytes).hasNext = true →
      Path table memory (VirtQueueDesc.decode bytes).next indices rest →
      Path table memory index (index :: indices) (.decode bytes :: rest)

namespace Path

variable {memory : Nat → Except VirtioError (Vector UInt8 16)} {index : UInt16}
  {indices : List UInt16} {path : List VirtQueueDesc}
  (isPath : Path table memory index indices path)
include isPath

theorem length_eq : path.length = indices.length := by
  induction isPath with
  | last => rfl
  | next _ _ _ _ _ ih => simp [ih]

private theorem lt_size : ∀ visited ∈ indices, visited < table.size := by
  induction isPath with
  | last inTable => simpa using inTable
  | next inTable _ _ _ _ ih =>
    intro visited member
    rcases List.mem_cons.mp member with rfl | member
    · exact inTable
    · exact ih visited member

theorem unique {indices' : List UInt16} {path' : List VirtQueueDesc}
    (isPath' : Path table memory index indices' path') : indices = indices' := by
  induction isPath generalizing indices' path' with
  | last _ found _ isLast =>
    cases isPath' with
    | last => rfl
    | next _ found' _ hasNext =>
      rw [found, Except.ok.injEq] at found'
      rw [← found', isLast] at hasNext
      exact absurd hasNext (by simp)
  | next _ found _ hasNext _ ih =>
    cases isPath' with
    | last _ found' _ isLast =>
      rw [found, Except.ok.injEq] at found'
      rw [← found', hasNext] at isLast
      exact absurd isLast (by simp)
    | next _ found' _ _ further' =>
      rw [found, Except.ok.injEq] at found'
      subst found'
      rw [ih further']

private theorem exists_suffix {visited : UInt16} (member : visited ∈ indices) :
    ∃ indices' path', Path table memory visited indices' path' ∧
      indices'.length ≤ indices.length := by
  induction isPath with
  | last inTable found acceptable isLast =>
    rw [List.mem_singleton] at member
    subst member
    exact ⟨_, _, .last inTable found acceptable isLast, le_refl _⟩
  | next inTable found acceptable hasNext further ih =>
    rcases List.mem_cons.mp member with rfl | member
    · exact ⟨_, _, .next inTable found acceptable hasNext further, le_refl _⟩
    rcases ih member with ⟨indices', path', suffix, short⟩
    refine ⟨indices', path', suffix, ?_⟩
    rw [List.length_cons]
    omega

theorem nodup : indices.Nodup := by
  induction isPath with
  | last => exact List.nodup_singleton _
  | next inTable found acceptable hasNext further ih =>
    rw [List.nodup_cons]
    refine ⟨?_, ih⟩
    intro member
    rcases further.exists_suffix member with ⟨indices', path', again, short⟩
    have whole := Path.next inTable found acceptable hasNext further
    have same := whole.unique again
    rw [← same, List.length_cons] at short
    omega

theorem length_le : path.length ≤ table.size.toNat := by
  have distinct : (indices.map UInt16.toNat).Nodup :=
    isPath.nodup.map (fun _ _ same => UInt16.toNat_inj.mp same)
  have bounded : (indices.map UInt16.toNat) ⊆ List.range table.size.toNat := by
    intro visited member
    rcases List.mem_map.mp member with ⟨index, visitedIndex, rfl⟩
    exact List.mem_range.mpr (UInt16.lt_iff_toNat_lt.mp (isPath.lt_size index visitedIndex))
  have short := (List.subperm_of_subset distinct bounded).length_le
  rw [List.length_map, List.length_range] at short
  rw [isPath.length_eq]
  exact short

end Path

/-- A memory that does not change presents its path of links. -/
private theorem presents_iff_path {memory : Nat → Except VirtioError (Vector UInt8 16)}
    (stable : Stable environment memory) (state : State) (index : UInt16)
    (path : List VirtQueueDesc) :
    Presents table environment state index path ↔
      ∃ indices, Path table memory index indices path := by
  constructor
  · intro presents
    induction presents with
    | last inTable answer acceptable isLast =>
      have found := stable _ _ ▸ congrArg Prod.fst answer
      exact ⟨_, .last inTable found acceptable isLast⟩
    | next inTable answer acceptable hasNext _ ih =>
      have found := stable _ _ ▸ congrArg Prod.fst answer
      rcases ih with ⟨indices, further⟩
      exact ⟨_, .next inTable found acceptable hasNext further⟩
  · rintro ⟨indices, isPath⟩
    induction isPath generalizing state with
    | last inTable found acceptable isLast =>
      exact .last inTable (Prod.ext ((stable _ _).trans found) rfl) acceptable isLast
    | next inTable found acceptable hasNext _ ih =>
      exact .next inTable (Prod.ext ((stable _ _).trans found) rfl) acceptable hasNext (ih _)

theorem Presents.acceptable {index : UInt16}
    (presents : Presents table environment state index path) : ∀ desc ∈ path, desc.Acceptable := by
  induction presents with
  | last _ _ acceptable => simpa using acceptable
  | next _ _ acceptable _ _ ih =>
    intro desc member
    rcases List.mem_cons.mp member with rfl | member
    · exact acceptable
    · exact ih desc member

/-- A chain starts at its head and has only acceptable descriptors. It has at most
as many descriptors as the table exactly if the memory does not present one more
while it is read. A memory that does not change returns a chain exactly if its path
of links ends, and the chain is that path; it visits no index twice. -/
theorem descriptorChain_length_le_iff (table : DescriptorTable)
    (environment : Environment UInt8 VirtioError State) (state : State) (head : UInt16) :
    (∀ chain, ((table.descriptorChain head).run environment state).1 = .ok chain →
      chain.head = head ∧ Presents table environment state head chain.descriptors ∧
        ∀ desc ∈ chain.descriptors, desc.isIndirect = false ∧
          desc.baseAddr + desc.len < guestAddresses) ∧
    ((∀ chain, ((table.descriptorChain head).run environment state).1 = .ok chain →
        chain.descriptors.length ≤ table.size.toNat) ↔
      ¬ (table.isValid = true ∧ ∃ path, Presents table environment state head path ∧
        path.length = table.size.toNat + 1)) ∧
    ∀ memory, Stable environment memory →
      (∀ chain, ((table.descriptorChain head).run environment state).1 = .ok chain ↔
        table.isValid = true ∧ chain.head = head ∧ ∃ indices,
          Path table memory head indices chain.descriptors) ∧
      ∀ indices path, Path table memory head indices path →
        indices.Nodup ∧ path.length ≤ table.size.toNat := by
  refine ⟨?_, ?_, ?_⟩
  · intro chain returned
    rw [run_descriptorChain_iff] at returned
    exact ⟨returned.2.1, returned.2.2.1, returned.2.2.1.acceptable⟩
  · constructor
    · rintro bounded ⟨valid, path, presents, long⟩
      have short := bounded ⟨head, path⟩ ((run_descriptorChain_iff state head _).mpr
          ⟨valid, rfl, presents, long.le⟩)
      dsimp only at short
      omega
    · intro never chain returned
      rw [run_descriptorChain_iff] at returned
      rcases returned with ⟨valid, _, presents, short⟩
      have notLong : chain.descriptors.length ≠ table.size.toNat + 1 :=
        fun long => never ⟨valid, _, presents, long⟩
      omega
  · intro memory stable
    refine ⟨fun chain => ?_, fun indices path isPath => ⟨isPath.nodup, isPath.length_le⟩⟩
    rw [run_descriptorChain_iff, presents_iff_path stable]
    refine and_congr_right fun _ => and_congr_right fun _ => and_iff_left_of_imp ?_
    rintro ⟨indices, isPath⟩
    exact isPath.length_le.trans (Nat.le_succ _)

/-- A descriptor without a buffer, with a link to index `0` until it is
rewritten. -/
def linkedBytes (rewritten : Bool) (length : Nat) : Vector UInt8 length :=
  Vector.ofFn (fun byte => if byte.val = 12 ∧ rewritten = false then 1 else 0)

/-- Two descriptors, the second one linked to the first. -/
def linkedMemory : Environment UInt8 VirtioError Unit where
  read := fun _ address length => (.ok (linkedBytes (address = 0x1000) length), ())
  write := fun _ _ _ => (.ok (), ())

theorem linkedMemory_chain : ((descriptorChain ⟨0x1000, 2⟩ 1).run linkedMemory ()).1 =
    .ok ⟨1, [.decode (linkedBytes false 16), .decode (linkedBytes true 16)]⟩ := by
  have stable : Stable linkedMemory fun address => .ok (linkedBytes (address = 0x1000) 16) :=
    fun _ _ => rfl
  have last : Path ⟨0x1000, 2⟩ (fun address => .ok (linkedBytes (address = 0x1000) 16)) 0 [0]
      [.decode (linkedBytes true 16)] :=
    .last (by decide) rfl (by decide) (by decide)
  have chains := ((descriptorChain_length_le_iff ⟨0x1000, 2⟩ linkedMemory () 1).2.2 _ stable).1
  exact (chains _).mpr ⟨rfl, rfl, [1, 0], .next (by decide) rfl (by decide) (by decide) last⟩

/-- A guest that takes the link out of its only descriptor after the first read. -/
def rewritingMemory : Environment UInt8 VirtioError Bool where
  read := fun rewritten _ length => (.ok (linkedBytes rewritten length), true)
  write := fun rewritten _ _ => (.ok (), rewritten)

/-- A table of one descriptor gives a chain of two. -/
theorem rewritingMemory_chain_too_long :
    ∃ chain, ((descriptorChain ⟨0x1000, 1⟩ 0).run rewritingMemory false).1 =
        .ok chain ∧ chain.descriptors.length = 2 := by
  have inTable : (0 : UInt16) < (DescriptorTable.mk 0x1000 1).size := by decide
  have second : Presents ⟨0x1000, 1⟩ rewritingMemory true 0 [.decode (linkedBytes true 16)] :=
    .last inTable rfl (by decide) (by decide)
  have both : Presents ⟨0x1000, 1⟩ rewritingMemory false 0
      [.decode (linkedBytes false 16), .decode (linkedBytes true 16)] :=
    .next inTable rfl (by decide) (by decide) second
  exact ⟨⟨0, _⟩, (run_descriptorChain_iff false 0 _).mpr ⟨rfl, rfl, both, by decide⟩, rfl⟩

end DescriptorTable

end TgosKits
