import Mathlib.Data.List.Range

/-! # Maps given by runs -/

namespace TgosKits

open List

/-- Keys in a row, mapped to targets in a row. -/
structure Run (State : Type) where
  first : Nat
  count : Nat
  target : Nat
  state : State
  deriving DecidableEq, Repr

namespace Run

variable {State : Type} (run : Run State)

def stop : Nat := run.first + run.count

def covers (key : Nat) : Bool :=
  decide (run.first ≤ key) && decide (key < run.stop)

def value (key : Nat) : Nat × State := (run.target + (key - run.first), run.state)

theorem covers_iff {run : Run State} {key : Nat} :
    run.covers key = true ↔ run.first ≤ key ∧ key < run.stop := by
  simp [covers]

def slice (first skip count : Nat) : Run State :=
  ⟨first, count, run.target + skip, run.state⟩

/-- The targets of the part of the run inside `[start, stop)`. -/
def targetsBetween (start stop : Nat) : List Nat :=
  range' (run.target + (max start run.first - run.first)) (min stop run.stop - max start run.first)

theorem targetsBetween_eq_nil {run : Run State} {start stop : Nat}
    (apart : min stop run.stop ≤ max start run.first) : run.targetsBetween start stop = [] := by
  rw [targetsBetween, Nat.sub_eq_zero_of_le apart]
  rfl

/-- The part before `start` stays, the part from `source` on moves to `dest`. -/
def relocate (start source dest : Nat) : List (Run State) :=
  (if run.first < start then
    [run.slice run.first 0 (min run.stop start - run.first)]
  else []) ++
  (if source < run.stop then
    [run.slice (dest + (max run.first source - source))
      (max run.first source - run.first) (run.stop - max run.first source)]
  else [])

end Run

namespace RunMap

variable {State : Type} {start count : Nat}

/-- The value in the first run that covers the key. -/
def lookup (runs : List (Run State)) (key : Nat) : Option (Nat × State) :=
  (runs.find? (·.covers key)).map (·.value key)

/-- No run is empty and every run ends before the next one starts. -/
structure Ordered (runs : List (Run State)) : Prop where
  apart : runs.Pairwise fun left right => left.stop ≤ right.first
  nonempty : ∀ run ∈ runs, 0 < run.count

variable {runs left right : List (Run State)} {run : Run State} {key : Nat}

@[simp]
theorem lookup_nil : lookup ([] : List (Run State)) key = none :=
  rfl

theorem lookup_cons : lookup (run :: runs) key =
      if run.covers key then some (run.value key) else lookup runs key := by
  unfold lookup
  rw [find?_cons]
  cases run.covers key <;> rfl

theorem lookup_append : lookup (left ++ right) key = (lookup left key).or (lookup right key) := by
  induction left with
  | nil => rfl
  | cons run left ih =>
    rw [cons_append, lookup_cons, lookup_cons, ih]
    cases run.covers key <;> rfl

theorem lookup_eq_none_iff : lookup runs key = none ↔ ∀ run ∈ runs, run.covers key = false := by
  simp [lookup]

theorem lookup_eq_none_of_lt (behind : ∀ run ∈ runs, key < run.first) : lookup runs key = none := by
  rw [lookup_eq_none_iff]
  intro run member
  have order := behind run member
  simp [Run.covers]
  omega

theorem lookup_eq_none_of_le (before : ∀ run ∈ runs, run.stop ≤ key) : lookup runs key = none := by
  rw [lookup_eq_none_iff]
  intro run member
  have order := before run member
  simp [Run.covers]
  omega

theorem ordered_nil : Ordered ([] : List (Run State)) := ⟨.nil, by simp⟩

theorem ordered_cons : Ordered (run :: runs) ↔
      0 < run.count ∧ (∀ other ∈ runs, run.stop ≤ other.first) ∧ Ordered runs := by
  constructor
  · intro ordered
    have parts := pairwise_cons.mp ordered.apart
    have nonempty := forall_mem_cons.mp ordered.nonempty
    exact ⟨nonempty.1, parts.1, parts.2, nonempty.2⟩
  · intro ⟨positive, before, ordered⟩
    exact ⟨pairwise_cons.mpr ⟨before, ordered.apart⟩,
      forall_mem_cons.mpr ⟨positive, ordered.nonempty⟩⟩

theorem ordered_append : Ordered (left ++ right) ↔ Ordered left ∧ Ordered right ∧
      ∀ before ∈ left, ∀ behind ∈ right, before.stop ≤ behind.first := by
  constructor
  · intro ordered
    rcases pairwise_append.mp ordered.apart with ⟨leftApart, rightApart, across⟩
    have nonempty := forall_mem_append.mp ordered.nonempty
    exact ⟨⟨leftApart, nonempty.1⟩, ⟨rightApart, nonempty.2⟩, across⟩
  · intro ⟨leftOrdered, rightOrdered, across⟩
    exact ⟨pairwise_append.mpr ⟨leftOrdered.apart, rightOrdered.apart, across⟩,
      forall_mem_append.mpr ⟨leftOrdered.nonempty, rightOrdered.nonempty⟩⟩

def targetsIn (runs : List (Run State)) (start count : Nat) : List Nat :=
  (range' start count).filterMap fun key =>
    (lookup runs key).map Prod.fst

theorem targetsIn_append_range {first second : Nat} : targetsIn runs start (first + second) =
      targetsIn runs start first ++ targetsIn runs (start + first) second := by
  unfold targetsIn
  rw [← range'_append_1, filterMap_append]

theorem targetsIn_eq_nil
    (unmapped : ∀ key, start ≤ key → key < start + count → lookup runs key = none) :
    targetsIn runs start count = [] := by
  unfold targetsIn
  rw [filterMap_eq_nil_iff]
  intro key member
  rw [mem_range'_1] at member
  rw [unmapped key member.1 member.2]
  rfl

private theorem targetsIn_of_covered
    (found : ∀ key, start ≤ key → key < start + count → lookup runs key = some (run.value key))
    (first : run.first ≤ start) :
    targetsIn runs start count = range' (run.target + (start - run.first)) count := by
  induction count generalizing start with
  | zero => rfl
  | succ count ih =>
    have split := @targetsIn_append_range State start runs 1 count
    rw [Nat.add_comm count 1, split,
      ih (fun key lower upper => found key (by omega) (by omega)) (by omega),
      Nat.add_comm 1 count, range'_succ]
    have next : run.target + (start + 1 - run.first) =
        run.target + (start - run.first) + 1 := by omega
    have here : targetsIn runs start 1 = [run.target + (start - run.first)] := by
      simp [targetsIn, found start (le_refl _) (by omega), Run.value]
    rw [here, next]
    rfl

/-- The targets of a range are those of the parts of the runs inside it. -/
theorem targetsIn_eq_flatMap {stop : Nat} (ordered : Ordered runs) (order : start ≤ stop) :
    targetsIn runs start (stop - start) = runs.flatMap (·.targetsBetween start stop) := by
  induction runs with
  | nil => exact targetsIn_eq_nil fun _ _ _ => rfl
  | cons run runs ih =>
    rcases ordered_cons.mp ordered with ⟨_, before, rest⟩
    rw [flatMap_cons, ← ih rest]
    -- the range is cut where the run starts and where it ends
    generalize lowerEq : min stop (max start run.first) = lower
    generalize upperEq : min stop (max start run.stop) = upper
    have runOrder : run.first ≤ run.stop := Nat.le_add_right _ _
    have none : ∀ key, key < run.stop → lookup runs key = none := by
      intro key inside
      refine lookup_eq_none_of_lt fun other member => ?_
      have := before other member
      omega
    have cut : stop - start = (lower - start) + ((upper - lower) + (stop - upper)) := by omega
    have toLower : start + (lower - start) = lower := by omega
    have toUpper : lower + (upper - lower) = upper := by omega
    have ofRun : targetsIn (run :: runs) start (stop - start) =
        targetsIn (run :: runs) lower (upper - lower) ++
          targetsIn (run :: runs) upper (stop - upper) := by
      rw [cut, targetsIn_append_range, targetsIn_append_range, toLower, toUpper]
      have ahead : targetsIn (run :: runs) start (lower - start) = [] := by
        refine targetsIn_eq_nil fun key low high => ?_
        rw [lookup_cons, if_neg, none key (by omega)]
        rw [Run.covers_iff]
        omega
      rw [ahead, nil_append]
    have ofRest : targetsIn runs start (stop - start) = targetsIn runs upper (stop - upper) := by
      have cutRest : stop - start = (upper - start) + (stop - upper) := by omega
      have toEnd : start + (upper - start) = upper := by omega
      rw [cutRest, targetsIn_append_range, toEnd]
      have ahead : targetsIn runs start (upper - start) = [] :=
        targetsIn_eq_nil fun key low high => none key (by omega)
      rw [ahead, nil_append]
    rw [ofRun, ofRest]
    congr 1
    · rcases lt_or_ge lower upper with inside | outside
      · rw [targetsIn_of_covered (fun key low high => ?_)
          (show run.first ≤ lower by omega), Run.targetsBetween]
        · congr 1 <;> omega
        · rw [lookup_cons, if_pos (Run.covers_iff.mpr ⟨by omega, by omega⟩)]
      · rw [show upper - lower = 0 by omega, Run.targetsBetween_eq_nil (by omega)]
        rfl
    · refine filterMap_congr fun key member => ?_
      rw [mem_range'_1] at member
      rw [lookup_cons, if_neg]
      rw [Run.covers_iff]
      omega

/-! ## Relocation -/

variable {start source dest : Nat}

theorem lookup_singleton :
    lookup [run] key = if run.covers key then some (run.value key) else none :=
  lookup_cons

private theorem lookup_kept : lookup (if run.first < start then
        [run.slice run.first 0 (min run.stop start - run.first)] else []) key =
      if key < start ∧ run.covers key = true then some (run.value key)
      else none := by
  by_cases before : run.first < start
  · rw [if_pos before, lookup_singleton]
    have same : (run.slice run.first 0 (min run.stop start - run.first)).covers key = true ↔
        key < start ∧ run.covers key = true := by
      rw [Run.covers_iff, Run.covers_iff]
      simp only [Run.slice, Run.stop]
      omega
    simp only [same]
    rfl
  · have outside : ¬ (key < start ∧ run.covers key = true) := by
      rw [Run.covers_iff]
      omega
    rw [if_neg before, if_neg outside, lookup_nil]

private theorem lookup_moved : lookup (if source < run.stop then
        [run.slice (dest + (max run.first source - source)) (max run.first source - run.first)
          (run.stop - max run.first source)] else []) key =
      if dest ≤ key ∧ run.covers (source + (key - dest)) = true then
        some (run.value (source + (key - dest)))
      else none := by
  by_cases behind : source < run.stop
  · rw [if_pos behind, lookup_singleton]
    have same : (run.slice (dest + (max run.first source - source))
        (max run.first source - run.first) (run.stop - max run.first source)).covers key = true ↔
        dest ≤ key ∧ run.covers (source + (key - dest)) = true := by
      rw [Run.covers_iff, Run.covers_iff]
      simp only [Run.slice, Run.stop]
      omega
    simp only [same]
    split_ifs with inside
    · rw [Run.covers_iff] at inside
      simp only [Run.value, Run.slice, Option.some.injEq, Prod.mk.injEq, and_true]
      omega
    · rfl
  · have outside : ¬ (dest ≤ key ∧ run.covers (source + (key - dest)) = true) := by
      rw [Run.covers_iff]
      omega
    rw [if_neg behind, if_neg outside, lookup_nil]

variable (room : start ≤ dest)
include room

theorem lookup_relocate_runs :
    lookup (runs.flatMap (·.relocate start source dest)) key = if key < start then lookup runs key
      else if key < dest then none
      else lookup runs (source + (key - dest)) := by
  induction runs with
  | nil =>
    split_ifs <;> rfl
  | cons run runs ih =>
    rw [flatMap_cons, lookup_append, ih, Run.relocate, lookup_append,
      lookup_kept, lookup_moved, lookup_cons, lookup_cons]
    by_cases early : key < start
    · have notMoved : ¬ (dest ≤ key ∧ run.covers (source + (key - dest)) = true) := by omega
      simp only [early, true_and, if_true, notMoved, if_false]
      cases run.covers key <;> rfl
    simp only [early, false_and, if_false, Option.none_or]
    by_cases gap : key < dest
    · have notMoved : ¬ (dest ≤ key ∧ run.covers (source + (key - dest)) = true) := by omega
      simp only [notMoved, gap, if_true, if_false]
      rfl
    · have late : dest ≤ key := by omega
      simp only [late, true_and, gap, if_false]
      cases run.covers (source + (key - dest)) <;> rfl

theorem mem_relocate {piece : Run State} (order : start ≤ source)
    (member : piece ∈ run.relocate start source dest) (positive : 0 < run.count) :
    0 < piece.count ∧ (piece.stop ≤ start ∧ run.first ≤ piece.first ∧ piece.stop ≤ run.stop ∨
        dest ≤ piece.first ∧ source < run.stop ∧ dest + (run.first - source) ≤ piece.first ∧
          piece.stop ≤ dest + (run.stop - source)) := by
  have length : run.stop = run.first + run.count := rfl
  simp only [Run.relocate, mem_append, mem_ite_nil_right, mem_singleton] at member
  rcases member with ⟨before, rfl⟩ | ⟨behind, rfl⟩
  all_goals
    simp only [Run.slice, Run.stop]
    omega

theorem ordered_relocate (order : start ≤ source) (ordered : Ordered runs) :
    Ordered (runs.flatMap (·.relocate start source dest)) := by
  induction runs with
  | nil => exact ordered_nil
  | cons run runs ih =>
    rcases ordered_cons.mp ordered with ⟨positive, before, rest⟩
    rw [flatMap_cons, ordered_append]
    refine ⟨?_, ih rest, ?_⟩
    · refine ⟨?_, fun piece member =>
        (mem_relocate room order member positive).1⟩
      unfold Run.relocate
      split_ifs
      · simp only [cons_append, nil_append, pairwise_cons,
          mem_singleton, forall_eq, not_mem_nil, false_implies,
          implies_true, List.Pairwise.nil, and_true, Run.slice, Run.stop]
        omega
      all_goals simp
    · intro piece member other otherMember
      rcases mem_flatMap.mp otherMember with ⟨next, nextMember, inNext⟩
      have apart := before next nextMember
      have nextPositive := rest.nonempty next nextMember
      have pieceIn := mem_relocate room order member positive
      have otherIn := mem_relocate room order inNext nextPositive
      have otherLength : other.stop = other.first + other.count := rfl
      omega

end RunMap

end TgosKits
