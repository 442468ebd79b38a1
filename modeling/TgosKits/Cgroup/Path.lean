import Mathlib.Data.List.Infix

/-!
# Paths between control groups

`/proc` shows a control group as a path that starts at the root of the reader's
namespace: `..` for each step up, then the names on the way down.
-/

namespace TgosKits

open Function List

inductive CgroupError where
  | invalidInput
  | alreadyExists
  | notFound
  deriving DecidableEq, Repr

structure CgroupNode where
  name : List Char
  /-- The parent holds its children, so the weak reference of a child can be upgraded. -/
  parent : Option Nat
  children : List Char → Option Nat

namespace CgroupNode

def dotDot : List Char := ['.', '.']

def isRefused (name : List Char) : Bool :=
  name.isEmpty || name == ['.'] || name == dotDot || name.contains '/'

def lookupChild (node : CgroupNode) (name : List Char) : Except CgroupError Nat :=
  match node.children name with
  | some child => .ok child
  | none => .error .notFound

theorem accepted {name : List Char} (ok : isRefused name = false) :
    name ≠ [] ∧ name ≠ dotDot ∧ '/' ∉ name := by
  simp only [isRefused, Bool.or_eq_false_iff, isEmpty_eq_false_iff, beq_eq_false_iff_ne,
    contains_eq_mem, decide_eq_false_iff_not] at ok
  exact ⟨ok.1.1.1, ok.1.2, ok.2⟩

end CgroupNode

open CgroupNode

/-- A hierarchy. A handle to a node is its number in the order of creation. -/
structure CgroupTree where
  count : Nat
  node : Nat → CgroupNode
  older : ∀ handle parent, (node handle).parent = some parent → parent < handle
  rooted : ∀ handle < count, (node handle).parent = none → handle = 0
  listed : ∀ handle < count, ∀ parent, (node handle).parent = some parent →
    (node parent).children (node handle).name = some handle ∧
      isRefused (node handle).name = false

namespace CgroupTree

def newRoot : CgroupTree where
  count := 1
  node := fun _ => ⟨[], none, fun _ => none⟩
  older := nofun
  rooted := by omega
  listed := nofun

variable (tree : CgroupTree)

def withChild (self : Nat) (name : List Char) : Nat → CgroupNode :=
  update (update tree.node self { tree.node self with
      children := update (tree.node self).children name (some tree.count) })
    tree.count ⟨name, some self, fun _ => none⟩

section

variable {tree} {self : Nat} {name : List Char}

theorem withChild_new : tree.withChild self name tree.count = ⟨name, some self, fun _ => none⟩ :=
  update_self ..

theorem withChild_old {handle : Nat} (old : handle ≠ tree.count) :
    (tree.withChild self name handle).name = (tree.node handle).name ∧
      (tree.withChild self name handle).parent = (tree.node handle).parent := by
  unfold withChild
  rw [update_of_ne old]
  by_cases same : handle = self
  · subst same
    simp
  · simp [same]

private theorem withChild_children {parent : Nat} {found : List Char} {handle : Nat}
    (free : (tree.node self).children name = none) (old : parent ≠ tree.count)
    (present : (tree.node parent).children found = some handle) :
    (tree.withChild self name parent).children found = some handle := by
  unfold withChild
  rw [update_of_ne old]
  by_cases same : parent = self
  · subst same
    have different : found ≠ name := by
      rintro rfl
      rw [free] at present
      cases present
    simp [different, present]
  · simpa [same] using present

end

def createChild (self : Fin tree.count) (name : List Char) :
    Except CgroupError (Nat × CgroupTree) :=
  if refused : isRefused name then .error .invalidInput
  else match free : (tree.node self).children name with
    | some _ => .error .alreadyExists
    | none => .ok (tree.count,
      { count := tree.count + 1
        node := tree.withChild self name
        older := by
          intro handle parent isParent
          by_cases new : handle = tree.count
          · subst new
            rw [withChild_new] at isParent
            cases isParent
            exact self.isLt
          · rw [(withChild_old new).2] at isParent
            exact tree.older handle parent isParent
        rooted := by
          intro handle inside orphan
          by_cases new : handle = tree.count
          · subst new
            rw [withChild_new] at orphan
            cases orphan
          · rw [(withChild_old new).2] at orphan
            exact tree.rooted handle (by omega) orphan
        listed := by
          intro handle inside parent isParent
          by_cases new : handle = tree.count
          · subst new
            rw [withChild_new] at isParent ⊢
            cases isParent
            have old := self.isLt.ne
            simp [withChild, old, refused]
          · rw [(withChild_old new).2] at isParent
            rw [(withChild_old new).1]
            have below := tree.older handle parent isParent
            have known := tree.listed handle (by omega) parent isParent
            exact ⟨withChild_children free (by omega) known.1, known.2⟩ })

/-- The node itself, then its parents up to the root. -/
def ancestry (handle : Nat) : List Nat :=
  handle :: match _ : (tree.node handle).parent with
    | none => []
    | some parent => ancestry parent
termination_by handle
decreasing_by exact tree.older handle parent ‹_›

/-- The loop over the two lists from their ends: how many nodes of each are not shared. -/
def unique (rootPath targetPath : List Nat) : Nat → Nat → Nat × Nat
  | rootUnique + 1, targetUnique + 1 =>
    if rootPath[rootUnique]? = targetPath[targetUnique]? then
      unique rootPath targetPath rootUnique targetUnique
    else (rootUnique + 1, targetUnique + 1)
  | rootUnique, targetUnique => (rootUnique, targetUnique)

def pushClimb (path : List Char) (index : Nat) : List Char :=
  (if index ≠ 0 then path ++ ['/'] else path) ++ dotDot

def pushName (path name : List Char) : List Char :=
  (if path ≠ ['/'] ∧ path.getLast? ≠ some '/' then path ++ ['/'] else path) ++ name

def relativePath (root target : Nat) : List Char :=
  if root = target then ['/']
  else
    let rootPath := tree.ancestry root
    let targetPath := tree.ancestry target
    let (rootUnique, targetUnique) :=
      unique rootPath targetPath rootPath.length targetPath.length
    let path := (range rootUnique).foldl pushClimb ['/']
    (targetPath.take targetUnique).reverse.foldl
      (fun path handle => pushName path (tree.node handle).name) path

/-- What stands between the separators; a separator alone has nothing to follow. -/
def components (path : List Char) : List (List Char) :=
  if path = ['/'] then [] else (path.drop 1).splitOn '/'

def followOne (handle : Nat) (component : List Char) : Option Nat :=
  if component = dotDot then (tree.node handle).parent
  else ((tree.node handle).lookupChild component).toOption

def follow (handle : Nat) (path : List (List Char)) : Option Nat :=
  path.foldlM tree.followOne handle

/-- The lowest node that stands above both, or is one of them. -/
structure DeepestCommon (root target meet : Nat) : Prop where
  aboveRoot : meet ∈ tree.ancestry root
  aboveTarget : meet ∈ tree.ancestry target
  deepest : ∀ common ∈ tree.ancestry root, common ∈ tree.ancestry target →
    common ∈ tree.ancestry meet

/-! ## The text of a path -/

/-- Every component behind a separator; without components the separator alone. -/
def render : List (List Char) → List Char
  | [] => ['/']
  | parts => parts.flatMap ('/' :: ·)

section Rendering

variable {parts : List (List Char)} {name : List Char}

theorem render_concat (parts : List (List Char)) (nonempty : parts ≠ []) :
    render (parts ++ [name]) = render parts ++ '/' :: name := by
  cases parts with
  | nil => exact absurd rfl nonempty
  | cons part rest => simp [render]

theorem foldl_pushClimb (climbs : Nat) :
    (range climbs).foldl pushClimb ['/'] = render (replicate climbs dotDot) := by
  induction climbs with
  | zero => rfl
  | succ climbs ih =>
    rw [range_succ, foldl_concat, ih]
    cases climbs with
    | zero => rfl
    | succ climbs =>
      rw [replicate_succ' (n := climbs + 1),
        render_concat (replicate (climbs + 1) dotDot) (by simp)]
      simp [pushClimb]

private theorem pushName_render (plain : ∀ part ∈ parts, part ≠ [] ∧ '/' ∉ part) :
    pushName (render parts) name = render (parts ++ [name]) := by
  rcases eq_nil_or_concat' parts with rfl | ⟨before, last, rfl⟩
  · simp [pushName, render]
  · have ⟨nonempty, noSeparator⟩ := plain last (by simp)
    have closed : (render (before ++ [last])).getLast? = some (last.getLast nonempty) := by
      cases before <;>
        simp [render, getLast?_append, getLast?_cons, getLast?_eq_some_getLast nonempty]
    have open' : (render (before ++ [last])).getLast? ≠ some '/' := by
      rw [closed]
      intro same
      exact noSeparator (Option.some.inj same ▸ getLast_mem nonempty)
    have notRoot : render (before ++ [last]) ≠ ['/'] := by
      intro same
      rw [same] at open'
      exact open' rfl
    rw [render_concat (before ++ [last]) (by simp), pushName, if_pos ⟨notRoot, open'⟩, append_assoc]
    rfl

private theorem splitOn_flatMap (plain : ∀ part ∈ name :: parts, '/' ∉ part) :
    (name ++ parts.flatMap ('/' :: ·)).splitOn '/' = name :: parts := by
  induction parts generalizing name with
  | nil => simpa using splitOn_eq_singleton (plain name (by simp))
  | cons part rest ih =>
    rw [flatMap_cons, cons_append, splitOn_append_cons_self_of_not_mem (plain name (by simp)),
      ih fun part member => plain part (mem_cons_of_mem _ member)]

variable (plain : ∀ part ∈ parts, part ≠ [] ∧ '/' ∉ part)
include plain

theorem components_render : components (render parts) = parts := by
  cases parts with
  | nil => rfl
  | cons part rest =>
    have notRoot : render (part :: rest) ≠ ['/'] := by
      simp [render, (plain part (by simp)).1]
    rw [components, if_neg notRoot]
    simp only [render, flatMap_cons, cons_append, drop_succ_cons, drop_zero]
    exact splitOn_flatMap fun part member => (plain part member).2

theorem foldl_pushName {names : Nat → List Char} {handles : List Nat}
    (named : ∀ handle ∈ handles, names handle ≠ [] ∧ '/' ∉ names handle) :
    handles.foldl (fun path handle => pushName path (names handle)) (render parts) =
      render (parts ++ handles.map names) := by
  induction handles generalizing parts with
  | nil => simp
  | cons handle rest ih =>
    have plainHere : ∀ part ∈ parts ++ [names handle], part ≠ [] ∧ '/' ∉ part := by
      intro part member
      rcases mem_append.mp member with old | new
      · exact plain part old
      · rw [mem_singleton.mp new]
        exact named handle mem_cons_self
    rw [foldl_cons, pushName_render plain,
      ih plainHere fun other member => named other (mem_cons_of_mem handle member),
      map_cons, append_assoc, singleton_append]

end Rendering

/-! ## The way up and down -/

section

variable {tree} {target handle first meet : Nat} {before rest : List Nat}

theorem ancestry_eq_cons (chain : tree.ancestry handle = first :: rest) :
    handle = first ∧ ((tree.node handle).parent = none ∧ rest = [] ∨
      ∃ parent, (tree.node handle).parent = some parent ∧ tree.ancestry parent = rest) := by
  rw [ancestry] at chain
  split at chain
  · rename_i orphan
    cases chain
    exact ⟨rfl, .inl ⟨orphan, rfl⟩⟩
  · rename_i parent isParent
    cases chain
    exact ⟨rfl, .inr ⟨parent, isParent, rfl⟩⟩

theorem ancestry_eq_cons_append (chain : tree.ancestry handle = first :: before ++ meet :: rest) :
    handle = first ∧ ∃ parent, (tree.node handle).parent = some parent ∧
      tree.ancestry parent = before ++ meet :: rest := by
  rcases ancestry_eq_cons chain with ⟨same, ⟨-, nothing⟩ | up⟩
  · simp at nothing
  · exact ⟨same, up⟩

section

variable (chain : tree.ancestry handle = before ++ meet :: rest)
include chain

theorem ancestry_of_append : tree.ancestry meet = meet :: rest := by
  induction before generalizing handle with
  | nil =>
    obtain ⟨rfl, -⟩ := ancestry_eq_cons chain
    exact chain
  | cons first before ih =>
    obtain ⟨-, parent, -, up⟩ := ancestry_eq_cons_append chain
    exact ih up

theorem follow_up : tree.follow handle (replicate before.length dotDot) = some meet := by
  induction before generalizing handle with
  | nil =>
    obtain ⟨rfl, -⟩ := ancestry_eq_cons chain
    rfl
  | cons first before ih =>
    obtain ⟨-, parent, isParent, up⟩ := ancestry_eq_cons_append chain
    rw [length_cons, replicate_succ, follow, foldlM_cons, followOne, if_pos rfl, isParent]
    exact ih up

end

/-- The names of the nodes below `meet` lead back down, and none of them is special. -/
private theorem follow_down (inside : target < tree.count)
    (chain : tree.ancestry target = before ++ meet :: rest) :
    tree.follow meet (before.reverse.map (tree.node · |>.name)) = some target ∧
      ∀ handle ∈ before, isRefused (tree.node handle).name = false := by
  induction before generalizing target with
  | nil =>
    obtain ⟨rfl, -⟩ := ancestry_eq_cons chain
    exact ⟨rfl, nofun⟩
  | cons first before ih =>
    obtain ⟨rfl, parent, isParent, up⟩ := ancestry_eq_cons_append chain
    have below := tree.older target parent isParent
    obtain ⟨reached, plain⟩ := ih (by omega) up
    obtain ⟨known, ok⟩ := tree.listed target inside parent isParent
    constructor
    · rw [follow] at reached ⊢
      rw [reverse_cons, map_append, foldlM_append, reached]
      simp [followOne, lookupChild, known, (accepted ok).2.1, Except.toOption]
    · intro handle member
      rcases mem_cons.mp member with rfl | old
      · exact ok
      · exact plain handle old

theorem ancestry_ends (inside : handle < tree.count) :
    ∃ before, tree.ancestry handle = before ++ [0] := by
  induction handle using Nat.strong_induction_on with
  | _ handle ih =>
    rw [ancestry]
    split
    · rename_i orphan
      rw [tree.rooted handle inside orphan]
      exact ⟨[], rfl⟩
    · rename_i parent isParent
      have below := tree.older handle parent isParent
      obtain ⟨before, up⟩ := ih parent below (by omega)
      exact ⟨handle :: before, by rw [up]; rfl⟩

end

/-! ## Where two lines part -/

/-- Two lines with a shared end that cannot be longer. -/
structure Parted (rootPath targetPath up down shared : List Nat) : Prop where
  rootEq : rootPath = up ++ shared
  targetEq : targetPath = down ++ shared
  apart : ∀ upper lower handle, up = upper ++ [handle] → down ≠ lower ++ [handle]

private theorem unique_parts {rootPath targetPath up down shared : List Nat}
    (rootEq : rootPath = up ++ shared) (targetEq : targetPath = down ++ shared) :
    ∃ up' down' shared', Parted rootPath targetPath up' down' shared' ∧
      unique rootPath targetPath up.length down.length = (up'.length, down'.length) := by
  induction up using reverseRecOn generalizing down shared with
  | nil =>
    refine ⟨[], down, shared, ⟨rootEq, targetEq, ?_⟩, by simp [unique]⟩
    intro upper lower handle impossible
    simp at impossible
  | append_singleton upper last ih =>
    rcases eq_nil_or_concat' down with rfl | ⟨lower, other, rfl⟩
    · refine ⟨upper ++ [last], [], shared, ⟨rootEq, targetEq, ?_⟩, by simp [unique]⟩
      intro upper lower handle _
      simp
    · have rootLast : rootPath[upper.length]? = some last := by simp [rootEq]
      have targetLast : targetPath[lower.length]? = some other := by simp [targetEq]
      rw [length_append, length_append, length_singleton, length_singleton, unique, rootLast,
        targetLast]
      split_ifs with same
      · obtain rfl := Option.some.inj same
        have rootSplit : rootPath = upper ++ last :: shared := by simpa using rootEq
        exact ih rootSplit (by simpa using targetEq)
      · refine ⟨upper ++ [last], lower ++ [other], shared, ⟨rootEq, targetEq, ?_⟩, by simp⟩
        intro _ _ handle rootEnds targetEnds
        have rootEnd := (append_inj' rootEnds rfl).2
        have targetEnd := (append_inj' targetEnds rfl).2
        exact same (by simp_all)

private theorem deepestCommon {root target meet : Nat} {up down rest : List Nat}
    (parted : Parted (tree.ancestry root) (tree.ancestry target) up down (meet :: rest)) :
    tree.DeepestCommon root target meet := by
  obtain ⟨rootEq, targetEq, apart⟩ := parted
  refine ⟨by simp [rootEq], by simp [targetEq], ?_⟩
  intro common inRoot inTarget
  rw [ancestry_of_append rootEq]
  obtain ⟨upper, above, rootSplit⟩ := append_of_mem inRoot
  obtain ⟨lower, above', targetSplit⟩ := append_of_mem inTarget
  obtain ⟨-, rfl⟩ := cons_eq_cons.mp
    ((ancestry_of_append rootSplit).symm.trans (ancestry_of_append targetSplit))
  rcases append_eq_append_iff.mp (rootEq.symm.trans rootSplit) with
    ⟨middle, -, sharedEq⟩ | ⟨middle, upEq, commonEq⟩
  · simp [sharedEq]
  · rcases eq_nil_or_concat' middle with rfl | ⟨middle, last, rfl⟩
    · rw [nil_append] at commonEq
      simp [← commonEq]
    -- The lines would share one more node.
    · have downEq : down = lower ++ (middle ++ [last]) := by
        rw [targetSplit, commonEq, ← append_assoc] at targetEq
        exact (append_cancel_right targetEq).symm
      exact absurd (downEq.trans (append_assoc ..).symm)
        (apart _ _ last (upEq.trans (append_assoc ..).symm))

/-! ## The path -/

private theorem components_relativePath {root target : Nat} {up down shared : List Nat}
    (different : root ≠ target)
    (parted : Parted (tree.ancestry root) (tree.ancestry target) up down shared)
    (counted : unique (tree.ancestry root) (tree.ancestry target) (tree.ancestry root).length
      (tree.ancestry target).length = (up.length, down.length))
    (ok : ∀ handle ∈ down, isRefused (tree.node handle).name = false) :
    components (tree.relativePath root target) =
      replicate up.length dotDot ++ down.reverse.map (tree.node · |>.name) := by
  have climbs : ∀ part ∈ replicate up.length dotDot, part ≠ [] ∧ '/' ∉ part := by
    intro part member
    rw [eq_of_mem_replicate member]
    decide
  have named : ∀ handle ∈ down.reverse,
      (tree.node handle).name ≠ [] ∧ '/' ∉ (tree.node handle).name := by
    intro handle member
    obtain ⟨nonempty, -, noSeparator⟩ := accepted (ok handle (mem_reverse.mp member))
    exact ⟨nonempty, noSeparator⟩
  have path : tree.relativePath root target =
      render (replicate up.length dotDot ++ down.reverse.map (tree.node · |>.name)) := by
    simp only [relativePath, if_neg different, counted, foldl_pushClimb]
    rw [parted.targetEq, take_left, foldl_pushName climbs named]
  rw [path]
  apply components_render
  intro part member
  rcases mem_append.mp member with climb | name
  · exact climbs part climb
  · obtain ⟨handle, inDown, rfl⟩ := mem_map.mp name
    exact named handle inDown

/-- The path from `root` to `target` climbs to the deepest common node and no higher,
and following it leads to `target`. -/
theorem relativePath_leads (root target : Fin tree.count) : ∃ climbs names meet,
    components (tree.relativePath root target) = replicate climbs dotDot ++ names ∧
      dotDot ∉ names ∧ tree.follow root (replicate climbs dotDot) = some meet ∧
      tree.DeepestCommon root target meet ∧
      tree.follow root (components (tree.relativePath root target)) = some target.val := by
  by_cases different : root.val = target.val
  · have path : components (tree.relativePath root target) = [] := by
      rw [relativePath, if_pos different]
      rfl
    have own : root.val ∈ tree.ancestry root := by
      rw [ancestry]
      exact mem_cons_self
    refine ⟨0, [], root, path, not_mem_nil, rfl, ⟨own, different ▸ own, fun _ above _ => above⟩, ?_⟩
    rw [path, ← different]
    rfl
  obtain ⟨up, down, shared, parted, counted⟩ := unique_parts
    (append_nil (tree.ancestry root)).symm (append_nil (tree.ancestry target)).symm
  -- Both lines end in the root of the hierarchy, so they share something.
  obtain ⟨upper, rootEnds⟩ := tree.ancestry_ends root.isLt
  obtain ⟨lower, targetEnds⟩ := tree.ancestry_ends target.isLt
  cases shared with
  | nil =>
    have rootEq := parted.rootEq.symm.trans rootEnds
    have targetEq := parted.targetEq.symm.trans targetEnds
    rw [append_nil] at rootEq targetEq
    exact absurd targetEq (parted.apart _ _ _ rootEq)
  | cons meet rest =>
    have ⟨reached, ok⟩ := follow_down target.isLt parted.targetEq
    have path := tree.components_relativePath different parted counted ok
    have climbed := follow_up parted.rootEq
    refine ⟨up.length, _, meet, path, ?_, climbed, tree.deepestCommon parted, ?_⟩
    · intro member
      obtain ⟨handle, inDown, same⟩ := mem_map.mp member
      exact (accepted (ok handle (mem_reverse.mp inDown))).2.1 same
    · rw [follow] at climbed reached
      rw [path, follow, foldlM_append, climbed]
      exact reached

end CgroupTree

end TgosKits
