
/-!
# Programs over a memory that somebody else may change

A program is the tree of the accesses it makes: each answer that the memory may give
continues it.
-/

/-- The accesses of a program and what it does with the answers. -/
inductive AccessTree (Byte Err Result : Type) where
  | result (value : Result)
  | read (address length : Nat)
      (next : Except Err (Vector Byte length) → AccessTree Byte Err Result)
  | write (address : Nat) (data : List Byte) (next : Except Err Unit → AccessTree Byte Err Result)

namespace AccessTree

variable {Byte Err Result Other : Type}

def bind (tree : AccessTree Byte Err Result)
    (next : Result → AccessTree Byte Err Other) : AccessTree Byte Err Other :=
  match tree with
  | .result value => next value
  | .read address length answer =>
    .read address length (fun reply => bind (answer reply) next)
  | .write address data answer =>
    .write address data (fun reply => bind (answer reply) next)

instance : Monad (AccessTree Byte Err) where
  pure := .result
  bind := bind

/-! ## Environments -/

/-- A memory with contents of its own, which may change with every access. -/
structure Environment (Byte Err State : Type) where
  read : State → Nat → (length : Nat) → Except Err (Vector Byte length) × State
  write : State → Nat → List Byte → Except Err Unit × State

variable {State : Type}

def run (environment : Environment Byte Err State) (state : State) :
    AccessTree Byte Err Result → Result × State
  | .result value => (value, state)
  | .read address length next =>
    let (reply, state) := environment.read state address length
    run environment state (next reply)
  | .write address data next =>
    let (reply, state) := environment.write state address data
    run environment state (next reply)

variable (environment : Environment Byte Err State) (state : State)
include environment state

@[simp]
theorem run_result (value : Result) :
    (.result value : AccessTree Byte Err Result).run environment state = (value, state) :=
  rfl

theorem run_bind (tree : AccessTree Byte Err Result) (next : Result → AccessTree Byte Err Other) :
    (tree.bind next).run environment state = (next (tree.run environment state).1).run environment
        (tree.run environment state).2 := by
  induction tree generalizing state with
  | result value => rfl
  | read _ _ _ ih | write _ _ _ ih => exact ih _ _

end AccessTree
