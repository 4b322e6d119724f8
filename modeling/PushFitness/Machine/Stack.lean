/-!
# One stack

A stack is a list with its top first. The moves here rearrange a stack without
looking at its items, so they are the same for every kind of item. A move that
finds too few items leaves the stack alone.
-/

namespace PushFitness.Stack

variable {α : Type}

def pop : List α → List α := List.tail

def dup : List α → List α
  | [] => []
  | x :: xs => x :: x :: xs

def swap : List α → List α
  | x :: y :: xs => y :: x :: xs
  | xs => xs

/-- Brings the third item to the top. -/
def rot : List α → List α
  | x :: y :: z :: xs => z :: x :: y :: xs
  | xs => xs

/-- A depth cut to the range from the top to the item at depth `last`. -/
def clamp (depth : Int) (last : Nat) : Nat := min depth.toNat last

/-- Moves the item at a depth to the top. -/
def yank (depth : Int) (xs : List α) : List α :=
  let i := clamp depth (xs.length - 1)
  match xs[i]? with
  | some x => x :: xs.eraseIdx i
  | none => xs

/-- Copies the item at a depth to the top. -/
def yankDup (depth : Int) (xs : List α) : List α :=
  match xs[clamp depth (xs.length - 1)]? with
  | some x => x :: xs
  | none => xs

/-- Moves the top item to a depth. -/
def shove (depth : Int) : List α → List α
  | [] => []
  | x :: xs => xs.insertIdx (clamp depth xs.length) x

end PushFitness.Stack
