import LockOrder.Worker.Basic

set_option autoImplicit false

namespace LockOrder

-- One call of a body: its events, what it returned, and how the attempt ended.
structure CallOf (ε : Type) where
  events : List ε
  returned : Outcome UInt64
  ended : Outcome UInt64

-- One transaction: the calls of its body, its result, and the statistics of its worker after it.
structure RunOf (ε : Type) where
  calls : List (CallOf ε)
  result : Outcome UInt64
  stats : Statistics

inductive Event (α ρ : Type) where
  | read (key : UInt64) (outcome : Outcome UInt64)
  | write (key value : UInt64) (outcome : Outcome Unit)
  | act (action : α) (answer : ρ)
  -- No run if the worker of this seat is away.
  | ran (seat : Nat) (run : Option (RunOf (Event α ρ)))

abbrev Call (α ρ : Type) := CallOf (Event α ρ)

abbrev Run (α ρ : Type) := RunOf (Event α ρ)

inductive Body (α ρ : Type) where
  | done (result : Except Fault UInt64)
  | read (key : UInt64) (next : Except Fault UInt64 → Body α ρ)
  | write (key value : UInt64) (next : Except Fault Unit → Body α ρ)
  | act (action : α) (next : ρ → Body α ρ)
  | transact (seat : Nat) (inner : List (Call α ρ) → Body α ρ)
      (next : Option (Run α ρ) → Body α ρ)

-- A transaction: its body for the attempt after these calls.
abbrev Transaction (α ρ : Type) := List (Call α ρ) → Body α ρ

end LockOrder
