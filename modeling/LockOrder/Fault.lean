import LockOrder.Dump

set_option autoImplicit false

namespace LockOrder

inductive Fault where
  | conflict
  | notFound
  | raceAbort
  | retryLimitExceeded
  | uniquenessViolation
  | wrongParameter (what : String)
deriving DecidableEq

namespace Fault

def isRetryable : Fault → Bool
  | .conflict | .raceAbort => true
  | _ => false

def name : Fault → String
  | .conflict => "Conflict"
  | .notFound => "NotFound"
  | .raceAbort => "RaceAbort"
  | .retryLimitExceeded => "RetryLimitExceeded"
  | .uniquenessViolation => "UniquenessViolation"
  | .wrongParameter _ => "WrongParameter"

def message : Fault → String
  | .conflict => "verification conflict"
  | .notFound => "record not found"
  | .raceAbort => "non-canonical lock acquisition failed"
  | .retryLimitExceeded => "retry limit exceeded"
  | .uniquenessViolation => "duplicate key"
  | .wrongParameter what => "wrong parameter: " ++ what

def dump (fault : Fault) : String :=
  match fault with
  | .wrongParameter what => Dump.tagged fault.name (Dump.quoted what)
  | _ => fault.name

end Fault

inductive Bounded where
  | currentList
  | retroList
  | readSet
  | writeSet
deriving DecidableEq

namespace Bounded

def title : Bounded → String
  | .currentList => "current lock list"
  | .retroList => "retrospective lock list"
  | .readSet => "read set"
  | .writeSet => "write set"

end Bounded

inductive Misuse where
  | full (store : Bounded)
  | listNotEmpty
  | invalidPosition
deriving DecidableEq

namespace Misuse

def message : Misuse → String
  | .full store => store.title ++ " capacity exceeded"
  | .listNotEmpty => "the current lock list must be empty"
  | .invalidPosition => "assertion failed"

end Misuse

inductive Outcome (α : Type) where
  | ok (value : α)
  | fault (fault : Fault)
  | misuse (misuse : Misuse)
  -- Waits for the lock with this identifier.
  | waiting (id : UInt64)
deriving DecidableEq

namespace Outcome

def map {α β : Type} (f : α → β) : Outcome α → Outcome β
  | .ok value => .ok (f value)
  | .fault why => .fault why
  | .misuse why => .misuse why
  | .waiting id => .waiting id

end Outcome

end LockOrder
