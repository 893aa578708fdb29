import LockOrder.Dump

set_option autoImplicit false

namespace LockOrder

inductive Handle where
  | reader
  | writer
deriving DecidableEq

namespace Handle

def number : Handle → Nat
  | .reader => 1
  | .writer => 2

def dump (handle : Handle) : String := Dump.tagged "SlotHandle" (toString handle.number)

end Handle

-- The word changes between the tries of one bounded operation only if somebody else acts, so an operation
-- here is one try: the budget of a caller is spent outside of the lock.
structure RwLock where
  word : UInt64 := 0
deriving DecidableEq

namespace RwLock

def exclusiveWord : UInt64 := 0x8000000000000000

-- One reader more would look like a writer.
def fullWord : UInt64 := 0x7fffffffffffffff

def isFree (lock : RwLock) : Bool := lock.word == 0

def isWriteLocked (lock : RwLock) : Bool := decide (exclusiveWord ≤ lock.word)

def readers (lock : RwLock) : UInt64 := if lock.isWriteLocked then 0 else lock.word

def takeExclusive (lock : RwLock) : Option RwLock :=
  if lock.word = 0 then some ⟨exclusiveWord⟩ else none

def takeShared (lock : RwLock) : Option RwLock :=
  if lock.isWriteLocked || lock.word == fullWord then none else some ⟨lock.word + 1⟩

def take (lock : RwLock) : Handle → Option RwLock
  | .reader => lock.takeShared
  | .writer => lock.takeExclusive

def upgrade (lock : RwLock) : Option RwLock :=
  if lock.word = 1 then some ⟨exclusiveWord⟩ else none

def release (lock : RwLock) : Handle → RwLock
  | .reader => ⟨lock.word - 1⟩
  | .writer => ⟨0⟩

def isHeldBy (lock : RwLock) : Handle → Bool
  | .reader => lock.word != 0 && !lock.isWriteLocked
  | .writer => lock.word == exclusiveWord

def owners (lock : RwLock) : String :=
  if lock.isFree then "-"
  else if lock.isWriteLocked then "W"
  else "R" ++ toString lock.readers

def dump (lock : RwLock) : String :=
  Dump.fields "RwSpinLock" [("state", toString lock.word)]

end RwLock

end LockOrder
