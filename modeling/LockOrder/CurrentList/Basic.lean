import LockOrder.RetroList

set_option autoImplicit false

namespace LockOrder

inductive LockCall where
  | await (id : UInt64)
  | tryTake (id : UInt64) (kind : Handle) (spins : UInt32) (won : Bool)
  | upgrade (id : UInt64) (handle : Handle) (spins : UInt32) (won : Bool)
  | release (id : UInt64) (handle : Handle)
deriving DecidableEq

inductive Breach where
  -- Upgraded or released by a handle that the lock is not held by.
  | foreignHandle (id : UInt64) (handle : Handle)
  -- Waited for a lock while sharing it.
  | awaitedShared (id : UInt64)
  -- Installed a value without owning the record's lock.
  | installedUnowned (id : UInt64)
  | unsortedWrites
  -- Seeded a list in use, or from a list that is empty or out of order.
  | badSeed
  | resetHolding
deriving DecidableEq

-- A breach is a use of a lock or of the list outside the contract. It is logged and does not stop anything.
structure CurrentList where
  buffer : Buffer
  -- The budget of a try made out of order.
  spins : UInt32
  calls : Array LockCall := #[]
  breaches : Array Breach := #[]

namespace CurrentList

def ofCapacity (capacity : Nat) (spins : UInt32) : CurrentList :=
  { buffer := .ofCapacity capacity, spins }

def called (list : CurrentList) (call : LockCall) : CurrentList :=
  { list with calls := list.calls.push call }

def require (list : CurrentList) (kept : Bool) (breach : Breach) : CurrentList :=
  if kept then list else { list with breaches := list.breaches.push breach }

def isEmpty (list : CurrentList) : Bool := list.buffer.isEmpty

def entries (list : CurrentList) : List Entry := list.buffer.entries

def isHolding (list : CurrentList) : Bool := list.entries.any Entry.isLocked

-- Its locks must have been released before.
def reset (list : CurrentList) : CurrentList := { list with buffer := list.buffer.clear }

-- The position of the lock's entry, which is added if there is none.
def getOrAdd (list : CurrentList) (lock : LockRef) (mode : Mode) :
    Except Misuse (Nat × CurrentList) :=
  let pos := list.buffer.lowerBound lock.id
  let added :=
    if list.buffer.active < pos then list.buffer.push (.fresh lock mode)
    else if (list.buffer.cell pos).id = lock.id then
      some (list.buffer.set pos ((list.buffer.cell pos).prefer mode))
    else list.buffer.insert pos (.fresh lock mode)
  match added with
  | some buffer => .ok (pos, { list with buffer })
  | none => .error (.full .currentList)

def seed (list : CurrentList) (retro : RetroList) : Except Misuse CurrentList :=
  if !list.isEmpty then .error .listNotEmpty
  else if list.buffer.capacity < retro.buffer.active then .error (.full .currentList)
  else .ok { list with buffer := list.buffer.fill retro.buffer.entries }

-- The last position that holds a lock among the first `count`, or zero.
def lastLockedWithin (list : CurrentList) : Nat → Nat
  | 0 => 0
  | count + 1 =>
      if (list.buffer.cell (count + 1)).isLocked then count + 1 else list.lastLockedWithin count

def lastLocked (list : CurrentList) : Nat := list.lastLockedWithin list.buffer.active

def label (list : CurrentList) : String := list.buffer.label "CurrentLockList"

def dump (list : CurrentList) : String :=
  Dump.fields "CurrentLockList"
    [("entries", list.buffer.dumpEntries), ("try_lock_spins", toString list.spins)]

end CurrentList

end LockOrder
