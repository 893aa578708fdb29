import LockOrder.Hotness
import LockOrder.RwLock

set_option autoImplicit false

namespace LockOrder

structure Record where
  -- Orders the locks of all records; zero belongs to none.
  id : UInt64 := 0
  lock : RwLock := {}
  version : UInt64 := 0
  hotness : Hotness := {}
  value : UInt64 := 0
deriving DecidableEq

namespace Record

instance : Inhabited Record := ⟨{}⟩

-- Versions from here on mark a record whose value is being replaced.
def beingWritten : UInt64 := 0x8000000000000000

def readLocked (record : Record) : UInt64 × UInt64 := (record.version, record.value)

def readOptimistic (record : Record) : Option (UInt64 × UInt64) :=
  if record.version < beingWritten then some (record.version, record.value) else none

def install (record : Record) (value : UInt64) : Record :=
  { record with version := record.version + 1, value }

def bump (record : Record) (draws : Draws) : Record × Draws :=
  let (hotness, draws) := record.hotness.increment draws
  ({ record with hotness }, draws)

def dump (record : Record) : String :=
  Dump.fields "Record" [("lock", record.lock.dump), ("version", toString record.version),
    ("hotness", record.hotness.dump), ("value", toString record.value)]

end Record

end LockOrder
