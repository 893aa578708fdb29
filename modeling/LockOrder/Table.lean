import LockOrder.Fault
import LockOrder.Record

set_option autoImplicit false

namespace LockOrder

structure Table where
  keys : List UInt64
  unique : keys.Nodup

namespace Table

def ofKeys (keys : List UInt64) : Except Fault Table :=
  if unique : keys.Nodup then .ok ⟨keys, unique⟩ else .error .uniquenessViolation

def slot (table : Table) (key : UInt64) : Except Fault Nat :=
  match table.keys.idxOf? key with
  | some slot => .ok slot
  | none => .error .notFound

def size (table : Table) : Nat := table.keys.length

def records (table : Table) : Array Record :=
  (table.keys.mapIdx fun slot _ => ({ id := UInt64.ofNat (slot + 1) } : Record)).toArray

def dump (table : Table) : String := Dump.fields "Table" [("len", toString table.size)]

end Table

end LockOrder
