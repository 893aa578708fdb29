import LockOrder.Fault
import LockOrder.Store

set_option autoImplicit false

namespace LockOrder

structure ReadAccess where
  lock : LockRef
  version : UInt64
deriving DecidableEq

namespace ReadAccess

def isCurrent (read : ReadAccess) (store : Store) : Bool :=
  (store.recordAt read.lock.slot).version == read.version

def dump (read : ReadAccess) : String :=
  Dump.fields "ReadAccess"
    [("id", toString read.lock.id), ("observed_version", toString read.version)]

end ReadAccess

structure WriteAccess where
  lock : LockRef
  ordinal : UInt32
  value : UInt64
deriving DecidableEq

namespace WriteAccess

def id (write : WriteAccess) : UInt64 := write.lock.id

def before (a b : WriteAccess) : Prop := a.id < b.id ∨ (a.id = b.id ∧ a.ordinal < b.ordinal)

instance (a b : WriteAccess) : Decidable (before a b) := inferInstanceAs (Decidable (_ ∨ _))

def dump (write : WriteAccess) : String :=
  Dump.fields "WriteAccess" [("id", toString write.id), ("ordinal", toString write.ordinal),
    ("value", toString write.value)]

end WriteAccess

structure AccessSets where
  capacity : Nat
  reads : Array ReadAccess := #[]
  writes : Array WriteAccess := #[]

namespace AccessSets

def size (sets : AccessSets) : Nat := sets.reads.size + sets.writes.size

def isEmpty (sets : AccessSets) : Bool := sets.reads.isEmpty && sets.writes.isEmpty

def addRead (sets : AccessSets) (lock : LockRef) (version : UInt64) : Except Misuse AccessSets :=
  if sets.reads.size < sets.capacity then
    .ok { sets with reads := sets.reads.push ⟨lock, version⟩ }
  else .error (.full .readSet)

def nextOrdinal (sets : AccessSets) : UInt32 :=
  UInt32.ofNat (min sets.writes.size 0xffffffff)

def addWrite (sets : AccessSets) (lock : LockRef) (value : UInt64) : Except Misuse AccessSets :=
  if sets.writes.size < sets.capacity then
    .ok { sets with writes := sets.writes.push ⟨lock, sets.nextOrdinal, value⟩ }
  else .error (.full .writeSet)

def laterOf (id : UInt64) (best : Option WriteAccess) (write : WriteAccess) : Option WriteAccess :=
  if write.id = id then
    match best with
    | some other => if other.ordinal ≤ write.ordinal then some write else some other
    | none => some write
  else best

def pending (sets : AccessSets) (id : UInt64) : Option WriteAccess :=
  sets.writes.foldl (laterOf id) none

def sortWrites (sets : AccessSets) : AccessSets :=
  { sets with
    writes := (sets.writes.toList.mergeSort fun a b => !decide (WriteAccess.before b a)).toArray }

def writesAscend (sets : AccessSets) : Bool :=
  decide (sets.writes.toList.Pairwise WriteAccess.before)

def clear (sets : AccessSets) : AccessSets := { sets with reads := #[], writes := #[] }

def dump (sets : AccessSets) : String :=
  Dump.fields "AccessSets"
    [("read_set", Dump.sequence (sets.reads.toList.map ReadAccess.dump)),
      ("write_set", Dump.sequence (sets.writes.toList.map WriteAccess.dump))]

end AccessSets

end LockOrder
