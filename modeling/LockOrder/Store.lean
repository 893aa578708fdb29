import LockOrder.Record

set_option autoImplicit false

namespace LockOrder

-- The slot of a record, and the identifier by which all locks are ordered.
structure LockRef where
  slot : Nat
  id : UInt64
deriving DecidableEq

structure Store where
  records : Array Record := #[]
  draws : Draws := {}

namespace Store

def recordAt (store : Store) (slot : Nat) : Record := store.records[slot]?.getD default

def put (store : Store) (slot : Nat) (record : Record) : Store :=
  { store with records := store.records.setIfInBounds slot record }

def lockAt (store : Store) (slot : Nat) : LockRef := ⟨slot, (store.recordAt slot).id⟩

def word (store : Store) (lock : LockRef) : RwLock := (store.recordAt lock.slot).lock

def setWord (store : Store) (lock : LockRef) (word : RwLock) : Store :=
  store.put lock.slot { store.recordAt lock.slot with lock := word }

def take (store : Store) (lock : LockRef) (kind : Handle) : Option Store :=
  ((store.word lock).take kind).map (store.setWord lock)

def upgrade (store : Store) (lock : LockRef) : Option Store :=
  (store.word lock).upgrade.map (store.setWord lock)

def release (store : Store) (lock : LockRef) (handle : Handle) : Store :=
  store.setWord lock ((store.word lock).release handle)

def install (store : Store) (slot : Nat) (value : UInt64) : Store :=
  store.put slot ((store.recordAt slot).install value)

def bump (store : Store) (slot : Nat) : Store :=
  let (record, draws) := (store.recordAt slot).bump store.draws
  { store.put slot record with draws }

theorem record_at_put_self (store : Store) (slot : Nat) (record : Record)
    (inside : slot < store.records.size) : (store.put slot record).recordAt slot = record := by
  simp [recordAt, put, inside]

theorem record_at_put_other (store : Store) (slot other : Nat) (record : Record)
    (different : other ≠ slot) :
    (store.put slot record).recordAt other = store.recordAt other := by
  simp [recordAt, put, Ne.symm different]

def idsAscend (store : Store) : Bool :=
  decide ((store.records.toList.map Record.id).Pairwise (· < ·))

end Store

end LockOrder
