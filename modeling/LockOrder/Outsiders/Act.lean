import LockOrder.Outsiders
import LockOrder.Table

set_option autoImplicit false

namespace LockOrder

inductive Act where
  | peek
  | get (key : UInt64)
  | take (key : UInt64) (kind : Handle)
  | release (key : UInt64)
  | install (key value : UInt64)
  | bump (key : UInt64)

inductive Reply where
  | locks (locks : List RwLock)
  | record (record : Record)
  | handle (handle : Option Handle)
  | released (any : Bool)
  -- No version if the record was in use.
  | version (version : Option UInt64)
  | level (level : UInt32)
  | unknownKey

namespace Outsiders

def actAt (outsiders : Outsiders) (slot : Nat) (store : Store) : Act → Reply × Outsiders × Store
  | .peek => (.locks (store.records.toList.map Record.lock), outsiders, store)
  | .get _ => (.record (store.recordAt slot), outsiders, store)
  | .take _ kind =>
      let (handle, outsiders, store) := outsiders.take slot kind store
      (.handle handle, outsiders, store)
  | .release _ =>
      let (any, outsiders, store) := outsiders.release slot store
      (.released any, outsiders, store)
  | .install _ value =>
      let (version, store) := outsiders.install slot value store
      (.version version, outsiders, store)
  | .bump _ =>
      let store := store.bump slot
      (.level (store.recordAt slot).hotness.level, outsiders, store)

end Outsiders

namespace Act

def key? : Act → Option UInt64
  | .peek => none
  | .get key | .take key _ | .release key | .install key _ | .bump key => some key

def perform (table : Table) (act : Act) (outsiders : Outsiders) (store : Store) :
    Reply × Outsiders × Store :=
  match act.key? with
  | none => outsiders.actAt 0 store act
  | some key =>
      match table.slot key with
      | .ok slot => outsiders.actAt slot store act
      | .error _ => (.unknownKey, outsiders, store)

end Act

end LockOrder
