import LockOrder.CurrentList.Basic

set_option autoImplicit false

namespace LockOrder

namespace CurrentList

def giveBack (state : CurrentList × Store) (entry : Entry) : CurrentList × Store :=
  match entry.handle, entry.lock with
  | some handle, some lock =>
      let (list, store) := state
      let held := (store.word lock).isHeldBy handle
      ((list.require held (.foreignHandle lock.id handle)).called (.release lock.id handle),
        store.release lock handle)
  | _, _ => state

def releaseFrom (list : CurrentList) (pos : Nat) (store : Store) : CurrentList × Store :=
  let entries := list.buffer.entriesFrom pos
  let (list, store) := entries.foldl giveBack (list, store)
  ({ list with buffer := list.buffer.write pos (entries.map Entry.freed) }, store)

def releaseAfter (list : CurrentList) (id : UInt64) (store : Store) : CurrentList × Store :=
  list.releaseFrom (list.buffer.positionAfter id) store

-- No lock has identifier zero, so "from zero on" and "after zero" are the same.
def releaseAtAndAfter (list : CurrentList) (id : UInt64) (store : Store) : CurrentList × Store :=
  list.releaseAfter (if id = 0 then 0 else id - 1) store

def releaseAll (list : CurrentList) (store : Store) : CurrentList × Store :=
  list.releaseAfter 0 store

def giveUpFrom (list : CurrentList) (pos : Nat) : CurrentList :=
  { list with buffer := list.buffer.write pos ((list.buffer.entriesFrom pos).map Entry.giveUp) }

def giveUpAfter (list : CurrentList) (id : UInt64) : CurrentList :=
  list.giveUpFrom (list.buffer.positionAfter id)

def giveUpAtAndAfter (list : CurrentList) (id : UInt64) : CurrentList :=
  list.giveUpAfter (if id = 0 then 0 else id - 1)

end CurrentList

end LockOrder
