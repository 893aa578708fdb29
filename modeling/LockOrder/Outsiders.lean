import LockOrder.Mode
import LockOrder.Store

set_option autoImplicit false

namespace LockOrder

structure Outsiders where
  -- The handles held on each record, the latest one first.
  held : Array (List Handle)

namespace Outsiders

def forRecords (count : Nat) : Outsiders := ⟨Array.replicate count []⟩

def heldAt (outsiders : Outsiders) (slot : Nat) : List Handle := outsiders.held[slot]?.getD []

def setHeld (outsiders : Outsiders) (slot : Nat) (handles : List Handle) : Outsiders :=
  ⟨outsiders.held.setIfInBounds slot handles⟩

def take (outsiders : Outsiders) (slot : Nat) (kind : Handle) (store : Store) :
    Option Handle × Outsiders × Store :=
  match store.take (store.lockAt slot) kind with
  | some store =>
      (some kind, outsiders.setHeld slot (kind :: outsiders.heldAt slot), store)
  | none => (none, outsiders, store)

def release (outsiders : Outsiders) (slot : Nat) (store : Store) : Bool × Outsiders × Store :=
  match outsiders.heldAt slot with
  | [] => (false, outsiders, store)
  | handle :: rest =>
      (true, outsiders.setHeld slot rest, store.release (store.lockAt slot) handle)

-- Installs under an exclusive handle, or under one that is taken for this purpose only.
def install (outsiders : Outsiders) (slot : Nat) (value : UInt64) (store : Store) :
    Option UInt64 × Store :=
  let lock := store.lockAt slot
  if (outsiders.heldAt slot).contains .writer then
    let store := store.install slot value
    (some (store.recordAt slot).version, store)
  else
    match store.take lock .writer with
    | none => (none, store)
    | some store =>
        let store := (store.install slot value).release lock .writer
        (some (store.recordAt slot).version, store)

end Outsiders

end LockOrder
