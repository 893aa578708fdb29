import LockOrder.Mode
import LockOrder.Store

set_option autoImplicit false

namespace LockOrder

structure Entry where
  -- Only the sentinel has no lock.
  lock : Option LockRef
  preferred : Mode
  taken : Mode
  handle : Option Handle
deriving DecidableEq

namespace Entry

def sentinel : Entry := ⟨none, .unlocked, .unlocked, none⟩

def fresh (lock : LockRef) (mode : Mode) : Entry := ⟨some lock, mode, .unlocked, none⟩

def id (entry : Entry) : UInt64 :=
  match entry.lock with
  | some lock => lock.id
  | none => 0

def isEnough (entry : Entry) : Bool := entry.taken.covers entry.preferred

def isLocked (entry : Entry) : Bool := entry.taken != .unlocked

def prefer (entry : Entry) (mode : Mode) : Entry :=
  { entry with preferred := max entry.preferred mode }

-- A wish that is met already stays.
def giveUp (entry : Entry) : Entry :=
  if entry.isLocked then entry else { entry with preferred := .unlocked }

def took (entry : Entry) (mode : Mode) (handle : Handle) : Entry :=
  { entry with taken := mode, handle := some handle }

def freed (entry : Entry) : Entry := { entry with taken := .unlocked, handle := none }

def ascending (entries : List Entry) : Bool :=
  decide ((entries.map Entry.id).Pairwise (· < ·))

def label (entry : Entry) : String :=
  "0x" ++ Dump.hex entry.id.toNat ++ ":" ++ entry.taken.letter ++ "/" ++ entry.preferred.letter

def dump (entry : Entry) : String :=
  Dump.fields "LockEntry" [("id", toString entry.id), ("preferred_mode", entry.preferred.name),
    ("taken_mode", entry.taken.name), ("slot", Dump.optional (entry.handle.map Handle.dump))]

@[simp] theorem id_fresh (lock : LockRef) (mode : Mode) : (fresh lock mode).id = lock.id := rfl

@[simp] theorem id_prefer (entry : Entry) (mode : Mode) : (entry.prefer mode).id = entry.id := rfl

@[simp] theorem id_took (entry : Entry) (mode : Mode) (handle : Handle) :
    (entry.took mode handle).id = entry.id := rfl

@[simp] theorem id_freed (entry : Entry) : entry.freed.id = entry.id := rfl

@[simp] theorem id_give_up (entry : Entry) : entry.giveUp.id = entry.id := by
  unfold giveUp
  split <;> rfl

end Entry

end LockOrder
