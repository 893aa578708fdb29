import LockOrder.CurrentList.Basic

set_option autoImplicit false

namespace LockOrder

structure Acquisition where
  list : CurrentList
  -- The last position that holds a lock, or zero.
  last : Nat
  store : Store

namespace Acquisition

def start (list : CurrentList) (store : Store) : Acquisition := ⟨list, list.lastLocked, store⟩

def took (state : Acquisition) (pos : Nat) (mode : Mode) (handle : Handle) (store : Store) :
    Acquisition :=
  let buffer := state.list.buffer.set pos ((state.list.buffer.cell pos).took mode handle)
  ⟨{ state.list with buffer }, max state.last pos, store⟩

def called (state : Acquisition) (call : LockCall) : Acquisition :=
  { state with list := state.list.called call }

def require (state : Acquisition) (kept : Bool) (breach : Breach) : Acquisition :=
  { state with list := state.list.require kept breach }

def await (state : Acquisition) (pos : Nat) (lock : LockRef) : Outcome Unit × Acquisition :=
  let state := state.called (.await lock.id)
  match state.store.take lock .writer with
  | some store => (.ok (), state.took pos .exclusive .writer store)
  | none => (.waiting lock.id, state)

def tryExclusive (state : Acquisition) (pos : Nat) (lock : LockRef) :
    Outcome Unit × Acquisition :=
  let call := LockCall.tryTake lock.id .writer state.list.spins
  match state.store.take lock .writer with
  | some store => (.ok (), (state.called (call true)).took pos .exclusive .writer store)
  | none => (.fault .raceAbort, state.called (call false))

def tryShared (state : Acquisition) (pos : Nat) (lock : LockRef) : Outcome Unit × Acquisition :=
  let call := LockCall.tryTake lock.id .reader state.list.spins
  match state.store.take lock .reader with
  | some store => (.ok (), (state.called (call true)).took pos .shared .reader store)
  | none => (.fault .raceAbort, state.called (call false))

-- A share whose upgrade fails is kept.
def tryUpgrade (state : Acquisition) (pos : Nat) (lock : LockRef) (handle : Handle) :
    Outcome Unit × Acquisition :=
  let held := handle == .reader && (state.store.word lock).isHeldBy handle
  let state := state.require held (.foreignHandle lock.id handle)
  let call := LockCall.upgrade lock.id handle state.list.spins
  match state.store.upgrade lock with
  | some store => (.ok (), (state.called (call true)).took pos .exclusive .writer store)
  | none => (.fault .raceAbort, state.called (call false))

def step (pos : Nat) (state : Acquisition) : Outcome Unit × Acquisition :=
  let entry := state.list.buffer.cell pos
  match entry.lock with
  | none => (.ok (), state)
  | some lock =>
      if entry.isEnough then (.ok (), state)
      else if state.last < pos then
        (state.require (entry.taken != .shared) (.awaitedShared lock.id)).await pos lock
      else
        match entry.taken, entry.handle with
        | .shared, some handle => state.tryUpgrade pos lock handle
        | _, _ =>
            if entry.preferred = .exclusive then state.tryExclusive pos lock
            else state.tryShared pos lock

-- Takes `count` locks from `pos` on and stops at the first one that it does not get.
def steps (pos : Nat) : Nat → Acquisition → Outcome Unit × Acquisition
  | 0, state => (.ok (), state)
  | count + 1, state =>
      match state.step pos with
      | (.ok (), state) => steps (pos + 1) count state
      | stopped => stopped

end Acquisition

namespace CurrentList

def acquireAt (list : CurrentList) (pos : Nat) (store : Store) :
    Outcome Unit × CurrentList × Store :=
  if list.buffer.holds pos then
    let (outcome, state) := (Acquisition.start list store).step pos
    (outcome, state.list, state.store)
  else (.misuse .invalidPosition, list, store)

def acquireThrough (list : CurrentList) (last : Nat) (store : Store) :
    Outcome Unit × CurrentList × Store :=
  if list.buffer.holds last then
    let (outcome, state) := Acquisition.steps 1 last (.start list store)
    (outcome, state.list, state.store)
  else (.misuse .invalidPosition, list, store)

end CurrentList

end LockOrder
