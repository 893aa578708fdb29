import LockOrder.Worker.Basic

set_option autoImplicit false

namespace LockOrder

namespace Worker

def secure (worker : Worker) (store : Store) : Outcome Unit × Worker × Store :=
  let worker := { worker with sets := worker.sets.sortWrites }
  let worker := worker.require worker.sets.writesAscend .unsortedWrites
  match worker.list.mergeWrites worker.sets.writes.toList with
  | .error misuse => (.misuse misuse, worker, store)
  | .ok list =>
      if list.isEmpty then (.ok (), { worker with list }, store)
      else
        let (outcome, list, store) := list.acquireThrough list.buffer.active store
        (outcome, { worker with list }, store)

def entryOf (worker : Worker) (id : UInt64) : Option Entry :=
  (worker.list.buffer.find id).map worker.list.buffer.cell

def holds (worker : Worker) (id : UInt64) : Bool :=
  match worker.entryOf id with
  | some entry => entry.isLocked
  | none => false

def owns (worker : Worker) (id : UInt64) : Bool :=
  match worker.entryOf id with
  | some entry => entry.taken == .exclusive
  | none => false

-- The record has changed since the read, or somebody else is about to change it.
def isStale (worker : Worker) (store : Store) (read : ReadAccess) : Bool :=
  !read.isCurrent store ||
    (!worker.holds read.lock.id && (store.recordAt read.lock.slot).lock.isWriteLocked)

def firstStale (worker : Worker) (store : Store) : Option ReadAccess :=
  worker.sets.reads.toList.find? (worker.isStale store)

-- The last write of each run of writes on one record.
def lastWrites : List WriteAccess → List WriteAccess
  | [] => []
  | [write] => [write]
  | write :: next :: rest =>
      if next.id = write.id then lastWrites (next :: rest)
      else write :: lastWrites (next :: rest)

def install (state : Worker × Store) (write : WriteAccess) : Worker × Store :=
  let (worker, store) := state
  (worker.require (worker.owns write.id) (.installedUnowned write.id),
    store.install write.lock.slot write.value)

def installAll (worker : Worker) (store : Store) : Worker × Store :=
  (lastWrites worker.sets.writes.toList).foldl install (worker, store)

def settle (worker : Worker) (store : Store) : Outcome Unit × Worker × Store :=
  match worker.firstStale store with
  | some read => (.fault .conflict, worker, store.bump read.lock.slot)
  | none => (.ok (), worker.installAll store)

def commit (worker : Worker) (store : Store) : Outcome Unit × Worker × Store :=
  match worker.secure store with
  | (.ok (), worker, store) => worker.settle store
  | stopped => stopped

end Worker

end LockOrder
