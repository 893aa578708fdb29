import LockOrder.Worker.Basic

set_option autoImplicit false

namespace LockOrder

namespace Worker

def sawVersion (worker : Worker) (lock : LockRef) (content : UInt64 × UInt64) :
    Outcome UInt64 × Worker :=
  match worker.sets.addRead lock content.1 with
  | .ok sets => (.ok content.2, { worker with sets })
  | .error misuse => (.misuse misuse, worker)

def readLocked (worker : Worker) (lock : LockRef) (store : Store) :
    Outcome UInt64 × Worker × Store :=
  match worker.list.getOrAdd lock .shared with
  | .error misuse => (.misuse misuse, worker, store)
  | .ok (pos, list) =>
      match list.acquireThrough pos store with
      | (.ok (), list, store) =>
          let (outcome, worker) :=
            sawVersion { worker with list } lock (store.recordAt lock.slot).readLocked
          (outcome, worker, store)
      | (.fault fault, list, store) => (.fault fault, { worker with list }, store)
      | (.misuse misuse, list, store) => (.misuse misuse, { worker with list }, store)
      | (.waiting id, list, store) => (.waiting id, { worker with list }, store)

def readOptimistic (worker : Worker) (lock : LockRef) (store : Store) :
    Outcome UInt64 × Worker × Store :=
  match (store.recordAt lock.slot).readOptimistic with
  | some content =>
      let (outcome, worker) := worker.sawVersion lock content
      (outcome, worker, store)
  | none => (.waiting lock.id, worker, store)

def locksOnRead (worker : Worker) (lock : LockRef) (store : Store) : Bool :=
  (worker.list.buffer.find lock.id).isSome ||
    decide (worker.settings.readLockThreshold ≤ (store.recordAt lock.slot).hotness.level)

def read (worker : Worker) (lock : LockRef) (store : Store) : Outcome UInt64 × Worker × Store :=
  match worker.sets.pending lock.id with
  | some write => (.ok write.value, worker, store)
  | none =>
      if worker.locksOnRead lock store then worker.readLocked lock store
      else worker.readOptimistic lock store

def write (worker : Worker) (lock : LockRef) (value : UInt64) : Outcome Unit × Worker :=
  match worker.sets.addWrite lock value with
  | .ok sets => (.ok (), { worker with sets })
  | .error misuse => (.misuse misuse, worker)

end Worker

end LockOrder
