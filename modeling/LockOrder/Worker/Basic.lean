import LockOrder.CurrentList.Acquire
import LockOrder.CurrentList.Merge
import LockOrder.CurrentList.Release
import LockOrder.Settings

set_option autoImplicit false

namespace LockOrder

structure Statistics where
  commits : UInt64 := 0
  raceAborts : UInt64 := 0
  conflicts : UInt64 := 0
deriving DecidableEq

structure Worker where
  settings : Settings
  list : CurrentList
  retro : RetroList
  sets : AccessSets
  stats : Statistics := {}

namespace Worker

def ofSettings (settings : Settings) : Except Fault Worker :=
  match settings.validate with
  | .error fault => .error fault
  | .ok () =>
      let capacity := settings.listCapacity.toNat
      .ok {
        settings
        list := .ofCapacity capacity settings.tryLockSpins
        retro := .ofCapacity capacity
        sets := { capacity := settings.maxAccesses.toNat } }

def require (worker : Worker) (kept : Bool) (breach : Breach) : Worker :=
  { worker with list := worker.list.require kept breach }

def isGoodSeed (worker : Worker) : Bool :=
  worker.list.isEmpty && !worker.retro.isEmpty && Entry.ascending worker.retro.buffer.entries

def start (worker : Worker) : Except Misuse Unit × Worker :=
  let worker := { worker with sets := worker.sets.clear }
  if worker.settings.retrospective && !worker.retro.isEmpty then
    let worker := worker.require worker.isGoodSeed .badSeed
    match worker.list.seed worker.retro with
    | .ok list => (.ok (), { worker with list })
    | .error misuse => (.error misuse, worker)
  else (.ok (), worker)

def releaseLocks (worker : Worker) (store : Store) : Worker × Store :=
  let (list, store) := worker.list.releaseAll store
  ({ worker with list }, store)

def clearAttempt (worker : Worker) : Worker :=
  let worker := worker.require (!worker.list.isHolding) .resetHolding
  { worker with list := worker.list.reset, sets := worker.sets.clear }

def forget (worker : Worker) : Worker := { worker with retro := worker.retro.reset }

def finish (worker : Worker) (store : Store) : Worker × Store :=
  let (worker, store) := worker.releaseLocks store
  (worker.clearAttempt.forget, store)

def countCommit (worker : Worker) : Worker :=
  { worker with stats := { worker.stats with commits := worker.stats.commits + 1 } }

def countAbort (worker : Worker) (fault : Fault) : Worker :=
  let stats := worker.stats
  if fault = .raceAbort then
    { worker with stats := { stats with raceAborts := stats.raceAborts + 1 } }
  else { worker with stats := { stats with conflicts := stats.conflicts + 1 } }

def abort (worker : Worker) (fault : Fault) (store : Store) :
    Except Misuse Unit × Worker × Store :=
  let (worker, store) := (worker.countAbort fault).releaseLocks store
  let remembered :=
    if worker.settings.retrospective then
      worker.retro.construct worker.sets worker.settings.readLockThreshold store
    else .ok worker.retro
  match remembered with
  | .error misuse => (.error misuse, worker, store)
  | .ok retro => (.ok (), { worker.clearAttempt with retro }, store)

-- What is left of a worker that is gone: nobody holds its locks any more.
def drop (worker : Worker) (store : Store) : Store := (worker.list.releaseAll store).2

end Worker

end LockOrder
