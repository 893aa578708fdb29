import LockOrder.Proofs.Serial.Tells
import LockOrder.Proofs.Worker.Contracts

set_option autoImplicit false

namespace LockOrder

-- All locks are given back, and nothing of the attempt is left.
def Worker.rested (worker : Worker) : Worker :=
  { worker with list := worker.list.writeFreed 1 (worker.list.buffer.entriesFrom 1) }.clearAttempt

-- What `afterAttempt` makes of a worker whose locks are given back, unless it is gone.
def Worker.restedAfter (worker : Worker) (store : Store) : Outcome UInt64 → Option Worker
  | .ok _ => some worker.rested.forget.countCommit
  | .fault fault =>
      if fault.isRetryable then
        match worker.remembered store with
        | .ok retro => some { (worker.countAbort fault).rested with retro }
        | .error _ => none
      else some worker.rested.forget
  | _ => none

-- How far an attempt has got.
inductive Stage where
  | resting
  | serving
  -- So many locks are to be taken from this position on, to read the record, or to commit.
  | locking (goal : Option LockRef) (last pos count : Nat)
  | checking (reads : List ReadAccess)
  | installing (writes : List WriteAccess)
  | leaving (entries : List Entry)

-- A worker on a thread of its own, what its attempt has accessed, and the place of the attempt among
-- all that have had their locks.
structure Member where
  worker : Worker
  stage : Stage := .resting
  accesses : List Access := []
  place : Nat := 0

inductive Deal where
  | start
  | read (key : UInt64)
  | write (key value : UInt64)
  | commit
  -- The body fails, or it panics.
  | quit
  | rest (ended : Outcome UInt64)
  -- No retry is left.
  | forget

structure Scene where
  member : Member
  store : Store
  history : List (List Access)

namespace Scene

def enter (scene : Scene) (stage : Stage) : Scene :=
  { scene with member := { scene.member with stage } }

def withWorker (scene : Scene) (worker : Worker) : Scene :=
  { scene with member := { scene.member with worker } }

def leave (scene : Scene) : Scene := scene.enter (.leaving scene.member.worker.list.entries)

def accessed (scene : Scene) (access : Access) : Scene :=
  { scene with
    member := { scene.member with
      stage := .serving, accesses := scene.member.accesses ++ [access] } }

def look (scene : Scene) (lock : LockRef) (content : UInt64 × UInt64) : Scene :=
  match scene.member.worker.sawVersion lock content with
  | (.ok value, worker) => (scene.withWorker worker).accessed (.read lock.slot value)
  | (_, worker) => (scene.withWorker worker).leave

def read (scene : Scene) (lock : LockRef) : Option Scene :=
  let worker := scene.member.worker
  match worker.sets.pending lock.id with
  | some write => some (scene.accessed (.read lock.slot write.value))
  | none =>
      if worker.locksOnRead lock scene.store then
        match worker.list.getOrAdd lock .shared with
        | .ok (pos, list) =>
            some ((scene.withWorker { worker with list }).enter
              (.locking (some lock) list.lastLocked 1 pos))
        | .error _ => some scene.leave
      else (scene.store.recordAt lock.slot).readOptimistic.map (scene.look lock)

def write (scene : Scene) (lock : LockRef) (value : UInt64) : Scene :=
  match scene.member.worker.write lock value with
  | (.ok (), worker) => (scene.withWorker worker).accessed (.write lock.slot value)
  | (_, worker) => (scene.withWorker worker).leave

def commit (scene : Scene) : Scene :=
  let worker := scene.member.worker.sorted
  match worker.list.mergeWrites worker.sets.writes.toList with
  | .ok list =>
      (scene.withWorker { worker with list }).enter (.locking none list.lastLocked 1 list.buffer.active)
  | .error _ => (scene.withWorker worker).leave

def rest (scene : Scene) (ended : Outcome UInt64) : Option Scene :=
  (scene.member.worker.restedAfter scene.store ended).map fun worker =>
    (scene.withWorker worker).enter .resting

-- What the body of the transaction, or its caller, has the worker do.
def ask (table : Table) (scene : Scene) (deal : Deal) : Option Scene :=
  match scene.member.stage, deal with
  | .resting, .start =>
      match scene.member.worker.start with
      | (.ok (), worker) =>
          some { scene with member := { worker, stage := .serving, place := scene.member.place } }
      | (.error _, _) => none
  | .resting, .forget => some (scene.withWorker scene.member.worker.forget)
  | .serving, .read key =>
      match table.slot key with
      | .ok slot => scene.read (scene.store.lockAt slot)
      | .error _ => none
  | .serving, .write key value =>
      match table.slot key with
      | .ok slot => some (scene.write (scene.store.lockAt slot) value)
      | .error _ => none
  | .serving, .commit => some scene.commit
  | .serving, .quit => some scene.leave
  | .leaving [], .rest ended => scene.rest ended
  | _, _ => none

def took (scene : Scene) (state : Acquisition) : Scene :=
  { scene with store := state.store }.withWorker { scene.member.worker with list := state.list }

-- The body is told that it cannot have the read, but a commit that misses a lock is over.
def missed (scene : Scene) : Option LockRef → Scene
  | some _ => scene.enter .serving
  | none => scene.leave

def lockNext (scene : Scene) (goal : Option LockRef) (last pos count : Nat) : Option Scene :=
  match Acquisition.step pos ⟨scene.member.worker.list, last, scene.store⟩ with
  | (.ok (), state) => some ((scene.took state).enter (.locking goal state.last (pos + 1) count))
  | (.fault _, state) => some ((scene.took state).missed goal)
  | _ => none

-- The next step of its own. It takes one lock, checks one read, installs one value, or gives back one
-- lock, but it does not go on while it has to wait.
def go (scene : Scene) : Option Scene :=
  let worker := scene.member.worker
  match scene.member.stage with
  | .locking goal last pos (count + 1) => scene.lockNext goal last pos count
  | .locking (some lock) _ _ 0 => some (scene.look lock (scene.store.recordAt lock.slot).readLocked)
  -- Who has all locks comes behind all that had theirs before. The place stays empty until the reads are
  -- checked, and for good if they are not what they were.
  | .locking none _ _ 0 =>
      some { scene with
        member := { scene.member with
          stage := .checking worker.sets.reads.toList, place := scene.history.length }
        history := scene.history ++ [[]] }
  -- The version and the lock word of the record are seen at one moment.
  | .checking (read :: reads) =>
      if worker.isStale scene.store read then
        some ({ scene with store := scene.store.bump read.lock.slot }.leave)
      else some (scene.enter (.checking reads))
  | .checking [] =>
      let history := scene.history.set scene.member.place scene.member.accesses
      some ({ scene with history }.enter (.installing (Worker.lastWrites worker.sets.writes.toList)))
  | .installing (write :: writes) =>
      let (worker, store) := Worker.install (worker, scene.store) write
      some (({ scene with store }.withWorker worker).enter (.installing writes))
  | .installing [] => some scene.leave
  | .leaving (entry :: entries) =>
      let (list, store) := CurrentList.giveBack (worker.list, scene.store) entry
      some (({ scene with store }.withWorker { worker with list }).enter (.leaving entries))
  | _ => none

end Scene

-- Workers that share their records, among others that hold locks too. An attempt of a worker and those of
-- the others may be under way at the same time.
structure Crew where
  store : Store
  outside : Outsiders
  members : List Member
  history : List (List Access) := []

namespace Crew

inductive Move where
  | act (act : Act)
  | ask (seat : Nat) (deal : Deal)
  | go (seat : Nat)

def turn (crew : Crew) (seat : Nat) (step : Scene → Option Scene) : Crew :=
  match crew.members[seat]? with
  | none => crew
  | some member =>
      match step ⟨member, crew.store, crew.history⟩ with
      | none => crew
      | some scene =>
          { crew with
            store := scene.store
            members := crew.members.set seat scene.member
            history := scene.history }

def move (table : Table) (crew : Crew) : Move → Crew
  | .act act =>
      let (reply, outside, store) := act.perform table crew.outside crew.store
      { crew with outside, store, history := crew.history ++ Mark.commits (act.marks table reply) }
  | .ask seat deal => crew.turn seat (Scene.ask table · deal)
  | .go seat => crew.turn seat Scene.go

def play (table : Table) (moves : List Move) (crew : Crew) : Crew := moves.foldl (move table) crew

def ofTable (table : Table) (workers : List Worker) (draws : Draws) : Crew where
  store := { records := table.records, draws }
  outside := .forRecords table.size
  members := workers.map fun worker => { worker }

end Crew

end LockOrder
