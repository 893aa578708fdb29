import LockOrder.Table
import LockOrder.Worker.Attempt
import LockOrder.Worker.Body
import LockOrder.Worker.Commit

set_option autoImplicit false

namespace LockOrder

-- How other agents act: they see and change the records and a state of their own.
abbrev Perform (α ρ σ : Type) := α → σ → Store → ρ × σ × Store

-- The workers that are not running a transaction, and the world that they share.
structure Arena (σ : Type) where
  store : Store
  outside : σ
  seats : Array (Option Worker)

namespace Arena

variable {σ : Type}

def withStore (arena : Arena σ) (store : Store) : Arena σ := { arena with store }

def worker (arena : Arena σ) (seat : Nat) : Option Worker := arena.seats[seat]?.getD none

def setSeat (arena : Arena σ) (seat : Nat) (worker : Option Worker) : Arena σ :=
  { arena with seats := arena.seats.setIfInBounds seat worker }

end Arena

structure Executed (α ρ σ : Type) where
  events : List (Event α ρ)
  outcome : Outcome UInt64
  worker : Worker
  arena : Arena σ

structure Ran (α ρ σ : Type) where
  run : Run α ρ
  worker : Worker
  arena : Arena σ

variable {α ρ σ : Type}

def Executed.after (event : Event α ρ) (rest : Executed α ρ σ) : Executed α ρ σ :=
  { rest with events := event :: rest.events }

namespace Worker

def conclude (executed : Executed α ρ σ) : Outcome UInt64 × Worker × Store :=
  match executed.outcome with
  | .ok value =>
      let (outcome, worker, store) := executed.worker.commit executed.arena.store
      (outcome.map fun () => value, worker, store)
  | stopped => (stopped, executed.worker, executed.arena.store)

def attempt (execute : List (Call α ρ) → Worker → Arena σ → Executed α ρ σ)
    (past : List (Call α ρ)) (worker : Worker) (arena : Arena σ) : Call α ρ × Worker × Arena σ :=
  let executed := execute past worker arena
  let (ended, worker, store) := conclude executed
  (⟨executed.events, executed.outcome, ended⟩, worker, executed.arena.withStore store)

-- What an attempt that ended so leads to: the result of the transaction, or none if it may be tried
-- again.
def afterAttempt (worker : Worker) (store : Store) :
    Outcome UInt64 → Option (Outcome UInt64) × Worker × Store
  | .ok value =>
      let (worker, store) := worker.finish store
      (some (.ok value), worker.countCommit, store)
  | .fault fault =>
      if fault.isRetryable then
        match worker.abort fault store with
        | (.ok (), worker, store) => (none, worker, store)
        | (.error misuse, worker, store) => (some (.misuse misuse), worker, store)
      else
        let (worker, store) := worker.finish store
        (some (.fault fault), worker, store)
  | stopped => (some stopped, worker, store)

def leave (calls : List (Call α ρ)) (result : Outcome UInt64) (worker : Worker)
    (arena : Arena σ) : Ran α ρ σ :=
  ⟨⟨calls, result, worker.stats⟩, worker, arena⟩

-- Runs a transaction after the calls in `past`, with so many retries left.
def runFrom (execute : List (Call α ρ) → Worker → Arena σ → Executed α ρ σ) :
    Nat → List (Call α ρ) → Worker → Arena σ → Ran α ρ σ
  | retries, past, worker, arena =>
      match worker.start with
      | (.error misuse, worker) => leave past (.misuse misuse) worker arena
      | (.ok (), worker) =>
          let (call, worker, arena) := attempt execute past worker arena
          let calls := past ++ [call]
          match worker.afterAttempt arena.store call.ended with
          | (some result, worker, store) => leave calls result worker (arena.withStore store)
          | (none, worker, store) =>
              match retries with
              | 0 =>
                  leave calls (.fault .retryLimitExceeded) worker.forget (arena.withStore store)
              | retries + 1 => runFrom execute retries calls worker (arena.withStore store)

def runWith (execute : List (Call α ρ) → Worker → Arena σ → Executed α ρ σ)
    (worker : Worker) (arena : Arena σ) : Ran α ρ σ :=
  runFrom execute worker.settings.maxRetries.toNat [] worker arena

def readKey (worker : Worker) (table : Table) (key : UInt64) (store : Store) :
    Outcome UInt64 × Worker × Store :=
  match table.slot key with
  | .ok slot => worker.read (store.lockAt slot) store
  | .error fault => (.fault fault, worker, store)

def writeKey (worker : Worker) (table : Table) (key value : UInt64) (store : Store) :
    Outcome Unit × Worker :=
  match table.slot key with
  | .ok slot => worker.write (store.lockAt slot) value
  | .error fault => (.fault fault, worker)

end Worker

-- Where the worker of a transaction goes: back to its seat, or away for good.
def Ran.settled (ran : Ran α ρ σ) (seat : Nat) : Arena σ :=
  match ran.run.result with
  | .ok _ | .fault _ => ran.arena.setSeat seat (some ran.worker)
  | .misuse _ => ran.arena.withStore (ran.worker.drop ran.arena.store)
  | .waiting _ => ran.arena

def Body.execute (table : Table) (perform : Perform α ρ σ) :
    Body α ρ → Worker → Arena σ → Executed α ρ σ
  | .done (.ok value), worker, arena => ⟨[], .ok value, worker, arena⟩
  | .done (.error fault), worker, arena => ⟨[], .fault fault, worker, arena⟩
  | .read key next, worker, arena =>
      let (outcome, worker, store) := worker.readKey table key arena.store
      let event := .read key outcome
      let arena := arena.withStore store
      match outcome with
      | .ok value => ((next (.ok value)).execute table perform worker arena).after event
      | .fault fault => ((next (.error fault)).execute table perform worker arena).after event
      | .misuse misuse => ⟨[event], .misuse misuse, worker, arena⟩
      | .waiting id => ⟨[event], .waiting id, worker, arena⟩
  | .write key value next, worker, arena =>
      let (outcome, worker) := worker.writeKey table key value arena.store
      let event := .write key value outcome
      match outcome with
      | .ok () => ((next (.ok ())).execute table perform worker arena).after event
      | .fault fault => ((next (.error fault)).execute table perform worker arena).after event
      | .misuse misuse => ⟨[event], .misuse misuse, worker, arena⟩
      | .waiting id => ⟨[event], .waiting id, worker, arena⟩
  | .act action next, worker, arena =>
      let (answer, outside, store) := perform action arena.outside arena.store
      ((next answer).execute table perform worker { arena with outside, store }).after
        (.act action answer)
  | .transact seat inner next, worker, arena =>
      match arena.worker seat with
      | none => ((next none).execute table perform worker arena).after (.ran seat none)
      | some other =>
          let ran := other.runWith (fun past => (inner past).execute table perform)
            (arena.setSeat seat none)
          let event := .ran seat (some ran.run)
          let arena := ran.settled seat
          match ran.run.result with
          | .misuse misuse => ⟨[event], .misuse misuse, worker, arena⟩
          | .waiting id => ⟨[event], .waiting id, worker, arena⟩
          | _ => ((next (some ran.run)).execute table perform worker arena).after event

def Arena.transact (arena : Arena σ) (table : Table) (perform : Perform α ρ σ) (seat : Nat)
    (transaction : Transaction α ρ) : Option (Run α ρ) × Arena σ :=
  match arena.worker seat with
  | none => (none, arena)
  | some worker =>
      let ran := worker.runWith (fun past => (transaction past).execute table perform)
        (arena.setSeat seat none)
      (some ran.run, ran.settled seat)

end LockOrder
