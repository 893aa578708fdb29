import LockOrder.Proofs.Worker.Make
import LockOrder.Proofs.Worker.Released

set_option autoImplicit false

namespace LockOrder

variable {α ρ σ : Type} {base : Worker}

structure Executed.Alike (base : Worker) (executed other : Executed α ρ σ) : Prop where
  events : executed.events = other.events
  outcome : executed.outcome = other.outcome
  worker : Worker.Alike base executed.worker other.worker
  arena : executed.arena = other.arena

theorem Executed.Alike.after {executed other : Executed α ρ σ} (alike : executed.Alike base other)
    (event : Event α ρ) : (executed.after event).Alike base (other.after event) :=
  ⟨congrArg (event :: ·) alike.events, alike.outcome, alike.worker, alike.arena⟩

theorem Body.execute_alike (table : Table) (perform : Perform α ρ σ) (body : Body α ρ)
    {worker other : Worker} (alike : base.Alike worker other) (arena : Arena σ) :
    (body.execute table perform worker arena).Alike base (body.execute table perform other arena) := by
  induction body generalizing worker other arena with
  | done result => cases result <;> exact ⟨rfl, rfl, alike, rfl⟩
  | read key next ih =>
      have read : Worker.AlikeAfter base (worker.readKey table key arena.store)
          (other.readKey table key arena.store) := by
        rw [Worker.readKey, Worker.readKey]
        cases table.slot key with
        | ok slot => exact alike.read _ _
        | error fault => exact ⟨rfl, alike, rfl⟩
      rw [execute, execute]
      generalize worker.readKey table key arena.store = mine at read
      generalize other.readKey table key arena.store = yours at read
      obtain ⟨outcome, worker, store⟩ := mine
      obtain ⟨_, other, _⟩ := yours
      obtain ⟨rfl, same, rfl⟩ := read
      cases outcome with
      | ok value => exact (ih _ same _).after _
      | fault fault => exact (ih _ same _).after _
      | misuse misuse => exact ⟨rfl, rfl, same, rfl⟩
      | waiting id => exact ⟨rfl, rfl, same, rfl⟩
  | write key value next ih =>
      have write : (worker.writeKey table key value arena.store).1 =
            (other.writeKey table key value arena.store).1 ∧
          Worker.Alike base (worker.writeKey table key value arena.store).2
            (other.writeKey table key value arena.store).2 := by
        rw [Worker.writeKey, Worker.writeKey]
        cases table.slot key with
        | ok slot => exact alike.write _ _
        | error fault => exact ⟨rfl, alike⟩
      rw [execute, execute]
      generalize worker.writeKey table key value arena.store = mine at write
      generalize other.writeKey table key value arena.store = yours at write
      obtain ⟨outcome, worker⟩ := mine
      obtain ⟨_, other⟩ := yours
      obtain ⟨rfl, same⟩ := write
      cases outcome with
      | ok done => exact (ih _ same _).after _
      | fault fault => exact (ih _ same _).after _
      | misuse misuse => exact ⟨rfl, rfl, same, rfl⟩
      | waiting id => exact ⟨rfl, rfl, same, rfl⟩
  | act action next ih =>
      rw [execute, execute]
      exact (ih _ alike _).after _
  | transact seat inner next _ ih =>
      rw [execute, execute]
      cases arena.worker seat with
      | none => exact (ih none alike arena).after _
      | some nested =>
          simp only
          generalize nested.runWith (fun past => (inner past).execute table perform)
            (arena.setSeat seat none) = ran
          cases ran.run.result with
          | ok value => exact (ih _ alike _).after _
          | fault fault => exact (ih _ alike _).after _
          | misuse misuse => exact ⟨rfl, rfl, alike, rfl⟩
          | waiting id => exact ⟨rfl, rfl, alike, rfl⟩

namespace Worker

variable {worker other : Worker}

theorem conclude_alike {executed last : Executed α ρ σ} (alike : executed.Alike base last) :
    AlikeAfter base (conclude executed) (conclude last) := by
  rw [conclude, conclude, ← alike.outcome, ← alike.arena]
  cases executed.outcome with
  | ok value =>
      obtain ⟨outcome, committed, next⟩ := alike.worker.commit executed.arena.store
      exact ⟨congrArg (Outcome.map fun () => value) outcome, committed, next⟩
  | fault fault => exact ⟨rfl, alike.worker, rfl⟩
  | misuse misuse => exact ⟨rfl, alike.worker, rfl⟩
  | waiting id => exact ⟨rfl, alike.worker, rfl⟩

variable {execute : List (Call α ρ) → Worker → Arena σ → Executed α ρ σ}

def Indifferent (base : Worker) (execute : List (Call α ρ) → Worker → Arena σ → Executed α ρ σ) : Prop :=
  ∀ past (worker other : Worker) arena, base.Alike worker other →
    (execute past worker arena).Alike base (execute past other arena)

theorem attempt_alike (indifferent : Indifferent base execute) (past : List (Call α ρ))
    (alike : Alike base worker other) (arena : Arena σ) :
    let mine := attempt execute past worker arena
    let yours := attempt execute past other arena
    mine.1 = yours.1 ∧ Alike base mine.2.1 yours.2.1 ∧ mine.2.2 = yours.2.2 := by
  have executed := indifferent past worker other arena alike
  obtain ⟨ended, concluded, next⟩ := conclude_alike executed
  rw [attempt, attempt]
  generalize execute past worker arena = mine at executed ended concluded next
  generalize execute past other arena = yours at executed ended concluded next
  simp only [executed.events, executed.outcome, executed.arena, ended, next]
  exact ⟨trivial, concluded, trivial⟩

-- The same calls and the same result in the same surroundings. Locks and statistics go on from where
-- each of the workers was.
structure SameRun (base : Worker) (ran other : Ran α ρ σ) : Prop where
  calls : ran.run.calls = other.run.calls
  result : ran.run.result = other.run.result
  arena : ran.arena = other.arena
  worker : base.Alike ran.worker other.worker
  stats : ran.run.stats = base.stats.plus other.run.stats

theorem same_leave (calls : List (Call α ρ)) (result : Outcome UInt64) (alike : base.Alike worker other)
    (arena : Arena σ) : SameRun base (leave calls result worker arena) (leave calls result other arena) :=
  ⟨rfl, rfl, rfl, alike, alike.stats⟩

theorem same_run_from (indifferent : Indifferent base execute) (retries : Nat) (past : List (Call α ρ))
    (alike : base.Alike worker other) (arena : Arena σ) :
    SameRun base (runFrom execute retries past worker arena)
      (runFrom execute retries past other arena) := by
  induction retries using Nat.strongRecOn generalizing past worker other arena with
  | ind retries ih =>
      rw [runFrom, runFrom]
      have started := alike.start
      generalize worker.start = mine at started
      generalize other.start = yours at started
      obtain ⟨begun, first⟩ := mine
      obtain ⟨_, second⟩ := yours
      obtain ⟨rfl, same⟩ := started
      cases begun with
      | error misuse => exact same_leave past _ same arena
      | ok _ =>
          have attempted := attempt_alike indifferent past same arena
          simp only
          generalize attempt execute past first arena = mine at attempted
          generalize attempt execute past second arena = yours at attempted
          obtain ⟨call, tired, mid⟩ := mine
          obtain ⟨_, weary, _⟩ := yours
          obtain ⟨rfl, same, rfl⟩ := attempted
          have left := same.after_attempt mid.store call.ended
          simp only
          generalize tired.afterAttempt mid.store call.ended = mine at left
          generalize weary.afterAttempt mid.store call.ended = yours at left
          obtain ⟨result, fresh, store⟩ := mine
          obtain ⟨_, last, _⟩ := yours
          obtain ⟨rfl, same, rfl⟩ := left
          cases result with
          | some result => exact same_leave _ _ same _
          | none =>
              cases retries with
              | zero => exact same_leave _ _ same.forget _
              | succ retries => exact ih retries (Nat.lt_succ_self retries) _ same _

theorem same_run (table : Table) (perform : Perform α ρ σ) (transaction : Transaction α ρ)
    (alike : base.Alike worker other) (arena : Arena σ) :
    SameRun base (worker.runWith (fun past => (transaction past).execute table perform) arena)
      (other.runWith (fun past => (transaction past).execute table perform) arena) := by
  rw [runWith, runWith, ← alike.settings]
  exact same_run_from (fun past _ _ arena alike => Body.execute_alike table perform (transaction past) alike arena) _ []
    alike arena

end Worker

namespace Buffer

theorem no_active {buffer : Buffer} (empty : buffer.entries = []) (room : 1 < buffer.cells.size) :
    buffer.active = 0 := by
  have length := congrArg List.length empty
  simp [entries, entriesFrom] at length
  omega

theorem alike_empty {buffer other : Buffer} (size : buffer.cells.size = other.cells.size)
    (room : 1 < other.cells.size) (empty : buffer.entries = []) (blank : other.entries = []) :
    buffer.Alike other where
  size := size
  active := (no_active empty (size ▸ room)).trans (no_active blank room).symm
  cell pos first last := by
    rw [no_active empty (size ▸ room)] at last
    omega

end Buffer

namespace Worker

-- A worker that has been made with these settings, and has returned from every run so far.
inductive Used (settings : Settings) : Worker → Prop where
  | fresh {worker : Worker} (made : ofSettings settings = .ok worker) : Used settings worker
  | again {α ρ σ : Type} {worker : Worker} (used : Used settings worker) (table : Table)
      (perform : Perform α ρ σ) (transaction : Transaction α ρ) (arena : Arena σ)
      (returned : (worker.runWith (fun past => (transaction past).execute table perform)
        arena).run.result.isOver = true) :
      Used settings
        (worker.runWith (fun past => (transaction past).execute table perform) arena).worker

variable {settings : Settings} {worker fresh : Worker}

theorem fresh_clean (made : ofSettings settings = .ok fresh) : fresh.Clean := by
  rw [ofSettings] at made
  split at made <;> cases made
  exact ⟨Buffer.entries_of_capacity _, Buffer.entries_of_capacity _, rfl, rfl⟩

theorem fresh_new (made : ofSettings settings = .ok fresh) :
    fresh.list.calls = #[] ∧ fresh.stats = {} := by
  rw [ofSettings] at made
  split at made <;> cases made
  exact ⟨rfl, rfl⟩

theorem run_with_clean {α ρ σ : Type} (execute : List (Call α ρ) → Worker → Arena σ → Executed α ρ σ)
    (worker : Worker) (arena : Arena σ) (returned : (worker.runWith execute arena).run.result.isOver = true) :
    (worker.runWith execute arena).worker.Clean := by
  obtain ⟨last, _, ended⟩ : ∃ last, Turn.Reaches execute ⟨[], worker, arena⟩ last ∧
      last.Last execute (Turn.run execute worker.settings.maxRetries.toNat ⟨[], worker, arena⟩) :=
    Turn.run_ends _ _
  exact Turn.last_clean ended returned

theorem used_clean (used : Used settings worker) : worker.Clean := by
  cases used with
  | fresh made => exact fresh_clean made
  | again used table perform transaction arena returned =>
      exact run_with_clean _ _ arena returned

theorem used_make (used : Used settings worker) :
    settings.validate = .ok () ∧
      worker.make = ⟨settings, (4 * settings.maxAccesses.toNat + 1, settings.tryLockSpins),
        4 * settings.maxAccesses.toNat + 1, settings.maxAccesses.toNat⟩ := by
  induction used with
  | fresh made => exact make_of_settings settings _ made
  | again used table perform transaction arena returned ih =>
      exact ⟨ih.1, (make_run_with table perform transaction _ arena).trans ih.2⟩

theorem used_rooms (used : Used settings worker) :
    1 < worker.list.buffer.cells.size ∧ 1 < worker.retro.buffer.cells.size := by
  obtain ⟨valid, made⟩ := used_make used
  have positive := ((Settings.valid_iff settings).mp valid).1
  have list : worker.list.buffer.cells.size = 4 * settings.maxAccesses.toNat + 1 :=
    congrArg (Prod.fst ∘ Make.list) made
  have retro : worker.retro.buffer.cells.size = 4 * settings.maxAccesses.toNat + 1 :=
    congrArg Make.retro made
  omega

theorem used_alike (used : Used settings worker) (made : ofSettings settings = .ok fresh) :
    worker.Alike worker fresh := by
  have same : worker.make = fresh.make := (used_make used).2.trans (used_make (.fresh made)).2.symm
  have lists : worker.list.make = fresh.list.make := congrArg Make.list same
  obtain ⟨listRoom, retroRoom⟩ := used_rooms (.fresh made)
  obtain ⟨calls, stats⟩ := fresh_new made
  have clean := used_clean used
  have blank := fresh_clean made
  refine ⟨congrArg Make.settings same, ⟨?_, congrArg Prod.snd lists, ?_⟩, ?_, ?_, ?_⟩
  · exact Buffer.alike_empty (congrArg Prod.fst lists) listRoom clean.list blank.list
  · rw [calls, Array.append_empty]
  · exact Buffer.alike_empty (congrArg Make.retro same) retroRoom clean.retro blank.retro
  · have capacity : worker.sets.capacity = fresh.sets.capacity := congrArg Make.accesses same
    calc
      worker.sets = ⟨worker.sets.capacity, worker.sets.reads, worker.sets.writes⟩ := rfl
      _ = ⟨fresh.sets.capacity, fresh.sets.reads, fresh.sets.writes⟩ := by
        rw [capacity, clean.reads, clean.writes, blank.reads, blank.writes]
      _ = fresh.sets := rfl
  · rw [stats, Statistics.plus_nothing]

end Worker

theorem Worker.settled_alike {α ρ σ : Type} {base : Worker} {ran other : Ran α ρ σ}
    (same : SameRun base ran other) (seat : Nat) :
    (ran.settled seat).store = (other.settled seat).store ∧
      (ran.settled seat).outside = (other.settled seat).outside := by
  rw [Ran.settled, Ran.settled, ← same.result, ← same.arena]
  cases ran.run.result with
  | ok value => exact ⟨rfl, rfl⟩
  | fault fault => exact ⟨rfl, rfl⟩
  | misuse misuse => exact ⟨(same.worker.list.release_all ran.arena.store).2, rfl⟩
  | waiting id => exact ⟨rfl, rfl⟩

theorem used_worker_is_as_new {α ρ σ : Type} (settings : Settings) (worker fresh : Worker)
    (used : Worker.Used settings worker) (made : Worker.ofSettings settings = .ok fresh) (table : Table)
    (perform : Perform α ρ σ) (transaction : Transaction α ρ) (arena : Arena σ) :
    let execute := fun past => (transaction past).execute table perform
    let ran := worker.runWith execute arena
    let new := fresh.runWith execute arena
    -- The calls of the body, with all that they read and were told, and what the run returns.
    ran.run.calls = new.run.calls ∧ ran.run.result = new.run.result ∧
    -- What has been asked of locks, and what has been counted, since the run began.
    ran.worker.list.calls = worker.list.calls ++ new.worker.list.calls ∧
    ran.run.stats = worker.stats.plus new.run.stats ∧
    -- The records, the others, and the workers in the other seats.
    ran.arena = new.arena ∧
    ∀ seat, (ran.settled seat).store = (new.settled seat).store ∧
      (ran.settled seat).outside = (new.settled seat).outside := by
  intro execute ran new
  have same : Worker.SameRun worker ran new :=
    Worker.same_run table perform transaction (Worker.used_alike used made) arena
  exact ⟨same.calls, same.result, same.worker.list.calls, same.stats, same.arena,
    Worker.settled_alike same⟩

-- Loses the race for the first record, which somebody else has, and gets it in the second attempt.
def comeback : Transaction Act Reply := fun past =>
  if past.isEmpty then .read 1 fun _ => .read 0 .done
  else .act (.release 0) fun _ => .write 1 7 fun _ => .read 0 .done

def worn : Ran Act Reply Outsiders :=
  Worker.alert.runWith (fun past => (comeback past).execute .double (Act.perform .double))
    (Turn.after [.bump 0, .bump 1, .take 0 .writer]).arena

theorem worn_is_as_new :
    worn.worker.list.buffer.cell 1 = ⟨some ⟨0, 1⟩, .shared, .unlocked, none⟩ ∧
    let execute := fun past => (comeback past).execute .double (Act.perform .double)
    (worn.worker.runWith execute worn.arena).worker.list.calls =
      worn.worker.list.calls ++ (Worker.alert.runWith execute worn.arena).worker.list.calls ∧
    (worn.worker.runWith execute worn.arena).arena =
      (Worker.alert.runWith execute worn.arena).arena := by
  refine ⟨by decide +kernel, ?_⟩
  intro execute
  have used : Worker.Used { maxAccesses := 8, readLockThreshold := 1 } worn.worker :=
    .again (.fresh (rfl : Worker.ofSettings _ = .ok .alert)) .double (Act.perform .double) comeback
      _ (by decide +kernel)
  obtain ⟨_, _, calls, _, arena, _⟩ := used_worker_is_as_new _ worn.worker .alert used rfl .double
    (Act.perform .double) comeback worn.arena
  exact ⟨calls, arena⟩

end LockOrder
