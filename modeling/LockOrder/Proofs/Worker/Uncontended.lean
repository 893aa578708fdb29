import LockOrder.Proofs.Worker.Alone
import LockOrder.Proofs.Worker.Poised
import LockOrder.Proofs.Worker.Released

set_option autoImplicit false

namespace LockOrder

variable {α ρ σ : Type}

namespace Event

def isRead : Event α ρ → Bool
  | .read _ (.ok _) => true
  | _ => false

def isWrite : Event α ρ → Bool
  | .write _ _ (.ok _) => true
  | _ => false

end Event

def Outcome.ofExcept {β : Type} : Except Fault β → Outcome β
  | .ok value => .ok value
  | .error why => .fault why

structure Plain (α ρ : Type) where
  events : List (Event α ρ)
  result : Except Fault UInt64
  values : KeyMap

namespace Plain

def after (event : Event α ρ) (rest : Plain α ρ) : Plain α ρ :=
  { rest with events := event :: rest.events }

def reads (plain : Plain α ρ) : Nat := plain.events.countP Event.isRead

def writes (plain : Plain α ρ) : Nat := plain.events.countP Event.isWrite

theorem reads_read (key value : UInt64) (rest : Plain α ρ) :
    (rest.after (.read key (.ok value))).reads = rest.reads + 1 :=
  List.countP_cons_of_pos rfl

theorem writes_write (key value : UInt64) (rest : Plain α ρ) :
    (rest.after (.write key value (.ok ()))).writes = rest.writes + 1 :=
  List.countP_cons_of_pos rfl

end Plain

-- A body that lets others act has no plain run.
def Body.plain : Body α ρ → KeyMap → Option (Plain α ρ)
  | .done result, map => some ⟨[], result, map⟩
  | .read key next, map =>
      match map key with
      | some value => ((next (.ok value)).plain map).map (.after (.read key (.ok value)))
      | none => ((next (.error .notFound)).plain map).map (.after (.read key (.fault .notFound)))
  | .write key value next, map =>
      match map key with
      | some _ =>
          ((next (.ok ())).plain (map.write key value)).map (.after (.write key value (.ok ())))
      | none =>
          ((next (.error .notFound)).plain map).map (.after (.write key value (.fault .notFound)))
  | .act _ _, _ => none
  | .transact _ _ _, _ => none

theorem plain_reads_succeed (body : Body α ρ) (map : KeyMap) (plain : Plain α ρ)
    (ran : body.plain map = some plain) (key : UInt64) (here : (map key).isSome = true)
    (outcome : Outcome UInt64) (listed : Event.read key outcome ∈ plain.events) :
    ∃ value, outcome = .ok value := by
  induction body generalizing map plain with
  | done result =>
      cases ran
      cases listed
  | read other next ih =>
      unfold Body.plain at ran
      split at ran
      · rename_i value found
        obtain ⟨rest, onward, rfl⟩ := Option.map_eq_some_iff.mp ran
        rcases List.mem_cons.mp listed with same | later
        · cases same
          exact ⟨value, rfl⟩
        · exact ih _ map rest onward here later
      · rename_i missing
        obtain ⟨rest, onward, rfl⟩ := Option.map_eq_some_iff.mp ran
        rcases List.mem_cons.mp listed with same | later
        · cases same
          rw [missing] at here
          cases here
        · exact ih _ map rest onward here later
  | write other value next ih =>
      unfold Body.plain at ran
      split at ran
      · obtain ⟨rest, onward, rfl⟩ := Option.map_eq_some_iff.mp ran
        rcases List.mem_cons.mp listed with same | later
        · cases same
        · refine ih _ (map.write other value) rest onward ?_ later
          unfold KeyMap.write
          split
          · rfl
          · exact here
      · obtain ⟨rest, onward, rfl⟩ := Option.map_eq_some_iff.mp ran
        rcases List.mem_cons.mp listed with same | later
        · cases same
        · exact ih _ map rest onward here later
  | act action next ih => cases ran
  | transact seat inner next inner_ih ih => cases ran

namespace Executed

variable {ids : List UInt64} {begun : Store}

structure IsPlain (ids : List UInt64) (begun : Store) (table : Table) (accesses : List Access)
    (plain : Plain Act Reply) (arena : Arena σ) (executed : Executed Act Reply σ) : Prop where
  events : executed.events = plain.events
  outcome : executed.outcome = .ofExcept plain.result
  arena : executed.arena = arena.withStore executed.arena.store
  alone : executed.worker.Alone ids begun accesses executed.arena.store
  values : plain.values = table.values (begun.commit accesses)
  reads : executed.worker.sets.reads.size ≤ executed.worker.sets.capacity
  writes : executed.worker.sets.writes.size ≤ executed.worker.sets.capacity

variable {table : Table} {plain : Plain Act Reply} {arena : Arena σ}
  {executed : Executed Act Reply σ}

theorem IsPlain.after {accesses : List Access} {store : Store} (event : Event Act Reply)
    (plainly : executed.IsPlain ids begun table accesses plain (arena.withStore store)) :
    (executed.after event).IsPlain ids begun table accesses (plain.after event) arena where
  events := congrArg (event :: ·) plainly.events
  outcome := plainly.outcome
  arena := plainly.arena
  alone := plainly.alone
  values := plainly.values
  reads := plainly.reads
  writes := plainly.writes

theorem execute_plain (different : ids.Nodup) (table : Table) (fits : table.Fits ids)
    (perform : Perform Act Reply σ) (low : ∀ slot, (begun.recordAt slot).version < Record.beingWritten)
    (body : Body Act Reply) (accesses : List Access) (worker : Worker) (arena : Arena σ)
    (plain : Plain Act Reply) (ran : body.plain (table.values (begun.commit accesses)) = some plain)
    (alone : worker.Alone ids begun accesses arena.store)
    (reads : worker.sets.reads.size + plain.reads ≤ worker.sets.capacity)
    (writes : worker.sets.writes.size + plain.writes ≤ worker.sets.capacity) :
    (body.execute table perform worker arena).IsPlain ids begun table
      (accesses ++ Event.accesses table plain.events) plain arena := by
  induction body generalizing accesses worker arena plain with
  | done result =>
      cases ran
      rw [Event.accesses, List.filterMap_nil, List.append_nil]
      cases result <;> exact ⟨rfl, rfl, rfl, alone, rfl, reads, writes⟩
  | read key next ih =>
      unfold Body.plain at ran
      unfold Body.execute
      cases found : table.slot key with
      | error fault =>
          obtain rfl := table.only_not_found found
          rw [Table.values_missing found] at ran
          obtain ⟨rest, onward, rfl⟩ := Option.map_eq_some_iff.mp ran
          have unanswered : worker.readKey table key arena.store =
              (.fault .notFound, worker, arena.store) := by
            simp [Worker.readKey, found]
          rw [unanswered]
          exact (ih _ accesses worker _ rest onward alone reads writes).after _
      | ok slot =>
          obtain ⟨value, here⟩ : ∃ value, table.values (begun.commit accesses) key = some value :=
            ⟨_, Table.values_found found⟩
          rw [here] at ran
          obtain ⟨rest, onward, rfl⟩ := Option.map_eq_some_iff.mp ran
          rw [Plain.reads_read] at reads
          obtain ⟨seen, after, store, answered, same, ⟨alone, capacity⟩, more, written⟩ :=
            Worker.read_key_advances different table fits alone key slot found (low slot) (by omega)
          cases here.symm.trans same
          rw [answered]
          have made : accesses ++ Event.accesses table (rest.after (.read key (.ok value))).events =
              accesses ++ [.read slot value] ++ Event.accesses table rest.events := by
            simp [Plain.after, Event.accesses, Event.access?, found, Except.toOption]
          rw [made]
          rw [← Store.commit_read slot value] at onward
          refine (ih _ _ after (arena.withStore store) rest onward alone ?_ ?_).after _
          · omega
          · rw [written, capacity]
            exact writes
  | write key value next ih =>
      unfold Body.plain at ran
      unfold Body.execute
      cases found : table.slot key with
      | error fault =>
          obtain rfl := table.only_not_found found
          rw [Table.values_missing found] at ran
          obtain ⟨rest, onward, rfl⟩ := Option.map_eq_some_iff.mp ran
          have unanswered : worker.writeKey table key value arena.store =
              (.fault .notFound, worker) := by
            simp [Worker.writeKey, found]
          rw [unanswered]
          exact (ih _ accesses worker arena rest onward alone reads writes).after _
      | ok slot =>
          rw [Table.values_found found] at ran
          obtain ⟨rest, onward, rfl⟩ := Option.map_eq_some_iff.mp ran
          rw [Plain.writes_write] at writes
          obtain ⟨after, written, ⟨next, capacity⟩, read, more⟩ :=
            Worker.write_key_advances table fits alone key value slot found (by omega)
          rw [written]
          have made : accesses ++ Event.accesses table (rest.after (.write key value (.ok ()))).events =
              accesses ++ [.write slot value] ++ Event.accesses table rest.events := by
            simp [Plain.after, Event.accesses, Event.access?, found, Except.toOption]
          rw [made]
          have within : ∀ key slot, table.slot key = .ok slot → slot < begun.records.size := by
            rw [← Store.size_of_bare alone.bare, Store.size_of_ids alone.named]
            exact fits
          rw [← Table.values_write within key slot found] at onward
          refine (ih _ _ after arena rest onward next ?_ ?_).after _
          · rw [read, capacity]
            exact reads
          · omega
  | act action next ih => cases ran
  | transact seat inner next inner_ih ih => cases ran

end Executed

namespace Worker

-- A worker that may start a transaction, and has the room that its settings ask for.
structure Able (ids : List UInt64) (worker : Worker) : Prop where
  rests : worker.Rests ids
  valid : worker.settings.validate = .ok ()
  capacity : worker.sets.capacity = worker.settings.maxAccesses.toNat
  size : worker.list.buffer.cells.size = worker.settings.listCapacity.toNat + 1

theorem able_of_settings (ids : List UInt64) (settings : Settings) (worker : Worker)
    (made : ofSettings settings = .ok worker) : worker.Able ids := by
  have rests := rests_of_settings ids settings worker made
  unfold ofSettings at made
  split at made
  · cases made
  · rename_i valid
    cases made
    exact ⟨rests, valid, rfl, by simp [CurrentList.ofCapacity, Buffer.ofCapacity]⟩

variable {ids : List UInt64} {worker : Worker} {table : Table}

theorem Able.room (able : worker.Able ids) :
    2 * worker.sets.capacity ≤ worker.list.buffer.capacity := by
  have bound : worker.settings.maxAccesses.toNat ≤ Settings.largestMaxAccesses.toNat := by
    have valid := able.valid
    unfold Settings.validate at valid
    split at valid
    · cases valid
    · rename_i few
      exact UInt32.le_iff_toNat_le.mp (UInt32.not_lt.mp (not_or.mp few).2)
  have largest : Settings.largestMaxAccesses.toNat = 1073741823 := by decide
  have word : worker.settings.listCapacity.toNat = worker.settings.maxAccesses.toNat * 4 := by
    have size : UInt32.size = 4294967296 := rfl
    rw [Settings.listCapacity, Nat.min_eq_left (by omega), UInt32.toNat_ofNat_of_lt' (by omega)]
  rw [Buffer.capacity, able.size, able.capacity, word]
  omega

theorem start_of_nothing (rests : worker.Rests ids) :
    worker.start = (.ok (), { worker with sets := worker.sets.clear }) := by
  have empty : worker.retro.isEmpty = true := by
    have length := Buffer.length_entries _ rests.idle.sound.retro.buffer.room
    rw [rests.nothing] at length
    simp [RetroList.isEmpty, Buffer.isEmpty, ← length]
  simp [start, empty]

theorem start_alone (able : worker.Able ids) (store : Store) (named : store.ids = ids)
    (free : store.Accounts fun _ _ => 0) :
    Alone ids store [] { worker with sets := worker.sets.clear } store where
  busy := start_active able.rests.idle (start_of_nothing able.rests)
  bare := rfl
  named := named
  accounts := by
    rw [able.rests.idle.empty]
    exact free
  current := by simp [AccessSets.clear]
  listed := by simp [able.rests.idle.empty]
  room := able.room

theorem close_alone {begun store : Store} {accesses : List Access} (different : ids.Nodup)
    (nonzero : 0 ∉ ids) (alone : worker.Alone ids begun accesses store) (free : begun.bare = begun)
    (reads : worker.sets.reads.size ≤ worker.sets.capacity)
    (writes : worker.sets.writes.size ≤ worker.sets.capacity) :
    (worker.commit store).1 = .ok () ∧
      ((worker.commit store).2.1.finish (worker.commit store).2.2).2 = begun.commit accesses := by
  have done := commit_succeeds alone reads writes
  obtain ⟨commits, sound, conserves⟩ := commit_cases different alone.busy store alone.named
  refine ⟨done, ?_⟩
  generalize worker.commit store = committed at done commits sound conserves
  obtain ⟨outcome, after, next⟩ := committed
  simp only at done commits sound conserves ⊢
  subst done
  cases commits with
  | committed _ bare current =>
      obtain ⟨leaves, idle⟩ := finish_leaves sound next
      have accounts := (conserves.trans (leaves.conserves nonzero)).accounts alone.accounts
      rw [idle.empty] at accounts
      rw [← Store.bare_of_accounts accounts fun _ _ => rfl, leaves.bare, bare, alone.bare, free]

theorem run_plain (different : ids.Nodup) (nonzero : 0 ∉ ids) (fits : table.Fits ids)
    (perform : Perform Act Reply σ) (transaction : Transaction Act Reply) (arena : Arena σ)
    (named : arena.store.ids = ids) (free : arena.store.Accounts fun _ _ => 0)
    (low : ∀ slot, (arena.store.recordAt slot).version < Record.beingWritten)
    (plain : Plain Act Reply) (value : UInt64)
    (ran : (transaction []).plain (table.values arena.store) = some plain)
    (returned : plain.result = .ok value) (able : worker.Able ids)
    (reads : plain.reads ≤ worker.settings.maxAccesses.toNat)
    (writes : plain.writes ≤ worker.settings.maxAccesses.toNat) :
    let made := Event.accesses table plain.events
    (∃ last, worker.runWith (fun past => (transaction past).execute table perform) arena =
      leave [⟨plain.events, .ok value, .ok value⟩] (.ok value) last
        (arena.withStore (arena.store.commit made))) ∧
    plain.values = table.values (arena.store.commit made) := by
  intro made
  have begun := start_alone able arena.store named free
  rw [← Store.commit_nothing arena.store] at ran
  obtain ⟨events, outcome, around, alone, values, fewReads, fewWrites⟩ :=
    Executed.execute_plain different table fits perform low (transaction []) [] _ arena plain ran begun
      (by simpa [AccessSets.clear, able.capacity] using reads)
      (by simpa [AccessSets.clear, able.capacity] using writes)
  rw [List.nil_append] at alone values
  obtain ⟨done, last⟩ := close_alone different nonzero alone
    (Store.bare_of_accounts free fun _ _ => rfl) fewReads fewWrites
  refine ⟨?_, values⟩
  rw [runWith, runFrom.eq_def]
  simp only [start_of_nothing able.rests, attempt, conclude]
  generalize (transaction []).execute table perform _ arena = executed at *
  rw [returned] at outcome
  rw [outcome]
  simp only [Outcome.ofExcept]
  generalize executed.worker.commit executed.arena.store = committed at done last
  obtain ⟨ended, after, next⟩ := committed
  simp only at done last
  subst done
  refine ⟨(after.finish next).1.countCommit, ?_⟩
  simp only [Outcome.map, afterAttempt, List.nil_append]
  rw [events, around]
  simp only [Arena.withStore, last]
  rfl

end Worker

theorem Event.write_mem_accesses_iff (table : Table) (events : List (Event Act Reply)) (slot : Nat)
    (value : UInt64) : .write slot value ∈ Event.accesses table events ↔
      ∃ key, table.slot key = .ok slot ∧ Event.write key value (.ok ()) ∈ events := by
  rw [Event.accesses, List.mem_filterMap]
  constructor
  · rintro ⟨event, listed, made⟩
    unfold Event.access? at made
    split at made
    · obtain ⟨place, _, wrong⟩ := Option.map_eq_some_iff.mp made
      cases wrong
    · rename_i key stored
      obtain ⟨place, found, same⟩ := Option.map_eq_some_iff.mp made
      cases same
      cases there : table.slot key with
      | error fault =>
          rw [there] at found
          cases found
      | ok other =>
          rw [there] at found
          cases found
          exact ⟨key, there, listed⟩
    · cases made
  · rintro ⟨key, found, listed⟩
    exact ⟨_, listed, by simp [Event.access?, found, Except.toOption]⟩

namespace Store

variable {table : Table} {events : List (Event Act Reply)} {store : Store} {key : UInt64} {slot : Nat}

theorem version_of_written (inside : slot < store.records.size)
    (low : (store.recordAt slot).version < Record.beingWritten - 1) (found : table.slot key = .ok slot)
    {stored : UInt64} (listed : Event.write key stored (.ok ()) ∈ events) :
    ((store.commit (Event.accesses table events)).recordAt slot).version.toNat =
      (store.recordAt slot).version.toNat + 1 := by
  have written := (Event.write_mem_accesses_iff table events slot stored).mpr ⟨key, found, listed⟩
  rw [record_at_commit _ _ slot inside]
  cases latest : Access.latest slot (Event.accesses table events) with
  | none => exact absurd written ((Access.latest_eq_none_iff slot).mp latest stored)
  | some newest =>
      have bound := UInt64.lt_iff_toNat_lt.mp low
      have marked : (Record.beingWritten - 1).toNat = 0x7fffffffffffffff := rfl
      simp only [Record.install, UInt64.toNat_add, UInt64.toNat_one]
      omega

theorem record_of_unwritten (inside : slot < store.records.size) (found : table.slot key = .ok slot)
    (unwritten : ∀ stored, Event.write key stored (.ok ()) ∉ events) :
    (store.commit (Event.accesses table events)).recordAt slot = store.recordAt slot := by
  have latest : Access.latest slot (Event.accesses table events) = none := by
    refine (Access.latest_eq_none_iff slot).mpr fun stored made => ?_
    obtain ⟨author, there, listed⟩ := (Event.write_mem_accesses_iff table _ slot stored).mp made
    rw [table.slot_injective found there] at listed
    exact unwritten stored listed
  rw [record_at_commit _ _ slot inside, latest]

end Store

structure Ran.IsPlain (table : Table) (plain : Plain Act Reply) (value : UInt64) (arena : Arena σ)
    (ran : Ran Act Reply σ) : Prop where
  calls : ran.run.calls = [⟨plain.events, .ok value, .ok value⟩]
  result : ran.run.result = .ok value
  reads : ∀ key slot outcome, table.slot key = .ok slot →
    Event.read key outcome ∈ plain.events → ∃ seen, outcome = .ok seen
  values : table.values ran.arena.store = plain.values
  written : ∀ key slot stored, table.slot key = .ok slot →
    Event.write key stored (.ok ()) ∈ plain.events →
      (ran.arena.store.recordAt slot).version.toNat = (arena.store.recordAt slot).version.toNat + 1
  unwritten : ∀ key slot, table.slot key = .ok slot →
    (∀ stored, Event.write key stored (.ok ()) ∉ plain.events) →
      ran.arena.store.recordAt slot = arena.store.recordAt slot
  hotness : ∀ slot, (ran.arena.store.recordAt slot).hotness = (arena.store.recordAt slot).hotness
  free : ∀ slot, (ran.arena.store.recordAt slot).lock.isFree = true
  others : ran.arena = arena.withStore { arena.store with records := ran.arena.store.records }

theorem uncontended_run_is_plain (table : Table) (few : table.size < UInt64.size)
    (perform : Perform Act Reply σ) (transaction : Transaction Act Reply) (arena : Arena σ)
    (named : arena.store.ids = Table.slotIds table.size)
    (free : ∀ slot, (arena.store.recordAt slot).lock.isFree = true)
    (low : ∀ slot, (arena.store.recordAt slot).version < Record.beingWritten - 1)
    (plain : Plain Act Reply) (value : UInt64)
    (ran : (transaction []).plain (table.values arena.store) = some plain)
    (returned : plain.result = .ok value) (worker other : Worker)
    (able : worker.Able (Table.slotIds table.size)) (otherAble : other.Able (Table.slotIds table.size))
    (reads : plain.reads ≤ min worker.settings.maxAccesses.toNat other.settings.maxAccesses.toNat)
    (writes : plain.writes ≤ min worker.settings.maxAccesses.toNat other.settings.maxAccesses.toNat) :
    let execute := fun past => (transaction past).execute table perform
    (worker.runWith execute arena).IsPlain table plain value arena ∧
      -- The settings make no difference.
      (other.runWith execute arena).run.calls = (worker.runWith execute arena).run.calls ∧
      (other.runWith execute arena).run.result = (worker.runWith execute arena).run.result ∧
      (other.runWith execute arena).arena = (worker.runWith execute arena).arena := by
  intro execute
  have different := Table.slot_ids_different table.size table.size_le
  have nonzero := Table.zero_not_slot_id table.size few
  have fits := table.fits_slot_ids
  have accounts : arena.store.Accounts fun _ _ => 0 := fun slot _ => RwLock.counts_of_free (free slot)
  have small : ∀ slot, (arena.store.recordAt slot).version < Record.beingWritten :=
    fun slot => UInt64.lt_trans (low slot) (by decide)
  obtain ⟨⟨last, same⟩, values⟩ := Worker.run_plain different nonzero fits perform transaction arena
    named accounts small plain value ran returned able (by omega) (by omega)
  obtain ⟨⟨otherLast, otherSame⟩, _⟩ := Worker.run_plain different nonzero fits perform transaction
    arena named accounts small plain value ran returned otherAble (by omega) (by omega)
  have within : ∀ key slot, table.slot key = .ok slot → slot < arena.store.records.size := by
    rw [Store.size_of_ids named]
    exact fits
  rw [same, otherSame]
  refine ⟨⟨rfl, rfl, ?_, values.symm, ?_, ?_, ?_, ?_, rfl⟩, rfl, rfl, rfl⟩
  · intro key slot outcome found listed
    refine plain_reads_succeed _ _ plain ran key ?_ outcome listed
    rw [Table.values_found found]
    rfl
  · intro key slot stored found listed
    exact Store.version_of_written (within key slot found) (low slot) found listed
  · intro key slot found unwritten
    exact Store.record_of_unwritten (within key slot found) found unwritten
  · intro slot
    exact (arena.store.commit_keeps _ slot).2
  · intro slot
    change ((arena.store.commit _).recordAt slot).lock.isFree = true
    rw [(arena.store.commit_keeps _ slot).1]
    exact free slot

-- Shares the lock of the greater record before it owns the other one, and needs all of both in the end.
def swap : Body Act Reply :=
  .read 1 fun
    | .error fault => .done (.error fault)
    | .ok greater =>
        .read 0 fun
          | .error fault => .done (.error fault)
          | .ok less => .write 1 less fun _ => .write 0 greater fun _ => .read 1 .done

theorem swap_plain (map : KeyMap) (less greater : UInt64) (here : map 0 = some less)
    (there : map 1 = some greater) : swap.plain map = some ⟨[.read 1 (.ok greater),
      .read 0 (.ok less), .write 1 less (.ok ()), .write 0 greater (.ok ()), .read 1 (.ok less)],
      .ok less, (map.write 1 less).write 0 greater⟩ := by
  simp [swap, Body.plain, KeyMap.write, Plain.after, here, there]

def hotPair : Arena Outsiders :=
  (Turn.after [.install 0 3, .install 1 4, .bump 0, .bump 1]).arena

def Worker.calm : Worker where
  settings := { maxAccesses := 3, readLockThreshold := 9, maxRetries := 0, retrospective := false }
  list := .ofCapacity 12 5000
  retro := .ofCapacity 12
  sets := { capacity := 3 }

theorem swap_is_plain : ∃ plain : Plain Act Reply,
    plain.values 0 = some 4 ∧ plain.values 1 = some 3 ∧
    let run := fun worker : Worker =>
      worker.runWith (fun _ => swap.execute .double (Act.perform .double)) hotPair
    (run .alert).IsPlain .double plain 3 hotPair ∧
      (run .calm).run.calls = (run .alert).run.calls ∧
      (run .calm).run.result = (run .alert).run.result ∧ (run .calm).arena = (run .alert).arena := by
  have ran := swap_plain (Table.values .double hotPair.store) 3 4 (by decide +kernel)
    (by decide +kernel)
  have size : hotPair.store.records.size = 2 := by decide +kernel
  have each : ∀ slot, (hotPair.store.recordAt slot).lock.isFree = true ∧
      (hotPair.store.recordAt slot).version < Record.beingWritten - 1 := by
    intro slot
    by_cases inside : slot < 2
    · have all : ∀ slot < 2, (hotPair.store.recordAt slot).lock.isFree = true ∧
          (hotPair.store.recordAt slot).version < Record.beingWritten - 1 := by decide +kernel
      exact all slot inside
    · have default : hotPair.store.recordAt slot = {} := by
        simp [Store.recordAt, show hotPair.store.records.size ≤ slot by omega]
        rfl
      rw [default]
      decide
  have plainly := uncontended_run_is_plain .double (by decide) (Act.perform .double) (fun _ => swap)
    hotPair (by decide +kernel) (fun slot => (each slot).1) (fun slot => (each slot).2) _ 3 ran rfl
    .alert .calm
    (Worker.able_of_settings _ { maxAccesses := 8, readLockThreshold := 1 } .alert rfl)
    (Worker.able_of_settings _ Worker.calm.settings .calm rfl) (by decide) (by decide)
  refine ⟨_, ?_, ?_, plainly⟩
  · rfl
  · rfl

end LockOrder
