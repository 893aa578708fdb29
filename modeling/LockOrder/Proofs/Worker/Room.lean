import Mathlib
import LockOrder.Proofs.Worker.Counts
import LockOrder.Proofs.Worker.Reuse

set_option autoImplicit false

namespace LockOrder

variable {α ρ σ : Type}

namespace Worker

variable {worker after : Worker}

structure Ample (worker : Worker) : Prop where
  list : worker.list.buffer.capacity = 4 * worker.sets.capacity
  retro : worker.retro.buffer.capacity = 4 * worker.sets.capacity

theorem Ample.of_make (ample : worker.Ample) (same : after.make = worker.make) : after.Ample := by
  have list : after.list.buffer.capacity = worker.list.buffer.capacity :=
    congrArg (fun make : Make => make.list.1 - 1) same
  have retro : after.retro.buffer.capacity = worker.retro.buffer.capacity :=
    congrArg (fun make : Make => make.retro - 1) same
  have accesses : after.sets.capacity = worker.sets.capacity := congrArg Make.accesses same
  exact ⟨by rw [list, accesses, ample.list], by rw [retro, accesses, ample.retro]⟩

-- Between two attempts: nothing is listed, and no more is remembered than one attempt may ask for.
structure Roomy (worker : Worker) : Prop where
  ample : worker.Ample
  empty : worker.list.buffer.active = 0
  few : worker.settings.retrospective = true →
    worker.retro.buffer.active ≤ 2 * worker.sets.capacity

theorem start_roomy (roomy : worker.Roomy) :
    ∃ started, worker.start = (.ok (), started) ∧
      started.list.buffer.active ≤ 2 * worker.sets.capacity ∧
      started.sets.reads.size = 0 ∧ started.sets.writes.size = 0 := by
  obtain ⟨⟨list, _⟩, empty, few⟩ := roomy
  rw [start_eq]
  simp only
  by_cases remembers : (worker.settings.retrospective && !worker.retro.isEmpty) = true
  · have bound := few (Bool.and_eq_true_iff.mp remembers).1
    have listed := worker.retro.buffer.length_entries_le
    have fits : worker.retro.buffer.active ≤ worker.list.buffer.capacity := by omega
    rw [if_pos remembers, seeded]
    generalize isGoodSeed _ = good
    obtain ⟨filled, seeded, count⟩ : ∃ filled,
        (worker.list.require good .badSeed).seed worker.retro = .ok filled ∧
          filled.buffer.active ≤ worker.retro.buffer.active := by
      cases good with
      | false => exact CurrentList.seed_counts (worker.list.require false _) empty worker.retro fits
      | true => exact CurrentList.seed_counts worker.list empty worker.retro fits
    simp only [require, seeded]
    exact ⟨_, rfl, Nat.le_trans count bound, rfl, rfl⟩
  · rw [if_neg remembers]
    exact ⟨_, rfl, by simp only [empty]; omega, rfl, rfl⟩

theorem secure_counts (worker : Worker) (store : Store)
    (room : worker.list.buffer.active + worker.sets.writes.size ≤ worker.list.buffer.capacity) :
    (∀ bounded, (worker.secure store).1 ≠ .misuse (.full bounded)) ∧
      (worker.secure store).2.1.sets = worker.sets.sortWrites := by
  rw [secure_eq, secureSorted]
  simp only
  generalize worker.sets.sortWrites.writesAscend = ordered
  have size : (AccessSets.sortWrites worker.sets).writes.toList.length = worker.sets.writes.size := by
    simp [AccessSets.sortWrites]
  have merges : ∀ misuse, (worker.list.require ordered .unsortedWrites).mergeWrites
      worker.sets.sortWrites.writes.toList ≠ .error misuse := by
    intro misuse broken
    have full := CurrentList.merge_writes_full _ misuse broken
    rw [size] at full
    cases ordered <;> exact absurd full (Nat.not_lt.mpr room)
  simp only [require]
  cases merged : (worker.list.require ordered .unsortedWrites).mergeWrites
      worker.sets.sortWrites.writes.toList with
  | error misuse => exact absurd merged (merges misuse)
  | ok list =>
      simp only
      cases list.isEmpty with
      | true => exact ⟨fun _ same => (by cases same), rfl⟩
      | false => exact ⟨list.acquire_through_never_full _ store, rfl⟩

theorem sets_installs (writes : List WriteAccess) (worker : Worker) (store : Store) :
    (writes.foldl install (worker, store)).1.sets = worker.sets := by
  induction writes generalizing worker store with
  | nil => rfl
  | cons write rest ih => exact ih _ _

theorem commit_counts (worker : Worker) (store : Store)
    (room : worker.list.buffer.active + worker.sets.writes.size ≤ worker.list.buffer.capacity) :
    (∀ bounded, (worker.commit store).1 ≠ .misuse (.full bounded)) ∧
      (worker.commit store).2.1.sets = worker.sets.sortWrites := by
  obtain ⟨never, sets⟩ := secure_counts worker store room
  rw [commit]
  generalize worker.secure store = result at never sets
  obtain ⟨outcome, after, next⟩ := result
  cases outcome with
  | ok _ =>
      simp only [settle]
      cases after.firstStale next with
      | some read => exact ⟨fun _ same => (by cases same), sets⟩
      | none => exact ⟨fun _ same => (by cases same), (sets_installs _ after next).trans sets⟩
  | fault _ => exact ⟨never, sets⟩
  | misuse _ => exact ⟨never, sets⟩
  | waiting _ => exact ⟨never, sets⟩

structure Modest (worker : Worker) : Prop where
  ample : worker.Ample
  reads : worker.sets.reads.size ≤ worker.sets.capacity
  writes : worker.sets.writes.size ≤ worker.sets.capacity

theorem conclude_counts (executed : Executed α ρ σ)
    (room : executed.worker.list.buffer.active + executed.worker.sets.writes.size ≤
      executed.worker.list.buffer.capacity) :
    (∀ bounded, (conclude executed).1 = .misuse (.full bounded) →
      executed.outcome = .misuse (.full bounded)) ∧
    (conclude executed).2.1.make = executed.worker.make ∧
    (conclude executed).2.1.sets.reads.size = executed.worker.sets.reads.size ∧
    (conclude executed).2.1.sets.writes.size = executed.worker.sets.writes.size := by
  rw [conclude]
  cases executed.outcome with
  | ok value =>
      obtain ⟨never, sets⟩ := commit_counts executed.worker executed.arena.store room
      have made := make_commit executed.worker executed.arena.store
      simp only
      generalize executed.worker.commit executed.arena.store = result at never sets made
      obtain ⟨outcome, after, next⟩ := result
      simp only at never sets made
      refine ⟨fun bounded same => ?_, made, by rw [sets]; rfl, by simp [sets, AccessSets.sortWrites]⟩
      cases outcome with
      | misuse why =>
          cases same
          exact absurd rfl (never bounded)
      | ok _ => cases same
      | fault _ => cases same
      | waiting _ => cases same
  | fault why => exact ⟨fun _ same => (by cases same), rfl, rfl, rfl⟩
  | misuse why => exact ⟨fun _ same => same, rfl, rfl, rfl⟩
  | waiting id => exact ⟨fun _ same => (by cases same), rfl, rfl, rfl⟩

theorem finish_roomy (ample : worker.Ample) (retro : RetroList)
    (size : retro.buffer.cells.size = worker.retro.buffer.cells.size)
    (few : worker.settings.retrospective = true → retro.buffer.active ≤ 2 * worker.sets.capacity) :
    Roomy { worker.clearAttempt with retro } where
  ample := ample.of_make ((make_with_retro worker.clearAttempt retro size).trans (make_clear_attempt worker))
  empty := rfl
  few := few

theorem abort_roomy (modest : worker.Modest) (fault : Fault) (store : Store) :
    ∃ left last, worker.abort fault store = (.ok (), left, last) ∧ left.Roomy := by
  have counted : (worker.countAbort fault).sets = worker.sets := by
    rw [countAbort]
    split <;> rfl
  have same := (make_release_locks (worker.countAbort fault) store).trans (make_count_abort worker fault)
  have sets : ((worker.countAbort fault).releaseLocks store).1.sets = worker.sets := counted
  rw [abort_eq]
  simp only
  generalize (worker.countAbort fault).releaseLocks store = released at same sets
  have ample := modest.ample.of_make same
  have reads := modest.reads
  have writes := modest.writes
  rw [← sets] at reads writes
  rw [remembered]
  by_cases retrospective : released.1.settings.retrospective = true
  · rw [if_pos retrospective]
    rcases RetroList.construct_counts released.1.retro released.1.sets
        released.1.settings.readLockThreshold released.2 with ⟨retro, built, few⟩ | ⟨_, full⟩
    · rw [built]
      refine ⟨_, _, rfl, finish_roomy ample retro ?_ fun _ => by omega⟩
      exact RetroList.size_construct _ retro _ _ _ built
    · have room := ample.retro
      omega
  · rw [if_neg retrospective]
    exact ⟨_, _, rfl, finish_roomy ample _ rfl fun always => absurd always retrospective⟩

theorem after_attempt_roomy (modest : worker.Modest) (store last : Store) (ended : Outcome UInt64)
    (result : Option (Outcome UInt64)) (left : Worker)
    (done : worker.afterAttempt store ended = (result, left, last)) :
    (result = none → left.Roomy) ∧
      ∀ misuse, result = some (.misuse misuse) → ended = .misuse misuse := by
  cases ended with
  | ok value =>
      cases done
      exact ⟨fun gone => (by cases gone), fun _ same => by cases same⟩
  | misuse why =>
      cases done
      exact ⟨fun gone => (by cases gone), fun misuse same => Option.some.inj same⟩
  | waiting id =>
      cases done
      exact ⟨fun gone => (by cases gone), fun _ same => by cases same⟩
  | fault fault =>
      rw [afterAttempt] at done
      cases retryable : fault.isRetryable with
      | false =>
          simp only [retryable] at done
          cases done
          exact ⟨fun gone => (by cases gone), fun _ same => by cases same⟩
      | true =>
          obtain ⟨aborted, final, leaves, roomy⟩ := abort_roomy modest fault store
          simp only [retryable, leaves] at done
          cases done
          exact ⟨fun _ => roomy, fun _ same => by cases same⟩

end Worker

-- The body has asked for so many reads at most, and for so many writes.
def CallOf.Within (table : Table) (most : Nat) (call : Call α ρ) : Prop :=
  call.events.countP (Event.asksRead table) ≤ most ∧ call.events.countP (Event.asksWrite table) ≤ most

instance (table : Table) (most : Nat) (call : Call α ρ) : Decidable (call.Within table most) :=
  inferInstanceAs (Decidable (_ ∧ _))

def Event.isRun : Event α ρ → Bool
  | .ran _ _ => true
  | _ => false

-- Another worker has run out of room, on behalf of which the body has been called.
def CallOf.Overfilled (bounded : Bounded) (call : Call α ρ) : Prop :=
  ∃ seat inner, Event.ran seat (some inner) ∈ call.events ∧ inner.result = .misuse (.full bounded)

namespace Worker

variable {worker started tired : Worker} {table : Table} {perform : Perform α ρ σ}
  {transaction : Transaction α ρ}

theorem attempt_modest (roomy : worker.Roomy) (start : worker.start = (.ok (), started))
    (past : List (Call α ρ)) (arena mid : Arena σ) (call : Call α ρ)
    (attempted : attempt (fun past => (transaction past).execute table perform) past started arena =
      (call, tired, mid)) (within : call.Within table worker.sets.capacity) :
    tired.Modest ∧
      ∀ bounded, call.ended = .misuse (.full bounded) → call.Overfilled bounded := by
  obtain ⟨ready, begins, listed, noReads, noWrites⟩ := start_roomy roomy
  obtain rfl : ready = started := congrArg Prod.snd (begins.symm.trans start)
  have made : ready.make = worker.make := by
    have made := make_start worker
    rwa [begins] at made
  have capacity : ready.sets.capacity = worker.sets.capacity := congrArg Make.accesses made
  have room := (roomy.ample.of_make made).list
  have broke := fun misuse =>
    Body.execute_broke table perform (transaction past) ready arena misuse
  have counted := counted_execute table perform (transaction past) ready arena
  have ended := conclude_counts ((transaction past).execute table perform ready arena)
  rw [attempt] at attempted
  generalize (transaction past).execute table perform ready arena = executed at *
  have events : call.events = executed.events := by cases attempted; rfl
  rw [CallOf.Within, events] at within
  obtain ⟨reads, writes⟩ := within
  obtain ⟨list, readSet, writeSet⟩ := counted.costs
  have same : executed.worker.list.buffer.capacity = ready.list.buffer.capacity :=
    congrArg (fun make : Make => make.list.1 - 1) counted.make
  have accesses : executed.worker.sets.capacity = ready.sets.capacity :=
    congrArg Make.accesses counted.make
  obtain ⟨stops, kept, readsLeft, writesLeft⟩ := ended (by omega)
  have result : call.ended = (conclude executed).1 ∧ tired = (conclude executed).2.1 := by
    cases attempted
    exact ⟨rfl, rfl⟩
  obtain ⟨last, rfl⟩ := result
  have tiredCapacity : (conclude executed).2.1.sets.capacity = executed.worker.sets.capacity :=
    congrArg Make.accesses kept
  refine ⟨⟨(roomy.ample.of_make made).of_make (kept.trans counted.make), by omega, by omega⟩, ?_⟩
  intro bounded full
  obtain ⟨event, member, broken⟩ := broke _ (stops bounded (last ▸ full))
  rcases counted.exceeds bounded event member broken with many | ⟨seat, inner, rfl, stopped⟩
  · rcases many with many | many | many <;> omega
  · exact ⟨seat, inner, events ▸ member, stopped⟩

end Worker

namespace Turn

variable {table : Table} {perform : Perform α ρ σ} {transaction : Transaction α ρ}
  {turn after : Turn α ρ σ} {most : Nat}

def Roomy (table : Table) (most : Nat) (turn : Turn α ρ σ) : Prop :=
  turn.worker.sets.capacity = most ∧
    ((∀ call ∈ turn.past, call.Within table most) → turn.worker.Roomy)

theorem roomy_next (next : turn.next (fun past => (transaction past).execute table perform) = some after)
    (roomy : turn.Roomy table most) : after.Roomy table most := by
  obtain ⟨rfl, ready⟩ := roomy
  have made := make_next (fun past => make_execute table perform (transaction past)) next
  obtain ⟨started, call, tired, mid, start, attempted, left, past, _⟩ := next_cases next
  refine ⟨congrArg Worker.Make.accesses made, fun within => ?_⟩
  rw [past] at within
  have before := ready fun other listed => within other (List.mem_append_left _ listed)
  obtain ⟨modest, _⟩ := Worker.attempt_modest before start turn.past turn.arena mid call attempted
    (within call (List.mem_append_right _ (List.mem_singleton_self call)))
  exact (Worker.after_attempt_roomy modest _ _ _ _ _ left).1 rfl

theorem last_overfilled {ran : Ran α ρ σ} (roomy : turn.Roomy table most)
    (last : turn.Last (fun past => (transaction past).execute table perform) ran)
    (within : ∀ call ∈ ran.run.calls, call.Within table most) (bounded : Bounded)
    (full : ran.run.result = .misuse (.full bounded)) :
    ∃ call ∈ ran.run.calls, call.Overfilled bounded := by
  obtain ⟨rfl, ready⟩ := roomy
  cases last with
  | broken misuse worker start =>
      obtain ⟨_, starts, _⟩ := Worker.start_roomy (ready within)
      rw [starts] at start
      cases start
  | closed started tired worker call mid result store start attempted left =>
      have before := ready fun other listed => within other (List.mem_append_left _ listed)
      have here : call ∈ turn.past ++ [call] :=
        List.mem_append_right _ (List.mem_singleton_self call)
      obtain ⟨modest, overfilled⟩ := Worker.attempt_modest before start turn.past turn.arena mid call
        attempted (within call here)
      have ended := (Worker.after_attempt_roomy modest _ _ _ _ _ left).2 _ (congrArg some full)
      exact ⟨call, here, overfilled bounded ended⟩
  | spent after next => cases full

end Turn

theorem Worker.used_roomy {settings : Settings} {worker : Worker} (used : Used settings worker) :
    worker.Roomy ∧ worker.sets.capacity = settings.maxAccesses.toNat := by
  obtain ⟨_, made⟩ := used_make used
  obtain ⟨listRoom, retroRoom⟩ := used_rooms used
  have clean := used_clean used
  have accesses : worker.sets.capacity = settings.maxAccesses.toNat := congrArg Make.accesses made
  have list : worker.list.buffer.capacity = 4 * settings.maxAccesses.toNat :=
    congrArg (fun make : Make => make.list.1 - 1) made
  have retro : worker.retro.buffer.capacity = 4 * settings.maxAccesses.toNat :=
    congrArg (fun make : Make => make.retro - 1) made
  refine ⟨⟨⟨by rw [list, accesses], by rw [retro, accesses]⟩, ?_, fun _ => ?_⟩, accesses⟩
  · exact Buffer.no_active clean.list listRoom
  · rw [Buffer.no_active clean.retro retroRoom]
    exact Nat.zero_le _

theorem lock_lists_are_large_enough (settings : Settings) (valid : settings.validate = .ok ()) :
    settings.listCapacity.toNat = 4 * settings.maxAccesses.toNat ∧
    ∀ worker, Worker.Used settings worker → ∀ (table : Table) (perform : Perform α ρ σ)
      (transaction : Transaction α ρ) (arena : Arena σ),
      let ran := worker.runWith (fun past => (transaction past).execute table perform) arena
      (∀ call ∈ ran.run.calls, call.Within table settings.maxAccesses.toNat) →
      -- Only the run of another worker, from inside the body, can have run out of room.
      ∀ bounded, ran.run.result = .misuse (.full bounded) →
        ∃ call ∈ ran.run.calls, call.Overfilled bounded := by
  refine ⟨settings.list_capacity valid, ?_⟩
  intro worker used table perform transaction arena ran within bounded full
  obtain ⟨roomy, capacity⟩ := Worker.used_roomy used
  let execute := fun past => (transaction past).execute table perform
  obtain ⟨last, reaches, ended⟩ : ∃ last, Turn.Reaches execute ⟨[], worker, arena⟩ last ∧
      last.Last execute (Turn.run execute worker.settings.maxRetries.toNat ⟨[], worker, arena⟩) :=
    Turn.run_ends _ _
  have ready := Turn.reaches_keeps (Turn.Roomy table settings.maxAccesses.toNat)
    (fun _ _ next roomy => Turn.roomy_next next roomy) reaches ⟨capacity, fun _ => roomy⟩
  exact Turn.last_overfilled ready ended within bounded full

-- Reads a hot record and writes another one in each of two attempts, four records in all.
def stretched : Transaction Act Reply := fun past =>
  if past.isEmpty then
    .act (.bump 0) fun _ => .read 0 fun _ => .write 1 7 fun _ => .done (.error .conflict)
  else .act (.bump 2) fun _ => .read 2 fun _ => .write 3 7 fun _ => .done (.ok 0)

def Table.quadruple : Table := ⟨[0, 1, 2, 3], by decide⟩

def Worker.narrow : Worker where
  settings := { maxAccesses := 1, readLockThreshold := 1 }
  list := .ofCapacity 4 5000
  retro := .ofCapacity 4
  sets := { capacity := 1 }

def stretchedRun : Ran Act Reply Outsiders :=
  Worker.narrow.runWith (fun past => (stretched past).execute .quadruple (Act.perform .quadruple))
    (Arena.ofTable .quadruple [] {})

theorem stretched_has_room :
    (stretchedRun.worker.list.buffer.cell 4).id = 4 ∧
      ∀ bounded, stretchedRun.run.result ≠ .misuse (.full bounded) := by
  refine ⟨by cbv, fun bounded full => ?_⟩
  obtain ⟨_, enough⟩ := lock_lists_are_large_enough { maxAccesses := 1, readLockThreshold := 1 } rfl
  have within : stretchedRun.run.calls.all (fun call => decide (call.Within .quadruple 1)) = true := by
    cbv
  have alone : stretchedRun.run.calls.all (fun call => !call.events.any Event.isRun) = true := by cbv
  obtain ⟨call, called, seat, inner, nested, _⟩ := enough .narrow (.fresh rfl) .quadruple
    (Act.perform .quadruple) stretched (Arena.ofTable .quadruple [] {})
    (fun call called => of_decide_eq_true (List.all_eq_true.mp within call called)) bounded full
  have nothing := List.all_eq_true.mp alone call called
  have some : call.events.any Event.isRun = true := List.any_eq_true.mpr ⟨_, nested, rfl⟩
  rw [some] at nothing
  cases nothing

end LockOrder
