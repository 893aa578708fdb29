import LockOrder.Proofs.Table.Start
import LockOrder.Proofs.Worker.Retry
import LockOrder.Proofs.Worker.Turns

set_option autoImplicit false

namespace LockOrder

namespace Table

theorem zero_not_slot_id (count : Nat) (few : count < UInt64.size) : 0 ∉ slotIds count := by
  intro listed
  obtain ⟨slot, inside, zero⟩ := List.mem_map.mp listed
  have below := List.mem_range.mp inside
  have word := congrArg UInt64.toNat zero
  have size : UInt64.size = 2 ^ 64 := rfl
  simp only [UInt64.toNat_ofNat', UInt64.toNat_zero] at word
  omega

end Table

theorem Arena.accounts_of_table (table : Table) (workers : List Worker) (draws : Draws) :
    (Arena.ofTable table workers draws).store.Accounts
      (Arena.ofTable table workers draws).outside.tally := by
  intro slot inside
  have free : ((Arena.ofTable table workers draws).store.recordAt slot).lock = ⟨0⟩ := by
    change slot < table.records.size at inside
    have bound : slot < table.keys.length := by simpa [Table.records] using inside
    simp [Store.recordAt, ofTable, Table.records, bound]
  rw [free]
  refine RwLock.counts_congr RwLock.counts_free fun kind => ?_
  simp [ofTable, Outsiders.tally, Outsiders.heldAt, Outsiders.forRecords, Array.getElem?_replicate]
  split <;> rfl

namespace Worker

structure Clean (worker : Worker) : Prop where
  list : worker.list.entries = []
  retro : worker.retro.buffer.entries = []
  reads : worker.sets.reads = #[]
  writes : worker.sets.writes = #[]

variable {worker left : Worker} {store last : Store}

theorem clear_attempt_clean (worker : Worker) (retro : RetroList)
    (empty : retro.buffer.entries = []) : Clean { worker.clearAttempt with retro } where
  list := Buffer.entries_clear _
  retro := empty
  reads := rfl
  writes := rfl

theorem finish_clean (worker : Worker) (store : Store) : (worker.finish store).1.Clean :=
  clear_attempt_clean _ _ (Buffer.entries_clear _)

theorem after_attempt_clean (ended result : Outcome UInt64)
    (done : worker.afterAttempt store ended = (some result, left, last))
    (closed : result.isOver = true) : left.Clean := by
  unfold afterAttempt at done
  split at done
  · cases done
    obtain ⟨list, retro, reads, writes⟩ := finish_clean worker store
    exact ⟨list, retro, reads, writes⟩
  · split at done
    · split at done <;> cases done
      cases closed
    · cases done
      exact finish_clean worker store
  · rename_i unfinished fault
    cases done
    cases ended with
    | ok value => exact absurd rfl (unfinished value)
    | fault other => exact absurd rfl (fault other)
    | misuse misuse => cases closed
    | waiting id => cases closed

theorem again_clean (ended : Outcome UInt64)
    (again : worker.afterAttempt store ended = (none, left, last)) : left.forget.Clean := by
  obtain ⟨fault, rfl, aborted⟩ := after_attempt_again ended again
  unfold abort at aborted
  generalize (worker.countAbort fault).releaseLocks store = released at aborted
  obtain ⟨after, next⟩ := released
  simp only at aborted
  split at aborted <;> cases aborted
  exact ⟨Buffer.entries_clear _, Buffer.entries_clear _, rfl, rfl⟩

end Worker

namespace Turn

theorem last_clean {α ρ σ : Type} {execute : List (Call α ρ) → Worker → Arena σ → Executed α ρ σ}
    {turn : Turn α ρ σ} {ran : Ran α ρ σ} (last : turn.Last execute ran)
    (closed : ran.run.result.isOver = true) : ran.worker.Clean := by
  cases last with
  | broken misuse worker start => cases closed
  | closed started tired worker call mid result store start attempted left =>
      exact Worker.after_attempt_clean call.ended result left closed
  | spent after next =>
      obtain ⟨_, call, tired, mid, _, _, left, _⟩ := next_cases next
      exact Worker.again_clean call.ended left

variable {ids : List UInt64} {table : Table} {turn after : Turn Act Reply Outsiders}
  {execute : Worker.Execution}

structure Free (ids : List UInt64) (outside : Tally) (store : Store)
    (turn : Turn Act Reply Outsiders) : Prop where
  idle : turn.worker.Idle ids
  around : turn.arena.Sound ids
  balanced : 0 ∉ ids → Balanced outside store turn.arena.outside.tally turn.arena.store

theorem held_by_idle {worker : Worker} (idle : worker.Idle ids) (arena : Arena Outsiders)
    (slot : Nat) (kind : Handle) :
    arena.held worker.list slot kind = arena.outside.tally slot kind := by
  rw [Arena.held, idle.empty]
  rfl

theorem next_free (different : ids.Nodup) (executes : Worker.Executes ids table execute)
    {outside : Tally} {store : Store} (next : turn.next execute = some after)
    (free : turn.Free ids outside store) : after.Free ids outside store := by
  obtain ⟨started, call, tired, mid, start, attempted, left, _, arena⟩ := next_cases next
  have rested := Worker.attempt_over different executes free.idle free.around start attempted left
  have idle : after.worker.Idle ids := rested.idle fun outcome none => by cases none
  refine ⟨idle, arena ▸ rested.around, fun nonzero => ?_⟩
  have step := rested.balanced nonzero fun id none => by cases none
  rw [← arena] at step
  refine ((free.balanced nonzero).congr fun slot kind => ?_).trans (step.congr (held_by_idle idle _))
  exact (held_by_idle free.idle turn.arena slot kind).symm

end Turn

-- What a run leaves behind, at its end and between any two of its attempts.
def Worker.LetsGo (table : Table) (arena : Arena Outsiders) (seat : Nat) (worker : Worker)
    (transaction : Transaction Act Reply) : Prop :=
  let execute : Worker.Execution := fun past => (transaction past).execute table (Act.perform table)
  let away := arena.setSeat seat none
  let ran := worker.runWith execute away
  -- After every return the worker is as good as new; a worker that is dropped lets go of all.
  (ran.run.result.isOver = true → ran.worker.Clean) ∧
    (ran.worker.list.releaseAll ran.arena.store).1.isHolding = false ∧
    ((∀ id, ran.run.result ≠ .waiting id) →
      Balanced arena.outside.tally arena.store (ran.settled seat).outside.tally
        (ran.settled seat).store) ∧
    ∀ turn, Turn.Reaches execute ⟨[], worker, away⟩ turn →
      turn.worker.list.entries = [] ∧
        Balanced arena.outside.tally arena.store turn.arena.outside.tally turn.arena.store

theorem run_lets_go {ids : List UInt64} {table : Table} (different : ids.Nodup)
    (fits : table.Fits ids) (nonzero : 0 ∉ ids) (arena : Arena Outsiders) (sound : arena.Sound ids)
    (seat : Nat) (worker : Worker) (here : arena.worker seat = some worker)
    (transaction : Transaction Act Reply) : worker.LetsGo table arena seat transaction := by
  have executes := executes_transaction different fits transaction
  have away : (arena.setSeat seat none).Sound ids :=
    Arena.sound_set_seat sound seat none fun other same => by cases same
  have idle := sound.seats seat worker here
  have told := Worker.run_from_told different _ executes worker.settings.maxRetries.toNat [] worker
    (arena.setSeat seat none) idle away
  refine ⟨fun closed => ?_, ?_, ?_, fun turn reaches => ?_⟩
  · let execute : Worker.Execution := fun past => (transaction past).execute table (Act.perform table)
    let first : Turn Act Reply Outsiders := ⟨[], worker, arena.setSeat seat none⟩
    obtain ⟨last, _, ended⟩ : ∃ last, Turn.Reaches execute first last ∧
        last.Last execute (first.run execute worker.settings.maxRetries.toNat) := Turn.run_ends _ _
    exact Turn.last_clean ended closed
  · exact CurrentList.release_all_holds_nothing told.worker.list _ nonzero
  · exact (seat_told different _ executes seat worker arena sound here).balanced nonzero
  · have free := Turn.reaches_keeps (Turn.Free ids arena.outside.tally arena.store)
      (fun _ _ next free => Turn.next_free different executes next free) reaches
      ⟨idle, away, fun _ => .refl⟩
    exact ⟨free.idle.empty, free.balanced nonzero⟩

theorem no_lock_outlives_its_run (table : Table) (few : table.size < UInt64.size)
    (workers : List Worker) (draws : Draws)
    (made : ∀ worker ∈ workers, ∃ settings, Worker.ofSettings settings = .ok worker)
    (moves : List Arena.Move) :
    let played := Arena.play table moves (Arena.ofTable table workers draws)
    let ids := Table.slotIds table.size
    played.2.Sound ids ∧
    -- Between the moves all locks that are taken are taken by others.
    (¬ Arena.Hangs played.1 → played.2.store.Accounts played.2.outside.tally) ∧
    ∀ (arena : Arena Outsiders) (seat : Nat) (worker : Worker)
      (transaction : Transaction Act Reply), arena.Sound ids → arena.worker seat = some worker →
        worker.LetsGo table arena seat transaction := by
  intro played ids
  have different := Table.slot_ids_different table.size table.size_le
  have fits := table.fits_slot_ids
  have nonzero := Table.zero_not_slot_id table.size few
  obtain ⟨sound, _, balanced⟩ := Arena.play_told different fits moves _
    (Arena.sound_of_table table workers draws made)
  refine ⟨sound, fun ends => ?_, fun arena seat worker transaction sound here => ?_⟩
  · exact (balanced nonzero ends).accounts (Arena.accounts_of_table table workers draws)
  · exact run_lets_go different fits nonzero arena sound seat worker here transaction

-- The second attempt owns the record, since the first one has read it, and writes more than it may.
def overflow : Transaction Act Reply := fun past =>
  .read 5 fun _ =>
    if past.isEmpty then .act (.install 5 7) fun _ => .done (.ok 0)
    else .write 5 8 fun _ => .write 5 9 fun _ => .done (.ok 0)

def overflowed : Ran Act Reply Outsiders :=
  Worker.small.runWith (fun past => (overflow past).execute .single (Act.perform .single))
    ((Arena.ofTable .single [.small] {}).setSeat 0 none)

theorem overflowed_holding : overflowed.run.result = .misuse (.full .writeSet) ∧
    (overflowed.arena.store.recordAt 0).lock.isWriteLocked = true := by
  decide +kernel

theorem overflowed_lets_go : (overflowed.settled 0).store.Accounts (overflowed.settled 0).outside.tally := by
  obtain ⟨sound, free, lets⟩ := no_lock_outlives_its_run .single (by decide) [.small] {} small_made []
  have accounts := free fun ⟨_, _, _, listed, _⟩ => by cases listed
  obtain ⟨_, _, balanced, _⟩ := lets (.ofTable .single [.small] {}) 0 .small overflow sound rfl
  refine (balanced fun id waits => ?_).accounts accounts
  have result := overflowed_holding.1
  rw [overflowed, waits] at result
  cases result

end LockOrder
