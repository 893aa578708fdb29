import LockOrder.Proofs.Worker.Uncontended
import Mathlib.Data.List.Forall2

set_option autoImplicit false

namespace LockOrder

def Body.plainInTurn {α ρ : Type} : List (Body α ρ) → KeyMap → Option (List (Plain α ρ))
  | [], _ => some []
  | body :: rest, map =>
      (body.plain map).bind fun plain => (plainInTurn rest plain.values).map (plain :: ·)

structure Plain.Fits {α ρ : Type} (settings : Settings) (plain : Plain α ρ) : Prop where
  returned : ∃ value, plain.result = .ok value
  reads : plain.reads ≤ settings.maxAccesses.toNat
  writes : plain.writes ≤ settings.maxAccesses.toNat

def Event.IsPlain (seat : Nat) (event : Event Act Reply) (plain : Plain Act Reply) : Prop :=
  ∃ run value, event = .ran seat (some run) ∧ plain.result = .ok value ∧
    run.calls = [⟨plain.events, .ok value, .ok value⟩] ∧ run.result = .ok value

namespace Arena

theorem inside_of_seat {σ : Type} {arena : Arena σ} {seat : Nat} {worker : Worker}
    (here : arena.worker seat = some worker) : seat < arena.seats.size := by
  apply Classical.byContradiction
  intro outside
  simp [Arena.worker, outside] at here

theorem worker_set_seat {σ : Type} {arena : Arena σ} {seat : Nat} (inside : seat < arena.seats.size)
    (worker : Option Worker) : (arena.setSeat seat worker).worker seat = worker := by
  simp [Arena.worker, setSeat, inside]

end Arena

namespace Store

theorem version_commit_le (store : Store) (accesses : List Access) (slot : Nat) :
    ((store.commit accesses).recordAt slot).version.toNat ≤ (store.recordAt slot).version.toNat + 1 := by
  by_cases inside : slot < store.records.size
  · rw [record_at_commit store accesses slot inside]
    cases Access.latest slot accesses with
    | none => exact Nat.le_succ _
    | some value =>
        simp only [Record.install, UInt64.toNat_add, UInt64.toNat_one]
        exact Nat.mod_le _ _
  · rw [record_at_commit_outside store accesses slot (Nat.le_of_not_lt inside)]
    exact Nat.le_succ _

end Store

variable {ids : List UInt64} {table : Table} {worker : Worker}

namespace Worker

theorem able_after_run (different : ids.Nodup) (fits : table.Fits ids)
    (transaction : Transaction Act Reply) (able : worker.Able ids) (arena : Arena Outsiders)
    (sound : arena.Sound ids) :
    let ran := worker.runWith (fun past => (transaction past).execute table (Act.perform table)) arena
    ran.run.result.isOver = true → ran.worker.Able ids ∧ ran.worker.settings = worker.settings := by
  intro ran closed
  let execute : Execution := fun past => (transaction past).execute table (Act.perform table)
  have executes : Executes ids table execute := executes_transaction different fits transaction
  have frames : Frames execute := fun past => framed_execute table (Act.keeps_ids table) (transaction past)
  have told := run_from_told different execute executes worker.settings.maxRetries.toNat [] worker arena
    able.rests.idle sound
  have framed := Turn.framed_run frames worker.settings.maxRetries.toNat ⟨[], worker, arena⟩
  obtain ⟨last, _, ended⟩ : ∃ last, Turn.Reaches execute ⟨[], worker, arena⟩ last ∧
      last.Last execute (Turn.run execute worker.settings.maxRetries.toNat ⟨[], worker, arena⟩) :=
    Turn.run_ends _ _
  have clean : ran.worker.Clean := Turn.last_clean ended closed
  have settings : ran.worker.settings = worker.settings := framed.settings
  refine ⟨⟨⟨⟨told.worker, clean.list⟩, clean.retro⟩, ?_, ?_, ?_⟩, settings⟩
  · rw [settings]
    exact able.valid
  · rw [settings]
    exact framed.capacity.trans able.capacity
  · rw [settings]
    exact framed.size.trans able.size

end Worker

namespace Arena

-- A worker in its seat that nobody disturbs, and records whose versions last for so many runs more.
structure Quiet (ids : List UInt64) (seat : Nat) (settings : Settings) (runs : Nat)
    (arena : Arena Outsiders) : Prop where
  sound : arena.Sound ids
  free : ∀ slot, (arena.store.recordAt slot).lock.isFree = true
  low : ∀ slot, (arena.store.recordAt slot).version.toNat + runs ≤ Record.beingWritten.toNat
  able : ∃ worker : Worker, arena.worker seat = some worker ∧ worker.Able ids ∧
    worker.settings = settings

variable {seat runs : Nat} {settings : Settings} {arena : Arena Outsiders}

theorem Quiet.transact (different : ids.Nodup) (nonzero : 0 ∉ ids) (fits : table.Fits ids)
    (quiet : arena.Quiet ids seat settings (runs + 1)) (transaction : Transaction Act Reply)
    (plain : Plain Act Reply) (ran : (transaction []).plain (table.values arena.store) = some plain)
    (within : plain.Fits settings) :
    let moved := arena.move table (.transact seat transaction)
    moved.1.IsPlain seat plain ∧ table.values moved.2.store = plain.values ∧
      moved.2.Quiet ids seat settings runs := by
  obtain ⟨sound, free, low, worker, here, able, rfl⟩ := quiet
  obtain ⟨⟨value, returned⟩, reads, writes⟩ := within
  have told := move_told different fits arena sound (.transact seat transaction)
  have away := sound_set_seat sound seat none fun _ same => by cases same
  have again := Worker.able_after_run different fits transaction able (arena.setSeat seat none) away
  have small : ∀ slot, (arena.store.recordAt slot).version < Record.beingWritten := fun slot =>
    UInt64.lt_iff_toNat_lt.mpr (Nat.lt_of_lt_of_le (by omega) (low slot))
  obtain ⟨⟨last, same⟩, values⟩ := Worker.run_plain different nonzero fits (Act.perform table)
    transaction (arena.setSeat seat none) sound.named (fun slot _ => RwLock.counts_of_free (free slot))
    small plain value ran returned able reads writes
  rw [same] at again
  have moved : arena.move table (.transact seat transaction) =
      (.ran seat (some ⟨[⟨plain.events, .ok value, .ok value⟩], .ok value, last.stats⟩),
        ((arena.setSeat seat none).withStore
          (arena.store.commit (Event.accesses table plain.events))).setSeat seat (some last)) := by
    simp only [Arena.move, Arena.transact, here, same]
    rfl
  rw [moved] at told ⊢
  refine ⟨⟨_, value, rfl, returned, rfl, rfl⟩, values.symm, told.sound, fun slot => ?_, fun slot => ?_,
    last, ?_, again rfl⟩
  · exact (congrArg RwLock.isFree (arena.store.commit_keeps _ slot).1).trans (free slot)
  · have more := arena.store.version_commit_le (Event.accesses table plain.events) slot
    exact Nat.le_trans (Nat.add_le_add_right more runs) (by have := low slot; omega)
  · have away : ((arena.setSeat seat none).withStore
        (arena.store.commit (Event.accesses table plain.events))).seats.size = arena.seats.size := by
      simp [withStore, setSeat]
    exact worker_set_seat (away.symm ▸ inside_of_seat here) (some last)

end Arena

-- A worker that nobody disturbs runs one transaction after the other as if there were no locks at all.
theorem session_is_plain (different : ids.Nodup) (nonzero : 0 ∉ ids) (fits : table.Fits ids) (seat : Nat)
    (settings : Settings) (transactions : List (Transaction Act Reply)) (arena : Arena Outsiders)
    (quiet : arena.Quiet ids seat settings transactions.length) (plains : List (Plain Act Reply))
    (ran : Body.plainInTurn (transactions.map (· [])) (table.values arena.store) = some plains)
    (within : ∀ plain ∈ plains, plain.Fits settings) :
    let session := Arena.play table (transactions.map (.transact seat)) arena
    List.Forall₂ (Event.IsPlain seat) session.1 plains ∧
      table.values session.2.store = (plains.map Plain.values).getLastD (table.values arena.store) ∧
      session.2.Quiet ids seat settings 0 := by
  induction transactions generalizing arena plains with
  | nil =>
      cases ran
      exact ⟨.nil, rfl, quiet⟩
  | cons transaction rest ih =>
      rw [List.map_cons, Body.plainInTurn] at ran
      obtain ⟨plain, first, onward⟩ := Option.bind_eq_some_iff.mp ran
      obtain ⟨others, later, rfl⟩ := Option.map_eq_some_iff.mp onward
      obtain ⟨event, values, still⟩ := quiet.transact different nonzero fits transaction plain first
        (within plain (List.mem_cons_self ..))
      rw [← values] at later
      obtain ⟨events, ended, silent⟩ := ih _ still others later fun other listed =>
        within other (List.mem_cons_of_mem _ listed)
      refine ⟨.cons event events, ?_, silent⟩
      change _ = (plain.values :: others.map Plain.values).getLastD _
      rw [List.getLastD_cons, ← values]
      exact ended

example :
    let twice := (Arena.play .double [.act (.install 0 3), .act (.install 1 4),
      .transact 0 fun _ => swap, .transact 0 fun _ => swap] (.ofTable .double [.alert] {})).2.store
    Table.values .double twice 0 = some 3 ∧ Table.values .double twice 1 = some 4 ∧
      (twice.recordAt 0).version = 3 ∧ (twice.recordAt 1).version = 3 := by
  refine ⟨by cbv, by cbv, by cbv, by cbv⟩

end LockOrder
