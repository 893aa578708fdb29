import Mathlib
import LockOrder.Proofs.Worker.Interleaved
import LockOrder.Proofs.Worker.Released

set_option autoImplicit false

namespace LockOrder

variable {ids : List UInt64} {table : Table}

theorem Worker.Orderly.keeps_contracts {worker : Worker} {arena : Arena Outsiders} {others : Tally}
    (different : ids.Nodup) (fits : table.Fits ids) (nonzero : 0 ∉ ids)
    (orderly : worker.Orderly ids others arena) (phase : Phase) (sound : worker.Sound ids)
    (has : Point.Has worker phase) : worker.KeepsContracts table phase arena.store := by
  refine ⟨⟨_, orderly.in_order.accounts⟩, fun others accounts point course => ?_⟩
  have begins : Point.InOrder ids ⟨phase, worker, ⟨arena.store, others⟩⟩ :=
    ⟨sound, ⟨orderly.sound, orderly.around.sound.named, accounts, orderly.clean⟩, has⟩
  exact (Point.course_in_order fits nonzero course begins).unbroken different

def Worker.ComesTo (table : Table) (arena : Arena Outsiders) (seat : Nat) (worker : Worker)
    (transaction : Transaction Act Reply) : Turn Act Reply Outsiders → Prop :=
  Turn.Reaches (fun past => (transaction past).execute table (Act.perform table))
    ⟨[], worker, arena.setSeat seat none⟩

-- The arenas that moves lead to, and those that are found inside a body, as far as it has got.
inductive Arena.Visited (table : Table) (first : Arena Outsiders) : Arena Outsiders → Prop where
  | start : Visited table first first
  | moved {arena : Arena Outsiders} (move : Arena.Move) (visited : Visited table first arena) :
      Visited table first (arena.move table move).2
  | inside {arena : Arena Outsiders} {seat : Nat} {worker started : Worker}
      {turn : Turn Act Reply Outsiders} (transaction : Transaction Act Reply) (body : Body Act Reply)
      (visited : Visited table first arena) (here : arena.worker seat = some worker)
      (comes : worker.ComesTo table arena seat transaction turn)
      (start : turn.worker.start = (.ok (), started)) :
      Visited table first (body.execute table (Act.perform table) started turn.arena).arena

structure Worker.Abides (table : Table) (arena : Arena Outsiders) (seat : Nat) (worker : Worker)
    (transaction : Transaction Act Reply) : Prop where
  ended :
    let ran := worker.runWith (fun past => (transaction past).execute table (Act.perform table))
      (arena.setSeat seat none)
    ran.worker.list.breaches = #[] ∧ (ran.worker.list.releaseAll ran.arena.store).1.breaches = #[]
  between : ∀ turn, worker.ComesTo table arena seat transaction turn →
    turn.worker.KeepsContracts table .resting turn.arena.store
  inside : ∀ turn, worker.ComesTo table arena seat transaction turn →
    ∀ started, turn.worker.start = (.ok (), started) → ∀ body : Body Act Reply,
      let executed := body.execute table (Act.perform table) started turn.arena
      executed.worker.KeepsContracts table .serving executed.arena.store

theorem Turn.inside_orderly {others : Tally} {turn : Turn Act Reply Outsiders} {started : Worker}
    (different : ids.Nodup) (fits : table.Fits ids) (nonzero : 0 ∉ ids)
    (orderly : turn.Orderly ids others) (start : turn.worker.start = (.ok (), started))
    (body : Body Act Reply) :
    let executed := body.execute table (Act.perform table) started turn.arena
    executed.worker.Active ids ∧ executed.worker.StillOrderly ids others executed.arena := by
  obtain ⟨idle, lost, before⟩ := orderly
  have begun := Worker.start_orderly idle before
  rw [start] at begun
  have active : started.Active ids := ⟨[], Worker.start_active idle start⟩
  obtain ⟨goes, still⟩ := (keeps_order_execute different fits nonzero).execute body started turn.arena
    (others.plus lost) active begun
  exact ⟨goes, still.more⟩

theorem Arena.Visited.orderly {first arena : Arena Outsiders} (different : ids.Nodup)
    (fits : table.Fits ids) (nonzero : 0 ∉ ids) (visited : Visited table first arena)
    (orderly : ∃ others, first.Orderly ids others) : ∃ others, arena.Orderly ids others := by
  induction visited with
  | start => exact orderly
  | moved move visited ih =>
      obtain ⟨others, orderly⟩ := ih
      cases move with
      | act act => exact ⟨others, orderly.act fits act⟩
      | transact seat transaction =>
          rename_i arena
          rw [Arena.move, transact]
          cases here : arena.worker seat with
          | none => exact ⟨others, orderly⟩
          | some worker =>
              have keeps := keeps_order_transaction different fits nonzero transaction
              obtain ⟨_, lost, settled⟩ :=
                run_orderly different fits nonzero transaction keeps orderly seat worker here
              exact ⟨_, settled⟩
  | inside transaction body visited here comes start ih =>
      obtain ⟨others, orderly⟩ := ih
      have keeps := keeps_order_transaction different fits nonzero transaction
      have reached := Turn.reached_orderly different nonzero keeps comes (orderly.leaves_seat _ _ here)
      obtain ⟨_, lost, executed⟩ := Turn.inside_orderly different fits nonzero reached start body
      exact ⟨_, executed.around⟩

theorem Arena.orderly_of_table (table : Table) (workers : List Worker) (draws : Draws)
    (made : ∀ worker ∈ workers, ∃ settings, Worker.ofSettings settings = .ok worker) :
    (Arena.ofTable table workers draws).Orderly (Table.slotIds table.size) fun _ _ => 0 where
  sound := sound_of_table table workers draws made
  accounts := Store.accounts_congr (accounts_of_table table workers draws) fun slot kind =>
    (Nat.zero_add _).symm
  seated := by
    intro seat worker here
    obtain ⟨settings, fresh⟩ := made worker (mem_of_seat here)
    rw [Worker.ofSettings] at fresh
    split at fresh <;> cases fresh
    rfl

theorem run_abides {arena : Arena Outsiders} {others : Tally} (different : ids.Nodup)
    (fits : table.Fits ids) (nonzero : 0 ∉ ids) (orderly : arena.Orderly ids others) (seat : Nat)
    (worker : Worker) (here : arena.worker seat = some worker) (transaction : Transaction Act Reply) :
    worker.Abides table arena seat transaction := by
  have keeps := keeps_order_transaction different fits nonzero transaction
  have first := orderly.leaves_seat seat worker here
  refine ⟨?_, fun turn comes => ?_, fun turn comes started start body => ?_⟩
  · intro ran
    obtain ⟨⟨_, last⟩, _⟩ := run_orderly different fits nonzero transaction keeps orderly seat worker here
    exact ⟨last.clean, last.in_order.release_all nonzero⟩
  · obtain ⟨idle, _, reached⟩ := Turn.reached_orderly different nonzero keeps comes first
    exact reached.keeps_contracts different fits nonzero .resting idle.sound idle.empty
  · have reached := Turn.reached_orderly different nonzero keeps comes first
    obtain ⟨⟨accesses, busy⟩, _, executed⟩ :=
      Turn.inside_orderly different fits nonzero reached start body
    exact executed.keeps_contracts different fits nonzero .serving busy.sound ⟨accesses, busy.records⟩

theorem runs_break_no_contract (table : Table) (few : table.size < UInt64.size)
    (workers : List Worker) (draws : Draws)
    (made : ∀ worker ∈ workers, ∃ settings, Worker.ofSettings settings = .ok worker)
    (arena : Arena Outsiders) (visited : Arena.Visited table (.ofTable table workers draws) arena)
    (seat : Nat) (worker : Worker) (here : arena.worker seat = some worker)
    (transaction : Transaction Act Reply) : worker.Abides table arena seat transaction := by
  have different := Table.slot_ids_different table.size table.size_le
  have nonzero := Table.zero_not_slot_id table.size few
  obtain ⟨others, orderly⟩ := visited.orderly different table.fits_slot_ids nonzero
    ⟨_, Arena.orderly_of_table table workers draws made⟩
  exact run_abides different table.fits_slot_ids nonzero orderly seat worker here transaction

-- The second attempt waits for the lock that it remembers, shares one before it, and then wants all
-- of that.
def raising : Transaction Act Reply := fun past =>
  .act (.bump 1) fun _ => .read 1 fun _ =>
    if past.isEmpty then .done (.error .conflict)
    else .act (.bump 0) fun _ => .read 0 fun _ => .write 0 5 fun _ => .done (.ok 7)

def raisingRun : Ran Act Reply Outsiders :=
  Worker.alert.runWith (fun past => (raising past).execute .double (Act.perform .double))
    ((Arena.ofTable .double [.alert] {}).setSeat 0 none)

theorem alert_made : ∀ worker ∈ [Worker.alert], ∃ settings, Worker.ofSettings settings = .ok worker := by
  intro worker listed
  rw [List.mem_singleton.mp listed]
  exact ⟨{ maxAccesses := 8, readLockThreshold := 1 }, rfl⟩

theorem raising_breaks_no_contract : raisingRun.run.result = .ok 7 ∧
    raisingRun.worker.list.calls.contains (.upgrade 1 .reader 5000 true) = true ∧
    raisingRun.worker.list.breaches = #[] := by
  refine ⟨by cbv, by cbv, ?_⟩
  exact (runs_break_no_contract .double (by decide) [.alert] {} alert_made _ .start 0 .alert rfl
    raising).ended.1

end LockOrder
