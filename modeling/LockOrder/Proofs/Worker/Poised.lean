import LockOrder.Proofs.Worker.Frame
import LockOrder.Proofs.Worker.Retry
import LockOrder.Proofs.Worker.Runs

set_option autoImplicit false

namespace LockOrder

variable {ids : List UInt64} {α ρ σ : Type}

theorem Act.keeps_ids (table : Table) : Perform.KeepsIds (Act.perform table) :=
  fun action outside store => Mark.ids_of_lead (Act.perform_tells table action outside store).lead

namespace Worker

def Active (ids : List UInt64) (worker : Worker) : Prop := ∃ accesses, worker.Busy ids accesses

structure Poised (ids : List UInt64) (worker : Worker) : Prop where
  idle : worker.Idle ids
  wants : worker.settings.retrospective = true →
    ∀ entry ∈ worker.retro.buffer.entries, entry.preferred ≠ .unlocked

structure Rests (ids : List UInt64) (worker : Worker) : Prop where
  idle : worker.Idle ids
  nothing : worker.retro.buffer.entries = []

theorem rests_of_settings (ids : List UInt64) (settings : Settings) (worker : Worker)
    (made : ofSettings settings = .ok worker) : worker.Rests ids := by
  refine ⟨idle_of_settings ids settings worker made, ?_⟩
  unfold ofSettings at made
  split at made <;> cases made
  exact Buffer.entries_of_capacity _

variable {worker started left : Worker} {store last : Store}

theorem Rests.poised (rests : worker.Rests ids) : worker.Poised ids :=
  ⟨rests.idle, by simp [rests.nothing]⟩

theorem start_active (idle : worker.Idle ids) (start : worker.start = (.ok (), started)) :
    started.Busy ids [] := by
  obtain ⟨sound, empty, _⟩ := start_sound idle
  rw [start] at sound empty
  exact ⟨sound, AccessSets.records_empty _ empty⟩

theorem conclude_sound (different : ids.Nodup) (executed : Executed α ρ σ)
    (active : executed.worker.Active ids) (named : executed.arena.store.ids = ids) :
    (conclude executed).2.1.Sound ids := by
  obtain ⟨accesses, busy⟩ := active
  unfold conclude
  split
  · exact (commit_cases different busy executed.arena.store named).2.1
  · exact busy.sound

theorem again_poised (sound : worker.Sound ids) (ended : Outcome UInt64)
    (again : worker.afterAttempt store ended = (none, left, last)) : left.Poised ids := by
  obtain ⟨fault, rfl, aborted⟩ := after_attempt_again ended again
  obtain ⟨settings, remembered⟩ := abort_remembers sound fault aborted
  have idle := (abort_leaves sound store fault).2
  rw [aborted] at idle
  refine ⟨idle rfl, fun retrospective => ?_⟩
  rw [settings] at retrospective
  rw [remembered retrospective]
  exact RetroList.merged_all _ (fun entry mode wish => Entry.prefer_wants entry mode wish) _
    (RetroList.needed_wants _ _ _)

def KeepsActive (ids : List UInt64)
    (execute : List (Call α ρ) → Worker → Arena σ → Executed α ρ σ) : Prop :=
  ∀ past worker arena, worker.Busy ids [] → arena.store.ids = ids →
    (execute past worker arena).worker.Active ids ∧ (execute past worker arena).arena.store.ids = ids

theorem keeps_active_transaction (different : ids.Nodup) {table : Table} (fits : table.Fits ids)
    {perform : Perform α ρ σ} (keeps : perform.KeepsIds) (transaction : Transaction α ρ) :
    KeepsActive ids fun past => (transaction past).execute table perform := by
  have obeyed : Body.Obeyed table perform fun worker arena _ after last =>
      worker.Active ids → arena.store.ids = ids → after.Active ids ∧ last.store.ids = ids := {
    nothing := fun _ _ active named => ⟨active, named⟩
    both := fun first rest active named => rest (first active named).1 (first active named).2
    read := by
      rintro worker arena key answer ⟨accesses, busy⟩ named
      obtain ⟨bare, _, busy, _⟩ := read_key_goes different table busy named fits key
      exact ⟨⟨_, busy⟩, (Store.ids_of_bare bare).trans named⟩
    write := by
      rintro worker arena key value answer ⟨accesses, busy⟩ named
      obtain ⟨_, _, busy, _⟩ := write_key_goes table busy named fits key value
      exact ⟨⟨_, busy⟩, named⟩
    act := fun _ arena action active named =>
      ⟨active, (keeps action arena.outside arena.store).trans named⟩
    away := fun _ _ _ active named => ⟨active, named⟩
    ran := fun _ arena seat other inner _ _ active named =>
      ⟨active, (ids_of_nested (fun past => framed_execute table keeps (inner past)) other
        (arena.setSeat seat none) seat).trans named⟩ }
  intro past worker arena busy named
  exact obeyed.execute (transaction past) worker arena ⟨[], busy⟩ named

theorem attempt_sound (different : ids.Nodup)
    {execute : List (Call α ρ) → Worker → Arena σ → Executed α ρ σ}
    (keeps : KeepsActive ids execute) (past : List (Call α ρ)) (worker : Worker) (arena : Arena σ)
    (busy : worker.Busy ids []) (named : arena.store.ids = ids) :
    (attempt execute past worker arena).2.1.Sound ids ∧
      (attempt execute past worker arena).2.2.store.ids = ids := by
  obtain ⟨active, named⟩ := keeps past worker arena busy named
  exact ⟨conclude_sound different _ active named, (framed_conclude _).ids.trans named⟩

end Worker

namespace Turn

structure Poised (ids : List UInt64) (turn : Turn α ρ σ) : Prop where
  worker : turn.worker.Poised ids
  named : turn.arena.store.ids = ids

variable {execute : List (Call α ρ) → Worker → Arena σ → Executed α ρ σ} {turn after : Turn α ρ σ}

theorem next_poised (different : ids.Nodup) (keeps : Worker.KeepsActive ids execute)
    (next : turn.next execute = some after) (poised : turn.Poised ids) : after.Poised ids := by
  obtain ⟨started, call, tired, mid, start, attempted, left, _⟩ := next_cases next
  have busy := Worker.start_active poised.worker.idle start
  have tried := Worker.attempt_sound different keeps turn.past started turn.arena busy poised.named
  rw [attempted] at tried
  obtain ⟨sound, named⟩ := tried
  have rested := Worker.framed_after_attempt tired mid.store call.ended
  rw [left] at rested
  exact ⟨Worker.again_poised sound call.ended left, rested.ids.trans named⟩

theorem reaches_poised (different : ids.Nodup) (keeps : Worker.KeepsActive ids execute)
    (reaches : Reaches execute turn after) (poised : turn.Poised ids) : after.Poised ids :=
  reaches_keeps (Turn.Poised ids) (fun _ _ next poised => next_poised different keeps next poised)
    reaches poised

end Turn

end LockOrder
