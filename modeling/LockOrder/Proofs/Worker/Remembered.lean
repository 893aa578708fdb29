import Mathlib
import LockOrder.Proofs.Table.Start
import LockOrder.Proofs.Table.Values
import LockOrder.Proofs.Worker.Poised

set_option autoImplicit false

namespace LockOrder

variable {α ρ σ : Type}

namespace Table

theorem id_at_slot (table : Table) (key : UInt64) (slot : Nat) (found : table.slot key = .ok slot)
    (store : Store) (named : store.ids = slotIds table.size) :
    (slotIds table.size)[slot]? = some (store.lockAt slot).id :=
  Store.on_lock_within named slot (table.fits_slot_ids key slot found)

end Table

structure AccessSets.Answered (table : Table) (events : List (Event α ρ)) (sets : AccessSets) :
    Prop where
  reads : ∀ read ∈ sets.reads.toList, ∃ key value,
    Event.read key (.ok value) ∈ events ∧ table.slot key = .ok read.lock.slot
  writes : ∀ write ∈ sets.writes.toList, ∃ key value,
    Event.write key value (.ok ()) ∈ events ∧ table.slot key = .ok write.lock.slot

namespace AccessSets

variable {table : Table} {past events : List (Event α ρ)} {sets after : AccessSets}

theorem answered_clear (sets : AccessSets) : sets.clear.Answered table ([] : List (Event α ρ)) where
  reads := by simp [clear]
  writes := by simp [clear]

theorem Answered.more (answered : sets.Answered table past) : sets.Answered table (past ++ events) where
  reads := by
    intro read listed
    obtain ⟨key, value, member, here⟩ := answered.reads read listed
    exact ⟨key, value, List.mem_append_left _ member, here⟩
  writes := by
    intro write listed
    obtain ⟨key, value, member, here⟩ := answered.writes write listed
    exact ⟨key, value, List.mem_append_left _ member, here⟩

end AccessSets

namespace Worker

variable {worker : Worker} {table : Table} {past : List (Event α ρ)}

theorem saw_version_sets (worker : Worker) (lock : LockRef) (content : UInt64 × UInt64) :
    (worker.sawVersion lock content).2.sets = worker.sets ∨
      ((worker.sawVersion lock content).1 = .ok content.2 ∧
        (worker.sawVersion lock content).2.sets =
          { worker.sets with reads := worker.sets.reads.push ⟨lock, content.1⟩ }) := by
  unfold sawVersion AccessSets.addRead
  split
  · rename_i added
    split at added <;> cases added
    exact Or.inr ⟨rfl, rfl⟩
  · exact Or.inl rfl

-- A read records itself only together with its answer.
theorem read_sets (worker : Worker) (lock : LockRef) (store : Store) :
    (worker.read lock store).2.1.sets = worker.sets ∨
      ∃ version value, (worker.read lock store).1 = .ok value ∧
        (worker.read lock store).2.1.sets =
          { worker.sets with reads := worker.sets.reads.push ⟨lock, version⟩ } := by
  have saw : ∀ (worker : Worker) (content : UInt64 × UInt64),
      (worker.sawVersion lock content).2.sets = worker.sets ∨
        ∃ version value, (worker.sawVersion lock content).1 = .ok value ∧
          (worker.sawVersion lock content).2.sets =
            { worker.sets with reads := worker.sets.reads.push ⟨lock, version⟩ } := by
    intro worker content
    rcases saw_version_sets worker lock content with same | ⟨answer, pushed⟩
    · exact Or.inl same
    · exact Or.inr ⟨_, _, answer, pushed⟩
  unfold read
  split
  · exact Or.inl rfl
  · split
    · unfold readLocked
      split
      · exact Or.inl rfl
      · split
        · exact saw { worker with list := _ } _
        · exact Or.inl rfl
        · exact Or.inl rfl
        · exact Or.inl rfl
    · unfold readOptimistic
      split
      · exact saw worker _
      · exact Or.inl rfl

theorem read_key_answered (key : UInt64) (store : Store) (answered : worker.sets.Answered table past) :
    (worker.readKey table key store).2.1.sets.Answered table
      (past ++ [.read key (worker.readKey table key store).1]) := by
  unfold readKey
  cases found : table.slot key with
  | error fault => exact answered.more
  | ok slot =>
      rcases read_sets worker (store.lockAt slot) store with same | ⟨version, value, answer, pushed⟩
      · simp only [same]
        exact answered.more
      · simp only [answer, pushed]
        refine ⟨fun read listed => ?_, answered.more.writes⟩
        rw [Array.toList_push] at listed
        rcases List.mem_append.mp listed with old | new
        · exact answered.more.reads read old
        · rw [List.mem_singleton.mp new]
          exact ⟨key, value, by simp, found⟩

theorem write_key_answered (key value : UInt64) (store : Store)
    (answered : worker.sets.Answered table past) :
    (worker.writeKey table key value store).2.sets.Answered table
      (past ++ [.write key value (worker.writeKey table key value store).1]) := by
  unfold writeKey
  cases found : table.slot key with
  | error fault => exact answered.more
  | ok slot =>
      simp only [write, AccessSets.addWrite]
      by_cases room : worker.sets.writes.size < worker.sets.capacity
      · simp only [if_pos room]
        refine ⟨answered.more.reads, fun write listed => ?_⟩
        rw [Array.toList_push] at listed
        rcases List.mem_append.mp listed with old | new
        · exact answered.more.writes write old
        · rw [List.mem_singleton.mp new]
          exact ⟨key, value, by simp, found⟩
      · simp only [if_neg room]
        exact answered.more

theorem execute_answered (table : Table) (perform : Perform α ρ σ) (body : Body α ρ)
    (worker : Worker) (arena : Arena σ) (answered : worker.sets.Answered table past) :
    (body.execute table perform worker arena).worker.sets.Answered table
      (past ++ (body.execute table perform worker arena).events) := by
  have obeyed : Body.Obeyed table perform fun worker _ events after _ =>
      ∀ past, worker.sets.Answered table past → after.sets.Answered table (past ++ events) := {
    nothing := fun _ _ past answered => (List.append_nil past).symm ▸ answered
    both := fun first rest past answered =>
      List.append_assoc past _ _ ▸ rest _ (first past answered)
    read := fun _ arena key _ answered => read_key_answered key arena.store answered
    write := fun _ arena key value _ answered => write_key_answered key value arena.store answered
    act := fun _ _ _ _ answered => answered.more
    away := fun _ _ _ _ answered => answered.more
    ran := fun _ _ _ _ _ _ _ _ answered => answered.more }
  exact obeyed.execute body worker arena past answered

end Worker

structure Worker.StartsAfter (table : Table) (executed : Executed α ρ σ) (store : Store)
    (again : Worker) : Prop where
  covers : ∀ entry ∈ again.list.entries, entry.preferred.covers .shared = true
  recorded : ∀ id, (∃ entry ∈ again.list.entries, entry.id = id) ↔
    executed.worker.Remembers store id
  -- Reads and writes that were not answered are not remembered.
  forgotten : ∀ key slot, table.slot key = .ok slot →
    (∀ value, Event.read key (.ok value) ∉ executed.events) →
    (∀ value, Event.write key value (.ok ()) ∉ executed.events) →
      ∀ entry ∈ again.list.entries, entry.id ≠ (store.lockAt slot).id

-- The lock that a read could not get is remembered only for what else was done to its record.
theorem lost_read_is_remembered_iff_recorded (table : Table) (perform : Perform α ρ σ)
    (keeps : perform.KeepsIds) (transaction : Transaction α ρ) (first turn after : Turn α ρ σ)
    (started again : Worker) (rests : first.worker.Rests (Table.slotIds table.size))
    (named : first.arena.store.ids = Table.slotIds table.size)
    (reached : Turn.Reaches (fun past => (transaction past).execute table perform) first turn)
    (retrospective : turn.worker.settings.retrospective = true)
    (start : turn.worker.start = (.ok (), started))
    (fault : Fault)
    (lost : ((transaction turn.past).execute table perform started turn.arena).outcome =
      .fault fault)
    (next : turn.next (fun past => (transaction past).execute table perform) = some after)
    (restart : after.worker.start = (.ok (), again)) :
    again.StartsAfter table ((transaction turn.past).execute table perform started turn.arena)
      after.arena.store := by
  have different := Table.slot_ids_different table.size table.size_le
  have fits := table.fits_slot_ids
  have acts := Worker.keeps_active_transaction different fits keeps transaction
  have poised := Turn.reaches_poised different acts reached ⟨rests.poised, named⟩
  have poisedAfter := Turn.next_poised different acts next poised
  have busy := Worker.start_active poised.worker.idle start
  obtain ⟨begun, call, tired, mid, begin, attempted, left, _, arena⟩ := Turn.next_cases next
  obtain rfl : started = begun := by simpa [start] using begin
  have framed := framed_execute table keeps (transaction turn.past) started turn.arena
  have answered := Worker.execute_answered table perform (transaction turn.past) started turn.arena
    ((Worker.start_starts poised.worker.idle start).sets ▸ AccessSets.answered_clear _)
  obtain ⟨⟨_, active⟩, named⟩ := acts turn.past started turn.arena busy poised.named
  unfold Worker.attempt Worker.conclude at attempted
  simp only at active named framed answered attempted
  rw [List.nil_append] at answered
  generalize (transaction turn.past).execute table perform started turn.arena = executed at *
  -- The body has failed, so the attempt ends as its last read has left it.
  rw [lost] at attempted
  cases attempted
  have settings : executed.worker.settings.retrospective = true := by
    rw [framed.settings, (Worker.start_starts poised.worker.idle start).settings]
    exact retrospective
  obtain ⟨covers, recorded⟩ := Worker.retry_lists active.sound settings (.fault fault) left restart
  refine ⟨covers, recorded, fun key slot found unread unwritten entry listed same => ?_⟩
  have here := table.id_at_slot key slot found after.arena.store poisedAfter.named
  have only : ∀ (lock : LockRef) (other : UInt64), lock.On (Table.slotIds table.size) →
      lock.id = (after.arena.store.lockAt slot).id → table.slot other = .ok lock.slot →
        other = key := by
    intro lock other on id there
    have slots := LockRef.on_injective (b := ⟨slot, _⟩) different on here id
    rw [slots] at there
    exact table.slot_injective found there
  rcases (recorded _).mp ⟨entry, listed, same⟩ with ⟨read, member, id, _⟩ | ⟨write, member, id⟩
  · obtain ⟨other, value, event, there⟩ := answered.reads read member
    obtain rfl := only read.lock other (active.sound.sets.reads read member) id there
    exact unread value event
  · obtain ⟨other, value, event, there⟩ := answered.writes write member
    obtain rfl := only write.lock other (active.sound.sets.writes write member) id there
    exact unwritten value event

def Event.answer? {α ρ : Type} : Event α ρ → Option (UInt64 × Outcome UInt64)
  | .read key outcome => some (key, outcome)
  | _ => none

def Turn.retried {α ρ σ : Type}
    (execute : List (Call α ρ) → Worker → Arena σ → Executed α ρ σ) (turn : Turn α ρ σ) :
    Option Worker :=
  (turn.next execute).bind fun after =>
    match after.worker.start with
    | (.ok (), again) => some again
    | (.error _, _) => none

-- Takes the second record, which is hot; the first one gets hot and is taken by somebody else after
-- it has been read for the first time.
def reread : Body Act Reply :=
  .read 0 fun _ => .read 1 fun _ => .act (.bump 0) fun _ => .act (.take 0 .writer) fun _ =>
    .read 0 .done

def rereading : List (Call Act Reply) → Worker → Arena Outsiders → Executed Act Reply Outsiders :=
  fun _ => reread.execute .double (Act.perform .double)

theorem reread_lock_is_listed : ∃ again, (Turn.after [.bump 1]).retried rereading = some again ∧
    ∃ entry ∈ again.list.entries, entry.id = 1 := by
  have found : ((Turn.after [.bump 1]).retried rereading).isSome = true := by cbv
  obtain ⟨again, retried⟩ := Option.isSome_iff_exists.mp found
  refine ⟨again, retried, ?_⟩
  obtain ⟨after, next, restart⟩ := Option.bind_eq_some_iff.mp retried
  split at restart <;> cases restart
  rename_i restart
  have kept : ((Turn.after [.bump 1]).next rereading).any fun after =>
      RetroList.keeps 1 after.arena.store ⟨⟨0, 1⟩, 0⟩ := by cbv
  rw [next] at kept
  have starts := lost_read_is_remembered_iff_recorded .double (Act.perform .double)
    (Act.keeps_ids _) (fun _ => reread) (Turn.after [.bump 1]) (Turn.after [.bump 1]) after .alert again
    (Worker.rests_of_settings _ { maxAccesses := 8, readLockThreshold := 1 } .alert rfl)
    (by decide +kernel) .refl rfl rfl .raceAbort (by decide +kernel) next restart
  refine (starts.recorded 1).mpr (Or.inl ⟨⟨⟨0, 1⟩, 0⟩, by decide +kernel, rfl, ?_⟩)
  rw [(framed_execute .double (Act.keeps_ids _) reread _ _).settings]
  exact kept

-- Owns the second record and so cannot wait for the first one, which somebody else has.
def downhill : Body Act Reply := .read 1 fun _ => .read 0 .done

theorem downhill_lock_is_not_listed :
    let execute := fun _ => downhill.execute .double (Act.perform .double)
    let turn := Turn.after [.bump 0, .bump 1, .take 0 .writer]
    let executed := execute [] Worker.alert turn.arena
    executed.events.map Event.answer? = [some (1, .ok 0), some (0, .fault .raceAbort)] ∧
      executed.outcome = .fault .raceAbort ∧
      (turn.retried execute).map (fun again => again.list.entries.map Entry.id) = some [2] := by
  decide +kernel

end LockOrder
