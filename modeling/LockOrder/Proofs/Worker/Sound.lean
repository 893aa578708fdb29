import LockOrder.Proofs.CurrentList.Acquire
import LockOrder.Proofs.CurrentList.Merge
import LockOrder.Proofs.CurrentList.Release
import LockOrder.Worker.Attempt
import LockOrder.Worker.Run

set_option autoImplicit false

namespace LockOrder

-- Whether the attempt came to its end: nothing was broken, and nobody waits.
def Outcome.isOver {α : Type} : Outcome α → Bool
  | .ok _ | .fault _ => true
  | .misuse _ | .waiting _ => false

namespace Worker

structure Sound (ids : List UInt64) (worker : Worker) : Prop where
  list : worker.list.Sound ids
  retro : worker.retro.Sound ids
  sets : worker.sets.On ids
  capacity : worker.sets.capacity < UInt32.size

structure Idle (ids : List UInt64) (worker : Worker) : Prop where
  sound : worker.Sound ids
  empty : worker.list.entries = []

variable {ids : List UInt64} {worker : Worker} {store : Store}

theorem Sound.with_sets (sound : worker.Sound ids) (sets : AccessSets) (on : sets.On ids)
    (capacity : sets.capacity < UInt32.size) : Sound ids { worker with sets } :=
  ⟨sound.list, sound.retro, on, capacity⟩

theorem Sound.with_list (sound : worker.Sound ids) (list : CurrentList) (kept : list.Sound ids) :
    Sound ids { worker with list } :=
  ⟨kept, sound.retro, sound.sets, sound.capacity⟩

theorem idle_of_settings (ids : List UInt64) (settings : Settings) (worker : Worker)
    (made : ofSettings settings = .ok worker) : worker.Idle ids := by
  unfold ofSettings at made
  split at made
  · cases made
  · cases made
    refine ⟨⟨?_, ?_, ?_, ?_⟩, ?_⟩
    · exact CurrentList.sound_of_capacity _ _
    · exact RetroList.sound_of_capacity ids _
    · exact AccessSets.on_empty _
    · exact UInt32.toNat_lt _
    · exact Buffer.entries_of_capacity _

@[simp] theorem buffer_require (list : CurrentList) (kept : Bool) (breach : Breach) :
    (list.require kept breach).buffer = list.buffer := by
  unfold CurrentList.require
  split <;> rfl

theorem entries_require (list : CurrentList) (kept : Bool) (breach : Breach) :
    (list.require kept breach).entries = list.entries :=
  congrArg Buffer.entries (buffer_require list kept breach)

theorem sound_require (sound : worker.Sound ids) (kept : Bool) (breach : Breach) :
    (worker.require kept breach).Sound ids where
  list := by
    have keeps : CurrentList.Keeps ids worker.list {} worker.list {} :=
      CurrentList.keeps_refl sound.list
    exact (keeps.of_buffer (buffer_require _ _ _)).sound
  retro := sound.retro
  sets := sound.sets
  capacity := sound.capacity

theorem start_sound (idle : worker.Idle ids) :
    worker.start.2.Sound ids ∧ worker.start.2.sets.writes = #[] ∧
      ∀ store, Conserves worker.list.entries store worker.start.2.list.entries store := by
  have cleared : Sound ids { worker with sets := worker.sets.clear } :=
    idle.sound.with_sets _ (AccessSets.on_clear _) idle.sound.capacity
  unfold start
  simp only
  split
  · let good := isGoodSeed { worker with sets := worker.sets.clear }
    have logged := sound_require cleared good .badSeed
    have same : (worker.list.require good .badSeed).entries = worker.list.entries :=
      entries_require worker.list good .badSeed
    split
    · rename_i list seeded
      have keeps : ∀ store, CurrentList.Keeps ids (worker.list.require good .badSeed) store list store :=
        fun store => CurrentList.seed_keeps store _ logged.list cleared.retro seeded
      refine ⟨logged.with_list list (keeps {}).sound, rfl, fun store => ?_⟩
      rw [← same]
      exact (keeps store).conserves
    · refine ⟨logged, rfl, fun store => ?_⟩
      change Conserves _ store (worker.list.require good .badSeed).entries store
      rw [same]
      exact .refl
  · exact ⟨cleared, rfl, fun _ => .refl⟩

-- How a worker leaves an attempt: nothing is listed any more, all locks are given back, and the
-- records are what they were.
structure Leaves (ids : List UInt64) (worker : Worker) (store : Store) (after : Worker)
    (next : Store) : Prop where
  sound : after.Sound ids
  bare : next.bare = store.bare
  free : 0 ∉ ids → after.list.isHolding = false
  conserves : 0 ∉ ids → Conserves worker.list.entries store after.list.entries next

theorem release_locks_leaves (sound : worker.Sound ids) (store : Store) :
    Leaves ids worker store (worker.releaseLocks store).1 (worker.releaseLocks store).2 := by
  have keeps := CurrentList.release_all_keeps sound.list store
  refine ⟨sound.with_list _ keeps.sound, keeps.bare, ?_, ?_⟩
  · exact CurrentList.release_all_holds_nothing sound.list store
  · exact fun _ => keeps.conserves

theorem clear_attempt_leaves {next : Store} {released : Worker}
    (leaves : Leaves ids worker store released next) :
    Leaves ids worker store released.clearAttempt next ∧ released.clearAttempt.Idle ids := by
  have logged := sound_require leaves.sound (!released.list.isHolding) .resetHolding
  have empty : (released.require (!released.list.isHolding) .resetHolding).list.reset.entries = [] :=
    Buffer.entries_clear _
  have room := logged.list.buffer.room
  have list : (released.require (!released.list.isHolding) .resetHolding).list.reset.Sound ids :=
    ⟨Buffer.sound_clear _ (by omega), by simp [empty]⟩
  have sound : released.clearAttempt.Sound ids :=
    ⟨list, logged.retro, AccessSets.on_clear _, logged.capacity⟩
  refine ⟨⟨sound, leaves.bare, fun _ => ?_, fun nonzero => ?_⟩, sound, empty⟩
  · change List.any (released.require _ _).list.reset.entries _ = false
    rw [empty]
    rfl
  · refine (leaves.conserves nonzero).trans (.of_tally fun slot kind => ?_)
    rw [CurrentList.tally_of_free released.list (leaves.free nonzero)]
    change Entry.tally (released.require _ _).list.reset.entries slot kind = 0
    rw [empty]
    rfl

theorem Leaves.with_retro {next : Store} {after : Worker} (other : Worker)
    (leaves : Leaves ids worker store after next) (idle : after.Idle ids)
    (list : other.list = after.list) (sets : other.sets = after.sets) (retro : other.retro.Sound ids) :
    Leaves ids worker store other next ∧ other.Idle ids := by
  obtain ⟨sound, bare, free, conserves⟩ := leaves
  have otherSound : other.Sound ids :=
    ⟨list ▸ sound.list, retro, sets ▸ sound.sets, sets ▸ sound.capacity⟩
  exact ⟨⟨otherSound, bare, list ▸ free, list ▸ conserves⟩, otherSound, list ▸ idle.empty⟩

theorem retro_reset_sound (sound : worker.Sound ids) : worker.retro.reset.Sound ids := by
  have room := sound.retro.buffer.room
  exact RetroList.sound_reset ids worker.retro (by omega)

theorem finish_leaves (sound : worker.Sound ids) (store : Store) :
    Leaves ids worker store (worker.finish store).1 (worker.finish store).2 ∧
      (worker.finish store).1.Idle ids := by
  have released := release_locks_leaves sound store
  obtain ⟨leaves, idle⟩ := clear_attempt_leaves released
  unfold finish
  exact leaves.with_retro _ idle rfl rfl (retro_reset_sound idle.sound)

theorem count_abort_sound (sound : worker.Sound ids) (fault : Fault) :
    (worker.countAbort fault).Sound ids ∧ (worker.countAbort fault).list = worker.list := by
  unfold countAbort
  simp only
  split <;> exact ⟨⟨sound.list, sound.retro, sound.sets, sound.capacity⟩, rfl⟩

theorem abort_leaves (sound : worker.Sound ids) (store : Store) (fault : Fault) :
    Leaves ids worker store (worker.abort fault store).2.1 (worker.abort fault store).2.2 ∧
      ((worker.abort fault store).1 = .ok () → (worker.abort fault store).2.1.Idle ids) := by
  obtain ⟨counted, list⟩ := count_abort_sound sound fault
  have released : Leaves ids worker store ((worker.countAbort fault).releaseLocks store).1
      ((worker.countAbort fault).releaseLocks store).2 := by
    obtain ⟨soundAfter, bare, free, conserves⟩ := release_locks_leaves counted store
    rw [list] at conserves
    exact ⟨soundAfter, bare, free, conserves⟩
  obtain ⟨leaves, idle⟩ := clear_attempt_leaves released
  unfold abort
  simp only
  split
  · exact ⟨released, fun done => by cases done⟩
  · rename_i retro remembered
    have kept : retro.Sound ids := by
      split at remembered
      · have room := released.sound.retro.buffer.room
        exact RetroList.construct_sound _ retro _ _ _ (by omega) released.sound.sets remembered
      · cases remembered
        exact released.sound.retro
    let after := ((worker.countAbort fault).releaseLocks store).1.clearAttempt
    obtain ⟨last, rest⟩ := leaves.with_retro { after with retro } idle rfl rfl kept
    exact ⟨last, fun _ => rest⟩

theorem after_attempt_stopped (worker : Worker) (store : Store) (ended : Outcome UInt64)
    (stopped : ended.isOver = false) :
    worker.afterAttempt store ended = (some ended, worker, store) := by
  cases ended with
  | ok value => cases stopped
  | fault fault => cases stopped
  | misuse misuse => rfl
  | waiting id => rfl

theorem after_attempt_leaves (sound : worker.Sound ids) (store : Store) (ended : Outcome UInt64)
    (closed : ended.isOver = true) :
    Leaves ids worker store (worker.afterAttempt store ended).2.1
      (worker.afterAttempt store ended).2.2 ∧
      ((∃ misuse, (worker.afterAttempt store ended).1 = some (.misuse misuse)) ∨
        (worker.afterAttempt store ended).2.1.Idle ids) := by
  obtain ⟨finished, idle⟩ := finish_leaves sound store
  cases ended with
  | ok value =>
      obtain ⟨leaves, idle⟩ := finished.with_retro (worker.finish store).1.countCommit idle rfl rfl
        idle.sound.retro
      exact ⟨leaves, Or.inr idle⟩
  | fault fault =>
      unfold afterAttempt
      simp only
      split
      · obtain ⟨leaves, idle⟩ := abort_leaves sound store fault
        generalize worker.abort fault store = result at leaves idle
        obtain ⟨done, after, next⟩ := result
        cases done with
        | ok value => exact ⟨leaves, Or.inr (idle rfl)⟩
        | error misuse => exact ⟨leaves, Or.inl ⟨misuse, rfl⟩⟩
      · exact ⟨finished, Or.inr idle⟩
  | misuse misuse => cases closed
  | waiting id => cases closed

end Worker

end LockOrder
