import LockOrder.Proofs.RetroList.Needed
import LockOrder.Proofs.Worker.Sound

set_option autoImplicit false

namespace LockOrder

theorem Buffer.entries_of_empty {buffer : Buffer} (empty : buffer.isEmpty = true) :
    buffer.entries = [] := by
  have none : buffer.active = 0 := by simpa [isEmpty] using empty
  simp [entries, entriesFrom, none]

namespace Worker

variable {ids : List UInt64} {worker started left : Worker} {store last : Store}

structure Starts (worker started : Worker) : Prop where
  settings : started.settings = worker.settings
  sets : started.sets = worker.sets.clear
  calls : started.list.calls = worker.list.calls
  size : started.list.buffer.cells.size = worker.list.buffer.cells.size
  entries : worker.settings.retrospective = true →
    started.list.entries = worker.retro.buffer.entries

theorem start_starts (idle : worker.Idle ids) (start : worker.start = (.ok (), started)) :
    worker.Starts started := by
  have logged : ∀ kept breach, (worker.list.require kept breach).calls = worker.list.calls := by
    intro kept breach
    unfold CurrentList.require
    split <;> rfl
  unfold Worker.start at start
  simp only at start
  split at start
  · split at start
    · rename_i list seeded
      cases start
      unfold CurrentList.seed at seeded
      split at seeded
      · cases seeded
      · split at seeded
        · cases seeded
        · rename_i fits
          cases seeded
          simp only [require, buffer_require] at fits ⊢
          have room : worker.retro.buffer.entries.length < worker.list.buffer.cells.size := by
            have bound := idle.sound.list.buffer.room
            rw [Buffer.length_entries _ idle.sound.retro.buffer.room]
            unfold Buffer.capacity at fits
            omega
          exact ⟨rfl, rfl, logged _ _, by simp [Buffer.fill], fun _ => Buffer.entries_fill _ _ room⟩
    · cases start
  · rename_i bare
    cases start
    refine ⟨rfl, rfl, rfl, rfl, fun retrospective => ?_⟩
    have empty : worker.retro.buffer.isEmpty = true := by
      simpa [retrospective, RetroList.isEmpty] using bare
    exact idle.empty.trans (Buffer.entries_of_empty empty).symm

structure Remembered (worker : Worker) (left : Worker) (last : Store) : Prop where
  settings : left.settings = worker.settings
  entries : worker.settings.retrospective = true → left.retro.buffer.entries =
    RetroList.merged (RetroList.needed worker.sets worker.settings.readLockThreshold last)

theorem abort_remembers (sound : worker.Sound ids) (fault : Fault)
    (aborted : worker.abort fault store = (.ok (), left, last)) : worker.Remembered left last := by
  have counted : (worker.countAbort fault).settings = worker.settings ∧
      (worker.countAbort fault).retro = worker.retro ∧
        (worker.countAbort fault).sets = worker.sets := by
    unfold countAbort
    simp only
    split <;> exact ⟨rfl, rfl, rfl⟩
  have same : ((worker.countAbort fault).releaseLocks store).1.settings = worker.settings ∧
      ((worker.countAbort fault).releaseLocks store).1.retro = worker.retro ∧
        ((worker.countAbort fault).releaseLocks store).1.sets = worker.sets := counted
  unfold abort at aborted
  generalize (worker.countAbort fault).releaseLocks store = released at aborted same
  obtain ⟨after, next⟩ := released
  obtain ⟨settings, retro, sets⟩ := same
  simp only at settings retro sets aborted
  rw [settings, retro, sets] at aborted
  split at aborted
  · cases aborted
  · rename_i list remembered
    cases aborted
    refine ⟨settings, fun retrospective => ?_⟩
    rw [if_pos retrospective] at remembered
    have room : 0 < worker.retro.buffer.cells.size :=
      Nat.lt_of_le_of_lt (Nat.zero_le _) sound.retro.buffer.room
    exact RetroList.construct_entries worker.retro list _ _ _ room remembered

theorem after_attempt_again (ended : Outcome UInt64)
    (again : worker.afterAttempt store ended = (none, left, last)) :
    ∃ fault, ended = .fault fault ∧ worker.abort fault store = (.ok (), left, last) := by
  unfold afterAttempt at again
  split at again
  · cases again
  · rename_i fault
    split at again
    · split at again
      · rename_i aborted
        cases again
        exact ⟨fault, rfl, aborted⟩
      · cases again
    · cases again
  · cases again

-- An access that the attempt has recorded, and that is still worth a lock.
def Remembers (worker : Worker) (store : Store) (id : UInt64) : Prop :=
  (∃ read ∈ worker.sets.reads.toList, read.lock.id = id ∧
      RetroList.keeps worker.settings.readLockThreshold store read = true) ∨
    ∃ write ∈ worker.sets.writes.toList, write.id = id

theorem retry_lists (sound : worker.Sound ids) (retrospective : worker.settings.retrospective = true)
    (ended : Outcome UInt64) (again : worker.afterAttempt store ended = (none, left, last))
    (start : left.start = (.ok (), started)) :
    (∀ entry ∈ started.list.entries, entry.preferred.covers .shared = true) ∧
      ∀ id, (∃ entry ∈ started.list.entries, entry.id = id) ↔ worker.Remembers last id := by
  obtain ⟨fault, rfl, aborted⟩ := after_attempt_again ended again
  obtain ⟨settings, remembered⟩ := abort_remembers sound fault aborted
  have idle : left.Idle ids := by
    have idle := (abort_leaves sound store fault).2
    rw [aborted] at idle
    exact idle rfl
  have entries : started.list.entries =
      RetroList.merged (RetroList.needed worker.sets worker.settings.readLockThreshold last) :=
    ((start_starts idle start).entries (settings ▸ retrospective)).trans (remembered retrospective)
  rw [entries]
  refine ⟨RetroList.merged_all _ (fun entry mode covers => ?_) _ fun entry listed => ?_, ?_⟩
  · rw [Mode.covers_iff] at covers ⊢
    rw [Entry.prefer, Mode.rank_max]
    omega
  · have wants := RetroList.needed_wants _ _ _ entry listed
    cases wish : entry.preferred with
    | unlocked => exact absurd wish wants
    | shared => rfl
    | exclusive => rfl
  · exact fun id => (RetroList.merged_ids _ id).trans (RetroList.needed_ids _ _ _ id)

end Worker

end LockOrder
