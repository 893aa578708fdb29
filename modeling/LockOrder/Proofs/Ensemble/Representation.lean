import LockOrder.Proofs.Ensemble.Reach
import LockOrder.Proofs.Worker.Make

set_option autoImplicit false

namespace LockOrder

namespace Buffer

structure Formed (store : Store) (buffer : Buffer) : Prop where
  sentinel : buffer.cell 0 = ⟨none, .unlocked, .unlocked, none⟩ ∧ (buffer.cell 0).id = 0
  room : buffer.active ≤ buffer.capacity
  locks : ∀ pos, 0 < pos → pos ≤ buffer.active → ∃ slot < store.records.size,
    (buffer.cell pos).lock = some (store.lockAt slot) ∧
      (buffer.cell pos).id = (store.recordAt slot).id
  handles : ∀ pos, 0 < pos → pos ≤ buffer.active →
    ((buffer.cell pos).handle.isSome = true ↔ (buffer.cell pos).taken ≠ .unlocked) ∧
      ((buffer.cell pos).handle = some .reader ↔ (buffer.cell pos).taken = .shared) ∧
      ((buffer.cell pos).handle = some .writer ↔ (buffer.cell pos).taken = .exclusive)

-- What the owner of a list, and every search in it, relies on.
structure Represented (store : Store) (buffer : Buffer) : Prop extends Formed store buffer where
  ascending : ∀ pos other, 0 < pos → pos < other → other ≤ buffer.active →
    (buffer.cell pos).id < (buffer.cell other).id

theorem formed_of_entries {ids : List UInt64} (buffer : Buffer) (room : buffer.active < buffer.cells.size)
    (sentinel : buffer.cell 0 = .sentinel) (entries : ∀ entry ∈ buffer.entries, entry.Sound ids)
    (store : Store) (named : store.ids = ids) : buffer.Formed store where
  sentinel := by
    rw [sentinel]
    exact ⟨rfl, rfl⟩
  room := Nat.le_sub_one_of_lt room
  locks := by
    intro pos first last
    obtain ⟨lock, has, on⟩ := (entries _ (cell_mem_entries buffer room pos first last)).listed
    have inside : lock.slot < store.records.size := by
      rw [← store.length_ids, named]
      exact (List.getElem?_eq_some_iff.mp on).1
    have same : lock = store.lockAt lock.slot :=
      LockRef.on_slot on (named ▸ store.on_lock_at lock.slot inside) rfl
    refine ⟨lock.slot, inside, has.trans (congrArg some same), ?_⟩
    rw [Entry.id, has]
    exact congrArg LockRef.id same
  handles := by
    intro pos first last
    have handled := (entries _ (cell_mem_entries buffer room pos first last)).handled
    rw [handled]
    cases (buffer.cell pos).taken <;> decide

theorem represented_of_sound {ids : List UInt64} (buffer : Buffer) (sound : buffer.Sound)
    (entries : ∀ entry ∈ buffer.entries, entry.Sound ids) (store : Store) (named : store.ids = ids) :
    buffer.Represented store where
  toFormed := formed_of_entries buffer sound.room sound.sentinel entries store named
  ascending := cells_ascend buffer sound

end Buffer

namespace CurrentList

theorem size_release_after (list : CurrentList) (id : UInt64) (store : Store) :
    (list.releaseAfter id store).1.buffer.cells.size = list.buffer.cells.size :=
  (Buffer.size_write _ _ _).trans (framed_give_back _ list store).size

theorem size_give_up_after (list : CurrentList) (id : UInt64) :
    (list.giveUpAfter id).buffer.cells.size = list.buffer.cells.size :=
  Buffer.size_write _ _ _

theorem size_acquire_at (list : CurrentList) (pos : Nat) (store : Store) :
    (list.acquireAt pos store).2.1.buffer.cells.size = list.buffer.cells.size := by
  rw [acquireAt]
  cases list.buffer.holds pos with
  | true => exact (Acquisition.framed_step (.start list store) pos).size
  | false => rfl

theorem size_merge_from {last pos : Nat} {buffer stop : Buffer} {interleaved : Bool}
    {writes : List WriteAccess} (stopped : mergeFrom last pos buffer interleaved writes = .error stop) :
    stop.cells.size = buffer.cells.size := by
  fun_induction mergeFrom last pos buffer interleaved writes with
  | case1 => cases stopped
  | case2 pos buffer interleaved write rest smaller ih => exact ih stopped
  | case3 pos buffer interleaved write rest _ here ih => exact (ih stopped).trans (Buffer.size_set ..)
  | case4 pos buffer interleaved write rest _ _ next pushed ih =>
      exact (ih stopped).trans (Buffer.size_push _ pushed)
  | case5 => cases stopped; rfl

theorem size_cut_short (list : CurrentList) (writes : List WriteAccess) :
    (list.cutShort writes).buffer.cells.size = list.buffer.cells.size := by
  rw [cutShort]
  cases stopped : mergeFrom list.buffer.active 1 list.buffer false writes with
  | ok _ => rfl
  | error stop =>
      have size := size_merge_from stopped
      exact size

theorem size_reset (list : CurrentList) : list.reset.buffer.cells.size = list.buffer.cells.size := by
  simp [reset, Buffer.clear]

end CurrentList

namespace Ensemble

structure Rooms (ensemble after : Ensemble) : Prop where
  currents : ∀ list, (after.current list).buffer.capacity = (ensemble.current list).buffer.capacity
  retros : ∀ list, (after.retro list).buffer.capacity = (ensemble.retro list).buffer.capacity

variable {ensemble after last : Ensemble}

theorem Rooms.trans (first : Rooms ensemble after) (second : Rooms after last) : Rooms ensemble last :=
  ⟨fun list => (second.currents list).trans (first.currents list),
    fun list => (second.retros list).trans (first.retros list)⟩

theorem rooms_of_lists (currents : after.currents = ensemble.currents)
    (retros : after.retros = ensemble.retros) : Rooms ensemble after where
  currents list := by rw [Ensemble.current, Ensemble.current, currents]
  retros list := by rw [Ensemble.retro, Ensemble.retro, retros]

theorem capacity_of_size {buffer other : Buffer} (same : buffer.cells.size = other.cells.size) :
    buffer.capacity = other.capacity :=
  congrArg (· - 1) same

theorem rooms_set_current (list : Nat) (current : CurrentList) (store : Store)
    (same : current.buffer.capacity = (ensemble.current list).buffer.capacity) :
    Rooms ensemble (ensemble.setCurrent list current store) where
  currents := by
    intro other
    by_cases inside : list < ensemble.currents.size
    · rw [current_set ensemble list other current store inside]
      by_cases here : other = list
      · rw [if_pos here, here]
        exact same
      · rw [if_neg here]
    · rw [setCurrent, Ensemble.current, Ensemble.current, Array.setIfInBounds, dif_neg inside]
  retros := fun _ => rfl

theorem rooms_set_retro (list : Nat) (retro : RetroList)
    (same : retro.buffer.capacity = (ensemble.retro list).buffer.capacity) :
    Rooms ensemble (ensemble.setRetro list retro) where
  currents := fun _ => rfl
  retros := by
    intro other
    by_cases here : list = other
    · subst here
      by_cases inside : list < ensemble.retros.size
      · simpa [setRetro, Ensemble.retro, inside] using same
      · simp [setRetro, Ensemble.retro, inside]
    · simp [setRetro, Ensemble.retro, here]

theorem rooms_changed (list : Nat) (result : Except Misuse CurrentList)
    (same : ∀ current, result = .ok current →
      current.buffer.cells.size = (ensemble.current list).buffer.cells.size) :
    Rooms ensemble (ensemble.changed list result).2 := by
  cases result with
  | ok current => exact rooms_set_current list current _ (capacity_of_size (same current rfl))
  | error misuse => exact rooms_of_lists rfl rfl

theorem rooms_merged (list : Nat) (writes : List WriteAccess) :
    Rooms ensemble (ensemble.merged list writes).2 := by
  rw [merged]
  cases result : (ensemble.current list).mergeWrites writes with
  | ok after =>
      exact rooms_set_current list after _ (capacity_of_size (CurrentList.size_merge_writes writes result))
  | error misuse =>
      exact rooms_set_current list _ _ (capacity_of_size (CurrentList.size_cut_short _ writes))

theorem rooms_step (ensemble : Ensemble) (op : Op) : Rooms ensemble (ensemble.step op).2 := by
  cases op with
  | add list slot mode =>
      simp only [step]
      split
      · rename_i pos current added
        apply rooms_set_current list current
        exact capacity_of_size (CurrentList.size_get_or_add _ mode pos added)
      · exact rooms_of_lists rfl rfl
  | merge list writes => exact rooms_merged list _
  | mergeSet list sets => exact rooms_merged list _
  | seed list retro => exact rooms_changed list _ fun _ => CurrentList.size_seed _
  | acquireAt list pos =>
      exact rooms_set_current list _ _ (capacity_of_size (CurrentList.size_acquire_at _ pos _))
  | acquireThrough list last =>
      apply rooms_set_current list
      exact capacity_of_size (CurrentList.framed_acquire_through _ last _).size
  | releaseAfter list id =>
      exact rooms_set_current list _ _ (capacity_of_size (CurrentList.size_release_after _ id _))
  | releaseAtAndAfter list id =>
      exact rooms_set_current list _ _ (capacity_of_size (CurrentList.size_release_after _ _ _))
  | releaseAll list =>
      exact rooms_set_current list _ _ (capacity_of_size (CurrentList.size_release_after _ 0 _))
  | giveUpAfter list id =>
      exact rooms_set_current list _ _ (capacity_of_size (CurrentList.size_give_up_after _ id))
  | giveUpAtAndAfter list id =>
      exact rooms_set_current list _ _ (capacity_of_size (CurrentList.size_give_up_after _ _))
  | reset list => exact rooms_set_current list _ _ (capacity_of_size (CurrentList.size_reset _))
  | replace list =>
      apply rooms_set_current list
      -- The new list is made with the capacity of the old one.
      have made : ∀ capacity, (Buffer.ofCapacity capacity).capacity = capacity := fun capacity => by
        simp [Buffer.ofCapacity, Buffer.capacity]
      exact (made _).trans (capacity_of_size (CurrentList.size_release_after _ 0 _))
  | construct retro sets threshold =>
      simp only [step]
      split
      · rename_i list built
        apply rooms_set_retro retro list
        exact capacity_of_size (RetroList.size_construct _ list _ _ _ built)
      · exact rooms_set_retro retro _ (capacity_of_size (RetroList.size_spilled _ _ _ _))
  | resetRetro retro =>
      apply rooms_set_retro retro
      exact capacity_of_size (by simp [RetroList.reset, Buffer.clear])
  | addRead sets slot version =>
      simp only [step]
      split <;> exact rooms_of_lists rfl rfl
  | addWrite sets slot value =>
      simp only [step]
      split <;> exact rooms_of_lists rfl rfl
  | sortWrites sets => exact rooms_of_lists rfl rfl
  | clearSets sets => exact rooms_of_lists rfl rfl
  | take slot kind => exact rooms_of_lists rfl rfl
  | release slot => exact rooms_of_lists rfl rfl
  | setVersion slot version => exact rooms_of_lists rfl rfl
  | setHotness slot level => exact rooms_of_lists rfl rfl

theorem reached_rooms (start : Ensemble) (situation : Situation) (reached : Reached start situation) :
    Rooms start situation.ensemble := by
  induction reached with
  | start => exact rooms_of_lists rfl rfl
  | step op before legal rooms => exact rooms.trans (rooms_step _ op)

theorem lists_keep_their_form (start : Ensemble) (initial : start.Initial) (situation : Situation)
    (reached : Reached start situation) :
    (∀ list, (situation.ensemble.current list).buffer.Represented situation.ensemble.store ∧
      (situation.ensemble.current list).buffer.capacity = (start.current list).buffer.capacity) ∧
    ∀ list, (situation.ensemble.retro list).buffer.Formed situation.ensemble.store ∧
      (situation.ensemble.retro list).buffer.capacity = (start.retro list).buffer.capacity ∧
      -- What is remembered holds no lock.
      (∀ pos, 0 < pos → pos ≤ (situation.ensemble.retro list).buffer.active →
        ((situation.ensemble.retro list).buffer.cell pos).taken = .unlocked) ∧
      -- It is in order, unless there was no room for it.
      (situation.spilled list = false →
        (situation.ensemble.retro list).buffer.Represented situation.ensemble.store) := by
  have sound := reached_sound start initial situation reached
  have rooms := reached_rooms start situation reached
  refine ⟨fun list => ⟨?_, rooms.currents list⟩, fun list => ⟨?_, rooms.retros list, ?_, fun fits => ?_⟩⟩
  · obtain ⟨buffer, entries⟩ := sound.currents list
    exact Buffer.represented_of_sound _ buffer entries _ sound.named
  · obtain ⟨room, sentinel, entries, _⟩ := sound.retros list
    exact Buffer.formed_of_entries _ room sentinel entries _ sound.named
  · intro pos first last
    have retro := sound.retros list
    have free := retro.free _ (Buffer.cell_mem_entries _ retro.room pos first last)
    simpa [Entry.isLocked] using free
  · obtain ⟨buffer, entries, _⟩ := reached_in_order start initial situation reached list fits
    exact Buffer.represented_of_sound _ buffer entries _ sound.named

def stage : Ensemble where
  store := { records := #[{ id := 1 }, { id := 2 }] }
  outsiders := .forRecords 2
  currents := #[.ofCapacity 4 0]
  retros := #[.ofCapacity 4, .ofCapacity 2]
  sets := #[{ capacity := 4 }, { capacity := 4 }]

theorem stage_initial : stage.Initial where
  different := by decide
  nonzero := by decide
  free := by decide
  outsiders := rfl
  currents := by
    intro list listed
    exact ⟨4, 0, by simpa [stage] using listed⟩
  retros := by
    intro list listed
    obtain rfl | rfl : list = .ofCapacity 4 ∨ list = .ofCapacity 2 := by simpa [stage] using listed
    · exact ⟨4, rfl⟩
    · exact ⟨2, rfl⟩
  sets := by
    intro sets listed
    exact ⟨4, by simpa [stage] using listed⟩

-- Remembers a stale read, starts with its lock, and owns the second lock when somebody else has the
-- first one.
def Situation.seeded : Situation :=
  ((((((Situation.start stage).step (.addRead 0 0 3)).step (.construct 0 0 10)).step
    (.seed 0 0)).step (.add 0 1 .exclusive)).step (.take 0 .writer)).step (.acquireAt 0 2)

theorem seeded_reached : Reached stage Situation.seeded := by
  refine .step _ (.step _ (.step _ (.step _ (.step _ (.step _ .start ?_) ?_) ?_) ?_) ?_) ?_
  · exact ⟨fun list here => (by cases here), by decide, trivial⟩
  · exact ⟨fun list here => (by cases here), by decide, trivial⟩
  · exact ⟨fun list here => by cases here; decide, by decide, by rw [Op.Respects]; decide +kernel⟩
  · exact ⟨fun list here => by cases here; decide, by decide, trivial⟩
  · exact ⟨fun list here => (by cases here), by decide, trivial⟩
  · exact ⟨fun list here => by cases here; decide, by decide, trivial⟩

-- The try for the first lock fails; then the other retrospective list has no room for three reads.
def Situation.overfull : Situation :=
  ((((Situation.seeded.step (.acquireAt 0 1)).step (.addRead 1 1 3)).step (.addRead 1 0 3)).step
    (.addRead 1 1 3)).step (.construct 1 1 10)

theorem overfull_reached : Reached stage Situation.overfull := by
  refine .step _ (.step _ (.step _ (.step _ (.step _ seeded_reached ?_) ?_) ?_) ?_) ?_
  · exact ⟨fun list here => by cases here; decide +kernel, by simp [Op.slots], trivial⟩
  · exact ⟨fun list here => (by cases here), by decide +kernel, trivial⟩
  · exact ⟨fun list here => (by cases here), by decide +kernel, trivial⟩
  · exact ⟨fun list here => (by cases here), by decide +kernel, trivial⟩
  · exact ⟨fun list here => (by cases here), by simp [Op.slots], trivial⟩

theorem lost_try_keeps_form :
    (Situation.seeded.ensemble.step (.acquireAt 0 1)).1.map (fun _ => ()) = .fault .raceAbort ∧
      (Situation.overfull.ensemble.current 0).buffer.Represented Situation.overfull.ensemble.store ∧
      Situation.overfull.spilled 0 = false ∧
      (Situation.overfull.ensemble.retro 0).buffer.Represented Situation.overfull.ensemble.store ∧
      Situation.overfull.spilled 1 = true ∧
      (Situation.overfull.ensemble.retro 1).buffer.entries.map Entry.id = [2, 1] ∧
      (Situation.overfull.ensemble.retro 1).buffer.Formed Situation.overfull.ensemble.store := by
  obtain ⟨currents, retros⟩ :=
    lists_keep_their_form stage stage_initial Situation.overfull overfull_reached
  have fits : Situation.overfull.spilled 0 = false := by decide +kernel
  exact ⟨by decide +kernel, (currents 0).1, fits, (retros 0).2.2.2 fits, by decide +kernel,
    by decide +kernel, (retros 1).1⟩

end Ensemble

end LockOrder
