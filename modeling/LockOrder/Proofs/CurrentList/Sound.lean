import LockOrder.CurrentList.Release
import LockOrder.Proofs.Buffer.Request

set_option autoImplicit false

namespace LockOrder

namespace CurrentList

structure Sound (ids : List UInt64) (list : CurrentList) : Prop where
  buffer : list.buffer.Sound
  entries : ∀ entry ∈ list.entries, entry.Sound ids

structure Keeps (ids : List UInt64) (list : CurrentList) (store : Store) (after : CurrentList)
    (next : Store) : Prop where
  sound : after.Sound ids
  size : after.buffer.cells.size = list.buffer.cells.size
  bare : next.bare = store.bare
  conserves : Conserves list.entries store after.entries next

variable {ids : List UInt64} {list after last : CurrentList} {store next final : Store}

theorem keeps_refl (sound : list.Sound ids) : Keeps ids list store list store :=
  ⟨sound, rfl, rfl, .refl⟩

theorem Keeps.trans (first : Keeps ids list store after next)
    (second : Keeps ids after next last final) : Keeps ids list store last final :=
  ⟨second.sound, second.size.trans first.size, second.bare.trans first.bare,
    first.conserves.trans second.conserves⟩

theorem Keeps.of_buffer {other : CurrentList} (keeps : Keeps ids list store after next)
    (same : other.buffer = after.buffer) : Keeps ids list store other next := by
  obtain ⟨buffer, _, _, _⟩ := other
  obtain ⟨_, _, _, _⟩ := after
  cases same
  exact ⟨⟨keeps.sound.buffer, keeps.sound.entries⟩, keeps.size, keeps.bare, keeps.conserves⟩

theorem sound_of_capacity (capacity : Nat) (spins : UInt32) :
    (ofCapacity capacity spins).Sound ids where
  buffer := Buffer.sound_of_capacity capacity
  entries := by simp [entries, ofCapacity, Buffer.entries_of_capacity]

theorem keeps_of_tally (sound : after.Sound ids)
    (size : after.buffer.cells.size = list.buffer.cells.size)
    (same : ∀ slot kind,
      Entry.tally after.entries slot kind = Entry.tally list.entries slot kind) :
    Keeps ids list store after store :=
  ⟨sound, size, rfl, .of_tally same⟩

theorem get_or_add_frame (lock : LockRef) (mode : Mode) (pos : Nat) (sound : list.buffer.Sound)
    (added : list.getOrAdd lock mode = .ok (pos, after)) :
    after.buffer.cells.size = list.buffer.cells.size ∧
      after.buffer.cell 0 = list.buffer.cell 0 ∧ after.buffer.active < after.buffer.cells.size := by
  have cuts := list.buffer.lower_bound_cuts sound lock.id
  unfold getOrAdd at added
  generalize place : list.buffer.lowerBound lock.id = bound at added cuts
  simp only at added
  have first := cuts.first
  have room := sound.room
  split at added
  · rename_i buffer edit
    obtain ⟨rfl, rfl⟩ : bound = pos ∧ { list with buffer } = after := by simpa using added
    change buffer.cells.size = _ ∧ buffer.cell 0 = _ ∧ buffer.active < _
    split at edit
    · unfold Buffer.push at edit
      split at edit
      · rename_i free
        cases edit
        refine ⟨by simp, Buffer.cell_set_other _ _ _ _ (by omega), ?_⟩
        unfold Buffer.capacity at free
        simp
        omega
      · cases edit
    · split at edit
      · cases edit
        exact ⟨by simp, Buffer.cell_set_other _ _ _ _ (by omega), by simpa using room⟩
      · unfold Buffer.insert at edit
        split at edit
        · rename_i free
          cases edit
          refine ⟨by simp, Buffer.cell_write_before _ _ _ _ first, ?_⟩
          unfold Buffer.capacity at free
          simp
          omega
        · cases edit
  · cases added

theorem get_or_add_keeps (store : Store) (lock : LockRef) (mode : Mode) (pos : Nat) (sound : list.Sound ids)
    (on : lock.On ids) (added : list.getOrAdd lock mode = .ok (pos, after)) :
    Keeps ids list store after store := by
  obtain ⟨size, sentinel, room⟩ := get_or_add_frame lock mode pos sound.buffer added
  have view := get_or_add_entries list after lock mode pos sound.buffer added
  refine keeps_of_tally ⟨⟨room, sentinel.trans sound.buffer.sentinel, ?_⟩, ?_⟩ size ?_
  · change Entry.Ascending after.entries
    rw [view]
    exact Entry.ascending_request lock mode list.entries sound.buffer.ascending
  · rw [view]
    exact Entry.sound_request ids lock on mode list.entries sound.entries
  · rw [view]
    exact Entry.tally_request lock mode list.entries

theorem position_after_cuts (buffer : Buffer) (sound : buffer.Sound) (id : UInt64) :
    0 < buffer.positionAfter id ∧ buffer.positionAfter id ≤ buffer.active + 1 := by
  unfold Buffer.positionAfter
  split
  · exact ⟨by omega, by omega⟩
  · have cuts := buffer.lower_bound_cuts sound (id + 1)
    exact ⟨cuts.first, cuts.last⟩

theorem entries_write_from (sound : list.Sound ids) (pos : Nat) (f : Entry → Entry) (first : 0 < pos)
    (last : pos ≤ list.buffer.active + 1) :
    (list.buffer.write pos ((list.buffer.entriesFrom pos).map f)).entries =
      list.entries.take (pos - 1) ++ (list.entries.drop (pos - 1)).map f := by
  have fits : pos + ((list.buffer.entriesFrom pos).map f).length = list.buffer.active + 1 := by
    rw [List.length_map, Buffer.length_entries_from _ _ sound.buffer.room]
    omega
  rw [Buffer.entries_write _ sound.buffer.room pos _ first fits, Buffer.entries_from_eq_drop _ _ first]
  rfl

theorem sound_write_from (sound : list.Sound ids) (pos : Nat) (f : Entry → Entry) (first : 0 < pos)
    (last : pos ≤ list.buffer.active + 1) (same : ∀ entry, (f entry).id = entry.id)
    (kept : ∀ entry, entry.Sound ids → (f entry).Sound ids)
    (written : after.buffer = list.buffer.write pos ((list.buffer.entriesFrom pos).map f)) :
    after.Sound ids where
  buffer := by
    rw [written]
    exact Buffer.sound_write list.buffer sound.buffer pos f first last same
  entries := by
    intro entry listed
    rw [entries, written, entries_write_from sound pos f first last] at listed
    rcases List.mem_append.mp listed with before | changed
    · exact sound.entries entry (List.mem_of_mem_take before)
    · obtain ⟨old, member, rfl⟩ := List.mem_map.mp changed
      exact kept old (sound.entries old (List.mem_of_mem_drop member))

theorem give_up_from_keeps (sound : list.Sound ids) (pos : Nat) (first : 0 < pos)
    (last : pos ≤ list.buffer.active + 1) : Keeps ids list store (list.giveUpFrom pos) store := by
  have view : (list.giveUpFrom pos).entries =
      list.entries.take (pos - 1) ++ (list.entries.drop (pos - 1)).map Entry.giveUp :=
    entries_write_from sound pos Entry.giveUp first last
  refine keeps_of_tally (sound_write_from sound pos Entry.giveUp first last Entry.id_give_up
    (Entry.sound_give_up ids) rfl) (by simp [giveUpFrom]) ?_
  intro slot kind
  rw [view, Entry.tally_append, Entry.tally_map Entry.giveUp _ Entry.owns_give_up,
    ← Entry.tally_append, List.take_append_drop]

theorem give_up_after_keeps (sound : list.Sound ids) (id : UInt64) :
    Keeps ids list store (list.giveUpAfter id) store := by
  obtain ⟨first, last⟩ := position_after_cuts list.buffer sound.buffer id
  exact give_up_from_keeps sound _ first last

theorem tally_of_free (list : CurrentList) (free : list.isHolding = false) (slot : Nat)
    (kind : Handle) : Entry.tally list.entries slot kind = 0 := by
  refine Entry.tally_of_unlocked list.entries ?_ slot kind
  simpa [isHolding] using free

theorem reset_keeps (sound : list.Sound ids) (free : list.isHolding = false) :
    Keeps ids list store list.reset store := by
  have empty : list.reset.entries = [] := Buffer.entries_clear list.buffer
  refine keeps_of_tally ⟨Buffer.sound_clear list.buffer ?_, by simp [empty]⟩ ?_ ?_
  · exact Nat.lt_of_le_of_lt (Nat.zero_le _) sound.buffer.room
  · simp [reset, Buffer.clear]
  · intro slot kind
    rw [empty, tally_of_free list free]
    rfl

end CurrentList

end LockOrder
