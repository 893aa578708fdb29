import LockOrder.Proofs.Buffer.Sound

set_option autoImplicit false

namespace LockOrder

namespace Buffer

theorem ext_cells {buffer other : Buffer} (size : buffer.cells.size = other.cells.size)
    (active : buffer.active = other.active) (cells : ∀ pos, buffer.cell pos = other.cell pos) :
    buffer = other := by
  obtain ⟨mine, active⟩ := buffer
  obtain ⟨yours, _⟩ := other
  cases active
  refine congrArg (Buffer.mk · _) (Array.ext size fun pos inside outside => ?_)
  have same := cells pos
  simp only [cell] at same
  rwa [Array.getElem?_eq_getElem inside, Array.getElem?_eq_getElem outside] at same

theorem entries_from_eq_drop (buffer : Buffer) (pos : Nat) (first : 0 < pos) :
    buffer.entriesFrom pos = buffer.entries.drop (pos - 1) := by
  have place : 1 + (pos - 1) = pos := by omega
  simp only [entries, entriesFrom, Array.toList_extract, List.extract_eq_take_drop, ← List.drop_take,
    List.drop_drop, place]

theorem cell_set_other (buffer : Buffer) (pos other : Nat) (entry : Entry) (different : other ≠ pos) :
    (buffer.set pos entry).cell other = buffer.cell other := by
  simp [set, cell, Ne.symm different]

theorem cell_write_before (buffer : Buffer) (pos other : Nat) (entries : List Entry)
    (before : other < pos) : (buffer.write pos entries).cell other = buffer.cell other := by
  induction entries generalizing buffer pos with
  | nil => rfl
  | cons entry rest ih =>
      rw [write, ih (buffer.set pos entry) (pos + 1) (by omega)]
      exact cell_set_other buffer pos other entry (by omega)

theorem entries_set (buffer : Buffer) (pos : Nat) (entry : Entry) (first : 0 < pos) :
    (buffer.set pos entry).entries = buffer.entries.set (pos - 1) entry := by
  obtain ⟨index, rfl⟩ : ∃ index, pos = index + 1 := ⟨pos - 1, by omega⟩
  cases cells : buffer.cells.toList with
  | nil => simp [entries, entriesFrom, set, cells]
  | cons sentinel rest => simp [entries, entriesFrom, set, cells, List.take_set]

theorem entries_write (buffer : Buffer) (room : buffer.active < buffer.cells.size) (pos : Nat)
    (entries : List Entry) (first : 0 < pos) (fits : pos + entries.length = buffer.active + 1) :
    (buffer.write pos entries).entries = buffer.entries.take (pos - 1) ++ entries := by
  apply List.ext_getElem?
  intro index
  have cut : min (pos - 1) buffer.active = pos - 1 := by omega
  rw [getElem_entries _ (by simpa using room), active_write, cell_write _ _ _ _ (by omega),
    List.getElem?_append, List.length_take, length_entries buffer room, cut, List.getElem?_take,
    getElem_entries buffer room]
  by_cases before : index < pos - 1
  · have low : index + 1 < pos := by omega
    have old : index < buffer.active := by omega
    simp [before, low, old]
  · have high : ¬ index + 1 < pos := by omega
    have shift : index + 1 - pos = index - (pos - 1) := by omega
    by_cases inside : index < buffer.active
    · have bound : index - (pos - 1) < entries.length := by omega
      simp [before, high, shift, inside, bound]
    · have beyond : entries.length ≤ index - (pos - 1) := by omega
      simp [before, inside, beyond]

theorem sound_of_entries {buffer next : Buffer} (sound : buffer.Sound)
    (room : next.active < next.cells.size) (sentinel : next.cell 0 = buffer.cell 0)
    (same : next.entries.map Entry.id = buffer.entries.map Entry.id) : next.Sound where
  room := room
  sentinel := sentinel.trans sound.sentinel
  ascending := by
    have old : (buffer.entries.map Entry.id).Pairwise (· < ·) :=
      List.pairwise_map.mpr sound.ascending
    rw [← same] at old
    exact List.pairwise_map.mp old

theorem sound_set (buffer : Buffer) (sound : buffer.Sound) (pos : Nat) (entry : Entry)
    (first : 0 < pos) (last : pos ≤ buffer.active) (same : entry.id = (buffer.cell pos).id) :
    (buffer.set pos entry).Sound := by
  refine sound_of_entries sound (by simpa using sound.room) ?_ ?_
  · exact cell_set_other buffer pos 0 entry (by omega)
  · have here := entry_at buffer sound.room pos first last
    obtain ⟨inside, value⟩ := List.getElem?_eq_some_iff.mp here
    have listed : pos - 1 < (buffer.entries.map Entry.id).length := by simpa using inside
    have old : (buffer.entries.map Entry.id)[pos - 1] = entry.id := by
      simp [value, same]
    rw [entries_set buffer pos entry first, List.map_set, ← old, List.set_getElem_self]

theorem sound_write (buffer : Buffer) (sound : buffer.Sound) (pos : Nat) (f : Entry → Entry)
    (first : 0 < pos) (last : pos ≤ buffer.active + 1) (same : ∀ entry, (f entry).id = entry.id) :
    (buffer.write pos ((buffer.entriesFrom pos).map f)).Sound := by
  have fits : pos + ((buffer.entriesFrom pos).map f).length = buffer.active + 1 := by
    rw [List.length_map, length_entries_from buffer pos sound.room]
    omega
  refine sound_of_entries sound (by simpa using sound.room) ?_ ?_
  · exact cell_write_before buffer pos 0 _ first
  · rw [entries_write buffer sound.room pos _ first fits, entries_from_eq_drop buffer pos first]
    simp only [List.map_append, List.map_map, Function.comp_def, same]
    rw [← List.map_append, List.take_append_drop]

theorem sound_fill (buffer : Buffer) (entries : List Entry) (room : entries.length < buffer.cells.size)
    (sentinel : buffer.cell 0 = .sentinel) (ascending : Entry.Ascending entries) :
    (buffer.fill entries).Sound where
  room := by simpa [fill] using room
  sentinel := (cell_write_before buffer 1 0 entries (by omega)).trans sentinel
  ascending := by
    rw [entries_fill buffer entries room]
    exact ascending

theorem sound_of_capacity (capacity : Nat) : (ofCapacity capacity).Sound where
  room := by simp [ofCapacity]
  sentinel := by simp [ofCapacity, cell]
  ascending := by
    rw [entries_of_capacity]
    exact List.Pairwise.nil

theorem sound_clear (buffer : Buffer) (room : 0 < buffer.cells.size) : buffer.clear.Sound where
  room := by simpa [clear] using room
  sentinel := by simp [clear, cell, set, room]
  ascending := by
    rw [entries_clear]
    exact List.Pairwise.nil

end Buffer

end LockOrder
