import LockOrder.Buffer

set_option autoImplicit false

namespace LockOrder

namespace Buffer

@[simp] theorem active_set (buffer : Buffer) (pos : Nat) (entry : Entry) :
    (buffer.set pos entry).active = buffer.active := rfl

@[simp] theorem size_set (buffer : Buffer) (pos : Nat) (entry : Entry) :
    (buffer.set pos entry).cells.size = buffer.cells.size := by
  simp [set]

@[simp] theorem active_write (buffer : Buffer) (pos : Nat) (entries : List Entry) :
    (buffer.write pos entries).active = buffer.active := by
  induction entries generalizing buffer pos with
  | nil => rfl
  | cons entry rest ih => exact ih (buffer.set pos entry) (pos + 1)

@[simp] theorem size_write (buffer : Buffer) (pos : Nat) (entries : List Entry) :
    (buffer.write pos entries).cells.size = buffer.cells.size := by
  induction entries generalizing buffer pos with
  | nil => rfl
  | cons entry rest ih => exact (ih (buffer.set pos entry) (pos + 1)).trans (size_set ..)

theorem cell_set (buffer : Buffer) (pos other : Nat) (entry : Entry)
    (inside : pos < buffer.cells.size) :
    (buffer.set pos entry).cell other = if other = pos then entry else buffer.cell other := by
  by_cases same : other = pos
  · subst same
    simp [set, cell, inside]
  · simp [set, cell, same, Ne.symm same]

theorem cell_write (buffer : Buffer) (pos other : Nat) (entries : List Entry)
    (room : pos + entries.length ≤ buffer.cells.size) :
    (buffer.write pos entries).cell other =
      if other < pos then buffer.cell other
      else (entries[other - pos]?).getD (buffer.cell other) := by
  induction entries generalizing buffer pos with
  | nil => simp [write]
  | cons entry rest ih =>
      simp only [List.length_cons] at room
      have next := ih (buffer.set pos entry) (pos + 1) (by simp; omega)
      rw [write, next, cell_set _ _ _ _ (by omega)]
      by_cases below : other < pos
      · have before : other < pos + 1 := by omega
        have different : other ≠ pos := by omega
        simp [below, before, different]
      · by_cases same : other = pos
        · subst same
          simp
        · have beyond : ¬ other < pos + 1 := by omega
          have shift : other - pos = (other - (pos + 1)) + 1 := by omega
          simp [below, same, beyond, shift]

theorem length_entries_from (buffer : Buffer) (pos : Nat)
    (room : buffer.active < buffer.cells.size) :
    (buffer.entriesFrom pos).length = buffer.active + 1 - pos := by
  simp [entriesFrom]
  omega

theorem getElem_entries_from (buffer : Buffer) (pos index : Nat)
    (room : buffer.active < buffer.cells.size) (inside : pos + index ≤ buffer.active) :
    (buffer.entriesFrom pos)[index]? = some (buffer.cell (pos + index)) := by
  have bound : pos + index < buffer.cells.size := by omega
  have here : index < buffer.active + 1 - pos := by omega
  simp [entriesFrom, cell, bound, here]

theorem length_entries (buffer : Buffer) (room : buffer.active < buffer.cells.size) :
    buffer.entries.length = buffer.active := by
  simp [entries, entriesFrom]
  omega

theorem getElem_entries (buffer : Buffer) (room : buffer.active < buffer.cells.size) (index : Nat) :
    buffer.entries[index]? =
      if index < buffer.active then some (buffer.cell (index + 1)) else none := by
  by_cases inside : index < buffer.active
  · have bound : index + 1 < buffer.cells.size := by omega
    simp [entries, entriesFrom, cell, inside, bound]
  · have short : buffer.entries.length ≤ index := by
      rw [length_entries _ room]
      omega
    rw [List.getElem?_eq_none short, if_neg inside]

theorem entries_fill (buffer : Buffer) (entries : List Entry)
    (room : entries.length < buffer.cells.size) : (buffer.fill entries).entries = entries := by
  apply List.ext_getElem?
  intro index
  have bound : (buffer.fill entries).active < (buffer.fill entries).cells.size := by
    simpa [fill] using room
  rw [getElem_entries _ bound]
  have same : (buffer.fill entries).cell (index + 1) =
      (buffer.write 1 entries).cell (index + 1) := rfl
  rw [same, cell_write _ _ _ _ (by omega)]
  by_cases inside : index < entries.length
  · simp [fill, inside]
  · simp [fill, inside]

theorem entries_shorten (buffer : Buffer) (active : Nat) (less : active ≤ buffer.active) :
    entries { buffer with active } = buffer.entries.take active := by
  simp only [entries, entriesFrom, Array.toList_extract, List.extract_eq_take_drop, List.take_take]
  congr 1
  omega

theorem entries_of_capacity (capacity : Nat) : (ofCapacity capacity).entries = [] := by
  simp [ofCapacity, entries, entriesFrom]

theorem entries_clear (buffer : Buffer) : buffer.clear.entries = [] := by
  simp [clear, entries, entriesFrom]

theorem entries_push (buffer next : Buffer) (entry : Entry)
    (pushed : buffer.push entry = some next) : next.entries = buffer.entries ++ [entry] := by
  unfold push at pushed
  split at pushed
  · rename_i room
    have bound : buffer.active + 1 < buffer.cells.size := by
      unfold capacity at room
      omega
    cases pushed
    apply List.ext_getElem?
    intro index
    rw [getElem_entries _ (by simpa using bound), List.getElem?_append,
      length_entries _ (by omega), getElem_entries _ (by omega)]
    have same : ({ buffer.set (buffer.active + 1) entry with active := buffer.active + 1 }
        : Buffer).cell (index + 1) = (buffer.set (buffer.active + 1) entry).cell (index + 1) := rfl
    rw [same, cell_set _ _ _ _ bound]
    by_cases inside : index < buffer.active
    · have old : index < buffer.active + 1 := by omega
      have different : index ≠ buffer.active := by omega
      simp [inside, old, different]
    · by_cases last : index = buffer.active
      · simp [last]
      · have beyond : ¬ index < buffer.active + 1 := by omega
        have rest : index - buffer.active ≠ 0 := by omega
        simp [inside, beyond, rest]
  · cases pushed

theorem size_push {buffer next : Buffer} (entry : Entry) (pushed : buffer.push entry = some next) :
    next.cells.size = buffer.cells.size := by
  rw [push] at pushed
  split at pushed <;> cases pushed
  exact size_set ..

theorem active_push {buffer next : Buffer} (entry : Entry)
    (pushed : buffer.push entry = some next) : next.active = buffer.active + 1 := by
  rw [push] at pushed
  split at pushed <;> cases pushed
  rfl

theorem push_eq_none_iff (buffer : Buffer) (entry : Entry) :
    buffer.push entry = none ↔ buffer.capacity ≤ buffer.active := by
  unfold push
  split <;> simp_all

theorem entries_insert (buffer next : Buffer) (pos : Nat) (entry : Entry) (first : 0 < pos)
    (last : pos ≤ buffer.active + 1) (inserted : buffer.insert pos entry = some next) :
    next.entries =
      buffer.entries.take (pos - 1) ++ entry :: buffer.entries.drop (pos - 1) := by
  unfold insert at inserted
  split at inserted
  · rename_i room
    have bound : buffer.active + 1 < buffer.cells.size := by
      unfold capacity at room
      omega
    have fits : pos + (entry :: buffer.entriesFrom pos).length ≤ buffer.cells.size := by
      rw [List.length_cons, length_entries_from _ _ (by omega)]
      omega
    cases inserted
    apply List.ext_getElem?
    intro index
    rw [getElem_entries _ (by simpa using bound), List.getElem?_append, List.length_take,
      length_entries _ (by omega), List.getElem?_take, getElem_entries _ (by omega)]
    have same : ({ buffer.write pos (entry :: buffer.entriesFrom pos) with
        active := buffer.active + 1 } : Buffer).cell (index + 1) =
        (buffer.write pos (entry :: buffer.entriesFrom pos)).cell (index + 1) := rfl
    rw [same, cell_write _ _ _ _ fits]
    by_cases before : index < pos - 1
    · have low : index + 1 < pos := by omega
      have old : index < buffer.active := by omega
      have fresh : index < buffer.active + 1 := by omega
      have part : index < min (pos - 1) buffer.active := by omega
      simp [low, old, fresh, part, before]
    · have high : ¬ index + 1 < pos := by omega
      have part : ¬ index < min (pos - 1) buffer.active := by omega
      have cut : min (pos - 1) buffer.active = pos - 1 := by omega
      by_cases here : index = pos - 1
      · have fresh : index < buffer.active + 1 := by omega
        have zero : index + 1 - pos = 0 := by omega
        have rest : index - (pos - 1) = 0 := by omega
        simp [high, before, fresh, zero, cut, rest]
      · obtain ⟨offset, rfl⟩ : ∃ offset, index = pos + offset := ⟨index - pos, by omega⟩
        have zero : pos + offset + 1 - pos = offset + 1 := by omega
        have rest : pos + offset - (pos - 1) = offset + 1 := by omega
        have shift : pos - 1 + offset = pos + offset - 1 := by omega
        simp only [high, zero, cut, rest, if_false, List.getElem?_cons_succ,
          List.getElem?_drop, shift]
        rw [getElem_entries _ (by omega)]
        by_cases inside : pos + offset < buffer.active + 1
        · have old : pos + offset - 1 < buffer.active := by omega
          have place : pos + offset - 1 + 1 = pos + offset := by omega
          have moved := getElem_entries_from buffer pos offset (by omega) (by omega)
          simp [before, inside, old, place, moved]
        · have old : ¬ pos + offset - 1 < buffer.active := by omega
          simp [before, inside, old]
  · cases inserted

end Buffer

end LockOrder
