import LockOrder.Proofs.Buffer.Edits

set_option autoImplicit false

namespace LockOrder

namespace Buffer

structure Alike (buffer other : Buffer) : Prop where
  size : buffer.cells.size = other.cells.size
  active : buffer.active = other.active
  cell : ∀ pos, 0 < pos → pos ≤ buffer.active → buffer.cell pos = other.cell pos

variable {buffer other : Buffer}

theorem get_cell (buffer : Buffer) (pos : Nat) :
    buffer.cells[pos]? = if pos < buffer.cells.size then some (buffer.cell pos) else none := by
  by_cases inside : pos < buffer.cells.size
  · simp [cell, inside]
  · simp [inside]

theorem cell_beyond (pos : Nat) (beyond : buffer.cells.size ≤ pos) : buffer.cell pos = .sentinel := by
  simp [cell, beyond]

theorem cell_set_agrees (size : buffer.cells.size = other.cells.size) (entry : Entry) (spot pos : Nat)
    (agree : pos = spot ∨ buffer.cell pos = other.cell pos) :
    (buffer.set spot entry).cell pos = (other.set spot entry).cell pos := by
  by_cases here : pos = spot
  · subst here
    by_cases inside : pos < buffer.cells.size
    · rw [cell_set _ _ _ _ inside, cell_set _ _ _ _ (size ▸ inside), if_pos rfl, if_pos rfl]
    · rw [cell_beyond pos (by simpa using inside), cell_beyond pos (by simpa [← size] using inside)]
  · rw [cell_set_other _ _ _ _ here, cell_set_other _ _ _ _ here]
    exact agree.resolve_left here

theorem cell_write_agrees (size : buffer.cells.size = other.cells.size) (entries : List Entry)
    (start pos : Nat)
    (agree : start ≤ pos ∧ pos < start + entries.length ∨ buffer.cell pos = other.cell pos) :
    (buffer.write start entries).cell pos = (other.write start entries).cell pos := by
  induction entries generalizing buffer other start with
  | nil => exact agree.resolve_left fun both => by simp at both; omega
  | cons entry rest ih =>
      apply ih (by simpa using size) (start + 1)
      by_cases later : start + 1 ≤ pos ∧ pos < start + 1 + rest.length
      · exact Or.inl later
      · refine Or.inr (cell_set_agrees size entry start pos ?_)
        rcases agree with ⟨first, last⟩ | same
        · rw [List.length_cons] at last
          exact Or.inl (by omega)
        · exact Or.inr same

theorem Alike.set (alike : buffer.Alike other) (pos : Nat) (entry : Entry) :
    (buffer.set pos entry).Alike (other.set pos entry) where
  size := by simpa using alike.size
  active := alike.active
  cell place first last :=
    cell_set_agrees alike.size entry pos place (Or.inr (alike.cell place first last))

theorem Alike.write (alike : buffer.Alike other) (pos : Nat) (entries : List Entry) :
    (buffer.write pos entries).Alike (other.write pos entries) where
  size := by simpa using alike.size
  active := by simpa using alike.active
  cell place first last := by
    apply cell_write_agrees alike.size entries pos place
    exact Or.inr (alike.cell place first (by simpa using last))

theorem Alike.fill (alike : buffer.Alike other) (entries : List Entry) :
    (buffer.fill entries).Alike (other.fill entries) where
  size := by simpa [Buffer.fill] using alike.size
  active := rfl
  cell place first last := by
    have bound : place ≤ entries.length := last
    exact cell_write_agrees alike.size entries 1 place (Or.inl (by omega))

theorem Alike.clear (alike : buffer.Alike other) : buffer.clear.Alike other.clear where
  size := by simpa [Buffer.clear] using alike.size
  active := rfl
  cell place first last := absurd last (Nat.not_le.mpr first)

theorem Alike.capacity (alike : buffer.Alike other) : buffer.capacity = other.capacity := by
  rw [Buffer.capacity, Buffer.capacity, alike.size]

theorem Alike.entries_from (alike : buffer.Alike other) (pos : Nat) (first : 0 < pos) :
    buffer.entriesFrom pos = other.entriesFrom pos := by
  apply List.ext_getElem?
  intro index
  simp only [entriesFrom, Array.toList_extract, List.extract_eq_take_drop, List.getElem?_take,
    List.getElem?_drop, Array.getElem?_toList, get_cell, ← alike.active, ← alike.size]
  by_cases inside : index < buffer.active + 1 - pos
  · rw [alike.cell (pos + index) (by omega) (by omega)]
  · rw [if_neg inside, if_neg inside]

theorem Alike.entries (alike : buffer.Alike other) : buffer.entries = other.entries :=
  alike.entries_from 1 Nat.one_pos

inductive AlikeIfAny : Option Buffer → Option Buffer → Prop where
  | none : AlikeIfAny none none
  | some {buffer other : Buffer} (alike : buffer.Alike other) : AlikeIfAny (some buffer) (some other)

theorem Alike.push (alike : buffer.Alike other) (entry : Entry) :
    AlikeIfAny (buffer.push entry) (other.push entry) := by
  rw [Buffer.push, Buffer.push, ← alike.active, ← alike.capacity]
  by_cases free : buffer.active < buffer.capacity
  · rw [if_pos free, if_pos free]
    refine .some ⟨by simpa using alike.size, rfl, fun pos first last => ?_⟩
    have bound : pos ≤ buffer.active + 1 := last
    apply cell_set_agrees alike.size entry (buffer.active + 1) pos
    by_cases here : pos = buffer.active + 1
    · exact Or.inl here
    · exact Or.inr (alike.cell pos first (by omega))
  · rw [if_neg free, if_neg free]
    exact .none

theorem Alike.insert (alike : buffer.Alike other) (pos : Nat) (entry : Entry) (first : 0 < pos)
    (last : pos ≤ buffer.active) : AlikeIfAny (buffer.insert pos entry) (other.insert pos entry) := by
  rw [Buffer.insert, Buffer.insert, ← alike.active, ← alike.capacity, ← alike.entries_from pos first]
  by_cases free : buffer.active < buffer.capacity
  · rw [if_pos free, if_pos free]
    refine .some ⟨by simpa using alike.size, rfl, fun place positive within => ?_⟩
    have bound : place ≤ buffer.active + 1 := within
    apply cell_write_agrees alike.size
    rw [Buffer.capacity] at free
    rw [List.length_cons, length_entries_from _ _ (by omega)]
    by_cases old : place ≤ buffer.active
    · exact Or.inr (alike.cell place positive old)
    · exact Or.inl (by omega)
  · rw [if_neg free, if_neg free]
    exact .none

theorem Alike.search (alike : buffer.Alike other) (id : UInt64) (low high : Nat) (first : 0 < low)
    (last : high ≤ buffer.active + 1) : buffer.search id low high = other.search id low high := by
  induction low, high using search.induct buffer id with
  | case1 low high nonempty mid smaller ih =>
      have same : other.cell mid = buffer.cell mid := (alike.cell mid (by omega) (by omega)).symm
      rw [Buffer.search, Buffer.search.eq_def other, if_pos nonempty, if_pos nonempty]
      change (if (buffer.cell mid).id < id then _ else _) = if (other.cell mid).id < id then _ else _
      rw [same, if_pos smaller, if_pos smaller]
      exact ih (Nat.succ_pos mid) last
  | case2 low high nonempty mid larger ih =>
      have same : other.cell mid = buffer.cell mid := (alike.cell mid (by omega) (by omega)).symm
      rw [Buffer.search, Buffer.search.eq_def other, if_pos nonempty, if_pos nonempty]
      change (if (buffer.cell mid).id < id then _ else _) = if (other.cell mid).id < id then _ else _
      rw [same, if_neg larger, if_neg larger]
      exact ih first (by omega)
  | case3 low high closed =>
      rw [Buffer.search, Buffer.search.eq_def other, if_neg closed, if_neg closed]

theorem search_from (buffer : Buffer) (id : UInt64) (low high : Nat) :
    low ≤ buffer.search id low high := by
  induction low, high using search.induct buffer id with
  | case1 low high nonempty mid smaller ih =>
      rw [search, if_pos nonempty]
      simp only [mid] at smaller ih ⊢
      rw [if_pos smaller]
      omega
  | case2 low high nonempty mid larger ih =>
      rw [search, if_pos nonempty]
      simp only [mid] at larger ih ⊢
      rwa [if_neg larger]
  | case3 low high closed => exact Nat.le_of_eq (by rw [search, if_neg closed])

theorem lower_bound_pos (buffer : Buffer) (id : UInt64) : 0 < buffer.lowerBound id := by
  rw [lowerBound]
  by_cases empty : buffer.active = 0
  · rw [if_pos empty]
    exact Nat.one_pos
  · rw [if_neg empty]
    simp only
    split
    · exact Nat.pos_of_ne_zero empty
    · split
      · exact Nat.succ_pos _
      · exact search_from buffer id 1 _

theorem position_after_pos (buffer : Buffer) (id : UInt64) : 0 < buffer.positionAfter id := by
  rw [positionAfter]
  split
  · exact Nat.succ_pos _
  · exact lower_bound_pos buffer _

theorem Alike.lower_bound (alike : buffer.Alike other) (id : UInt64) :
    buffer.lowerBound id = other.lowerBound id := by
  rw [Buffer.lowerBound, Buffer.lowerBound, ← alike.active]
  by_cases empty : buffer.active = 0
  · rw [if_pos empty, if_pos empty]
  · have last := alike.cell buffer.active (Nat.pos_of_ne_zero empty) (Nat.le_refl _)
    rw [if_neg empty, if_neg empty, ← last, alike.search id 1 _ Nat.one_pos (Nat.le_refl _)]

theorem Alike.find (alike : buffer.Alike other) (id : UInt64) : buffer.find id = other.find id := by
  simp only [Buffer.find, ← alike.active, ← alike.lower_bound]
  by_cases inside : buffer.lowerBound id ≤ buffer.active
  · rw [alike.cell _ (lower_bound_pos buffer id) inside]
  · simp only [inside, false_and, if_false]

theorem Alike.position_after (alike : buffer.Alike other) (id : UInt64) :
    buffer.positionAfter id = other.positionAfter id := by
  simp only [Buffer.positionAfter, ← alike.active, alike.lower_bound]

theorem find_inside (id : UInt64) (pos : Nat) (found : buffer.find id = some pos) :
    0 < pos ∧ pos ≤ buffer.active := by
  simp only [Buffer.find] at found
  split at found
  · rename_i inside
    cases found
    exact ⟨lower_bound_pos buffer id, inside.1⟩
  · cases found

end Buffer

end LockOrder
