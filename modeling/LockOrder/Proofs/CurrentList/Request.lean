import LockOrder.Proofs.Buffer.Find
import LockOrder.Proofs.Buffer.Request

set_option autoImplicit false

namespace LockOrder

namespace Entry

def preferAt (id : UInt64) (mode : Mode) (entry : Entry) : Entry :=
  if entry.id = id then entry.prefer mode else entry

@[simp] theorem id_prefer_at (id : UInt64) (mode : Mode) (entry : Entry) :
    (entry.preferAt id mode).id = entry.id := by
  unfold preferAt
  split <;> rfl

theorem request_listed (lock : LockRef) (mode : Mode) (entries : List Entry)
    (ascending : Ascending entries) (listed : ∃ entry ∈ entries, entry.id = lock.id) :
    request lock mode entries = entries.map (preferAt lock.id mode) := by
  induction entries with
  | nil => simp at listed
  | cons first rest ih =>
      obtain ⟨above, later⟩ := List.pairwise_cons.mp ascending
      rw [request, List.map_cons]
      by_cases smaller : first.id < lock.id
      · have behind : ∃ entry ∈ rest, entry.id = lock.id := by
          obtain ⟨entry, member, here⟩ := listed
          rcases List.mem_cons.mp member with rfl | member
          · exact absurd here (UInt64.ne_of_lt smaller)
          · exact ⟨entry, member, here⟩
        rw [if_pos smaller, ih later behind, preferAt, if_neg (UInt64.ne_of_lt smaller)]
      · have here : first.id = lock.id := by
          obtain ⟨entry, member, here⟩ := listed
          rcases List.mem_cons.mp member with rfl | member
          · exact here
          · exact absurd (here ▸ above entry member) smaller
        have same : rest.map (preferAt lock.id mode) = rest := by
          refine (List.map_congr_left fun entry member => ?_).trans (List.map_id rest)
          have apart : entry.id ≠ lock.id := Ne.symm (UInt64.ne_of_lt (here ▸ above entry member))
          exact if_neg apart
        rw [if_neg smaller, if_pos here, preferAt, if_pos here, same]

theorem length_request (lock : LockRef) (mode : Mode) (entries : List Entry) :
    (request lock mode entries).length ≤ entries.length + 1 := by
  induction entries with
  | nil => simp [request]
  | cons first rest ih =>
      unfold request
      split
      · simpa using ih
      · split <;> simp

end Entry

namespace CurrentList

variable {list after : CurrentList} {lock : LockRef} {mode : Mode} {pos : Nat}

theorem get_or_add_position (sound : list.buffer.Sound)
    (added : list.getOrAdd lock mode = .ok (pos, after)) :
    0 < pos ∧ pos ≤ after.buffer.active ∧ (after.buffer.cell pos).id = lock.id ∧
      after.calls = list.calls := by
  have cuts := list.buffer.lower_bound_cuts sound lock.id
  have room := sound.room
  unfold getOrAdd at added
  generalize list.buffer.lowerBound lock.id = bound at added cuts
  have first := cuts.first
  have last := cuts.last
  simp only at added
  split at added
  · rename_i buffer edit
    obtain ⟨rfl, rfl⟩ : bound = pos ∧ { list with buffer } = after := by simpa using added
    refine ⟨first, ?_⟩
    change bound ≤ buffer.active ∧ (buffer.cell bound).id = lock.id ∧ list.calls = list.calls
    split at edit
    · unfold Buffer.push at edit
      split at edit
      · rename_i beyond free
        cases edit
        obtain rfl : bound = list.buffer.active + 1 := by omega
        unfold Buffer.capacity at free
        refine ⟨Nat.le_refl _, ?_, rfl⟩
        change ((list.buffer.set _ _).cell _).id = _
        rw [Buffer.cell_set _ _ _ _ (by omega), if_pos rfl]
        rfl
      · cases edit
    · split at edit
      · rename_i inside here
        cases edit
        refine ⟨by rw [Buffer.active_set]; omega, ?_, rfl⟩
        rw [Buffer.cell_set _ _ _ _ (by omega), if_pos rfl, Entry.id_prefer]
        exact here
      · rename_i inside other
        unfold Buffer.insert at edit
        split at edit
        · rename_i free
          cases edit
          unfold Buffer.capacity at free
          have fits : bound + (Entry.fresh lock mode :: list.buffer.entriesFrom bound).length ≤
              list.buffer.cells.size := by
            rw [List.length_cons, Buffer.length_entries_from _ _ room]
            omega
          refine ⟨by simp only; omega, ?_, rfl⟩
          change ((list.buffer.write _ _).cell _).id = _
          rw [Buffer.cell_write _ _ _ _ fits]
          simp
        · cases edit
  · cases added

theorem get_or_add_succeeds (sound : list.buffer.Sound) (lock : LockRef) (mode : Mode)
    (room : list.buffer.active < list.buffer.capacity ∨ ∃ entry ∈ list.entries, entry.id = lock.id) :
    ∃ pos after, list.getOrAdd lock mode = .ok (pos, after) := by
  have cuts := list.buffer.lower_bound_cuts sound lock.id
  have found : (∃ entry ∈ list.entries, entry.id = lock.id) →
      list.buffer.lowerBound lock.id ≤ list.buffer.active ∧
        (list.buffer.cell (list.buffer.lowerBound lock.id)).id = lock.id := by
    rintro ⟨entry, listed, here⟩
    obtain ⟨other, first, last, rfl⟩ := Buffer.mem_entries_cell _ sound.room entry listed
    obtain rfl := cuts.unique sound other first last here
    exact ⟨last, here⟩
  unfold getOrAdd
  generalize list.buffer.lowerBound lock.id = bound at cuts found
  simp only
  by_cases beyond : list.buffer.active < bound
  · have free : list.buffer.active < list.buffer.capacity :=
      room.resolve_right fun listed => absurd (found listed).1 (by omega)
    simp [beyond, Buffer.push, free]
  · by_cases here : (list.buffer.cell bound).id = lock.id
    · simp [beyond, here]
    · have free : list.buffer.active < list.buffer.capacity :=
        room.resolve_right fun listed => here (found listed).2
      simp [beyond, here, Buffer.insert, free]

end CurrentList

end LockOrder
