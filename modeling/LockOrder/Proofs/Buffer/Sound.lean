import LockOrder.Buffer.View

set_option autoImplicit false

namespace LockOrder

def Entry.Ascending (entries : List Entry) : Prop := entries.Pairwise fun a b => a.id < b.id

theorem Entry.ascending_iff {entries : List Entry} : ascending entries = true ↔ Ascending entries := by
  rw [ascending, decide_eq_true_iff, List.pairwise_map, Ascending]

namespace Buffer

structure Sound (buffer : Buffer) : Prop where
  room : buffer.active < buffer.cells.size
  sentinel : buffer.cell 0 = .sentinel
  ascending : Entry.Ascending buffer.entries

structure Cuts (buffer : Buffer) (id : UInt64) (pos : Nat) : Prop where
  first : 0 < pos
  last : pos ≤ buffer.active + 1
  below : ∀ other, 0 < other → other < pos → (buffer.cell other).id < id
  rest : ∀ other, pos ≤ other → other ≤ buffer.active → id ≤ (buffer.cell other).id

theorem entry_at (buffer : Buffer) (room : buffer.active < buffer.cells.size) (pos : Nat)
    (first : 0 < pos) (last : pos ≤ buffer.active) :
    buffer.entries[pos - 1]? = some (buffer.cell pos) := by
  have place : pos - 1 + 1 = pos := by omega
  rw [getElem_entries buffer room, if_pos (by omega), place]

theorem cell_mem_entries (buffer : Buffer) (room : buffer.active < buffer.cells.size) (pos : Nat)
    (first : 0 < pos) (last : pos ≤ buffer.active) : buffer.cell pos ∈ buffer.entries :=
  List.mem_of_getElem? (entry_at buffer room pos first last)

theorem mem_entries_cell (buffer : Buffer) (room : buffer.active < buffer.cells.size) (entry : Entry)
    (listed : entry ∈ buffer.entries) :
    ∃ pos, 0 < pos ∧ pos ≤ buffer.active ∧ buffer.cell pos = entry := by
  obtain ⟨index, inside, here⟩ := List.getElem_of_mem listed
  have bound : index < buffer.active := by rwa [length_entries buffer room] at inside
  refine ⟨index + 1, by omega, by omega, ?_⟩
  have place := entry_at buffer room (index + 1) (by omega) (by omega)
  rw [Nat.add_sub_cancel, List.getElem?_eq_getElem inside, here] at place
  exact (Option.some.inj place).symm

theorem cells_ascend (buffer : Buffer) (sound : buffer.Sound) (a b : Nat) (first : 0 < a)
    (order : a < b) (last : b ≤ buffer.active) : (buffer.cell a).id < (buffer.cell b).id := by
  have entryA := entry_at buffer sound.room a first (by omega)
  have entryB := entry_at buffer sound.room b (by omega) last
  obtain ⟨insideA, hereA⟩ := List.getElem?_eq_some_iff.mp entryA
  obtain ⟨insideB, hereB⟩ := List.getElem?_eq_some_iff.mp entryB
  rw [← hereA, ← hereB]
  exact List.pairwise_iff_getElem.mp sound.ascending (a - 1) (b - 1) insideA insideB (by omega)

-- The interval shrinks around the cut: what lies before it is smaller, what lies after it is not.
theorem search_cuts (buffer : Buffer) (sound : buffer.Sound) (id : UInt64) (low high : Nat)
    (first : 0 < low) (order : low ≤ high) (last : high ≤ buffer.active + 1)
    (below : ∀ other, 0 < other → other < low → (buffer.cell other).id < id)
    (rest : ∀ other, high ≤ other → other ≤ buffer.active → id ≤ (buffer.cell other).id) :
    buffer.Cuts id (buffer.search id low high) := by
  induction low, high using search.induct buffer id with
  | case1 low high nonempty mid smaller ih =>
      rw [search, if_pos nonempty]
      simp only [mid] at smaller ih
      rw [if_pos smaller]
      refine ih (by omega) (by omega) last ?_ rest
      intro other positive before
      by_cases here : other = low + (high - low) / 2
      · rw [here]
        exact smaller
      · exact UInt64.lt_trans (cells_ascend buffer sound other _ positive (by omega) (by omega)) smaller
  | case2 low high nonempty mid larger ih =>
      rw [search, if_pos nonempty]
      simp only [mid] at larger ih
      rw [if_neg larger]
      refine ih first (by omega) (by omega) below ?_
      intro other onwards bound
      have least : id ≤ (buffer.cell (low + (high - low) / 2)).id := UInt64.not_lt.mp larger
      by_cases here : other = low + (high - low) / 2
      · rw [here]
        exact least
      · have above := cells_ascend buffer sound (low + (high - low) / 2) other (by omega) (by omega) bound
        exact UInt64.le_trans least (UInt64.le_of_lt above)
  | case3 low high closed =>
      have same : low = high := by omega
      rw [search, if_neg closed]
      exact ⟨first, by omega, below, same ▸ rest⟩

theorem lower_bound_cuts (buffer : Buffer) (sound : buffer.Sound) (id : UInt64) :
    buffer.Cuts id (buffer.lowerBound id) := by
  unfold lowerBound
  by_cases empty : buffer.active = 0
  · rw [if_pos empty]
    exact ⟨by omega, by omega, fun _ _ _ => by omega, fun _ _ _ => by omega⟩
  · rw [if_neg empty]
    by_cases same : (buffer.cell buffer.active).id = id
    · simp only [if_pos same]
      refine ⟨by omega, by omega, ?_, ?_⟩
      · intro other positive before
        rw [← same]
        exact cells_ascend buffer sound other buffer.active positive before (by omega)
      · intro other onwards bound
        have here : other = buffer.active := by omega
        rw [here, same]
        exact UInt64.le_refl id
    · by_cases smaller : (buffer.cell buffer.active).id < id
      · simp only [if_neg same, if_pos smaller]
        refine ⟨by omega, by omega, ?_, fun _ _ _ => by omega⟩
        intro other positive before
        by_cases here : other = buffer.active
        · rw [here]
          exact smaller
        · exact UInt64.lt_trans
            (cells_ascend buffer sound other buffer.active positive (by omega) (by omega)) smaller
      · simp only [if_neg same, if_neg smaller]
        exact search_cuts buffer sound id 1 (buffer.active + 1) (by omega) (by omega) (by omega)
          (fun _ _ _ => by omega) (fun _ _ _ => by omega)

namespace Cuts

variable {buffer : Buffer} {id : UInt64} {pos : Nat}

theorem take_below (cuts : buffer.Cuts id pos) (room : buffer.active < buffer.cells.size) :
    ∀ entry ∈ buffer.entries.take (pos - 1), entry.id < id := by
  intro entry listed
  obtain ⟨index, inside, here⟩ := List.getElem_of_mem listed
  have before : index < pos - 1 := by
    rw [List.length_take] at inside
    omega
  have bound := cuts.last
  have place := entry_at buffer room (index + 1) (by omega) (by omega)
  rw [List.getElem_take] at here
  rw [Nat.add_sub_cancel, List.getElem?_eq_some_iff] at place
  obtain ⟨_, value⟩ := place
  rw [← here, value]
  exact cuts.below (index + 1) (by omega) (by omega)

theorem drop_not_below (cuts : buffer.Cuts id pos) (room : buffer.active < buffer.cells.size) :
    ∀ entry ∈ buffer.entries.drop (pos - 1), id ≤ entry.id := by
  intro entry listed
  have first := cuts.first
  obtain ⟨index, here⟩ := List.mem_iff_getElem?.mp listed
  rw [List.getElem?_drop, getElem_entries buffer room] at here
  split at here
  · cases here
    exact cuts.rest (pos - 1 + index + 1) (by omega) (by omega)
  · cases here

end Cuts

end Buffer

end LockOrder
