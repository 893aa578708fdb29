import LockOrder.Proofs.Buffer.Sound

set_option autoImplicit false

namespace LockOrder

namespace Buffer

variable {buffer : Buffer} {id : UInt64} {pos : Nat}

theorem Cuts.unique (cuts : buffer.Cuts id pos) (sound : buffer.Sound) (other : Nat)
    (first : 0 < other) (last : other ≤ buffer.active) (here : (buffer.cell other).id = id) :
    other = pos := by
  by_cases before : other < pos
  · have below := cuts.below other first before
    rw [here] at below
    exact absurd below (UInt64.lt_irrefl _)
  · by_cases behind : pos < other
    · have least := cuts.rest pos (Nat.le_refl _) (by omega)
      have less := cells_ascend buffer sound pos other cuts.first behind last
      rw [here] at less
      exact absurd least (UInt64.not_le.mpr less)
    · omega

theorem find_eq_some_iff (sound : buffer.Sound) :
    buffer.find id = some pos ↔
      0 < pos ∧ pos ≤ buffer.active ∧ (buffer.cell pos).id = id := by
  have cuts := lower_bound_cuts buffer sound id
  unfold find
  constructor
  · intro found
    simp only at found
    split at found
    · rename_i here
      obtain rfl := Option.some.inj found
      exact ⟨cuts.first, here⟩
    · cases found
  · rintro ⟨first, last, here⟩
    obtain rfl := cuts.unique sound pos first last here
    exact if_pos ⟨last, here⟩

theorem find_is_some_iff (sound : buffer.Sound) :
    (buffer.find id).isSome = true ↔ ∃ entry ∈ buffer.entries, entry.id = id := by
  rw [Option.isSome_iff_exists]
  constructor
  · rintro ⟨pos, found⟩
    obtain ⟨first, last, here⟩ := (find_eq_some_iff sound).mp found
    exact ⟨_, cell_mem_entries buffer sound.room pos first last, here⟩
  · rintro ⟨entry, listed, here⟩
    obtain ⟨pos, first, last, rfl⟩ := mem_entries_cell buffer sound.room entry listed
    exact ⟨pos, (find_eq_some_iff sound).mpr ⟨first, last, here⟩⟩

end Buffer

end LockOrder
