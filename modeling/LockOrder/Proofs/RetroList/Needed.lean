import LockOrder.Proofs.RetroList.Sound

set_option autoImplicit false

namespace LockOrder

namespace RetroList

def merged (entries : List Entry) : List Entry :=
  match sorted entries with
  | [] => []
  | first :: rest => collapse first rest

theorem collapse_ids (first : Entry) (rest : List Entry) (id : UInt64) :
    (∃ entry ∈ collapse first rest, entry.id = id) ↔ ∃ entry ∈ first :: rest, entry.id = id := by
  induction rest generalizing first with
  | nil => simp [collapse]
  | cons next rest ih =>
      rw [collapse]
      by_cases same : first.id = next.id
      · rw [if_pos same, ih]
        simp [same]
      · rw [if_neg same]
        simp only [List.mem_cons, or_and_right, exists_or, exists_eq_left] at ih ⊢
        rw [ih]

def runs : List Entry → List Entry
  | [] => []
  | first :: rest => collapse first rest

theorem runs_ids (order : List Entry) (id : UInt64) :
    (∃ entry ∈ runs order, entry.id = id) ↔ ∃ entry ∈ order, entry.id = id := by
  cases order with
  | nil => exact Iff.rfl
  | cons first rest => exact collapse_ids first rest id

theorem runs_all (holds : Entry → Prop) (kept : ∀ entry mode, holds entry → holds (entry.prefer mode))
    (order : List Entry) (all : ∀ entry ∈ order, holds entry) : ∀ entry ∈ runs order, holds entry := by
  cases order with
  | nil => exact all
  | cons first rest => exact collapse_all holds kept first rest all

theorem runs_of_short {order entries : List Entry} (perm : order.Perm entries)
    (short : entries.length ≤ 1) : runs order = entries := by
  match entries, short with
  | [], _ =>
      rw [perm.eq_nil]
      rfl
  | [entry], _ =>
      rw [List.perm_singleton.mp perm]
      rfl

theorem merged_eq_runs (entries : List Entry) : merged entries = runs (sorted entries) := by
  rw [merged]
  cases sorted entries <;> rfl

theorem merged_short (entries : List Entry) (short : entries.length ≤ 1) : merged entries = entries := by
  rw [merged_eq_runs]
  exact runs_of_short (sorted_perm entries) short

theorem merged_all (holds : Entry → Prop)
    (kept : ∀ entry mode, holds entry → holds (entry.prefer mode)) (entries : List Entry)
    (all : ∀ entry ∈ entries, holds entry) : ∀ entry ∈ merged entries, holds entry := by
  rw [merged_eq_runs]
  exact runs_all holds kept _ fun entry listed => all entry ((sorted_perm entries).mem_iff.mp listed)

theorem merged_ids (entries : List Entry) (id : UInt64) :
    (∃ entry ∈ merged entries, entry.id = id) ↔ ∃ entry ∈ entries, entry.id = id := by
  rw [merged_eq_runs, runs_ids]
  simp only [(sorted_perm entries).mem_iff]

theorem construct_entries (list after : RetroList) (sets : AccessSets) (threshold : UInt32)
    (store : Store) (room : 0 < list.buffer.cells.size)
    (built : list.construct sets threshold store = .ok after) :
    after.buffer.entries = merged (needed sets threshold store) := by
  unfold construct at built
  split at built
  · cases built
  · rename_i buffer appended
    have clean := Buffer.sound_clear list.buffer room
    obtain ⟨view, _, _, bound⟩ := append_entries _ buffer _ clean.room appended
    change buffer.entries = list.buffer.clear.entries ++ _ at view
    rw [Buffer.entries_clear, List.nil_append] at view
    have length := Buffer.length_entries buffer bound
    split at built
    · rename_i short
      cases built
      rw [view] at length ⊢
      exact (merged_short _ (by omega)).symm
    · have sortedLength := (sorted_perm buffer.entries).length_eq
      have fits : (sorted buffer.entries).length < buffer.cells.size := by omega
      simp only [Buffer.entries_fill buffer (sorted buffer.entries) fits] at built
      rw [view] at built fits
      unfold merged
      split at built
      · rename_i empty
        cases built
        rw [empty]
        exact Buffer.entries_fill buffer [] (by simp; omega)
      · rename_i first rest order
        cases built
        rw [order]
        refine Buffer.entries_fill _ _ (Nat.lt_of_le_of_lt (length_collapse first rest) ?_)
        rw [order] at fits
        simpa [Buffer.fill] using fits

theorem needed_wants (sets : AccessSets) (threshold : UInt32) (store : Store) (entry : Entry)
    (listed : entry ∈ needed sets threshold store) : entry.preferred ≠ .unlocked := by
  rcases mem_needed sets threshold store entry listed with ⟨read, _, rfl⟩ | ⟨write, _, rfl⟩ <;>
    simp [Entry.fresh]

theorem needed_ids (sets : AccessSets) (threshold : UInt32) (store : Store) (id : UInt64) :
    (∃ entry ∈ needed sets threshold store, entry.id = id) ↔
      (∃ read ∈ sets.reads.toList, read.lock.id = id ∧ keeps threshold store read = true) ∨
        ∃ write ∈ sets.writes.toList, write.id = id := by
  simp only [needed, List.mem_append, List.mem_map, List.mem_filter, or_and_right, exists_or]
  refine or_congr ⟨?_, ?_⟩ ⟨?_, ?_⟩
  · rintro ⟨_, ⟨read, ⟨listed, kept⟩, rfl⟩, here⟩
    exact ⟨read, listed, here, kept⟩
  · rintro ⟨read, listed, here, kept⟩
    exact ⟨_, ⟨read, ⟨listed, kept⟩, rfl⟩, here⟩
  · rintro ⟨_, ⟨write, listed, rfl⟩, here⟩
    exact ⟨write, listed, here⟩
  · rintro ⟨write, listed, here⟩
    exact ⟨_, ⟨write, listed, rfl⟩, here⟩

end RetroList

end LockOrder
