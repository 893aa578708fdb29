import LockOrder.AccessSets
import LockOrder.Proofs.Store.Bare

set_option autoImplicit false

namespace LockOrder

namespace WriteAccess

theorem not_before_iff (a b : WriteAccess) :
    ¬ before b a ↔ a.id < b.id ∨ (a.id = b.id ∧ a.ordinal ≤ b.ordinal) := by
  simp only [before, UInt64.lt_iff_toNat_lt, UInt32.lt_iff_toNat_lt, UInt32.le_iff_toNat_le,
    ← UInt64.toNat_inj]
  omega

theorem id_le_of_before {a b : WriteAccess} (first : before a b) : a.id ≤ b.id := by
  rcases first with less | ⟨same, _⟩
  · exact UInt64.le_of_lt less
  · exact same ▸ UInt64.le_refl _

end WriteAccess

namespace AccessSets

structure On (ids : List UInt64) (sets : AccessSets) : Prop where
  reads : ∀ read ∈ sets.reads.toList, read.lock.On ids
  writes : ∀ write ∈ sets.writes.toList, write.lock.On ids

variable {ids : List UInt64} {sets after : AccessSets}

theorem on_empty (capacity : Nat) : On ids { capacity } where
  reads := by simp
  writes := by simp

theorem on_add_read (on : sets.On ids) (lock : LockRef) (version : UInt64) (here : lock.On ids)
    (added : sets.addRead lock version = .ok after) : after.On ids := by
  unfold addRead at added
  split at added
  · cases added
    refine ⟨fun read listed => ?_, on.writes⟩
    rcases List.mem_append.mp (Array.toList_push ▸ listed) with old | new
    · exact on.reads read old
    · rw [List.mem_singleton.mp new]
      exact here
  · cases added

theorem on_add_write (on : sets.On ids) (lock : LockRef) (value : UInt64) (here : lock.On ids)
    (added : sets.addWrite lock value = .ok after) : after.On ids := by
  unfold addWrite at added
  split at added
  · cases added
    refine ⟨on.reads, fun write listed => ?_⟩
    rcases List.mem_append.mp (Array.toList_push ▸ listed) with old | new
    · exact on.writes write old
    · rw [List.mem_singleton.mp new]
      exact here
  · cases added

theorem sort_writes_perm (sets : AccessSets) :
    sets.sortWrites.writes.toList.Perm sets.writes.toList :=
  List.mergeSort_perm sets.writes.toList _

theorem on_sort_writes (on : sets.On ids) : sets.sortWrites.On ids where
  reads := on.reads
  writes := fun write listed => on.writes write ((sort_writes_perm sets).mem_iff.mp listed)

theorem on_clear (sets : AccessSets) : sets.clear.On ids := on_empty sets.capacity

theorem sort_writes_ordered (sets : AccessSets) :
    sets.sortWrites.writes.toList.Pairwise fun a b => ¬ WriteAccess.before b a := by
  have ordered : (sets.writes.toList.mergeSort fun a b => !decide (WriteAccess.before b a)).Pairwise
      fun a b => (!decide (WriteAccess.before b a)) = true := by
    refine List.pairwise_mergeSort (fun a b c first second => ?_) (fun a b => ?_) _
    · simp only [Bool.not_eq_true', decide_eq_false_iff_not, WriteAccess.not_before_iff,
        UInt64.lt_iff_toNat_lt, UInt32.le_iff_toNat_le, ← UInt64.toNat_inj] at first second ⊢
      omega
    · simp only [Bool.or_eq_true, Bool.not_eq_true', decide_eq_false_iff_not,
        WriteAccess.not_before_iff, UInt64.lt_iff_toNat_lt, UInt32.le_iff_toNat_le,
        ← UInt64.toNat_inj]
      omega
  exact ordered.imp fun order => by simpa using order

theorem sort_writes_ids (sets : AccessSets) :
    sets.sortWrites.writes.toList.Pairwise fun a b => a.id ≤ b.id := by
  refine (sort_writes_ordered sets).imp fun {a b} order => ?_
  rcases (WriteAccess.not_before_iff a b).mp order with less | ⟨same, _⟩
  · exact UInt64.le_of_lt less
  · exact same ▸ UInt64.le_refl _

theorem sort_writes_before (different : (sets.writes.toList.map WriteAccess.ordinal).Nodup) :
    sets.sortWrites.writes.toList.Pairwise WriteAccess.before := by
  have sorted : (sets.sortWrites.writes.toList.map WriteAccess.ordinal).Nodup :=
    ((sort_writes_perm sets).map WriteAccess.ordinal).nodup_iff.mpr different
  have apart : sets.sortWrites.writes.toList.Pairwise fun a b => a.ordinal ≠ b.ordinal :=
    List.pairwise_map.mp sorted
  refine ((sort_writes_ordered sets).and apart).imp ?_
  rintro a b ⟨order, ordinals⟩
  rcases (WriteAccess.not_before_iff a b).mp order with less | ⟨same, below⟩
  · exact Or.inl less
  · exact Or.inr ⟨same, UInt32.lt_of_le_of_ne below ordinals⟩

end AccessSets

end LockOrder
