import LockOrder.Proofs.AccessSets.Order
import LockOrder.Proofs.Serial.Contents

set_option autoImplicit false

namespace LockOrder

def Access.target? : Access → Option (Nat × UInt64)
  | .read _ _ => none
  | .write slot value => some (slot, value)

def WriteAccess.target (write : WriteAccess) : Nat × UInt64 := (write.lock.slot, write.value)

namespace AccessSets

-- The write set holds the writes among these accesses, each with its position as its ordinal.
structure Records (accesses : List Access) (sets : AccessSets) : Prop where
  ordinals : ∀ (index : Nat) (write : WriteAccess), sets.writes[index]? = some write →
    write.ordinal.toNat = index
  writes : sets.writes.toList.map WriteAccess.target = accesses.filterMap Access.target?

theorem records_empty (sets : AccessSets) (empty : sets.writes = #[]) : sets.Records [] where
  ordinals := by simp [empty]
  writes := by simp [empty]

variable {ids : List UInt64} {sets after : AccessSets} {accesses : List Access}

theorem records_read (records : sets.Records accesses) (slot : Nat) (value : UInt64)
    (same : after.writes = sets.writes) : after.Records (accesses ++ [.read slot value]) where
  ordinals := by
    rw [same]
    exact records.ordinals
  writes := by
    rw [same, records.writes, List.filterMap_append]
    exact (List.append_nil _).symm

theorem records_add_write (records : sets.Records accesses) (capacity : sets.capacity < UInt32.size)
    (lock : LockRef) (value : UInt64) (added : sets.addWrite lock value = .ok after) :
    after.Records (accesses ++ [.write lock.slot value]) := by
  unfold addWrite at added
  split at added
  · rename_i room
    cases added
    have next : sets.nextOrdinal.toNat = sets.writes.size := by
      have few : sets.writes.size < UInt32.size := Nat.lt_trans room capacity
      unfold nextOrdinal
      rw [Nat.min_eq_left (Nat.le_of_lt_succ few), UInt32.toNat_ofNat_of_lt' few]
    refine ⟨fun index write here => ?_, ?_⟩
    · simp only [Array.getElem?_push] at here
      split at here
      · rename_i last
        cases here
        exact next.trans last.symm
      · exact records.ordinals index write here
    · simp [records.writes, WriteAccess.target, Access.target?]
  · cases added

theorem ordinals_ascend (records : sets.Records accesses) :
    sets.writes.toList.Pairwise fun a b => a.ordinal < b.ordinal := by
  refine List.pairwise_iff_getElem.mpr fun i j hi hj less => ?_
  have first := records.ordinals i _ (by
    rw [← Array.getElem?_toList]
    exact List.getElem?_eq_getElem hi)
  have second := records.ordinals j _ (by
    rw [← Array.getElem?_toList]
    exact List.getElem?_eq_getElem hj)
  rw [UInt32.lt_iff_toNat_lt]
  omega

theorem sorted_writes_ascend (records : sets.Records accesses) :
    sets.sortWrites.writesAscend = true :=
  decide_eq_true (sort_writes_before
    (List.pairwise_map.mpr ((ordinals_ascend records).imp UInt32.ne_of_lt)))

theorem fold_later (id : UInt64) (best : Option WriteAccess) (writes : List WriteAccess)
    (ascend : writes.Pairwise fun a b => a.ordinal < b.ordinal)
    (later : ∀ other, best = some other → ∀ write ∈ writes, other.ordinal < write.ordinal) :
    writes.foldl (laterOf id) best =
      ((writes.filter fun write => decide (write.id = id)).getLast?).or best := by
  induction writes generalizing best with
  | nil => simp
  | cons write rest ih =>
      obtain ⟨first, ascend⟩ := List.pairwise_cons.mp ascend
      rw [List.foldl_cons]
      by_cases here : write.id = id
      · have step : laterOf id best write = some write := by
          unfold laterOf
          rw [if_pos here]
          cases best with
          | none => rfl
          | some other =>
              have less := later other rfl write (by simp)
              simp only
              rw [if_pos (UInt32.le_of_lt less)]
        rw [step, ih (some write) ascend fun other same => by cases same; exact first]
        simp [here, List.getLast?_cons]
      · have step : laterOf id best write = best := by
          unfold laterOf
          rw [if_neg here]
        rw [step, ih best ascend fun other same next listed => later other same next (by simp [listed])]
        simp [here]

theorem latest_of_writes (records : sets.Records accesses) (slot : Nat) :
    Access.latest slot accesses =
      ((sets.writes.toList.filter fun write => decide (write.lock.slot = slot)).getLast?).map
        WriteAccess.value := by
  let onSlot := fun target : Nat × UInt64 => if target.1 = slot then some target.2 else none
  have targets : Access.written slot = fun access => access.target?.bind onSlot := by
    funext access
    cases access <;> rfl
  let isOn := fun write : WriteAccess => decide (write.lock.slot = slot)
  have values : (onSlot ∘ WriteAccess.target) = fun write =>
      (Option.guard isOn write).map WriteAccess.value := by
    funext write
    by_cases here : write.lock.slot = slot <;>
      simp [onSlot, isOn, Option.guard, WriteAccess.target, here]
  rw [Access.latest, targets, ← List.filterMap_filterMap, ← records.writes, List.filterMap_map,
    values, ← List.getLast?_map, ← List.map_filterMap, List.filterMap_eq_filter]

theorem same_id_iff (different : ids.Nodup) (on : sets.On ids) (lock : LockRef) (here : lock.On ids)
    (write : WriteAccess) (listed : write ∈ sets.writes.toList) :
    write.id = lock.id ↔ write.lock.slot = lock.slot := by
  have there := on.writes write listed
  constructor
  · intro same
    rw [LockRef.on_injective different there here same]
  · intro same
    rw [WriteAccess.id, LockRef.on_slot there here same]

theorem pending_value (different : ids.Nodup) (on : sets.On ids) (records : sets.Records accesses)
    (lock : LockRef) (here : lock.On ids) :
    (sets.pending lock.id).map WriteAccess.value = Access.latest lock.slot accesses := by
  rw [latest_of_writes records, pending, ← Array.foldl_toList,
    fold_later lock.id none _ (ordinals_ascend records) (fun _ none => by cases none), Option.or_none]
  refine congrArg _ (congrArg _ (List.filter_congr fun write listed => ?_))
  simp [same_id_iff different on lock here write listed]

end AccessSets

end LockOrder
