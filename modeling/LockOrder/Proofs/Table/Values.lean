import LockOrder.Proofs.Serial.Contents
import LockOrder.Table

set_option autoImplicit false

namespace LockOrder

abbrev KeyMap := UInt64 → Option UInt64

def KeyMap.write (map : KeyMap) (key value : UInt64) : KeyMap :=
  fun other => if other = key then some value else map other

namespace Access

variable {accesses : List Access}

theorem latest_read (slot other : Nat) (value : UInt64) :
    latest slot (accesses ++ [.read other value]) = latest slot accesses := by
  simp [latest, written]

theorem latest_write (slot other : Nat) (value : UInt64) :
    latest slot (accesses ++ [.write other value]) =
      if other = slot then some value else latest slot accesses := by
  by_cases here : other = slot <;> simp [latest, written, here]

theorem latest_eq_none_iff (slot : Nat) :
    latest slot accesses = none ↔ ∀ value, .write slot value ∉ accesses := by
  rw [latest, List.getLast?_eq_none_iff, List.filterMap_eq_nil_iff]
  constructor
  · intro none value member
    simpa [written] using none _ member
  · intro unwritten access member
    cases access with
    | read other value => rfl
    | write other value =>
        rw [written, if_neg]
        rintro rfl
        exact unwritten value member

end Access

namespace Store

variable {store : Store} {accesses : List Access}

theorem value_at_commit (slot : Nat) (inside : slot < store.records.size) :
    ((store.commit accesses).recordAt slot).value =
      (Access.latest slot accesses).getD (store.recordAt slot).value := by
  rw [record_at_commit store accesses slot inside]
  cases Access.latest slot accesses <;> rfl

theorem commit_keeps (store : Store) (accesses : List Access) (slot : Nat) :
    ((store.commit accesses).recordAt slot).lock = (store.recordAt slot).lock ∧
      ((store.commit accesses).recordAt slot).hotness = (store.recordAt slot).hotness := by
  by_cases inside : slot < store.records.size
  · rw [record_at_commit store accesses slot inside]
    cases Access.latest slot accesses <;> exact ⟨rfl, rfl⟩
  · rw [record_at_commit_outside store accesses slot (by omega)]
    exact ⟨rfl, rfl⟩

theorem commit_read (slot : Nat) (value : UInt64) :
    store.commit (accesses ++ [.read slot value]) = store.commit accesses := by
  simp only [commit, Access.latest_read]

theorem commit_nothing (store : Store) : store.commit [] = store := by
  refine ext_records rfl (by simp [commit]) fun slot inside => ?_
  have inside : slot < store.records.size := by simpa [commit] using inside
  exact record_at_commit store [] slot inside

end Store

namespace Table

variable {table : Table} {store : Store} {accesses : List Access}

theorem key_at_slot (table : Table) (key : UInt64) (slot : Nat) (found : table.slot key = .ok slot) :
    table.keys[slot]? = some key := by
  unfold Table.slot at found
  split at found
  · rename_i index here
    cases found
    obtain ⟨inside, same, _⟩ := List.findIdx?_eq_some_iff_getElem.mp here
    rw [List.getElem?_eq_getElem inside]
    simpa using same
  · cases found

theorem only_not_found (table : Table) {key : UInt64} {fault : Fault}
    (missing : table.slot key = .error fault) : fault = .notFound := by
  unfold Table.slot at missing
  split at missing <;> cases missing
  rfl

theorem slot_injective (table : Table) {key other : UInt64} {slot : Nat}
    (found : table.slot key = .ok slot) (there : table.slot other = .ok slot) : other = key :=
  Option.some.inj ((table.key_at_slot other slot there).symm.trans (table.key_at_slot key slot found))

def values (table : Table) (store : Store) : KeyMap := fun key =>
  match table.slot key with
  | .ok slot => some (store.recordAt slot).value
  | .error _ => none

theorem values_found {key : UInt64} {slot : Nat} (found : table.slot key = .ok slot) :
    table.values store key = some (store.recordAt slot).value := by
  simp [values, found]

theorem values_missing {key : UInt64} {fault : Fault} (missing : table.slot key = .error fault) :
    table.values store key = none := by
  simp [values, missing]

theorem values_write (within : ∀ key slot, table.slot key = .ok slot → slot < store.records.size)
    (key : UInt64) (slot : Nat) (found : table.slot key = .ok slot) (value : UInt64) :
    table.values (store.commit (accesses ++ [.write slot value])) =
      (table.values (store.commit accesses)).write key value := by
  funext other
  unfold KeyMap.write
  cases there : table.slot other with
  | error fault =>
      have apart : other ≠ key := by
        rintro rfl
        rw [found] at there
        cases there
      rw [if_neg apart, values_missing there, values_missing there]
  | ok place =>
      have inside := within other place there
      rw [values_found there, values_found there, Store.value_at_commit place inside,
        Store.value_at_commit place inside, Access.latest_write]
      by_cases same : slot = place
      · subst same
        simp [table.slot_injective found there]
      · have apart : other ≠ key := by
          rintro rfl
          rw [found] at there
          exact same (Except.ok.inj there)
        rw [if_neg same, if_neg apart]

end Table

end LockOrder
