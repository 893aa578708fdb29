import LockOrder.Proofs.CurrentList.Alike
import LockOrder.Proofs.CurrentList.Unopposed

set_option autoImplicit false

namespace LockOrder

namespace Buffer

variable {buffer next : Buffer}

theorem active_insert (pos : Nat) (entry : Entry) (inserted : buffer.insert pos entry = some next) :
    next.active = buffer.active + 1 := by
  rw [insert] at inserted
  split at inserted <;> cases inserted
  rfl

theorem insert_eq_none_iff (buffer : Buffer) (pos : Nat) (entry : Entry) :
    buffer.insert pos entry = none ↔ buffer.capacity ≤ buffer.active := by
  rw [insert]
  split <;> simp_all

theorem length_entries_le (buffer : Buffer) : buffer.entries.length ≤ buffer.active := by
  simp only [entries, entriesFrom, Array.toList_extract, List.extract_eq_take_drop, List.length_take]
  exact Nat.min_le_left _ _

end Buffer

namespace CurrentList

variable {list after : CurrentList}

theorem get_or_add_counts (list : CurrentList) (lock : LockRef) (mode : Mode) :
    (∃ pos after, list.getOrAdd lock mode = .ok (pos, after) ∧
      after.buffer.active ≤ list.buffer.active + 1) ∨
    list.getOrAdd lock mode = .error (.full .currentList) ∧
      list.buffer.capacity ≤ list.buffer.active := by
  rw [getOrAdd]
  generalize list.buffer.lowerBound lock.id = pos
  by_cases behind : list.buffer.active < pos
  · rw [if_pos behind]
    cases pushed : list.buffer.push (.fresh lock mode) with
    | none => exact Or.inr ⟨rfl, (Buffer.push_eq_none_iff _ _).mp pushed⟩
    | some buffer => exact Or.inl ⟨pos, _, rfl, Nat.le_of_eq (Buffer.active_push _ pushed)⟩
  · rw [if_neg behind]
    by_cases here : (list.buffer.cell pos).id = lock.id
    · rw [if_pos here]
      exact Or.inl ⟨pos, _, rfl, Nat.le_succ _⟩
    · rw [if_neg here]
      cases inserted : list.buffer.insert pos (.fresh lock mode) with
      | none => exact Or.inr ⟨rfl, (Buffer.insert_eq_none_iff _ _ _).mp inserted⟩
      | some buffer => exact Or.inl ⟨pos, _, rfl, Nat.le_of_eq (Buffer.active_insert _ _ inserted)⟩

theorem length_walk (entries : List Entry) (locks : List LockRef) :
    (walk entries locks).old.length = entries.length ∧
      (walk entries locks).between.length + (walk entries locks).after.length ≤ locks.length := by
  induction entries generalizing locks with
  | nil => simp [walk, placeholders]
  | cons entry rest ih =>
      have whole := congrArg List.length
        (List.takeWhile_append_dropWhile (p := fun lock : LockRef => decide (lock.id < entry.id))
          (l := locks))
      rw [List.length_append] at whole
      rw [walk]
      simp only
      split
      · rename_i none
        obtain ⟨old, placed⟩ := ih []
        refine ⟨congrArg (· + 1) old, ?_⟩
        simp only [none, List.length_nil] at whole placed
        simp only [List.length_append, placeholders, List.length_map]
        omega
      · rename_i lock others more
        simp only [more, List.length_cons] at whole
        split
        · obtain ⟨old, placed⟩ := ih others
          refine ⟨congrArg (· + 1) old, ?_⟩
          simp only [List.length_append, placeholders, List.length_map]
          omega
        · obtain ⟨old, placed⟩ := ih (lock :: others)
          refine ⟨congrArg (· + 1) old, ?_⟩
          rw [List.length_cons] at placed
          simp only [List.length_append, placeholders, List.length_map]
          omega

theorem Merged.length_entries (merged : Merged) :
    merged.entries.length = (merged.old ++ merged.between ++ merged.after).length := by
  rw [Merged.entries]
  split
  · rfl
  · exact (RetroList.sorted_perm _).length_eq

theorem length_merged (entries : List Entry) (locks : List LockRef) :
    (walk entries locks).entries.length ≤ entries.length + locks.length := by
  obtain ⟨old, placed⟩ := length_walk entries locks
  rw [Merged.length_entries, List.length_append, List.length_append]
  omega

theorem merge_writes_full (writes : List WriteAccess) (misuse : Misuse)
    (broken : list.mergeWrites writes = .error misuse) :
    list.buffer.capacity < list.buffer.active + writes.length := by
  rw [mergeWrites] at broken
  have merged := length_merged list.entries (written writes)
  have few := length_written writes
  have listed := list.buffer.length_entries_le
  rw [← entries] at listed
  by_cases full : list.buffer.capacity < (walk list.entries (written writes)).entries.length
  · omega
  · simp only [if_neg full] at broken
    cases broken

theorem seed_counts (list : CurrentList) (empty : list.buffer.active = 0) (retro : RetroList)
    (fits : retro.buffer.active ≤ list.buffer.capacity) :
    ∃ after, list.seed retro = .ok after ∧ after.buffer.active ≤ retro.buffer.active := by
  have free : list.isEmpty = true := by rw [isEmpty, Buffer.isEmpty, empty]; rfl
  rw [seed, free, if_neg (by simp), if_neg (by omega)]
  exact ⟨_, rfl, retro.buffer.length_entries_le⟩

theorem await_never_misuses (state : Acquisition) (pos : Nat) (lock : LockRef) (misuse : Misuse) :
    (state.await pos lock).1 ≠ .misuse misuse := by
  rw [Acquisition.await]
  cases (state.called (.await lock.id)).store.take lock .writer <;> exact fun same => by cases same

theorem tries_never_misuse (state : Acquisition) (pos : Nat) (lock : LockRef) (misuse : Misuse) :
    (state.tryExclusive pos lock).1 ≠ .misuse misuse ∧
      (state.tryShared pos lock).1 ≠ .misuse misuse := by
  rw [Acquisition.tryExclusive, Acquisition.tryShared]
  constructor
  · cases state.store.take lock .writer <;> exact fun same => by cases same
  · cases state.store.take lock .reader <;> exact fun same => by cases same

theorem upgrade_never_misuses (state : Acquisition) (pos : Nat) (lock : LockRef) (handle : Handle)
    (misuse : Misuse) : (state.tryUpgrade pos lock handle).1 ≠ .misuse misuse := by
  rw [Acquisition.tryUpgrade]
  generalize Acquisition.require state _ _ = checked
  cases checked.store.upgrade lock <;> exact fun same => by cases same

theorem step_never_misuses (state : Acquisition) (pos : Nat) (misuse : Misuse) :
    (state.step pos).1 ≠ .misuse misuse := by
  rw [Acquisition.step]
  split
  · exact fun same => by cases same
  · split
    · exact fun same => by cases same
    · split
      · exact await_never_misuses _ pos _ misuse
      · split
        · exact upgrade_never_misuses state pos _ _ misuse
        · split
          · exact (tries_never_misuse state pos _ misuse).1
          · exact (tries_never_misuse state pos _ misuse).2

theorem steps_never_misuse (state : Acquisition) (pos count : Nat) (misuse : Misuse) :
    (Acquisition.steps pos count state).1 ≠ .misuse misuse := by
  induction count generalizing state pos with
  | zero => exact fun same => by cases same
  | succ count ih =>
      have step := step_never_misuses state pos misuse
      rw [Acquisition.steps]
      generalize state.step pos = result at step
      obtain ⟨outcome, next⟩ := result
      cases outcome with
      | ok done => exact ih next (pos + 1)
      | fault why => exact step
      | misuse why => exact step
      | waiting id => exact step

theorem acquire_through_never_full (list : CurrentList) (last : Nat) (store : Store)
    (bounded : Bounded) : (list.acquireThrough last store).1 ≠ .misuse (.full bounded) := by
  rw [acquireThrough]
  cases list.buffer.holds last with
  | true => exact steps_never_misuse _ 1 last _
  | false => exact fun same => by cases same

theorem active_acquire_through (list : CurrentList) (last : Nat) (store : Store) :
    (list.acquireThrough last store).2.1.buffer.active = list.buffer.active := by
  rw [acquireThrough]
  cases list.buffer.holds last with
  | true => exact (Acquisition.steady_steps _ 1 last).active
  | false => rfl

end CurrentList

namespace RetroList

theorem append_counts (buffer : Buffer) (entries : List Entry) :
    (∃ next, append buffer entries = some next ∧ next.active = buffer.active + entries.length) ∨
      append buffer entries = none ∧ buffer.capacity < buffer.active + entries.length := by
  induction entries generalizing buffer with
  | nil => exact Or.inl ⟨buffer, rfl, rfl⟩
  | cons entry rest ih =>
      rw [append, List.length_cons]
      cases pushed : buffer.push entry with
      | none =>
          have full := (Buffer.push_eq_none_iff buffer entry).mp pushed
          exact Or.inr ⟨rfl, by omega⟩
      | some mid =>
          have active := Buffer.active_push entry pushed
          have capacity : mid.capacity = buffer.capacity := by
            rw [Buffer.push] at pushed
            split at pushed <;> cases pushed
            simp [Buffer.capacity]
          rcases ih mid with ⟨next, appended, count⟩ | ⟨none, full⟩
          · exact Or.inl ⟨next, appended, by omega⟩
          · exact Or.inr ⟨none, by omega⟩

theorem length_needed (sets : AccessSets) (threshold : UInt32) (store : Store) :
    (needed sets threshold store).length ≤ sets.reads.size + sets.writes.size := by
  have kept := List.length_filter_le (keeps threshold store) sets.reads.toList
  rw [needed, List.length_append, List.length_map, List.length_map, ← Array.length_toList,
    ← Array.length_toList]
  exact Nat.add_le_add_right kept _

theorem construct_counts (list : RetroList) (sets : AccessSets) (threshold : UInt32) (store : Store) :
    (∃ after, list.construct sets threshold store = .ok after ∧
      after.buffer.active ≤ sets.reads.size + sets.writes.size) ∨
    list.construct sets threshold store = .error (.full .retroList) ∧
      list.buffer.capacity < sets.reads.size + sets.writes.size := by
  have few := length_needed sets threshold store
  have capacity : list.reset.buffer.capacity = list.buffer.capacity := by
    simp [reset, Buffer.clear, Buffer.capacity]
  have active : list.reset.buffer.active = 0 := rfl
  rw [construct]
  rcases append_counts list.reset.buffer (needed sets threshold store) with
    ⟨next, appended, count⟩ | ⟨none, full⟩
  · rw [appended]
    by_cases short : next.active ≤ 1
    · simp only [if_pos short]
      exact Or.inl ⟨_, rfl, by simp only; omega⟩
    · simp only [if_neg short]
      have ordered : (next.fill (sorted next.entries)).active ≤ next.active := by
        change (sorted next.entries).length ≤ next.active
        rw [(sorted_perm next.entries).length_eq]
        exact next.length_entries_le
      have filled := Nat.le_trans (Buffer.length_entries_le _) ordered
      split
      · exact Or.inl ⟨_, rfl, by simp only; omega⟩
      · rename_i first rest listed
        have merged := length_collapse first rest
        rw [listed, List.length_cons] at filled
        exact Or.inl ⟨_, rfl, by simp only [Buffer.fill]; omega⟩
  · rw [none]
    exact Or.inr ⟨rfl, by omega⟩

end RetroList

end LockOrder
