import LockOrder.Proofs.Buffer.Find
import LockOrder.Proofs.CurrentList.Request
import LockOrder.Proofs.CurrentList.Unopposed
import LockOrder.Proofs.Table.Values
import LockOrder.Proofs.Worker.Commit
import LockOrder.Proofs.Worker.Frame

set_option autoImplicit false

namespace LockOrder

theorem Store.read_locked_of_bare {store next : Store} (same : next.bare = store.bare) (slot : Nat) :
    (next.recordAt slot).readLocked = (store.recordAt slot).readLocked := by
  have content : ∀ store : Store, (store.recordAt slot).readLocked =
      (store.bare.recordAt slot).readLocked := by
    intro store
    rw [record_at_bare]
    rfl
  rw [content next, same, ← content store]

namespace Worker

-- The records are those that were there at first, with no handles out but those of the worker. All
-- entries of its list come from reads, and the list has room for all accesses.
structure Alone (ids : List UInt64) (begun : Store) (accesses : List Access) (worker : Worker)
    (store : Store) : Prop where
  busy : worker.Busy ids accesses
  bare : store.bare = begun.bare
  named : store.ids = ids
  accounts : store.Accounts (Entry.tally worker.list.entries)
  current : ∀ read ∈ worker.sets.reads.toList, read.isCurrent store = true
  listed : worker.list.entries.length ≤ worker.sets.reads.size
  room : 2 * worker.sets.capacity ≤ worker.list.buffer.capacity

structure Answers (worker after : Worker) (next : Store) : Prop where
  current : ∀ read ∈ after.sets.reads.toList, read.isCurrent next = true
  listed : after.list.entries.length ≤ after.sets.reads.size
  reads : after.sets.reads.size ≤ worker.sets.reads.size + 1
  writes : after.sets.writes = worker.sets.writes

variable {ids : List UInt64} {accesses : List Access} {begun store : Store} {worker : Worker}
  {lock : LockRef}

theorem saw_version_answers (list : CurrentList) (next : Store) (bare : next.bare = begun.bare)
    (lock : LockRef) (current : ∀ read ∈ worker.sets.reads.toList, read.isCurrent next = true)
    (listed : list.entries.length ≤ worker.sets.reads.size + 1)
    (few : worker.sets.reads.size < worker.sets.capacity) :
    ∃ after, sawVersion { worker with list } lock (next.recordAt lock.slot).readLocked =
      (.ok (begun.recordAt lock.slot).value, after) ∧ worker.Answers after next := by
  have content := Store.read_locked_of_bare bare lock.slot
  let version := (begun.recordAt lock.slot).version
  let sets := { worker.sets with reads := worker.sets.reads.push ⟨lock, version⟩ }
  refine ⟨{ worker with list, sets }, ?_, ?_, ?_, ?_, rfl⟩
  · rw [content]
    simp only [sawVersion, AccessSets.addRead, if_pos few]
    rfl
  · intro read member
    rcases List.mem_append.mp (Array.toList_push ▸ member) with old | new
    · exact current read old
    · rw [List.mem_singleton.mp new]
      exact beq_iff_eq.mpr (congrArg Prod.fst content)
  · simpa [sets] using listed
  · simp [sets]

theorem read_locked_answers (alone : worker.Alone ids begun accesses store) (on : lock.On ids)
    (few : worker.sets.reads.size < worker.sets.capacity) :
    ∃ after next, worker.readLocked lock store = (.ok (begun.recordAt lock.slot).value, after, next) ∧
      worker.Answers after next := by
  have sound := alone.busy.sound.list
  have listed := alone.listed
  have room := alone.room
  have length := Buffer.length_entries _ sound.buffer.room
  change worker.list.entries.length = _ at length
  obtain ⟨pos, list, added⟩ :=
    CurrentList.get_or_add_succeeds sound.buffer lock .shared (Or.inl (by omega))
  obtain ⟨first, last, _⟩ := CurrentList.get_or_add_position sound.buffer added
  have grown := CurrentList.get_or_add_keeps store lock .shared pos sound on added
  have more : list.entries.length ≤ worker.list.entries.length + 1 := by
    rw [CurrentList.get_or_add_entries worker.list list lock .shared pos sound.buffer added]
    exact Entry.length_request lock .shared _
  have inside : list.buffer.holds pos = true := by simp [Buffer.holds, first, last]
  obtain ⟨done, active⟩ := CurrentList.acquire_through_succeeds grown.sound alone.named
    (grown.conserves.accounts alone.accounts) pos inside
  have keeps := (CurrentList.acquire_through_acquires list grown.sound pos store).keeps
  unfold readLocked
  rw [added]
  simp only
  generalize list.acquireThrough pos store = result at done active keeps
  obtain ⟨outcome, taken, next⟩ := result
  simp only at done active keeps
  subst done
  have kept : taken.entries.length = list.entries.length := by
    rw [CurrentList.entries, CurrentList.entries, Buffer.length_entries _ keeps.sound.buffer.room,
      active, Buffer.length_entries _ grown.sound.buffer.room]
  obtain ⟨after, seen, answers⟩ := saw_version_answers taken next (keeps.bare.trans alone.bare) lock
    (fun read member => (is_current_of_bare keeps.bare read).trans (alone.current read member))
    (by omega) few
  refine ⟨after, next, ?_, answers⟩
  simp only [seen]

theorem read_optimistic_answers (alone : worker.Alone ids begun accesses store)
    (few : worker.sets.reads.size < worker.sets.capacity)
    (low : (begun.recordAt lock.slot).version < Record.beingWritten) :
    ∃ after next, worker.readOptimistic lock store =
      (.ok (begun.recordAt lock.slot).value, after, next) ∧ worker.Answers after next := by
  have version : (store.recordAt lock.slot).version = (begun.recordAt lock.slot).version :=
    congrArg Prod.fst (Store.read_locked_of_bare alone.bare lock.slot)
  obtain ⟨after, seen, answers⟩ := saw_version_answers worker.list store alone.bare lock alone.current
    (Nat.le_succ_of_le alone.listed) few
  refine ⟨after, store, ?_, answers⟩
  unfold Record.readLocked at seen
  simp only [readOptimistic, Record.readOptimistic, if_pos (version ▸ low), seen]

theorem read_answers (different : ids.Nodup) (alone : worker.Alone ids begun accesses store)
    (on : lock.On ids) (few : worker.sets.reads.size < worker.sets.capacity)
    (low : (begun.recordAt lock.slot).version < Record.beingWritten) :
    ∃ after next, worker.read lock store =
        (.ok ((Access.latest lock.slot accesses).getD (begun.recordAt lock.slot).value), after, next) ∧
      worker.Answers after next := by
  have pending := AccessSets.pending_value different alone.busy.sound.sets alone.busy.records lock on
  unfold read
  cases found : worker.sets.pending lock.id with
  | some write =>
      rw [found] at pending
      refine ⟨worker, store, ?_, alone.current, alone.listed, Nat.le_succ _, rfl⟩
      simp [← pending]
  | none =>
      rw [found] at pending
      rw [← pending]
      simp only [Option.map_none, Option.getD_none]
      split
      · exact read_locked_answers alone on few
      · exact read_optimistic_answers alone few low

structure Advances (ids : List UInt64) (begun : Store) (accesses : List Access) (worker after : Worker)
    (next : Store) : Prop where
  alone : after.Alone ids begun accesses next
  capacity : after.sets.capacity = worker.sets.capacity

theorem Alone.advances {after : Worker} {next : Store} {made : List Access}
    (alone : worker.Alone ids begun accesses store)
    (goes : Goes ids accesses made worker store after next) (framed : worker.Framed store after next)
    (current : ∀ read ∈ after.sets.reads.toList, read.isCurrent next = true)
    (listed : after.list.entries.length ≤ after.sets.reads.size) :
    Advances ids begun (accesses ++ made) worker after next := by
  refine ⟨⟨goes.busy, goes.bare.trans alone.bare, framed.ids.trans alone.named,
    goes.conserves.accounts alone.accounts, current, listed, ?_⟩, framed.capacity⟩
  have room := alone.room
  rw [framed.capacity]
  unfold Buffer.capacity at room ⊢
  rwa [framed.size]

theorem read_key_advances (different : ids.Nodup) (table : Table)
    (fits : ∀ key slot, table.slot key = .ok slot → slot < ids.length)
    (alone : worker.Alone ids begun accesses store) (key : UInt64) (slot : Nat)
    (found : table.slot key = .ok slot)
    (low : (begun.recordAt slot).version < Record.beingWritten)
    (few : worker.sets.reads.size < worker.sets.capacity) :
    ∃ value after next, worker.readKey table key store = (.ok value, after, next) ∧
      table.values (begun.commit accesses) key = some value ∧
      Advances ids begun (accesses ++ [.read slot value]) worker after next ∧
      after.sets.reads.size ≤ worker.sets.reads.size + 1 ∧
      after.sets.writes = worker.sets.writes := by
  have on := Store.on_lock_within alone.named slot (fits key slot found)
  have inside : slot < begun.records.size := by
    rw [← Store.size_of_bare alone.bare, Store.size_of_ids alone.named]
    exact fits key slot found
  obtain ⟨after, next, answered, current, listed, reads, writes⟩ :=
    read_answers different alone on few low
  have goes := read_goes different alone.busy _ on alone.named
  have framed := framed_read worker store (store.lockAt slot)
  rw [answered] at goes framed
  refine ⟨_, after, next, ?_, ?_, alone.advances goes framed current listed, reads, writes⟩
  · rw [readKey, found]
    exact answered
  · rw [Table.values_found found, Store.value_at_commit slot inside]
    rfl

theorem write_key_advances (table : Table)
    (fits : ∀ key slot, table.slot key = .ok slot → slot < ids.length)
    (alone : worker.Alone ids begun accesses store) (key value : UInt64) (slot : Nat)
    (found : table.slot key = .ok slot) (few : worker.sets.writes.size < worker.sets.capacity) :
    ∃ after, worker.writeKey table key value store = (.ok (), after) ∧
      Advances ids begun (accesses ++ [.write slot value]) worker after store ∧
      after.sets.reads = worker.sets.reads ∧
      after.sets.writes.size = worker.sets.writes.size + 1 := by
  have on := Store.on_lock_within alone.named slot (fits key slot found)
  have goes := write_goes alone.busy (store.lockAt slot) on value store
  have framed := framed_write worker store (store.lockAt slot) value
  simp only [writeKey, found]
  simp only [write, AccessSets.addWrite, if_pos few] at goes framed ⊢
  exact ⟨_, rfl, alone.advances goes framed alone.current alone.listed, rfl, by simp⟩

theorem holds_of_write_locked (sound : worker.Sound ids) (named : store.ids = ids)
    (accounts : store.Accounts (Entry.tally worker.list.entries)) (on : lock.On ids)
    (locked : (store.recordAt lock.slot).lock.isWriteLocked = true) : worker.holds lock.id = true := by
  have inside : lock.slot < store.records.size := on.inside named
  have owner := (accounts lock.slot inside).owner locked
  have some : 0 < Entry.tally worker.list.entries lock.slot .writer := by omega
  obtain ⟨entry, listed, owns⟩ := List.countP_pos_iff.mp some
  obtain ⟨own, ownNamed, ownOn⟩ := (sound.list.entries entry listed).listed
  simp only [Entry.owns, ownNamed, Option.map_some, decide_eq_true_eq] at owns
  obtain ⟨slot, taken, _⟩ := owns
  have id : entry.id = lock.id := by
    simp [Entry.id, ownNamed, LockRef.on_slot ownOn on (Option.some.inj slot)]
  obtain ⟨pos, first, last, rfl⟩ := Buffer.mem_entries_cell _ sound.list.buffer.room entry listed
  have here := (Buffer.find_eq_some_iff sound.list.buffer).mpr ⟨first, last, id⟩
  simp [holds, entryOf, here, Entry.isLocked, taken, Handle.mode]

theorem secure_succeeds (alone : worker.Alone ids begun accesses store)
    (reads : worker.sets.reads.size ≤ worker.sets.capacity)
    (writes : worker.sets.writes.size ≤ worker.sets.capacity) :
    (worker.secure store).1 = .ok () := by
  have listed := alone.listed
  have room := alone.room
  let sorted : Worker := { worker with sets := worker.sets.sortWrites }
  have kept : sorted.Sound ids :=
    alone.busy.sound.with_sets _ (AccessSets.on_sort_writes alone.busy.sound.sets)
      alone.busy.sound.capacity
  have logged := sound_require kept worker.sets.sortWrites.writesAscend .unsortedWrites
  have entries := entries_require worker.list worker.sets.sortWrites.writesAscend .unsortedWrites
  have buffer := buffer_require worker.list worker.sets.sortWrites.writesAscend .unsortedWrites
  have length : worker.sets.sortWrites.writes.toList.length = worker.sets.writes.size :=
    worker.sets.sort_writes_perm.length_eq
  obtain ⟨list, merged⟩ := CurrentList.merge_writes_succeeds logged.list
    worker.sets.sortWrites.writes.toList (AccessSets.sort_writes_ids _) (by
      change (worker.list.require _ _).entries.length + _ ≤ (worker.list.require _ _).buffer.capacity
      rw [entries, buffer]
      omega)
  have grown := CurrentList.merge_writes_keeps store logged.list _ kept.sets.writes
    (AccessSets.sort_writes_ids _) merged
  have accounts : store.Accounts (Entry.tally list.entries) := by
    refine grown.conserves.accounts ?_
    change store.Accounts (Entry.tally (worker.list.require _ _).entries)
    rw [entries]
    exact alone.accounts
  unfold secure
  simp only
  split
  · rename_i misuse failed
    cases merged.symm.trans failed
  · rename_i other found
    cases merged.symm.trans found
    split
    · rfl
    · rename_i some
      have inside : list.buffer.holds list.buffer.active = true := by
        simp only [CurrentList.isEmpty, Buffer.isEmpty, beq_iff_eq] at some
        simp only [Buffer.holds, decide_eq_true_eq]
        omega
      exact (CurrentList.acquire_through_succeeds grown.sound alone.named accounts _ inside).1

theorem commit_succeeds (alone : worker.Alone ids begun accesses store)
    (reads : worker.sets.reads.size ≤ worker.sets.capacity)
    (writes : worker.sets.writes.size ≤ worker.sets.capacity) :
    (worker.commit store).1 = .ok () := by
  have secured := secure_succeeds alone reads writes
  obtain ⟨sound, bare, conserves, sets⟩ := secure_secures alone.busy.sound store
  unfold commit
  generalize worker.secure store = result at secured sound bare conserves sets
  obtain ⟨outcome, after, next⟩ := result
  simp only at secured sound bare conserves sets
  subst secured
  have fresh : after.firstStale next = none := by
    refine List.find?_eq_none.mpr fun read listed stale => ?_
    have same : after.sets.reads = worker.sets.reads := by
      rw [sets]
      rfl
    rw [same] at listed
    have current := (is_current_of_bare bare read).trans (alone.current read listed)
    simp only [isStale, current, Bool.not_true, Bool.false_or, Bool.and_eq_true,
      Bool.not_eq_true'] at stale
    have holds := holds_of_write_locked sound ((Store.ids_of_bare bare).trans alone.named)
      (conserves.accounts alone.accounts) (alone.busy.sound.sets.reads read listed) stale.2
    rw [stale.1] at holds
    cases holds
  simp only [settle, fresh]

end Worker

end LockOrder
