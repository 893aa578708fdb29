import LockOrder.Proofs.Buffer.Find
import LockOrder.Proofs.CurrentList.Contracts
import LockOrder.Proofs.Worker.Alike
import LockOrder.Proofs.Worker.Frame
import LockOrder.Proofs.Worker.Runs

set_option autoImplicit false

namespace LockOrder

namespace Worker

variable {ids : List UInt64} {accesses : List Access} {worker : Worker} {store : Store} {others : Tally}

theorem start_in_order (idle : worker.Idle ids) (ordered : worker.list.InOrder ids ⟨store, others⟩) :
    worker.start.2.list.InOrder ids ⟨store, others⟩ := by
  rw [start_eq]
  simp only
  by_cases remembers : (worker.settings.retrospective && !worker.retro.isEmpty) = true
  · have none : worker.list.buffer.active = 0 := by
      rw [← Buffer.length_entries _ idle.sound.list.buffer.room]
      exact congrArg List.length idle.empty
    have ascending : Entry.ascending worker.retro.buffer.entries = true :=
      decide_eq_true (List.pairwise_map.mpr idle.sound.retro.buffer.ascending)
    have good : isGoodSeed { worker with sets := worker.sets.clear } = true := by
      simp [isGoodSeed, CurrentList.isEmpty, Buffer.isEmpty, none, ascending,
        (Bool.and_eq_true_iff.mp remembers).2]
    rw [if_pos remembers, good]
    change (seeded { worker with sets := worker.sets.clear }).2.list.InOrder ids ⟨store, others⟩
    rw [seeded]
    cases filled : worker.list.seed worker.retro with
    | error misuse => exact ordered
    | ok list =>
        have keeps := CurrentList.seed_keeps store _ ordered.sound idle.sound.retro filled
        exact ordered.keeps keeps (CurrentList.breaches_seed filled)
  · rw [if_neg remembers]
    exact ordered

theorem list_saw_version (worker : Worker) (lock : LockRef) (content : UInt64 × UInt64) :
    (worker.sawVersion lock content).2.list = worker.list := by
  rw [sawVersion]
  cases worker.sets.addRead lock content.1 <;> rfl

theorem read_locked_in_order (ordered : worker.list.InOrder ids ⟨store, others⟩) (lock : LockRef)
    (on : lock.On ids) : (worker.readLocked lock store).2.1.list.InOrder ids
      ⟨(worker.readLocked lock store).2.2, others⟩ := by
  rw [readLocked]
  cases added : worker.list.getOrAdd lock .shared with
  | error misuse => exact ordered
  | ok result =>
      obtain ⟨pos, list⟩ := result
      have grown := CurrentList.get_or_add_keeps store lock .shared pos ordered.sound on added
      have asked := ordered.keeps grown (CurrentList.breaches_get_or_add added)
      have acquired := asked.acquire_through pos
      simp only
      generalize list.acquireThrough pos store = result at acquired
      obtain ⟨outcome, last, next⟩ := result
      cases outcome with
      | ok _ =>
          simp only [list_saw_version]
          exact acquired
      | fault _ => exact acquired
      | misuse _ => exact acquired
      | waiting _ => exact acquired

theorem read_optimistic_in_order (ordered : worker.list.InOrder ids ⟨store, others⟩) (lock : LockRef) :
    (worker.readOptimistic lock store).2.1.list.InOrder ids
      ⟨(worker.readOptimistic lock store).2.2, others⟩ := by
  rw [readOptimistic]
  cases (store.recordAt lock.slot).readOptimistic with
  | none => exact ordered
  | some content =>
      simp only [list_saw_version]
      exact ordered

theorem read_in_order (ordered : worker.list.InOrder ids ⟨store, others⟩) (lock : LockRef) (on : lock.On ids) :
    (worker.read lock store).2.1.list.InOrder ids
      ⟨(worker.read lock store).2.2, others⟩ := by
  rw [read]
  cases worker.sets.pending lock.id with
  | some write => exact ordered
  | none =>
      cases worker.locksOnRead lock store with
      | true => exact read_locked_in_order ordered lock on
      | false => exact read_optimistic_in_order ordered lock

theorem read_key_in_order {table : Table} (fits : ∀ key slot, table.slot key = .ok slot → slot < ids.length)
    (ordered : worker.list.InOrder ids ⟨store, others⟩) (key : UInt64) :
    (worker.readKey table key store).2.1.list.InOrder ids
      ⟨(worker.readKey table key store).2.2, others⟩ := by
  rw [readKey]
  cases found : table.slot key with
  | error fault => exact ordered
  | ok slot => exact read_in_order ordered _ (Store.on_lock_within ordered.named slot (fits key slot found))

theorem list_write_key (worker : Worker) (table : Table) (key value : UInt64) (store : Store) :
    (worker.writeKey table key value store).2.list = worker.list := by
  rw [writeKey]
  cases table.slot key with
  | error fault => rfl
  | ok slot =>
      simp only [write]
      cases worker.sets.addWrite (store.lockAt slot) value <;> rfl

def sorted (worker : Worker) : Worker :=
  require { worker with sets := worker.sets.sortWrites } worker.sets.sortWrites.writesAscend
    .unsortedWrites

-- The locks of a commit, taken while others act before every single one.
inductive SecuresAmong (worker : Worker) (world : World) : Outcome Unit → Worker → World → Prop where
  | taken (list : CurrentList) (outcome : Outcome Unit) (others : Tally) (state : Acquisition)
      (merged : worker.sorted.list.mergeWrites worker.sorted.sets.writes.toList = .ok list)
      (among : Acquisition.Among 1 list.buffer.active world.others (.start list world.store) outcome
        others state) :
      SecuresAmong worker world outcome { worker.sorted with list := state.list }
        ⟨state.store, others⟩

theorem secure_steps (worker : Worker) (store : Store) :
    (∃ misuse, worker.secure store = (.misuse misuse, worker.sorted, store)) ∨
      ∃ list, worker.sorted.list.mergeWrites worker.sorted.sets.writes.toList = .ok list ∧
        let taken := Acquisition.steps 1 list.buffer.active (.start list store)
        worker.secure store = (taken.1, { worker.sorted with list := taken.2.list }, taken.2.store) := by
  have same : worker.secure store = worker.sorted.secureSorted store := rfl
  rw [same, secureSorted]
  cases merged : worker.sorted.list.mergeWrites worker.sorted.sets.writes.toList with
  | error misuse => exact Or.inl ⟨misuse, rfl⟩
  | ok list =>
      refine Or.inr ⟨list, rfl, ?_⟩
      simp only
      by_cases empty : list.isEmpty = true
      · have none : list.buffer.active = 0 := beq_iff_eq.mp empty
        rw [if_pos empty, none]
        rfl
      · have some : list.buffer.active ≠ 0 := fun none => empty (beq_iff_eq.mpr none)
        have inside : list.buffer.holds list.buffer.active = true :=
          decide_eq_true ⟨Nat.pos_of_ne_zero some, Nat.le_refl _⟩
        rw [if_neg empty, CurrentList.acquireThrough, if_pos inside]

theorem secure_among (worker : Worker) (store : Store) (others : Tally) :
    (∃ misuse, worker.secure store = (.misuse misuse, worker.sorted, store)) ∨
      worker.SecuresAmong ⟨store, others⟩ (worker.secure store).1 (worker.secure store).2.1
        ⟨(worker.secure store).2.2, others⟩ := by
  rcases worker.secure_steps store with full | ⟨list, merged, secured⟩
  · exact Or.inl full
  · rw [secured]
    exact Or.inr (.taken list _ _ _ merged (Acquisition.steps_among _ _ _ _))

theorem sorted_sound (sound : worker.Sound ids) : worker.sorted.Sound ids := by
  have on := AccessSets.on_sort_writes sound.sets
  exact sound_require (sound.with_sets _ on sound.capacity) _ .unsortedWrites

theorem sorted_in_order (busy : worker.Busy ids accesses) (ordered : worker.list.InOrder ids ⟨store, others⟩) :
    worker.sorted.list.InOrder ids ⟨store, others⟩ := by
  have ascend := AccessSets.sorted_writes_ascend busy.records
  rw [sorted, ascend]
  exact ordered

theorem merged_in_order {list : CurrentList} (busy : worker.Busy ids accesses)
    (ordered : worker.list.InOrder ids ⟨store, others⟩)
    (merged : worker.sorted.list.mergeWrites worker.sorted.sets.writes.toList = .ok list) :
    Acquisition.InOrder ids others (.start list store) := by
  have sorted := sorted_in_order busy ordered
  have on := (AccessSets.on_sort_writes busy.sound.sets).writes
  have ascend := AccessSets.sort_writes_ids worker.sets
  have keeps := CurrentList.merge_writes_keeps store sorted.sound _ on ascend merged
  have grown := sorted.keeps keeps (CurrentList.breaches_merge_writes merged)
  exact ⟨Acquisition.ready_start list store grown.sound, grown⟩

structure Secured (ids : List UInt64) (worker : Worker) (outcome : Outcome Unit) (after : Worker)
    (last : World) : Prop where
  sound : after.Sound ids
  ordered : after.list.InOrder ids last
  sets : after.sets = worker.sets.sortWrites
  owned : outcome = .ok () → ∀ write ∈ after.sets.writes.toList, after.owns write.id = true

theorem owns_of_enough (sound : worker.list.Sound ids) {pos : Nat} {id : UInt64} (first : 0 < pos)
    (bound : pos ≤ worker.list.buffer.active) (named : (worker.list.buffer.cell pos).id = id)
    (wish : (worker.list.buffer.cell pos).preferred = .exclusive)
    (enough : (worker.list.buffer.cell pos).isEnough = true) : worker.owns id = true := by
  have found : worker.list.buffer.find id = some pos :=
    (Buffer.find_eq_some_iff sound.buffer).mpr ⟨first, bound, named⟩
  rw [owns, entryOf, found]
  exact beq_iff_eq.mpr (Entry.exclusive_of_enough enough wish)

theorem secures {outcome : Outcome Unit} {after : Worker} {last : World}
    (busy : worker.Busy ids accesses) (ordered : worker.list.InOrder ids ⟨store, others⟩)
    (among : worker.SecuresAmong ⟨store, others⟩ outcome after last) :
    Secured ids worker outcome after last := by
  obtain ⟨list, outcome, others, state, merged, among⟩ := among
  have sorted := sorted_in_order busy ordered
  have ids_ascend := AccessSets.sort_writes_ids worker.sets
  have begins := merged_in_order busy ordered merged
  have count : 1 + list.buffer.active = list.buffer.active + 1 := Nat.add_comm 1 _
  obtain ⟨ends, active, wants, _, enough⟩ := among.ends begins Nat.one_pos (Nat.le_of_eq count)
  refine ⟨(sorted_sound busy.sound).with_list state.list ends.ready.sound, ends.around, rfl,
    fun won write listed => ?_⟩
  obtain ⟨entry, there, named, wish⟩ :=
    CurrentList.merge_writes_wants sorted.sound _ ids_ascend merged write listed
  obtain ⟨pos, first, bound, rfl⟩ := Buffer.mem_entries_cell _ begins.ready.sound.buffer.room entry there
  obtain ⟨lock, preferred⟩ := wants pos
  have id : (state.cell pos).id = write.id := by
    rw [Entry.id, lock]
    exact named
  exact owns_of_enough ends.ready.sound first (active ▸ bound) id (preferred.trans wish)
    (enough won pos first (count ▸ Nat.lt_succ_of_le bound))

theorem owns_entry (sound : worker.list.Sound ids) (different : ids.Nodup) {lock : LockRef}
    (on : lock.On ids) (owned : worker.owns lock.id = true) :
    ∃ entry ∈ worker.list.entries, entry.lock = some lock ∧ entry.taken = .exclusive ∧
      entry.handle = some .writer := by
  rw [owns, entryOf] at owned
  cases found : worker.list.buffer.find lock.id with
  | none => simp [found] at owned
  | some pos =>
      rw [found] at owned
      have taken : (worker.list.buffer.cell pos).taken = .exclusive := beq_iff_eq.mp owned
      obtain ⟨first, last, id⟩ := (Buffer.find_eq_some_iff sound.buffer).mp found
      have listed := Buffer.cell_mem_entries _ sound.buffer.room pos first last
      have part := sound.entries _ listed
      obtain ⟨own, named, there⟩ := part.listed
      have same : own = lock := by
        refine LockRef.on_injective different there on ?_
        rw [← id, Entry.id, named]
      refine ⟨_, listed, same ▸ named, taken, ?_⟩
      rw [part.handled, taken]
      rfl

theorem owns_tally (sound : worker.list.Sound ids) (different : ids.Nodup) {lock : LockRef}
    (on : lock.On ids) (owned : worker.owns lock.id = true) :
    0 < Entry.tally worker.list.entries lock.slot .writer := by
  obtain ⟨entry, listed, named, taken, has⟩ := owns_entry sound different on owned
  exact List.countP_pos_iff.mpr ⟨entry, listed, by simp [Entry.owns, named, taken, has, Handle.mode]⟩

theorem owned_locked (different : ids.Nodup) (ordered : worker.list.InOrder ids ⟨store, others⟩) (lock : LockRef)
    (on : lock.On ids) (owned : worker.owns lock.id = true) :
    (store.recordAt lock.slot).lock.word = RwLock.exclusiveWord := by
  obtain ⟨entry, listed, named, _, has⟩ := owns_entry ordered.sound different on owned
  have sound := ordered.sound.entries entry listed
  exact beq_iff_eq.mp (Entry.holds_lock ordered.named ordered.accounts listed sound named has)

theorem last_writes_sublist (writes : List WriteAccess) : (lastWrites writes).Sublist writes := by
  induction writes using lastWrites.induct with
  | case1 => exact .slnil
  | case2 write => exact .refl _
  | case3 write next rest same ih =>
      rw [lastWrites, if_pos same]
      exact ih.cons write
  | case4 write next rest different ih =>
      rw [lastWrites, if_neg different]
      exact ih.cons_cons write

theorem installs_clean (writes : List WriteAccess) (worker : Worker) (store : Store)
    (owned : ∀ write ∈ writes, worker.owns write.id = true) :
    (writes.foldl install (worker, store)).1 = worker := by
  induction writes generalizing store with
  | nil => rfl
  | cons write rest ih =>
      have step : install (worker, store) write =
          (worker, store.install write.lock.slot write.value) := by
        rw [install, owned write (by simp)]
        rfl
      rw [List.foldl_cons, step]
      exact ih _ fun other listed => owned other (by simp [listed])

theorem breaches_commit (busy : worker.Busy ids accesses) (ordered : worker.list.InOrder ids ⟨store, others⟩) :
    (worker.commit store).2.1.list.breaches = #[] := by
  rw [commit]
  rcases worker.secure_among store others with ⟨misuse, full⟩ | among
  · rw [full]
    exact (sorted_in_order busy ordered).clean
  · obtain ⟨_, last, _, owned⟩ := secures busy ordered among
    generalize worker.secure store = result at last owned
    obtain ⟨outcome, after, next⟩ := result
    cases outcome with
    | fault _ => exact last.clean
    | misuse _ => exact last.clean
    | waiting _ => exact last.clean
    | ok _ =>
        simp only [settle]
        cases after.firstStale next with
        | some read => exact last.clean
        | none =>
            have installs := last_writes_sublist after.sets.writes.toList
            simp only [installAll]
            rw [installs_clean _ after next fun write listed => owned rfl write (installs.subset listed)]
            exact last.clean

theorem commit_in_order (different : ids.Nodup) (busy : worker.Busy ids accesses)
    (ordered : worker.list.InOrder ids ⟨store, others⟩) :
    (worker.commit store).2.1.list.InOrder ids ⟨(worker.commit store).2.2, others⟩ := by
  obtain ⟨_, sound, conserves⟩ := commit_cases different busy store ordered.named
  refine ⟨sound.list, ?_, conserves others ordered.accounts, breaches_commit busy ordered⟩
  exact (framed_commit worker store).ids.trans ordered.named

theorem breaches_clear_attempt (free : worker.list.isHolding = false) :
    worker.clearAttempt.list.breaches = worker.list.breaches := by
  rw [clearAttempt, free]
  rfl

theorem breaches_release_locks (nonzero : 0 ∉ ids) (ordered : worker.list.InOrder ids ⟨store, others⟩) :
    (worker.releaseLocks store).1.list.breaches = #[] ∧
      (worker.releaseLocks store).1.clearAttempt.list.breaches = #[] := by
  have released : (worker.releaseLocks store).1.list.breaches = #[] :=
    ordered.release_all nonzero
  have free := CurrentList.release_all_holds_nothing ordered.sound store nonzero
  exact ⟨released, (breaches_clear_attempt free).trans released⟩

theorem breaches_abort (nonzero : 0 ∉ ids) (ordered : worker.list.InOrder ids ⟨store, others⟩) (fault : Fault) :
    (worker.abort fault store).2.1.list.breaches = #[] := by
  have counted : (worker.countAbort fault).list = worker.list := by
    rw [countAbort]
    split <;> rfl
  have same : (worker.countAbort fault).list.InOrder ids ⟨store, others⟩ := counted ▸ ordered
  obtain ⟨released, cleared⟩ := breaches_release_locks nonzero same
  rw [abort_eq]
  simp only
  generalize (worker.countAbort fault).releaseLocks store = left at released cleared
  cases left.1.remembered left.2 with
  | error misuse => exact released
  | ok retro => exact cleared

theorem breaches_after_attempt (nonzero : 0 ∉ ids) (ordered : worker.list.InOrder ids ⟨store, others⟩)
    (ended : Outcome UInt64) :
    (worker.afterAttempt store ended).2.1.list.breaches = #[] := by
  have finished := (breaches_release_locks nonzero ordered).2
  cases ended with
  | ok value => exact finished
  | misuse why => exact ordered.clean
  | waiting id => exact ordered.clean
  | fault fault =>
      rw [afterAttempt]
      cases fault.isRetryable with
      | false => exact finished
      | true =>
          have aborted := breaches_abort nonzero ordered fault
          simp only [if_true]
          generalize worker.abort fault store = result at aborted
          obtain ⟨done, left, last⟩ := result
          cases done <;> exact aborted

theorem after_attempt_in_order (nonzero : 0 ∉ ids) (sound : worker.Sound ids)
    (ordered : worker.list.InOrder ids ⟨store, others⟩) (ended : Outcome UInt64) :
    (worker.afterAttempt store ended).2.1.list.InOrder ids
      ⟨(worker.afterAttempt store ended).2.2, others⟩ := by
  have rested := after_attempt_rested worker sound store ended
  exact ⟨rested.sound.list, (Store.ids_of_bare rested.bare).trans ordered.named,
    rested.conserves nonzero others ordered.accounts,
    breaches_after_attempt nonzero ordered ended⟩

end Worker

end LockOrder
