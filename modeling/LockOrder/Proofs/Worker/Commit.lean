import LockOrder.Proofs.Worker.Attempt

set_option autoImplicit false

namespace LockOrder

namespace Store

def installAll (writes : List WriteAccess) (store : Store) : Store :=
  writes.foldl (fun store write => store.install write.lock.slot write.value) store

end Store

namespace Worker

def lastOn (slot : Nat) (writes : List WriteAccess) : Option WriteAccess :=
  (writes.filter fun write => decide (write.lock.slot = slot)).getLast?

theorem record_at_last_writes (writes : List WriteAccess) (store : Store) (slot : Nat)
    (ordered : writes.Pairwise fun a b => a.id ≤ b.id)
    (named : ∀ a ∈ writes, ∀ b ∈ writes, a.id = b.id ↔ a.lock.slot = b.lock.slot)
    (fits : ∀ write ∈ writes, write.lock.slot < store.records.size) :
    (store.installAll (lastWrites writes)).recordAt slot =
      match lastOn slot writes with
      | some write => (store.recordAt slot).install write.value
      | none => store.recordAt slot := by
  induction writes using lastWrites.induct generalizing store with
  | case1 => rfl
  | case2 write =>
      have inside := fits write (by simp)
      simp only [lastWrites, Store.installAll, List.foldl_cons, List.foldl_nil]
      rw [Store.record_at_install]
      by_cases here : write.lock.slot = slot
      · subst here
        simp [lastOn, inside]
      · simp [lastOn, here, Ne.symm here]
  | case3 write next rest same ih =>
      obtain ⟨_, ordered⟩ := List.pairwise_cons.mp ordered
      rw [lastWrites, if_pos same, ih store ordered
        (fun a inA b inB => named a (by simp [inA]) b (by simp [inB]))
        (fun other listed => fits other (by simp [listed]))]
      have slots := (named next (by simp) write (by simp)).mp same
      have last : lastOn slot (write :: next :: rest) = lastOn slot (next :: rest) := by
        by_cases here : write.lock.slot = slot <;> simp [lastOn, slots, here]
      rw [last]
  | case4 write next rest other ih =>
      obtain ⟨least, ordered⟩ := List.pairwise_cons.mp ordered
      have inside := fits write (by simp)
      rw [lastWrites, if_neg other]
      change (Store.installAll (lastWrites (next :: rest))
        (store.install write.lock.slot write.value)).recordAt slot = _
      rw [ih _ ordered (fun a inA b inB => named a (by simp [inA]) b (by simp [inB]))
        (fun other listed => by simpa [Store.install] using fits other (by simp [listed]))]
      by_cases here : write.lock.slot = slot
      · -- No later write is on this record, for the identifiers of the others are greater.
        have apart : ∀ later ∈ next :: rest, later.lock.slot ≠ slot := by
          intro later listed same
          have ids := (named later (by simp [List.mem_cons.mp listed]) write (by simp)).mpr
            (same.trans here.symm)
          refine other (UInt64.le_antisymm ?_ (least next (by simp)))
          rw [← ids]
          rcases List.mem_cons.mp listed with rfl | behind
          · exact UInt64.le_refl _
          · exact (List.pairwise_cons.mp ordered).1 later behind
        have none : (next :: rest).filter (fun write => decide (write.lock.slot = slot)) = [] := by
          simpa using apart
        simp only [lastOn, List.filter_cons_of_pos (p := fun write : WriteAccess =>
          decide (write.lock.slot = slot)) (decide_eq_true here), none, List.getLast?_nil,
          List.getLast?_singleton]
        rw [Store.record_at_install, if_pos ⟨here.symm, inside⟩, here]
      · have last : lastOn slot (write :: next :: rest) = lastOn slot (next :: rest) := by
          simp [lastOn, here]
        rw [last, Store.record_at_install, if_neg fun same => here same.1.symm]

variable {ids : List UInt64} {accesses : List Access} {worker : Worker} {store : Store}

theorem last_on_sorted (sets : AccessSets) (records : sets.Records accesses) (slot : Nat)
    (named : ∀ a ∈ sets.writes.toList, ∀ b ∈ sets.writes.toList,
      a.id = b.id ↔ a.lock.slot = b.lock.slot) :
    lastOn slot sets.sortWrites.writes.toList = lastOn slot sets.writes.toList := by
  have perm := sets.sort_writes_perm
  have ordered : (sets.writes.toList.filter fun write =>
      decide (write.lock.slot = slot)).Pairwise fun a b => a.ordinal ≤ b.ordinal :=
    ((AccessSets.ordinals_ascend records).sublist List.filter_sublist).imp UInt32.le_of_lt
  have sorted : (sets.sortWrites.writes.toList.filter fun write =>
      decide (write.lock.slot = slot)).Pairwise fun a b => a.ordinal ≤ b.ordinal := by
    refine List.Pairwise.imp_of_mem ?_ (sets.sort_writes_ordered.sublist List.filter_sublist)
    intro a b inA inB order
    obtain ⟨inA, onA⟩ := List.mem_filter.mp inA
    obtain ⟨inB, onB⟩ := List.mem_filter.mp inB
    have same : a.id = b.id := by
      refine (named a (perm.mem_iff.mp inA) b (perm.mem_iff.mp inB)).mpr ?_
      exact (of_decide_eq_true onA).trans (of_decide_eq_true onB).symm
    rcases (WriteAccess.not_before_iff a b).mp order with less | ⟨_, ordinals⟩
    · rw [same] at less
      exact absurd less (UInt64.lt_irrefl _)
    · exact ordinals
  refine congrArg List.getLast? (List.Perm.eq_of_pairwise ?_ sorted ordered (perm.filter _))
  intro a b inA inB below above
  obtain ⟨i, hereA⟩ := List.mem_iff_getElem?.mp (perm.mem_iff.mp (List.mem_filter.mp inA).1)
  obtain ⟨j, hereB⟩ := List.mem_iff_getElem?.mp (List.mem_filter.mp inB).1
  rw [Array.getElem?_toList] at hereA hereB
  have first := records.ordinals i a hereA
  have second := records.ordinals j b hereB
  rw [UInt32.le_antisymm below above] at first
  obtain rfl : i = j := first.symm.trans second
  exact Option.some.inj (hereA.symm.trans hereB)

theorem ids_agree (different : ids.Nodup) (sets : AccessSets) (on : sets.On ids) :
    ∀ a ∈ sets.writes.toList, ∀ b ∈ sets.writes.toList, a.id = b.id ↔ a.lock.slot = b.lock.slot :=
  fun a inA b inB => AccessSets.same_id_iff different on b.lock (on.writes b inB) a inA

theorem install_sorted (different : ids.Nodup) (on : worker.sets.On ids)
    (records : worker.sets.Records accesses) (store : Store) (named : store.ids = ids) :
    store.installAll (lastWrites worker.sets.sortWrites.writes.toList) = store.commit accesses := by
  have onSorted := AccessSets.on_sort_writes on
  have installed : ∀ (writes : List WriteAccess) (store : Store),
      (store.installAll writes).records.size = store.records.size ∧
        (store.installAll writes).draws = store.draws := by
    intro writes
    induction writes with
    | nil => exact fun store => ⟨rfl, rfl⟩
    | cons write rest ih =>
        intro store
        obtain ⟨size, draws⟩ := ih (store.install write.lock.slot write.value)
        exact ⟨size.trans (by simp [Store.install]), draws⟩
  obtain ⟨size, draws⟩ := installed (lastWrites worker.sets.sortWrites.writes.toList) store
  refine Store.ext_records draws (size.trans (by simp [Store.commit])) fun slot inside => ?_
  rw [size] at inside
  rw [Store.record_at_commit store accesses slot inside, AccessSets.latest_of_writes records,
    record_at_last_writes _ store slot (AccessSets.sort_writes_ids _) (ids_agree different _ onSorted),
    last_on_sorted worker.sets records slot (ids_agree different _ on)]
  · unfold lastOn
    cases (worker.sets.writes.toList.filter fun write =>
      decide (write.lock.slot = slot)).getLast? <;> rfl
  · exact fun write listed => (onSorted.writes write listed).inside named

theorem install_all_store (writes : List WriteAccess) (worker : Worker) (store : Store) :
    (writes.foldl install (worker, store)).2 = store.installAll writes := by
  induction writes generalizing worker store with
  | nil => rfl
  | cons write rest ih => exact ih _ _

theorem install_all_keeps (writes : List WriteAccess) (worker : Worker) (store : Store)
    (sound : worker.Sound ids) : (writes.foldl install (worker, store)).1.Sound ids ∧
      Conserves worker.list.entries store (writes.foldl install (worker, store)).1.list.entries
        (writes.foldl install (worker, store)).2 := by
  induction writes generalizing worker store with
  | nil => exact ⟨sound, .refl⟩
  | cons write rest ih =>
      obtain ⟨kept, conserves⟩ := ih _ (store.install write.lock.slot write.value)
        (sound_require sound (worker.owns write.id) (.installedUnowned write.id))
      refine ⟨kept, Conserves.trans (fun others accounts => ?_) conserves⟩
      have same : (worker.require (worker.owns write.id) (.installedUnowned write.id)).list.entries =
        worker.list.entries := entries_require _ _ _
      rw [same]
      exact Store.accounts_install store write.lock.slot write.value _ accounts

structure Secures (ids : List UInt64) (worker : Worker) (store : Store)
    (result : Outcome Unit × Worker × Store) : Prop where
  sound : result.2.1.Sound ids
  bare : result.2.2.bare = store.bare
  conserves : Conserves worker.list.entries store result.2.1.list.entries result.2.2
  sets : result.2.1.sets = worker.sets.sortWrites

theorem secure_secures (sound : worker.Sound ids) (store : Store) :
    Secures ids worker store (worker.secure store) := by
  have sorted : Sound ids { worker with sets := worker.sets.sortWrites } :=
    sound.with_sets _ (AccessSets.on_sort_writes sound.sets) sound.capacity
  have logged := sound_require sorted worker.sets.sortWrites.writesAscend .unsortedWrites
  have same : (worker.list.require worker.sets.sortWrites.writesAscend .unsortedWrites).entries =
    worker.list.entries := entries_require _ _ _
  unfold secure
  simp only
  split
  · refine ⟨logged, rfl, ?_, rfl⟩
    change Conserves _ _ (worker.list.require _ _).entries _
    rw [same]
    exact .refl
  · rename_i list merged
    have grown := CurrentList.merge_writes_keeps store logged.list _ sorted.sets.writes
      (AccessSets.sort_writes_ids _) merged
    have conserves : Conserves worker.list.entries store list.entries store := by
      rw [← same]
      exact grown.conserves
    split
    · exact ⟨logged.with_list list grown.sound, rfl, conserves, rfl⟩
    · have acquires := CurrentList.acquire_through_acquires list grown.sound list.buffer.active store
      exact ⟨logged.with_list _ acquires.keeps.sound, acquires.keeps.bare,
        conserves.trans acquires.keeps.conserves, rfl⟩

theorem secure_only_races (worker : Worker) (store : Store) :
    Acquisition.OnlyRaces (worker.secure store).1 := by
  rw [secure]
  simp only
  split
  · exact fun _ same => by cases same
  · rename_i list merged
    split
    · exact fun _ same => by cases same
    · exact list.acquire_through_only_races list.buffer.active store

theorem current_of_not_stale {read : ReadAccess} (fine : worker.isStale store read = false) :
    read.isCurrent store = true := by
  simp only [isStale, Bool.or_eq_false_iff, Bool.not_eq_false'] at fine
  exact fine.1

inductive Commits (accesses : List Access) (worker : Worker) (store : Store) :
    Outcome Unit → Store → Prop where
  | committed (next : Store) (bare : next.bare = store.bare.commit accesses)
      (current : ∀ read ∈ worker.sets.reads.toList, read.isCurrent store = true) :
      Commits accesses worker store (.ok ()) next
  | conflict (next : Store) (read : ReadAccess) (listed : read ∈ worker.sets.reads.toList)
      (bare : next.bare = store.bare.bump read.lock.slot) :
      Commits accesses worker store (.fault .conflict) next
  | lostRace (next : Store) (bare : next.bare = store.bare) :
      Commits accesses worker store (.fault .raceAbort) next
  | broken (misuse : Misuse) (next : Store) (bare : next.bare = store.bare) :
      Commits accesses worker store (.misuse misuse) next
  | stuck (id : UInt64) (next : Store) (bare : next.bare = store.bare) :
      Commits accesses worker store (.waiting id) next

theorem is_current_of_bare {store next : Store} (same : next.bare = store.bare) (read : ReadAccess) :
    read.isCurrent next = read.isCurrent store := by
  have version : ∀ store : Store, (store.recordAt read.lock.slot).version =
      (store.bare.recordAt read.lock.slot).version := by
    intro store
    rw [Store.record_at_bare]
    rfl
  rw [ReadAccess.isCurrent, ReadAccess.isCurrent, version next, version store, same]

theorem commit_cases (different : ids.Nodup) (busy : worker.Busy ids accesses) (store : Store)
    (named : store.ids = ids) :
    Commits accesses worker store (worker.commit store).1 (worker.commit store).2.2 ∧
      (worker.commit store).2.1.Sound ids ∧
      Conserves worker.list.entries store (worker.commit store).2.1.list.entries
        (worker.commit store).2.2 := by
  obtain ⟨sound, bare, conserves, sets⟩ := secure_secures busy.sound store
  have races := secure_only_races worker store
  unfold commit
  generalize worker.secure store = secured at sound bare conserves sets races
  obtain ⟨outcome, after, next⟩ := secured
  simp only at sound bare conserves sets ⊢
  cases outcome with
  | fault fault =>
      obtain rfl := races fault rfl
      exact ⟨.lostRace next bare, sound, conserves⟩
  | misuse misuse => exact ⟨.broken misuse next bare, sound, conserves⟩
  | waiting id => exact ⟨.stuck id next bare, sound, conserves⟩
  | ok done =>
      have reads : after.sets.reads = worker.sets.reads := by rw [sets]; rfl
      simp only [settle]
      cases stale : after.firstStale next with
      | some read =>
          have listed := List.mem_of_find?_eq_some stale
          rw [reads] at listed
          refine ⟨.conflict _ read listed (by rw [Store.bare_bump, bare]), sound, ?_⟩
          exact conserves.trans fun others accounts =>
            Store.accounts_bump next read.lock.slot _ accounts
      | none =>
          obtain ⟨installer, installs⟩ := install_all_keeps (lastWrites after.sets.writes.toList) after
            next sound
          have installed : (after.installAll next).2 = next.commit accesses := by
            rw [installAll, install_all_store, sets]
            exact install_sorted different busy.sound.sets busy.records next
              ((Store.ids_of_bare bare).trans named)
          refine ⟨.committed _ ?_ ?_, installer, conserves.trans installs⟩
          · rw [installed, Store.bare_commit, bare]
          · intro read listed
            rw [← reads] at listed
            have fine := Bool.eq_false_iff.mpr (List.find?_eq_none.mp stale read listed)
            rw [← is_current_of_bare bare read]
            exact current_of_not_stale fine

theorem explains_of_current (accesses : List Access) (worker : Worker) (store : Store)
    (faithful : worker.Faithful accesses store.contents)
    (current : ∀ read ∈ worker.sets.reads.toList, read.isCurrent store = true) :
    store.contents.Explains accesses := by
  intro before slot value after same
  rcases faithful before slot value after same with own | ⟨none, read, listed, rfl, now, here, _, kept⟩
  · exact Or.inl own
  · refine Or.inr ⟨none, now.1, ?_⟩
    have version : (store.recordAt read.lock.slot).version = read.version := by
      simpa [ReadAccess.isCurrent] using current read listed
    have value_eq := kept (by rw [Store.content_eq here]; exact version.symm)
    rw [here, value_eq]

end Worker

end LockOrder
