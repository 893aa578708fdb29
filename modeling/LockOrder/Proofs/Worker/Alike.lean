import LockOrder.Proofs.CurrentList.Alike
import LockOrder.Worker.Run

set_option autoImplicit false

namespace LockOrder

namespace RetroList

variable {buffer other : Buffer}

theorem alike_append (alike : buffer.Alike other) (entries : List Entry) :
    Buffer.AlikeIfAny (append buffer entries) (append other entries) := by
  induction entries generalizing buffer other with
  | nil => exact .some alike
  | cons entry rest ih =>
      have pushed := alike.push entry
      rw [append, append]
      generalize buffer.push entry = mine at pushed
      generalize other.push entry = yours at pushed
      cases pushed with
      | none => exact .none
      | some same => exact ih same

theorem alike_construct (list last : RetroList) (alike : list.buffer.Alike last.buffer)
    (sets : AccessSets) (threshold : UInt32) (store : Store) :
    (∃ built same, list.construct sets threshold store = .ok built ∧
      last.construct sets threshold store = .ok same ∧ built.buffer.Alike same.buffer) ∨
    ∃ misuse, list.construct sets threshold store = .error misuse ∧
      last.construct sets threshold store = .error misuse := by
  have appended := alike_append alike.clear (needed sets threshold store)
  rw [construct, construct, reset, reset]
  simp only
  generalize append list.buffer.clear (needed sets threshold store) = mine at appended
  generalize append last.buffer.clear (needed sets threshold store) = yours at appended
  cases appended with
  | none => exact Or.inr ⟨_, rfl, rfl⟩
  | @some buffer other same =>
      simp only [← same.active, ← same.entries]
      by_cases short : buffer.active ≤ 1
      · rw [if_pos short, if_pos short]
        exact Or.inl ⟨_, _, rfl, rfl, same⟩
      · have sorted := same.fill (sorted buffer.entries)
        rw [if_neg short, if_neg short, ← sorted.entries]
        split
        · exact Or.inl ⟨_, _, rfl, rfl, sorted⟩
        · exact Or.inl ⟨_, _, rfl, rfl, sorted.fill _⟩

end RetroList

def Statistics.plus (stats other : Statistics) : Statistics :=
  ⟨stats.commits + other.commits, stats.raceAborts + other.raceAborts,
    stats.conflicts + other.conflicts⟩

theorem Statistics.plus_nothing (stats : Statistics) : stats.plus {} = stats := by
  simp [plus]

namespace Worker

-- What one of them has done is what `base` had done, and then what the other one has done.
structure Alike (base worker other : Worker) : Prop where
  settings : worker.settings = other.settings
  list : worker.list.Alike base.list.calls other.list
  retro : worker.retro.buffer.Alike other.retro.buffer
  sets : worker.sets = other.sets
  stats : worker.stats = base.stats.plus other.stats

def AlikeAfter {β : Type} (base : Worker) (result other : β × Worker × Store) : Prop :=
  result.1 = other.1 ∧ Alike base result.2.1 other.2.1 ∧ result.2.2 = other.2.2

variable {base worker other : Worker}

theorem Alike.with_list (alike : Alike base worker other) {list last : CurrentList}
    (same : list.Alike base.list.calls last) :
    Alike base { worker with list := list } { other with list := last } :=
  ⟨alike.settings, same, alike.retro, alike.sets, alike.stats⟩

theorem Alike.with_sets (alike : Alike base worker other) (sets : AccessSets) :
    Alike base { worker with sets } { other with sets } :=
  ⟨alike.settings, alike.list, alike.retro, rfl, alike.stats⟩

theorem Alike.require (alike : Alike base worker other) (kept : Bool) (breach : Breach) :
    Alike base (worker.require kept breach) (other.require kept breach) :=
  alike.with_list (alike.list.require kept breach)

theorem Alike.is_good_seed (alike : Alike base worker other) : worker.isGoodSeed = other.isGoodSeed := by
  rw [isGoodSeed, isGoodSeed, alike.list.is_empty, alike.retro.entries, RetroList.isEmpty,
    RetroList.isEmpty, Buffer.isEmpty, Buffer.isEmpty, alike.retro.active]

def seeded (worker : Worker) : Except Misuse Unit × Worker :=
  match worker.list.seed worker.retro with
  | .ok list => (.ok (), { worker with list })
  | .error misuse => (.error misuse, worker)

theorem start_eq (worker : Worker) :
    worker.start =
      let cleared := { worker with sets := worker.sets.clear }
      if cleared.settings.retrospective && !cleared.retro.isEmpty then
        (cleared.require cleared.isGoodSeed .badSeed).seeded
      else (.ok (), cleared) := rfl

theorem Alike.seeded (alike : Alike base worker other) :
    worker.seeded.1 = other.seeded.1 ∧ Alike base worker.seeded.2 other.seeded.2 := by
  have seeded := alike.list.seed _ _ alike.retro
  rw [Worker.seeded, Worker.seeded]
  generalize worker.list.seed worker.retro = mine at seeded
  generalize other.list.seed other.retro = yours at seeded
  cases seeded with
  | ok same => exact ⟨rfl, alike.with_list same⟩
  | error misuse => exact ⟨rfl, alike⟩

theorem Alike.start (alike : Alike base worker other) :
    worker.start.1 = other.start.1 ∧ Alike base worker.start.2 other.start.2 := by
  have cleared := alike.with_sets worker.sets.clear
  rw [start_eq, start_eq, ← alike.sets]
  generalize { worker with sets := worker.sets.clear } = mine at cleared
  generalize { other with sets := worker.sets.clear } = yours at cleared
  have remembers : (yours.settings.retrospective && !yours.retro.isEmpty) =
      (mine.settings.retrospective && !mine.retro.isEmpty) := by
    rw [cleared.settings, RetroList.isEmpty, RetroList.isEmpty, Buffer.isEmpty, Buffer.isEmpty,
      cleared.retro.active]
  simp only [remembers, ← cleared.is_good_seed]
  cases mine.settings.retrospective && !mine.retro.isEmpty with
  | true => exact (cleared.require _ _).seeded
  | false => exact ⟨rfl, cleared⟩

theorem Alike.release_locks (alike : Alike base worker other) (store : Store) :
    Alike base (worker.releaseLocks store).1 (other.releaseLocks store).1 ∧
      (worker.releaseLocks store).2 = (other.releaseLocks store).2 := by
  obtain ⟨list, next⟩ := alike.list.release_all store
  exact ⟨alike.with_list list, next⟩

theorem Alike.clear_attempt (alike : Alike base worker other) :
    Alike base worker.clearAttempt other.clearAttempt := by
  have logged := alike.require (!worker.list.isHolding) .resetHolding
  rw [clearAttempt, clearAttempt, ← alike.list.is_holding]
  simp only [logged.sets]
  exact (logged.with_list logged.list.reset).with_sets _

theorem Alike.with_retro (alike : Alike base worker other) {retro last : RetroList}
    (same : retro.buffer.Alike last.buffer) :
    Alike base { worker with retro } { other with retro := last } :=
  ⟨alike.settings, alike.list, same, alike.sets, alike.stats⟩

theorem Alike.forget (alike : Alike base worker other) : Alike base worker.forget other.forget :=
  alike.with_retro alike.retro.clear

theorem Alike.finish (alike : Alike base worker other) (store : Store) :
    Alike base (worker.finish store).1 (other.finish store).1 ∧
      (worker.finish store).2 = (other.finish store).2 := by
  obtain ⟨released, next⟩ := alike.release_locks store
  exact ⟨released.clear_attempt.forget, next⟩

theorem Alike.count_commit (alike : Alike base worker other) :
    Alike base worker.countCommit other.countCommit := by
  refine ⟨alike.settings, alike.list, alike.retro, alike.sets, ?_⟩
  simp only [countCommit, alike.stats, Statistics.plus, UInt64.add_assoc]

theorem Alike.count_abort (alike : Alike base worker other) (fault : Fault) :
    Alike base (worker.countAbort fault) (other.countAbort fault) := by
  rw [countAbort, countAbort]
  by_cases race : fault = .raceAbort
  · simp only [if_pos race]
    refine ⟨alike.settings, alike.list, alike.retro, alike.sets, ?_⟩
    simp only [alike.stats, Statistics.plus, UInt64.add_assoc]
  · simp only [if_neg race]
    refine ⟨alike.settings, alike.list, alike.retro, alike.sets, ?_⟩
    simp only [alike.stats, Statistics.plus, UInt64.add_assoc]

def remembered (worker : Worker) (store : Store) : Except Misuse RetroList :=
  if worker.settings.retrospective then
    worker.retro.construct worker.sets worker.settings.readLockThreshold store
  else .ok worker.retro

theorem Alike.remembered (alike : Alike base worker other) (store : Store) :
    (∃ retro last, worker.remembered store = .ok retro ∧ other.remembered store = .ok last ∧
      retro.buffer.Alike last.buffer) ∨
    ∃ misuse, worker.remembered store = .error misuse ∧ other.remembered store = .error misuse := by
  rw [Worker.remembered, Worker.remembered, ← alike.settings, ← alike.sets]
  by_cases retrospective : worker.settings.retrospective = true
  · rw [if_pos retrospective, if_pos retrospective]
    exact RetroList.alike_construct worker.retro other.retro alike.retro _ _ store
  · rw [if_neg retrospective, if_neg retrospective]
    exact Or.inl ⟨_, _, rfl, rfl, alike.retro⟩

theorem abort_eq (worker : Worker) (fault : Fault) (store : Store) :
    worker.abort fault store =
      let left := (worker.countAbort fault).releaseLocks store
      match left.1.remembered left.2 with
      | .error misuse => (.error misuse, left)
      | .ok retro => (.ok (), { left.1.clearAttempt with retro }, left.2) := rfl

theorem Alike.abort (alike : Alike base worker other) (fault : Fault) (store : Store) :
    AlikeAfter base (worker.abort fault store) (other.abort fault store) := by
  obtain ⟨released, next⟩ := (alike.count_abort fault).release_locks store
  rw [abort_eq, abort_eq]
  generalize (worker.countAbort fault).releaseLocks store = mine at released next
  generalize (other.countAbort fault).releaseLocks store = yours at released next
  simp only [← next]
  rcases released.remembered mine.2 with ⟨retro, last, kept, same, built⟩ | ⟨misuse, broken, same⟩
  · rw [kept, same]
    exact ⟨rfl, released.clear_attempt.with_retro built, rfl⟩
  · rw [broken, same]
    exact ⟨rfl, released, next⟩

theorem Alike.saw_version (alike : Alike base worker other) (lock : LockRef)
    (content : UInt64 × UInt64) :
    (worker.sawVersion lock content).1 = (other.sawVersion lock content).1 ∧
      Alike base (worker.sawVersion lock content).2 (other.sawVersion lock content).2 := by
  rw [sawVersion, sawVersion, ← alike.sets]
  split
  · exact ⟨rfl, alike.with_sets _⟩
  · exact ⟨rfl, alike⟩

theorem Alike.read_locked (alike : Alike base worker other) (lock : LockRef) (store : Store) :
    AlikeAfter base (worker.readLocked lock store) (other.readLocked lock store) := by
  rw [readLocked, readLocked]
  rcases alike.list.get_or_add lock .shared with ⟨pos, list, last, mine, yours, added⟩ | ⟨misuse, mine, yours⟩
  · obtain ⟨outcome, acquired, next⟩ := added.acquire_through pos store
    simp only [mine, yours]
    generalize list.acquireThrough pos store = mine at outcome acquired next
    generalize last.acquireThrough pos store = yours at outcome acquired next
    obtain ⟨outcome, list, store⟩ := mine
    obtain ⟨_, last, _⟩ := yours
    cases outcome
    cases next
    have same := alike.with_list acquired
    cases outcome with
    | ok _ =>
        obtain ⟨answer, seen⟩ := same.saw_version lock (store.recordAt lock.slot).readLocked
        exact ⟨answer, seen, rfl⟩
    | fault _ => exact ⟨rfl, same, rfl⟩
    | misuse _ => exact ⟨rfl, same, rfl⟩
    | waiting _ => exact ⟨rfl, same, rfl⟩
  · simp only [mine, yours]
    exact ⟨rfl, alike, rfl⟩

theorem Alike.read_optimistic (alike : Alike base worker other) (lock : LockRef) (store : Store) :
    AlikeAfter base (worker.readOptimistic lock store) (other.readOptimistic lock store) := by
  rw [readOptimistic, readOptimistic]
  cases (store.recordAt lock.slot).readOptimistic with
  | none => exact ⟨rfl, alike, rfl⟩
  | some content =>
      obtain ⟨answer, seen⟩ := alike.saw_version lock content
      exact ⟨answer, seen, rfl⟩

theorem Alike.read (alike : Alike base worker other) (lock : LockRef) (store : Store) :
    AlikeAfter base (worker.read lock store) (other.read lock store) := by
  have locks : worker.locksOnRead lock store = other.locksOnRead lock store := by
    rw [locksOnRead, locksOnRead, alike.list.buffer.find, alike.settings]
  rw [Worker.read, Worker.read, ← alike.sets, ← locks]
  cases worker.sets.pending lock.id with
  | some write => exact ⟨rfl, alike, rfl⟩
  | none =>
      cases worker.locksOnRead lock store with
      | true => exact alike.read_locked lock store
      | false => exact alike.read_optimistic lock store

theorem Alike.write (alike : Alike base worker other) (lock : LockRef) (value : UInt64) :
    (worker.write lock value).1 = (other.write lock value).1 ∧
      Alike base (worker.write lock value).2 (other.write lock value).2 := by
  rw [Worker.write, Worker.write, ← alike.sets]
  cases worker.sets.addWrite lock value with
  | ok sets => exact ⟨rfl, alike.with_sets sets⟩
  | error misuse => exact ⟨rfl, alike⟩

def secureSorted (worker : Worker) (store : Store) : Outcome Unit × Worker × Store :=
  match worker.list.mergeWrites worker.sets.writes.toList with
  | .error misuse => (.misuse misuse, worker, store)
  | .ok list =>
      if list.isEmpty then (.ok (), { worker with list }, store)
      else
        let acquired := list.acquireThrough list.buffer.active store
        (acquired.1, { worker with list := acquired.2.1 }, acquired.2.2)

theorem secure_eq (worker : Worker) (store : Store) :
    worker.secure store =
      let sorted := { worker with sets := worker.sets.sortWrites }
      (sorted.require sorted.sets.writesAscend .unsortedWrites).secureSorted store := rfl

theorem Alike.secure_sorted (alike : Alike base worker other) (store : Store) :
    AlikeAfter base (worker.secureSorted store) (other.secureSorted store) := by
  have merged : CurrentList.AlikeIfKept base.list.calls
      (worker.list.mergeWrites worker.sets.writes.toList)
      (other.list.mergeWrites other.sets.writes.toList) := by
    rw [← alike.sets]
    exact alike.list.merge_writes _
  rw [secureSorted, secureSorted]
  generalize worker.list.mergeWrites worker.sets.writes.toList = mine at merged
  generalize other.list.mergeWrites other.sets.writes.toList = yours at merged
  cases merged with
  | error misuse => exact ⟨rfl, alike, rfl⟩
  | @ok list last same =>
      simp only [← same.is_empty, ← same.buffer.active]
      cases list.isEmpty with
      | true => exact ⟨rfl, alike.with_list same, rfl⟩
      | false =>
          obtain ⟨outcome, acquired, next⟩ := same.acquire_through list.buffer.active store
          exact ⟨outcome, alike.with_list acquired, next⟩

theorem Alike.secure (alike : Alike base worker other) (store : Store) :
    AlikeAfter base (worker.secure store) (other.secure store) := by
  have sorted := alike.with_sets worker.sets.sortWrites
  rw [secure_eq, secure_eq, ← alike.sets]
  exact (sorted.require _ _).secure_sorted store

theorem Alike.entry_of (alike : Alike base worker other) (id : UInt64) :
    worker.entryOf id = other.entryOf id := by
  rw [entryOf, entryOf, ← alike.list.buffer.find]
  cases found : worker.list.buffer.find id with
  | none => rfl
  | some pos =>
      obtain ⟨first, last⟩ := Buffer.find_inside id pos found
      rw [Option.map_some, Option.map_some, alike.list.buffer.cell pos first last]

theorem Alike.first_stale (alike : Alike base worker other) (store : Store) :
    worker.firstStale store = other.firstStale store := by
  have stale : worker.isStale store = other.isStale store := by
    funext read
    rw [isStale, isStale, holds, holds, alike.entry_of]
  rw [firstStale, firstStale, stale, alike.sets]

theorem Alike.installs (alike : Alike base worker other) (writes : List WriteAccess) (store : Store) :
    Alike base (writes.foldl install (worker, store)).1 (writes.foldl install (other, store)).1 ∧
      (writes.foldl install (worker, store)).2 = (writes.foldl install (other, store)).2 := by
  induction writes generalizing worker other store with
  | nil => exact ⟨alike, rfl⟩
  | cons write rest ih =>
      have owns : worker.owns write.id = other.owns write.id := by
        rw [Worker.owns, Worker.owns, alike.entry_of]
      rw [List.foldl_cons, List.foldl_cons, install, install, ← owns]
      exact ih (alike.require _ _) _

theorem Alike.settle (alike : Alike base worker other) (store : Store) :
    AlikeAfter base (worker.settle store) (other.settle store) := by
  rw [Worker.settle, Worker.settle, ← alike.first_stale]
  cases worker.firstStale store with
  | some read => exact ⟨rfl, alike, rfl⟩
  | none =>
      obtain ⟨same, next⟩ := alike.installs (lastWrites worker.sets.writes.toList) store
      rw [installAll, installAll, ← alike.sets]
      exact ⟨rfl, same, next⟩

theorem Alike.commit (alike : Alike base worker other) (store : Store) :
    AlikeAfter base (worker.commit store) (other.commit store) := by
  obtain ⟨outcome, secured, next⟩ := alike.secure store
  rw [Worker.commit, Worker.commit]
  generalize worker.secure store = mine at outcome secured next
  generalize other.secure store = yours at outcome secured next
  obtain ⟨outcome, worker, store⟩ := mine
  obtain ⟨_, other, _⟩ := yours
  cases outcome
  cases next
  cases outcome with
  | ok _ => exact secured.settle store
  | fault _ => exact ⟨rfl, secured, rfl⟩
  | misuse _ => exact ⟨rfl, secured, rfl⟩
  | waiting _ => exact ⟨rfl, secured, rfl⟩

theorem Alike.after_attempt (alike : Alike base worker other) (store : Store)
    (ended : Outcome UInt64) :
    AlikeAfter base (worker.afterAttempt store ended) (other.afterAttempt store ended) := by
  obtain ⟨finished, next⟩ := alike.finish store
  cases ended with
  | ok value => exact ⟨rfl, finished.count_commit, next⟩
  | misuse misuse => exact ⟨rfl, alike, rfl⟩
  | waiting id => exact ⟨rfl, alike, rfl⟩
  | fault fault =>
      rw [afterAttempt, afterAttempt]
      cases fault.isRetryable with
      | false => exact ⟨rfl, finished, next⟩
      | true =>
          obtain ⟨done, aborted, next⟩ := alike.abort fault store
          generalize worker.abort fault store = mine at done aborted next
          generalize other.abort fault store = yours at done aborted next
          obtain ⟨done, worker, store⟩ := mine
          obtain ⟨_, other, _⟩ := yours
          cases done
          cases next
          cases done with
          | ok _ => exact ⟨rfl, aborted, rfl⟩
          | error misuse => exact ⟨rfl, aborted, rfl⟩

end Worker

end LockOrder
