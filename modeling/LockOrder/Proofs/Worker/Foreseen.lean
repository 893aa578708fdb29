import Mathlib
import LockOrder.Proofs.CurrentList.Canonical
import LockOrder.Proofs.Table.Start
import LockOrder.Proofs.Worker.Poised

set_option autoImplicit false

namespace LockOrder

inductive Request where
  | read (lock : LockRef)
  | write (lock : LockRef)

-- An access that is about to be made, by a worker in this state and on these records.
structure Moment where
  worker : Worker
  store : Store
  request : Request

namespace Moment

-- A read may need no lock. The lock of a write that was not foreseen is taken after all others.
def Foreseen (listed : List UInt64) (moment : Moment) : Prop :=
  match moment.request with
  | .read lock =>
      lock.id ∈ listed ∨ (moment.worker.sets.pending lock.id).isSome = true ∨
        (moment.store.recordAt lock.slot).hotness.level < moment.worker.settings.readLockThreshold
  | .write lock => lock.id ∈ listed ∨ ∀ id ∈ listed, id < lock.id

instance (listed : List UInt64) : (moment : Moment) → Decidable (moment.Foreseen listed)
  | ⟨worker, store, .read lock⟩ => inferInstanceAs (Decidable (lock.id ∈ listed ∨
      (worker.sets.pending lock.id).isSome = true ∨
        (store.recordAt lock.slot).hotness.level < worker.settings.readLockThreshold))
  | ⟨_, _, .write lock⟩ => inferInstanceAs (Decidable (lock.id ∈ listed ∨ ∀ id ∈ listed, id < lock.id))

def ofKey (table : Table) (key : UInt64) (worker : Worker) (store : Store)
    (request : LockRef → Request) : List Moment :=
  match table.slot key with
  | .ok slot => [⟨worker, store, request (store.lockAt slot)⟩]
  | .error _ => []

def OnlyWaits (listed : List UInt64) (before : List LockCall) (moment : Moment) : Prop :=
  ∀ lock pos list, moment.request = .read lock → lock.id ∈ listed →
    moment.worker.list.getOrAdd lock .shared = .ok (pos, list) → list.OnlyWaits before

end Moment

variable {α ρ σ : Type}

def Body.moments (table : Table) (perform : Perform α ρ σ) :
    Body α ρ → Worker → Arena σ → List Moment
  | .done _, _, _ => []
  | .read key next, worker, arena =>
      let (outcome, after, store) := worker.readKey table key arena.store
      Moment.ofKey table key worker arena.store .read ++
        match outcome with
        | .ok value => (next (.ok value)).moments table perform after (arena.withStore store)
        | .fault fault => (next (.error fault)).moments table perform after (arena.withStore store)
        | _ => []
  | .write key value next, worker, arena =>
      let (outcome, after) := worker.writeKey table key value arena.store
      Moment.ofKey table key worker arena.store .write ++
        match outcome with
        | .ok () => (next (.ok ())).moments table perform after arena
        | .fault fault => (next (.error fault)).moments table perform after arena
        | _ => []
  | .act action next, worker, arena =>
      let (answer, outside, store) := perform action arena.outside arena.store
      (next answer).moments table perform worker { arena with outside, store }
  | .transact seat inner next, worker, arena =>
      match arena.worker seat with
      | none => (next none).moments table perform worker arena
      | some other =>
          let ran := other.runWith (fun past => (inner past).execute table perform)
            (arena.setSeat seat none)
          match ran.run.result with
          | .misuse _ | .waiting _ => []
          | _ => (next (some ran.run)).moments table perform worker (ran.settled seat)

namespace Worker

variable {ids listed : List UInt64} {before : List LockCall} {worker : Worker} {store : Store}

-- A worker whose list has only these locks, some of which it owns, and whose writes fit to them.
structure Aligned (listed : List UInt64) (before : List LockCall) (worker : Worker) : Prop where
  ids : worker.list.ids = listed
  canonical : ∃ held, worker.list.Canonical before held
  writes : ∀ write ∈ worker.sets.writes.toList, write.id ∈ listed ∨ ∀ id ∈ listed, id < write.id

structure Proceeds (listed : List UInt64) (before : List LockCall) {β : Type} (outcome : Outcome β)
    (after : Worker) : Prop where
  answered : outcome ≠ .fault .raceAbort
  aligned : after.Aligned listed before ∨
    (∃ id, outcome = .waiting id) ∧ ∃ held, after.list.Waits before held

theorem Aligned.with_sets (aligned : worker.Aligned listed before) (sets : AccessSets)
    (writes : ∀ write ∈ sets.writes.toList, write.id ∈ listed ∨ ∀ id ∈ listed, id < write.id) :
    Aligned listed before { worker with sets } :=
  ⟨aligned.ids, aligned.canonical, writes⟩

theorem Aligned.in_order (aligned : worker.Aligned listed before) (sound : worker.Sound ids) :
    worker.list.WaitsInOrder before := by
  obtain ⟨held, canonical⟩ := aligned.canonical
  exact canonical.in_order (CurrentList.ids_ascend sound.list)

theorem Proceeds.in_order {β : Type} {outcome : Outcome β}
    (proceeds : Proceeds listed before outcome worker) (sound : worker.Sound ids) :
    worker.list.WaitsInOrder before := by
  rcases proceeds.aligned with aligned | ⟨_, held, waits⟩
  · exact aligned.in_order sound
  · exact waits.in_order (CurrentList.ids_ascend sound.list)

theorem Proceeds.go_on {β : Type} {outcome : Outcome β}
    (proceeds : Proceeds listed before outcome worker) (awake : ∀ id, outcome ≠ .waiting id) :
    worker.Aligned listed before :=
  proceeds.aligned.resolve_right fun ⟨⟨id, waits⟩, _⟩ => awake id waits

theorem start_aligned {started : Worker} (poised : worker.Poised ids)
    (retrospective : worker.settings.retrospective = true)
    (start : worker.start = (.ok (), started)) :
    started.Aligned (worker.retro.buffer.entries.map Entry.id) started.list.calls.toList := by
  have starts := start_starts poised.idle start
  have entries := starts.entries retrospective
  refine ⟨congrArg _ entries, ⟨0, Nat.zero_le _, ?_, by simp⟩, ?_⟩
  · rw [entries]
    exact Entry.owned_first_free _ poised.idle.sound.retro.free (poised.wants retrospective)
  · rw [starts.sets]
    simp [AccessSets.clear]

theorem saw_version_proceeds (aligned : worker.Aligned listed before) (lock : LockRef)
    (content : UInt64 × UInt64) : Proceeds listed before (worker.sawVersion lock content).1
      (worker.sawVersion lock content).2 := by
  unfold sawVersion AccessSets.addRead
  split
  · rename_i sets added
    split at added <;> cases added
    exact ⟨fun wrong => (by cases wrong), Or.inl (aligned.with_sets _ aligned.writes)⟩
  · exact ⟨fun wrong => (by cases wrong), Or.inl aligned⟩

theorem Aligned.requested (aligned : worker.Aligned listed before) (sound : worker.Sound ids)
    (lock : LockRef) (on : lock.On ids) (here : lock.id ∈ listed) (store : Store) :
    ∃ pos list, worker.list.getOrAdd lock .shared = .ok (pos, list) ∧ list.Sound ids ∧
      list.buffer.holds pos = true ∧ list.ids = listed ∧ ∃ held, list.Canonical before held := by
  obtain ⟨same, ⟨held, canonical⟩, _⟩ := aligned
  have member : ∃ entry ∈ worker.list.entries, entry.id = lock.id := by
    rw [← same] at here
    simpa [CurrentList.ids] using here
  obtain ⟨pos, list, added, inside, asked, canonical⟩ :=
    CurrentList.get_or_add_canonical canonical sound.list lock .shared member
  have kept := CurrentList.get_or_add_keeps store lock .shared pos sound.list on added
  exact ⟨pos, list, added, kept.sound, inside, asked.trans same, held, canonical⟩

theorem Aligned.only_waits (aligned : worker.Aligned listed before) (sound : worker.Sound ids)
    (table : Table) (fits : table.Fits ids) (key : UInt64) (store : Store) (named : store.ids = ids) :
    ∀ moment ∈ Moment.ofKey table key worker store .read, moment.OnlyWaits listed before := by
  intro moment member lock pos list request here added
  unfold Moment.ofKey at member
  split at member
  · rename_i slot found
    obtain rfl := List.mem_singleton.mp member
    cases request
    obtain ⟨_, _, requested, sound, _, _, held, canonical⟩ :=
      aligned.requested sound _ (Store.on_lock_within named slot (fits key slot found)) here store
    cases requested.symm.trans added
    exact canonical.only_waits sound
  · cases member

theorem writes_only_wait (table : Table) (key : UInt64) (worker : Worker) (store : Store) :
    ∀ moment ∈ Moment.ofKey table key worker store .write, moment.OnlyWaits listed before := by
  intro moment member lock pos list request
  unfold Moment.ofKey at member
  split at member
  · obtain rfl := List.mem_singleton.mp member
    cases request
  · cases member

theorem read_locked_proceeds (aligned : worker.Aligned listed before) (sound : worker.Sound ids)
    (lock : LockRef) (on : lock.On ids) (here : lock.id ∈ listed) (store : Store) :
    Proceeds listed before (worker.readLocked lock store).1 (worker.readLocked lock store).2.1 := by
  obtain ⟨pos, list, added, sound, inside, same, held, canonical⟩ :=
    aligned.requested sound lock on here store
  obtain ⟨unchanged, ended⟩ :=
    CurrentList.acquire_through_canonical canonical sound pos inside store
  unfold readLocked
  rw [added]
  simp only
  generalize list.acquireThrough pos store = result at unchanged ended
  obtain ⟨outcome, last, next⟩ := result
  rcases ended with ⟨done, further⟩ | ⟨⟨id, waiting⟩, waits⟩
  · simp only at done
    subst done
    have aligned : Aligned listed before { worker with list := last } :=
      ⟨unchanged.trans same, further, aligned.writes⟩
    exact saw_version_proceeds aligned lock _
  · simp only at waiting
    subst waiting
    exact ⟨fun wrong => (by cases wrong), Or.inr ⟨⟨id, rfl⟩, waits⟩⟩

theorem read_proceeds (aligned : worker.Aligned listed before) (sound : worker.Sound ids)
    (lock : LockRef) (on : lock.On ids) (store : Store)
    (foreseen : Moment.Foreseen listed ⟨worker, store, .read lock⟩) :
    Proceeds listed before (worker.read lock store).1 (worker.read lock store).2.1 := by
  unfold read
  split
  · exact ⟨fun wrong => (by cases wrong), Or.inl aligned⟩
  · rename_i unwritten
    split
    · rename_i locks
      have here : lock.id ∈ listed := by
        rcases foreseen with here | pending | cold
        · exact here
        · rw [unwritten] at pending
          cases pending
        · rcases (Bool.or_eq_true _ _).mp locks with found | hot
          · obtain ⟨entry, member, same⟩ := (Buffer.find_is_some_iff sound.list.buffer).mp found
            rw [← aligned.ids, ← same]
            exact List.mem_map_of_mem member
          · exact absurd cold (UInt32.not_lt.mpr (of_decide_eq_true hot))
      exact read_locked_proceeds aligned sound lock on here store
    · unfold readOptimistic
      split
      · exact saw_version_proceeds aligned lock _
      · exact ⟨fun wrong => (by cases wrong), Or.inl aligned⟩

theorem read_key_proceeds (aligned : worker.Aligned listed before) (sound : worker.Sound ids)
    (table : Table) (fits : table.Fits ids) (key : UInt64) (store : Store) (named : store.ids = ids)
    (foreseen : ∀ moment ∈ Moment.ofKey table key worker store .read, moment.Foreseen listed) :
    Proceeds listed before (worker.readKey table key store).1
      (worker.readKey table key store).2.1 := by
  unfold readKey
  unfold Moment.ofKey at foreseen
  cases found : table.slot key with
  | error fault =>
      refine ⟨fun wrong => ?_, Or.inl aligned⟩
      unfold Table.slot at found
      split at found <;> cases found
      cases wrong
  | ok slot =>
      have on := Store.on_lock_within named slot (fits key slot found)
      simp only [found] at foreseen
      exact read_proceeds aligned sound _ on store (foreseen _ (List.mem_singleton_self _))

theorem write_aligned (aligned : worker.Aligned listed before) (lock : LockRef) (value : UInt64)
    (store : Store) (foreseen : Moment.Foreseen listed ⟨worker, store, .write lock⟩) :
    (worker.write lock value).2.Aligned listed before := by
  unfold write AccessSets.addWrite
  split
  · rename_i sets added
    split at added <;> cases added
    refine aligned.with_sets _ fun write member => ?_
    rw [Array.toList_push] at member
    rcases List.mem_append.mp member with old | new
    · exact aligned.writes write old
    · rw [List.mem_singleton.mp new]
      exact foreseen
  · exact aligned

theorem write_key_aligned (aligned : worker.Aligned listed before) (table : Table)
    (key value : UInt64) (store : Store)
    (foreseen : ∀ moment ∈ Moment.ofKey table key worker store .write, moment.Foreseen listed) :
    (worker.writeKey table key value store).2.Aligned listed before := by
  unfold writeKey
  unfold Moment.ofKey at foreseen
  cases found : table.slot key with
  | error fault => exact aligned
  | ok slot =>
      simp only [found] at foreseen
      exact write_aligned aligned _ value store (foreseen _ (List.mem_singleton_self _))

theorem installs_calls (writes : List WriteAccess) (worker : Worker) (store : Store) :
    (writes.foldl install (worker, store)).1.list.calls = worker.list.calls := by
  induction writes generalizing worker store with
  | nil => rfl
  | cons write rest ih =>
      refine (ih _ _).trans ?_
      change (worker.list.require _ _).calls = _
      unfold CurrentList.require
      split <;> rfl

def toCommit (worker : Worker) : Except Misuse CurrentList :=
  (worker.list.require worker.sets.sortWrites.writesAscend .unsortedWrites).mergeWrites
    worker.sets.sortWrites.writes.toList

theorem to_commit_canonical (aligned : worker.Aligned listed before) (sound : worker.Sound ids)
    (list : CurrentList) (merged : worker.toCommit = .ok list) (store : Store) :
    list.Sound ids ∧ ∃ held, list.Canonical before held := by
  obtain ⟨same, ⟨held, canonical⟩, writes⟩ := aligned
  have sorted : Sound ids { worker with sets := worker.sets.sortWrites } :=
    sound.with_sets _ (AccessSets.on_sort_writes sound.sets) sound.capacity
  have logged := sound_require sorted worker.sets.sortWrites.writesAscend .unsortedWrites
  have canonical := canonical.require worker.sets.sortWrites.writesAscend .unsortedWrites
  have entries := entries_require worker.list worker.sets.sortWrites.writesAscend .unsortedWrites
  have grown := CurrentList.merge_writes_keeps store logged.list _ sorted.sets.writes
    (AccessSets.sort_writes_ids _) merged
  refine ⟨grown.sound, held, CurrentList.merge_writes_canonical canonical logged.list _
    (AccessSets.sort_writes_ids _) (fun write member => ?_) merged⟩
  rw [CurrentList.ids, entries]
  change write.id ∈ worker.list.ids ∨ ∀ id ∈ worker.list.ids, id < write.id
  rw [same]
  exact writes write ((worker.sets.sort_writes_perm).mem_iff.mp member)

theorem secure_proceeds (aligned : worker.Aligned listed before) (sound : worker.Sound ids)
    (store : Store) : (∀ fault, (worker.secure store).1 ≠ .fault fault) ∧
      (worker.secure store).2.1.list.WaitsInOrder before := by
  unfold secure
  simp only
  split
  · obtain ⟨_, ⟨_, canonical⟩, _⟩ := aligned
    refine ⟨fun fault wrong => (by cases wrong), ?_⟩
    refine (canonical.require worker.sets.sortWrites.writesAscend .unsortedWrites).in_order ?_
    rw [CurrentList.ids, entries_require]
    exact CurrentList.ids_ascend sound.list
  · rename_i list merged
    obtain ⟨sound, held, canonical⟩ := to_commit_canonical aligned sound list merged store
    split
    · exact ⟨fun fault wrong => (by cases wrong), canonical.in_order (CurrentList.ids_ascend sound)⟩
    · rename_i some
      have inside : list.buffer.holds list.buffer.active = true := by
        simp [Buffer.holds]
        simp [CurrentList.isEmpty, Buffer.isEmpty] at some
        omega
      obtain ⟨_, ended⟩ := CurrentList.acquire_through_canonical canonical sound _ inside store
      have acquires := CurrentList.acquire_through_acquires list sound list.buffer.active store
      have ascending := CurrentList.ids_ascend acquires.keeps.sound
      rcases ended with ⟨done, _, further⟩ | ⟨⟨id, waiting⟩, _, waits⟩
      · exact ⟨fun fault wrong => (by cases done.symm.trans wrong), further.in_order ascending⟩
      · exact ⟨fun fault wrong => (by cases waiting.symm.trans wrong), waits.in_order ascending⟩

theorem commit_proceeds (aligned : worker.Aligned listed before) (sound : worker.Sound ids)
    (store : Store) : (worker.commit store).1 ≠ .fault .raceAbort ∧
      (worker.commit store).2.1.list.WaitsInOrder before := by
  obtain ⟨answered, inOrder⟩ := secure_proceeds aligned sound store
  unfold commit
  generalize worker.secure store = secured at answered inOrder
  obtain ⟨outcome, after, next⟩ := secured
  cases outcome with
  | fault fault => exact absurd rfl (answered fault)
  | misuse misuse => exact ⟨fun wrong => (by cases wrong), inOrder⟩
  | waiting id => exact ⟨fun wrong => (by cases wrong), inOrder⟩
  | ok _ =>
      simp only [settle]
      split
      · exact ⟨fun wrong => (by cases wrong), inOrder⟩
      · refine ⟨fun wrong => (by cases wrong), ?_⟩
        obtain ⟨awaited, ascend, calls⟩ := inOrder
        refine ⟨awaited, ascend, ?_⟩
        rw [installAll, installs_calls]
        exact calls

end Worker

namespace Executed

variable {ids listed : List UInt64} {before : List LockCall}

structure Wins (listed : List UInt64) (before : List LockCall) (moments : List Moment)
    (executed : Executed α ρ σ) : Prop where
  answered : ∀ key, Event.read key (.fault .raceAbort) ∉ executed.events
  patient : ∀ moment ∈ moments, moment.OnlyWaits listed before
  inOrder : executed.worker.list.WaitsInOrder before
  aligned : executed.outcome.isOver = true → executed.worker.Aligned listed before

theorem wins_nothing {worker : Worker} (aligned : worker.Aligned listed before)
    (sound : worker.Sound ids) (outcome : Outcome UInt64) (arena : Arena σ) :
    Wins listed before [] (⟨[], outcome, worker, arena⟩ : Executed α ρ σ) where
  answered := by simp
  patient := by simp
  inOrder := aligned.in_order sound
  aligned := fun _ => aligned

theorem Wins.after {event : Event α ρ} {rest : Executed α ρ σ} {now later : List Moment}
    (wins : rest.Wins listed before later) (answered : ∀ key, event ≠ .read key (.fault .raceAbort))
    (patient : ∀ moment ∈ now, moment.OnlyWaits listed before) :
    (rest.after event).Wins listed before (now ++ later) where
  answered := by
    intro key member
    rcases List.mem_cons.mp member with same | later
    · exact answered key same.symm
    · exact wins.answered key later
  patient := by
    intro moment member
    exact (List.mem_append.mp member).elim (patient moment) (wins.patient moment)
  inOrder := wins.inOrder
  aligned := wins.aligned

theorem Wins.beside {event : Event α ρ} {rest : Executed α ρ σ} {moments : List Moment}
    (wins : rest.Wins listed before moments)
    (answered : ∀ key, event ≠ .read key (.fault .raceAbort)) :
    (rest.after event).Wins listed before moments := by
  have none : ∀ moment ∈ ([] : List Moment), moment.OnlyWaits listed before := by simp
  exact wins.after answered none

theorem wins_stopped {event : Event α ρ} {worker : Worker} {outcome : Outcome UInt64}
    {moments : List Moment} (arena : Arena σ)
    (answered : ∀ key, event ≠ .read key (.fault .raceAbort)) (stopped : outcome.isOver = false)
    (patient : ∀ moment ∈ moments, moment.OnlyWaits listed before)
    (inOrder : worker.list.WaitsInOrder before) :
    Wins listed before moments (⟨[event], outcome, worker, arena⟩ : Executed α ρ σ) where
  answered := by
    intro key member
    exact answered key (List.mem_singleton.mp member).symm
  patient := patient
  inOrder := inOrder
  aligned := fun closed => by
    simp only [stopped] at closed
    cases closed

theorem execute_wins (different : ids.Nodup) {table : Table} (fits : table.Fits ids)
    {perform : Perform α ρ σ} (keeps : perform.KeepsIds) (body : Body α ρ) (worker : Worker)
    (arena : Arena σ) (active : worker.Active ids) (aligned : worker.Aligned listed before)
    (named : arena.store.ids = ids)
    (foreseen : ∀ moment ∈ body.moments table perform worker arena, moment.Foreseen listed) :
    (body.execute table perform worker arena).Wins listed before
      (body.moments table perform worker arena) := by
  induction body generalizing worker arena with
  | done result =>
      obtain ⟨accesses, busy⟩ := active
      cases result <;> exact wins_nothing aligned busy.sound _ arena
  | read key next ih =>
      obtain ⟨accesses, busy⟩ := active
      unfold Body.moments at foreseen ⊢
      simp only [List.mem_append, or_imp, forall_and] at foreseen
      obtain ⟨now, later⟩ := foreseen
      have proceeds := Worker.read_key_proceeds aligned busy.sound table fits key arena.store named now
      have patient := aligned.only_waits busy.sound table fits key arena.store named
      obtain ⟨bare, _, busy, _⟩ := Worker.read_key_goes different table busy named fits key
      unfold Body.execute
      generalize worker.readKey table key arena.store = answer at bare busy proceeds later
      obtain ⟨outcome, after, store⟩ := answer
      have names := (Store.ids_of_bare bare).trans named
      cases outcome with
      | ok value =>
          have onward := proceeds.go_on fun id wrong => by cases wrong
          exact (ih _ after (arena.withStore store) ⟨_, busy⟩ onward names later).after
            (fun key wrong => by cases wrong) patient
      | fault fault =>
          have onward := proceeds.go_on fun id wrong => by cases wrong
          exact (ih _ after (arena.withStore store) ⟨_, busy⟩ onward names later).after
            (fun key wrong => by cases wrong; exact proceeds.answered rfl) patient
      | misuse misuse =>
          exact wins_stopped _ (fun key wrong => by cases wrong) rfl (by simpa using patient)
            (proceeds.in_order busy.sound)
      | waiting id =>
          exact wins_stopped _ (fun key wrong => by cases wrong) rfl (by simpa using patient)
            (proceeds.in_order busy.sound)
  | write key value next ih =>
      obtain ⟨accesses, busy⟩ := active
      unfold Body.moments at foreseen ⊢
      simp only [List.mem_append, or_imp, forall_and] at foreseen
      obtain ⟨now, later⟩ := foreseen
      have onward := Worker.write_key_aligned aligned table key value arena.store now
      have patient : ∀ moment ∈ Moment.ofKey table key worker arena.store .write,
          moment.OnlyWaits listed before := Worker.writes_only_wait table key worker arena.store
      obtain ⟨_, _, busy, _⟩ := Worker.write_key_goes table busy named fits key value
      unfold Body.execute
      generalize worker.writeKey table key value arena.store = answer at busy onward later
      obtain ⟨outcome, after⟩ := answer
      cases outcome with
      | ok _ =>
          exact (ih _ after arena ⟨_, busy⟩ onward named later).after
            (fun key wrong => by cases wrong) patient
      | fault fault =>
          exact (ih _ after arena ⟨_, busy⟩ onward named later).after
            (fun key wrong => by cases wrong) patient
      | misuse misuse =>
          exact wins_stopped _ (fun key wrong => by cases wrong) rfl (by simpa using patient)
            (onward.in_order busy.sound)
      | waiting id =>
          exact wins_stopped _ (fun key wrong => by cases wrong) rfl (by simpa using patient)
            (onward.in_order busy.sound)
  | act action next ih =>
      have same := keeps action arena.outside arena.store
      unfold Body.execute
      exact (ih _ worker _ active aligned (same.trans named) foreseen).beside
        fun key wrong => by cases wrong
  | transact seat inner next inner_ih ih =>
      obtain ⟨accesses, busy⟩ := active
      have order := aligned.in_order busy.sound
      unfold Body.moments at foreseen ⊢
      unfold Body.execute
      cases here : arena.worker seat with
      | none =>
          simp only [here] at foreseen
          exact (ih none worker arena ⟨_, busy⟩ aligned named foreseen).beside
            fun key wrong => by cases wrong
      | some other =>
          have same := ids_of_nested (fun past => framed_execute table keeps (inner past)) other
            (arena.setSeat seat none) seat
          simp only [here] at foreseen ⊢
          generalize other.runWith (fun past => (inner past).execute table perform)
            (arena.setSeat seat none) = ran at same foreseen
          cases result : ran.run.result with
          | misuse misuse =>
              exact wins_stopped _ (fun key wrong => by cases wrong) rfl (by simp) order
          | waiting id =>
              exact wins_stopped _ (fun key wrong => by cases wrong) rfl (by simp) order
          | ok value =>
              simp only [result] at foreseen
              exact (ih _ worker _ ⟨_, busy⟩ aligned (same.trans named) foreseen).beside
                fun key wrong => by cases wrong
          | fault fault =>
              simp only [result] at foreseen
              exact (ih _ worker _ ⟨_, busy⟩ aligned (same.trans named) foreseen).beside
                fun key wrong => by cases wrong

end Executed

-- An attempt that starts with these calls behind it and needs no lock that was not foreseen.
structure Executed.LosesNoRace (listed : List UInt64) (before : List LockCall)
    (moments : List Moment) (executed : Executed α ρ σ) : Prop where
  reads : ∀ key, Event.read key (.fault .raceAbort) ∉ executed.events
  patient : ∀ moment ∈ moments, moment.OnlyWaits listed before
  inOrder : executed.worker.list.WaitsInOrder before
  -- Others may have acted once more before the attempt commits.
  commits : ∀ value, executed.outcome = .ok value → ∀ store,
    (executed.worker.commit store).1 ≠ .fault .raceAbort ∧
      (executed.worker.commit store).2.1.list.WaitsInOrder before
  -- And they may act before each single lock is taken that it takes then.
  patientlyCommits : ∀ value, executed.outcome = .ok value →
    ∀ list, executed.worker.toCommit = .ok list → list.OnlyWaits before

theorem foreseen_attempt_loses_no_race (table : Table) (perform : Perform α ρ σ)
    (keeps : perform.KeepsIds) (transaction : Transaction α ρ) (first turn : Turn α ρ σ)
    (started : Worker) (rests : first.worker.Rests (Table.slotIds table.size))
    (named : first.arena.store.ids = Table.slotIds table.size)
    (reached : Turn.Reaches (fun past => (transaction past).execute table perform) first turn)
    (retrospective : turn.worker.settings.retrospective = true)
    (start : turn.worker.start = (.ok (), started))
    (foreseen : ∀ moment ∈ (transaction turn.past).moments table perform started turn.arena,
      moment.Foreseen (turn.worker.retro.buffer.entries.map Entry.id)) :
    ((transaction turn.past).execute table perform started turn.arena).LosesNoRace
      (turn.worker.retro.buffer.entries.map Entry.id) started.list.calls.toList
      ((transaction turn.past).moments table perform started turn.arena) := by
  have different := Table.slot_ids_different table.size table.size_le
  have fits := table.fits_slot_ids
  have acts := Worker.keeps_active_transaction different fits keeps transaction
  have poised := Turn.reaches_poised different acts reached ⟨rests.poised, named⟩
  have busy := Worker.start_active poised.worker.idle start
  have aligned := Worker.start_aligned poised.worker retrospective start
  have wins := Executed.execute_wins different fits keeps (transaction turn.past) started turn.arena
    ⟨[], busy⟩ aligned poised.named foreseen
  obtain ⟨⟨_, active⟩, _⟩ := acts turn.past started turn.arena busy poised.named
  refine ⟨wins.answered, wins.patient, wins.inOrder, fun value done store => ?_,
    fun value done list merged => ?_⟩
  · exact Worker.commit_proceeds (wins.aligned (by rw [done]; rfl)) active.sound store
  · obtain ⟨sound, held, canonical⟩ := Worker.to_commit_canonical
      (wins.aligned (by rw [done]; rfl)) active.sound list merged turn.arena.store
    exact canonical.only_waits sound

-- Gives up its first attempt when the records that it has read are hot. After that it asks for these
-- the other way round.
def uphill : Transaction Act Reply
  | [] => .read 0 fun _ => .read 1 fun _ => .act (.bump 0) fun _ => .done (.error .conflict)
  | _ => .read 1 fun _ => .act (.bump 1) fun _ => .read 0 fun _ => .write 1 9 fun _ => .done (.ok 0)

def uphillAttempt : List (Call Act Reply) → Worker → Arena Outsiders → Executed Act Reply Outsiders :=
  fun past => (uphill past).execute .double (Act.perform .double)

def Turn.foresees (listed : List UInt64) (turn : Turn Act Reply Outsiders) : Bool :=
  turn.worker.settings.retrospective && turn.worker.retro.buffer.entries.map Entry.id == listed &&
    match turn.worker.start with
    | (.ok (), started) =>
        ((uphill turn.past).moments .double (Act.perform .double) started turn.arena).all
          fun moment => decide (moment.Foreseen listed)
    | (.error _, _) => false

theorem uphill_loses_no_race : ∃ turn started, (Turn.after [.bump 1]).next uphillAttempt = some turn ∧
    turn.worker.start = (.ok (), started) ∧
    turn.worker.retro.buffer.entries.map Entry.id = [1, 2] ∧
    (uphillAttempt turn.past started turn.arena).LosesNoRace [1, 2] started.list.calls.toList
      ((uphill turn.past).moments .double (Act.perform .double) started turn.arena) := by
  have found : ((Turn.after [.bump 1]).next uphillAttempt).any (Turn.foresees [1, 2]) = true := by
    cbv
  obtain ⟨turn, next, foresees⟩ := (Option.any_eq_true _ _).mp found
  unfold Turn.foresees at foresees
  split at foresees
  · rename_i started start
    simp only [Bool.and_eq_true, beq_iff_eq, List.all_eq_true, decide_eq_true_eq] at foresees
    obtain ⟨⟨retrospective, listed⟩, foreseen⟩ := foresees
    have wins := foreseen_attempt_loses_no_race .double (Act.perform .double) (Act.keeps_ids _) uphill
      (Turn.after [.bump 1]) turn started
      (Worker.rests_of_settings _ { maxAccesses := 8, readLockThreshold := 1 } .alert rfl)
      (by decide +kernel) (.single next) retrospective start (listed.symm ▸ foreseen)
    rw [listed] at wins
    exact ⟨turn, started, next, start, listed, wins⟩
  · simp at foresees

end LockOrder
