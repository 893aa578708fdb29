import LockOrder.Proofs.Store.Bare
import LockOrder.Proofs.Worker.Execution
import LockOrder.Proofs.Worker.Turns
import LockOrder.Buffer.View

set_option autoImplicit false

namespace LockOrder

theorem Store.ids_install (store : Store) (slot : Nat) (value : UInt64) :
    (store.install slot value).ids = store.ids :=
  ids_put store slot _ rfl

namespace Acquisition

structure Framed (state next : Acquisition) : Prop where
  size : next.list.buffer.cells.size = state.list.buffer.cells.size
  bare : next.store.bare = state.store.bare

variable {state mid next : Acquisition}

theorem framed_refl : Framed state state := ⟨rfl, rfl⟩

theorem Framed.trans (first : Framed state mid) (second : Framed mid next) : Framed state next :=
  ⟨second.size.trans first.size, second.bare.trans first.bare⟩

theorem framed_took (pos : Nat) (mode : Mode) (handle : Handle) (store : Store)
    (bare : store.bare = state.store.bare) : Framed state (state.took pos mode handle store) :=
  ⟨Buffer.size_set _ _ _, bare⟩

theorem framed_called (call : LockCall) : Framed state (state.called call) := ⟨rfl, rfl⟩

theorem framed_require (kept : Bool) (breach : Breach) : Framed state (state.require kept breach) := by
  unfold require CurrentList.require
  split <;> exact ⟨rfl, rfl⟩

theorem framed_taken (lock : LockRef) (kind : Handle) (won lost : LockCall) (pos : Nat) (mode : Mode)
    (refused : Outcome Unit) :
    Framed state (match state.store.take lock kind with
      | some store => (Outcome.ok (), (state.called won).took pos mode kind store)
      | none => (refused, state.called lost)).2 := by
  split
  · rename_i store taken
    exact (framed_called won).trans (framed_took _ _ _ store (Store.bare_take _ _ _ _ taken))
  · exact framed_called lost

theorem framed_try_upgrade (pos : Nat) (lock : LockRef) (handle : Handle) :
    Framed state (state.tryUpgrade pos lock handle).2 := by
  unfold tryUpgrade
  simp only
  split
  · rename_i store raised
    refine (framed_require _ _).trans ((framed_called _).trans (framed_took _ _ _ store ?_))
    exact Store.bare_upgrade _ _ _ raised
  · exact (framed_require _ _).trans (framed_called _)

theorem framed_step (state : Acquisition) (pos : Nat) : Framed state (state.step pos).2 := by
  unfold step
  simp only
  split
  · exact framed_refl
  · split
    · exact framed_refl
    · split
      · exact (framed_require _ _).trans (framed_taken _ .writer (.await _) (.await _) pos _ _)
      · split
        · exact framed_try_upgrade pos _ _
        · split
          · exact framed_taken _ .writer _ _ pos _ _
          · exact framed_taken _ .reader _ _ pos _ _

theorem framed_steps (state : Acquisition) (pos count : Nat) :
    Framed state (steps pos count state).2 := by
  induction count generalizing state pos with
  | zero => exact framed_refl
  | succ count ih =>
      have step := framed_step state pos
      unfold steps
      generalize state.step pos = result at step
      obtain ⟨outcome, next⟩ := result
      cases outcome with
      | ok _ => exact step.trans (ih next (pos + 1))
      | fault _ => exact step
      | misuse _ => exact step
      | waiting _ => exact step

end Acquisition

namespace CurrentList

structure Framed (list : CurrentList) (store : Store) (after : CurrentList) (next : Store) : Prop where
  size : after.buffer.cells.size = list.buffer.cells.size
  bare : next.bare = store.bare

variable {list after : CurrentList}

theorem framed_acquire_through (list : CurrentList) (last : Nat) (store : Store) :
    Framed list store (list.acquireThrough last store).2.1 (list.acquireThrough last store).2.2 := by
  unfold acquireThrough
  split
  · obtain ⟨size, bare⟩ := Acquisition.framed_steps (.start list store) 1 last
    exact ⟨size, bare⟩
  · exact ⟨rfl, rfl⟩

theorem size_get_or_add (lock : LockRef) (mode : Mode) (pos : Nat)
    (added : list.getOrAdd lock mode = .ok (pos, after)) :
    after.buffer.cells.size = list.buffer.cells.size := by
  unfold getOrAdd at added
  simp only at added
  split at added
  · rename_i buffer edit
    cases added
    change buffer.cells.size = _
    split at edit
    · unfold Buffer.push at edit
      split at edit <;> cases edit
      simp
    · split at edit
      · cases edit
        simp
      · unfold Buffer.insert at edit
        split at edit <;> cases edit
        simp
  · cases added

theorem size_merge_writes (writes : List WriteAccess) (merged : list.mergeWrites writes = .ok after) :
    after.buffer.cells.size = list.buffer.cells.size := by
  unfold mergeWrites at merged
  simp only at merged
  split at merged <;> cases merged
  simp [Buffer.fill]

theorem size_seed (retro : RetroList) (seeded : list.seed retro = .ok after) :
    after.buffer.cells.size = list.buffer.cells.size := by
  unfold seed at seeded
  split at seeded
  · cases seeded
  · split at seeded <;> cases seeded
    simp [Buffer.fill]

theorem framed_give_back (entries : List Entry) (list : CurrentList) (store : Store) :
    Framed list store (entries.foldl giveBack (list, store)).1
      (entries.foldl giveBack (list, store)).2 := by
  induction entries generalizing list store with
  | nil => exact ⟨rfl, rfl⟩
  | cons entry rest ih =>
      have step : Framed list store (giveBack (list, store) entry).1
          (giveBack (list, store) entry).2 := by
        unfold giveBack
        split
        · simp only [called, require]
          split <;> exact ⟨rfl, Store.bare_release _ _ _⟩
        · exact ⟨rfl, rfl⟩
      obtain ⟨size, bare⟩ := ih (giveBack (list, store) entry).1 (giveBack (list, store) entry).2
      exact ⟨size.trans step.size, bare.trans step.bare⟩

theorem framed_release_all (list : CurrentList) (store : Store) :
    Framed list store (list.releaseAll store).1 (list.releaseAll store).2 := by
  obtain ⟨size, bare⟩ := framed_give_back
    (list.buffer.entriesFrom (list.buffer.positionAfter 0)) list store
  refine ⟨?_, bare⟩
  change (Buffer.write _ _ _).cells.size = _
  rw [Buffer.size_write]
  exact size

end CurrentList

namespace Worker

structure Framed (worker : Worker) (store : Store) (after : Worker) (next : Store) : Prop where
  settings : after.settings = worker.settings
  capacity : after.sets.capacity = worker.sets.capacity
  size : after.list.buffer.cells.size = worker.list.buffer.cells.size
  ids : next.ids = store.ids

variable {worker after last : Worker} {store next final : Store}

theorem framed_refl : Framed worker store worker store := ⟨rfl, rfl, rfl, rfl⟩

theorem Framed.trans (first : Framed worker store after next) (second : Framed after next last final) :
    Framed worker store last final :=
  ⟨second.settings.trans first.settings, second.capacity.trans first.capacity,
    second.size.trans first.size, second.ids.trans first.ids⟩

theorem framed_list {list : CurrentList} (framed : CurrentList.Framed worker.list store list next) :
    Framed worker store { worker with list } next :=
  ⟨rfl, rfl, framed.size, Store.ids_of_bare framed.bare⟩

variable (worker store)

theorem framed_require (kept : Bool) (breach : Breach) :
    Framed worker store (worker.require kept breach) store := by
  refine framed_list ⟨?_, rfl⟩
  unfold CurrentList.require
  split <;> rfl

theorem framed_saw_version (lock : LockRef) (content : UInt64 × UInt64) :
    Framed worker store (worker.sawVersion lock content).2 store := by
  unfold sawVersion
  split
  · rename_i sets added
    unfold AccessSets.addRead at added
    split at added <;> cases added
    exact ⟨rfl, rfl, rfl, rfl⟩
  · exact framed_refl

theorem framed_read (lock : LockRef) :
    Framed worker store (worker.read lock store).2.1 (worker.read lock store).2.2 := by
  unfold read
  split
  · exact framed_refl
  · split
    · unfold readLocked
      split
      · exact framed_refl
      · rename_i pos list added
        have acquired := CurrentList.framed_acquire_through list pos store
        have framed : CurrentList.Framed worker.list store (list.acquireThrough pos store).2.1
            (list.acquireThrough pos store).2.2 :=
          ⟨acquired.size.trans (CurrentList.size_get_or_add lock .shared pos added), acquired.bare⟩
        generalize list.acquireThrough pos store = result at framed
        obtain ⟨outcome, list, next⟩ := result
        cases outcome with
        | ok _ => exact (framed_list framed).trans (framed_saw_version _ _ lock _)
        | fault _ => exact framed_list framed
        | misuse _ => exact framed_list framed
        | waiting _ => exact framed_list framed
    · unfold readOptimistic
      split
      · exact framed_saw_version worker store lock _
      · exact framed_refl

theorem framed_write (lock : LockRef) (value : UInt64) :
    Framed worker store (worker.write lock value).2 store := by
  unfold write
  split
  · rename_i sets added
    unfold AccessSets.addWrite at added
    split at added <;> cases added
    exact ⟨rfl, rfl, rfl, rfl⟩
  · exact framed_refl

theorem framed_secure :
    Framed worker store (worker.secure store).2.1 (worker.secure store).2.2 := by
  have sorted : Framed worker store { worker with sets := worker.sets.sortWrites } store :=
    ⟨rfl, rfl, rfl, rfl⟩
  have logged := sorted.trans
    (framed_require _ _ worker.sets.sortWrites.writesAscend .unsortedWrites)
  unfold secure
  simp only
  split
  · exact logged
  · rename_i list merged
    have grown := CurrentList.size_merge_writes _ merged
    split
    · exact logged.trans (framed_list ⟨grown, rfl⟩)
    · obtain ⟨size, bare⟩ :=
        CurrentList.framed_acquire_through list list.buffer.active store
      exact logged.trans (framed_list ⟨size.trans grown, bare⟩)

theorem framed_installs (writes : List WriteAccess) (worker : Worker) (store : Store) :
    Framed worker store (writes.foldl install (worker, store)).1
      (writes.foldl install (worker, store)).2 := by
  induction writes generalizing worker store with
  | nil => exact framed_refl
  | cons write rest ih =>
      have logged := framed_require worker store (worker.owns write.id)
        (.installedUnowned write.id)
      have installed : Framed worker store (worker.require (worker.owns write.id)
          (.installedUnowned write.id)) (store.install write.lock.slot write.value) :=
        ⟨logged.settings, logged.capacity, logged.size, Store.ids_install store _ _⟩
      exact installed.trans (ih _ _)

theorem framed_commit :
    Framed worker store (worker.commit store).2.1 (worker.commit store).2.2 := by
  have secured := framed_secure worker store
  unfold commit
  generalize worker.secure store = result at secured
  obtain ⟨outcome, after, next⟩ := result
  cases outcome with
  | ok _ =>
      refine secured.trans ?_
      simp only [settle]
      split
      · exact ⟨rfl, rfl, rfl, Store.ids_bump next _⟩
      · exact framed_installs _ after next
  | fault _ => exact secured
  | misuse _ => exact secured
  | waiting _ => exact secured

theorem framed_start : Framed worker store worker.start.2 store := by
  have cleared : Framed worker store { worker with sets := worker.sets.clear } store :=
    ⟨rfl, rfl, rfl, rfl⟩
  unfold start
  simp only
  split
  · have logged := cleared.trans
      (framed_require _ _ (isGoodSeed { worker with sets := worker.sets.clear }) .badSeed)
    split
    · rename_i list seeded
      exact logged.trans (framed_list ⟨CurrentList.size_seed _ seeded, rfl⟩)
    · exact logged
  · exact cleared

theorem framed_release_locks :
    Framed worker store (worker.releaseLocks store).1 (worker.releaseLocks store).2 :=
  framed_list (CurrentList.framed_release_all worker.list store)

theorem framed_clear_attempt : Framed worker store worker.clearAttempt store := by
  have logged := framed_require worker store (!worker.list.isHolding) .resetHolding
  refine ⟨rfl, rfl, ?_, rfl⟩
  change (Buffer.clear _).cells.size = _
  rw [← logged.size]
  simp [Buffer.clear]

theorem framed_finish :
    Framed worker store (worker.finish store).1 (worker.finish store).2 := by
  obtain ⟨settings, capacity, size, ids⟩ := (framed_release_locks worker store).trans
    (framed_clear_attempt _ _)
  exact ⟨settings, capacity, size, ids⟩

theorem framed_abort (fault : Fault) :
    Framed worker store (worker.abort fault store).2.1 (worker.abort fault store).2.2 := by
  have counted : Framed worker store (worker.countAbort fault) store := by
    unfold countAbort
    simp only
    split <;> exact ⟨rfl, rfl, rfl, rfl⟩
  have released := counted.trans (framed_release_locks _ _)
  unfold abort
  generalize (worker.countAbort fault).releaseLocks store = result at released
  obtain ⟨after, next⟩ := result
  simp only
  split
  · exact released
  · obtain ⟨settings, capacity, size, ids⟩ := released.trans (framed_clear_attempt _ _)
    exact ⟨settings, capacity, size, ids⟩

theorem framed_after_attempt (ended : Outcome UInt64) :
    Framed worker store (worker.afterAttempt store ended).2.1
      (worker.afterAttempt store ended).2.2 := by
  have finished := framed_finish worker store
  cases ended with
  | ok value => exact ⟨finished.settings, finished.capacity, finished.size, finished.ids⟩
  | fault fault =>
      unfold afterAttempt
      simp only
      split
      · have aborted := framed_abort worker store fault
        generalize worker.abort fault store = result at aborted
        obtain ⟨done, after, next⟩ := result
        cases done <;> exact aborted
      · exact finished
  | misuse _ => exact framed_refl
  | waiting _ => exact framed_refl

variable {α ρ σ : Type}

theorem framed_conclude (executed : Executed α ρ σ) :
    Framed executed.worker executed.arena.store (conclude executed).2.1
      (conclude executed).2.2 := by
  unfold conclude
  split
  · exact framed_commit _ _
  · exact framed_refl

def Frames (execute : List (Call α ρ) → Worker → Arena σ → Executed α ρ σ) : Prop :=
  ∀ past worker arena, Framed worker arena.store (execute past worker arena).worker
    (execute past worker arena).arena.store

theorem framed_attempt {execute : List (Call α ρ) → Worker → Arena σ → Executed α ρ σ}
    (frames : Frames execute) (past : List (Call α ρ)) (worker : Worker) (arena : Arena σ) :
    Framed worker arena.store (attempt execute past worker arena).2.1
      (attempt execute past worker arena).2.2.store :=
  (frames past worker arena).trans (framed_conclude _)

end Worker

namespace Turn

variable {α ρ σ : Type} {execute : List (Call α ρ) → Worker → Arena σ → Executed α ρ σ}
  {turn after : Turn α ρ σ}

def Framed (turn after : Turn α ρ σ) : Prop :=
  Worker.Framed turn.worker turn.arena.store after.worker after.arena.store

theorem framed_next (frames : Worker.Frames execute) (next : turn.next execute = some after) :
    turn.Framed after := by
  obtain ⟨started, call, tired, mid, start, attempted, left, _⟩ := next_cases next
  have begun := Worker.framed_start turn.worker turn.arena.store
  have tried := Worker.framed_attempt frames turn.past started turn.arena
  have rested := Worker.framed_after_attempt tired mid.store call.ended
  rw [start] at begun
  rw [attempted] at tried
  rw [left] at rested
  exact (begun.trans tried).trans rested

theorem framed_reaches (frames : Worker.Frames execute) (reaches : Reaches execute turn after) :
    turn.Framed after :=
  reaches_keeps (turn.Framed ·) (fun _ _ next framed => framed.trans (framed_next frames next))
    reaches Worker.framed_refl

theorem framed_last (frames : Worker.Frames execute) {ran : Ran α ρ σ}
    (last : turn.Last execute ran) :
    Worker.Framed turn.worker turn.arena.store ran.worker ran.arena.store := by
  cases last with
  | broken misuse worker start =>
      have begun := Worker.framed_start turn.worker turn.arena.store
      rwa [start] at begun
  | closed started tired worker call mid result store start attempted left =>
      have begun := Worker.framed_start turn.worker turn.arena.store
      have tried := Worker.framed_attempt frames turn.past started turn.arena
      have rested := Worker.framed_after_attempt tired mid.store call.ended
      rw [start] at begun
      rw [attempted] at tried
      rw [left] at rested
      exact (begun.trans tried).trans rested
  | spent after next =>
      obtain ⟨settings, capacity, size, ids⟩ := framed_next frames next
      exact ⟨settings, capacity, size, ids⟩

theorem framed_run (frames : Worker.Frames execute) (retries : Nat) (turn : Turn α ρ σ) :
    Worker.Framed turn.worker turn.arena.store (turn.run execute retries).worker
      (turn.run execute retries).arena.store := by
  obtain ⟨last, reaches, ended⟩ := run_ends retries turn
  exact (framed_reaches frames reaches).trans (framed_last frames ended)

end Turn

variable {α ρ σ : Type}

-- Others may do anything to records, except for their identifiers.
def Perform.KeepsIds (perform : Perform α ρ σ) : Prop :=
  ∀ action outside store, (perform action outside store).2.2.ids = store.ids

theorem Ran.ids_settled (ran : Ran α ρ σ) (seat : Nat) :
    (ran.settled seat).store.ids = ran.arena.store.ids := by
  unfold settled
  split
  · rfl
  · rfl
  · exact Store.ids_of_bare (CurrentList.framed_release_all _ _).bare
  · rfl

theorem ids_of_nested {execute : List (Call α ρ) → Worker → Arena σ → Executed α ρ σ}
    (frames : Worker.Frames execute) (worker : Worker) (arena : Arena σ) (seat : Nat) :
    ((worker.runWith execute arena).settled seat).store.ids = arena.store.ids :=
  (Ran.ids_settled _ seat).trans
    (Turn.framed_run frames worker.settings.maxRetries.toNat ⟨[], worker, arena⟩).ids

theorem framed_execute (table : Table) {perform : Perform α ρ σ} (keeps : perform.KeepsIds)
    (body : Body α ρ) (worker : Worker) (arena : Arena σ) :
    Worker.Framed worker arena.store (body.execute table perform worker arena).worker
      (body.execute table perform worker arena).arena.store := by
  have obeyed : Body.Obeyed table perform fun worker arena _ after last =>
      Worker.Framed worker arena.store after last.store := {
    nothing := fun _ _ => Worker.framed_refl
    both := fun first rest => first.trans rest
    read := by
      intro worker arena key answer
      change Worker.Framed worker arena.store (worker.readKey table key arena.store).2.1
        (worker.readKey table key arena.store).2.2
      unfold Worker.readKey
      split
      · exact Worker.framed_read _ _ _
      · exact Worker.framed_refl
    write := by
      intro worker arena key value answer
      change Worker.Framed worker arena.store (worker.writeKey table key value arena.store).2 arena.store
      unfold Worker.writeKey
      split
      · exact Worker.framed_write _ _ _ _
      · exact Worker.framed_refl
    act := fun _ arena action => ⟨rfl, rfl, rfl, keeps action arena.outside arena.store⟩
    away := fun _ _ _ => Worker.framed_refl
    ran := fun _ arena seat other _ frames _ =>
      ⟨rfl, rfl, rfl, ids_of_nested frames other (arena.setSeat seat none) seat⟩ }
  exact obeyed.execute body worker arena

end LockOrder
