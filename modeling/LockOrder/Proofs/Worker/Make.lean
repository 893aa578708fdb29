import LockOrder.Proofs.Worker.Alike
import LockOrder.Proofs.Worker.Frame

set_option autoImplicit false

namespace LockOrder

namespace CurrentList

def make (list : CurrentList) : Nat × UInt32 := (list.buffer.cells.size, list.spins)

variable {list after : CurrentList}

@[simp] theorem make_require (kept : Bool) (breach : Breach) :
    (list.require kept breach).make = list.make := by
  cases kept <;> rfl

theorem make_with_buffer (list : CurrentList) (buffer : Buffer)
    (size : buffer.cells.size = list.buffer.cells.size) : make { list with buffer } = list.make :=
  Prod.ext size rfl

theorem make_get_or_add (lock : LockRef) (mode : Mode) (pos : Nat)
    (added : list.getOrAdd lock mode = .ok (pos, after)) : after.make = list.make := by
  apply Prod.ext (size_get_or_add lock mode pos added)
  simp only [getOrAdd] at added
  split at added <;> cases added
  rfl

theorem make_merge_writes (writes : List WriteAccess) (merged : list.mergeWrites writes = .ok after) :
    after.make = list.make := by
  apply Prod.ext (size_merge_writes writes merged)
  simp only [mergeWrites] at merged
  split at merged <;> cases merged
  rfl

theorem make_seed (retro : RetroList) (seeded : list.seed retro = .ok after) :
    after.make = list.make := by
  apply Prod.ext (size_seed retro seeded)
  simp only [seed] at seeded
  split at seeded
  · cases seeded
  · split at seeded <;> cases seeded
    rfl

theorem make_acquire_through (list : CurrentList) (last : Nat) (store : Store) :
    (list.acquireThrough last store).2.1.make = list.make := by
  apply Prod.ext (framed_acquire_through list last store).size
  rw [acquireThrough]
  cases list.buffer.holds last with
  | true => exact (Acquisition.steady_steps _ 1 last).spins
  | false => rfl

theorem spins_give_back (entries : List Entry) (list : CurrentList) (store : Store) :
    (entries.foldl giveBack (list, store)).1.spins = list.spins := by
  induction entries generalizing list store with
  | nil => rfl
  | cons entry rest ih =>
      rw [List.foldl_cons]
      rcases entry with ⟨_ | lock, preferred, taken, _ | handle⟩
      · exact ih list store
      · exact ih list store
      · exact ih list store
      · refine (ih _ _).trans ?_
        exact congrArg Prod.snd (make_require _ _)

theorem make_release_all (list : CurrentList) (store : Store) :
    (list.releaseAll store).1.make = list.make :=
  Prod.ext (framed_release_all list store).size (spins_give_back _ list store)

end CurrentList

namespace RetroList

theorem size_append (buffer next : Buffer) (entries : List Entry)
    (appended : append buffer entries = some next) : next.cells.size = buffer.cells.size := by
  induction entries generalizing buffer with
  | nil =>
      cases appended
      rfl
  | cons entry rest ih =>
      rw [append, Buffer.push] at appended
      by_cases free : buffer.active < buffer.capacity
      · rw [if_pos free] at appended
        simpa using ih _ appended
      · rw [if_neg free] at appended
        cases appended

theorem size_construct (list after : RetroList) (sets : AccessSets) (threshold : UInt32)
    (store : Store) (built : list.construct sets threshold store = .ok after) :
    after.buffer.cells.size = list.buffer.cells.size := by
  rw [construct] at built
  cases appended : append list.reset.buffer (needed sets threshold store) with
  | none =>
      rw [appended] at built
      cases built
  | some buffer =>
      have size : buffer.cells.size = list.buffer.cells.size := by
        rw [size_append _ buffer _ appended]
        simp [reset, Buffer.clear]
      simp only [appended] at built
      split at built
      · cases built
        exact size
      · split at built <;> cases built <;> simpa [Buffer.fill] using size

end RetroList

namespace Settings

theorem valid_iff (settings : Settings) :
    settings.validate = .ok () ↔
      0 < settings.maxAccesses.toNat ∧ settings.maxAccesses.toNat * 4 < UInt32.size := by
  have largest : largestMaxAccesses.toNat = 1073741823 := by decide
  have size : UInt32.size = 4294967296 := rfl
  have none : settings.maxAccesses = 0 ↔ settings.maxAccesses.toNat = 0 := UInt32.toNat_inj.symm
  have many := UInt32.lt_iff_toNat_lt (a := largestMaxAccesses) (b := settings.maxAccesses)
  rw [validate]
  by_cases wrong : settings.maxAccesses = 0 ∨ largestMaxAccesses < settings.maxAccesses
  · rw [if_pos wrong]
    rw [none, many] at wrong
    simp only [reduceCtorEq, false_iff]
    omega
  · rw [if_neg wrong]
    rw [none, many] at wrong
    simp only [true_iff]
    omega

-- The product fits into its word, so nothing is cut off.
theorem list_capacity (settings : Settings) (valid : settings.validate = .ok ()) :
    settings.listCapacity.toNat = 4 * settings.maxAccesses.toNat := by
  have fits := (valid_iff settings).mp valid
  have size : UInt32.size = 4294967296 := rfl
  rw [listCapacity, Nat.min_eq_left (by omega), UInt32.toNat_ofNat_of_lt' fits.2, Nat.mul_comm]

end Settings

namespace Worker

structure Make where
  settings : Settings
  list : Nat × UInt32
  retro : Nat
  accesses : Nat
deriving DecidableEq

def make (worker : Worker) : Make :=
  ⟨worker.settings, worker.list.make, worker.retro.buffer.cells.size, worker.sets.capacity⟩

theorem make_of_settings (settings : Settings) (worker : Worker)
    (made : ofSettings settings = .ok worker) :
    settings.validate = .ok () ∧
      worker.make = ⟨settings, (4 * settings.maxAccesses.toNat + 1, settings.tryLockSpins),
        4 * settings.maxAccesses.toNat + 1, settings.maxAccesses.toNat⟩ := by
  rw [ofSettings] at made
  split at made
  · cases made
  · rename_i valid
    cases made
    refine ⟨valid, ?_⟩
    simp [make, CurrentList.make, CurrentList.ofCapacity, RetroList.ofCapacity, Buffer.ofCapacity,
      settings.list_capacity valid]

theorem make_with_list (worker : Worker) (list : CurrentList) (same : list.make = worker.list.make) :
    make { worker with list } = worker.make := by
  rw [make, make, same]

@[simp] theorem make_require (worker : Worker) (kept : Bool) (breach : Breach) :
    (worker.require kept breach).make = worker.make :=
  make_with_list worker _ (CurrentList.make_require kept breach)

theorem make_with_sets (worker : Worker) (sets : AccessSets)
    (same : sets.capacity = worker.sets.capacity) : make { worker with sets } = worker.make := by
  rw [make, make, same]

theorem make_with_retro (worker : Worker) (retro : RetroList)
    (same : retro.buffer.cells.size = worker.retro.buffer.cells.size) :
    make { worker with retro } = worker.make := by
  rw [make, make, same]

theorem make_start (worker : Worker) : worker.start.2.make = worker.make := by
  have cleared := make_with_sets worker worker.sets.clear rfl
  rw [start_eq]
  generalize { worker with sets := worker.sets.clear } = ready at cleared ⊢
  simp only
  split
  · have logged := make_require ready ready.isGoodSeed .badSeed
    rw [seeded]
    split
    · rename_i list seeded
      exact (make_with_list _ list (CurrentList.make_seed _ seeded)).trans (logged.trans cleared)
    · exact logged.trans cleared
  · exact cleared

theorem make_release_locks (worker : Worker) (store : Store) :
    (worker.releaseLocks store).1.make = worker.make :=
  make_with_list worker _ (CurrentList.make_release_all worker.list store)

theorem make_clear_attempt (worker : Worker) : worker.clearAttempt.make = worker.make := by
  have logged := make_require worker (!worker.list.isHolding) .resetHolding
  refine Eq.trans (make_with_list _ _ ?_) logged
  exact CurrentList.make_with_buffer _ _ (by simp [Buffer.clear])

theorem make_forget (worker : Worker) : worker.forget.make = worker.make :=
  make_with_retro worker _ (by simp [RetroList.reset, Buffer.clear])

theorem make_finish (worker : Worker) (store : Store) : (worker.finish store).1.make = worker.make :=
  (make_forget _).trans ((make_clear_attempt _).trans (make_release_locks worker store))

theorem make_count_abort (worker : Worker) (fault : Fault) :
    (worker.countAbort fault).make = worker.make := by
  rw [countAbort]
  split <;> rfl

theorem make_abort (worker : Worker) (fault : Fault) (store : Store) :
    (worker.abort fault store).2.1.make = worker.make := by
  have released := (make_release_locks (worker.countAbort fault) store).trans
    (make_count_abort worker fault)
  rw [abort_eq]
  generalize (worker.countAbort fault).releaseLocks store = left at released
  simp only
  split
  · exact released
  · rename_i retro kept
    refine Eq.trans (make_with_retro _ retro ?_) ((make_clear_attempt left.1).trans released)
    rw [remembered] at kept
    split at kept
    · exact RetroList.size_construct _ retro _ _ _ kept
    · cases kept
      rfl

theorem make_after_attempt (worker : Worker) (store : Store) (ended : Outcome UInt64) :
    (worker.afterAttempt store ended).2.1.make = worker.make := by
  cases ended with
  | ok value => exact make_finish worker store
  | misuse misuse => rfl
  | waiting id => rfl
  | fault fault =>
      have aborted := make_abort worker fault store
      rw [afterAttempt]
      generalize worker.abort fault store = result at aborted
      obtain ⟨done, left, next⟩ := result
      cases fault.isRetryable with
      | false => exact make_finish worker store
      | true => cases done <;> exact aborted

theorem make_saw_version (worker : Worker) (lock : LockRef) (content : UInt64 × UInt64) :
    (worker.sawVersion lock content).2.make = worker.make := by
  rw [sawVersion]
  split
  · rename_i sets added
    rw [AccessSets.addRead] at added
    split at added <;> cases added
    rfl
  · rfl

theorem make_read (worker : Worker) (lock : LockRef) (store : Store) :
    (worker.read lock store).2.1.make = worker.make := by
  rw [read]
  split
  · rfl
  · split
    · rw [readLocked]
      split
      · rfl
      · rename_i pos list added
        have acquired := (CurrentList.make_acquire_through list pos store).trans
          (CurrentList.make_get_or_add lock .shared pos added)
        generalize list.acquireThrough pos store = result at acquired
        obtain ⟨outcome, list, next⟩ := result
        have same := make_with_list worker list acquired
        cases outcome with
        | ok _ => exact (make_saw_version _ lock _).trans same
        | fault _ => exact same
        | misuse _ => exact same
        | waiting _ => exact same
    · rw [readOptimistic]
      split
      · exact make_saw_version worker lock _
      · rfl

theorem make_write (worker : Worker) (lock : LockRef) (value : UInt64) :
    (worker.write lock value).2.make = worker.make := by
  rw [write]
  split
  · rename_i sets added
    rw [AccessSets.addWrite] at added
    split at added <;> cases added
    rfl
  · rfl

theorem make_secure (worker : Worker) (store : Store) :
    (worker.secure store).2.1.make = worker.make := by
  have sorted := make_with_sets worker worker.sets.sortWrites rfl
  have logged := (make_require _ worker.sets.sortWrites.writesAscend .unsortedWrites).trans sorted
  rw [secure_eq, secureSorted]
  simp only
  split
  · exact logged
  · rename_i list merged
    have grown := CurrentList.make_merge_writes _ merged
    split
    · exact (make_with_list _ list grown).trans logged
    · refine (make_with_list _ _ ?_).trans logged
      exact (CurrentList.make_acquire_through list _ store).trans grown

theorem make_installs (writes : List WriteAccess) (worker : Worker) (store : Store) :
    (writes.foldl install (worker, store)).1.make = worker.make := by
  induction writes generalizing worker store with
  | nil => rfl
  | cons write rest ih => exact (ih _ _).trans (make_require worker _ _)

theorem make_commit (worker : Worker) (store : Store) :
    (worker.commit store).2.1.make = worker.make := by
  have secured := make_secure worker store
  rw [commit]
  generalize worker.secure store = result at secured
  obtain ⟨outcome, after, next⟩ := result
  cases outcome with
  | ok _ =>
      simp only [settle]
      split
      · exact secured
      · exact (make_installs _ after next).trans secured
  | fault _ => exact secured
  | misuse _ => exact secured
  | waiting _ => exact secured

end Worker

variable {α ρ σ : Type}

theorem make_execute (table : Table) (perform : Perform α ρ σ) (body : Body α ρ) (worker : Worker)
    (arena : Arena σ) : (body.execute table perform worker arena).worker.make = worker.make := by
  have obeyed : Body.Obeyed table perform fun worker _ _ after _ => after.make = worker.make := {
    nothing := fun _ _ => rfl
    both := fun first rest => rest.trans first
    read := by
      intro worker arena key answer
      change (worker.readKey table key arena.store).2.1.make = worker.make
      rw [Worker.readKey]
      split
      · exact Worker.make_read _ _ _
      · rfl
    write := by
      intro worker arena key value answer
      change (worker.writeKey table key value arena.store).2.make = worker.make
      rw [Worker.writeKey]
      split
      · exact Worker.make_write _ _ _
      · rfl
    act := fun _ _ _ => rfl
    away := fun _ _ _ => rfl
    ran := fun _ _ _ _ _ _ _ => rfl }
  exact obeyed.execute body worker arena

namespace Worker

variable {execute : List (Call α ρ) → Worker → Arena σ → Executed α ρ σ}

theorem make_attempt (keeps : ∀ past worker arena, (execute past worker arena).worker.make = worker.make)
    (past : List (Call α ρ)) (worker : Worker) (arena : Arena σ) :
    (attempt execute past worker arena).2.1.make = worker.make := by
  have executed := keeps past worker arena
  rw [attempt, conclude]
  simp only
  split
  · exact (make_commit _ _).trans executed
  · exact executed

end Worker

namespace Turn

variable {execute : List (Call α ρ) → Worker → Arena σ → Executed α ρ σ} {turn after : Turn α ρ σ}

theorem make_turn (keeps : ∀ past worker arena, (execute past worker arena).worker.make = worker.make)
    {started tired left : Worker} {call : Call α ρ} {mid : Arena σ}
    {result : Option (Outcome UInt64)} {store : Store}
    (start : turn.worker.start = (.ok (), started))
    (attempted : Worker.attempt execute turn.past started turn.arena = (call, tired, mid))
    (ended : tired.afterAttempt mid.store call.ended = (result, left, store)) :
    left.make = turn.worker.make := by
  have begun := Worker.make_start turn.worker
  have tried := Worker.make_attempt keeps turn.past started turn.arena
  have rested := Worker.make_after_attempt tired mid.store call.ended
  rw [start] at begun
  rw [attempted] at tried
  rw [ended] at rested
  exact rested.trans (tried.trans begun)

theorem make_next (keeps : ∀ past worker arena, (execute past worker arena).worker.make = worker.make)
    (next : turn.next execute = some after) : after.worker.make = turn.worker.make := by
  obtain ⟨_, _, _, _, start, attempted, left, _⟩ := next_cases next
  exact make_turn keeps start attempted left

theorem make_last (keeps : ∀ past worker arena, (execute past worker arena).worker.make = worker.make)
    {ran : Ran α ρ σ} (last : turn.Last execute ran) : ran.worker.make = turn.worker.make := by
  cases last with
  | broken misuse worker start =>
      have begun := Worker.make_start turn.worker
      rwa [start] at begun
  | closed started tired worker call mid result store start attempted left =>
      exact make_turn keeps start attempted left
  | spent after next => exact (Worker.make_forget _).trans (make_next keeps next)

theorem make_reaches (keeps : ∀ past worker arena, (execute past worker arena).worker.make = worker.make)
    (reaches : Reaches execute turn after) : after.worker.make = turn.worker.make :=
  reaches_keeps (·.worker.make = turn.worker.make)
    (fun _ _ next same => (make_next keeps next).trans same) reaches rfl

end Turn

theorem Worker.make_run_with (table : Table) (perform : Perform α ρ σ) (transaction : Transaction α ρ)
    (worker : Worker) (arena : Arena σ) :
    (worker.runWith (fun past => (transaction past).execute table perform) arena).worker.make =
      worker.make := by
  let execute := fun past => (transaction past).execute table perform
  let first : Turn α ρ σ := ⟨[], worker, arena⟩
  obtain ⟨last, reaches, ended⟩ : ∃ last, Turn.Reaches execute first last ∧
      last.Last execute (first.run execute worker.settings.maxRetries.toNat) := Turn.run_ends _ _
  have keeps : ∀ past worker (arena : Arena σ), (execute past worker arena).worker.make = worker.make :=
    fun past => make_execute table perform (transaction past)
  exact (Turn.make_last keeps ended).trans (Turn.make_reaches keeps reaches)

end LockOrder
