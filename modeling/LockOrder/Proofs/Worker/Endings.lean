import LockOrder.Proofs.Worker.Alike
import LockOrder.Proofs.Worker.Commit
import LockOrder.Proofs.Worker.Execution
import LockOrder.Proofs.Worker.Sound

set_option autoImplicit false

namespace LockOrder

variable {α ρ σ : Type}

def Outcome.isOk {β : Type} : Outcome β → Bool
  | .ok _ => true
  | _ => false

-- The outcome may be better if the same is tried again.
def Outcome.IsLost {β : Type} (outcome : Outcome β) : Prop :=
  outcome = .fault .conflict ∨ outcome = .fault .raceAbort

theorem Outcome.IsLost.is_ok {β : Type} {outcome : Outcome β} (lost : outcome.IsLost) :
    outcome.isOk = false := by
  rcases lost with rfl | rfl <;> rfl

theorem Outcome.is_lost_iff {β : Type} (fault : Fault) :
    (Outcome.fault fault : Outcome β).IsLost ↔ fault.isRetryable = true := by
  cases fault <;> simp [IsLost, Fault.isRetryable]

namespace Statistics

def counting (ends : List (Outcome UInt64)) : Statistics :=
  ⟨.ofNat (ends.countP Outcome.isOk), .ofNat (ends.count (.fault .raceAbort)),
    .ofNat (ends.count (.fault .conflict))⟩

theorem counting_append (ends more : List (Outcome UInt64)) :
    counting (ends ++ more) = (counting ends).plus (counting more) := by
  simp [counting, plus, UInt64.ofNat_add]

theorem plus_assoc (a b c : Statistics) : (a.plus b).plus c = a.plus (b.plus c) := by
  simp [plus, UInt64.add_assoc]

end Statistics

namespace Worker

theorem commit_loses (worker : Worker) (store : Store) (fault : Fault)
    (failed : (worker.commit store).1 = .fault fault) : fault.isRetryable = true := by
  have races := secure_only_races worker store
  rw [commit] at failed
  generalize worker.secure store = result at races failed
  obtain ⟨outcome, secured, next⟩ := result
  cases outcome with
  | ok _ =>
      simp only [settle] at failed
      split at failed <;> cases failed
      rfl
  | fault why =>
      cases failed
      rw [races fault rfl]
      rfl
  | misuse why => cases failed
  | waiting id => cases failed

-- How an attempt ends whose body has returned: with the outcome of the body, unless that is a value
-- that the worker fails to commit.
inductive Closes (worker : Worker) (store : Store) : Outcome UInt64 → Outcome UInt64 → Prop where
  | committed (value : UInt64) (committed : (worker.commit store).1 = .ok ()) :
      Closes worker store (.ok value) (.ok value)
  | refused (value : UInt64) (fault : Fault) (refused : (worker.commit store).1 = .fault fault)
      (lost : fault.isRetryable = true) : Closes worker store (.ok value) (.fault fault)
  | failed (fault : Fault) : Closes worker store (.fault fault) (.fault fault)

theorem Closes.returned_ok {worker : Worker} {store : Store} {returned ended : Outcome UInt64}
    (closes : worker.Closes store returned ended) (value : UInt64) (ok : ended = .ok value) :
    returned = .ok value := by
  cases closes with
  | committed _ _ => exact ok
  | refused _ _ _ _ => cases ok
  | failed _ => cases ok

theorem Closes.returned_fault {worker : Worker} {store : Store} {returned ended : Outcome UInt64}
    (closes : worker.Closes store returned ended) (fault : Fault) (failed : ended = .fault fault)
    (whole : ¬ ended.IsLost) : returned = .fault fault ∧ fault.isRetryable = false := by
  have final : fault.isRetryable = false := by
    rw [failed, Outcome.is_lost_iff] at whole
    exact Bool.eq_false_iff.mpr whole
  cases closes with
  | committed _ _ => cases failed
  | refused _ why _ lost => exact absurd ((Outcome.is_lost_iff why).mpr lost) whole
  | failed _ => exact ⟨failed, final⟩

theorem conclude_closes (executed : Executed α ρ σ) (closed : (conclude executed).1.isOver = true) :
    executed.worker.Closes executed.arena.store executed.outcome (conclude executed).1 := by
  obtain ⟨events, outcome, worker, arena⟩ := executed
  cases outcome with
  | ok value =>
      have ended : (conclude (⟨events, .ok value, worker, arena⟩ : Executed α ρ σ)).1 =
          (worker.commit arena.store).1.map fun () => value := rfl
      rw [ended] at closed ⊢
      have loses := commit_loses worker arena.store
      cases commits : (worker.commit arena.store).1 with
      | ok _ => exact .committed value commits
      | fault fault => exact .refused value fault commits (loses fault commits)
      | misuse misuse =>
          rw [commits] at closed
          cases closed
      | waiting id =>
          rw [commits] at closed
          cases closed
  | fault fault => exact .failed fault
  | misuse misuse => cases closed
  | waiting id => cases closed

section Frame

variable (worker : Worker) (store : Store)

theorem stats_saw_version (lock : LockRef) (content : UInt64 × UInt64) :
    (worker.sawVersion lock content).2.stats = worker.stats := by
  rw [sawVersion]
  split <;> rfl

theorem stats_read (lock : LockRef) : (worker.read lock store).2.1.stats = worker.stats := by
  rw [read]
  split
  · rfl
  · split
    · rw [readLocked]
      split
      · rfl
      · split
        · exact stats_saw_version _ lock _
        · rfl
        · rfl
        · rfl
    · rw [readOptimistic]
      split
      · exact stats_saw_version worker lock _
      · rfl

theorem stats_read_key (table : Table) (key : UInt64) :
    (worker.readKey table key store).2.1.stats = worker.stats := by
  rw [readKey]
  split
  · exact stats_read worker store _
  · rfl

theorem stats_write_key (table : Table) (key value : UInt64) :
    (worker.writeKey table key value store).2.stats = worker.stats := by
  rw [writeKey]
  split
  · rw [write]
    split <;> rfl
  · rfl

theorem stats_installs (writes : List WriteAccess) (worker : Worker) (store : Store) :
    (writes.foldl install (worker, store)).1.stats = worker.stats := by
  induction writes generalizing worker store with
  | nil => rfl
  | cons write rest ih => exact ih _ _

theorem stats_secure : (worker.secure store).2.1.stats = worker.stats := by
  rw [secure]
  split
  · rfl
  · split <;> rfl

theorem stats_commit : (worker.commit store).2.1.stats = worker.stats := by
  have secured := stats_secure worker store
  rw [commit]
  generalize worker.secure store = result at secured
  obtain ⟨outcome, after, next⟩ := result
  cases outcome with
  | ok _ =>
      simp only [settle]
      split
      · exact secured
      · exact (stats_installs _ after next).trans secured
  | fault _ => exact secured
  | misuse _ => exact secured
  | waiting _ => exact secured

theorem stats_start : worker.start.2.stats = worker.stats := by
  rw [start]
  simp only
  split
  · split <;> rfl
  · rfl

theorem stats_conclude (executed : Executed α ρ σ) :
    (conclude executed).2.1.stats = executed.worker.stats := by
  rw [conclude]
  split
  · exact stats_commit executed.worker executed.arena.store
  · rfl

theorem stats_abort (fault : Fault) :
    (worker.abort fault store).2.1.stats = (worker.countAbort fault).stats := by
  have released : ((worker.countAbort fault).releaseLocks store).1.stats =
      (worker.countAbort fault).stats := rfl
  rw [abort]
  generalize (worker.countAbort fault).releaseLocks store = result at released ⊢
  obtain ⟨after, next⟩ := result
  simp only
  split <;> exact released

theorem stats_finish : (worker.finish store).1.stats = worker.stats := by
  simp [finish, releaseLocks, clearAttempt, forget, require]

theorem stats_count_commit (value : UInt64) :
    worker.countCommit.stats = worker.stats.plus (.counting [.ok value]) := by
  simp [countCommit, Statistics.plus, Statistics.counting, Outcome.isOk]

theorem stats_count_abort (fault : Fault) (lost : fault.isRetryable = true) :
    (worker.countAbort fault).stats = worker.stats.plus (.counting [.fault fault]) := by
  cases fault with
  | conflict => simp [countAbort, Statistics.plus, Statistics.counting, Outcome.isOk]
  | raceAbort => simp [countAbort, Statistics.plus, Statistics.counting, Outcome.isOk]
  | _ => cases lost

theorem stats_after_attempt (ended : Outcome UInt64) :
    (worker.afterAttempt store ended).2.1.stats = worker.stats.plus (.counting [ended]) := by
  cases ended with
  | ok value =>
      rw [← stats_finish worker store]
      exact stats_count_commit (worker.finish store).1 value
  | fault fault =>
      rw [afterAttempt]
      by_cases lost : fault.isRetryable = true
      · have kept := (stats_abort worker store fault).trans (stats_count_abort worker fault lost)
        rw [if_pos lost]
        generalize worker.abort fault store = result at kept ⊢
        obtain ⟨aborted, after, next⟩ := result
        cases aborted <;> exact kept
      · have nothing : Statistics.counting [.fault fault] = {} := by
          cases fault with
          | conflict => exact absurd rfl lost
          | raceAbort => exact absurd rfl lost
          | _ => simp [Statistics.counting, Outcome.isOk]
        rw [if_neg lost, nothing, Statistics.plus_nothing]
        exact stats_finish worker store
  | misuse why =>
      have nothing : Statistics.counting [.misuse why] = {} := by
        simp [Statistics.counting, Outcome.isOk]
      rw [nothing, Statistics.plus_nothing]
      rfl
  | waiting id =>
      have nothing : Statistics.counting [.waiting id] = {} := by
        simp [Statistics.counting, Outcome.isOk]
      rw [nothing, Statistics.plus_nothing]
      rfl

theorem after_attempt_cases (ended : Outcome UInt64) :
    ((worker.afterAttempt store ended).1 = none → ended.IsLost) ∧
    ∀ result, (worker.afterAttempt store ended).1 = some result → result.isOver = true →
      ¬ ended.IsLost ∧ result = ended := by
  cases ended with
  | ok value =>
      refine ⟨fun again => (by cases again), fun result left _ => ?_⟩
      cases left
      exact ⟨fun lost => (by rcases lost with lost | lost <;> cases lost), rfl⟩
  | fault fault =>
      rw [afterAttempt]
      by_cases lost : fault.isRetryable = true
      · rw [if_pos lost]
        refine ⟨fun _ => (Outcome.is_lost_iff fault).mpr lost, fun result left closed => ?_⟩
        generalize worker.abort fault store = aborted at left
        obtain ⟨done, after, next⟩ := aborted
        cases done with
        | ok _ => cases left
        | error misuse =>
            cases left
            cases closed
      · rw [if_neg lost]
        refine ⟨fun again => (by cases again), fun result left _ => ?_⟩
        cases left
        exact ⟨fun again => lost ((Outcome.is_lost_iff fault).mp again), rfl⟩
  | misuse misuse =>
      refine ⟨fun again => (by cases again), fun result left closed => ?_⟩
      cases left
      cases closed
  | waiting id =>
      refine ⟨fun again => (by cases again), fun result left closed => ?_⟩
      cases left
      cases closed

end Frame

def Uncounted (execute : List (Call α ρ) → Worker → Arena σ → Executed α ρ σ) : Prop :=
  ∀ past worker arena, (execute past worker arena).worker.stats = worker.stats

theorem uncounted_transaction (table : Table) (perform : Perform α ρ σ) (transaction : Transaction α ρ) :
    Uncounted fun past => (transaction past).execute table perform := by
  have obeyed : Body.Obeyed table perform fun worker _ _ after _ => after.stats = worker.stats :=
    { nothing := fun _ _ => rfl
      both := fun first rest => rest.trans first
      read := fun worker arena key => stats_read_key worker arena.store table key
      write := fun worker arena key value => stats_write_key worker arena.store table key value
      act := fun _ _ _ => rfl
      away := fun _ _ _ => rfl
      ran := fun _ _ _ _ _ _ _ => rfl }
  exact fun past => obeyed.execute (transaction past)

end Worker

end LockOrder
