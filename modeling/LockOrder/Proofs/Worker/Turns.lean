import LockOrder.Worker.Run
import Mathlib.Logic.Relation

set_option autoImplicit false

namespace LockOrder

structure Turn (α ρ σ : Type) where
  past : List (Call α ρ)
  worker : Worker
  arena : Arena σ

namespace Turn

variable {α ρ σ : Type}

def next (execute : List (Call α ρ) → Worker → Arena σ → Executed α ρ σ) (turn : Turn α ρ σ) :
    Option (Turn α ρ σ) :=
  match turn.worker.start with
  | (.error _, _) => none
  | (.ok (), worker) =>
      let (call, worker, arena) := Worker.attempt execute turn.past worker turn.arena
      match worker.afterAttempt arena.store call.ended with
      | (some _, _, _) => none
      | (none, worker, store) => some ⟨turn.past ++ [call], worker, arena.withStore store⟩

def Reaches (execute : List (Call α ρ) → Worker → Arena σ → Executed α ρ σ) :
    Turn α ρ σ → Turn α ρ σ → Prop :=
  Relation.ReflTransGen fun turn after => turn.next execute = some after

def run (execute : List (Call α ρ) → Worker → Arena σ → Executed α ρ σ) (retries : Nat)
    (turn : Turn α ρ σ) : Ran α ρ σ :=
  Worker.runFrom execute retries turn.past turn.worker turn.arena

variable {execute : List (Call α ρ) → Worker → Arena σ → Executed α ρ σ} {turn after : Turn α ρ σ}

theorem next_cases (next : turn.next execute = some after) :
    ∃ started call tired mid,
      turn.worker.start = (.ok (), started) ∧
      Worker.attempt execute turn.past started turn.arena = (call, tired, mid) ∧
      tired.afterAttempt mid.store call.ended = (none, after.worker, after.arena.store) ∧
      after.past = turn.past ++ [call] ∧ after.arena = mid.withStore after.arena.store := by
  unfold Turn.next at next
  split at next
  · cases next
  · rename_i started start
    split at next
    rename_i call tired mid attempted
    split at next
    · cases next
    · rename_i fresh store left
      cases next
      exact ⟨started, call, tired, mid, start, attempted, left, rfl, rfl⟩

theorem run_of_next (retries : Nat) (next : turn.next execute = some after) :
    turn.run execute (retries + 1) = after.run execute retries := by
  obtain ⟨started, call, tired, mid, start, attempted, left, past, arena⟩ := next_cases next
  unfold run
  rw [Worker.runFrom, start]
  simp only [attempted, left, past]
  rw [← arena]

-- How the last turn of a run ends: it cannot start its attempt, the attempt has a result, or there
-- is no retry left.
inductive Last (execute : List (Call α ρ) → Worker → Arena σ → Executed α ρ σ)
    (turn : Turn α ρ σ) : Ran α ρ σ → Prop where
  | broken (misuse : Misuse) (worker : Worker) (start : turn.worker.start = (.error misuse, worker)) :
      Last execute turn (Worker.leave turn.past (.misuse misuse) worker turn.arena)
  | closed (started tired worker : Worker) (call : Call α ρ) (mid : Arena σ)
      (result : Outcome UInt64) (store : Store) (start : turn.worker.start = (.ok (), started))
      (attempted : Worker.attempt execute turn.past started turn.arena = (call, tired, mid))
      (left : tired.afterAttempt mid.store call.ended = (some result, worker, store)) :
      Last execute turn
        (Worker.leave (turn.past ++ [call]) result worker (mid.withStore store))
  | spent (after : Turn α ρ σ) (next : turn.next execute = some after) :
      Last execute turn
        (Worker.leave after.past (.fault .retryLimitExceeded) after.worker.forget after.arena)

theorem last_of_end (retries : Nat) (ends : retries = 0 ∨ turn.next execute = none) :
    Last execute turn (turn.run execute retries) := by
  unfold run
  rw [Worker.runFrom.eq_def]
  rcases start : turn.worker.start with ⟨misuse | _, started⟩
  · simp only [start]
    exact .broken misuse started start
  · rcases attempted : Worker.attempt execute turn.past started turn.arena with ⟨call, tired, mid⟩
    rcases left : tired.afterAttempt mid.store call.ended with ⟨_ | result, worker, store⟩
    · have next : turn.next execute =
          some ⟨turn.past ++ [call], worker, mid.withStore store⟩ := by
        simp only [Turn.next, start, attempted, left]
      obtain rfl := ends.resolve_right fun none => by simp [next] at none
      simp only [start, attempted, left]
      exact .spent _ next
    · simp only [start, attempted, left]
      exact .closed started tired worker call mid result store start attempted left

theorem run_ends_within (retries : Nat) (turn : Turn α ρ σ) :
    ∃ last, Reaches execute turn last ∧ Last execute last (turn.run execute retries) ∧
      last.past.length ≤ turn.past.length + retries ∧
      ∀ after, last.next execute = some after → last.past.length = turn.past.length + retries := by
  induction retries generalizing turn with
  | zero => exact ⟨turn, .refl, last_of_end 0 (Or.inl rfl), Nat.le_refl _, fun _ _ => rfl⟩
  | succ retries ih =>
      cases next : turn.next execute with
      | none =>
          refine ⟨turn, .refl, last_of_end _ (Or.inr next), Nat.le_add_right _ _, fun after again => ?_⟩
          rw [next] at again
          cases again
      | some after =>
          obtain ⟨last, reaches, ended, within, spent⟩ := ih after
          obtain ⟨_, _, _, _, _, _, _, past, _⟩ := next_cases next
          rw [past, List.length_append, List.length_singleton, Nat.add_right_comm, Nat.add_assoc]
            at within spent
          rw [run_of_next retries next]
          exact ⟨last, .head next reaches, ended, within, spent⟩

theorem run_ends (retries : Nat) (turn : Turn α ρ σ) :
    ∃ last, Reaches execute turn last ∧ Last execute last (turn.run execute retries) := by
  obtain ⟨last, reaches, ended, _⟩ := @run_ends_within α ρ σ execute retries turn
  exact ⟨last, reaches, ended⟩

theorem reaches_keeps (holds : Turn α ρ σ → Prop)
    (step : ∀ turn after, turn.next execute = some after → holds turn → holds after)
    (reaches : Reaches execute turn after) (begins : holds turn) : holds after := by
  induction reaches with
  | refl => exact begins
  | tail _ next ih => exact step _ _ next ih

end Turn

end LockOrder
