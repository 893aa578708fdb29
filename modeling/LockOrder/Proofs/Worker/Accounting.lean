import LockOrder.Proofs.Table.Start
import LockOrder.Proofs.Worker.Endings
import LockOrder.Proofs.Worker.Turns

set_option autoImplicit false

namespace LockOrder

variable {α ρ σ : Type}

namespace Turn

variable {execute : List (Call α ρ) → Worker → Arena σ → Executed α ρ σ} {turn after : Turn α ρ σ}

def Plays (execute : List (Call α ρ) → Worker → Arena σ → Executed α ρ σ) (turn : Turn α ρ σ)
    (call : Call α ρ) : Prop :=
  ∃ started, turn.worker.start = (.ok (), started) ∧
    let executed := execute turn.past started turn.arena
    call.events = executed.events ∧ call.returned = executed.outcome ∧
      executed.worker.Closes executed.arena.store call.returned call.ended

theorem plays_of_attempt (uncounted : Worker.Uncounted execute) {started tired : Worker}
    {call : Call α ρ} {mid : Arena σ} (start : turn.worker.start = (.ok (), started))
    (attempted : Worker.attempt execute turn.past started turn.arena = (call, tired, mid))
    (closed : call.ended.isOver = true) :
    turn.Plays execute call ∧ tired.stats = turn.worker.stats := by
  have begun : started.stats = turn.worker.stats := by
    have kept := Worker.stats_start turn.worker
    rwa [start] at kept
  have kept := uncounted turn.past started turn.arena
  cases attempted
  exact ⟨⟨started, start, rfl, rfl, Worker.conclude_closes _ closed⟩,
    (Worker.stats_conclude _).trans (kept.trans begun)⟩

theorem next_plays (uncounted : Worker.Uncounted execute) (next : turn.next execute = some after) :
    ∃ call, after.past = turn.past ++ [call] ∧ turn.Plays execute call ∧ call.ended.IsLost ∧
      after.worker.stats = turn.worker.stats.plus (.counting [call.ended]) := by
  obtain ⟨started, call, tired, mid, start, attempted, left, past, _⟩ := next_cases next
  have lost := (Worker.after_attempt_cases tired mid.store call.ended).1 (by rw [left])
  have closed : call.ended.isOver = true := by rcases lost with lost | lost <;> rw [lost] <;> rfl
  obtain ⟨plays, kept⟩ := plays_of_attempt uncounted start attempted closed
  have counted := Worker.stats_after_attempt tired mid.store call.ended
  rw [left, kept] at counted
  exact ⟨call, past, plays, lost, counted⟩

structure Accounted (execute : List (Call α ρ) → Worker → Arena σ → Executed α ρ σ)
    (first : Turn α ρ σ) (calls : List (Call α ρ)) (stats : Statistics) : Prop where
  played : ∀ index call, calls[index]? = some call → ∃ turn, Reaches execute first turn ∧
    turn.past = calls.take index ∧ turn.Plays execute call
  stats : stats = first.worker.stats.plus (.counting (calls.map CallOf.ended))

variable {first : Turn α ρ σ}

theorem Accounted.call {calls : List (Call α ρ)} {stats : Statistics}
    (accounted : first.Accounted execute calls stats) (reached : Reaches execute first turn)
    (past : turn.past = calls) (call : Call α ρ) (plays : turn.Plays execute call) :
    first.Accounted execute (calls ++ [call]) (stats.plus (.counting [call.ended])) where
  played := by
    intro index other here
    rw [List.getElem?_append] at here
    split at here
    · rename_i old
      rw [List.take_append_of_le_length (Nat.le_of_lt old)]
      exact accounted.played index other here
    · rename_i new
      obtain ⟨rfl, rfl⟩ : index = calls.length ∧ call = other := by
        have last := List.getElem?_eq_some_iff.mp here
        simp only [List.length_cons, List.length_nil] at last
        obtain ⟨bound, same⟩ := last
        have index : index = calls.length := by omega
        subst index
        exact ⟨rfl, by simpa using same⟩
      rw [List.take_left]
      exact ⟨turn, reached, past, plays⟩
  stats := by
    rw [accounted.stats, Statistics.plus_assoc, ← Statistics.counting_append, List.map_append]
    rfl

theorem reaches_accounted (uncounted : Worker.Uncounted execute) (fresh : first.past = [])
    (reaches : Reaches execute first turn) :
    first.Accounted execute turn.past turn.worker.stats ∧ ∀ call ∈ turn.past, call.ended.IsLost := by
  induction reaches with
  | refl =>
      rw [fresh]
      exact ⟨⟨by simp, (Statistics.plus_nothing _).symm⟩, by simp⟩
  | tail reached next ih =>
      obtain ⟨accounted, lost⟩ := ih
      obtain ⟨call, past, plays, again, stats⟩ := next_plays uncounted next
      rw [past, stats]
      refine ⟨accounted.call reached rfl call plays, fun other listed => ?_⟩
      rcases List.mem_append.mp listed with old | new
      · exact lost other old
      · rwa [List.mem_singleton.mp new]

end Turn

namespace Worker

theorem toNat_retry {limit retries : UInt32} (more : ¬ limit ≤ retries) :
    (retries + 1).toNat = retries.toNat + 1 ∧ retries.toNat < limit.toNat := by
  have below := UInt32.lt_iff_toNat_lt.mp (UInt32.not_le.mp more)
  have bound := UInt32.toNat_lt limit
  rw [UInt32.toNat_add, UInt32.toNat_one, Nat.mod_eq_of_lt (by omega)]
  exact ⟨rfl, below⟩

-- The loop as it counts: `retries` is a word that goes up and is compared with the limit.
def runCounting (execute : List (Call α ρ) → Worker → Arena σ → Executed α ρ σ)
    (limit retries : UInt32) (past : List (Call α ρ)) (worker : Worker) (arena : Arena σ) :
    Ran α ρ σ :=
  match worker.start with
  | (.error misuse, worker) => leave past (.misuse misuse) worker arena
  | (.ok (), worker) =>
      let (call, worker, arena) := attempt execute past worker arena
      let calls := past ++ [call]
      match worker.afterAttempt arena.store call.ended with
      | (some result, worker, store) => leave calls result worker (arena.withStore store)
      | (none, worker, store) =>
          if limit ≤ retries then
            leave calls (.fault .retryLimitExceeded) worker.forget (arena.withStore store)
          else runCounting execute limit (retries + 1) calls worker (arena.withStore store)
termination_by limit.toNat - retries.toNat
decreasing_by
  rename_i more
  obtain ⟨count, below⟩ := toNat_retry more
  omega

theorem run_counting_eq (execute : List (Call α ρ) → Worker → Arena σ → Executed α ρ σ)
    (limit retries : UInt32) (past : List (Call α ρ)) (worker : Worker) (arena : Arena σ) :
    runCounting execute limit retries past worker arena =
      runFrom execute (limit.toNat - retries.toNat) past worker arena := by
  fun_induction runCounting execute limit retries past worker arena with
  | case1 retries past worker arena misuse started start =>
      rw [runFrom.eq_def]
      simp only [start]
  | case2 retries past worker arena started start call tired mid attempted calls result last store left =>
      rw [runFrom.eq_def]
      simp only [start, attempted, left]
      rfl
  | case3 retries past worker arena started start call tired mid attempted calls last store left spent =>
      have none : limit.toNat - retries.toNat = 0 := Nat.sub_eq_zero_of_le (UInt32.le_iff_toNat_le.mp spent)
      rw [none, runFrom]
      simp only [start, attempted, left]
      rfl
  | case4 retries past worker arena started start call tired mid attempted calls last store left more ih =>
      obtain ⟨count, below⟩ := toNat_retry more
      have one : limit.toNat - retries.toNat = limit.toNat - (retries + 1).toNat + 1 := by omega
      have next : Turn.next execute ⟨past, worker, arena⟩ = some ⟨calls, last, mid.withStore store⟩ := by
        simp only [Turn.next, start, attempted, left]
        rfl
      rw [ih, one]
      exact (Turn.run_of_next _ next).symm

end Worker

inductive Outcome.Settles (limit lost : Nat) (ended : Outcome UInt64) : Outcome UInt64 → Prop where
  | kept (whole : ¬ ended.IsLost) : Settles limit lost ended ended
  | givenUp (again : ended.IsLost) (all : lost = limit) :
      Settles limit lost ended (.fault .retryLimitExceeded)

namespace Outcome.Settles

variable {limit lost : Nat} {ended result : Outcome UInt64}

theorem ok_iff (settles : Settles limit lost ended result) (value : UInt64) :
    result = .ok value ↔ ended = .ok value := by
  cases settles with
  | kept whole => exact Iff.rfl
  | givenUp again all => rcases again with rfl | rfl <;> simp

theorem is_ok (settles : Settles limit lost ended result) : result.isOk = ended.isOk := by
  cases settles with
  | kept whole => rfl
  | givenUp again all => exact again.is_ok.symm

theorem not_lost (settles : Settles limit lost ended result) : ¬ result.IsLost := by
  cases settles with
  | kept whole => exact whole
  | givenUp again all => simp [IsLost]

end Outcome.Settles

structure Ran.Accounted (execute : List (Call α ρ) → Worker → Arena σ → Executed α ρ σ)
    (worker : Worker) (arena : Arena σ) (ran : Ran α ρ σ) (lost : List (Call α ρ))
    (last : Call α ρ) : Prop where
  -- The body is called once at least.
  calls : ran.run.calls = lost ++ [last]
  played : ∀ index call, ran.run.calls[index]? = some call →
    ∃ turn, Turn.Reaches execute ⟨[], worker, arena⟩ turn ∧
      turn.past = ran.run.calls.take index ∧ turn.Plays execute call
  within : lost.length ≤ worker.settings.maxRetries.toNat
  retried : ∀ call ∈ lost, call.ended.IsLost
  -- A value only from a body whose attempt has committed.
  succeeds : ∀ value, ran.run.result = .ok value ↔ last.returned = .ok value ∧ last.ended = .ok value
  final : ¬ ran.run.result.IsLost
  spent : last.ended.IsLost → lost.length = worker.settings.maxRetries.toNat ∧
    ran.run.result = .fault .retryLimitExceeded
  fails : ¬ last.ended.IsLost → ∀ fault, ran.run.result = .fault fault →
    last.returned = .fault fault ∧ fault.isRetryable = false
  commits : ran.run.stats.commits = worker.stats.commits + if ran.run.result.isOk then 1 else 0
  raceAborts : ran.run.stats.raceAborts =
    worker.stats.raceAborts + .ofNat (ran.run.calls.countP (CallOf.ended · == .fault .raceAbort))
  conflicts : ran.run.stats.conflicts =
    worker.stats.conflicts + .ofNat (ran.run.calls.countP (CallOf.ended · == .fault .conflict))
  kept : ran.worker.stats = ran.run.stats

theorem Ran.accounted_of_calls {execute : List (Call α ρ) → Worker → Arena σ → Executed α ρ σ}
    {worker : Worker} {arena : Arena σ} {ran : Ran α ρ σ} {lost : List (Call α ρ)} {last : Call α ρ}
    (calls : ran.run.calls = lost ++ [last]) (kept : ran.worker.stats = ran.run.stats)
    (accounted : Turn.Accounted execute ⟨[], worker, arena⟩ ran.run.calls ran.run.stats)
    (within : lost.length ≤ worker.settings.maxRetries.toNat)
    (retried : ∀ call ∈ lost, call.ended.IsLost)
    (settles : Outcome.Settles worker.settings.maxRetries.toNat lost.length last.ended ran.run.result) :
    ran.Accounted execute worker arena lost last := by
  obtain ⟨turn, _, _, plays⟩ := accounted.played lost.length last (by simp [calls])
  obtain ⟨started, _, _, _, closes⟩ := plays
  have stats := accounted.stats
  have early : (lost.map CallOf.ended).countP Outcome.isOk = 0 := by
    refine List.countP_eq_zero.mpr fun outcome listed => ?_
    obtain ⟨call, member, rfl⟩ := List.mem_map.mp listed
    simp [(retried call member).is_ok]
  refine
    { calls, played := accounted.played, within, retried, kept
      succeeds := fun value => ?_
      final := settles.not_lost
      spent := fun again => ?_
      fails := fun whole fault failed => ?_
      commits := ?_
      raceAborts := ?_
      conflicts := ?_ }
  · rw [settles.ok_iff]
    exact ⟨fun ok => ⟨closes.returned_ok value ok, ok⟩, And.right⟩
  · generalize ran.run.result = result at settles ⊢
    cases settles with
    | kept whole => exact absurd again whole
    | givenUp _ all => exact ⟨all, rfl⟩
  · generalize ran.run.result = result at settles failed
    cases settles with
    | kept _ => exact closes.returned_fault fault failed whole
    | givenUp again _ => exact absurd again whole
  · rw [stats, settles.is_ok, calls]
    cases ok : last.ended.isOk <;> simp [Statistics.plus, Statistics.counting, early, ok]
  · rw [stats]
    simp [Statistics.plus, Statistics.counting, List.count, List.countP_map, Function.comp_def]
  · rw [stats]
    simp [Statistics.plus, Statistics.counting, List.count, List.countP_map, Function.comp_def]

theorem attempts_are_accounted_for (table : Table) (perform : Perform α ρ σ)
    (transaction : Transaction α ρ) (worker : Worker) (arena : Arena σ) :
    let execute := fun past => (transaction past).execute table perform
    let ran := worker.runWith execute arena
    -- It makes no difference that the retries are counted in a word.
    ran = Worker.runCounting execute worker.settings.maxRetries 0 [] worker arena ∧
      (ran.run.result.isOver = true → ∃ lost last, ran.Accounted execute worker arena lost last) := by
  intro execute ran
  refine ⟨?_, fun closed => ?_⟩
  · rw [Worker.run_counting_eq]
    rfl
  have uncounted := Worker.uncounted_transaction table perform transaction
  obtain ⟨turn, reaches, ended, within, spent⟩ := @Turn.run_ends_within α ρ σ execute
    worker.settings.maxRetries.toNat ⟨[], worker, arena⟩
  obtain ⟨accounted, lost⟩ := Turn.reaches_accounted uncounted rfl reaches
  change Turn.Last execute turn ran at ended
  generalize ran = ran at ended closed
  simp only [List.length_nil, Nat.zero_add] at within spent
  cases ended with
  | broken misuse worker start => cases closed
  | closed started tired after call mid result store start attempted left =>
      obtain ⟨whole, rfl⟩ := (Worker.after_attempt_cases tired mid.store call.ended).2 result
        (by rw [left]) closed
      obtain ⟨plays, kept⟩ := Turn.plays_of_attempt uncounted start attempted closed
      have stats := Worker.stats_after_attempt tired mid.store call.ended
      rw [left, kept] at stats
      have account := accounted.call reaches rfl call plays
      rw [← stats] at account
      exact ⟨turn.past, call, Ran.accounted_of_calls rfl rfl account within lost (.kept whole)⟩
  | spent after next =>
      obtain ⟨call, past, plays, again, stats⟩ := Turn.next_plays uncounted next
      have account := accounted.call reaches rfl call plays
      rw [← stats, ← past] at account
      exact ⟨turn.past, call, Ran.accounted_of_calls past rfl account within lost
        (.givenUp again (spent after next))⟩

-- The first call gives up a race, the second one finds that somebody else has installed a value, and
-- the worker may not try a third time.
def unlucky : Transaction Act Reply := fun past =>
  if past.isEmpty then .done (.error .raceAbort)
  else .read 5 fun _ => .act (.install 5 7) fun _ => .done (.ok 0)

def Worker.impatient : Worker := { Worker.small with settings := { maxAccesses := 1, maxRetries := 1 } }

def outOfLuck : Ran Act Reply Outsiders :=
  Worker.impatient.runWith (fun past => (unlucky past).execute .single (Act.perform .single))
    (.ofTable .single [] {})

theorem unlucky_attempts_are_accounted_for :
    outOfLuck.run.result = .fault .retryLimitExceeded ∧ outOfLuck.run.stats = ⟨0, 1, 1⟩ ∧
      ∃ lost last, lost.length = 1 ∧ last.ended = .fault .conflict ∧
        outOfLuck.Accounted (fun past => (unlucky past).execute .single (Act.perform .single))
          .impatient (.ofTable .single [] {}) lost last := by
  have result : outOfLuck.run.result = .fault .retryLimitExceeded := by decide +kernel
  have ends : outOfLuck.run.calls.map CallOf.ended = [.fault .raceAbort] ++ [.fault .conflict] := by
    decide +kernel
  obtain ⟨lost, last, accounted⟩ := (attempts_are_accounted_for .single (Act.perform .single) unlucky
    .impatient (.ofTable .single [] {})).2 (by decide +kernel)
  have calls : outOfLuck.run.calls = lost ++ [last] := accounted.calls
  rw [calls, List.map_append] at ends
  obtain ⟨early, late⟩ := List.append_inj' ends rfl
  refine ⟨result, by decide +kernel, lost, last, ?_, List.head_eq_of_cons_eq late, accounted⟩
  simpa using congrArg List.length early

end LockOrder
