import LockOrder.Proofs.Table.Start

set_option autoImplicit false

namespace LockOrder

open Mark

namespace Event

def conflictOf (call : Call Act Reply) : List Mark :=
  match call.returned, call.ended with
  | .ok _, .fault .conflict => [.heated none]
  | _, _ => []

def failuresOf (table : Table) (calls : List (Call Act Reply)) : List Mark :=
  calls.flatMap fun call => historyOf table call.events ++ conflictOf call

def othersOf (table : Table) (calls : List (Call Act Reply)) : List Mark :=
  calls.flatMap fun call => historyOf table call.events

theorem history_of_failures (table : Table) (calls : List (Call Act Reply))
    (failed : ∀ call ∈ calls, ∀ value, call.ended ≠ .ok value) :
    historyOfCalls table calls = failuresOf table calls := by
  induction calls with
  | nil => rfl
  | cons call rest ih =>
      obtain ⟨events, returned, ended⟩ := call
      have here : ending (accesses table events) returned ended =
          conflictOf ⟨events, returned, ended⟩ := by
        have own := failed ⟨events, returned, ended⟩ (by simp)
        cases ended with
        | ok value => exact absurd rfl (own value)
        | fault fault => cases returned <;> cases fault <;> rfl
        | misuse misuse => cases returned <;> rfl
        | waiting id => cases returned <;> rfl
      rw [historyOfCalls, here, ih fun other listed => failed other (by simp [listed])]
      rfl

theorem commits_of_failures (table : Table) (calls : List (Call Act Reply)) :
    commits (failuresOf table calls) = commits (othersOf table calls) := by
  induction calls with
  | nil => rfl
  | cons call rest ih =>
      have none : commits (conflictOf call) = [] := by
        unfold conflictOf
        split <;> rfl
      unfold failuresOf othersOf at ih ⊢
      rw [List.flatMap_cons, List.flatMap_cons, commits_append, commits_append, commits_append, ih,
        none, List.append_nil]

end Event

namespace Worker

variable {ids : List UInt64} {table : Table} {accesses : List Access}

-- The end of an attempt installs all that was written, each record once, or else nothing; only a
-- conflict may then have made a record hotter.
structure AllOrNothing (accesses : List Access) (returned ended : Outcome UInt64)
    (store next : Store) : Prop where
  all : ∀ value, ended = .ok value → next.bare = store.bare.commit accesses
  nothing : (∀ value, ended ≠ .ok value) → next.bare = store.bare ∨
    (ended = .fault .conflict ∧ (∃ value, returned = .ok value) ∧
      ∃ slot, next.bare = store.bare.bump slot)

theorem all_or_nothing_of_concludes {worker : Worker} {store next : Store}
    {returned ended : Outcome UInt64} (concludes : Concludes accesses worker store returned ended next) :
    AllOrNothing accesses returned ended store next := by
  cases concludes with
  | committed value next bare current => exact ⟨fun _ _ => bare, fun fails => absurd rfl (fails value)⟩
  | conflict value slot next bare =>
      exact ⟨fun _ ok => (by cases ok), fun _ => Or.inr ⟨rfl, ⟨value, rfl⟩, slot, bare⟩⟩
  | failed returned ended next bare silent fails =>
      exact ⟨fun value ok => absurd ok (fails value), fun _ => Or.inl bare⟩

def LeavesNoTrace (table : Table) (arena : Arena Outsiders) (worker : Worker)
    (body : Body Act Reply) : Prop :=
  let executed := body.execute table (Act.perform table) worker arena
  let (ended, after, next) := conclude executed
  let (_, left, last) := after.afterAttempt next ended
  -- Until the body has returned, all changes are those of others.
  Lead (Event.historyOf table executed.events) arena.store executed.arena.store ∧
    AllOrNothing (Event.accesses table executed.events) executed.outcome ended
      executed.arena.store next ∧
    last.bare = next.bare ∧
    (0 ∉ arena.store.ids → ended.isOver = true → left.list.isHolding = false)

theorem attempt_leaves_no_trace (different : ids.Nodup) (fits : table.Fits ids)
    (arena : Arena Outsiders) (sound : arena.Sound ids) (worker started : Worker)
    (idle : worker.Idle ids) (start : worker.start = (.ok (), started)) (body : Body Act Reply) :
    started.LeavesNoTrace table arena body := by
  obtain ⟨clean, empty, _⟩ := start_sound idle
  rw [start] at clean empty
  have told := execute_told different fits body [] started arena
    ⟨clean, AccessSets.records_empty _ empty⟩ sound
  unfold LeavesNoTrace
  generalize body.execute table (Act.perform table) started arena = executed at told
  have busy : executed.worker.Busy ids (Event.accesses table executed.events) := told.busy
  obtain ⟨concludes, kept, _⟩ := conclude_cases different executed busy told.sound.named
  simp only
  generalize conclude executed = result at concludes kept
  obtain ⟨ended, after, next⟩ := result
  have rested := after_attempt_rested after kept next ended
  refine ⟨told.tells.lead, all_or_nothing_of_concludes concludes, rested.bare, ?_⟩
  intro nonzero closed
  rw [sound.named] at nonzero
  obtain ⟨leaves, _⟩ := after_attempt_leaves kept next ended closed
  exact leaves.free nonzero

end Worker

namespace Ran

def Fails (past : List (Call Act Reply)) (ran : Ran Act Reply Outsiders) : Prop :=
  ∃ calls, ran.run.calls = past ++ calls ∧
    ((∀ value, ran.run.result ≠ .ok value) → ∀ call ∈ calls, ∀ value, call.ended ≠ .ok value)

theorem fails_nothing (past : List (Call Act Reply)) (ran : Ran Act Reply Outsiders)
    (same : ran.run.calls = past) : ran.Fails past :=
  ⟨[], by rw [same, List.append_nil], fun _ call listed => by cases listed⟩

theorem fails_after {past : List (Call Act Reply)} {ran : Ran Act Reply Outsiders}
    (call : Call Act Reply)
    (failed : (∀ value, ran.run.result ≠ .ok value) → ∀ value, call.ended ≠ .ok value)
    (rest : ran.Fails (past ++ [call])) : ran.Fails past := by
  obtain ⟨calls, same, later⟩ := rest
  refine ⟨call :: calls, by rw [same, List.append_assoc]; rfl, fun fails other listed => ?_⟩
  rcases List.mem_cons.mp listed with rfl | behind
  · exact failed fails
  · exact later fails other behind

end Ran

namespace Worker

variable {ids : List UInt64} {table : Table}

theorem call_fails (execute : Execution) (past : List (Call Act Reply)) (worker : Worker)
    (arena : Arena Outsiders)
    (again : List (Call Act Reply) → Worker → Arena Outsiders → Ran Act Reply Outsiders)
    (retried : ∀ calls worker arena, (again calls worker arena).Fails calls) :
    (callThen execute again past worker arena).Fails past := by
  unfold callThen
  obtain ⟨done, started⟩ := worker.start
  cases done with
  | error misuse => exact Ran.fails_nothing past _ rfl
  | ok _ =>
      simp only
      obtain ⟨call, tired, mid⟩ := attempt execute past started arena
      have ok : ∀ value, call.ended = .ok value →
          (tired.afterAttempt mid.store call.ended).1 = some (.ok value) := by
        intro value ended
        rw [ended]
        rfl
      simp only
      generalize tired.afterAttempt mid.store call.ended = left at ok
      obtain ⟨result, after, next⟩ := left
      cases result with
      | some result =>
          refine Ran.fails_after call (fun fails value ended => ?_) (Ran.fails_nothing _ _ rfl)
          exact fails value (Option.some.inj (ok value ended))
      | none =>
          refine Ran.fails_after call (fun _ value ended => ?_) (retried _ after _)
          cases ok value ended

theorem run_from_fails (execute : Execution) (retries : Nat) (past : List (Call Act Reply))
    (worker : Worker) (arena : Arena Outsiders) :
    (runFrom execute retries past worker arena).Fails past := by
  induction retries generalizing past worker arena with
  | zero =>
      rw [run_from_zero]
      exact call_fails execute past worker arena _ fun calls _ _ => Ran.fails_nothing calls _ rfl
  | succ retries ih =>
      rw [run_from_succ]
      exact call_fails execute past worker arena _ ih

end Worker

-- What a run has done if it did not succeed: others have changed what they have changed, each conflict
-- made one record hotter, and no lock is held unless the run waits for ever.
def Ran.LeavesNoTrace (table : Table) (arena : Arena Outsiders) (seat : Nat)
    (ran : Ran Act Reply Outsiders) : Prop :=
  (∀ value, ran.run.result ≠ .ok value) →
    Lead (Event.failuresOf table ran.run.calls) arena.store (ran.settled seat).store ∧
    (ran.settled seat).store.contents =
      arena.store.contents.replay (commits (Event.othersOf table ran.run.calls)) ∧
    (0 ∉ arena.store.ids → (∀ id, ran.run.result ≠ .waiting id) →
      Balanced arena.outside.tally arena.store (ran.settled seat).outside.tally
        (ran.settled seat).store)

theorem Ran.leaves_no_trace {table : Table} {arena : Arena Outsiders} {seat : Nat}
    {ran : Ran Act Reply Outsiders} (fails : ran.Fails [])
    (seated : Seated arena.store.ids table seat arena ran) : ran.LeavesNoTrace table arena seat := by
  intro failed
  obtain ⟨calls, same, none⟩ := fails
  have history : Event.historyOfCalls table ran.run.calls = Event.failuresOf table ran.run.calls := by
    rw [same]
    exact Event.history_of_failures table calls (none failed)
  have lead : Lead (Event.failuresOf table ran.run.calls) arena.store (ran.settled seat).store := by
    rw [← history]
    exact seated.tells.lead
  refine ⟨lead, ?_, seated.balanced⟩
  rw [← Event.commits_of_failures]
  exact contents_of_lead lead

theorem failures_leave_no_trace (table : Table) (workers : List Worker) (draws : Draws)
    (made : ∀ worker ∈ workers, ∃ settings, Worker.ofSettings settings = .ok worker)
    (moves : List Arena.Move) :
    let ids := Table.slotIds table.size
    (Arena.play table moves (Arena.ofTable table workers draws)).2.Sound ids ∧
    ∀ arena : Arena Outsiders, arena.Sound ids →
      (∀ (worker started : Worker) (body : Body Act Reply), worker.Idle ids →
        worker.start = (.ok (), started) → started.LeavesNoTrace table arena body) ∧
      (∀ (seat : Nat) (worker : Worker) (transaction : Transaction Act Reply),
        arena.worker seat = some worker →
          Ran.LeavesNoTrace table arena seat
            (worker.runWith (fun past => (transaction past).execute table (Act.perform table))
              (arena.setSeat seat none))) := by
  intro ids
  have different := Table.slot_ids_different table.size table.size_le
  have fits := table.fits_slot_ids
  obtain ⟨last, _, _⟩ := Arena.play_told different fits moves _
    (Arena.sound_of_table table workers draws made)
  refine ⟨last, fun arena sound => ⟨?_, ?_⟩⟩
  · intro worker started body idle start
    exact Worker.attempt_leaves_no_trace different fits arena sound worker started idle start body
  · intro seat worker transaction here
    have executes := executes_transaction different fits transaction
    have seated := seat_told different _ executes seat worker arena sound here
    have fails := Worker.run_from_fails (fun past => (transaction past).execute table (Act.perform table))
      worker.settings.maxRetries.toNat [] worker (arena.setSeat seat none)
    exact Ran.leaves_no_trace fails (sound.named ▸ seated)

-- The first attempt finds a conflict with somebody else's install, the second one gives up.
def giveUp : Transaction Act Reply := fun past =>
  .read 5 fun _ =>
    if past.isEmpty then .act (.install 5 7) fun _ => .done (.ok 0)
    else .write 5 9 fun _ => .done (.error .notFound)

def gaveUp : Ran Act Reply Outsiders :=
  Worker.small.runWith (fun past => (giveUp past).execute .single (Act.perform .single))
    ((Arena.ofTable .single [.small] {}).setSeat 0 none)

theorem gave_up_history : gaveUp.run.result = .fault .notFound ∧
    commits (Event.othersOf .single gaveUp.run.calls) = [[.write 0 7]] := by
  decide +kernel

theorem giving_up_leaves_the_install : (gaveUp.settled 0).store.contents = [(1, 7)] := by
  obtain ⟨result, others⟩ := gave_up_history
  obtain ⟨sound, fails⟩ := failures_leave_no_trace .single [.small] {} small_made []
  have failed : ∀ value, gaveUp.run.result ≠ .ok value := by
    intro value ok
    rw [result] at ok
    cases ok
  obtain ⟨_, contents, _⟩ := (fails (.ofTable .single [.small] {}) sound).2 0 .small giveUp rfl failed
  change (gaveUp.settled 0).store.contents =
    Contents.replay (commits (Event.othersOf .single gaveUp.run.calls)) _ at contents
  rw [others] at contents
  exact contents

end LockOrder
