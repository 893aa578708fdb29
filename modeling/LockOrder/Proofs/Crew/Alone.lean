import LockOrder.Proofs.Crew.Fits
import Mathlib.Logic.Relation

set_option autoImplicit false

namespace LockOrder

-- The history without the places that are empty.
def filled (history : List (List Access)) : List (List Access) :=
  history.filter fun accesses => !accesses.isEmpty

theorem filled_append (first second : List (List Access)) :
    filled (first ++ second) = filled first ++ filled second :=
  List.filter_append ..

namespace Worker

variable {ids : List UInt64} {worker after : Worker} {store final : Store}

def givenBack (worker : Worker) (store : Store) : CurrentList × Store :=
  worker.list.entries.foldl CurrentList.giveBack (worker.list, store)

theorem rested_given_back (sound : worker.Sound ids) (nonzero : 0 ∉ ids) (store : Store) :
    (worker.releaseLocks store).1.clearAttempt =
        rested { worker with list := (worker.givenBack store).1 } ∧
      (worker.releaseLocks store).2 = (worker.givenBack store).2 := by
  have buffer := (CurrentList.give_back_fold worker.list.entries worker.list store sound.list.entries).1
  have released : worker.list.releaseAll store =
      ((worker.givenBack store).1.writeFreed 1 worker.list.entries, (worker.givenBack store).2) := by
    rw [CurrentList.releaseAll, CurrentList.releaseAfter, CurrentList.position_after_zero sound.list nonzero]
    rfl
  have entries : (worker.givenBack store).1.buffer.entriesFrom 1 = worker.list.entries :=
    congrArg (Buffer.entriesFrom · 1) buffer
  rw [releaseLocks, released, rested, entries]
  exact ⟨rfl, rfl⟩

theorem count_abort_stats (worker : Worker) (fault : Fault) :
    ∃ stats, ∀ list, countAbort { worker with list } fault = { worker with list, stats } := by
  by_cases race : fault = .raceAbort
  · simp only [countAbort, if_pos race]
    exact ⟨_, fun list => rfl⟩
  · simp only [countAbort, if_neg race]
    exact ⟨_, fun list => rfl⟩

theorem rested_after_abort (sound : worker.Sound ids) (nonzero : 0 ∉ ids) {fault : Fault}
    (retry : fault.isRetryable = true) (done : worker.abort fault store = (.ok (), after, final)) :
    restedAfter { worker with list := (worker.givenBack store).1 } (worker.givenBack store).2 (.fault fault) =
      some after ∧ final = (worker.givenBack store).2 := by
  obtain ⟨rests, last⟩ := rested_given_back sound nonzero store
  obtain ⟨stats, counted⟩ := count_abort_stats worker fault
  have own : worker.countAbort fault = { worker with stats } := counted worker.list
  have released : (worker.countAbort fault).releaseLocks store =
      ({ (worker.releaseLocks store).1 with stats }, (worker.releaseLocks store).2) := by
    rw [own]
    rfl
  have cleared : clearAttempt { (worker.releaseLocks store).1 with stats } =
      { rested { worker with list := (worker.givenBack store).1 } with stats } :=
    congrArg (fun worker : Worker => { worker with stats }) rests
  have kept : remembered { (worker.releaseLocks store).1 with stats } (worker.releaseLocks store).2 =
      worker.remembered (worker.givenBack store).2 := by
    rw [last]
    rfl
  rw [abort_eq, released] at done
  simp only [cleared, kept] at done
  rw [restedAfter, if_pos retry, counted]
  cases remembers : worker.remembered (worker.givenBack store).2 with
  | error misuse =>
      rw [remembers] at done
      cases done
  | ok retro =>
      rw [remembers] at done
      have same : remembered { worker with list := (worker.givenBack store).1 } (worker.givenBack store).2 =
        .ok retro := remembers
      rw [same]
      simp only [Prod.mk.injEq] at done
      obtain ⟨_, rfl, rfl⟩ := done
      exact ⟨rfl, last⟩

theorem rested_after_attempt (sound : worker.Sound ids) (nonzero : 0 ∉ ids) {ended : Outcome UInt64}
    {result : Option (Outcome UInt64)} (done : worker.afterAttempt store ended = (result, after, final))
    (closed : ended.isOver = true) (whole : ∀ misuse, result ≠ some (.misuse misuse)) :
    restedAfter { worker with list := (worker.givenBack store).1 } (worker.givenBack store).2 ended =
      some after ∧ final = (worker.givenBack store).2 := by
  obtain ⟨rests, last⟩ := rested_given_back sound nonzero store
  have finish : worker.finish store =
    ((worker.releaseLocks store).1.clearAttempt.forget, (worker.releaseLocks store).2) := rfl
  rw [rests, last] at finish
  cases ended with
  | ok value =>
      rw [afterAttempt, finish] at done
      cases done
      exact ⟨rfl, rfl⟩
  | misuse misuse => cases closed
  | waiting id => cases closed
  | fault fault =>
      rw [afterAttempt] at done
      by_cases retry : fault.isRetryable = true
      · rw [if_pos retry] at done
        cases aborted : worker.abort fault store with
        | mk kept rest =>
            rw [aborted] at done
            cases kept with
            | error misuse =>
                cases done
                exact absurd rfl (whole misuse)
            | ok _ =>
                cases done
                exact rested_after_abort sound nonzero retry aborted
      · rw [if_neg retry, finish] at done
        cases done
        rw [restedAfter, if_neg retry]
        exact ⟨rfl, rfl⟩

end Worker

namespace Scene

-- One attempt goes on, and nobody else does anything.
def Runs (table : Table) : Scene → Scene → Prop :=
  Relation.ReflTransGen fun scene next => scene.go = some next ∨ ∃ deal, scene.ask table deal = some next

variable {table : Table} {scene next last : Scene}

theorem Runs.go (step : scene.go = some next) (runs : Runs table next last) : Runs table scene last :=
  .head (Or.inl step) runs

theorem Runs.ask (deal : Deal) (step : scene.ask table deal = some next) (runs : Runs table next last) :
    Runs table scene last :=
  .head (Or.inr ⟨deal, step⟩) runs

-- What comes of locks that nobody else gets in the way of.
def acquired (scene : Scene) (goal : Option LockRef) (pos : Nat) :
    Outcome Unit × Acquisition → Option Scene
  | (.ok (), state) => some ((scene.took state).enter (.locking goal state.last pos 0))
  | (.fault _, state) => some ((scene.took state).missed goal)
  | _ => none

theorem acquired_took (scene : Scene) (state : Acquisition) (stage : Stage) (goal : Option LockRef)
    (pos : Nat) (result : Outcome Unit × Acquisition) :
    ((scene.took state).enter stage).acquired goal pos result = scene.acquired goal pos result := by
  obtain ⟨outcome, final⟩ := result
  cases outcome with
  | fault fault => cases goal <;> rfl
  | _ => rfl

theorem lock_runs {goal : Option LockRef} {before pos count : Nat}
    {result : Outcome Unit × Acquisition} (here : scene.member.stage = .locking goal before pos count)
    (taken : Acquisition.steps pos count ⟨scene.member.worker.list, before, scene.store⟩ = result)
    (done : scene.acquired goal (pos + count) result = some next) : Runs table scene next := by
  subst taken
  induction count generalizing scene before pos with
  | zero =>
      obtain ⟨⟨worker, stage, accesses, place⟩, store, history⟩ := scene
      cases here
      cases done
      exact .refl
  | succ count ih =>
      rw [Acquisition.steps] at done
      have first : scene.go = scene.lockNext goal before pos count := by
        rw [Scene.go, here]
      rw [lockNext] at first
      generalize Acquisition.step pos ⟨scene.member.worker.list, before, scene.store⟩ = result at done first
      obtain ⟨outcome, state⟩ := result
      cases outcome with
      | ok won =>
          refine .go first (ih rfl ?_)
          rw [acquired_took, Nat.add_right_comm]
          exact done
      | fault fault =>
          cases done
          exact .go first .refl
      | misuse misuse => cases done
      | waiting id => cases done

theorem won_runs {goal : Option LockRef} {before pos count : Nat} {state : Acquisition}
    (here : scene.member.stage = .locking goal before pos count)
    (taken : Acquisition.steps pos count ⟨scene.member.worker.list, before, scene.store⟩ = (.ok (), state)) :
    Runs table scene ((scene.took state).enter (.locking goal state.last (pos + count) 0)) :=
  lock_runs here taken rfl

theorem lost_runs {goal : Option LockRef} {before pos count : Nat} {fault : Fault} {state : Acquisition}
    (here : scene.member.stage = .locking goal before pos count)
    (taken : Acquisition.steps pos count ⟨scene.member.worker.list, before, scene.store⟩ =
      (.fault fault, state)) : Runs table scene ((scene.took state).missed goal) :=
  lock_runs here taken rfl

section Ops

variable {worker after : Worker} {accesses : List Access} {place : Nat} {store final : Store}
  {history : List (List Access)}

theorem look_runs {lock : LockRef} {content : UInt64 × UInt64} {outcome : Outcome UInt64}
    (looks : worker.sawVersion lock content = (outcome, after)) (closed : outcome.isOver = true)
    (stage : Stage) :
    look ⟨⟨worker, stage, accesses, place⟩, store, history⟩ lock content =
      ⟨⟨after, .serving, accesses ++ Worker.readMade lock.slot outcome, place⟩, store, history⟩ := by
  simp only [look, looks]
  cases outcome with
  | ok value => rfl
  | fault fault =>
      unfold Worker.sawVersion at looks
      split at looks <;> cases looks
  | misuse misuse => cases closed
  | waiting id => cases closed

theorem read_locked_runs {lock : LockRef} {outcome : Outcome UInt64}
    (reads : worker.readLocked lock store = (outcome, after, final)) (closed : outcome.isOver = true) :
    ∃ pos list, worker.list.getOrAdd lock .shared = .ok (pos, list) ∧
      Runs table
        ⟨⟨{ worker with list }, .locking (some lock) list.lastLocked 1 pos, accesses, place⟩, store, history⟩
        ⟨⟨after, .serving, accesses ++ Worker.readMade lock.slot outcome, place⟩, final, history⟩ := by
  rw [Worker.readLocked] at reads
  cases asked : worker.list.getOrAdd lock .shared with
  | error misuse =>
      rw [asked] at reads
      cases reads
      cases closed
  | ok grown =>
      obtain ⟨pos, list⟩ := grown
      rw [asked] at reads
      refine ⟨pos, list, rfl, ?_⟩
      simp only [CurrentList.acquireThrough] at reads
      by_cases holds : list.buffer.holds pos = true
      · rw [if_pos holds] at reads
        cases taken : Acquisition.steps 1 pos (.start list store) with
        | mk won state =>
            rw [taken] at reads
            cases won with
            | ok done =>
                simp only at reads
                cases looks : Worker.sawVersion { worker with list := state.list } lock
                    (state.store.recordAt lock.slot).readLocked with
                | mk answer looked =>
                    rw [looks] at reads
                    cases reads
                    refine (won_runs rfl taken).trans (Runs.go rfl ?_)
                    exact look_runs looks closed _ ▸ .refl
            | fault fault =>
                cases reads
                refine (lost_runs rfl taken).trans ?_
                simp only [Worker.readMade, List.append_nil]
                exact .refl
            | misuse misuse =>
                cases reads
                cases closed
            | waiting id =>
                cases reads
                cases closed
      · rw [if_neg holds] at reads
        cases reads
        cases closed

theorem read_slot_runs {lock : LockRef} {outcome : Outcome UInt64}
    (reads : worker.read lock store = (outcome, after, final)) (closed : outcome.isOver = true) :
    ∃ asked, Scene.read ⟨⟨worker, .serving, accesses, place⟩, store, history⟩ lock = some asked ∧
      Runs table asked
        ⟨⟨after, .serving, accesses ++ Worker.readMade lock.slot outcome, place⟩, final, history⟩ := by
  simp only [Scene.read]
  rw [Worker.read] at reads
  cases pending : worker.sets.pending lock.id with
  | some write =>
      rw [pending] at reads
      cases reads
      exact ⟨_, rfl, .refl⟩
  | none =>
      rw [pending] at reads
      simp only at reads ⊢
      by_cases locks : worker.locksOnRead lock store = true
      · rw [if_pos locks] at reads ⊢
        obtain ⟨pos, list, asked, runs⟩ := read_locked_runs reads closed
        rw [asked]
        exact ⟨_, rfl, runs⟩
      · rw [if_neg locks] at reads ⊢
        rw [Worker.readOptimistic] at reads
        cases content : (store.recordAt lock.slot).readOptimistic with
        | none =>
            rw [content] at reads
            cases reads
            cases closed
        | some seen =>
            rw [content] at reads
            cases reads
            refine ⟨_, rfl, ?_⟩
            rw [look_runs rfl closed]
            exact .refl

theorem read_runs {key : UInt64} {outcome : Outcome UInt64}
    (reads : worker.readKey table key store = (outcome, after, final)) (closed : outcome.isOver = true) :
    Runs table ⟨⟨worker, .serving, accesses, place⟩, store, history⟩
      ⟨⟨after, .serving, accesses ++ Event.accesses table [.read key outcome], place⟩, final, history⟩ := by
  rw [Worker.readKey] at reads
  cases found : table.slot key with
  | error fault =>
      rw [found] at reads
      cases reads
      have nothing : Event.accesses table [.read key (.fault fault)] = [] := rfl
      rw [nothing, List.append_nil]
      exact .refl
  | ok slot =>
      rw [found] at reads
      obtain ⟨asked, asks, runs⟩ : ∃ asked, Scene.read ⟨⟨worker, .serving, accesses, place⟩, store, history⟩
        (store.lockAt slot) = some asked ∧ Runs table asked _ := read_slot_runs reads closed
      rw [Worker.accesses_read found]
      refine .ask (.read key) ?_ runs
      simp only [Scene.ask, found]
      exact asks

theorem write_runs {key value : UInt64} {outcome : Outcome Unit}
    (writes : worker.writeKey table key value store = (outcome, after)) (closed : outcome.isOver = true) :
    Runs table ⟨⟨worker, .serving, accesses, place⟩, store, history⟩
      ⟨⟨after, .serving, accesses ++ Event.accesses table [.write key value outcome], place⟩, store,
        history⟩ := by
  rw [Worker.writeKey] at writes
  cases found : table.slot key with
  | error fault =>
      rw [found] at writes
      cases writes
      have nothing : Event.accesses table [.write key value (.fault fault)] = [] := rfl
      rw [nothing, List.append_nil]
      exact .refl
  | ok slot =>
      rw [found] at writes
      have asks : Scene.ask table ⟨⟨worker, .serving, accesses, place⟩, store, history⟩ (.write key value) =
          some (Scene.write ⟨⟨worker, .serving, accesses, place⟩, store, history⟩ (store.lockAt slot) value) := by
        simp only [Scene.ask, found]
      simp only [Scene.write, writes] at asks
      cases outcome with
      | ok done =>
          have made : Event.accesses table [.write key value (.ok done)] = [.write slot value] := by
            simp [Event.accesses, Event.access?, found, Except.toOption]
          rw [made]
          exact .ask _ asks .refl
      | fault fault =>
          unfold Worker.write at writes
          simp only at writes
          split at writes <;> cases writes
      | misuse misuse => cases closed
      | waiting id => cases closed

theorem secure_runs (secures : worker.secure store = (.ok (), after, final)) :
    ∃ last pos, Runs table (commit ⟨⟨worker, .serving, accesses, place⟩, store, history⟩)
      ⟨⟨after, .locking none last pos 0, accesses, place⟩, final, history⟩ := by
  rcases worker.secure_steps store with ⟨misuse, full⟩ | ⟨list, merged, steps⟩
  · rw [full] at secures
    cases secures
  · cases taken : Acquisition.steps 1 list.buffer.active (.start list store) with
    | mk won state =>
        rw [taken] at steps
        rw [steps] at secures
        cases secures
        rw [commit]
        simp only [merged]
        exact ⟨_, _, won_runs rfl taken⟩

theorem unsecured_runs {fault : Fault} (secures : worker.secure store = (.fault fault, after, final)) :
    Runs table (commit ⟨⟨worker, .serving, accesses, place⟩, store, history⟩)
      ⟨⟨after, .leaving after.list.entries, accesses, place⟩, final, history⟩ := by
  rcases worker.secure_steps store with ⟨misuse, full⟩ | ⟨list, merged, steps⟩
  · rw [full] at secures
    cases secures
  · cases taken : Acquisition.steps 1 list.buffer.active (.start list store) with
    | mk won state =>
        rw [taken] at steps
        rw [steps] at secures
        cases secures
        rw [commit]
        simp only [merged]
        exact (lost_runs rfl taken).trans .refl

theorem check_runs (reads : List ReadAccess) :
    (reads.find? (worker.isStale store) = none →
      Runs table ⟨⟨worker, .checking reads, accesses, place⟩, store, history⟩
        ⟨⟨worker, .checking [], accesses, place⟩, store, history⟩) ∧
    ∀ read, reads.find? (worker.isStale store) = some read →
      Runs table ⟨⟨worker, .checking reads, accesses, place⟩, store, history⟩
        ⟨⟨worker, .leaving worker.list.entries, accesses, place⟩, store.bump read.lock.slot, history⟩ := by
  induction reads with
  | nil => exact ⟨fun _ => .refl, nofun⟩
  | cons read reads ih =>
      by_cases stale : worker.isStale store read = true
      · rw [List.find?_cons_of_pos stale]
        refine ⟨nofun, fun other same => ?_⟩
        cases same
        refine .go ?_ .refl
        simp only [Scene.go, if_pos stale]
        rfl
      · rw [List.find?_cons_of_neg stale]
        have first : Scene.go ⟨⟨worker, .checking (read :: reads), accesses, place⟩, store, history⟩ =
            some ⟨⟨worker, .checking reads, accesses, place⟩, store, history⟩ := by
          simp only [Scene.go, if_neg stale]
          rfl
        exact ⟨fun none => .go first (ih.1 none), fun other some => .go first (ih.2 other some)⟩

theorem install_runs (writes : List WriteAccess) :
    Runs table ⟨⟨worker, .installing writes, accesses, place⟩, store, history⟩
      ⟨⟨(writes.foldl Worker.install (worker, store)).1, .installing [], accesses, place⟩,
        (writes.foldl Worker.install (worker, store)).2, history⟩ := by
  induction writes generalizing worker store with
  | nil => exact .refl
  | cons write writes ih => exact .go rfl ih

theorem give_back_runs (entries : List Entry) :
    Runs table ⟨⟨worker, .leaving entries, accesses, place⟩, store, history⟩
      ⟨⟨{ worker with list := (entries.foldl CurrentList.giveBack (worker.list, store)).1 }, .leaving [],
        accesses, place⟩, (entries.foldl CurrentList.giveBack (worker.list, store)).2, history⟩ := by
  induction entries generalizing worker store with
  | nil => exact .refl
  | cons entry entries ih => exact .go rfl ih

theorem settle_runs {outcome : Outcome Unit} (settles : worker.settle store = (outcome, after, final)) :
    Runs table
      ⟨⟨worker, .checking worker.sets.reads.toList, accesses, history.length⟩, store, history ++ [[]]⟩
      ⟨⟨after, .leaving after.list.entries, accesses, history.length⟩, final,
        history ++ [if outcome = .ok () then accesses else []]⟩ := by
  rw [Worker.settle, Worker.firstStale] at settles
  cases stale : worker.sets.reads.toList.find? (worker.isStale store) with
  | some read =>
      rw [stale] at settles
      cases settles
      exact (check_runs _).2 read stale
  | none =>
      rw [stale] at settles
      simp only [Prod.ext_iff] at settles
      obtain ⟨rfl, rfl, rfl⟩ := settles
      have filled : (history ++ [[]]).set history.length accesses = history ++ [accesses] := by
        simp
      have passes : Scene.go ⟨⟨worker, .checking [], accesses, history.length⟩, store, history ++ [[]]⟩ =
          some ⟨⟨worker, .installing (Worker.lastWrites worker.sets.writes.toList), accesses, history.length⟩,
            store, history ++ [accesses]⟩ := by
        rw [← filled]
        rfl
      exact ((check_runs _).1 stale).trans (Runs.go passes ((install_runs _).trans (Runs.go rfl .refl)))

theorem commit_runs {outcome : Outcome Unit} (commits : worker.commit store = (outcome, after, final))
    (closed : outcome.isOver = true) :
    ∃ last longer, Runs table ⟨⟨worker, .serving, accesses, place⟩, store, history⟩
      ⟨⟨after, .leaving after.list.entries, accesses, last⟩, final, longer⟩ ∧
        filled longer = filled (history ++ [if outcome = .ok () then accesses else []]) := by
  have asks : Scene.ask table ⟨⟨worker, .serving, accesses, place⟩, store, history⟩ .commit =
    some (Scene.commit ⟨⟨worker, .serving, accesses, place⟩, store, history⟩) := rfl
  rw [Worker.commit] at commits
  cases secures : worker.secure store with
  | mk won rest =>
      obtain ⟨mid, between⟩ := rest
      rw [secures] at commits
      cases won with
      | ok done =>
          obtain ⟨last, pos, runs⟩ := secure_runs secures
          refine ⟨history.length, _, .ask _ asks (runs.trans (Runs.go rfl (settle_runs commits))), rfl⟩
      | fault fault =>
          cases commits
          refine ⟨place, history, .ask _ asks (unsecured_runs secures), ?_⟩
          have failed : Outcome.fault fault ≠ .ok () := by rintro ⟨⟩
          rw [filled_append, if_neg failed]
          exact (List.append_nil _).symm
      | misuse misuse =>
          cases commits
          cases closed
      | waiting id =>
          cases commits
          cases closed

theorem rest_runs {ids : List UInt64} (sound : worker.Sound ids) (nonzero : 0 ∉ ids) {ended : Outcome UInt64}
    {result : Option (Outcome UInt64)} (done : worker.afterAttempt store ended = (result, after, final))
    (closed : ended.isOver = true) (whole : ∀ misuse, result ≠ some (.misuse misuse)) :
    Runs table ⟨⟨worker, .leaving worker.list.entries, accesses, place⟩, store, history⟩
      ⟨⟨after, .resting, accesses, place⟩, final, history⟩ := by
  obtain ⟨rests, rfl⟩ := Worker.rested_after_attempt sound nonzero done closed whole
  refine (give_back_runs _).trans (Runs.ask (.rest ended) ?_ .refl)
  change Scene.rest _ ended = _
  rw [rest]
  exact congrArg (Option.map _) rests

end Ops

end Scene

end LockOrder
