import LockOrder.Worker.Run

set_option autoImplicit false

namespace LockOrder

variable {α ρ σ : Type}

-- A law that each step of a body obeys.
structure Body.Obeyed (table : Table) (perform : Perform α ρ σ)
    (law : Worker → Arena σ → List (Event α ρ) → Worker → Arena σ → Prop) : Prop where
  nothing : ∀ worker arena, law worker arena [] worker arena
  both : ∀ {worker mid last : Worker} {arena between final : Arena σ} {first rest : List (Event α ρ)},
    law worker arena first mid between → law mid between rest last final →
      law worker arena (first ++ rest) last final
  read : ∀ (worker : Worker) (arena : Arena σ) (key : UInt64),
    let answer := worker.readKey table key arena.store
    law worker arena [.read key answer.1] answer.2.1 (arena.withStore answer.2.2)
  write : ∀ (worker : Worker) (arena : Arena σ) (key value : UInt64),
    let answer := worker.writeKey table key value arena.store
    law worker arena [.write key value answer.1] answer.2 arena
  act : ∀ (worker : Worker) (arena : Arena σ) (action : α),
    let answer := perform action arena.outside arena.store
    law worker arena [.act action answer.1] worker
      { arena with outside := answer.2.1, store := answer.2.2 }
  away : ∀ (worker : Worker) (arena : Arena σ) (seat : Nat), law worker arena [.ran seat none] worker arena
  -- The bodies of the nested run obey the law too.
  ran : ∀ (worker : Worker) (arena : Arena σ) (seat : Nat) (other : Worker) (inner : Transaction α ρ),
    (∀ past worker arena, let executed := (inner past).execute table perform worker arena
      law worker arena executed.events executed.worker executed.arena) →
    arena.worker seat = some other →
    let ran := other.runWith (fun past => (inner past).execute table perform) (arena.setSeat seat none)
    law worker arena [.ran seat (some ran.run)] worker (ran.settled seat)

theorem Body.Obeyed.execute {table : Table} {perform : Perform α ρ σ}
    {law : Worker → Arena σ → List (Event α ρ) → Worker → Arena σ → Prop}
    (obeyed : Obeyed table perform law) (body : Body α ρ) (worker : Worker) (arena : Arena σ) :
    law worker arena (body.execute table perform worker arena).events
      (body.execute table perform worker arena).worker
      (body.execute table perform worker arena).arena := by
  induction body generalizing worker arena with
  | done result => cases result <;> exact obeyed.nothing worker arena
  | read key next ih =>
      have step := obeyed.read worker arena key
      unfold Body.execute
      generalize worker.readKey table key arena.store = answer at step
      obtain ⟨outcome, after, store⟩ := answer
      cases outcome with
      | ok value => exact obeyed.both step (ih _ after (arena.withStore store))
      | fault fault => exact obeyed.both step (ih _ after (arena.withStore store))
      | misuse misuse => exact step
      | waiting id => exact step
  | write key value next ih =>
      have step := obeyed.write worker arena key value
      unfold Body.execute
      generalize worker.writeKey table key value arena.store = answer at step
      obtain ⟨outcome, after⟩ := answer
      cases outcome with
      | ok _ => exact obeyed.both step (ih _ after arena)
      | fault fault => exact obeyed.both step (ih _ after arena)
      | misuse misuse => exact step
      | waiting id => exact step
  | act action next ih =>
      unfold Body.execute
      exact obeyed.both (obeyed.act worker arena action) (ih _ worker _)
  | transact seat inner next inner_ih ih =>
      unfold Body.execute
      cases here : arena.worker seat with
      | none => exact obeyed.both (obeyed.away worker arena seat) (ih none worker arena)
      | some other =>
          have step := obeyed.ran worker arena seat other inner inner_ih here
          simp only
          generalize other.runWith (fun past => (inner past).execute table perform)
            (arena.setSeat seat none) = ran at step
          cases ran.run.result with
          | ok value => exact obeyed.both step (ih _ worker (ran.settled seat))
          | fault fault => exact obeyed.both step (ih _ worker (ran.settled seat))
          | misuse misuse => exact step
          | waiting id => exact step

end LockOrder
