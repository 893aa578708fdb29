import LockOrder.Proofs.CurrentList.Counts
import LockOrder.Proofs.Worker.Make

set_option autoImplicit false

namespace LockOrder

namespace Worker

-- What so many reads and writes of an attempt may cost at most.
structure Costs (worker : Worker) (reads writes : Nat) (after : Worker) : Prop where
  list : after.list.buffer.active ≤ worker.list.buffer.active + reads
  reads : after.sets.reads.size ≤ worker.sets.reads.size + reads
  writes : after.sets.writes.size ≤ worker.sets.writes.size + writes

def Exceeds (worker : Worker) (reads writes : Nat) : Prop :=
  worker.sets.capacity < worker.sets.reads.size + reads ∨
    worker.sets.capacity < worker.sets.writes.size + writes ∨
    worker.list.buffer.capacity < worker.list.buffer.active + reads

variable {worker mid after : Worker} {reads writes moreReads moreWrites : Nat}

theorem Costs.refl (worker : Worker) : worker.Costs 0 0 worker :=
  ⟨Nat.le_refl _, Nat.le_refl _, Nat.le_refl _⟩

theorem Costs.trans (first : worker.Costs reads writes mid) (rest : mid.Costs moreReads moreWrites after) :
    worker.Costs (reads + moreReads) (writes + moreWrites) after where
  list := by have := first.list; have := rest.list; omega
  reads := by have := first.reads; have := rest.reads; omega
  writes := by have := first.writes; have := rest.writes; omega

theorem Exceeds.more (exceeds : worker.Exceeds reads writes) (moreReads moreWrites : Nat) :
    worker.Exceeds (reads + moreReads) (writes + moreWrites) := by
  rcases exceeds with many | many | many
  · exact Or.inl (by omega)
  · exact Or.inr (Or.inl (by omega))
  · exact Or.inr (Or.inr (by omega))

theorem Exceeds.earlier (exceeds : mid.Exceeds moreReads moreWrites)
    (costs : worker.Costs reads writes mid) (same : mid.make = worker.make) :
    worker.Exceeds (reads + moreReads) (writes + moreWrites) := by
  have capacity : mid.sets.capacity = worker.sets.capacity := congrArg Make.accesses same
  have room : mid.list.buffer.capacity = worker.list.buffer.capacity :=
    congrArg (fun made : Make => made.list.1 - 1) same
  have := costs.list
  have := costs.reads
  have := costs.writes
  rcases exceeds with many | many | many
  · exact Or.inl (by omega)
  · exact Or.inr (Or.inl (by omega))
  · exact Or.inr (Or.inr (by omega))

theorem saw_version_counts (worker : Worker) (lock : LockRef) (content : UInt64 × UInt64) :
    let answer := worker.sawVersion lock content
    answer.2.list = worker.list ∧ answer.2.sets.reads.size ≤ worker.sets.reads.size + 1 ∧
      answer.2.sets.writes = worker.sets.writes ∧
      ∀ misuse, answer.1 = .misuse misuse → worker.sets.capacity ≤ worker.sets.reads.size := by
  rw [sawVersion, AccessSets.addRead]
  by_cases free : worker.sets.reads.size < worker.sets.capacity
  · rw [if_pos free]
    exact ⟨rfl, Nat.le_of_eq (Array.size_push _), rfl, fun _ same => by cases same⟩
  · rw [if_neg free]
    exact ⟨rfl, Nat.le_succ _, rfl, fun _ _ => Nat.not_lt.mp free⟩

structure Counts {β : Type} (worker : Worker) (reads writes : Nat) (outcome : Outcome β)
    (after : Worker) : Prop where
  costs : worker.Costs reads writes after
  exceeds : ∀ bounded, outcome = .misuse (.full bounded) → worker.Exceeds reads writes

theorem write_counts (worker : Worker) (lock : LockRef) (value : UInt64) :
    worker.Counts 0 1 (worker.write lock value).1 (worker.write lock value).2 := by
  rw [write, AccessSets.addWrite]
  by_cases free : worker.sets.writes.size < worker.sets.capacity
  · rw [if_pos free]
    exact ⟨⟨Nat.le_refl _, Nat.le_refl _, Nat.le_of_eq (Array.size_push _)⟩, fun _ same => by cases same⟩
  · rw [if_neg free]
    exact ⟨⟨Nat.le_refl _, Nat.le_refl _, Nat.le_succ _⟩, fun _ _ => Or.inr (Or.inl (by omega))⟩

theorem read_optimistic_counts (worker : Worker) (lock : LockRef) (store : Store) :
    worker.Counts 1 0 (worker.readOptimistic lock store).1 (worker.readOptimistic lock store).2.1 := by
  rw [readOptimistic]
  cases (store.recordAt lock.slot).readOptimistic with
  | none => exact ⟨⟨Nat.le_succ _, Nat.le_succ _, Nat.le_refl _⟩, fun _ same => by cases same⟩
  | some content =>
      obtain ⟨list, reads, writes, full⟩ := worker.saw_version_counts lock content
      refine ⟨⟨?_, reads, Nat.le_of_eq (congrArg Array.size writes)⟩, fun _ same => ?_⟩
      · simp only [list]
        exact Nat.le_succ _
      · exact Or.inl (Nat.lt_succ_of_le (full _ same))

theorem read_locked_counts (worker : Worker) (lock : LockRef) (store : Store) :
    worker.Counts 1 0 (worker.readLocked lock store).1 (worker.readLocked lock store).2.1 := by
  rw [readLocked]
  rcases worker.list.get_or_add_counts lock .shared with ⟨pos, list, added, count⟩ | ⟨none, full⟩
  · have active := list.active_acquire_through pos store
    have never := list.acquire_through_never_full pos store
    rw [added]
    simp only
    generalize list.acquireThrough pos store = result at active never
    obtain ⟨outcome, acquired, next⟩ := result
    have listed : worker.Costs 1 0 { worker with list := acquired } :=
      ⟨active ▸ count, Nat.le_succ _, Nat.le_refl _⟩
    cases outcome with
    | ok _ =>
        obtain ⟨same, reads, writes, full⟩ :=
          saw_version_counts { worker with list := acquired } lock (next.recordAt lock.slot).readLocked
        refine ⟨⟨?_, reads, Nat.le_of_eq (congrArg Array.size writes)⟩, fun _ broken => ?_⟩
        · simp only [same]
          exact listed.list
        · exact Or.inl (Nat.lt_succ_of_le (full _ broken))
    | fault why => exact ⟨listed, fun _ same => by cases same⟩
    | misuse why =>
        refine ⟨listed, fun bounded same => absurd ?_ (never bounded)⟩
        cases same
        rfl
    | waiting id => exact ⟨listed, fun _ same => by cases same⟩
  · rw [none]
    exact ⟨⟨Nat.le_succ _, Nat.le_succ _, Nat.le_refl _⟩, fun _ _ => Or.inr (Or.inr (by omega))⟩

theorem read_counts (worker : Worker) (lock : LockRef) (store : Store) :
    worker.Counts 1 0 (worker.read lock store).1 (worker.read lock store).2.1 := by
  rw [read]
  cases worker.sets.pending lock.id with
  | some write => exact ⟨⟨Nat.le_succ _, Nat.le_succ _, Nat.le_refl _⟩, fun _ same => by cases same⟩
  | none =>
      cases worker.locksOnRead lock store with
      | true => exact worker.read_locked_counts lock store
      | false => exact worker.read_optimistic_counts lock store

end Worker

variable {α ρ σ : Type}

namespace Event

def asksRead (table : Table) : Event α ρ → Bool
  | .read key _ => (table.slot key).isOk
  | _ => false

def asksWrite (table : Table) : Event α ρ → Bool
  | .write key _ _ => (table.slot key).isOk
  | _ => false

def Broke (misuse : Misuse) : Event α ρ → Prop
  | .read _ outcome => outcome = .misuse misuse
  | .write _ _ outcome => outcome = .misuse misuse
  | .act _ _ => False
  | .ran _ run => ∃ inner, run = some inner ∧ inner.result = .misuse misuse

end Event

theorem Body.execute_broke (table : Table) (perform : Perform α ρ σ) (body : Body α ρ) (worker : Worker)
    (arena : Arena σ) (misuse : Misuse)
    (stopped : (body.execute table perform worker arena).outcome = .misuse misuse) :
    ∃ event ∈ (body.execute table perform worker arena).events, event.Broke misuse := by
  have later : ∀ {event : Event α ρ} {executed : Executed α ρ σ},
      (∃ event ∈ executed.events, event.Broke misuse) →
        ∃ other ∈ (executed.after event).events, other.Broke misuse :=
    fun ⟨event, listed, broke⟩ => ⟨event, List.mem_cons_of_mem _ listed, broke⟩
  induction body generalizing worker arena with
  | done result => cases result <;> cases stopped
  | read key next ih =>
      rw [execute] at stopped ⊢
      generalize worker.readKey table key arena.store = answer at stopped ⊢
      obtain ⟨outcome, after, store⟩ := answer
      cases outcome with
      | ok value => exact later (ih _ _ _ stopped)
      | fault fault => exact later (ih _ _ _ stopped)
      | misuse why => exact ⟨_, List.mem_singleton_self _, stopped⟩
      | waiting id => cases stopped
  | write key value next ih =>
      rw [execute] at stopped ⊢
      generalize worker.writeKey table key value arena.store = answer at stopped ⊢
      obtain ⟨outcome, after⟩ := answer
      cases outcome with
      | ok done => exact later (ih _ _ _ stopped)
      | fault fault => exact later (ih _ _ _ stopped)
      | misuse why =>
          cases stopped
          exact ⟨_, List.mem_singleton_self _, rfl⟩
      | waiting id => cases stopped
  | act action next ih =>
      rw [execute] at stopped ⊢
      exact later (ih _ _ _ stopped)
  | transact seat inner next _ ih =>
      rw [execute] at stopped ⊢
      cases here : arena.worker seat with
      | none =>
          simp only [here] at stopped ⊢
          exact later (ih _ _ _ stopped)
      | some other =>
          simp only [here] at stopped ⊢
          generalize other.runWith (fun past => (inner past).execute table perform)
            (arena.setSeat seat none) = ran at stopped ⊢
          cases result : ran.run.result with
          | ok value =>
              simp only [result] at stopped ⊢
              exact later (ih _ _ _ stopped)
          | fault fault =>
              simp only [result] at stopped ⊢
              exact later (ih _ _ _ stopped)
          | misuse why =>
              simp only [result] at stopped ⊢
              cases stopped
              exact ⟨_, List.mem_singleton_self _, ran.run, rfl, result⟩
          | waiting id =>
              simp only [result] at stopped
              cases stopped

namespace Worker

structure Counted (table : Table) (worker : Worker) (events : List (Event α ρ)) (after : Worker) :
    Prop where
  make : after.make = worker.make
  costs : worker.Costs (events.countP (Event.asksRead table)) (events.countP (Event.asksWrite table)) after
  exceeds : ∀ bounded, ∀ event ∈ events, event.Broke (.full bounded) →
    worker.Exceeds (events.countP (Event.asksRead table)) (events.countP (Event.asksWrite table)) ∨
      ∃ seat inner, event = .ran seat (some inner) ∧ inner.result = .misuse (.full bounded)

variable {worker mid after : Worker} {table : Table}

theorem counted_nothing : worker.Counted table ([] : List (Event α ρ)) worker :=
  ⟨rfl, .refl worker, fun _ _ listed => by cases listed⟩

theorem Counted.both {first rest : List (Event α ρ)} (early : worker.Counted table first mid)
    (late : mid.Counted table rest after) : worker.Counted table (first ++ rest) after where
  make := late.make.trans early.make
  costs := by
    rw [List.countP_append, List.countP_append]
    exact early.costs.trans late.costs
  exceeds := by
    intro bounded event listed broke
    rw [List.countP_append, List.countP_append]
    rcases List.mem_append.mp listed with listed | listed
    · exact (early.exceeds bounded event listed broke).imp_left fun many => many.more _ _
    · exact (late.exceeds bounded event listed broke).imp_left fun many =>
        many.earlier early.costs early.make

theorem counted_free (event : Event α ρ) (noRead : event.asksRead table = false)
    (noWrite : event.asksWrite table = false)
    (nested : ∀ misuse, event.Broke misuse →
      ∃ seat inner, event = .ran seat (some inner) ∧ inner.result = .misuse misuse) :
    worker.Counted table [event] worker where
  make := rfl
  costs := by
    rw [List.countP_singleton, List.countP_singleton, noRead, noWrite]
    exact .refl worker
  exceeds := by
    intro bounded other listed broke
    obtain rfl := List.mem_singleton.mp listed
    exact Or.inr (nested _ broke)

theorem counted_read (key : UInt64) (store : Store) :
    worker.Counted table [(.read key (worker.readKey table key store).1 : Event α ρ)]
      (worker.readKey table key store).2.1 := by
  rw [readKey]
  cases found : table.slot key with
  | error fault => exact counted_free _ (by simp [Event.asksRead, found, Except.isOk, Except.toBool]) rfl fun _ broke => by cases broke
  | ok slot =>
      obtain ⟨costs, exceeds⟩ := worker.read_counts (store.lockAt slot) store
      refine ⟨make_read worker _ store, ?_, fun bounded other listed broke => Or.inl ?_⟩
      · simpa [Event.asksRead, Event.asksWrite, found, Except.isOk, Except.toBool] using costs
      · obtain rfl := List.mem_singleton.mp listed
        simpa [Event.asksRead, Event.asksWrite, found, Except.isOk, Except.toBool] using exceeds bounded broke

theorem counted_write (key value : UInt64) (store : Store) :
    worker.Counted table [(.write key value (worker.writeKey table key value store).1 : Event α ρ)]
      (worker.writeKey table key value store).2 := by
  rw [writeKey]
  cases found : table.slot key with
  | error fault => exact counted_free _ rfl (by simp [Event.asksWrite, found, Except.isOk, Except.toBool]) fun _ broke => by cases broke
  | ok slot =>
      obtain ⟨costs, exceeds⟩ := worker.write_counts (store.lockAt slot) value
      refine ⟨make_write worker _ value, ?_, fun bounded other listed broke => Or.inl ?_⟩
      · simpa [Event.asksRead, Event.asksWrite, found, Except.isOk, Except.toBool] using costs
      · obtain rfl := List.mem_singleton.mp listed
        simpa [Event.asksRead, Event.asksWrite, found, Except.isOk, Except.toBool] using exceeds bounded broke

theorem counted_execute (table : Table) (perform : Perform α ρ σ) (body : Body α ρ) (worker : Worker)
    (arena : Arena σ) :
    worker.Counted table (body.execute table perform worker arena).events
      (body.execute table perform worker arena).worker := by
  have obeyed : Body.Obeyed table perform fun worker (_ : Arena σ) events after _ =>
      Counted table worker events after := {
    nothing := fun _ _ => counted_nothing
    both := fun early late => early.both late
    read := fun _ arena key => counted_read key arena.store
    write := fun _ arena key value => counted_write key value arena.store
    act := fun _ _ _ => counted_free _ rfl rfl fun _ broke => broke.elim
    away := fun _ _ _ => counted_free _ rfl rfl fun _ ⟨_, gone, _⟩ => by cases gone
    ran := fun _ _ seat _ _ _ _ => counted_free _ rfl rfl fun _ ⟨inner, same, result⟩ =>
      ⟨seat, inner, congrArg (Event.ran seat) same, result⟩ }
  exact obeyed.execute body worker arena

end Worker

end LockOrder
