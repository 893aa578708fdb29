import LockOrder.Proofs.Worker.Contracts
import LockOrder.Proofs.Worker.Execution
import LockOrder.Proofs.Worker.Poised
import LockOrder.Proofs.Worker.Turns

set_option autoImplicit false

namespace LockOrder

variable {ids : List UInt64} {others : Tally} {arena : Arena Outsiders}

-- The workers on their seats have broken no contract, and all handles that are out are held by somebody.
structure Arena.Orderly (ids : List UInt64) (others : Tally) (arena : Arena Outsiders) : Prop where
  sound : arena.Sound ids
  accounts : arena.store.Accounts (others.plus arena.outside.tally)
  seated : ∀ seat worker, arena.worker seat = some worker → worker.list.breaches = #[]

theorem Arena.Orderly.set_seat (orderly : arena.Orderly ids others) (seat : Nat)
    (worker : Option Worker) (idle : ∀ other, worker = some other → other.Idle ids)
    (clean : ∀ other, worker = some other → other.list.breaches = #[]) :
    (arena.setSeat seat worker).Orderly ids others where
  sound := sound_set_seat orderly.sound seat worker idle
  accounts := orderly.accounts
  seated := by
    intro other found here
    by_cases same : seat = other
    · subst same
      by_cases inside : seat < arena.seats.size
      · exact clean found (by simpa [Arena.worker, setSeat, inside] using here)
      · simp [Arena.worker, setSeat, inside] at here
    · exact orderly.seated other found (by simpa [Arena.worker, setSeat, same] using here)

namespace Worker

variable {worker after : Worker}

structure Orderly (ids : List UInt64) (others : Tally) (worker : Worker) (arena : Arena Outsiders) :
    Prop where
  around : arena.Orderly ids (others.plus (Entry.tally worker.list.entries))
  sound : worker.list.Sound ids
  clean : worker.list.breaches = #[]

theorem Orderly.in_order (orderly : worker.Orderly ids others arena) :
    worker.list.InOrder ids ⟨arena.store, others.plus arena.outside.tally⟩ where
  sound := orderly.sound
  named := orderly.around.sound.named
  accounts := by
    have accounts := orderly.around.accounts
    rwa [Tally.plus_right_comm] at accounts
  clean := orderly.clean

theorem Orderly.goes (orderly : worker.Orderly ids others arena) {store : Store}
    (ordered : after.list.InOrder ids ⟨store, others.plus arena.outside.tally⟩) :
    after.Orderly ids others (arena.withStore store) where
  around := by
    refine ⟨Arena.sound_store orderly.around.sound store ordered.named, ?_, orderly.around.seated⟩
    have accounts := ordered.accounts
    rwa [Tally.plus_right_comm] at accounts
  sound := ordered.sound
  clean := ordered.clean

theorem Orderly.with_others (orderly : worker.Orderly ids others arena) {lost : Tally}
    {last : Arena Outsiders}
    (around : last.Orderly ids ((others.plus (Entry.tally worker.list.entries)).plus lost)) :
    worker.Orderly ids (others.plus lost) last where
  around := by rwa [Tally.plus_right_comm] at around
  sound := orderly.sound
  clean := orderly.clean

theorem Orderly.unseated (orderly : worker.Orderly ids others arena) (idle : worker.Idle ids) :
    arena.Orderly ids others := by
  have around := orderly.around
  rwa [idle.empty, Tally.plus_nothing others (Entry.tally []) fun _ _ => rfl] at around

-- A worker in order, after some handles may have been lost to everybody.
def StillOrderly (ids : List UInt64) (others : Tally) (worker : Worker) (arena : Arena Outsiders) :
    Prop :=
  ∃ lost, worker.Orderly ids (others.plus lost) arena

theorem Orderly.still (orderly : worker.Orderly ids others arena) :
    worker.StillOrderly ids others arena := by
  refine ⟨fun _ _ => 0, ?_⟩
  rwa [Tally.plus_nothing others _ fun _ _ => rfl]

theorem StillOrderly.more {lost : Tally} (still : worker.StillOrderly ids (others.plus lost) arena) :
    worker.StillOrderly ids others arena := by
  obtain ⟨more, orderly⟩ := still
  exact ⟨lost.plus more, Tally.plus_assoc others lost more ▸ orderly⟩

def KeepsOrder (ids : List UInt64) (execute : Execution) : Prop :=
  ∀ past worker arena others, worker.Active ids → worker.Orderly ids others arena →
    (execute past worker arena).worker.Active ids ∧
      (execute past worker arena).worker.StillOrderly ids others (execute past worker arena).arena

theorem start_orderly (idle : worker.Idle ids) (orderly : worker.Orderly ids others arena) :
    worker.start.2.Orderly ids others arena :=
  orderly.goes (start_in_order idle orderly.in_order)

theorem conclude_orderly (different : ids.Nodup) (executed : Executed Act Reply Outsiders)
    (active : executed.worker.Active ids)
    (orderly : executed.worker.Orderly ids others executed.arena) :
    (conclude executed).2.1.Orderly ids others
      (executed.arena.withStore (conclude executed).2.2) := by
  obtain ⟨accesses, busy⟩ := active
  have committed := commit_in_order different busy orderly.in_order
  rw [conclude]
  cases executed.outcome with
  | ok value =>
      simp only
      generalize executed.worker.commit executed.arena.store = result at committed
      obtain ⟨outcome, after, next⟩ := result
      exact orderly.goes committed
  | fault why => exact orderly
  | misuse why => exact orderly
  | waiting id => exact orderly

theorem attempt_orderly (different : ids.Nodup) (nonzero : 0 ∉ ids) {execute : Execution}
    (keeps : KeepsOrder ids execute) {past : List (Call Act Reply)} {call : Call Act Reply}
    {started tired left : Worker} {mid : Arena Outsiders} {result : Option (Outcome UInt64)}
    {next : Store} (busy : started.Busy ids []) (orderly : started.Orderly ids others arena)
    (attempted : attempt execute past started arena = (call, tired, mid))
    (done : tired.afterAttempt mid.store call.ended = (result, left, next)) :
    tired.Sound ids ∧ left.StillOrderly ids others (mid.withStore next) := by
  obtain ⟨active, lost, executed⟩ := keeps past started arena others ⟨[], busy⟩ orderly
  have sound := conclude_sound different _ active executed.around.sound.named
  have concluded := conclude_orderly different _ active executed
  have same : tired = (conclude (execute past started arena)).2.1 ∧
      mid = (execute past started arena).arena.withStore (conclude (execute past started arena)).2.2 := by
    cases attempted
    exact ⟨rfl, rfl⟩
  rw [← same.1] at sound concluded
  rw [← same.2] at concluded
  have after := after_attempt_in_order nonzero sound concluded.in_order call.ended
  rw [done] at after
  exact ⟨sound, StillOrderly.more (concluded.goes after).still⟩

end Worker

namespace Turn

variable {execute : Worker.Execution} {turn after : Turn Act Reply Outsiders}

structure Orderly (ids : List UInt64) (others : Tally) (turn : Turn Act Reply Outsiders) : Prop where
  idle : turn.worker.Idle ids
  still : turn.worker.StillOrderly ids others turn.arena

theorem next_orderly (different : ids.Nodup) (nonzero : 0 ∉ ids) (keeps : Worker.KeepsOrder ids execute)
    (next : turn.next execute = some after) (orderly : turn.Orderly ids others) :
    after.Orderly ids others := by
  obtain ⟨idle, lost, before⟩ := orderly
  obtain ⟨started, call, tired, mid, start, attempted, left, _, arena⟩ := next_cases next
  have begun := Worker.start_orderly idle before
  rw [start] at begun
  obtain ⟨sound, still⟩ := Worker.attempt_orderly different nonzero keeps
    (Worker.start_active idle start) begun attempted left
  rw [← arena] at still
  exact ⟨(Worker.again_poised sound call.ended left).idle, still.more⟩

theorem reached_orderly (different : ids.Nodup) (nonzero : 0 ∉ ids)
    (keeps : Worker.KeepsOrder ids execute) (reaches : Reaches execute turn after)
    (orderly : turn.Orderly ids others) : after.Orderly ids others :=
  reaches_keeps (Orderly ids others)
    (fun _ _ next orderly => next_orderly different nonzero keeps next orderly) reaches orderly

theorem last_orderly (different : ids.Nodup) (nonzero : 0 ∉ ids) (keeps : Worker.KeepsOrder ids execute)
    {ran : Ran Act Reply Outsiders} (last : turn.Last execute ran) (orderly : turn.Orderly ids others) :
    ran.worker.StillOrderly ids others ran.arena := by
  have again := orderly
  obtain ⟨idle, lost, before⟩ := orderly
  have begun := Worker.start_orderly idle before
  cases last with
  | broken misuse worker start =>
      rw [start] at begun
      exact begun.still.more
  | closed started tired worker call mid result store start attempted left =>
      rw [start] at begun
      exact (Worker.attempt_orderly different nonzero keeps (Worker.start_active idle start) begun
        attempted left).2.more
  | spent after next =>
      obtain ⟨_, lost, ended⟩ := next_orderly different nonzero keeps next again
      exact ⟨lost, ended.around, ended.sound, ended.clean⟩

end Turn

def Arena.StillOrderly (ids : List UInt64) (others : Tally) (arena : Arena Outsiders) : Prop :=
  ∃ lost, arena.Orderly ids (others.plus lost)

theorem Ran.settled_orderly (nonzero : 0 ∉ ids) {ran : Ran Act Reply Outsiders} (seat : Nat)
    (rests : ran.run.result.isOver = true → ran.worker.Idle ids)
    (still : ran.worker.StillOrderly ids others ran.arena) :
    (ran.settled seat).StillOrderly ids others := by
  obtain ⟨lost, orderly⟩ := still
  have back : ran.run.result.isOver = true →
      (ran.arena.setSeat seat (some ran.worker)).Orderly ids (others.plus lost) := by
    intro closed
    have idle := rests closed
    refine (orderly.unseated idle).set_seat seat _ (fun other same => ?_) fun other same => ?_
    · cases same
      exact idle
    · cases same
      exact orderly.clean
  rw [settled]
  cases result : ran.run.result with
  | ok value => exact ⟨lost, back (by rw [result]; rfl)⟩
  | fault why => exact ⟨lost, back (by rw [result]; rfl)⟩
  | misuse why =>
      have keeps := CurrentList.release_all_keeps orderly.sound ran.arena.store
      have free := CurrentList.release_all_holds_nothing orderly.sound ran.arena.store nonzero
      have accounts := keeps.conserves _ orderly.in_order.accounts
      rw [Tally.plus_nothing _ _ (CurrentList.tally_of_free _ free)] at accounts
      have named := (Store.ids_of_bare keeps.bare).trans orderly.around.sound.named
      exact ⟨lost, Arena.sound_store orderly.around.sound _ named, accounts, orderly.around.seated⟩
  | waiting id =>
      exact ⟨lost.plus (Entry.tally ran.worker.list.entries), Tally.plus_assoc others _ _ ▸ orderly.around⟩

theorem Arena.Orderly.act {table : Table} (fits : table.Fits ids) (orderly : arena.Orderly ids others)
    (act : Act) :
    let answer := act.perform table arena.outside arena.store
    Orderly ids others { arena with outside := answer.2.1, store := answer.2.2 } := by
  have keeps := Act.perform_keeps fits act arena.outside arena.store orderly.sound.named
  have named := Act.keeps_ids table act arena.outside arena.store
  refine ⟨?_, keeps.balanced orderly.sound.size others orderly.accounts, orderly.seated⟩
  exact sound_outside orderly.sound _ (keeps.size.trans orderly.sound.outside) _
    (named.trans orderly.sound.named)

variable {table : Table}

theorem Arena.Orderly.leaves_seat (orderly : arena.Orderly ids others) (seat : Nat) (worker : Worker)
    (here : arena.worker seat = some worker) :
    Turn.Orderly ids others ⟨[], worker, arena.setSeat seat none⟩ := by
  have away : (arena.setSeat seat none).Orderly ids others :=
    orderly.set_seat seat none (fun _ same => by cases same) fun _ same => by cases same
  have idle := orderly.sound.seats seat worker here
  have begun : worker.Orderly ids others (arena.setSeat seat none) := by
    refine ⟨?_, idle.sound.list, orderly.seated seat worker here⟩
    rwa [idle.empty, Tally.plus_nothing others (Entry.tally []) fun _ _ => rfl]
  exact ⟨idle, begun.still⟩

theorem run_orderly (different : ids.Nodup) (fits : table.Fits ids) (nonzero : 0 ∉ ids)
    (transaction : Transaction Act Reply)
    (keeps : Worker.KeepsOrder ids fun past => (transaction past).execute table (Act.perform table))
    (orderly : arena.Orderly ids others) (seat : Nat) (worker : Worker)
    (here : arena.worker seat = some worker) :
    let ran := worker.runWith (fun past => (transaction past).execute table (Act.perform table))
      (arena.setSeat seat none)
    ran.worker.StillOrderly ids others ran.arena ∧ (ran.settled seat).StillOrderly ids others := by
  let execute : Worker.Execution := fun past => (transaction past).execute table (Act.perform table)
  intro ran
  have first := orderly.leaves_seat seat worker here
  obtain ⟨last, reaches, ended⟩ : ∃ last, Turn.Reaches execute ⟨[], worker, arena.setSeat seat none⟩ last ∧
      last.Last execute ran := Turn.run_ends _ _
  have reached := Turn.reached_orderly different nonzero keeps reaches first
  have still := Turn.last_orderly different nonzero keeps ended reached
  have idle := orderly.sound.seats seat worker here
  have away := Arena.sound_set_seat orderly.sound seat none fun _ same => by cases same
  have told := Worker.run_from_told different execute (executes_transaction different fits transaction)
    worker.settings.maxRetries.toNat [] worker (arena.setSeat seat none) idle away
  exact ⟨still, Ran.settled_orderly nonzero seat told.idle still⟩

theorem keeps_order_execute (different : ids.Nodup) (fits : table.Fits ids) (nonzero : 0 ∉ ids) :
    Body.Obeyed table (Act.perform table) fun worker arena (_ : List (Event Act Reply)) after last =>
      ∀ others, worker.Active ids → worker.Orderly ids others arena →
        after.Active ids ∧ after.StillOrderly ids others last where
  nothing := fun _ _ _ active orderly => ⟨active, orderly.still⟩
  both := by
    intro worker mid last arena between final first rest early late others active orderly
    obtain ⟨active, lost, orderly⟩ := early others active orderly
    obtain ⟨active, still⟩ := late (others.plus lost) active orderly
    exact ⟨active, still.more⟩
  read := by
    rintro worker arena key answer others ⟨accesses, busy⟩ orderly
    have goes := Worker.read_key_goes different table busy orderly.around.sound.named fits key
    have ordered := Worker.read_key_in_order fits orderly.in_order key
    exact ⟨⟨_, goes.busy⟩, (orderly.goes ordered).still⟩
  write := by
    rintro worker arena key value answer others ⟨accesses, busy⟩ orderly
    have goes := Worker.write_key_goes table busy orderly.around.sound.named fits key value
    have list := Worker.list_write_key worker table key value arena.store
    have after : answer.2.Orderly ids others (arena.withStore arena.store) :=
      orderly.goes (list ▸ orderly.in_order)
    exact ⟨⟨_, goes.busy⟩, after.still⟩
  act := by
    intro worker arena action answer others active orderly
    have around := orderly.around.act fits action
    exact ⟨active, Worker.Orderly.still ⟨around, orderly.sound, orderly.clean⟩⟩
  away := fun _ _ _ _ active orderly => ⟨active, orderly.still⟩
  ran := by
    intro worker arena seat other inner keeps here ran others active orderly
    obtain ⟨_, lost, around⟩ := run_orderly different fits nonzero inner
      (fun past worker arena others => keeps past worker arena others) orderly.around seat other here
    exact ⟨active, lost, orderly.with_others around⟩

theorem keeps_order_transaction (different : ids.Nodup) (fits : table.Fits ids) (nonzero : 0 ∉ ids)
    (transaction : Transaction Act Reply) :
    Worker.KeepsOrder ids fun past => (transaction past).execute table (Act.perform table) :=
  fun past worker arena others =>
    (keeps_order_execute different fits nonzero).execute (transaction past) worker arena others

end LockOrder
