import LockOrder.Proofs.Worker.LockedReads

set_option autoImplicit false

namespace LockOrder

namespace World

variable {world next : World} {store after : Store} {held given : Tally}

theorem Move.frame (move : world.Move next) (rest : Tally) :
    Move ⟨world.store, rest.plus world.others⟩ ⟨next.store, rest.plus next.others⟩ := by
  cases move with
  | locks fair bare => exact .locks ⟨fair.ids, fair.balanced.frame rest⟩ bare
  | replace slot version value owned =>
      exact .replace slot version value (Nat.lt_of_lt_of_le owned (Nat.le_add_left _ _))
  | heat slot hotness draws => exact .heat slot hotness draws

theorem Obeys.frame (obeys : world.Obeys next) (rest : Tally) :
    Obeys ⟨world.store, rest.plus world.others⟩ ⟨next.store, rest.plus next.others⟩ := by
  induction obeys with
  | refl => exact .refl
  | tail _ move ih => exact ih.tail (move.frame rest)

theorem Obeys.frame_right (obeys : world.Obeys next) (rest : Tally) :
    Obeys ⟨world.store, world.others.plus rest⟩ ⟨next.store, next.others.plus rest⟩ := by
  have framed := obeys.frame rest
  rwa [Tally.plus_comm, Tally.plus_comm rest] at framed

theorem obeys_of_balanced (bare : after.bare = store.bare) (balanced : Balanced held store given after) :
    Obeys ⟨store, held⟩ ⟨after, given⟩ :=
  .single (.locks ⟨Store.ids_of_bare bare, balanced⟩ bare)

theorem obeys_take {lock : LockRef} {kind : Handle} (taken : store.take lock kind = some after) :
    Obeys ⟨store, held⟩ ⟨after, held.oneMore lock.slot kind⟩ := by
  refine obeys_of_balanced (Store.bare_take store after lock kind taken) fun rest accounts => ?_
  refine Store.accounts_congr (Store.accounts_take store after lock kind _ accounts taken) ?_
  intro slot which
  rw [Tally.one_more_apply, Tally.plus, Tally.plus, Tally.one_more_apply, Nat.add_assoc]

theorem obeys_release (lock : LockRef) (kind : Handle) :
    Obeys ⟨store, held.oneMore lock.slot kind⟩ ⟨store.release lock kind, held⟩ := by
  refine obeys_of_balanced (Store.bare_release store lock kind) fun rest accounts => ?_
  refine Store.accounts_release store lock kind _ (Store.accounts_congr accounts fun slot which => ?_)
  rw [Tally.one_more_apply, Tally.plus, Tally.plus, Tally.one_more_apply, Nat.add_assoc]

theorem obeys_install (slot : Nat) (value : UInt64) (owned : 0 < held slot .writer) :
    Obeys ⟨store, held⟩ ⟨store.install slot value, held⟩ :=
  .single (.replace slot _ value owned)

theorem obeys_bump (slot : Nat) : Obeys ⟨store, held⟩ ⟨store.bump slot, held⟩ :=
  .single (.heat slot _ _)

end World

namespace Outsiders

variable {outsiders : Outsiders} {store : Store}

theorem install_obeys (slot : Nat) (value : UInt64) :
    World.Obeys ⟨store, outsiders.tally⟩ ⟨(outsiders.install slot value store).2, outsiders.tally⟩ := by
  rw [install]
  by_cases owner : (outsiders.heldAt slot).contains .writer = true
  · rw [if_pos owner]
    have owned : 0 < outsiders.tally slot .writer :=
      List.count_pos_iff.mpr (List.contains_iff_mem.mp owner)
    exact World.obeys_install slot value owned
  · rw [if_neg owner]
    cases taken : store.take (store.lockAt slot) .writer with
    | none => exact .refl
    | some next =>
        have owned : 0 < outsiders.tally.oneMore slot .writer slot .writer := by
          rw [Tally.one_more_apply, if_pos ⟨rfl, rfl⟩]
          exact Nat.succ_pos _
        exact ((World.obeys_take taken).trans (World.obeys_install slot value owned)).trans
          (World.obeys_release (store.lockAt slot) .writer)

theorem act_obeys (slot : Nat) (inside : slot < store.records.size)
    (size : outsiders.held.size = store.records.size) (act : Act) :
    World.Obeys ⟨store, outsiders.tally⟩
      ⟨(outsiders.actAt slot store act).2.2, (outsiders.actAt slot store act).2.1.tally⟩ := by
  cases act with
  | peek => exact .refl
  | get key => exact .refl
  | take key kind =>
      exact World.obeys_of_balanced (bare_taken outsiders slot kind store)
        ((take_keeps slot kind inside).balanced size)
  | release key =>
      exact World.obeys_of_balanced (bare_released outsiders slot store)
        ((release_keeps slot inside).balanced size)
  | install key value => exact install_obeys slot value
  | bump key => exact World.obeys_bump slot

end Outsiders

variable {ids : List UInt64} {table : Table}

theorem Act.perform_obeys (fits : table.Fits ids) (act : Act) {outsiders : Outsiders} {store : Store}
    (identified : store.ids = ids) (size : outsiders.held.size = ids.length) :
    World.Obeys ⟨store, outsiders.tally⟩
      ⟨(act.perform table outsiders store).2.2, (act.perform table outsiders store).2.1.tally⟩ := by
  have count := Store.size_of_ids identified
  rw [perform]
  cases named : act.key? with
  | none =>
      cases act with
      | peek => exact .refl
      | _ => cases named
  | some key =>
      simp only
      cases found : table.slot key with
      | error fault => exact .refl
      | ok slot =>
          have inside : slot < store.records.size := count ▸ fits key slot found
          exact Outsiders.act_obeys slot inside (size.trans count.symm) act

namespace Worker

variable {worker mid after : Worker} {arena between last : Arena Outsiders} {store : Store}

-- From here to there everybody outside and this worker have obeyed the locks.
def Leads (worker : Worker) (arena : Arena Outsiders) (after : Worker) (last : Arena Outsiders) : Prop :=
  ∃ lost : Tally, World.Obeys ⟨arena.store, arena.held worker.list⟩
    ⟨last.store, lost.plus (last.held after.list)⟩

theorem leads_of_obeys (obeys : World.Obeys ⟨arena.store, arena.held worker.list⟩
    ⟨last.store, last.held after.list⟩) : worker.Leads arena after last :=
  ⟨fun _ _ => 0, by rwa [Tally.nothing_plus]⟩

theorem Leads.trans (first : worker.Leads arena mid between) (second : mid.Leads between after last) :
    worker.Leads arena after last := by
  obtain ⟨lost, before⟩ := first
  obtain ⟨more, behind⟩ := second
  refine ⟨lost.plus more, ?_⟩
  rw [Tally.plus_assoc]
  exact before.trans (behind.frame lost)

theorem leads_of_keeps {next : Store} (bare : next.bare = arena.store.bare)
    (conserves : Conserves worker.list.entries arena.store after.list.entries next) :
    worker.Leads arena after (arena.withStore next) :=
  leads_of_obeys (World.obeys_of_balanced bare (conserves.frame arena.outside.tally))

theorem installs_obey {held : Tally} (writes : List WriteAccess) (worker : Worker) (store : Store)
    (owned : ∀ write ∈ writes, 0 < held write.lock.slot .writer) :
    World.Obeys ⟨store, held⟩ ⟨(writes.foldl install (worker, store)).2, held⟩ := by
  induction writes generalizing worker store with
  | nil => exact .refl
  | cons write rest ih =>
      have here : World.Obeys ⟨store, held⟩ ⟨store.install write.lock.slot write.value, held⟩ :=
        World.obeys_install _ _ (owned write (by simp))
      exact here.trans (ih _ _ fun other listed => owned other (by simp [listed]))

theorem secure_owns {accesses : List Access} {others : Tally} (busy : worker.Busy ids accesses)
    (ordered : worker.list.InOrder ids ⟨store, others⟩) (won : (worker.secure store).1 = .ok ()) :
    ∀ write ∈ (worker.secure store).2.1.sets.writes.toList,
      (worker.secure store).2.1.owns write.id = true := by
  rcases worker.secure_among store others with ⟨misuse, full⟩ | among
  · rw [full] at won
    cases won
  · exact (secures busy ordered among).owned won

theorem leads_commit {accesses : List Access} {others : Tally} (different : ids.Nodup)
    (busy : worker.Busy ids accesses) (orderly : worker.Orderly ids others arena) :
    worker.Leads arena (worker.commit arena.store).2.1
      (arena.withStore (worker.commit arena.store).2.2) := by
  have secures := secure_secures busy.sound arena.store
  have owns := secure_owns busy orderly.in_order
  rw [commit]
  generalize worker.secure arena.store = secured at secures owns
  obtain ⟨outcome, mid, next⟩ := secured
  obtain ⟨sound, bare, conserves, sets⟩ := secures
  have locked : worker.Leads arena mid (arena.withStore next) := leads_of_keeps bare conserves
  cases outcome with
  | fault fault => exact locked
  | misuse misuse => exact locked
  | waiting id => exact locked
  | ok _ =>
      refine locked.trans (leads_of_obeys ?_)
      simp only [settle]
      cases mid.firstStale next with
      | some read => exact World.obeys_bump read.lock.slot
      | none =>
          have owned := owns rfl
          have listed := (last_writes_sublist mid.sets.writes.toList).subset
          have same : (mid.installAll next).1 = mid :=
            installs_clean _ mid next fun write here => owned write (listed here)
          simp only [same]
          refine installs_obey _ mid next fun write here => ?_
          have own := owns_tally sound.list different (sound.sets.writes write (listed here))
            (owned write (listed here))
          exact Nat.lt_of_lt_of_le own (Nat.le_add_left _ _)

def Placed (ids : List UInt64) (worker : Worker) (arena : Arena Outsiders) : Prop :=
  worker.Active ids ∧ ∃ others, worker.Orderly ids others arena

def LeadsOn (ids : List UInt64) (execute : Execution) : Prop :=
  ∀ past (worker : Worker) (arena : Arena Outsiders), worker.Placed ids arena →
    worker.Leads arena (execute past worker arena).worker (execute past worker arena).arena

theorem start_leads (idle : worker.Idle ids) : worker.Leads arena worker.start.2 arena :=
  leads_of_keeps rfl ((start_sound idle).2.2 arena.store)

theorem leads_conclude {executed : Executed Act Reply Outsiders} (different : ids.Nodup)
    (placed : executed.worker.Placed ids executed.arena) :
    executed.worker.Leads executed.arena (conclude executed).2.1
      (executed.arena.withStore (conclude executed).2.2) := by
  obtain ⟨⟨accesses, busy⟩, others, orderly⟩ := placed
  have stays : executed.worker.Leads executed.arena executed.worker executed.arena :=
    leads_of_obeys .refl
  have committed := leads_commit different busy orderly
  rw [conclude]
  cases executed.outcome with
  | ok value => exact committed
  | fault why => exact stays
  | misuse why => exact stays
  | waiting id => exact stays

theorem leads_after_attempt (nonzero : 0 ∉ ids) (sound : worker.Sound ids) (ended : Outcome UInt64) :
    worker.Leads arena (worker.afterAttempt arena.store ended).2.1
      (arena.withStore (worker.afterAttempt arena.store ended).2.2) := by
  have rested := after_attempt_rested worker sound arena.store ended
  exact leads_of_keeps rested.bare (rested.conserves nonzero)

theorem attempt_leads (different : ids.Nodup) (nonzero : 0 ∉ ids) {execute : Execution}
    (keeps : KeepsOrder ids execute) (leads : LeadsOn ids execute) {past : List (Call Act Reply)}
    {call : Call Act Reply} {started tired left : Worker} {between : Arena Outsiders}
    {result : Option (Outcome UInt64)} {next : Store} {others : Tally} (busy : started.Busy ids [])
    (orderly : started.Orderly ids others arena)
    (attempted : attempt execute past started arena = (call, tired, between))
    (done : tired.afterAttempt between.store call.ended = (result, left, next)) :
    started.Leads arena left (between.withStore next) := by
  obtain ⟨active, lost, executed⟩ := keeps past started arena others ⟨[], busy⟩ orderly
  have sound := conclude_sound different _ active executed.around.sound.named
  have body := leads past started arena ⟨⟨[], busy⟩, others, orderly⟩
  have concluded := leads_conclude different ⟨active, _, executed⟩
  have same : tired = (conclude (execute past started arena)).2.1 ∧
      between = (execute past started arena).arena.withStore
        (conclude (execute past started arena)).2.2 := by
    cases attempted
    exact ⟨rfl, rfl⟩
  rw [← same.1] at sound
  rw [← same.1, ← same.2] at concluded
  have after : tired.Leads between (tired.afterAttempt between.store call.ended).2.1
      (between.withStore (tired.afterAttempt between.store call.ended).2.2) :=
    leads_after_attempt nonzero sound call.ended
  rw [done] at after
  exact (body.trans concluded).trans after

end Worker

namespace Turn

variable {execute : Worker.Execution} {turn after : Turn Act Reply Outsiders} {others : Tally}

theorem next_leads (different : ids.Nodup) (nonzero : 0 ∉ ids) (keeps : Worker.KeepsOrder ids execute)
    (leads : Worker.LeadsOn ids execute) (next : turn.next execute = some after)
    (orderly : turn.Orderly ids others) :
    turn.worker.Leads turn.arena after.worker after.arena := by
  obtain ⟨idle, lost, before⟩ := orderly
  obtain ⟨started, call, tired, mid, start, attempted, left, _, arena⟩ := next_cases next
  have begun := Worker.start_orderly idle before
  have starts : turn.worker.Leads turn.arena turn.worker.start.2 turn.arena := Worker.start_leads idle
  rw [start] at begun starts
  have led := Worker.attempt_leads different nonzero keeps leads (Worker.start_active idle start) begun
    attempted left
  rw [← arena] at led
  exact starts.trans led

theorem reached_leads (different : ids.Nodup) (nonzero : 0 ∉ ids)
    (keeps : Worker.KeepsOrder ids execute) (leads : Worker.LeadsOn ids execute)
    (reaches : Reaches execute turn after) (orderly : turn.Orderly ids others) :
    turn.worker.Leads turn.arena after.worker after.arena := by
  induction reaches with
  | refl => exact Worker.leads_of_obeys .refl
  | tail before next ih =>
      have reached := reached_orderly different nonzero keeps before orderly
      exact ih.trans (next_leads different nonzero keeps leads next reached)

theorem last_leads (different : ids.Nodup) (nonzero : 0 ∉ ids) (keeps : Worker.KeepsOrder ids execute)
    (leads : Worker.LeadsOn ids execute) {ran : Ran Act Reply Outsiders} (last : turn.Last execute ran)
    (orderly : turn.Orderly ids others) : turn.worker.Leads turn.arena ran.worker ran.arena := by
  have again := orderly
  obtain ⟨idle, lost, before⟩ := orderly
  have begun := Worker.start_orderly idle before
  have starts : turn.worker.Leads turn.arena turn.worker.start.2 turn.arena := Worker.start_leads idle
  cases last with
  | broken misuse worker start =>
      rw [start] at starts
      exact starts
  | closed started tired worker call mid result store start attempted left =>
      rw [start] at begun starts
      exact starts.trans (Worker.attempt_leads different nonzero keeps leads
        (Worker.start_active idle start) begun attempted left)
  | spent after next => exact next_leads different nonzero keeps leads next again

end Turn

theorem Ran.settled_obeys (nonzero : 0 ∉ ids) {ran : Ran Act Reply Outsiders} (seat : Nat)
    {worker : Worker} {arena : Arena Outsiders} (leads : worker.Leads arena ran.worker ran.arena)
    (rests : ran.run.result.isOver = true → ran.worker.Idle ids) (sound : ran.worker.list.Sound ids) :
    ∃ lost : Tally, World.Obeys ⟨arena.store, arena.held worker.list⟩
      ⟨(ran.settled seat).store, lost.plus (ran.settled seat).outside.tally⟩ := by
  obtain ⟨lost, obeys⟩ := leads
  have empty : ran.worker.list.entries = [] →
      ran.arena.held ran.worker.list = ran.arena.outside.tally := by
    intro none
    rw [Arena.held, none]
    exact Tally.plus_nothing _ _ fun _ _ => rfl
  rw [settled]
  cases result : ran.run.result with
  | ok value =>
      have none := empty (rests (by rw [result]; rfl)).empty
      exact ⟨lost, none ▸ obeys⟩
  | fault why =>
      have none := empty (rests (by rw [result]; rfl)).empty
      exact ⟨lost, none ▸ obeys⟩
  | misuse why =>
      have keeps := CurrentList.release_all_keeps sound ran.arena.store
      have free := CurrentList.release_all_holds_nothing sound ran.arena.store nonzero
      have released : World.Obeys ⟨ran.arena.store, ran.arena.held ran.worker.list⟩
          ⟨(ran.worker.list.releaseAll ran.arena.store).2, ran.arena.outside.tally⟩ := by
        refine World.obeys_of_balanced keeps.bare ?_
        refine (keeps.conserves.frame ran.arena.outside.tally).congr fun slot kind => ?_
        rw [Tally.plus, CurrentList.tally_of_free _ free]
        rfl
      exact ⟨lost, obeys.trans (released.frame lost)⟩
  | waiting id =>
      refine ⟨lost.plus (Entry.tally ran.worker.list.entries), ?_⟩
      have same : lost.plus (ran.arena.held ran.worker.list) =
          (lost.plus (Entry.tally ran.worker.list.entries)).plus ran.arena.outside.tally := by
        rw [Arena.held, ← Tally.plus_assoc, Tally.plus_right_comm]
      exact same ▸ obeys

variable {others : Tally} {arena : Arena Outsiders}

theorem run_obeys (different : ids.Nodup) (fits : table.Fits ids) (nonzero : 0 ∉ ids)
    (transaction : Transaction Act Reply)
    (leads : Worker.LeadsOn ids fun past => (transaction past).execute table (Act.perform table))
    (orderly : arena.Orderly ids others) (seat : Nat) (worker : Worker)
    (here : arena.worker seat = some worker) :
    let ran := worker.runWith (fun past => (transaction past).execute table (Act.perform table))
      (arena.setSeat seat none)
    ∃ lost : Tally, World.Obeys ⟨arena.store, arena.outside.tally⟩
      ⟨(ran.settled seat).store, lost.plus (ran.settled seat).outside.tally⟩ := by
  let execute : Worker.Execution := fun past => (transaction past).execute table (Act.perform table)
  intro ran
  have keeps := keeps_order_transaction different fits nonzero transaction
  have first := orderly.leaves_seat seat worker here
  obtain ⟨last, reaches, ended⟩ : ∃ last, Turn.Reaches execute ⟨[], worker, arena.setSeat seat none⟩ last ∧
      last.Last execute ran := Turn.run_ends _ _
  have reached := Turn.reached_orderly different nonzero keeps reaches first
  obtain ⟨_, still⟩ := Turn.last_orderly different nonzero keeps ended reached
  have led := (Turn.reached_leads different nonzero keeps leads reaches first).trans
    (Turn.last_leads different nonzero keeps leads ended reached)
  have idle := orderly.sound.seats seat worker here
  have away := Arena.sound_set_seat orderly.sound seat none fun _ same => by cases same
  have told := Worker.run_from_told different execute (executes_transaction different fits transaction)
    worker.settings.maxRetries.toNat [] worker (arena.setSeat seat none) idle away
  obtain ⟨lost, obeys⟩ := Ran.settled_obeys nonzero seat led told.idle still.sound
  have free : arena.held worker.list = arena.outside.tally := by
    rw [Arena.held, idle.empty]
    exact Tally.plus_nothing _ _ fun _ _ => rfl
  exact ⟨lost, free ▸ obeys⟩

theorem leads_execute (different : ids.Nodup) (fits : table.Fits ids) (nonzero : 0 ∉ ids) :
    Body.Obeyed table (Act.perform table) fun worker arena (_ : List (Event Act Reply)) after last =>
      worker.Placed ids arena → after.Placed ids last ∧ worker.Leads arena after last := by
  have order := keeps_order_execute different fits nonzero
  have placed : ∀ {after : Worker} {last : Arena Outsiders} {others : Tally},
      after.Active ids ∧ after.StillOrderly ids others last → after.Placed ids last :=
    fun kept => ⟨kept.1, _, kept.2.choose_spec⟩
  constructor
  case nothing => exact fun _ _ here => ⟨here, Worker.leads_of_obeys .refl⟩
  case both =>
    intro worker mid last arena between final first rest early late here
    obtain ⟨there, before⟩ := early here
    obtain ⟨behind, after⟩ := late there
    exact ⟨behind, before.trans after⟩
  case read =>
    rintro worker arena key answer ⟨⟨accesses, busy⟩, others, orderly⟩
    have goes := Worker.read_key_goes different table busy orderly.around.sound.named fits key
    exact ⟨placed (order.read worker arena key others ⟨_, busy⟩ orderly),
      Worker.leads_of_keeps goes.bare goes.conserves⟩
  case write =>
    rintro worker arena key value answer ⟨active, others, orderly⟩
    have list := Worker.list_write_key worker table key value arena.store
    refine ⟨placed (order.write worker arena key value others active orderly),
      Worker.leads_of_obeys ?_⟩
    rw [show answer.2.list = worker.list from list]
    exact .refl
  case act =>
    rintro worker arena action answer ⟨active, others, orderly⟩
    have sound := orderly.around.sound
    have obeys := (Act.perform_obeys fits action sound.named sound.outside).frame_right
      (Entry.tally worker.list.entries)
    exact ⟨placed (order.act worker arena action others active orderly), Worker.leads_of_obeys obeys⟩
  case away => exact fun _ _ _ here => ⟨here, Worker.leads_of_obeys .refl⟩
  case ran =>
    rintro worker arena seat other inner leads here ran ⟨active, others, orderly⟩
    have inside : Worker.LeadsOn ids fun past => (inner past).execute table (Act.perform table) :=
      fun past worker arena there => (leads past worker arena there).2
    obtain ⟨lost, obeys⟩ := run_obeys different fits nonzero inner inside orderly.around seat other here
    obtain ⟨_, more, around⟩ := run_orderly different fits nonzero inner
      (keeps_order_transaction different fits nonzero inner) orderly.around seat other here
    refine ⟨⟨active, _, orderly.with_others around⟩, lost, ?_⟩
    have framed := obeys.frame_right (Entry.tally worker.list.entries)
    rwa [Tally.plus_assoc] at framed

end LockOrder
