import LockOrder.Proofs.Worker.Neighbours

set_option autoImplicit false

namespace LockOrder

def Access.isRead : Access → Bool
  | .read .. => true
  | .write .. => false

namespace Deed

def read? : Deed → Option Access
  | .own lock value => some (.read lock.slot value)
  | .locked lock _ value => some (.read lock.slot value)
  | .optimistic lock _ value => some (.read lock.slot value)
  | .installed _ => none

theorem made_reads {worker after : Worker} {lock : LockRef} {content : UInt64 × UInt64}
    {answer : Outcome UInt64} {deed : Deed} (seen : worker.sawVersion lock content = (answer, after))
    (reads : deed.read? = some (.read lock.slot content.2)) :
    (deed.made answer).filterMap read? = Worker.readMade lock.slot answer := by
  obtain ⟨_, ⟨rfl, _⟩ | ⟨⟨misuse, rfl⟩, _⟩⟩ := Worker.saw_version_cases seen
  · simp [made, reads, Worker.readMade]
  · rfl

end Deed

variable {ids : List UInt64} {table : Table}

namespace Worker

variable {worker after : Worker} {lock : LockRef} {store next : Store} {others : Tally}

structure Retold (worker : Worker) (lock : LockRef) (store : Store) (others : Tally) (made : List Deed)
    (answer : Outcome UInt64) (after : Worker) (next : Store) : Prop where
  among : worker.ReadsAmong ⟨store, others⟩ lock made after ⟨next, others⟩ ∨
    (made = [] ∧ after = worker ∧ next = store)
  reads : made.filterMap Deed.read? = readMade lock.slot answer

theorem retold_saw {pos : Nat} {list : CurrentList} {state : Acquisition}
    (fresh : worker.sets.pending lock.id = none) (locks : worker.locksOnRead lock store = true)
    (asked : worker.list.getOrAdd lock .shared = .ok (pos, list))
    (among : Acquisition.AmongObedient 1 pos others (.start list store) (.ok ()) others state)
    {content : UInt64 × UInt64} (here : content = (state.store.recordAt lock.slot).readLocked)
    {answer : Outcome UInt64}
    (seen : sawVersion { worker with list := state.list } lock content = (answer, after)) :
    worker.Retold lock store others (Deed.made (.locked lock content.1 content.2) answer) answer after
      state.store := by
  obtain ⟨version, value⟩ := content
  obtain ⟨versions, values⟩ := Prod.mk.inj here
  have before := World.obeys_refl ⟨store, others⟩
  have behind := World.obeys_refl ⟨state.store, others⟩
  exact ⟨Or.inl (.locked fresh before locks asked among behind behind version value versions values
    seen), Deed.made_reads seen rfl⟩

theorem retold_locked (sound : worker.list.Sound ids) (fresh : worker.sets.pending lock.id = none)
    (locks : worker.locksOnRead lock store = true) :
    let read := worker.readLocked lock store
    let content := (read.2.2.recordAt lock.slot).readLocked
    worker.Retold lock store others (Deed.made (.locked lock content.1 content.2) read.1) read.1 read.2.1
      read.2.2 := by
  intro read content
  subst content
  subst read
  rw [readLocked]
  cases asked : worker.list.getOrAdd lock .shared with
  | error misuse => exact ⟨Or.inr ⟨rfl, rfl, rfl⟩, rfl⟩
  | ok grown =>
      obtain ⟨pos, list⟩ := grown
      obtain ⟨first, bound, _⟩ := CurrentList.get_or_add_position sound.buffer asked
      have inside : list.buffer.holds pos = true := decide_eq_true ⟨first, bound⟩
      have among := Acquisition.steps_obedient 1 pos others (.start list store)
      simp only [CurrentList.acquireThrough, inside, if_true]
      generalize Acquisition.steps 1 pos (.start list store) = taken at among
      obtain ⟨outcome, state⟩ := taken
      have missed : outcome ≠ .ok () → worker.ReadsAmong ⟨store, others⟩ lock []
          { worker with list := state.list } ⟨state.store, others⟩ :=
        .missed fresh (World.obeys_refl ⟨store, others⟩) locks asked among
      cases outcome with
      | ok _ =>
          simp only
          generalize seen : sawVersion { worker with list := state.list } lock
            (state.store.recordAt lock.slot).readLocked = saw
          exact retold_saw fresh locks asked among rfl seen
      | fault fault => exact ⟨Or.inl (missed (by simp)), rfl⟩
      | misuse misuse => exact ⟨Or.inl (missed (by simp)), rfl⟩
      | waiting id => exact ⟨Or.inl (missed (by simp)), rfl⟩

theorem retold_optimistic (fresh : worker.sets.pending lock.id = none)
    (free : worker.locksOnRead lock store = false) :
    let read := worker.readOptimistic lock store
    let content := (read.2.2.recordAt lock.slot).readLocked
    worker.Retold lock store others (Deed.made (.optimistic lock content.1 content.2) read.1) read.1
      read.2.1 read.2.2 := by
  intro read content
  subst content
  subst read
  rw [readOptimistic, Record.readOptimistic]
  by_cases readable : (store.recordAt lock.slot).version < Record.beingWritten
  · simp only [if_pos readable]
    generalize seen : worker.sawVersion lock
      ((store.recordAt lock.slot).version, (store.recordAt lock.slot).value) = saw
    have stays := World.obeys_refl ⟨store, others⟩
    exact ⟨Or.inl (.optimistic fresh stays free stays _ _ seen), Deed.made_reads seen rfl⟩
  · rw [if_neg readable]
    exact ⟨Or.inr ⟨rfl, rfl, rfl⟩, rfl⟩

def deedsOfRead (worker : Worker) (lock : LockRef) (store : Store) : List Deed :=
  match worker.sets.pending lock.id with
  | some write => [.own lock write.value]
  | none =>
      let (answer, _, next) := worker.read lock store
      let (version, value) := (next.recordAt lock.slot).readLocked
      Deed.made (if worker.locksOnRead lock store then .locked lock version value
        else .optimistic lock version value) answer

theorem read_retold (sound : worker.list.Sound ids) (others : Tally) (lock : LockRef) (store : Store) :
    worker.Retold lock store others (worker.deedsOfRead lock store) (worker.read lock store).1
      (worker.read lock store).2.1 (worker.read lock store).2.2 := by
  rw [deedsOfRead, read]
  cases pending : worker.sets.pending lock.id with
  | some write => exact ⟨Or.inl (.own write pending), rfl⟩
  | none =>
      cases locks : worker.locksOnRead lock store with
      | true => exact retold_locked sound pending locks
      | false => exact retold_optimistic pending locks

theorem secure_obedient (others : Tally) (won : worker.secure store = (.ok (), after, next)) :
    worker.SecuresObedient ⟨store, others⟩ (.ok ()) after ⟨next, others⟩ := by
  rcases worker.secure_steps store with ⟨misuse, full⟩ | ⟨list, merged, secured⟩
  · rw [won] at full
    cases full
  · rw [won] at secured
    have among := Acquisition.steps_obedient 1 list.buffer.active others (.start list store)
    generalize Acquisition.steps 1 list.buffer.active (.start list store) = taken at secured among
    obtain ⟨outcome, state⟩ := taken
    cases secured
    exact .taken list _ _ _ merged among

theorem sets_start (worker : Worker) : worker.start.2.sets = worker.sets.clear := by
  rw [start_eq]
  simp only
  split
  · rw [seeded]
    split <;> rfl
  · rfl

end Worker

structure Attempting (ids : List UInt64) (table : Table) (start : Point) (others : Tally)
    (deeds : List Deed) (worker : Worker) (arena : Arena Outsiders) : Prop where
  active : worker.Active ids
  orderly : worker.Orderly ids others arena
  soFar : Point.Does table start deeds
    ⟨.serving, worker, ⟨arena.store, others.plus arena.outside.tally⟩⟩

-- Events that are some more of the same attempt, with the same reads.
def Continues (ids : List UInt64) (table : Table) (worker : Worker) (arena : Arena Outsiders)
    (events : List (Event Act Reply)) (after : Worker) (last : Arena Outsiders) : Prop :=
  ∀ start others deeds, Attempting ids table start others deeds worker arena →
    ∃ lost more, Attempting ids table start (others.plus lost) (deeds ++ more) after last ∧
      more.filterMap Deed.read? = (Event.accesses table events).filter Access.isRead

namespace Attempting

variable {start : Point} {others lost : Tally} {deeds : List Deed} {worker after : Worker}
  {arena last : Arena Outsiders} {events : List (Event Act Reply)}

theorem goes (more : List Deed)
    (attempting : Attempting ids table start others (deeds ++ more) after last)
    (reads : more.filterMap Deed.read? = (Event.accesses table events).filter Access.isRead) :
    ∃ lost more, Attempting ids table start (others.plus lost) (deeds ++ more) after last ∧
      more.filterMap Deed.read? = (Event.accesses table events).filter Access.isRead := by
  refine ⟨fun _ _ => 0, more, ?_, reads⟩
  rwa [Tally.plus_nothing others _ fun _ _ => rfl]

theorem with_others (attempting : Attempting ids table start others deeds worker arena)
    (obeys : World.Obeys ⟨arena.store, arena.outside.tally⟩
      ⟨last.store, lost.plus last.outside.tally⟩) (sound : last.Sound ids)
    (seated : ∀ seat other, last.worker seat = some other → other.list.breaches = #[]) :
    Attempting ids table start (others.plus lost) deeds worker last := by
  have acted := obeys.frame others
  rw [← Tally.plus_assoc] at acted
  have accounts : last.store.Accounts (((others.plus lost).plus last.outside.tally).plus
      (Entry.tally worker.list.entries)) := (attempting.orderly.in_order.fair acted.fair).accounts
  rw [Tally.plus_right_comm] at accounts
  exact ⟨attempting.active, ⟨⟨sound, accounts, seated⟩, attempting.orderly.sound,
    attempting.orderly.clean⟩, attempting.soFar.others acted⟩

end Attempting

theorem Point.Does.read_slot {start : Point} {deeds : List Deed} {worker : Worker} {store : Store}
    {others : Tally} {key : UInt64} {slot : Nat} (sound : worker.list.Sound ids)
    (found : table.slot key = .ok slot)
    (soFar : Point.Does table start deeds ⟨.serving, worker, ⟨store, others⟩⟩) :
    let read := worker.read (store.lockAt slot) store
    Point.Does table start (deeds ++ worker.deedsOfRead (store.lockAt slot) store)
      ⟨.serving, read.2.1, ⟨read.2.2, others⟩⟩ := by
  intro read
  rcases (Worker.read_retold sound others (store.lockAt slot) store).among with
    goes | ⟨none, same, still⟩
  · exact soFar.read found goes
  · rw [none, List.append_nil, show read.2.1 = worker from same, show read.2.2 = store from still]
    exact soFar

theorem Point.Does.read_key {start : Point} {deeds : List Deed} {worker : Worker} {store : Store}
    {others : Tally} (sound : worker.list.Sound ids) (key : UInt64)
    (soFar : Point.Does table start deeds ⟨.serving, worker, ⟨store, others⟩⟩) :
    let answer := worker.readKey table key store
    ∃ more, Point.Does table start (deeds ++ more) ⟨.serving, answer.2.1, ⟨answer.2.2, others⟩⟩ ∧
      more.filterMap Deed.read? = (Event.accesses table [.read key answer.1]).filter Access.isRead := by
  intro answer
  subst answer
  rw [Worker.readKey]
  cases found : table.slot key with
  | error fault =>
      refine ⟨[], ?_, rfl⟩
      rwa [List.append_nil]
  | ok slot =>
      simp only
      have reads := (Worker.read_retold sound others (store.lockAt slot) store).reads
      refine ⟨_, soFar.read_slot sound found, reads.trans ?_⟩
      rw [Worker.accesses_read found]
      cases (worker.read (store.lockAt slot) store).1 <;> rfl

theorem Event.accesses_write (table : Table) (key value : UInt64) (outcome : Outcome Unit) :
    (Event.accesses table [.write key value outcome]).filter Access.isRead = [] := by
  cases outcome with
  | ok done => cases found : table.slot key <;> simp [accesses, access?, found, Except.toOption, Access.isRead]
  | fault fault => rfl
  | misuse misuse => rfl
  | waiting id => rfl

theorem continues_execute (different : ids.Nodup) (fits : table.Fits ids) (nonzero : 0 ∉ ids) :
    Body.Obeyed table (Act.perform table) (Continues ids table) := by
  have leads : ∀ inner : Transaction Act Reply,
      Worker.LeadsOn ids fun past => (inner past).execute table (Act.perform table) :=
    fun inner past worker arena placed =>
      ((leads_execute different fits nonzero).execute (inner past) worker arena placed).2
  have nothing : ∀ worker arena, Continues ids table worker arena [] worker arena := by
    intro worker arena start others deeds attempting
    refine Attempting.goes [] ?_ rfl
    rwa [List.append_nil]
  constructor
  case nothing => exact nothing
  case both =>
    intro worker mid last arena between final first rest early late start others deeds attempting
    obtain ⟨lost, more, goes, before⟩ := early start others deeds attempting
    obtain ⟨again, further, ends, behind⟩ := late start _ _ goes
    refine ⟨lost.plus again, more ++ further, ?_, ?_⟩
    · rwa [← Tally.plus_assoc, ← List.append_assoc]
    · rw [List.filterMap_append, before, behind, ← List.filter_append, Event.accesses, Event.accesses,
        ← List.filterMap_append]
      rfl
  case read =>
    rintro worker arena key answer start others deeds ⟨⟨accesses, busy⟩, orderly, soFar⟩
    have goes := Worker.read_key_goes different table busy orderly.around.sound.named fits key
    have ordered := Worker.read_key_in_order fits orderly.in_order key
    obtain ⟨more, further, reads⟩ := soFar.read_key orderly.sound key
    exact Attempting.goes more ⟨⟨_, goes.busy⟩, orderly.goes ordered, further⟩ reads
  case write =>
    rintro worker arena key value answer start others deeds ⟨⟨accesses, busy⟩, orderly, soFar⟩
    have goes := Worker.write_key_goes table busy orderly.around.sound.named fits key value
    have list := Worker.list_write_key worker table key value arena.store
    refine Attempting.goes [] ⟨⟨_, goes.busy⟩, orderly.goes (list ▸ orderly.in_order), ?_⟩
      (Event.accesses_write table key value answer.1).symm
    rw [List.append_nil]
    exact soFar.write key value
  case act =>
    intro worker arena action answer start others deeds attempting
    have around := attempting.orderly.around.act fits action
    have sound := attempting.orderly.around.sound
    have obeys := Act.perform_obeys fits action sound.named sound.outside
    rw [← Tally.nothing_plus (action.perform table arena.outside arena.store).2.1.tally] at obeys
    have goes := attempting.with_others obeys around.sound around.seated
    exact ⟨_, [], by rwa [List.append_nil], rfl⟩
  case away => exact fun worker arena seat => nothing worker arena
  case ran =>
    intro worker arena seat other inner continues here ran start others deeds attempting
    have before := attempting.orderly.around
    have keeps := keeps_order_transaction different fits nonzero inner
    obtain ⟨lost, obeys⟩ := run_obeys different fits nonzero inner (leads inner) before seat other here
    obtain ⟨_, _, around⟩ := run_orderly different fits nonzero inner keeps before seat other here
    have goes := attempting.with_others obeys around.sound around.seated
    exact ⟨lost, [], by rwa [List.append_nil], rfl⟩

theorem Point.told_start {worker started : Worker} {world : World} (idle : worker.Idle ids)
    (start : worker.start = (.ok (), started)) (ordered : started.list.InOrder ids world) :
    Told ids [] ⟨.serving, started, world⟩ := by
  have busy := Worker.start_active idle start
  have sets := worker.sets_start
  rw [start] at sets
  refine ⟨⟨busy.sound, ordered, [], busy.records⟩, nofun, nofun, nofun, fun _ => nofun,
    fun read listed => ?_, .nil⟩
  change read ∈ started.sets.reads.toList at listed
  rw [sets] at listed
  cases listed

structure Executed.Tells (table : Table) (start : Point) (executed : Executed Act Reply Outsiders)
    (deeds : List Deed) (others : Tally) : Prop where
  attempted : Point.Does table start deeds
    ⟨.serving, executed.worker, ⟨executed.arena.store, others⟩⟩
  reads : deeds.filterMap Deed.read? = (Event.accesses table executed.events).filter Access.isRead
  secured : ∀ after next, executed.worker.secure executed.arena.store = (.ok (), after, next) →
    Point.Does table start deeds ⟨.secured, after, ⟨next, others⟩⟩ ∧
      -- Only a record that was read without its lock is to blame for a conflict.
      ∀ read, after.firstStale next = some read →
        ∃ version value, Deed.optimistic read.lock version value ∈ deeds

-- What a worker may rely on that has started an attempt.
structure Worker.KeepsLockedReads (table : Table) (started : Worker) (arena : Arena Outsiders) :
    Prop where
  others : ∃ others, arena.store.Accounts (Tally.plus others (Entry.tally started.list.entries))
  attempts : ∀ others, arena.store.Accounts (Tally.plus others (Entry.tally started.list.entries)) →
    ∀ deeds point, Point.Does table ⟨.serving, started, ⟨arena.store, others⟩⟩ deeds point →
      point.Stable deeds
  bodies : ∀ body : Body Act Reply, ∃ others deeds last,
    arena.store.Accounts (Tally.plus others (Entry.tally started.list.entries)) ∧
      (body.execute table (Act.perform table) started arena).Tells table
        ⟨.serving, started, ⟨arena.store, others⟩⟩ deeds last

theorem Attempting.tells {start : Point} {others : Tally} {deeds : List Deed}
    {executed : Executed Act Reply Outsiders} (different : ids.Nodup) (fits : table.Fits ids)
    (nonzero : 0 ∉ ids) (begins : start.Told ids [])
    (attempting : Attempting ids table start others deeds executed.worker executed.arena)
    (reads : deeds.filterMap Deed.read? = (Event.accesses table executed.events).filter Access.isRead) :
    executed.Tells table start deeds (others.plus executed.arena.outside.tally) := by
  refine ⟨attempting.soFar, reads, fun after next won => ?_⟩
  have secured := attempting.soFar.secure (Worker.secure_obedient _ won)
  refine ⟨secured, fun read blamed => Classical.byContradiction fun never => ?_⟩
  have serving := Point.deeds_told different fits nonzero attempting.soFar begins
  have told := Point.deeds_told different fits nonzero secured begins
  have current := (told.stable different).verified rfl read.lock
    (fun version value seen => never ⟨version, value, seen⟩) (serving.serving rfl _) read
    (List.mem_of_find?_eq_some blamed) rfl
  rw [List.find?_some blamed] at current
  cases current

theorem locked_reads_are_stable (table : Table) (few : table.size < UInt64.size)
    (workers : List Worker) (draws : Draws)
    (made : ∀ worker ∈ workers, ∃ settings, Worker.ofSettings settings = .ok worker)
    (arena : Arena Outsiders) (visited : Arena.Visited table (.ofTable table workers draws) arena)
    (seat : Nat) (worker : Worker) (here : arena.worker seat = some worker)
    (transaction : Transaction Act Reply) (turn : Turn Act Reply Outsiders)
    (comes : worker.ComesTo table arena seat transaction turn) (started : Worker)
    (start : turn.worker.start = (.ok (), started)) : started.KeepsLockedReads table turn.arena := by
  have different := Table.slot_ids_different table.size table.size_le
  have nonzero := Table.zero_not_slot_id table.size few
  have fits := table.fits_slot_ids
  obtain ⟨others, orderly⟩ := visited.orderly different fits nonzero
    ⟨_, Arena.orderly_of_table table workers draws made⟩
  have keeps := keeps_order_transaction different fits nonzero transaction
  have reached := Turn.reached_orderly different nonzero keeps comes (orderly.leaves_seat seat worker here)
  obtain ⟨idle, lost, before⟩ := reached
  have begun := Worker.start_orderly idle before
  rw [start] at begun
  have ordered := begun.in_order
  refine ⟨⟨_, ordered.accounts⟩, fun others accounts deeds point attempted => ?_, fun body => ?_⟩
  · have around : started.list.InOrder _ ⟨turn.arena.store, others⟩ :=
      ⟨ordered.sound, ordered.named, accounts, ordered.clean⟩
    have begins := Point.told_start idle start around
    exact (Point.deeds_told different fits nonzero attempted begins).stable different
  · have attempting : Attempting _ table ⟨.serving, started, _⟩ _ [] started turn.arena :=
      ⟨⟨[], Worker.start_active idle start⟩, begun, .start⟩
    obtain ⟨more, deeds, ends, reads⟩ :=
      (continues_execute different fits nonzero).execute body started turn.arena _ _ _ attempting
    exact ⟨_, deeds, _, ordered.accounts,
      ends.tells different fits nonzero (Point.told_start idle start ordered) reads⟩

-- Both records are hot. The second one is read first, and so the lock of the first one comes in before
-- a lock that the worker has already.
def warmed : Store := ((Arena.ofTable .double [.alert] {}).store.bump 0).bump 1

def upperRead : Outcome UInt64 × Worker × Store :=
  Worker.alert.start.2.read (warmed.lockAt 1) warmed

def lowerRead : Outcome UInt64 × Worker × Store :=
  upperRead.2.1.read (upperRead.2.2.lockAt 0) upperRead.2.2

theorem warm_reads_are_locked :
    Point.Does .double ⟨.serving, Worker.alert.start.2,
        ⟨(Arena.ofTable .double [.alert] {}).store, fun _ _ => 0⟩⟩
      [.locked ⟨1, 2⟩ 0 0, .locked ⟨0, 1⟩ 0 0]
      ⟨.serving, lowerRead.2.1, ⟨lowerRead.2.2, fun _ _ => 0⟩⟩ := by
  have idle : Worker.alert.Idle (Table.slotIds 2) :=
    Worker.idle_of_settings _ { maxAccesses := 8, readLockThreshold := 1 } _ rfl
  have busy : Worker.alert.start.2.Busy (Table.slotIds 2) [] := Worker.start_active idle rfl
  have goes : Worker.Goes _ _ _ Worker.alert.start.2 warmed upperRead.2.1 upperRead.2.2 :=
    Worker.read_goes (by decide) busy (warmed.lockAt 1) (by cbv) (by cbv)
  have heats : World.Obeys ⟨(Arena.ofTable .double [.alert] {}).store, fun _ _ => 0⟩
      ⟨warmed, fun _ _ => 0⟩ := (World.obeys_bump 0).trans (World.obeys_bump 1)
  have first : Table.double.slot 0 = .ok 0 := by cbv
  have second : Table.double.slot 1 = .ok 1 := by cbv
  have warm : Point.Does .double _ [] ⟨.serving, Worker.alert.start.2, ⟨warmed, fun _ _ => 0⟩⟩ :=
    .others .start heats
  have upper := warm.read_slot busy.sound.list second
  have lower := upper.read_slot goes.busy.sound.list first
  have deeds : ([] ++ Worker.alert.start.2.deedsOfRead (warmed.lockAt 1) warmed) ++
      upperRead.2.1.deedsOfRead (upperRead.2.2.lockAt 0) upperRead.2.2 =
        [.locked ⟨1, 2⟩ 0 0, .locked ⟨0, 1⟩ 0 0] := by cbv
  rw [← deeds]
  exact lower

theorem warm_reads_are_stable :
    lowerRead.2.1.list.entries = [⟨some ⟨0, 1⟩, .shared, .shared, some .reader⟩,
        ⟨some ⟨1, 2⟩, .shared, .exclusive, some .writer⟩] ∧
      ∀ next, World.Obeys ⟨lowerRead.2.2, fun _ _ => 0⟩ next →
        (next.store.recordAt 0).version = 0 ∧ (next.store.recordAt 0).value = 0 ∧
          (next.store.recordAt 1).version = 0 ∧ (next.store.recordAt 1).value = 0 := by
  refine ⟨by cbv, fun next obeys => ?_⟩
  have keeps := locked_reads_are_stable .double (by decide) [.alert] {} alert_made _ .start 0 .alert rfl
    (fun _ => .done (.ok 0)) ⟨[], .alert, (Arena.ofTable .double [.alert] {}).setSeat 0 none⟩ .refl
    Worker.alert.start.2 rfl
  have free : (Arena.ofTable .double [.alert] {}).store.Accounts
      (Tally.plus (fun _ _ => 0) (Entry.tally Worker.alert.start.2.list.entries)) := by
    refine Store.accounts_congr (Arena.accounts_of_table .double [.alert] {}) fun slot kind => ?_
    rcases slot with _ | _ | slot <;> rfl
  have stable := keeps.attempts _ free _ _ (warm_reads_are_locked.others obeys)
  obtain ⟨version, value⟩ := stable.unchanged ⟨0, 1⟩ 0 0 (by decide) (by decide)
  exact ⟨version, value, stable.unchanged ⟨1, 2⟩ 0 0 (by decide) (by decide)⟩

end LockOrder
