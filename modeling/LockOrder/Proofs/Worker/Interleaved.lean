import LockOrder.Proofs.CurrentList.Request
import LockOrder.Proofs.Worker.Orderly

set_option autoImplicit false

namespace LockOrder

namespace Worker

inductive Phase where
  | resting
  | serving
  -- It has all locks of its commit.
  | secured
  | stopped
  -- It has given back all locks.
  | released

end Worker

structure Point where
  phase : Worker.Phase
  worker : Worker
  world : World

namespace Point

-- A step of the worker, or of others. What the worker sees of records may be from any time.
inductive Step (table : Table) : Point → Point → Prop where
  | others {phase : Worker.Phase} {worker : Worker} {world next : World} (fair : world.Fair next) :
      Step table ⟨phase, worker, world⟩ ⟨phase, worker, next⟩
  | count {phase : Worker.Phase} {worker : Worker} {world : World} (stats : Statistics) :
      Step table ⟨phase, worker, world⟩ ⟨phase, { worker with stats }, world⟩
  | start {worker started : Worker} {world : World} (begun : worker.start = (.ok (), started)) :
      Step table ⟨.resting, worker, world⟩ ⟨.serving, started, world⟩
  | lock {worker : Worker} {store : Store} {others last : Tally} {key : UInt64} {slot pos : Nat}
      {list : CurrentList} {outcome : Outcome Unit} {state : Acquisition}
      (found : table.slot key = .ok slot)
      (asked : worker.list.getOrAdd (store.lockAt slot) .shared = .ok (pos, list))
      (among : Acquisition.Among 1 pos others (.start list store) outcome last state) :
      Step table ⟨.serving, worker, ⟨store, others⟩⟩
        ⟨.serving, { worker with list := state.list }, ⟨state.store, last⟩⟩
  | see {worker : Worker} {store : Store} {others : Tally} {key : UInt64} {slot : Nat}
      (content : UInt64 × UInt64) (found : table.slot key = .ok slot) :
      Step table ⟨.serving, worker, ⟨store, others⟩⟩
        ⟨.serving, (worker.sawVersion (store.lockAt slot) content).2, ⟨store, others⟩⟩
  | write {worker : Worker} {store : Store} {others : Tally} (key value : UInt64) :
      Step table ⟨.serving, worker, ⟨store, others⟩⟩
        ⟨.serving, (worker.writeKey table key value store).2, ⟨store, others⟩⟩
  | secure {worker after : Worker} {store : Store} {others : Tally} {last : World}
      (among : worker.SecuresAmong ⟨store, others⟩ (.ok ()) after last) :
      Step table ⟨.serving, worker, ⟨store, others⟩⟩ ⟨.secured, after, last⟩
  | miss {worker after : Worker} {store : Store} {others : Tally} {outcome : Outcome Unit}
      {last : World} (among : worker.SecuresAmong ⟨store, others⟩ outcome after last) :
      Step table ⟨.serving, worker, ⟨store, others⟩⟩ ⟨.stopped, after, last⟩
  | conflict {worker : Worker} {store : Store} {others : Tally} (slot : Nat) :
      Step table ⟨.secured, worker, ⟨store, others⟩⟩ ⟨.stopped, worker, ⟨store.bump slot, others⟩⟩
  | install {worker : Worker} {store : Store} {others : Tally} {write : WriteAccess}
      (listed : write ∈ Worker.lastWrites worker.sets.writes.toList) :
      Step table ⟨.secured, worker, ⟨store, others⟩⟩
        ⟨.secured, (Worker.install (worker, store) write).1,
          ⟨(Worker.install (worker, store) write).2, others⟩⟩
  | release {phase : Worker.Phase} {worker : Worker} {world last : World} {list : CurrentList}
      (releases : worker.list.ReleasesAmong world list last) :
      Step table ⟨phase, worker, world⟩ ⟨.released, { worker with list }, last⟩
  | clear {worker : Worker} {world : World} :
      Step table ⟨.released, worker, world⟩ ⟨.resting, worker.clearAttempt, world⟩
  | remember {worker : Worker} {world : World} {retro : RetroList} (seen : Store)
      (constructed : worker.retro.construct worker.sets worker.settings.readLockThreshold seen =
        .ok retro) :
      Step table ⟨.released, worker, world⟩ ⟨.resting, { worker.clearAttempt with retro }, world⟩
  | forget {worker : Worker} {world : World} :
      Step table ⟨.resting, worker, world⟩ ⟨.resting, worker.forget, world⟩

def Course (table : Table) : Point → Point → Prop := Relation.ReflTransGen (Step table)

def Has (worker : Worker) : Worker.Phase → Prop
  | .resting => worker.list.entries = []
  | .serving => ∃ accesses, worker.sets.Records accesses
  | .secured => ∀ write ∈ worker.sets.writes.toList, worker.owns write.id = true
  | .stopped => True
  | .released => worker.list.isHolding = false

structure InOrder (ids : List UInt64) (point : Point) : Prop where
  sound : point.worker.Sound ids
  list : point.worker.list.InOrder ids point.world
  has : Has point.worker point.phase

variable {ids : List UInt64} {table : Table} {worker after : Worker} {store : Store}
  {others : Tally} {world last : World} {point next : Point}

theorem start_in_order {started : Worker} (begun : worker.start = (.ok (), started))
    (ordered : InOrder ids ⟨.resting, worker, ⟨store, others⟩⟩) :
    InOrder ids ⟨.serving, started, ⟨store, others⟩⟩ := by
  have idle : worker.Idle ids := ⟨ordered.sound, ordered.has⟩
  have busy := Worker.start_active idle begun
  have list := Worker.start_in_order idle ordered.list
  rw [begun] at list
  exact ⟨busy.sound, list, [], busy.records⟩

theorem asked_in_order {lock : LockRef} {pos : Nat} {list : CurrentList}
    (ordered : InOrder ids ⟨.serving, worker, world⟩)
    (asked : worker.list.getOrAdd lock .shared = .ok (pos, list)) (on : lock.On ids) :
    Acquisition.InOrder ids world.others (.start list world.store) ∧ 0 < pos ∧
      pos ≤ list.buffer.active := by
  obtain ⟨store, others⟩ := world
  have before : worker.list.InOrder ids ⟨store, others⟩ := ordered.list
  have grown := CurrentList.get_or_add_keeps store lock .shared pos before.sound on asked
  have listed := before.keeps grown (CurrentList.breaches_get_or_add asked)
  obtain ⟨first, bound, _⟩ := CurrentList.get_or_add_position before.sound.buffer asked
  exact ⟨⟨Acquisition.ready_start list store listed.sound, listed⟩, first, bound⟩

theorem lock_in_order {last : Tally} {lock : LockRef} {pos : Nat} {list : CurrentList}
    {outcome : Outcome Unit} {state : Acquisition}
    (asked : worker.list.getOrAdd lock .shared = .ok (pos, list))
    (among : Acquisition.Among 1 pos others (.start list store) outcome last state)
    (on : lock.On ids) (ordered : InOrder ids ⟨.serving, worker, ⟨store, others⟩⟩) :
    InOrder ids ⟨.serving, { worker with list := state.list }, ⟨state.store, last⟩⟩ := by
  obtain ⟨begins, _, bound⟩ := asked_in_order ordered asked on
  have ends := among.ends begins Nat.one_pos (Nat.add_comm 1 pos ▸ Nat.succ_le_succ bound)
  exact ⟨ordered.sound.with_list _ ends.ordered.ready.sound, ends.ordered.around, ordered.has⟩

theorem see_in_order {lock : LockRef} (content : UInt64 × UInt64) (on : lock.On ids)
    (ordered : InOrder ids ⟨.serving, worker, world⟩) :
    InOrder ids ⟨.serving, (worker.sawVersion lock content).2, world⟩ := by
  rw [Worker.sawVersion]
  cases added : worker.sets.addRead lock content.1 with
  | error misuse => exact ordered
  | ok more =>
      obtain ⟨sound, list, accesses, records⟩ := ordered
      have kept := AccessSets.on_add_read sound.sets lock _ on added
      unfold AccessSets.addRead at added
      split at added <;> cases added
      exact ⟨sound.with_sets _ kept sound.capacity, list, _,
        AccessSets.records_read records lock.slot content.2 rfl⟩

theorem write_in_order (fits : table.Fits ids) (key value : UInt64)
    (ordered : InOrder ids ⟨.serving, worker, ⟨store, others⟩⟩) :
    InOrder ids ⟨.serving, (worker.writeKey table key value store).2, ⟨store, others⟩⟩ := by
  obtain ⟨sound, list, accesses, records⟩ := ordered
  have named : store.ids = ids := list.named
  have busy := (Worker.write_key_goes table ⟨sound, records⟩ named fits key value).busy
  have same := Worker.list_write_key worker table key value store
  exact ⟨busy.sound, same ▸ list, _, busy.records⟩

theorem secure_in_order {outcome : Outcome Unit}
    (among : worker.SecuresAmong ⟨store, others⟩ outcome after last)
    (ordered : InOrder ids ⟨.serving, worker, ⟨store, others⟩⟩) :
    InOrder ids ⟨.stopped, after, last⟩ ∧
      (outcome = .ok () → InOrder ids ⟨.secured, after, last⟩) := by
  obtain ⟨sound, list, accesses, records⟩ := ordered
  obtain ⟨sound, list, _, owned⟩ := Worker.secures ⟨sound, records⟩ list among
  exact ⟨⟨sound, list, trivial⟩, fun won => ⟨sound, list, owned won⟩⟩

theorem install_in_order {write : WriteAccess}
    (listed : write ∈ Worker.lastWrites worker.sets.writes.toList)
    (ordered : InOrder ids ⟨.secured, worker, ⟨store, others⟩⟩) :
    InOrder ids ⟨.secured, (Worker.install (worker, store) write).1,
      ⟨(Worker.install (worker, store) write).2, others⟩⟩ := by
  obtain ⟨sound, list, owned⟩ := ordered
  have own := owned write ((Worker.last_writes_sublist _).subset listed)
  have step : Worker.install (worker, store) write =
      (worker, store.install write.lock.slot write.value) := by
    rw [Worker.install, own]
    rfl
  rw [step]
  refine ⟨sound, ⟨list.sound, ?_, ?_, list.clean⟩, owned⟩
  · exact (Store.ids_install store _ _).trans list.named
  · exact Store.accounts_install store write.lock.slot write.value _ list.accounts

theorem release_in_order (nonzero : 0 ∉ ids) {list : CurrentList}
    (releases : worker.list.ReleasesAmong world list last) {phase : Worker.Phase}
    (ordered : InOrder ids ⟨phase, worker, world⟩) :
    InOrder ids ⟨.released, { worker with list }, last⟩ := by
  obtain ⟨gone, free⟩ := ordered.list.releases nonzero releases
  exact ⟨ordered.sound.with_list _ gone.sound, gone, free⟩

theorem clear_in_order (nonzero : 0 ∉ ids) {retro : RetroList} (kept : retro.Sound ids)
    (ordered : InOrder ids ⟨.released, worker, ⟨store, others⟩⟩) :
    InOrder ids ⟨.resting, { worker.clearAttempt with retro }, ⟨store, others⟩⟩ := by
  obtain ⟨sound, list, free⟩ := ordered
  have leaves : Worker.Leaves ids worker store worker store := ⟨sound, rfl, fun _ => free, fun _ => .refl⟩
  obtain ⟨cleared, idle⟩ := Worker.clear_attempt_leaves leaves
  obtain ⟨left, rests⟩ := cleared.with_retro { worker.clearAttempt with retro } idle rfl rfl kept
  have accounts := left.conserves nonzero others list.accounts
  have clean := (Worker.breaches_clear_attempt free).trans list.clean
  exact ⟨left.sound, ⟨left.sound.list, list.named, accounts, clean⟩, rests.empty⟩

theorem step_in_order (fits : table.Fits ids) (nonzero : 0 ∉ ids) (step : Step table point next)
    (ordered : point.InOrder ids) : next.InOrder ids := by
  have on : ∀ {key : UInt64} {slot : Nat} {store : Store}, store.ids = ids →
      table.slot key = .ok slot → (store.lockAt slot).On ids := fun named found =>
    Store.on_lock_within named _ (fits _ _ found)
  cases step with
  | others fair => exact ⟨ordered.sound, ordered.list.fair fair, ordered.has⟩
  | count stats =>
      obtain ⟨⟨list, retro, sets, capacity⟩, around, has⟩ := ordered
      rename_i phase worker world
      exact ⟨⟨list, retro, sets, capacity⟩, around, by cases phase <;> exact has⟩
  | start begun => exact start_in_order begun ordered
  | lock found asked among => exact lock_in_order asked among (on ordered.list.named found) ordered
  | see content found => exact see_in_order content (on ordered.list.named found) ordered
  | write key value => exact write_in_order fits key value ordered
  | secure among => exact (secure_in_order among ordered).2 rfl
  | miss among => exact (secure_in_order among ordered).1
  | conflict slot =>
      obtain ⟨sound, list, _⟩ := ordered
      have named := (Store.ids_bump _ slot).trans list.named
      exact ⟨sound, ⟨list.sound, named, Store.accounts_bump _ slot _ list.accounts, list.clean⟩, trivial⟩
  | install listed => exact install_in_order listed ordered
  | release releases => exact release_in_order nonzero releases ordered
  | clear => exact clear_in_order nonzero ordered.sound.retro ordered
  | remember seen constructed =>
      have room := ordered.sound.retro.buffer.room
      have kept := RetroList.construct_sound _ _ _ _ seen (Nat.lt_of_le_of_lt (Nat.zero_le _) room)
        ordered.sound.sets constructed
      exact clear_in_order nonzero kept ordered
  | forget =>
      obtain ⟨sound, list, has⟩ := ordered
      exact ⟨⟨sound.list, Worker.retro_reset_sound sound, sound.sets, sound.capacity⟩, list, has⟩

theorem course_in_order (fits : table.Fits ids) (nonzero : 0 ∉ ids) (course : Course table point next)
    (ordered : point.InOrder ids) : next.InOrder ids := by
  induction course with
  | refl => exact ordered
  | tail _ step ih => exact step_in_order fits nonzero step ih

structure Unbroken (point : Point) : Prop where
  clean : point.worker.list.breaches = #[]
  owned : point.phase = .secured → ∀ write ∈ point.worker.sets.writes.toList,
    point.worker.owns write.id = true ∧
      (point.world.store.recordAt write.lock.slot).lock.word = RwLock.exclusiveWord

theorem InOrder.unbroken (different : ids.Nodup) (ordered : point.InOrder ids) : point.Unbroken := by
  refine ⟨ordered.list.clean, fun secured write listed => ?_⟩
  obtain ⟨phase, worker, store, others⟩ := point
  cases secured
  have own := ordered.has write listed
  exact ⟨own, Worker.owned_locked different ordered.list write.lock (ordered.sound.sets.writes write listed)
    own⟩

end Point

-- Wherever the worker goes from here, whatever others do, no contract is broken.
structure Worker.KeepsContracts (table : Table) (phase : Phase) (worker : Worker) (store : Store) :
    Prop where
  others : ∃ others, store.Accounts (Tally.plus others (Entry.tally worker.list.entries))
  courses : ∀ others, store.Accounts (Tally.plus others (Entry.tally worker.list.entries)) →
    ∀ point, Point.Course table ⟨phase, worker, ⟨store, others⟩⟩ point → point.Unbroken

end LockOrder
