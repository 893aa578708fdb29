import LockOrder.Proofs.Store.Hotness
import LockOrder.Proofs.Worker.Unbroken

set_option autoImplicit false

namespace LockOrder

namespace CurrentList

variable {ids : List UInt64} {list : CurrentList} {world : World} {lock : LockRef}

def HasLock (list : CurrentList) (lock : LockRef) : Prop :=
  ∃ entry ∈ list.entries, entry.lock = some lock ∧ entry.isLocked = true

theorem HasLock.tally (has : list.HasLock lock) (sound : list.Sound ids) :
    ∃ kind, 0 < Entry.tally list.entries lock.slot kind := by
  obtain ⟨entry, listed, named, locked⟩ := has
  obtain ⟨kind, handle, mode⟩ := Entry.handle_of_locked (sound.entries entry listed) locked
  exact ⟨kind, List.countP_pos_iff.mpr ⟨entry, listed, by simp [Entry.owns, named, mode, handle]⟩⟩

theorem tally_of_not_has (none : ¬ list.HasLock lock) (sound : list.Sound ids) (on : lock.On ids)
    (kind : Handle) : Entry.tally list.entries lock.slot kind = 0 := by
  rw [Entry.tally, List.countP_eq_zero]
  intro entry listed owned
  obtain ⟨own, named, there⟩ := (sound.entries entry listed).listed
  rw [Entry.owns, decide_eq_true_eq, named] at owned
  obtain ⟨slot, mode, _⟩ := owned
  have same : own = lock := LockRef.on_slot there on (Option.some.inj slot)
  refine none ⟨entry, listed, by rw [named, same], ?_⟩
  rw [Entry.isLocked, mode]
  cases kind <;> rfl

theorem InOrder.foreign_owner (ordered : list.InOrder ids world) (on : lock.On ids) :
    world.others lock.slot .writer ≠ 0 ↔
      ¬ list.HasLock lock ∧ (world.store.recordAt lock.slot).lock.isWriteLocked = true := by
  have inside : lock.slot < world.store.records.size := on.inside ordered.named
  by_cases has : list.HasLock lock
  · have free : world.others lock.slot .writer = 0 := by
      obtain ⟨kind, own⟩ := has.tally ordered.sound
      exact Store.accounts_unowned ordered.accounts inside own
    exact ⟨fun some => absurd free some, fun both => absurd has both.1⟩
  · have theirs : (world.store.recordAt lock.slot).lock.Counts (world.others lock.slot) :=
      RwLock.counts_congr (ordered.accounts lock.slot inside) fun kind => by
        rw [Tally.plus, tally_of_not_has has ordered.sound on kind, Nat.add_zero]
    rw [RwLock.write_locked_iff theirs]
    exact ⟨fun some => ⟨has, some⟩, fun both => both.2⟩

end CurrentList

theorem Acquisition.Among.only_races {pos count : Nat} {others last : Tally}
    {state final : Acquisition} {outcome : Outcome Unit}
    (among : Among pos count others state outcome last final) : OnlyRaces outcome := by
  induction among with
  | done pos others state => exact fun _ same => by cases same
  | got fair step rest ih => exact ih
  | @stopped pos count others state final world outcome fair step missed =>
      have races := step_only_races { state with store := world.store } pos
      rwa [step] at races

namespace Worker

theorem SecuresAmong.only_races {worker after : Worker} {world last : World} {outcome : Outcome Unit}
    (among : worker.SecuresAmong world outcome after last) : Acquisition.OnlyRaces outcome := by
  obtain ⟨list, outcome, others, state, merged, among⟩ := among
  exact among.only_races

variable {ids : List UInt64} {worker : Worker} {store : Store}

theorem holds_iff (sound : worker.list.Sound ids) (different : ids.Nodup) {lock : LockRef}
    (on : lock.On ids) : worker.holds lock.id = true ↔ worker.list.HasLock lock := by
  have named : ∀ entry ∈ worker.list.entries, (entry.id = lock.id ↔ entry.lock = some lock) := by
    intro entry listed
    obtain ⟨own, named, there⟩ := (sound.entries entry listed).listed
    constructor
    · intro same
      rw [Entry.id, named] at same
      rw [named, LockRef.on_injective different there on same]
    · intro same
      rw [Entry.id, same]
  rw [holds, entryOf]
  constructor
  · intro held
    cases found : worker.list.buffer.find lock.id with
    | none =>
        rw [found] at held
        cases held
    | some pos =>
        rw [found] at held
        obtain ⟨first, last, here⟩ := (Buffer.find_eq_some_iff sound.buffer).mp found
        have listed := Buffer.cell_mem_entries _ sound.buffer.room pos first last
        exact ⟨_, listed, (named _ listed).mp here, held⟩
  · rintro ⟨entry, listed, own, locked⟩
    obtain ⟨pos, first, last, rfl⟩ := Buffer.mem_entries_cell _ sound.buffer.room entry listed
    have found := (Buffer.find_eq_some_iff sound.buffer).mpr
      ⟨first, last, (named _ listed).mpr own⟩
    rw [found]
    exact locked

-- The record has changed since the read, or it is locked by somebody else as a whole.
def Stale (worker : Worker) (store : Store) (read : ReadAccess) : Prop :=
  (store.recordAt read.lock.slot).version ≠ read.version ∨
    (¬ worker.list.HasLock read.lock ∧
      (store.recordAt read.lock.slot).lock.isWriteLocked = true)

theorem is_stale_iff (sound : worker.list.Sound ids) (different : ids.Nodup) (read : ReadAccess)
    (on : read.lock.On ids) : worker.isStale store read = true ↔ worker.Stale store read := by
  rw [isStale, Stale, ← holds_iff sound different on, ReadAccess.isCurrent, Bool.or_eq_true,
    Bool.and_eq_true, Bool.not_eq_true', Bool.not_eq_true', beq_eq_false_iff_ne, Bool.not_eq_true]

structure Verdict (worker : Worker) (store : Store) : Prop where
  conflict : (worker.settle store).1 = .fault .conflict ↔
    ∃ read ∈ worker.sets.reads.toList, worker.Stale store read
  -- The first stale read makes its record hotter, and nothing is installed.
  first : ∀ before read rest, worker.sets.reads.toList = before ++ read :: rest →
    (∀ other ∈ before, ¬ worker.Stale store other) → worker.Stale store read →
      ∃ next, worker.settle store = (.fault .conflict, worker, next) ∧
        store.Heated read.lock.slot next
  passes : (∀ read ∈ worker.sets.reads.toList, ¬ worker.Stale store read) →
    (worker.settle store).1 = .ok ()

theorem settle_verdict (sound : worker.Sound ids) (different : ids.Nodup) (named : store.ids = ids) :
    worker.Verdict store := by
  have stale : ∀ read ∈ worker.sets.reads.toList,
      (worker.isStale store read = true ↔ worker.Stale store read) := fun read listed =>
    is_stale_iff sound.list different read (sound.sets.reads read listed)
  have blames : ∀ read, worker.firstStale store = some read →
      worker.settle store = (.fault .conflict, worker, store.bump read.lock.slot) := by
    intro read found
    rw [settle, found]
  have clears : worker.firstStale store = none → (worker.settle store).1 = .ok () := by
    intro none
    rw [settle, none]
  refine ⟨?_, fun before read rest split good wrong => ?_, fun good => clears ?_⟩
  · cases found : worker.firstStale store with
    | none =>
        have none := List.find?_eq_none.mp found
        constructor
        · intro lost
          rw [clears found] at lost
          cases lost
        · rintro ⟨read, listed, wrong⟩
          exact absurd ((stale read listed).mpr wrong) (none read listed)
    | some read =>
        have listed := List.mem_of_find?_eq_some found
        have wrong := (stale read listed).mp (List.find?_some found)
        rw [blames read found]
        exact ⟨fun _ => ⟨read, listed, wrong⟩, fun _ => rfl⟩
  · have here : read ∈ worker.sets.reads.toList := by
      rw [split]
      exact List.mem_append_right _ (List.mem_cons_self ..)
    have found : worker.firstStale store = some read := by
      refine List.find?_eq_some_iff_append.mpr ⟨(stale read here).mpr wrong, before, rest, split,
        fun other listed => ?_⟩
      have there : other ∈ worker.sets.reads.toList := by
        rw [split]
        exact List.mem_append_left _ listed
      rw [Bool.not_eq_true', ← Bool.not_eq_true, stale other there]
      exact good other listed
    have inside : read.lock.slot < store.records.size := (sound.sets.reads read here).inside named
    exact ⟨_, blames read found, store.bump_heated read.lock.slot inside⟩
  · refine List.find?_eq_none.mpr fun read listed => ?_
    rw [stale read listed]
    exact good read listed

structure Judged (worker : Worker) (store : Store) : Prop where
  others : ∃ others, store.Accounts (Tally.plus others (Entry.tally worker.list.entries))
  -- Others act before every single lock is taken. Once the worker has all of them, the records may be
  -- as they like, and so may be what others have then.
  secured : ∀ others, store.Accounts (Tally.plus others (Entry.tally worker.list.entries)) →
    ∀ outcome after last, worker.SecuresAmong ⟨store, others⟩ outcome after last →
      (∀ fault, outcome = .fault fault → fault = .raceAbort) ∧
      (outcome = .ok () → after.sets.reads = worker.sets.reads ∧
        (∀ entry ∈ after.list.entries, entry.isEnough = true) ∧
        (∀ now : Store, now.ids = store.ids → after.Verdict now) ∧
        ∀ world, last.Fair world → ∀ read ∈ after.sets.reads.toList,
          (after.Stale world.store read ↔
            (world.store.recordAt read.lock.slot).version ≠ read.version ∨
              world.others read.lock.slot .writer ≠ 0))
  settled : ∀ after next, worker.secure store = (.ok (), after, next) →
    worker.commit store = after.settle next ∧ after.Verdict next
  -- Without all locks, no record but for its lock has been touched.
  stopped : ∀ fault after next, worker.secure store = (.fault fault, after, next) →
    fault = .raceAbort ∧ worker.commit store = (.fault .raceAbort, after, next) ∧
      next.bare = store.bare

variable {accesses : List Access} {others : Tally} {outcome : Outcome Unit} {after : Worker}
  {last : World}

theorem secured_enough (busy : worker.Busy ids accesses)
    (ordered : worker.list.InOrder ids ⟨store, others⟩)
    (among : worker.SecuresAmong ⟨store, others⟩ (.ok ()) after last) :
    ∀ entry ∈ after.list.entries, entry.isEnough = true := by
  obtain ⟨list, _, others, state, merged, among⟩ := among
  have begins := merged_in_order busy ordered merged
  have ends := among.ends begins Nat.one_pos (Nat.le_of_eq (Nat.add_comm 1 _))
  have active : state.list.buffer.active = list.buffer.active := ends.active
  intro entry listed
  obtain ⟨pos, first, bound, rfl⟩ := Buffer.mem_entries_cell state.list.buffer
    ends.ordered.ready.sound.buffer.room entry listed
  exact ends.enough rfl pos first (by omega)

theorem busy_judged (different : ids.Nodup) (busy : worker.Busy ids accesses)
    (ordered : worker.list.InOrder ids ⟨store, others⟩) : worker.Judged store := by
  have atomic := secure_secures busy.sound store
  have races := secure_only_races worker store
  refine ⟨⟨others, ordered.accounts⟩, fun others accounts outcome after last among => ?_,
    fun after next won => ?_, fun fault after next lost => ?_⟩
  · have around : worker.list.InOrder ids ⟨store, others⟩ :=
      ⟨ordered.sound, ordered.named, accounts, ordered.clean⟩
    have secured := secures busy around among
    refine ⟨among.only_races, fun won => ?_⟩
    subst won
    have reads : after.sets.reads = worker.sets.reads := by
      rw [secured.sets]
      rfl
    refine ⟨reads, secured_enough busy around among,
      fun now named => settle_verdict secured.sound different (named.trans ordered.named),
      fun world fair read listed => ?_⟩
    rw [Stale, (secured.ordered.fair fair).foreign_owner (secured.sound.sets.reads read listed)]
  · rw [won] at atomic
    have named := (Store.ids_of_bare atomic.bare).trans ordered.named
    rw [commit, won]
    exact ⟨rfl, settle_verdict atomic.sound different named⟩
  · rw [lost] at atomic races
    obtain rfl := races fault rfl
    rw [commit, lost]
    exact ⟨rfl, rfl, atomic.bare⟩

end Worker

theorem verdict_is_exact (table : Table) (few : table.size < UInt64.size) (workers : List Worker)
    (draws : Draws) (made : ∀ worker ∈ workers, ∃ settings, Worker.ofSettings settings = .ok worker)
    (arena : Arena Outsiders) (visited : Arena.Visited table (.ofTable table workers draws) arena)
    (seat : Nat) (worker : Worker) (here : arena.worker seat = some worker)
    (transaction : Transaction Act Reply) (turn : Turn Act Reply Outsiders)
    (comes : worker.ComesTo table arena seat transaction turn) (started : Worker)
    (start : turn.worker.start = (.ok (), started)) (body : Body Act Reply) :
    let executed := body.execute table (Act.perform table) started turn.arena
    executed.worker.Judged executed.arena.store := by
  have different := Table.slot_ids_different table.size table.size_le
  have nonzero := Table.zero_not_slot_id table.size few
  have fits := table.fits_slot_ids
  obtain ⟨others, orderly⟩ := visited.orderly different fits nonzero
    ⟨_, Arena.orderly_of_table table workers draws made⟩
  have keeps := keeps_order_transaction different fits nonzero transaction
  have reached := Turn.reached_orderly different nonzero keeps comes (orderly.leaves_seat seat worker here)
  obtain ⟨⟨accesses, busy⟩, lost, executed⟩ :=
    Turn.inside_orderly different fits nonzero reached start body
  exact Worker.busy_judged different busy executed.in_order

-- The worker reads both records and writes the second one; somebody else then locks the first one.
def encounter : Body Act Reply :=
  .read 1 fun _ => .read 0 fun _ => .write 1 5 fun _ => .act (.take 0 .writer) fun _ => .done (.ok 7)

def encountered : Executed Act Reply Outsiders :=
  encounter.execute .double (Act.perform .double) Worker.alert.start.2
    ((Arena.ofTable .double [.alert] {}).setSeat 0 none)

theorem encounter_secures :
    let secured := encountered.worker.secure encountered.arena.store
    secured.1 = .ok () ∧ secured.2.1.sets.reads.toList = [⟨⟨1, 2⟩, 0⟩, ⟨⟨0, 1⟩, 0⟩] ∧
      secured.2.1.list.entries = [⟨some ⟨1, 2⟩, .exclusive, .exclusive, some .writer⟩] ∧
      (secured.2.2.recordAt 0).lock.isWriteLocked = true ∧
      (secured.2.2.recordAt 1).lock.isWriteLocked = true ∧ (secured.2.2.recordAt 1).version = 0 ∧
      (secured.2.2.recordAt 0).hotness.level = 0 := by
  refine ⟨by cbv, by cbv, by cbv, by cbv, by cbv, by cbv, by cbv⟩

-- Its own lock on the second record does not count, that of somebody else on the first one does.
theorem encounter_is_a_conflict :
    ∃ after next last, encountered.worker.secure encountered.arena.store = (.ok (), after, next) ∧
      after.list.HasLock ⟨1, 2⟩ ∧ (next.recordAt 1).lock.isWriteLocked = true ∧
      encountered.worker.commit encountered.arena.store = (.fault .conflict, after, last) ∧
      (next.recordAt 0).hotness.level = 0 ∧ (last.recordAt 0).hotness.level = 1 ∧
      last.recordAt 1 = next.recordAt 1 := by
  have judged := verdict_is_exact .double (by decide) [.alert] {} alert_made _ .start 0 .alert rfl
    (fun _ => encounter) ⟨[], .alert, (Arena.ofTable .double [.alert] {}).setSeat 0 none⟩
    .refl Worker.alert.start.2 rfl encounter
  have settled : ∀ after next, encountered.worker.secure encountered.arena.store =
      (.ok (), after, next) → encountered.worker.commit encountered.arena.store = after.settle next ∧
        after.Verdict next := judged.settled
  obtain ⟨won, reads, entries, taken, own, current, cold⟩ := encounter_secures
  generalize encountered.worker.secure encountered.arena.store = result at *
  obtain ⟨outcome, after, next⟩ := result
  obtain rfl : outcome = .ok () := won
  obtain ⟨same, verdict⟩ := settled after next rfl
  have has : after.list.HasLock ⟨1, 2⟩ := ⟨_, entries ▸ List.mem_singleton_self _, rfl, rfl⟩
  have foreign : ¬ after.list.HasLock ⟨0, 1⟩ := by
    rintro ⟨entry, listed, named, _⟩
    rw [entries] at listed
    rw [List.mem_singleton.mp listed] at named
    cases named
  have good : ∀ other ∈ [(⟨⟨1, 2⟩, 0⟩ : ReadAccess)], ¬ after.Stale next other := by
    intro other listed stale
    rw [List.mem_singleton.mp listed] at stale
    rcases stale with changed | ⟨without, _⟩
    · exact changed current
    · exact without has
  obtain ⟨last, blamed, heated⟩ :=
    verdict.first [⟨⟨1, 2⟩, 0⟩] ⟨⟨0, 1⟩, 0⟩ [] reads good (Or.inr ⟨foreign, taken⟩)
  exact ⟨after, next, last, rfl, has, own, same.trans blamed, cold, (heated.grown.cold cold).1,
    heated.others 1 (by decide)⟩

end LockOrder
