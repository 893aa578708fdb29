import LockOrder.Proofs.CurrentList.Guarded

set_option autoImplicit false

namespace LockOrder

inductive Deed where
  -- It read what it had written itself.
  | own (lock : LockRef) (value : UInt64)
  | locked (lock : LockRef) (version value : UInt64)
  | optimistic (lock : LockRef) (version value : UInt64)
  | installed (lock : LockRef)
deriving DecidableEq

namespace Deed

def made (deed : Deed) : Outcome UInt64 → List Deed
  | .ok _ => [deed]
  | _ => []

-- A record that has been read under its lock is read under its lock again, and with the same result.
def Agree (earlier later : Deed) : Prop :=
  ∀ lock version value, earlier = .locked lock version value → ∀ version' value',
    later ≠ .optimistic lock version' value' ∧
      (later = .locked lock version' value' → version' = version ∧ value' = value)

end Deed

namespace Worker

-- One read while others act: before the record is looked at, before every single lock, and before its
-- version and its value are loaded. What is read without a lock may be from any time. A read for which
-- there is no room, or that waits for ever, is not told of, for it changes nothing.
inductive ReadsAmong (worker : Worker) (world : World) (lock : LockRef) :
    List Deed → Worker → World → Prop where
  | own (write : WriteAccess) (here : worker.sets.pending lock.id = some write) :
      ReadsAmong worker world lock [.own lock write.value] worker world
  | missed {looked : World} {pos : Nat} {list : CurrentList} {outcome : Outcome Unit} {others : Tally}
      {state : Acquisition} (fresh : worker.sets.pending lock.id = none) (looks : world.Obeys looked)
      (locks : worker.locksOnRead lock looked.store = true)
      (asked : worker.list.getOrAdd lock .shared = .ok (pos, list))
      (among : Acquisition.AmongObedient 1 pos looked.others (.start list looked.store) outcome others
        state)
      (missed : outcome ≠ .ok ()) :
      ReadsAmong worker world lock [] { worker with list := state.list } ⟨state.store, others⟩
  | locked {looked first second : World} {pos : Nat} {list : CurrentList} {others : Tally}
      {state : Acquisition} (fresh : worker.sets.pending lock.id = none) (looks : world.Obeys looked)
      (locks : worker.locksOnRead lock looked.store = true)
      (asked : worker.list.getOrAdd lock .shared = .ok (pos, list))
      (among : Acquisition.AmongObedient 1 pos looked.others (.start list looked.store) (.ok ()) others
        state)
      (loads : World.Obeys ⟨state.store, others⟩ first) (more : first.Obeys second)
      (version value : UInt64) (versions : version = (first.store.recordAt lock.slot).version)
      (values : value = (second.store.recordAt lock.slot).value) {answer : Outcome UInt64}
      {after : Worker}
      (seen : sawVersion { worker with list := state.list } lock (version, value) = (answer, after)) :
      ReadsAmong worker world lock (Deed.made (.locked lock version value) answer) after second
  | optimistic {looked last : World} (fresh : worker.sets.pending lock.id = none)
      (looks : world.Obeys looked) (free : worker.locksOnRead lock looked.store = false)
      (loads : looked.Obeys last) (version value : UInt64) {answer : Outcome UInt64} {after : Worker}
      (seen : worker.sawVersion lock (version, value) = (answer, after)) :
      ReadsAmong worker world lock (Deed.made (.optimistic lock version value) answer) after last

inductive SecuresObedient (worker : Worker) (world : World) : Outcome Unit → Worker → World → Prop where
  | taken (list : CurrentList) (outcome : Outcome Unit) (others : Tally) (state : Acquisition)
      (merged : worker.sorted.list.mergeWrites worker.sorted.sets.writes.toList = .ok list)
      (among : Acquisition.AmongObedient 1 list.buffer.active world.others (.start list world.store)
        outcome others state) :
      SecuresObedient worker world outcome { worker.sorted with list := state.list }
        ⟨state.store, others⟩

theorem SecuresObedient.among {worker after : Worker} {world last : World} {outcome : Outcome Unit}
    (obedient : worker.SecuresObedient world outcome after last) :
    worker.SecuresAmong world outcome after last := by
  obtain ⟨list, outcome, others, state, merged, among⟩ := obedient
  exact .taken list outcome others state merged among.among

end Worker

-- An attempt as far as it has got, with what it has done, the latest last. Others that obey the locks act
-- at any time.
inductive Point.Does (table : Table) (start : Point) : List Deed → Point → Prop where
  | start : Point.Does table start [] start
  | others {deeds : List Deed} {phase : Worker.Phase} {worker : Worker} {world next : World}
      (soFar : Point.Does table start deeds ⟨phase, worker, world⟩) (obeys : world.Obeys next) :
      Point.Does table start deeds ⟨phase, worker, next⟩
  | read {deeds made : List Deed} {worker after : Worker} {world last : World} {key : UInt64}
      {slot : Nat} (soFar : Point.Does table start deeds ⟨.serving, worker, world⟩)
      (found : table.slot key = .ok slot)
      (reads : worker.ReadsAmong world (world.store.lockAt slot) made after last) :
      Point.Does table start (deeds ++ made) ⟨.serving, after, last⟩
  | write {deeds : List Deed} {worker : Worker} {world : World} (key value : UInt64)
      (soFar : Point.Does table start deeds ⟨.serving, worker, world⟩) :
      Point.Does table start deeds
        ⟨.serving, (worker.writeKey table key value world.store).2, world⟩
  | secure {deeds : List Deed} {worker after : Worker} {world last : World}
      (soFar : Point.Does table start deeds ⟨.serving, worker, world⟩)
      (among : worker.SecuresObedient world (.ok ()) after last) :
      Point.Does table start deeds ⟨.secured, after, last⟩
  | miss {deeds : List Deed} {worker after : Worker} {world last : World} {outcome : Outcome Unit}
      (soFar : Point.Does table start deeds ⟨.serving, worker, world⟩)
      (among : worker.SecuresObedient world outcome after last) :
      Point.Does table start deeds ⟨.stopped, after, last⟩
  | conflict {deeds : List Deed} {worker : Worker} {store : Store} {others : Tally} (slot : Nat)
      (soFar : Point.Does table start deeds ⟨.secured, worker, ⟨store, others⟩⟩) :
      Point.Does table start deeds ⟨.stopped, worker, ⟨store.bump slot, others⟩⟩
  | install {deeds : List Deed} {worker : Worker} {store : Store} {others : Tally}
      {write : WriteAccess} (soFar : Point.Does table start deeds ⟨.secured, worker, ⟨store, others⟩⟩)
      (listed : write ∈ Worker.lastWrites worker.sets.writes.toList) :
      Point.Does table start (deeds ++ [.installed write.lock])
        ⟨.secured, (Worker.install (worker, store) write).1,
          ⟨(Worker.install (worker, store) write).2, others⟩⟩

namespace Worker

variable {ids : List UInt64} {worker after : Worker} {lock : LockRef}

theorem saw_version_cases {content : UInt64 × UInt64} {answer : Outcome UInt64}
    (seen : worker.sawVersion lock content = (answer, after)) :
    after.list = worker.list ∧ ((answer = .ok content.2 ∧
      after.sets.reads.toList = worker.sets.reads.toList ++ [⟨lock, content.1⟩]) ∨
      ((∃ misuse, answer = .misuse misuse) ∧ after = worker)) := by
  rw [sawVersion] at seen
  cases added : worker.sets.addRead lock content.1 with
  | error misuse =>
      rw [added] at seen
      cases seen
      exact ⟨rfl, Or.inr ⟨⟨misuse, rfl⟩, rfl⟩⟩
  | ok sets =>
      rw [added] at seen
      cases seen
      rw [AccessSets.addRead] at added
      split at added
      · cases added
        exact ⟨rfl, Or.inl ⟨rfl, Array.toList_push⟩⟩
      · cases added

end Worker

namespace Point

variable {ids : List UInt64} {table : Table} {start point next last : Point} {deeds : List Deed}
  {worker after : Worker} {world : World} {phase : Worker.Phase}

def Guards (ids : List UInt64) (point next : Point) : Prop :=
  ∀ lock : LockRef, lock.On ids → point.worker.list.HasLock lock →
    next.worker.list.HasLock lock ∧
      (next.world.store.recordAt lock.slot).readLocked =
        (point.world.store.recordAt lock.slot).readLocked

theorem guards_others {next : World} (ordered : InOrder ids ⟨phase, worker, world⟩)
    (obeys : world.Obeys next) : Guards ids ⟨phase, worker, world⟩ ⟨phase, worker, next⟩ :=
  fun _ _ has => ⟨has, ordered.list.same_content obeys has⟩

theorem InOrder.obeys {next : World} (ordered : InOrder ids ⟨phase, worker, world⟩)
    (obeys : world.Obeys next) : InOrder ids ⟨phase, worker, next⟩ :=
  ⟨ordered.sound, ordered.list.fair obeys.fair, ordered.has⟩

theorem guards_asked {lock : LockRef} {pos : Nat} {list : CurrentList} {outcome : Outcome Unit}
    {others : Tally} {state : Acquisition} (ordered : InOrder ids ⟨.serving, worker, world⟩)
    (asked : worker.list.getOrAdd lock .shared = .ok (pos, list)) (on : lock.On ids)
    (among : Acquisition.AmongObedient 1 pos world.others (.start list world.store) outcome others state) :
    Guards ids ⟨.serving, worker, world⟩
      ⟨.serving, { worker with list := state.list }, ⟨state.store, others⟩⟩ := by
  intro other there has
  obtain ⟨begins, first, bound⟩ := asked_in_order ordered asked on
  have listed := has.get_or_add ordered.list.sound begins.ready.sound there asked
  have count : 1 + pos ≤ list.buffer.active + 1 := by omega
  exact among.guards begins Nat.one_pos count listed

theorem asked_has_lock {lock : LockRef} {pos : Nat} {list : CurrentList} {others : Tally}
    {state : Acquisition} (different : ids.Nodup) (ordered : InOrder ids ⟨.serving, worker, world⟩)
    (asked : worker.list.getOrAdd lock .shared = .ok (pos, list)) (on : lock.On ids)
    (among : Acquisition.AmongObedient 1 pos world.others (.start list world.store) (.ok ()) others
      state) : state.list.HasLock lock := by
  obtain ⟨begins, first, bound⟩ := asked_in_order ordered asked on
  have count : 1 + pos ≤ list.buffer.active + 1 := by omega
  have ends := among.among.ends begins Nat.one_pos count
  have sound := ends.ordered.ready.sound
  have active : state.list.buffer.active = list.buffer.active := ends.active
  have enough : (state.cell pos).isEnough = true := ends.enough rfl pos first (by omega)
  obtain ⟨named, wants⟩ :=
    CurrentList.get_or_add_asks ordered.list.sound different begins.ready.sound on asked
  obtain ⟨same, preferred⟩ := ends.wants pos
  refine (CurrentList.has_lock_iff_cell sound).mpr ⟨pos, first, active ▸ bound, same.trans named, ?_⟩
  exact Entry.locked_of_enough enough (preferred ▸ wants)

theorem guards_secures {outcome : Outcome Unit} {last : World} {accesses : List Access}
    (busy : worker.Busy ids accesses) (ordered : worker.list.InOrder ids world)
    (among : worker.SecuresObedient world outcome after last) :
    Guards ids ⟨.serving, worker, world⟩ ⟨phase, after, last⟩ := by
  obtain ⟨list, outcome, others, state, merged, among⟩ := among
  intro lock on has
  have sorted : worker.sorted.list.InOrder ids world := Worker.sorted_in_order busy ordered
  have begins : Acquisition.InOrder ids world.others (.start list world.store) :=
    Worker.merged_in_order busy ordered merged
  have same : worker.sorted.list.entries = worker.list.entries := Worker.entries_require _ _ _
  have still : worker.sorted.list.HasLock lock := by
    obtain ⟨entry, listed, rest⟩ := has
    exact ⟨entry, same ▸ listed, rest⟩
  have listed := still.merge_writes sorted.sound begins.ready.sound on
    (AccessSets.sort_writes_ids worker.sets) merged
  exact among.guards begins Nat.one_pos (Nat.le_of_eq (Nat.add_comm 1 _)) listed

structure Told (ids : List UInt64) (deeds : List Deed) (point : Point) : Prop where
  ordered : point.InOrder ids
  on : ∀ lock version value, Deed.locked lock version value ∈ deeds → lock.On ids
  held : ∀ lock version value, Deed.locked lock version value ∈ deeds → point.worker.list.HasLock lock
  same : ∀ lock version value, Deed.locked lock version value ∈ deeds → Deed.installed lock ∉ deeds →
    (point.world.store.recordAt lock.slot).readLocked = (version, value)
  serving : point.phase = .serving → ∀ lock, Deed.installed lock ∉ deeds
  reads : ∀ read ∈ point.worker.sets.reads.toList, ∃ value,
    Deed.locked read.lock read.version value ∈ deeds ∨
      Deed.optimistic read.lock read.version value ∈ deeds
  agree : deeds.Pairwise Deed.Agree

theorem Told.goes (told : Told ids deeds point) (ordered : next.InOrder ids)
    (guards : Guards ids point next) (serving : next.phase = .serving → point.phase = .serving)
    (reads : next.worker.sets.reads = point.worker.sets.reads) : Told ids deeds next where
  ordered := ordered
  on := told.on
  held := fun lock version value read =>
    (guards lock (told.on _ _ _ read) (told.held _ _ _ read)).1
  same := fun lock version value read untouched =>
    (guards lock (told.on _ _ _ read) (told.held _ _ _ read)).2.trans (told.same _ _ _ read untouched)
  serving := fun still => told.serving (serving still)
  reads := by
    rw [reads]
    exact told.reads
  agree := told.agree

theorem Told.others {next : World} (told : Told ids deeds ⟨phase, worker, world⟩)
    (obeys : world.Obeys next) : Told ids deeds ⟨phase, worker, next⟩ :=
  told.goes (told.ordered.obeys obeys) (guards_others told.ordered obeys) id rfl

theorem Told.also (told : Told ids deeds point) (deed : Deed)
    (locked : ∀ lock version value, deed = .locked lock version value → lock.On ids ∧
      point.worker.list.HasLock lock ∧
        (point.world.store.recordAt lock.slot).readLocked = (version, value))
    (uninstalled : ∀ lock, deed ≠ .installed lock) (agree : ∀ earlier ∈ deeds, earlier.Agree deed) :
    Told ids (deeds ++ [deed]) point := by
  have either : ∀ {other}, other ∈ deeds ++ [deed] → other ∈ deeds ∨ deed = other := by
    intro other listed
    rcases List.mem_append.mp listed with before | last
    · exact Or.inl before
    · exact Or.inr (List.mem_singleton.mp last).symm
  constructor
  case ordered => exact told.ordered
  case on =>
    intro lock version value read
    rcases either read with before | new
    · exact told.on _ _ _ before
    · exact (locked _ _ _ new).1
  case held =>
    intro lock version value read
    rcases either read with before | new
    · exact told.held _ _ _ before
    · exact (locked _ _ _ new).2.1
  case same =>
    intro lock version value read untouched
    rcases either read with before | new
    · exact told.same _ _ _ before fun installed => untouched (List.mem_append_left _ installed)
    · exact (locked _ _ _ new).2.2
  case serving =>
    intro still lock installed
    rcases either installed with before | new
    · exact told.serving still lock before
    · exact uninstalled lock new
  case reads =>
    intro read listed
    obtain ⟨value, locked | optimistic⟩ := told.reads read listed
    · exact ⟨value, Or.inl (List.mem_append_left _ locked)⟩
    · exact ⟨value, Or.inr (List.mem_append_left _ optimistic)⟩
  case agree =>
    refine List.pairwise_append.mpr ⟨told.agree, List.pairwise_singleton _ _, ?_⟩
    intro earlier listed other last
    rw [List.mem_singleton.mp last]
    exact agree earlier listed

theorem Told.saw {lock : LockRef} {content : UInt64 × UInt64} {answer : Outcome UInt64} {deed : Deed}
    (told : Told ids deeds ⟨.serving, worker, world⟩) (on : lock.On ids)
    (seen : worker.sawVersion lock content = (answer, after))
    (deed_eq : deed = .locked lock content.1 content.2 ∨ deed = .optimistic lock content.1 content.2)
    (more : Told ids (deeds ++ [deed]) ⟨.serving, worker, world⟩) :
    Told ids (deeds ++ deed.made answer) ⟨.serving, after, world⟩ := by
  have ordered : InOrder ids ⟨.serving, after, world⟩ := by
    have goes := see_in_order content on told.ordered
    rwa [seen] at goes
  obtain ⟨list, ⟨rfl, reads⟩ | ⟨⟨misuse, rfl⟩, rfl⟩⟩ := Worker.saw_version_cases seen
  · refine ⟨ordered, more.on, fun other version value read => ?_, more.same, more.serving,
      fun read listed => ?_, more.agree⟩
    · change after.list.HasLock other
      rw [list]
      exact more.held other version value read
    · change read ∈ after.sets.reads.toList at listed
      rw [reads] at listed
      rcases List.mem_append.mp listed with before | last
      · exact more.reads read before
      · rw [List.mem_singleton.mp last]
        refine ⟨content.2, ?_⟩
        rcases deed_eq with rfl | rfl
        · exact Or.inl (List.mem_append_right _ (List.mem_singleton_self _))
        · exact Or.inr (List.mem_append_right _ (List.mem_singleton_self _))
  · change Told ids (deeds ++ []) _
    rwa [List.append_nil]

theorem Told.saw_locked {lock : LockRef} {version value : UInt64} {answer : Outcome UInt64}
    (told : Told ids deeds ⟨.serving, worker, world⟩) (on : lock.On ids)
    (has : worker.list.HasLock lock)
    (content : (world.store.recordAt lock.slot).readLocked = (version, value))
    (seen : worker.sawVersion lock (version, value) = (answer, after)) :
    Told ids (deeds ++ Deed.made (.locked lock version value) answer) ⟨.serving, after, world⟩ := by
  refine told.saw on seen (Or.inl rfl) (told.also _ ?_ nofun ?_)
  · intro other version value same
    cases same
    exact ⟨on, has, content⟩
  · rintro earlier listed other version value rfl version' value'
    refine ⟨nofun, fun same => ?_⟩
    cases same
    -- What was seen before is still there, and so it is what has been seen now.
    have before := told.same _ _ _ listed (told.serving rfl lock)
    exact Prod.mk.inj (content.symm.trans before)

theorem Told.saw_optimistic {lock : LockRef} {version value : UInt64} {answer : Outcome UInt64}
    (told : Told ids deeds ⟨.serving, worker, world⟩) (on : lock.On ids)
    (free : ¬ worker.list.HasLock lock)
    (seen : worker.sawVersion lock (version, value) = (answer, after)) :
    Told ids (deeds ++ Deed.made (.optimistic lock version value) answer)
      ⟨.serving, after, world⟩ := by
  refine told.saw on seen (Or.inr rfl) (told.also _ ?_ nofun ?_)
  · exact nofun
  · rintro earlier listed other version value rfl version' value'
    refine ⟨fun same => ?_, nofun⟩
    cases same
    exact free (told.held _ _ _ listed)

theorem free_of_unlocked {lock : LockRef} {store : Store} (sound : worker.list.Sound ids)
    (free : worker.locksOnRead lock store = false) : ¬ worker.list.HasLock lock := by
  rintro ⟨entry, listed, named, _⟩
  rw [Worker.locksOnRead, Bool.or_eq_false_iff] at free
  have found : (worker.list.buffer.find lock.id).isSome = true := by
    refine (Buffer.find_is_some_iff sound.buffer).mpr ⟨entry, listed, ?_⟩
    rw [Entry.id, named]
  rw [free.1] at found
  cases found

theorem Told.read {lock : LockRef} {made : List Deed} {last : World} (different : ids.Nodup)
    (told : Told ids deeds ⟨.serving, worker, world⟩) (on : lock.On ids)
    (reads : worker.ReadsAmong world lock made after last) :
    Told ids (deeds ++ made) ⟨.serving, after, last⟩ := by
  cases reads with
  | own write here =>
      exact told.also _ nofun nofun fun _ _ _ _ _ _ _ _ => ⟨nofun, nofun⟩
  | missed fresh looks locks asked among missed =>
      have looked := told.others looks
      rw [List.append_nil]
      exact looked.goes (lock_in_order asked among.among on looked.ordered)
        (guards_asked looked.ordered asked on among) id rfl
  | @locked looked first _ pos list others state fresh looks locks asked among loads more version value
      versions values answer _ seen =>
      have looked := told.others looks
      have locked := looked.goes (lock_in_order asked among.among on looked.ordered)
        (guards_asked looked.ordered asked on among) id rfl
      have has := asked_has_lock different looked.ordered asked on among
      have begun := locked.others loads
      have ended := begun.others more
      have same := begun.ordered.list.same_content more has
      have kept : (last.store.recordAt lock.slot).version = (first.store.recordAt lock.slot).version :=
        congrArg Prod.fst same
      refine ended.saw_locked on has ?_ seen
      rw [versions, values, ← kept]
      rfl
  | optimistic fresh looks free loads version value seen =>
      have looked := told.others looks
      exact (looked.others loads).saw_optimistic on (free_of_unlocked looked.ordered.list.sound free) seen

theorem reads_write_key (worker : Worker) (table : Table) (key value : UInt64) (store : Store) :
    (worker.writeKey table key value store).2.sets.reads = worker.sets.reads := by
  rw [Worker.writeKey]
  cases table.slot key with
  | error fault => rfl
  | ok slot =>
      simp only [Worker.write, AccessSets.addWrite]
      by_cases room : worker.sets.writes.size < worker.sets.capacity
      · rw [if_pos room]
      · rw [if_neg room]

theorem Told.write {key value : UInt64} (fits : table.Fits ids)
    (told : Told ids deeds ⟨.serving, worker, world⟩) :
    Told ids deeds ⟨.serving, (worker.writeKey table key value world.store).2, world⟩ := by
  have list := Worker.list_write_key worker table key value world.store
  refine told.goes (write_in_order fits key value told.ordered) (fun lock _ has => ⟨?_, rfl⟩) id
    (reads_write_key worker table key value world.store)
  rw [show (Point.mk .serving _ world).worker.list = worker.list from list]
  exact has

theorem Told.secures {outcome : Outcome Unit} {last : World}
    (told : Told ids deeds ⟨.serving, worker, world⟩)
    (among : worker.SecuresObedient world outcome after last) :
    Told ids deeds ⟨.stopped, after, last⟩ ∧
      (outcome = .ok () → Told ids deeds ⟨.secured, after, last⟩) := by
  obtain ⟨accesses, records⟩ := told.ordered.has
  have busy : worker.Busy ids accesses := ⟨told.ordered.sound, records⟩
  have reads : after.sets.reads = worker.sets.reads := by
    cases among
    rfl
  obtain ⟨stopped, secured⟩ := secure_in_order among.among told.ordered
  constructor
  · exact told.goes stopped (guards_secures busy told.ordered.list among) (fun same => by cases same) reads
  · intro won
    exact told.goes (secured won) (guards_secures busy told.ordered.list among)
      (fun same => by cases same) reads

theorem Told.conflict {store : Store} {others : Tally} {slot : Nat} (fits : table.Fits ids)
    (nonzero : 0 ∉ ids) (told : Told ids deeds ⟨.secured, worker, ⟨store, others⟩⟩) :
    Told ids deeds ⟨.stopped, worker, ⟨store.bump slot, others⟩⟩ := by
  have ordered : InOrder ids ⟨.stopped, worker, ⟨store.bump slot, others⟩⟩ :=
    step_in_order fits nonzero (.conflict slot) told.ordered
  refine told.goes ordered (fun lock _ has => ⟨has, ?_⟩) (fun same => by cases same) rfl
  change ((store.bump slot).recordAt lock.slot).readLocked = (store.recordAt lock.slot).readLocked
  rw [Store.record_at_bump]
  by_cases here : lock.slot = slot ∧ slot < store.records.size
  · rw [if_pos here, here.1]
    rfl
  · rw [if_neg here]

theorem Told.install {store : Store} {others : Tally} {write : WriteAccess}
    (told : Told ids deeds ⟨.secured, worker, ⟨store, others⟩⟩)
    (listed : write ∈ Worker.lastWrites worker.sets.writes.toList) :
    Told ids (deeds ++ [.installed write.lock])
      ⟨.secured, (Worker.install (worker, store) write).1,
        ⟨(Worker.install (worker, store) write).2, others⟩⟩ := by
  have ordered := install_in_order listed told.ordered
  have here := (Worker.last_writes_sublist _).subset listed
  have on := told.ordered.sound.sets.writes write here
  have own := told.ordered.has write here
  have step : Worker.install (worker, store) write =
      (worker, store.install write.lock.slot write.value) := by
    rw [Worker.install, own]
    rfl
  rw [step] at ordered ⊢
  have old : ∀ {lock version value}, Deed.locked lock version value ∈ deeds ++ [.installed write.lock] →
      Deed.locked lock version value ∈ deeds := by simp
  refine ⟨ordered, fun _ _ _ read => told.on _ _ _ (old read), fun _ _ _ read => told.held _ _ _ (old read),
    fun lock version value read untouched => ?_, (fun same => by cases same), fun read listed => ?_, ?_⟩
  · simp only [List.mem_append, List.mem_singleton, not_or, Deed.installed.injEq] at untouched
    have apart : lock.slot ≠ write.lock.slot := fun same =>
      untouched.2 (LockRef.on_slot (told.on _ _ _ (old read)) on same)
    change ((store.install write.lock.slot write.value).recordAt lock.slot).readLocked = _
    rw [Store.record_at_install, if_neg fun both => apart both.1]
    exact told.same _ _ _ (old read) untouched.1
  · obtain ⟨value, locked | optimistic⟩ := told.reads read listed
    · exact ⟨value, Or.inl (List.mem_append_left _ locked)⟩
    · exact ⟨value, Or.inr (List.mem_append_left _ optimistic)⟩
  · refine List.pairwise_append.mpr ⟨told.agree, List.pairwise_singleton _ _, ?_⟩
    rintro earlier _ other last _ _ _ _
    rw [List.mem_singleton.mp last]
    exact fun _ _ => ⟨by simp, by simp⟩

theorem deeds_told (different : ids.Nodup) (fits : table.Fits ids) (nonzero : 0 ∉ ids)
    (attempted : Point.Does table start deeds point) (begins : Told ids [] start) :
    Told ids deeds point := by
  induction attempted with
  | start => exact begins
  | others soFar obeys ih => exact ih.others obeys
  | read soFar found reads ih =>
      exact ih.read different (Store.on_lock_within ih.ordered.list.named _ (fits _ _ found)) reads
  | write key value soFar ih => exact ih.write fits
  | secure soFar among ih => exact (ih.secures among).2 rfl
  | miss soFar among ih => exact (ih.secures among).1
  | conflict slot soFar ih => exact ih.conflict fits nonzero
  | install soFar listed ih => exact ih.install listed

structure Stable (deeds : List Deed) (point : Point) : Prop where
  held : ∀ lock version value, Deed.locked lock version value ∈ deeds →
    ∃ entry ∈ point.worker.list.entries, entry.lock = some lock ∧
      entry.taken.covers .shared = true ∧ ∃ handle, entry.handle = some handle ∧
        (point.world.store.word lock).isHeldBy handle = true
  unchanged : ∀ lock version value, Deed.locked lock version value ∈ deeds →
    Deed.installed lock ∉ deeds →
      (point.world.store.recordAt lock.slot).version = version ∧
        (point.world.store.recordAt lock.slot).value = value
  again : ∀ before lock version value later, deeds = before ++ .locked lock version value :: later →
    ∀ version' value', Deed.optimistic lock version' value' ∉ later ∧
      (Deed.locked lock version' value' ∈ later → version' = version ∧ value' = value)
  -- Nothing that was read only under its lock fails the check of a commit.
  verified : point.phase = .secured → ∀ lock, (∀ version value, Deed.optimistic lock version value ∉ deeds) →
    Deed.installed lock ∉ deeds → ∀ read ∈ point.worker.sets.reads.toList, read.lock = lock →
      point.worker.isStale point.world.store read = false

theorem Told.stable (different : ids.Nodup) (told : Told ids deeds point) : point.Stable deeds := by
  have list := told.ordered.list
  constructor
  case held =>
    intro lock version value read
    obtain ⟨entry, listed, named, locked⟩ := told.held _ _ _ read
    have sound := list.sound.entries entry listed
    obtain ⟨kind, handle, mode⟩ := Entry.handle_of_locked sound locked
    have covers : entry.taken.covers .shared = true := by
      rw [mode]
      cases kind <;> rfl
    exact ⟨entry, listed, named, covers, kind, handle,
      Entry.holds_lock list.named list.accounts listed sound named handle⟩
  case unchanged =>
    intro lock version value read untouched
    exact Prod.mk.inj (told.same _ _ _ read untouched)
  case again =>
    intro before lock version value later split version' value'
    have agree := told.agree
    rw [split] at agree
    have follows := (List.pairwise_cons.mp (List.pairwise_append.mp agree).2.1).1
    constructor
    · intro seen
      exact (follows _ seen lock version value rfl version' value').1 rfl
    · intro seen
      exact (follows _ seen lock version value rfl version' value').2 rfl
  case verified =>
    rintro secured lock never untouched read listed rfl
    obtain ⟨value, locked | optimistic⟩ := told.reads read listed
    · have same := told.same _ _ _ locked untouched
      have current : read.isCurrent point.world.store = true :=
        beq_iff_eq.mpr (congrArg Prod.fst same)
      have holds : point.worker.holds read.lock.id = true :=
        (Worker.holds_iff list.sound different (told.on _ _ _ locked)).mpr (told.held _ _ _ locked)
      rw [Worker.isStale, current, holds]
      rfl
    · exact absurd optimistic (never _ _)

end Point

end LockOrder
