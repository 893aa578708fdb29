import LockOrder.Proofs.AccessSets.Pending
import LockOrder.Proofs.Serial.History
import LockOrder.Proofs.Worker.Sound

set_option autoImplicit false

namespace LockOrder

namespace Contents

-- At some time since, the record had this version, and this value with it.
def Saw (contents : Contents) (slot : Nat) (version value : UInt64) : Prop :=
  ∃ now : UInt64 × UInt64, contents[slot]? = some now ∧ version ≤ now.1 ∧
    (version = now.1 → value = now.2)

theorem Saw.later {before after : Contents} {slot : Nat} {version value : UInt64}
    (saw : before.Saw slot version value) (follows : before.Follows after) :
    after.Saw slot version value := by
  obtain ⟨old, here, below, same⟩ := saw
  obtain ⟨new, there, above, kept⟩ := follows slot old here
  refine ⟨new, there, UInt64.le_trans below above, fun version_eq => ?_⟩
  have still : old.1 = new.1 := UInt64.le_antisymm above (version_eq ▸ below)
  exact (same (version_eq.trans still.symm)).trans (kept still)

end Contents

theorem Record.read_optimistic_eq {record : Record} {content : UInt64 × UInt64}
    (read : record.readOptimistic = some content) : content = record.readLocked := by
  unfold readOptimistic at read
  split at read <;> cases read
  rfl

namespace Worker

structure Busy (ids : List UInt64) (accesses : List Access) (worker : Worker) : Prop where
  sound : worker.Sound ids
  records : worker.sets.Records accesses

-- Each read that was not answered by a write is in the read set, with a version that it saw.
def Faithful (accesses : List Access) (worker : Worker) (contents : Contents) : Prop :=
  ∀ before slot value after, accesses = before ++ .read slot value :: after →
    Access.latest slot before = some value ∨
      (Access.latest slot before = none ∧ ∃ read ∈ worker.sets.reads.toList,
        read.lock.slot = slot ∧ contents.Saw slot read.version value)

theorem faithful_nil (worker : Worker) (contents : Contents) : worker.Faithful [] contents := by
  intro before slot value after same
  simp at same

theorem Faithful.later {accesses : List Access} {worker : Worker} {before after : Contents}
    (faithful : worker.Faithful accesses before) (follows : before.Follows after) :
    worker.Faithful accesses after := by
  intro early slot value late same
  rcases faithful early slot value late same with own | ⟨none, read, listed, here, saw⟩
  · exact Or.inl own
  · exact Or.inr ⟨none, read, listed, here, saw.later follows⟩

theorem Faithful.with_reads {accesses : List Access} {worker other : Worker} {contents : Contents}
    (faithful : worker.Faithful accesses contents)
    (kept : ∀ read ∈ worker.sets.reads.toList, read ∈ other.sets.reads.toList) :
    other.Faithful accesses contents := by
  intro early slot value late same
  rcases faithful early slot value late same with own | ⟨none, read, listed, rest⟩
  · exact Or.inl own
  · exact Or.inr ⟨none, read, kept read listed, rest⟩

theorem snoc_split {accesses before after : List Access} {last access : Access}
    (same : accesses ++ [last] = before ++ access :: after) :
    (before = accesses ∧ access = last ∧ after = []) ∨
      ∃ rest, after = rest ++ [last] ∧ accesses = before ++ access :: rest := by
  rcases List.eq_nil_or_concat after with rfl | ⟨rest, other, rfl⟩
  · obtain ⟨rfl, last⟩ := List.append_inj' same rfl
    exact Or.inl ⟨rfl, (List.cons.inj last).1.symm, rfl⟩
  · rw [List.concat_eq_append, ← List.cons_append, ← List.append_assoc] at same
    obtain ⟨front, last⟩ := List.append_inj' same rfl
    rw [(List.cons.inj last).1]
    exact Or.inr ⟨rest, by simp, front⟩

theorem faithful_write {accesses : List Access} {worker : Worker} {contents : Contents}
    (faithful : worker.Faithful accesses contents) (slot : Nat) (value : UInt64) :
    worker.Faithful (accesses ++ [.write slot value]) contents := by
  intro before other read after same
  rcases snoc_split same with ⟨_, wrong, _⟩ | ⟨rest, _, front⟩
  · cases wrong
  · exact faithful before other read rest front

theorem faithful_read {accesses : List Access} {worker : Worker} {contents : Contents}
    (faithful : worker.Faithful accesses contents) (slot : Nat) (value : UInt64)
    (answered : Access.latest slot accesses = some value ∨
      (Access.latest slot accesses = none ∧ ∃ read ∈ worker.sets.reads.toList,
        read.lock.slot = slot ∧ contents.Saw slot read.version value)) :
    worker.Faithful (accesses ++ [.read slot value]) contents := by
  intro before other seen after same
  rcases snoc_split same with ⟨rfl, here, _⟩ | ⟨rest, _, front⟩
  · cases here
    exact answered
  · exact faithful before other seen rest front

structure Goes (ids : List UInt64) (accesses made : List Access) (worker : Worker) (store : Store)
    (after : Worker) (next : Store) : Prop where
  bare : next.bare = store.bare
  conserves : Conserves worker.list.entries store after.list.entries next
  busy : after.Busy ids (accesses ++ made)
  faithful : worker.Faithful accesses store.contents →
    after.Faithful (accesses ++ made) next.contents

variable {ids : List UInt64} {accesses : List Access} {worker after : Worker} {store next : Store}

theorem goes_nowhere (busy : worker.Busy ids accesses) (sound : after.Sound ids)
    (sets : after.sets = worker.sets) (bare : next.bare = store.bare)
    (conserves : Conserves worker.list.entries store after.list.entries next) :
    Goes ids accesses [] worker store after next := by
  refine ⟨bare, conserves, ⟨sound, ?_⟩, fun faithful => ?_⟩
  · rw [sets, List.append_nil]
    exact busy.records
  · rw [List.append_nil, Store.contents_of_bare bare]
    exact faithful.with_reads fun read listed => by rwa [sets]

theorem saw_version_goes (busy : worker.Busy ids accesses) (sound : after.Sound ids)
    (sets : after.sets = worker.sets) (bare : next.bare = store.bare)
    (conserves : Conserves worker.list.entries store after.list.entries next) (lock : LockRef)
    (on : lock.On ids) (here : next.contents[lock.slot]? = some (next.recordAt lock.slot).readLocked)
    (fresh : Access.latest lock.slot accesses = none) :
    match after.sawVersion lock (next.recordAt lock.slot).readLocked with
    | (.ok value, last) => Goes ids accesses [.read lock.slot value] worker store last next
    | (_, last) => Goes ids accesses [] worker store last next := by
  unfold sawVersion
  cases added : after.sets.addRead lock (next.recordAt lock.slot).readLocked.1 with
  | error misuse => exact goes_nowhere busy sound sets bare conserves
  | ok more =>
      have listed := AccessSets.on_add_read sound.sets lock _ on added
      unfold AccessSets.addRead at added
      split at added
      · cases added
        refine ⟨bare, conserves, ⟨sound.with_sets _ listed sound.capacity, ?_⟩, fun faithful => ?_⟩
        · exact AccessSets.records_read busy.records _ _ (by rw [sets])
        · rw [Store.contents_of_bare bare] at here ⊢
          refine faithful_read (faithful.with_reads fun read listed => ?_) _ _ (Or.inr ⟨fresh, ?_⟩)
          · simp [sets] at listed ⊢
            exact Or.inl listed
          · refine ⟨⟨lock, (next.recordAt lock.slot).readLocked.1⟩, by simp, rfl, _, here, ?_⟩
            exact ⟨UInt64.le_refl _, fun _ => rfl⟩
      · cases added

def readMade (slot : Nat) : Outcome UInt64 → List Access
  | .ok value => [.read slot value]
  | _ => []

theorem accesses_read {table : Table} {key : UInt64} {slot : Nat} (found : table.slot key = .ok slot)
    (outcome : Outcome UInt64) : Event.accesses table [.read key outcome] = readMade slot outcome := by
  cases outcome <;> simp [Event.accesses, Event.access?, readMade, found, Except.toOption]

theorem read_locked_goes (busy : worker.Busy ids accesses) (lock : LockRef) (on : lock.On ids)
    (named : store.ids = ids) (fresh : Access.latest lock.slot accesses = none) :
    Goes ids accesses (readMade lock.slot (worker.readLocked lock store).1) worker store
      (worker.readLocked lock store).2.1 (worker.readLocked lock store).2.2 := by
  unfold readLocked
  cases added : worker.list.getOrAdd lock .shared with
  | error misuse => exact goes_nowhere busy busy.sound rfl rfl .refl
  | ok result =>
      obtain ⟨pos, list⟩ := result
      have grown := CurrentList.get_or_add_keeps store lock .shared pos busy.sound.list on added
      have keeps := (CurrentList.acquire_through_acquires list grown.sound pos store).keeps
      simp only
      generalize list.acquireThrough pos store = result at keeps
      obtain ⟨outcome, last, next⟩ := result
      have sound := busy.sound.with_list last keeps.sound
      have conserves := (grown.trans keeps).conserves
      cases outcome with
      | ok _ =>
          have inside := on.inside ((Store.ids_of_bare keeps.bare).trans named)
          have goes := saw_version_goes busy sound rfl keeps.bare conserves lock on
            (next.contents_at lock.slot inside) fresh
          simp only
          generalize sawVersion { worker with list := last } lock _ = seen at goes
          obtain ⟨answer, after⟩ := seen
          cases answer <;> exact goes
      | fault fault => exact goes_nowhere busy sound rfl keeps.bare conserves
      | misuse misuse => exact goes_nowhere busy sound rfl keeps.bare conserves
      | waiting id => exact goes_nowhere busy sound rfl keeps.bare conserves

theorem read_optimistic_goes (busy : worker.Busy ids accesses) (lock : LockRef) (on : lock.On ids)
    (named : store.ids = ids) (fresh : Access.latest lock.slot accesses = none) :
    Goes ids accesses (readMade lock.slot (worker.readOptimistic lock store).1) worker store
      (worker.readOptimistic lock store).2.1 (worker.readOptimistic lock store).2.2 := by
  unfold readOptimistic
  cases content : (store.recordAt lock.slot).readOptimistic with
  | none => exact goes_nowhere busy busy.sound rfl rfl .refl
  | some seen =>
      have same := Record.read_optimistic_eq content
      have inside : lock.slot < store.records.size := on.inside named
      have goes := saw_version_goes busy busy.sound rfl rfl .refl lock on
        (store.contents_at lock.slot inside) fresh
      subst same
      simp only
      generalize sawVersion worker lock _ = seen at goes
      obtain ⟨answer, after⟩ := seen
      cases answer <;> exact goes

theorem read_goes (different : ids.Nodup) (busy : worker.Busy ids accesses) (lock : LockRef)
    (on : lock.On ids) (named : store.ids = ids) :
    Goes ids accesses (readMade lock.slot (worker.read lock store).1) worker store
      (worker.read lock store).2.1 (worker.read lock store).2.2 := by
  have pending := AccessSets.pending_value different busy.sound.sets busy.records lock on
  unfold read
  cases found : worker.sets.pending lock.id with
  | some write =>
      rw [found] at pending
      refine ⟨rfl, .refl, ⟨busy.sound, AccessSets.records_read busy.records _ _ rfl⟩, fun faithful => ?_⟩
      exact faithful_read faithful _ _ (Or.inl pending.symm)
  | none =>
      rw [found] at pending
      simp only
      split
      · exact read_locked_goes busy lock on named pending.symm
      · exact read_optimistic_goes busy lock on named pending.symm

theorem write_goes (busy : worker.Busy ids accesses) (lock : LockRef) (on : lock.On ids)
    (value : UInt64) (store : Store) :
    match worker.write lock value with
    | (.ok (), after) => Goes ids accesses [.write lock.slot value] worker store after store
    | (_, after) => Goes ids accesses [] worker store after store := by
  unfold write
  cases added : worker.sets.addWrite lock value with
  | error misuse => exact goes_nowhere busy busy.sound rfl rfl .refl
  | ok more =>
      have listed := AccessSets.on_add_write busy.sound.sets lock value on added
      have records := AccessSets.records_add_write busy.records busy.sound.capacity lock value added
      unfold AccessSets.addWrite at added
      split at added
      · cases added
        have kept := busy.sound.with_sets _ listed busy.sound.capacity
        refine ⟨rfl, .refl, ⟨kept, records⟩, ?_⟩
        intro faithful
        exact (faithful_write faithful lock.slot value).with_reads fun read member => member
      · cases added

theorem read_key_goes (different : ids.Nodup) (table : Table) (busy : worker.Busy ids accesses)
    (named : store.ids = ids) (fits : ∀ key slot, table.slot key = .ok slot → slot < ids.length)
    (key : UInt64) :
    Goes ids accesses
      (Event.accesses table [.read key (worker.readKey table key store).1]) worker store
      (worker.readKey table key store).2.1 (worker.readKey table key store).2.2 := by
  unfold readKey
  cases found : table.slot key with
  | error fault => exact goes_nowhere busy busy.sound rfl rfl .refl
  | ok slot =>
      have on := Store.on_lock_within named slot (fits key slot found)
      have goes := read_goes different busy (store.lockAt slot) on named
      simp only
      rw [accesses_read found]
      exact goes

theorem write_key_goes (table : Table) (busy : worker.Busy ids accesses) (named : store.ids = ids)
    (fits : ∀ key slot, table.slot key = .ok slot → slot < ids.length) (key value : UInt64) :
    Goes ids accesses
      (Event.accesses table [.write key value (worker.writeKey table key value store).1]) worker store
      (worker.writeKey table key value store).2 store := by
  unfold writeKey
  cases found : table.slot key with
  | error fault => exact goes_nowhere busy busy.sound rfl rfl .refl
  | ok slot =>
      have on := Store.on_lock_within named slot (fits key slot found)
      have goes := write_goes busy (store.lockAt slot) on value store
      simp only
      generalize worker.write (store.lockAt slot) value = result at goes
      obtain ⟨outcome, after⟩ := result
      cases outcome with
      | ok done =>
          have made : Event.accesses table [.write key value (.ok done)] = [.write slot value] := by
            simp [Event.accesses, Event.access?, found, Except.toOption]
          rw [made]
          exact goes
      | fault fault => exact goes
      | misuse misuse => exact goes
      | waiting id => exact goes

end Worker

end LockOrder
