import LockOrder.Proofs.CurrentList.Insertion
import LockOrder.Proofs.Worker.Alone
import LockOrder.Proofs.Worker.Verdict

set_option autoImplicit false

namespace LockOrder

-- One thing that others do. How hot a record is, no lock guards.
inductive World.Move : World → World → Prop where
  | locks {world next : World} (fair : world.Fair next) (bare : next.store.bare = world.store.bare) :
      Move world next
  | replace {store : Store} {others : Tally} (slot : Nat) (version value : UInt64)
      (owned : 0 < others slot .writer) :
      Move ⟨store, others⟩ ⟨store.put slot { store.recordAt slot with version, value }, others⟩
  | heat {store : Store} {others : Tally} (slot : Nat) (hotness : Hotness) (draws : Draws) :
      Move ⟨store, others⟩ ⟨{ store.put slot { store.recordAt slot with hotness } with draws }, others⟩

def World.Obeys : World → World → Prop := Relation.ReflTransGen World.Move

namespace World

variable {world next : World} {own : Tally} {slot : Nat} {kind : Handle}

theorem obeys_refl (world : World) : world.Obeys world := .refl

theorem Move.fair (move : world.Move next) : world.Fair next := by
  cases move with
  | locks fair bare => exact fair
  | @replace store others slot version value owned =>
      exact ⟨Store.ids_put _ _ _ rfl, fun rest => Store.accounts_put _ _ _ _ rfl⟩
  | @heat store others slot hotness draws =>
      have same : { store.recordAt slot with hotness }.lock = (store.recordAt slot).lock := rfl
      exact ⟨Store.ids_put store slot _ rfl, fun rest => Store.accounts_put store slot _ _ same⟩

theorem Obeys.fair (obeys : world.Obeys next) : world.Fair next := by
  induction obeys with
  | refl => exact world.fair_refl
  | tail _ move ih => exact ⟨move.fair.ids.trans ih.ids, ih.balanced.trans move.fair.balanced⟩

theorem Move.same_content (move : world.Move next)
    (accounts : world.store.Accounts (world.others.plus own)) (held : 0 < own slot kind) :
    (next.store.recordAt slot).readLocked = (world.store.recordAt slot).readLocked := by
  cases move with
  | locks fair bare => exact Store.read_locked_of_bare bare slot
  | @replace store others other version value owned =>
      rw [Store.record_at_put]
      by_cases here : slot = other ∧ other < store.records.size
      · obtain ⟨rfl, inside⟩ := here
        exact absurd (Store.accounts_unowned accounts inside held) (Nat.ne_of_gt owned)
      · rw [if_neg here]
  | @heat store others other hotness draws =>
      change ((store.put other _).recordAt slot).readLocked = _
      rw [Store.record_at_put]
      by_cases here : slot = other ∧ other < store.records.size
      · rw [if_pos here, here.1]
        rfl
      · rw [if_neg here]

theorem Obeys.same_content (obeys : world.Obeys next)
    (accounts : world.store.Accounts (world.others.plus own)) (held : 0 < own slot kind) :
    (next.store.recordAt slot).readLocked = (world.store.recordAt slot).readLocked := by
  induction obeys with
  | refl => rfl
  | tail before move ih =>
      have still := (show world.Obeys _ from before).fair.accounts accounts
      exact (move.same_content still held).trans ih

end World

theorem Entry.locked_of_enough {entry : Entry} (enough : entry.isEnough = true)
    (wants : entry.preferred.covers .shared = true) : entry.isLocked = true := by
  rw [isEnough, Mode.covers_iff] at enough
  rw [Mode.covers_iff] at wants
  have taken : Mode.shared.rank ≤ entry.taken.rank := Nat.le_trans wants enough
  cases here : entry.taken with
  | unlocked =>
      rw [here] at taken
      exact absurd taken (by decide)
  | shared => simp [isLocked, here]
  | exclusive => simp [isLocked, here]

namespace CurrentList

variable {ids : List UInt64} {list after : CurrentList} {world next : World} {lock : LockRef}

theorem InOrder.same_content (ordered : list.InOrder ids world) (obeys : world.Obeys next)
    (has : list.HasLock lock) :
    (next.store.recordAt lock.slot).readLocked = (world.store.recordAt lock.slot).readLocked := by
  obtain ⟨kind, held⟩ := has.tally ordered.sound
  exact obeys.same_content ordered.accounts held

theorem HasLock.of_tally (has : list.HasLock lock) (sound : list.Sound ids) (kept : after.Sound ids)
    (on : lock.On ids)
    (same : ∀ slot kind, Entry.tally after.entries slot kind = Entry.tally list.entries slot kind) :
    after.HasLock lock := by
  obtain ⟨kind, held⟩ := has.tally sound
  apply Classical.byContradiction
  intro none
  rw [← same, tally_of_not_has none kept on kind] at held
  exact Nat.lt_irrefl 0 held

theorem HasLock.get_or_add {asked : LockRef} {mode : Mode} {pos : Nat} (has : list.HasLock lock)
    (sound : list.Sound ids) (kept : after.Sound ids) (on : lock.On ids)
    (added : list.getOrAdd asked mode = .ok (pos, after)) : after.HasLock lock := by
  refine has.of_tally sound kept on fun slot kind => ?_
  rw [get_or_add_entries list after asked mode pos sound.buffer added, Entry.tally_request]

theorem HasLock.merge_writes {writes : List WriteAccess} (has : list.HasLock lock)
    (sound : list.Sound ids) (kept : after.Sound ids) (on : lock.On ids)
    (ordered : writes.Pairwise fun a b => a.id ≤ b.id) (merged : list.mergeWrites writes = .ok after) :
    after.HasLock lock := by
  obtain ⟨ascend, _⟩ := written_ascend writes ordered
  have perm := (merged_entries list.entries (written writes) sound.buffer.ascending ascend).1
  refine has.of_tally sound kept on fun slot kind => ?_
  rw [(merge_writes_merges writes sound.buffer.room merged).entries, tally_merged _ _ _ perm]

theorem get_or_add_asks {mode : Mode} {pos : Nat} (sound : list.Sound ids) (different : ids.Nodup)
    (kept : after.Sound ids) (on : lock.On ids) (added : list.getOrAdd lock mode = .ok (pos, after)) :
    (after.buffer.cell pos).lock = some lock ∧
      (after.buffer.cell pos).preferred.covers mode = true := by
  obtain ⟨first, last, id, _⟩ := get_or_add_position sound.buffer added
  constructor
  · have listed := Buffer.cell_mem_entries _ kept.buffer.room pos first last
    obtain ⟨own, named, there⟩ := (kept.entries _ listed).listed
    rw [Entry.id, named] at id
    rw [named, LockRef.on_injective different there on id]
  · obtain ⟨entry, here, _, raised⟩ := (get_or_add_inserted sound.buffer added).entry
    have inside : after.buffer.holds pos = true := decide_eq_true ⟨first, last⟩
    rw [Buffer.entry, if_pos inside] at here
    rw [Except.ok.inj here, raised, Mode.covers_iff]
    change mode.rank ≤ (max _ mode).rank
    rw [Mode.rank_max]
    exact Nat.le_max_right ..

theorem has_lock_iff_cell (sound : list.Sound ids) : list.HasLock lock ↔
    ∃ pos, 0 < pos ∧ pos ≤ list.buffer.active ∧ (list.buffer.cell pos).lock = some lock ∧
      (list.buffer.cell pos).isLocked = true := by
  constructor
  · rintro ⟨entry, listed, named, locked⟩
    obtain ⟨pos, first, last, rfl⟩ := Buffer.mem_entries_cell _ sound.buffer.room entry listed
    exact ⟨pos, first, last, named, locked⟩
  · rintro ⟨pos, first, last, named, locked⟩
    exact ⟨_, Buffer.cell_mem_entries _ sound.buffer.room pos first last, named, locked⟩

end CurrentList

namespace Acquisition

variable {ids : List UInt64} {state next final : Acquisition} {others last : Tally} {pos count : Nat}
  {outcome : Outcome Unit}

theorem locked_took (mid : Acquisition) (kind : Handle) (store : Store)
    (same : mid.list.buffer = state.list.buffer) (room : pos < state.list.buffer.cells.size) :
    ((mid.took pos kind.mode kind store).cell pos).isLocked = true := by
  have cell : (mid.took pos kind.mode kind store).cell pos = (state.cell pos).took kind.mode kind := by
    change (mid.list.buffer.set pos ((mid.list.buffer.cell pos).took kind.mode kind)).cell pos = _
    rw [same, Buffer.cell_set _ _ _ _ room, if_pos rfl]
    rfl
  rw [cell]
  cases kind <;> rfl

theorem Stepped.still_locked (stepped : Stepped pos state outcome next)
    (room : pos < state.list.buffer.cells.size) (other : Nat)
    (locked : (state.cell other).isLocked = true) : (next.cell other).isLocked = true := by
  by_cases here : other = pos
  · subst here
    cases stepped with
    | awaited lock store named short unlocked behind taken =>
        exact locked_took (state.called _) .writer store rfl room
    | tried lock kind store named short unlocked ahead wanted taken =>
        exact locked_took (state.called _) kind store rfl room
    | upgraded lock store named shared wants ahead raised =>
        exact locked_took _ .writer store (checked_buffer state lock) room
    | shareKept lock named shared wants ahead refused =>
        have same : (state.checked lock).cell other = state.cell other :=
          congrArg (fun buffer => buffer.cell other) (checked_buffer state lock)
        change ((state.checked lock).cell other).isLocked = true
        rwa [same]
    | _ => exact locked
  · rwa [stepped.elsewhere other here]

theorem Stepped.still_has {lock : LockRef} (stepped : Stepped pos state outcome next)
    (ready : state.Ready ids) (first : 0 < pos) (bound : pos ≤ state.list.buffer.active)
    (has : state.list.HasLock lock) : next.list.HasLock lock := by
  have room := Nat.lt_of_le_of_lt bound ready.sound.buffer.room
  obtain ⟨other, start, inside, named, locked⟩ := (CurrentList.has_lock_iff_cell ready.sound).mp has
  have active : next.list.buffer.active = state.list.buffer.active := stepped.active
  apply (CurrentList.has_lock_iff_cell (stepped.keeps ready first bound).1.sound).mpr
  exact ⟨other, start, active ▸ inside, (stepped.wants room other).1.trans named,
    stepped.still_locked room other locked⟩

inductive AmongObedient : Nat → Nat → Tally → Acquisition → Outcome Unit → Tally → Acquisition → Prop where
  | done (pos : Nat) (others : Tally) (state : Acquisition) :
      AmongObedient pos 0 others state (.ok ()) others state
  | got {pos count : Nat} {others last : Tally} {state mid final : Acquisition} {world : World}
      {outcome : Outcome Unit} (obeys : World.Obeys ⟨state.store, others⟩ world)
      (step : step pos { state with store := world.store } = (.ok (), mid))
      (rest : AmongObedient (pos + 1) count world.others mid outcome last final) :
      AmongObedient pos (count + 1) others state outcome last final
  | stopped {pos count : Nat} {others : Tally} {state final : Acquisition} {world : World}
      {outcome : Outcome Unit} (obeys : World.Obeys ⟨state.store, others⟩ world)
      (step : step pos { state with store := world.store } = (outcome, final))
      (missed : outcome ≠ .ok ()) :
      AmongObedient pos (count + 1) others state outcome world.others final

theorem AmongObedient.among (obedient : AmongObedient pos count others state outcome last final) :
    Among pos count others state outcome last final := by
  induction obedient with
  | done pos others state => exact .done pos others state
  | got obeys step rest ih => exact .got obeys.fair step ih
  | stopped obeys step missed => exact .stopped obeys.fair step missed

theorem steps_obedient (pos count : Nat) (others : Tally) (state : Acquisition) :
    AmongObedient pos count others state (steps pos count state).1 others
      (steps pos count state).2 := by
  induction count generalizing pos state with
  | zero => exact .done pos others state
  | succ count ih =>
      rw [steps]
      cases taken : state.step pos with
      | mk outcome mid =>
          cases outcome with
          | ok _ => exact .got .refl taken (ih (pos + 1) mid)
          | fault _ => exact .stopped .refl taken fun won => by cases won
          | misuse _ => exact .stopped .refl taken fun won => by cases won
          | waiting _ => exact .stopped .refl taken fun won => by cases won

theorem InOrder.step_guards {world : World} {lock : LockRef} (ordered : state.InOrder ids others)
    (obeys : World.Obeys ⟨state.store, others⟩ world) (first : 0 < pos)
    (bound : pos ≤ state.list.buffer.active)
    (step : step pos { state with store := world.store } = (outcome, next))
    (has : state.list.HasLock lock) : next.list.HasLock lock ∧
      (next.store.recordAt lock.slot).readLocked = (state.store.recordAt lock.slot).readLocked := by
  obtain ⟨stepped, _⟩ := ordered.step_among obeys.fair first bound step
  have ready := (ordered.fair obeys.fair).ready
  refine ⟨stepped.still_has ready first bound has, ?_⟩
  calc (next.store.recordAt lock.slot).readLocked
      = (world.store.recordAt lock.slot).readLocked :=
        Store.read_locked_of_bare (stepped.keeps ready first bound).2.bare lock.slot
    _ = (state.store.recordAt lock.slot).readLocked := ordered.around.same_content obeys has

theorem AmongObedient.guards {lock : LockRef}
    (obedient : AmongObedient pos count others state outcome last final)
    (ordered : state.InOrder ids others) (first : 0 < pos)
    (bound : pos + count ≤ state.list.buffer.active + 1) (has : state.list.HasLock lock) :
    final.list.HasLock lock ∧
      (final.store.recordAt lock.slot).readLocked = (state.store.recordAt lock.slot).readLocked := by
  induction obedient with
  | done pos others state => exact ⟨has, rfl⟩
  | @got pos count others last state mid final world outcome obeys step rest ih =>
      have inside : pos ≤ state.list.buffer.active := by omega
      obtain ⟨stepped, goes⟩ := ordered.step_among obeys.fair first inside step
      obtain ⟨still, same⟩ := ordered.step_guards obeys first inside step has
      have active : mid.list.buffer.active = state.list.buffer.active := stepped.active
      obtain ⟨held, kept⟩ := ih goes (Nat.succ_pos pos) (by omega) still
      exact ⟨held, kept.trans same⟩
  | stopped obeys step missed => exact ordered.step_guards obeys first (by omega) step has

end Acquisition

end LockOrder
