import LockOrder.CurrentList.Acquire
import LockOrder.CurrentList.Merge
import LockOrder.CurrentList.Release
import LockOrder.Proofs.Buffer.Alike

set_option autoImplicit false

namespace LockOrder

namespace CurrentList

structure Alike (past : Array LockCall) (list other : CurrentList) : Prop where
  buffer : list.buffer.Alike other.buffer
  spins : list.spins = other.spins
  calls : list.calls = past ++ other.calls

variable {past : Array LockCall} {list other : CurrentList}

theorem Alike.called (alike : list.Alike past other) (call : LockCall) :
    (list.called call).Alike past (other.called call) where
  buffer := alike.buffer
  spins := alike.spins
  calls := by simp [CurrentList.called, alike.calls]

theorem Alike.require (alike : list.Alike past other) (kept : Bool) (breach : Breach) :
    (list.require kept breach).Alike past (other.require kept breach) := by
  cases kept <;> exact ⟨alike.buffer, alike.spins, alike.calls⟩

theorem Alike.with_buffer (alike : list.Alike past other) {buffer last : Buffer}
    (same : buffer.Alike last) :
    Alike past { list with buffer := buffer } { other with buffer := last } :=
  ⟨same, alike.spins, alike.calls⟩

theorem Alike.entries (alike : list.Alike past other) : list.entries = other.entries :=
  alike.buffer.entries

theorem Alike.is_empty (alike : list.Alike past other) : list.isEmpty = other.isEmpty := by
  simp only [CurrentList.isEmpty, Buffer.isEmpty, alike.buffer.active]

theorem Alike.is_holding (alike : list.Alike past other) : list.isHolding = other.isHolding := by
  simp only [CurrentList.isHolding, alike.entries]

inductive AlikeIfKept (past : Array LockCall) :
    Except Misuse CurrentList → Except Misuse CurrentList → Prop where
  | ok {list other : CurrentList} (alike : list.Alike past other) :
      AlikeIfKept past (.ok list) (.ok other)
  | error (misuse : Misuse) : AlikeIfKept past (.error misuse) (.error misuse)

theorem Alike.get_or_add (alike : list.Alike past other) (lock : LockRef) (mode : Mode) :
    (∃ pos after last, list.getOrAdd lock mode = .ok (pos, after) ∧
      other.getOrAdd lock mode = .ok (pos, last) ∧ after.Alike past last) ∨
    (∃ misuse, list.getOrAdd lock mode = .error misuse ∧ other.getOrAdd lock mode = .error misuse) := by
  rw [getOrAdd, getOrAdd]
  simp only [← alike.buffer.lower_bound, ← alike.buffer.active]
  have first := list.buffer.lower_bound_pos lock.id
  generalize list.buffer.lowerBound lock.id = pos at first
  have added : Buffer.AlikeIfAny
      (if list.buffer.active < pos then list.buffer.push (.fresh lock mode)
        else if (list.buffer.cell pos).id = lock.id then
          some (list.buffer.set pos ((list.buffer.cell pos).prefer mode))
        else list.buffer.insert pos (.fresh lock mode))
      (if list.buffer.active < pos then other.buffer.push (.fresh lock mode)
        else if (other.buffer.cell pos).id = lock.id then
          some (other.buffer.set pos ((other.buffer.cell pos).prefer mode))
        else other.buffer.insert pos (.fresh lock mode)) := by
    by_cases behind : list.buffer.active < pos
    · rw [if_pos behind, if_pos behind]
      exact alike.buffer.push _
    · have inside : pos ≤ list.buffer.active := Nat.le_of_not_lt behind
      rw [if_neg behind, if_neg behind, ← alike.buffer.cell pos first inside]
      by_cases here : (list.buffer.cell pos).id = lock.id
      · rw [if_pos here, if_pos here]
        exact .some (alike.buffer.set pos _)
      · rw [if_neg here, if_neg here]
        exact alike.buffer.insert pos _ first inside
  generalize (if list.buffer.active < pos then list.buffer.push _ else _) = mine at added ⊢
  generalize (if list.buffer.active < pos then other.buffer.push _ else _) = yours at added ⊢
  cases added with
  | none => exact Or.inr ⟨_, rfl, rfl⟩
  | some same => exact Or.inl ⟨_, _, _, rfl, rfl, alike.with_buffer same⟩

theorem Alike.seed (alike : list.Alike past other) (retro last : RetroList)
    (same : retro.buffer.Alike last.buffer) : AlikeIfKept past (list.seed retro) (other.seed last) := by
  rw [CurrentList.seed, CurrentList.seed, ← alike.is_empty, ← alike.buffer.capacity, ← same.active,
    ← same.entries]
  split
  · exact .error _
  · split
    · exact .error _
    · exact .ok (alike.with_buffer (alike.buffer.fill _))

theorem Alike.merge_writes (alike : list.Alike past other) (writes : List WriteAccess) :
    AlikeIfKept past (list.mergeWrites writes) (other.mergeWrites writes) := by
  rw [mergeWrites, mergeWrites]
  simp only [← alike.entries, ← alike.buffer.capacity]
  split
  · exact .error _
  · exact .ok (alike.with_buffer (alike.buffer.fill _))

theorem Alike.last_locked_within (alike : list.Alike past other) (count : Nat)
    (inside : count ≤ list.buffer.active) :
    list.lastLockedWithin count = other.lastLockedWithin count := by
  induction count with
  | zero => rfl
  | succ count ih =>
      rw [lastLockedWithin, lastLockedWithin, ← alike.buffer.cell (count + 1) (Nat.succ_pos _) inside, ih (by omega)]

theorem Alike.reset (alike : list.Alike past other) : list.reset.Alike past other.reset :=
  alike.with_buffer alike.buffer.clear

theorem Alike.give_back (alike : list.Alike past other) (entries : List Entry) (store : Store) :
    (entries.foldl giveBack (list, store)).1.Alike past (entries.foldl giveBack (other, store)).1 ∧
      (entries.foldl giveBack (list, store)).2 = (entries.foldl giveBack (other, store)).2 := by
  induction entries generalizing list other store with
  | nil => exact ⟨alike, rfl⟩
  | cons entry rest ih =>
      rw [List.foldl_cons, List.foldl_cons]
      rcases entry with ⟨_ | lock, preferred, taken, _ | handle⟩
      · exact ih alike store
      · exact ih alike store
      · exact ih alike store
      · exact ih ((alike.require _ _).called _) _

theorem Alike.release_all (alike : list.Alike past other) (store : Store) :
    (list.releaseAll store).1.Alike past (other.releaseAll store).1 ∧
      (list.releaseAll store).2 = (other.releaseAll store).2 := by
  rw [releaseAll, releaseAll, releaseAfter, releaseAfter, ← alike.buffer.position_after]
  have first := list.buffer.position_after_pos 0
  generalize list.buffer.positionAfter 0 = pos at first
  rw [releaseFrom, releaseFrom, ← alike.buffer.entries_from pos first]
  obtain ⟨same, next⟩ := alike.give_back (list.buffer.entriesFrom pos) store
  exact ⟨same.with_buffer (same.buffer.write pos _), next⟩

end CurrentList

namespace Acquisition

open CurrentList (Alike)

structure Alike (past : Array LockCall) (state other : Acquisition) : Prop where
  list : state.list.Alike past other.list
  last : state.last = other.last
  store : state.store = other.store

variable {past : Array LockCall} {state other : Acquisition}

theorem Alike.took (alike : state.Alike past other) (pos : Nat) (mode : Mode) (handle : Handle)
    (store : Store) (first : 0 < pos) (last : pos ≤ state.list.buffer.active) :
    (state.took pos mode handle store).Alike past (other.took pos mode handle store) where
  list := by
    rw [Acquisition.took, Acquisition.took, ← alike.list.buffer.cell pos first last]
    exact alike.list.with_buffer (alike.list.buffer.set pos _)
  last := congrArg (max · pos) alike.last
  store := rfl

theorem Alike.called (alike : state.Alike past other) (call : LockCall) :
    (state.called call).Alike past (other.called call) :=
  ⟨alike.list.called call, alike.last, alike.store⟩

theorem Alike.require (alike : state.Alike past other) (kept : Bool) (breach : Breach) :
    (state.require kept breach).Alike past (other.require kept breach) :=
  ⟨alike.list.require kept breach, alike.last, alike.store⟩

def AlikeAfter (past : Array LockCall) (result other : Outcome Unit × Acquisition) : Prop :=
  result.1 = other.1 ∧ result.2.Alike past other.2

theorem Alike.taken (alike : state.Alike past other) (pos : Nat)
    (first : 0 < pos) (last : pos ≤ state.list.buffer.active) (mode : Mode) (handle : Handle) (won lost : LockCall)
    (refused : Outcome Unit) (taken : Option Store) :
    AlikeAfter past
      (match taken with
        | some store => (.ok (), (state.called won).took pos mode handle store)
        | none => (refused, state.called lost))
      (match taken with
        | some store => (.ok (), (other.called won).took pos mode handle store)
        | none => (refused, other.called lost)) := by
  cases taken with
  | none => exact ⟨rfl, alike.called lost⟩
  | some store => exact ⟨rfl, (alike.called won).took pos mode handle store first last⟩

theorem Alike.await (alike : state.Alike past other) (pos : Nat)
    (first : 0 < pos) (last : pos ≤ state.list.buffer.active) (lock : LockRef) :
    AlikeAfter past (state.await pos lock) (other.await pos lock) := by
  obtain ⟨list, last, store⟩ := other
  obtain ⟨same, rfl, rfl⟩ := alike
  exact Alike.taken ⟨same, rfl, rfl⟩ pos first last .exclusive .writer _ _ _
    (state.store.take lock .writer)

theorem Alike.tried (alike : state.Alike past other) (pos : Nat)
    (first : 0 < pos) (last : pos ≤ state.list.buffer.active) (mode : Mode) (handle : Handle)
    (call : UInt32 → Bool → LockCall) (taken : Option Store) :
    AlikeAfter past
      (match taken with
        | some store => (.ok (), (state.called (call state.list.spins true)).took pos mode handle store)
        | none => (.fault .raceAbort, state.called (call state.list.spins false)))
      (match taken with
        | some store => (.ok (), (other.called (call other.list.spins true)).took pos mode handle store)
        | none => (.fault .raceAbort, other.called (call other.list.spins false))) := by
  rw [← alike.list.spins]
  exact alike.taken pos first last mode handle _ _ _ taken

theorem Alike.try_exclusive (alike : state.Alike past other) (pos : Nat)
    (first : 0 < pos) (last : pos ≤ state.list.buffer.active) (lock : LockRef) :
    AlikeAfter past (state.tryExclusive pos lock) (other.tryExclusive pos lock) := by
  rw [tryExclusive, tryExclusive, ← alike.store]
  exact alike.tried pos first last .exclusive .writer (.tryTake lock.id .writer) _

theorem Alike.try_shared (alike : state.Alike past other) (pos : Nat)
    (first : 0 < pos) (last : pos ≤ state.list.buffer.active) (lock : LockRef) :
    AlikeAfter past (state.tryShared pos lock) (other.tryShared pos lock) := by
  rw [tryShared, tryShared, ← alike.store]
  exact alike.tried pos first last .shared .reader (.tryTake lock.id .reader) _

theorem buffer_require (state : Acquisition) (kept : Bool) (breach : Breach) :
    (state.require kept breach).list.buffer = state.list.buffer := by
  cases kept <;> rfl

theorem Alike.try_upgrade (alike : state.Alike past other) (pos : Nat)
    (first : 0 < pos) (last : pos ≤ state.list.buffer.active) (lock : LockRef) (handle : Handle) :
    AlikeAfter past (state.tryUpgrade pos lock handle) (other.tryUpgrade pos lock handle) := by
  obtain ⟨list, last, store⟩ := other
  obtain ⟨same, rfl, rfl⟩ := alike
  have asked := Alike.require (⟨same, rfl, rfl⟩ : state.Alike past ⟨list, state.last, state.store⟩)
    (handle == .reader && (state.store.word lock).isHeldBy handle) (.foreignHandle lock.id handle)
  exact asked.tried pos first (by rwa [buffer_require]) .exclusive .writer (.upgrade lock.id handle)
    (state.store.upgrade lock)

theorem Alike.step (alike : state.Alike past other) (pos : Nat)
    (first : 0 < pos) (last : pos ≤ state.list.buffer.active) :
    AlikeAfter past (state.step pos) (other.step pos) := by
  rw [Acquisition.step, Acquisition.step, ← alike.list.buffer.cell pos first last, ← alike.last]
  generalize state.list.buffer.cell pos = entry
  rcases entry with ⟨_ | lock, preferred, taken, handle⟩
  · exact ⟨rfl, alike⟩
  · simp only
    split
    · exact ⟨rfl, alike⟩
    · split
      · have asked := alike.require (taken != .shared) (.awaitedShared lock.id)
        exact asked.await pos first (by rwa [buffer_require]) lock
      · split
        · exact alike.try_upgrade pos first last lock _
        · split
          · exact alike.try_exclusive pos first last lock
          · exact alike.try_shared pos first last lock

structure Steady (state next : Acquisition) : Prop where
  active : next.list.buffer.active = state.list.buffer.active
  spins : next.list.spins = state.list.spins

theorem Steady.trans {mid next : Acquisition} (first : Steady state mid) (second : Steady mid next) :
    Steady state next :=
  ⟨second.active.trans first.active, second.spins.trans first.spins⟩

theorem steady_require (state : Acquisition) (kept : Bool) (breach : Breach) :
    Steady state (state.require kept breach) := by
  cases kept <;> exact ⟨rfl, rfl⟩

theorem steady_taken (state : Acquisition) (pos : Nat) (mode : Mode) (handle : Handle)
    (won lost : LockCall) (refused : Outcome Unit) (taken : Option Store) :
    Steady state (match taken with
      | some store => (Outcome.ok (), (state.called won).took pos mode handle store)
      | none => (refused, state.called lost)).2 := by
  cases taken <;> exact ⟨rfl, rfl⟩

theorem steady_step (state : Acquisition) (pos : Nat) : Steady state (state.step pos).2 := by
  rw [Acquisition.step]
  generalize state.list.buffer.cell pos = entry
  rcases entry with ⟨_ | lock, preferred, taken, handle⟩
  · exact ⟨rfl, rfl⟩
  · simp only
    split
    · exact ⟨rfl, rfl⟩
    · split
      · exact (steady_require state _ _).trans
          (steady_taken _ pos .exclusive .writer _ _ _ (state.store.take lock .writer))
      · split
        · exact (steady_require state _ _).trans
            (steady_taken _ pos .exclusive .writer _ _ _ (state.store.upgrade lock))
        · split
          · exact steady_taken state pos .exclusive .writer _ _ _ (state.store.take lock .writer)
          · exact steady_taken state pos .shared .reader _ _ _ (state.store.take lock .reader)

theorem steady_steps (state : Acquisition) (pos count : Nat) :
    Steady state (steps pos count state).2 := by
  induction count generalizing state pos with
  | zero => exact ⟨rfl, rfl⟩
  | succ count ih =>
      have steady := steady_step state pos
      rw [steps]
      generalize state.step pos = result at steady
      obtain ⟨outcome, next⟩ := result
      cases outcome with
      | ok done => exact steady.trans (ih next (pos + 1))
      | fault why => exact steady
      | misuse why => exact steady
      | waiting id => exact steady

theorem Alike.steps (alike : state.Alike past other) (pos count : Nat) (first : 0 < pos)
    (inside : pos + count ≤ state.list.buffer.active + 1) :
    AlikeAfter past (steps pos count state) (steps pos count other) := by
  induction count generalizing state other pos with
  | zero => exact ⟨rfl, alike⟩
  | succ count ih =>
      have step := alike.step pos first (by omega)
      have steady := (steady_step state pos).active
      rw [Acquisition.steps, Acquisition.steps]
      generalize state.step pos = mine at step steady
      generalize other.step pos = yours at step
      obtain ⟨outcome, next⟩ := mine
      obtain ⟨_, last⟩ := yours
      obtain ⟨rfl, same⟩ := step
      cases outcome with
      | ok done => exact ih same (pos + 1) (Nat.succ_pos pos) (by simp only at steady; rw [steady]; omega)
      | fault why => exact ⟨rfl, same⟩
      | misuse why => exact ⟨rfl, same⟩
      | waiting id => exact ⟨rfl, same⟩

end Acquisition

theorem CurrentList.Alike.acquire_through {past : Array LockCall} {list other : CurrentList}
    (alike : list.Alike past other) (last : Nat) (store : Store) :
    let result := list.acquireThrough last store
    let same := other.acquireThrough last store
    result.1 = same.1 ∧ result.2.1.Alike past same.2.1 ∧ result.2.2 = same.2.2 := by
  rw [acquireThrough, acquireThrough, Buffer.holds, Buffer.holds, ← alike.buffer.active]
  by_cases inside : 0 < last ∧ last ≤ list.buffer.active
  · have start : (Acquisition.start list store).Alike past (.start other store) := by
      refine ⟨alike, ?_, rfl⟩
      rw [Acquisition.start, Acquisition.start, lastLocked, lastLocked, ← alike.buffer.active]
      exact alike.last_locked_within _ (Nat.le_refl _)
    obtain ⟨outcome, same⟩ := start.steps 1 last Nat.one_pos
      (by change 1 + last ≤ list.buffer.active + 1; omega)
    rw [decide_eq_true inside]
    exact ⟨outcome, same.list, same.store⟩
  · rw [decide_eq_false inside]
    exact ⟨rfl, alike, rfl⟩

end LockOrder
