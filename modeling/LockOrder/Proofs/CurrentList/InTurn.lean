import LockOrder.Proofs.CurrentList.Canonical

set_option autoImplicit false

namespace LockOrder

namespace CurrentList

-- Asks for one lock after the other, from `pos` on, and stops at the first one that it does not get.
-- Before each of them others change the records.
def askAmid (pos : Nat) :
    List (Store → Store) → CurrentList → Store → Outcome Unit × CurrentList × Store
  | [], list, store => (.ok (), list, store)
  | change :: rest, list, store =>
      match list.acquireAt pos (change store) with
      | (.ok (), list, store) => askAmid (pos + 1) rest list store
      | stopped => stopped

def askInTurn (pos : Nat) : Nat → CurrentList → Store → Outcome Unit × CurrentList × Store
  | 0, list, store => (.ok (), list, store)
  | count + 1, list, store =>
      match list.acquireAt pos store with
      | (.ok (), list, store) => askInTurn (pos + 1) count list store
      | stopped => stopped

theorem ask_alone (pos count : Nat) (list : CurrentList) (store : Store) :
    askAmid pos (List.replicate count id) list store = askInTurn pos count list store := by
  induction count generalizing pos list store with
  | zero => rfl
  | succ count ih =>
      simp only [List.replicate_succ, askAmid, askInTurn, ih]
      rfl

end CurrentList

namespace Acquisition

variable {ids : List UInt64}

def seen (result : Outcome Unit × Acquisition) : Outcome Unit × CurrentList × Store :=
  (result.1, result.2.list, result.2.store)

theorem acquire_at_of_ready (state : Acquisition) (ready : state.Ready ids) (pos : Nat) (first : 0 < pos)
    (last : pos ≤ state.list.buffer.active) :
    state.list.acquireAt pos state.store = seen (state.step pos) := by
  have inside : state.list.buffer.holds pos = true := by simp [Buffer.holds, first, last]
  have same : start state.list state.store = state := by
    rw [start, ← ready.tracks]
  rw [CurrentList.acquireAt, if_pos inside, same]
  rfl

theorem steps_amid_in_turn (others : List (Store → Store)) (state : Acquisition)
    (ready : state.Ready ids) (pos : Nat) (first : 0 < pos)
    (last : pos + others.length ≤ state.list.buffer.active + 1) :
    seen (stepsAmid pos others state) =
      CurrentList.askAmid pos others state.list state.store := by
  induction others generalizing pos state with
  | nil => rfl
  | cons change rest ih =>
      rw [List.length_cons] at last
      let around : Acquisition := { state with store := change state.store }
      have steady : around.Ready ids := ⟨ready.sound, ready.tracks⟩
      have bound : pos ≤ around.list.buffer.active := by
        change pos ≤ state.list.buffer.active
        omega
      have single : state.list.acquireAt pos (change state.store) = seen (around.step pos) :=
        acquire_at_of_ready around steady pos first bound
      have stepped := step_cases around steady pos first bound
      have changed : ({ state with store := change state.store } : Acquisition) = around := rfl
      rw [stepsAmid, changed, CurrentList.askAmid, single]
      generalize around.step pos = result at stepped
      obtain ⟨outcome, next⟩ := result
      cases outcome with
      | ok _ =>
          have kept := (stepped.keeps steady first bound).1
          have active : next.list.buffer.active = state.list.buffer.active := stepped.active
          exact ih next kept (pos + 1) (by omega) (by omega)
      | fault _ => rfl
      | misuse _ => rfl
      | waiting _ => rfl

end Acquisition

namespace CurrentList

variable {ids : List UInt64}

theorem locks_are_taken_in_turn (list : CurrentList) (sound : list.Sound ids) (last : Nat)
    (inside : list.buffer.holds last = true) :
    (∀ store, list.acquireThrough last store = list.askInTurn 1 last store) ∧
    -- It is the same whatever others do to the records before each lock.
    ∀ (others : List (Store → Store)) (store : Store), others.length = last →
      Acquisition.seen (Acquisition.stepsAmid 1 others (.start list store)) =
        list.askAmid 1 others store := by
  obtain ⟨first, bound⟩ : 0 < last ∧ last ≤ list.buffer.active := by
    simpa [Buffer.holds] using inside
  have amid : ∀ (others : List (Store → Store)) (store : Store), others.length = last →
      Acquisition.seen (Acquisition.stepsAmid 1 others (.start list store)) =
        list.askAmid 1 others store := by
    intro others store each
    refine Acquisition.steps_amid_in_turn others (.start list store)
      (Acquisition.ready_start list store sound) 1 Nat.one_pos ?_
    change 1 + others.length ≤ list.buffer.active + 1
    omega
  refine ⟨fun store => ?_, amid⟩
  have alone := amid (List.replicate last id) store (List.length_replicate ..)
  rw [Acquisition.steps_alone, ask_alone] at alone
  rw [acquireThrough, if_pos inside]
  exact alone

-- An entry that was given up, one that holds nothing, one that holds a share, and two without locks
-- behind the last lock held.
def patchwork : CurrentList where
  buffer :=
    { cells := #[.sentinel, ⟨some ⟨0, 1⟩, .unlocked, .unlocked, none⟩,
        ⟨some ⟨1, 2⟩, .shared, .unlocked, none⟩, ⟨some ⟨2, 3⟩, .exclusive, .shared, some .reader⟩,
        ⟨some ⟨3, 4⟩, .exclusive, .unlocked, none⟩, ⟨some ⟨4, 5⟩, .exclusive, .unlocked, none⟩]
      active := 5 }
  spins := 7

def patchedStore : Store where
  records := #[{ id := 1 }, { id := 2 }, { id := 3, lock := ⟨1⟩ }, { id := 4 },
    { id := 5, lock := ⟨RwLock.exclusiveWord⟩ }]

theorem patchwork_sound : patchwork.Sound [1, 2, 3, 4, 5] where
  buffer := ⟨by decide, rfl, by unfold Entry.Ascending; decide⟩
  entries := by
    intro entry listed
    have view : patchwork.entries = [⟨some ⟨0, 1⟩, .unlocked, .unlocked, none⟩,
        ⟨some ⟨1, 2⟩, .shared, .unlocked, none⟩, ⟨some ⟨2, 3⟩, .exclusive, .shared, some .reader⟩,
        ⟨some ⟨3, 4⟩, .exclusive, .unlocked, none⟩, ⟨some ⟨4, 5⟩, .exclusive, .unlocked, none⟩] := by
      decide
    rw [view] at listed
    simp only [List.mem_cons, List.not_mem_nil, or_false] at listed
    rcases listed with rfl | rfl | rfl | rfl | rfl <;> exact ⟨⟨_, rfl, rfl⟩, rfl⟩

theorem patchwork_in_turn :
    (patchwork.acquireThrough 5 patchedStore).1 = .waiting 5 ∧
      (patchwork.askInTurn 1 5 patchedStore).2.1.calls.toList =
        [.tryTake 2 .reader 7 true, .upgrade 3 .reader 7 true, .await 4, .await 5] ∧
      patchwork.acquireThrough 5 patchedStore = patchwork.askInTurn 1 5 patchedStore :=
  ⟨by decide +kernel, by decide +kernel,
    (locks_are_taken_in_turn patchwork patchwork_sound 5 (by decide)).1 patchedStore⟩

end CurrentList

end LockOrder
