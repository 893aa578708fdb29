import LockOrder.Proofs.CurrentList.Merge
import LockOrder.Proofs.CurrentList.Request
import LockOrder.Proofs.CurrentList.Resume

set_option autoImplicit false

namespace LockOrder

namespace Entry

def OwnedFirst (held : Nat) (entries : List Entry) : Prop :=
  ∀ index entry, entries[index]? = some entry →
    entry.taken = (if index < held then .exclusive else .unlocked) ∧ entry.preferred ≠ .unlocked

variable {held : Nat} {entries : List Entry}

theorem owned_first_map (owned : OwnedFirst held entries) (f : Entry → Entry)
    (taken : ∀ entry, (f entry).taken = entry.taken)
    (wants : ∀ entry, entry.preferred ≠ .unlocked → (f entry).preferred ≠ .unlocked) :
    OwnedFirst held (entries.map f) := by
  intro index entry here
  rw [List.getElem?_map] at here
  obtain ⟨old, there, rfl⟩ := Option.map_eq_some_iff.mp here
  obtain ⟨mode, wish⟩ := owned index old there
  exact ⟨(taken old).trans mode, wants old wish⟩

theorem owned_first_append (owned : OwnedFirst held entries) (bound : held ≤ entries.length)
    (more : List Entry) (free : OwnedFirst 0 more) : OwnedFirst held (entries ++ more) := by
  intro index entry here
  rw [List.getElem?_append] at here
  split at here
  · exact owned index entry here
  · rename_i behind
    obtain ⟨mode, wish⟩ := free _ entry here
    have beyond : ¬ index < held := by omega
    rw [if_neg beyond]
    exact ⟨mode, wish⟩

theorem owned_first_took (owned : OwnedFirst held entries) (entry : Entry)
    (here : entries[held]? = some entry) :
    OwnedFirst (held + 1) (entries.set held (entry.took .exclusive .writer)) := by
  have inside : held < entries.length := (List.getElem?_eq_some_iff.mp here).1
  intro index other there
  by_cases same : index = held
  · subst same
    rw [List.getElem?_set_self inside] at there
    cases there
    exact ⟨(if_pos (Nat.lt_succ_self _)).symm, (owned _ entry here).2⟩
  · rw [List.getElem?_set_ne (Ne.symm same)] at there
    obtain ⟨mode, wish⟩ := owned index other there
    refine ⟨mode.trans ?_, wish⟩
    by_cases before : index < held
    · rw [if_pos before, if_pos (by omega)]
    · rw [if_neg before, if_neg (by omega)]

theorem owned_first_free (entries : List Entry)
    (free : ∀ entry ∈ entries, entry.isLocked = false)
    (wants : ∀ entry ∈ entries, entry.preferred ≠ .unlocked) : OwnedFirst 0 entries := by
  intro index entry here
  have listed := List.mem_of_getElem? here
  exact ⟨by simpa [isLocked] using free entry listed, wants entry listed⟩

end Entry

namespace CurrentList

def ids (list : CurrentList) : List UInt64 := list.entries.map Entry.id

-- After these calls the list has waited for its first locks, in their order, and got them.
structure Canonical (before : List LockCall) (held : Nat) (list : CurrentList) : Prop where
  bound : held ≤ list.entries.length
  owned : Entry.OwnedFirst held list.entries
  calls : list.calls.toList = before ++ (list.ids.take held).map .await

structure Waits (before : List LockCall) (held : Nat) (list : CurrentList) : Prop where
  bound : held < list.entries.length
  owned : Entry.OwnedFirst held list.entries
  calls : list.calls.toList = before ++ (list.ids.take (held + 1)).map .await

variable {ids : List UInt64} {before : List LockCall} {held : Nat} {list after : CurrentList}

theorem Canonical.cell (canonical : list.Canonical before held) (sound : list.Sound ids) (pos : Nat)
    (first : 0 < pos) (last : pos ≤ list.buffer.active) :
    (list.buffer.cell pos).taken = (if pos ≤ held then .exclusive else .unlocked) ∧
      (list.buffer.cell pos).preferred ≠ .unlocked := by
  have here := Buffer.entry_at list.buffer sound.buffer.room pos first last
  have place : pos - 1 < held ↔ pos ≤ held := by omega
  have owned := canonical.owned (pos - 1) _ here
  simpa only [place] using owned

theorem Canonical.last_locked (canonical : list.Canonical before held) (sound : list.Sound ids) :
    list.lastLocked = held := by
  have length := Buffer.length_entries list.buffer sound.buffer.room
  have bound := canonical.bound
  change held ≤ list.buffer.entries.length at bound
  refine last_locked_unique list held (by omega) (fun pos above last => ?_) ?_
  · have free := (canonical.cell sound pos (by omega) last).1
    rw [if_neg (by omega)] at free
    simp [Entry.isLocked, free]
  · by_cases none : held = 0
    · exact Or.inl none
    · have owned := (canonical.cell sound held (by omega) (by omega)).1
      rw [if_pos (Nat.le_refl _)] at owned
      exact Or.inr (by simp [Entry.isLocked, owned])

theorem Canonical.of_entries (canonical : list.Canonical before held)
    (bound : list.entries.length ≤ after.entries.length)
    (owned : Entry.OwnedFirst held after.entries)
    (same : after.ids.take list.entries.length = list.ids) (calls : after.calls = list.calls) :
    after.Canonical before held where
  bound := Nat.le_trans canonical.bound bound
  owned := owned
  calls := by
    have part : list.ids.take held = after.ids.take held := by
      rw [← same, List.take_take, Nat.min_eq_left canonical.bound]
    rw [calls, canonical.calls, part]

theorem ids_set (list : CurrentList) (pos : Nat) (entry : Entry) (old : Entry)
    (here : list.entries[pos]? = some old) (same : entry.id = old.id) :
    (list.entries.set pos entry).map Entry.id = list.ids := by
  obtain ⟨inside, value⟩ := List.getElem?_eq_some_iff.mp here
  have listed : pos < list.ids.length := by simpa [CurrentList.ids] using inside
  have old : list.ids[pos] = entry.id := by simp [CurrentList.ids, value, same]
  rw [List.map_set, ← old]
  exact List.set_getElem_self listed

theorem take_ids_succ (list : CurrentList) (entry : Entry) (here : list.entries[held]? = some entry) :
    list.ids.take (held + 1) = list.ids.take held ++ [entry.id] := by
  have there : list.ids[held]? = some entry.id := by
    simp [CurrentList.ids, here]
  rw [List.take_add_one, there]
  rfl

end CurrentList

namespace Acquisition

open CurrentList

variable {ids : List UInt64} {before : List LockCall} {held pos : Nat}

theorem Stepped.canonical {state next : Acquisition} {outcome : Outcome Unit}
    (stepped : Stepped pos state outcome next) (ready : state.Ready ids)
    (canonical : state.list.Canonical before held) (first : 0 < pos)
    (last : pos ≤ state.list.buffer.active) (reach : pos ≤ held + 1) :
    (outcome = .ok () ∧ next.list.Canonical before (max held pos)) ∨
      (∃ id, outcome = .waiting id ∧ next.list.Waits before held) := by
  have tracks : state.last = held := ready.tracks.trans (canonical.last_locked ready.sound)
  obtain ⟨mode, wants⟩ := canonical.cell ready.sound pos first last
  change (state.cell pos).taken = _ at mode
  change (state.cell pos).preferred ≠ _ at wants
  have here : state.list.entries[pos - 1]? = some (state.cell pos) :=
    Buffer.entry_at _ ready.sound.buffer.room pos first last
  have next_lock : (state.cell pos).taken = .unlocked → pos = held + 1 := by
    intro unlocked
    by_cases early : pos ≤ held
    · rw [if_pos early, unlocked] at mode
      cases mode
    · omega
  have whole : (state.cell pos).taken ≠ .shared := by
    rw [mode]
    split <;> decide
  cases stepped with
  | enough enough =>
      refine Or.inl ⟨rfl, ?_⟩
      by_cases early : pos ≤ held
      · rwa [Nat.max_eq_left early]
      · rw [if_neg early] at mode
        unfold Entry.isEnough at enough
        rw [mode, Mode.covers_iff] at enough
        exact absurd (Mode.rank_injective (Nat.le_zero.mp enough)) wants
  | awaited lock store named short unlocked behind taken =>
      obtain rfl := next_lock unlocked
      rw [Nat.add_sub_cancel] at here
      have id : (state.cell (held + 1)).id = lock.id := by simp [Entry.id, named]
      have view : ((state.called (.await lock.id)).took (held + 1) .exclusive .writer store).list.entries =
          state.list.entries.set held ((state.cell (held + 1)).took .exclusive .writer) :=
        Buffer.entries_set _ _ _ first
      have same : ((state.called (.await lock.id)).took (held + 1) .exclusive .writer store).list.ids =
          state.list.ids := by
        rw [CurrentList.ids, view]
        exact ids_set state.list held _ _ here rfl
      refine Or.inl ⟨rfl, ?_⟩
      rw [Nat.max_eq_right (by omega)]
      refine ⟨?_, ?_, ?_⟩
      · rw [view, List.length_set]
        exact (List.getElem?_eq_some_iff.mp here).1
      · rw [view]
        exact Entry.owned_first_took canonical.owned _ here
      · rw [same, take_ids_succ state.list _ here, id, List.map_append, ← List.append_assoc,
          ← canonical.calls]
        exact Array.toList_push
  | stuck lock named short unlocked behind refused =>
      obtain rfl := next_lock unlocked
      rw [Nat.add_sub_cancel] at here
      have id : (state.cell (held + 1)).id = lock.id := by simp [Entry.id, named]
      refine Or.inr ⟨lock.id, rfl, (List.getElem?_eq_some_iff.mp here).1, canonical.owned, ?_⟩
      change (state.list.calls.push (.await lock.id)).toList =
        before ++ (state.list.ids.take (held + 1)).map .await
      rw [take_ids_succ state.list _ here, id, List.map_append, ← List.append_assoc, ← canonical.calls]
      exact Array.toList_push
  | tried lock kind store named short unlocked ahead wanted taken =>
      have place := next_lock unlocked
      omega
  | refused lock kind named short unlocked ahead wanted refused =>
      have place := next_lock unlocked
      omega
  | upgraded lock store named shared wants ahead raised => exact absurd shared whole
  | shareKept lock named shared wants ahead refused => exact absurd shared whole

theorem Stepped.same_ids {state next : Acquisition} {outcome : Outcome Unit}
    (stepped : Stepped pos state outcome next) (ready : state.Ready ids) (first : 0 < pos)
    (last : pos ≤ state.list.buffer.active) : next.list.ids = state.list.ids := by
  have here : state.list.entries[pos - 1]? = some (state.cell pos) :=
    Buffer.entry_at _ ready.sound.buffer.room pos first last
  have took : ∀ (mid : Acquisition) (mode : Mode) (handle : Handle) (store : Store),
      mid.list.buffer = state.list.buffer →
        (mid.took pos mode handle store).list.ids = state.list.ids := by
    intro mid mode handle store buffer
    have view : (mid.took pos mode handle store).list.entries =
        state.list.entries.set (pos - 1) ((state.cell pos).took mode handle) := by
      change (mid.list.buffer.set pos _).entries = _
      rw [buffer]
      exact Buffer.entries_set _ _ _ first
    rw [CurrentList.ids, view]
    exact ids_set state.list (pos - 1) _ _ here rfl
  cases stepped with
  | awaited lock store named short unlocked behind taken => exact took _ _ _ _ rfl
  | tried lock kind store named short unlocked ahead wanted taken => exact took _ _ _ _ rfl
  | upgraded lock store named shared wants ahead raised =>
      exact took _ _ _ _ (checked_buffer state lock)
  | shareKept lock named shared wants ahead refused =>
      exact congrArg (fun buffer => buffer.entries.map Entry.id) (checked_buffer state lock)
  | _ => rfl

-- Takes locks in a row while others change the records before every single one.
def stepsAmid (pos : Nat) : List (Store → Store) → Acquisition → Outcome Unit × Acquisition
  | [], state => (.ok (), state)
  | others :: rest, state =>
      match step pos { state with store := others state.store } with
      | (.ok (), state) => stepsAmid (pos + 1) rest state
      | stopped => stopped

theorem steps_alone (pos count : Nat) (state : Acquisition) :
    stepsAmid pos (List.replicate count id) state = steps pos count state := by
  induction count generalizing pos state with
  | zero => rfl
  | succ count ih =>
      simp only [List.replicate_succ, stepsAmid, steps, ih]
      rfl

theorem steps_amid_canonical (others : List (Store → Store)) (state : Acquisition)
    (ready : state.Ready ids) (pos held : Nat) (canonical : state.list.Canonical before held)
    (first : 0 < pos) (reach : pos ≤ held + 1)
    (last : pos + others.length ≤ state.list.buffer.active + 1) :
    (stepsAmid pos others state).2.list.ids = state.list.ids ∧
    (((stepsAmid pos others state).1 = .ok () ∧
      ∃ held, (stepsAmid pos others state).2.list.Canonical before held) ∨
    ((∃ id, (stepsAmid pos others state).1 = .waiting id) ∧
      ∃ held, (stepsAmid pos others state).2.list.Waits before held)) := by
  induction others generalizing state pos held with
  | nil => exact ⟨rfl, Or.inl ⟨rfl, held, canonical⟩⟩
  | cons change rest ih =>
      simp only [List.length_cons] at last
      have around : Ready ids { state with store := change state.store } := ⟨ready.sound, ready.tracks⟩
      have bound : pos ≤ state.list.buffer.active := by omega
      have stepped := step_cases { state with store := change state.store } around pos first bound
      unfold stepsAmid
      generalize step pos { state with store := change state.store } = result at stepped
      obtain ⟨outcome, next⟩ := result
      simp only at stepped
      have kept := (stepped.keeps around first bound).1
      have active := stepped.active
      have same : next.list.ids = state.list.ids := stepped.same_ids around first bound
      simp only at active
      rcases stepped.canonical around canonical first bound reach with
        ⟨rfl, further⟩ | ⟨id, rfl, waits⟩
      · obtain ⟨later, ended⟩ := ih next kept (pos + 1) (max held pos) further (by omega) (by omega)
          (by omega)
        exact ⟨later.trans same, ended⟩
      · exact ⟨same, Or.inr ⟨⟨id, rfl⟩, held, waits⟩⟩

end Acquisition

namespace CurrentList

variable {ids : List UInt64} {before : List LockCall} {held : Nat} {list after : CurrentList}

theorem acquire_through_canonical (canonical : list.Canonical before held) (sound : list.Sound ids)
    (last : Nat) (inside : list.buffer.holds last = true) (store : Store) :
    (list.acquireThrough last store).2.1.ids = list.ids ∧
    (((list.acquireThrough last store).1 = .ok () ∧
      ∃ held, (list.acquireThrough last store).2.1.Canonical before held) ∨
    ((∃ id, (list.acquireThrough last store).1 = .waiting id) ∧
      ∃ held, (list.acquireThrough last store).2.1.Waits before held)) := by
  obtain ⟨first, bound⟩ : 0 < last ∧ last ≤ list.buffer.active := by
    simpa [Buffer.holds] using inside
  unfold acquireThrough
  rw [if_pos inside, ← Acquisition.steps_alone]
  refine Acquisition.steps_amid_canonical _ (.start list store)
    (Acquisition.ready_start list store sound) 1 held canonical (by omega) (by omega) ?_
  rw [List.length_replicate]
  change 1 + last ≤ list.buffer.active + 1
  omega

theorem get_or_add_canonical (canonical : list.Canonical before held) (sound : list.Sound ids)
    (lock : LockRef) (mode : Mode) (listed : ∃ entry ∈ list.entries, entry.id = lock.id) :
    ∃ pos after, list.getOrAdd lock mode = .ok (pos, after) ∧ after.buffer.holds pos = true ∧
      after.ids = list.ids ∧ after.Canonical before held := by
  obtain ⟨pos, after, added⟩ := get_or_add_succeeds sound.buffer lock mode (Or.inr listed)
  obtain ⟨first, last, _, calls⟩ := get_or_add_position sound.buffer added
  have view : after.entries = list.entries.map (Entry.preferAt lock.id mode) := by
    rw [get_or_add_entries list after lock mode pos sound.buffer added]
    exact Entry.request_listed lock mode _ sound.buffer.ascending listed
  have same : after.ids = list.ids := by
    simp [CurrentList.ids, view, Function.comp_def]
  refine ⟨pos, after, added, by simp [Buffer.holds, first, last], same, ?_⟩
  refine canonical.of_entries (by simp [view]) ?_ ?_ calls
  · rw [view]
    refine Entry.owned_first_map canonical.owned _ (fun entry => ?_) (fun entry wants => ?_)
    · unfold Entry.preferAt
      split <;> rfl
    · unfold Entry.preferAt
      split
      · exact Entry.prefer_wants entry mode wants
      · exact wants
  · rw [same, List.take_of_length_le (by simp [CurrentList.ids])]

theorem merge_writes_canonical (canonical : list.Canonical before held) (sound : list.Sound ids)
    (writes : List WriteAccess) (ordered : writes.Pairwise fun a b => a.id ≤ b.id)
    (foreseen : ∀ write ∈ writes, write.id ∈ list.ids ∨ ∀ id ∈ list.ids, id < write.id)
    (merged : list.mergeWrites writes = .ok after) : after.Canonical before held := by
  obtain ⟨ascend, among⟩ := written_ascend writes ordered
  obtain ⟨entries, calls, _⟩ := merge_writes_merges writes sound.buffer.room merged
  have behind : ∀ lock ∈ missing list.entries (written writes), ∀ entry ∈ list.entries,
      entry.id < lock.id := by
    intro lock absent entry listed
    obtain ⟨member, unlisted⟩ := List.mem_filter.mp absent
    obtain ⟨write, written, rfl⟩ := among lock member
    rcases foreseen write written with here | above
    · obtain ⟨other, there, same⟩ := List.mem_map.mp here
      simp only [isListed, Bool.not_eq_true', List.any_eq_false, beq_iff_eq] at unlisted
      exact absurd same (unlisted other there)
    · exact above entry.id (List.mem_map_of_mem listed)
  rw [walk_behind list.entries _ sound.buffer.ascending ascend behind] at entries
  have kept : (list.entries.map (raised (written writes))).map Entry.id = list.ids := by
    simp [CurrentList.ids, Function.comp_def]
  refine canonical.of_entries (by simp [entries]) ?_ ?_ calls
  · rw [entries]
    refine Entry.owned_first_append ?_ (by simpa using canonical.bound) _ ?_
    · refine Entry.owned_first_map canonical.owned _ (fun entry => ?_) (fun entry wants => ?_)
      · unfold raised
        split <;> rfl
      · unfold raised
        split
        · exact Entry.prefer_wants entry .exclusive wants
        · exact wants
    · refine Entry.owned_first_free _ (fun entry listed => ?_) (fun entry listed => ?_)
      · obtain ⟨lock, _, rfl⟩ := List.mem_map.mp listed
        rfl
      · obtain ⟨lock, _, rfl⟩ := List.mem_map.mp listed
        simp [Entry.fresh]
  · rw [CurrentList.ids, entries, List.map_append, kept]
    exact List.take_left' (by simp [CurrentList.ids])

def WaitsInOrder (before : List LockCall) (list : CurrentList) : Prop :=
  ∃ awaited : List UInt64, awaited.Pairwise (· < ·) ∧
    list.calls.toList = before ++ awaited.map .await

theorem ids_ascend (sound : list.Sound ids) : list.ids.Pairwise (· < ·) :=
  List.pairwise_map.mpr sound.buffer.ascending

theorem Canonical.in_order (canonical : list.Canonical before held)
    (ascending : list.ids.Pairwise (· < ·)) : list.WaitsInOrder before :=
  ⟨_, ascending.sublist (List.take_sublist _ _), canonical.calls⟩

theorem Waits.in_order (waits : list.Waits before held) (ascending : list.ids.Pairwise (· < ·)) :
    list.WaitsInOrder before :=
  ⟨_, ascending.sublist (List.take_sublist _ _), waits.calls⟩

def OnlyWaits (before : List LockCall) (list : CurrentList) : Prop :=
  ∀ (others : List (Store → Store)) (store : Store), others.length ≤ list.buffer.active →
    (∀ fault, (Acquisition.stepsAmid 1 others (.start list store)).1 ≠ .fault fault) ∧
      (Acquisition.stepsAmid 1 others (.start list store)).2.list.WaitsInOrder before

theorem Canonical.only_waits (canonical : list.Canonical before held) (sound : list.Sound ids) :
    list.OnlyWaits before := by
  intro others store last
  have ready := Acquisition.ready_start list store sound
  obtain ⟨same, ended⟩ := Acquisition.steps_amid_canonical others (.start list store) ready 1 held
    canonical (by omega) (by omega) (by change 1 + others.length ≤ list.buffer.active + 1; omega)
  have ascending : (Acquisition.stepsAmid 1 others (.start list store)).2.list.ids.Pairwise (· < ·) := by
    rw [same]
    exact ids_ascend sound
  rcases ended with ⟨done, _, further⟩ | ⟨⟨id, waiting⟩, _, waits⟩
  · exact ⟨fun fault wrong => (by cases done.symm.trans wrong), further.in_order ascending⟩
  · exact ⟨fun fault wrong => (by cases waiting.symm.trans wrong), waits.in_order ascending⟩

theorem Canonical.require (canonical : list.Canonical before held) (kept : Bool) (breach : Breach) :
    (list.require kept breach).Canonical before held := by
  unfold CurrentList.require
  split
  · exact canonical
  · exact ⟨canonical.bound, canonical.owned, canonical.calls⟩

end CurrentList

end LockOrder
