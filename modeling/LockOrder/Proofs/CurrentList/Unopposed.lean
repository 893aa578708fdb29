import LockOrder.Proofs.CurrentList.Acquire
import LockOrder.Proofs.CurrentList.Merge

set_option autoImplicit false

namespace LockOrder

namespace Entry

variable {ids : List UInt64} {entries : List Entry} {entry : Entry} {lock : LockRef} {index : Nat}

theorem tally_of_others (ascending : Ascending entries)
    (sound : ∀ entry ∈ entries, entry.Sound ids) (here : entries[index]? = some entry)
    (named : entry.lock = some lock) (kind : Handle) :
    tally (entries.set index entry.freed) lock.slot kind = 0 := by
  obtain ⟨inside, value⟩ := List.getElem?_eq_some_iff.mp here
  rw [tally, List.countP_eq_zero]
  intro other listed owned
  obtain ⟨place, there⟩ := List.mem_iff_getElem?.mp listed
  by_cases same : place = index
  · subst same
    rw [List.getElem?_set_self inside] at there
    cases there
    simp at owned
  · rw [List.getElem?_set_ne (Ne.symm same)] at there
    obtain ⟨bound, content⟩ := List.getElem?_eq_some_iff.mp there
    obtain ⟨otherLock, otherNamed, otherOn⟩ := (sound other (List.mem_of_getElem? there)).listed
    obtain ⟨ownLock, ownNamed, on⟩ := (sound entry (List.mem_of_getElem? here)).listed
    cases ownNamed.symm.trans named
    have slot : otherLock.slot = lock.slot := by
      simp only [owns, otherNamed, decide_eq_true_eq] at owned
      simpa using owned.1
    have ids : other.id = entry.id := by
      simp [Entry.id, otherNamed, named, LockRef.on_slot otherOn on slot]
    have apart := List.pairwise_iff_getElem.mp ascending
    rcases Nat.lt_or_gt_of_ne same with before | behind
    · have less := apart place index bound inside before
      rw [content, value, ids] at less
      exact absurd less (UInt64.lt_irrefl _)
    · have less := apart index place inside bound behind
      rw [content, value, ids] at less
      exact absurd less (UInt64.lt_irrefl _)

theorem tally_own (ascending : Ascending entries)
    (sound : ∀ entry ∈ entries, entry.Sound ids) (here : entries[index]? = some entry)
    (named : entry.lock = some lock) (kind : Handle) :
    tally entries lock.slot kind = (entry.owns lock.slot kind).toNat := by
  have count := tally_set entries index entry entry.freed here lock.slot kind
  rw [tally_of_others ascending sound here named] at count
  simpa using count.symm

end Entry

namespace Acquisition

variable {ids : List UInt64} {state next : Acquisition} {pos : Nat} {outcome : Outcome Unit}

structure Unopposed (ids : List UInt64) (state : Acquisition) : Prop where
  ready : state.Ready ids
  named : state.store.ids = ids
  accounts : state.store.Accounts (Entry.tally state.list.entries)

theorem Unopposed.counts (unopposed : state.Unopposed ids) (first : 0 < pos)
    (last : pos ≤ state.list.buffer.active) (lock : LockRef)
    (named : (state.cell pos).lock = some lock) :
    (state.store.word lock).Counts fun kind => ((state.cell pos).owns lock.slot kind).toNat := by
  have sound := unopposed.ready.sound
  have here : state.list.entries[pos - 1]? = some (state.cell pos) :=
    Buffer.entry_at _ sound.buffer.room pos first last
  obtain ⟨own, ownNamed, on⟩ := (sound.entries _ (List.mem_of_getElem? here)).listed
  cases ownNamed.symm.trans named
  have inside : lock.slot < state.store.records.size := on.inside unopposed.named
  exact RwLock.counts_congr (unopposed.accounts lock.slot inside) fun kind =>
    Entry.tally_own sound.buffer.ascending sound.entries here named kind

theorem Stepped.succeeds (stepped : Stepped pos state outcome next)
    (unopposed : state.Unopposed ids) (first : 0 < pos) (last : pos ≤ state.list.buffer.active) :
    outcome = .ok () := by
  have free : ∀ lock kind, (state.cell pos).lock = some lock → (state.cell pos).taken = .unlocked →
      state.store.take lock kind ≠ none := by
    intro lock kind named unlocked refused
    have counts := unopposed.counts first last lock named
    have readers := counts.readers (by simp [Entry.owns_of_unlocked _ _ _ unlocked])
    simp only [Entry.owns_of_unlocked _ _ _ unlocked, Bool.toNat_false] at readers
    have some := RwLock.take_free (UInt64.toNat_inj.mp readers) kind
    rw [Store.take, Option.map_eq_none_iff] at refused
    rw [refused] at some
    cases some
  cases stepped with
  | stuck lock named short unlocked behind refused => exact absurd refused (free lock _ named unlocked)
  | refused lock kind named short unlocked ahead wanted refused =>
      exact absurd refused (free lock _ named unlocked)
  | shareKept lock named shared wants ahead refused =>
      -- Its own share is the only one.
      have sound := unopposed.ready.sound
      have listed := Buffer.cell_mem_entries _ sound.buffer.room pos first last
      have handle := (sound.entries _ listed).handled
      change (state.cell pos).handle = (state.cell pos).taken.handle at handle
      rw [shared] at handle
      have counts := unopposed.counts first last lock named
      have readers := counts.readers (by simp [Entry.owns, shared, Handle.mode])
      have one : (state.store.word lock).word.toNat = (1 : UInt64).toNat := by
        simpa [Entry.owns, named, shared, handle, Handle.mode, Mode.handle] using readers
      simp [Store.upgrade, RwLock.upgrade, UInt64.toNat_inj.mp one] at refused
  | _ => rfl

theorem steps_succeed (count : Nat) (state : Acquisition) (unopposed : state.Unopposed ids) (pos : Nat)
    (first : 0 < pos) (last : pos + count ≤ state.list.buffer.active + 1) :
    (steps pos count state).1 = .ok () ∧
      (steps pos count state).2.list.buffer.active = state.list.buffer.active := by
  induction count generalizing state pos with
  | zero => exact ⟨rfl, rfl⟩
  | succ count ih =>
      have bound : pos ≤ state.list.buffer.active := by omega
      have stepped := step_cases state unopposed.ready pos first bound
      unfold steps
      generalize state.step pos = result at stepped
      obtain ⟨outcome, next⟩ := result
      simp only at stepped
      obtain ⟨ready, keeps⟩ := stepped.keeps unopposed.ready first bound
      have active := stepped.active
      obtain rfl := stepped.succeeds unopposed first bound
      obtain ⟨done, same⟩ := ih next ⟨ready, (Store.ids_of_bare keeps.bare).trans unopposed.named,
        keeps.conserves.accounts unopposed.accounts⟩ (pos + 1) (by omega) (by omega)
      exact ⟨done, same.trans active⟩

end Acquisition

namespace CurrentList

variable {ids : List UInt64} {list : CurrentList} {store : Store}

theorem acquire_through_succeeds (sound : list.Sound ids) (named : store.ids = ids)
    (accounts : store.Accounts (Entry.tally list.entries)) (last : Nat)
    (inside : list.buffer.holds last = true) :
    (list.acquireThrough last store).1 = .ok () ∧
      (list.acquireThrough last store).2.1.buffer.active = list.buffer.active := by
  obtain ⟨first, bound⟩ : 0 < last ∧ last ≤ list.buffer.active := by
    simpa [Buffer.holds] using inside
  unfold acquireThrough
  rw [if_pos inside]
  refine Acquisition.steps_succeed last (.start list store)
    ⟨Acquisition.ready_start list store sound, named, accounts⟩ 1 (by omega) ?_
  change 1 + last ≤ list.buffer.active + 1
  omega

theorem length_written (writes : List WriteAccess) : (written writes).length ≤ writes.length := by
  induction writes with
  | nil => exact Nat.le_refl _
  | cons write rest ih =>
      unfold written
      split
      · simp
      · rename_i next more found
        rw [found] at ih
        simp only [List.length_cons] at ih ⊢
        split <;> simp only [List.length_cons] <;> omega

theorem merge_writes_succeeds (sound : list.Sound ids) (writes : List WriteAccess)
    (ordered : writes.Pairwise fun a b => a.id ≤ b.id)
    (room : list.entries.length + writes.length ≤ list.buffer.capacity) :
    ∃ after, list.mergeWrites writes = .ok after := by
  obtain ⟨ascend, _⟩ := written_ascend writes ordered
  have perm := (merged_entries list.entries (written writes) sound.buffer.ascending ascend).1
  have length := perm.length_eq
  have few := length_written writes
  have fewer : (missing list.entries (written writes)).length ≤ (written writes).length :=
    List.length_filter_le _ _
  simp only [List.length_append, List.length_map, placeholders] at length
  unfold mergeWrites
  rw [if_neg (by omega)]
  exact ⟨_, rfl⟩

end CurrentList

end LockOrder
