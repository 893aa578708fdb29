import LockOrder.Proofs.CurrentList.Sound

set_option autoImplicit false

namespace LockOrder

namespace Entry

theorem tally_cons_held (ids : List UInt64) (entry : Entry) (rest : List Entry) (lock : LockRef)
    (held : Handle) (named : entry.lock = some lock) (sound : entry.Sound ids)
    (handle : entry.handle = some held) (slot : Nat) (kind : Handle) :
    tally (entry :: rest) slot kind = (tally rest).oneMore lock.slot held slot kind := by
  rw [tally_held ids (entry :: rest) 0 entry lock held rfl named sound handle]
  simp [Tally.one_more_apply, tally_cons]

theorem tally_cons_free (entry : Entry) (rest : List Entry)
    (handle : entry.handle = none) (slot : Nat) (kind : Handle) :
    tally (entry :: rest) slot kind = tally rest slot kind := by
  simp [tally_cons, owns, handle]

theorem id_ne_zero (ids : List UInt64) (nonzero : 0 ∉ ids) (entry : Entry) (sound : entry.Sound ids) :
    entry.id ≠ 0 := by
  obtain ⟨lock, named, on⟩ := sound.listed
  intro zero
  refine nonzero (List.mem_of_getElem? (i := lock.slot) ?_)
  have id : lock.id = 0 := by simpa [id, named] using zero
  rw [← id]
  exact on

end Entry

namespace CurrentList

variable {ids : List UInt64}

theorem give_back_fold (entries : List Entry) (list : CurrentList) (store : Store)
    (sound : ∀ entry ∈ entries, entry.Sound ids) :
    (entries.foldl giveBack (list, store)).1.buffer = list.buffer ∧
      (entries.foldl giveBack (list, store)).2.bare = store.bare ∧
      ∀ rest : Tally, store.Accounts (rest.plus (Entry.tally entries)) →
        (entries.foldl giveBack (list, store)).2.Accounts rest := by
  induction entries generalizing list store with
  | nil => exact ⟨rfl, rfl, fun rest accounts => accounts⟩
  | cons entry entries ih =>
      have own := sound entry (by simp)
      have others : ∀ other ∈ entries, other.Sound ids := fun other listed =>
        sound other (by simp [listed])
      obtain ⟨lock, named, _⟩ := own.listed
      rw [List.foldl_cons]
      cases handle : entry.handle with
      | none =>
          have same : giveBack (list, store) entry = (list, store) := by simp [giveBack, handle]
          rw [same]
          obtain ⟨buffer, bare, accounts⟩ := ih list store others
          refine ⟨buffer, bare, fun rest before => accounts rest ?_⟩
          refine Store.accounts_congr before fun slot kind => ?_
          rw [Tally.plus, Entry.tally_cons_free entry entries handle]
          rfl
      | some held =>
          obtain ⟨next, step, kept⟩ : ∃ next, giveBack (list, store) entry =
              (next, store.release lock held) ∧ next.buffer = list.buffer := by
            refine ⟨(giveBack (list, store) entry).1, by simp [giveBack, handle, named], ?_⟩
            simp only [giveBack, handle, named, called, require]
            split <;> rfl
          rw [step]
          obtain ⟨buffer, bare, accounts⟩ := ih next (store.release lock held) others
          refine ⟨buffer.trans kept, bare.trans (Store.bare_release store lock held), ?_⟩
          intro rest before
          refine accounts rest (Store.accounts_release store lock held _ ?_)
          refine Store.accounts_congr before fun slot kind => ?_
          rw [Tally.plus, Entry.tally_cons_held ids entry entries lock held named own handle,
            Tally.one_more_apply, Tally.one_more_apply, Tally.plus, Nat.add_assoc]

variable {list : CurrentList}

theorem release_from_entries (sound : list.Sound ids) (store : Store) (pos : Nat) (first : 0 < pos)
    (last : pos ≤ list.buffer.active + 1) :
    (list.releaseFrom pos store).1.entries =
      list.entries.take (pos - 1) ++ (list.entries.drop (pos - 1)).map Entry.freed := by
  have part : ∀ entry ∈ list.buffer.entriesFrom pos, entry.Sound ids := by
    intro entry listed
    rw [Buffer.entries_from_eq_drop _ _ first] at listed
    exact sound.entries entry (List.mem_of_mem_drop listed)
  have same := (give_back_fold (list.buffer.entriesFrom pos) list store part).1
  change Buffer.entries (Buffer.write _ _ _) = _
  rw [same]
  exact entries_write_from sound pos Entry.freed first last

theorem release_from_keeps (sound : list.Sound ids) (store : Store) (pos : Nat) (first : 0 < pos)
    (last : pos ≤ list.buffer.active + 1) :
    Keeps ids list store (list.releaseFrom pos store).1 (list.releaseFrom pos store).2 := by
  have tail := Buffer.entries_from_eq_drop list.buffer pos first
  have part : ∀ entry ∈ list.buffer.entriesFrom pos, entry.Sound ids := by
    intro entry listed
    rw [tail] at listed
    exact sound.entries entry (List.mem_of_mem_drop listed)
  obtain ⟨same, bare, accounts⟩ := give_back_fold (list.buffer.entriesFrom pos) list store part
  have buffer : (list.releaseFrom pos store).1.buffer =
      list.buffer.write pos ((list.buffer.entriesFrom pos).map Entry.freed) :=
    congrArg (fun old => old.write pos ((list.buffer.entriesFrom pos).map Entry.freed)) same
  refine ⟨?_, ?_, bare, ?_⟩
  · exact sound_write_from sound pos Entry.freed first last Entry.id_freed
      (Entry.sound_freed ids) buffer
  · rw [buffer, Buffer.size_write]
  · intro others before
    rw [release_from_entries sound store pos first last]
    refine accounts (others.plus _) (Store.accounts_congr before fun slot kind => ?_)
    have whole := Entry.tally_append (list.entries.take (pos - 1)) (list.entries.drop (pos - 1)) slot kind
    rw [List.take_append_drop] at whole
    have freed : Entry.tally ((list.entries.drop (pos - 1)).map Entry.freed) slot kind = 0 := by
      refine Entry.tally_of_owns_nothing _ (fun entry listed slot kind => ?_) slot kind
      obtain ⟨old, _, rfl⟩ := List.mem_map.mp listed
      exact Entry.owns_freed old slot kind
    simp only [Tally.plus, Entry.tally_append, whole, freed, tail]
    rw [Nat.add_zero, Nat.add_assoc]
    rfl

theorem release_after_keeps (sound : list.Sound ids) (store : Store) (id : UInt64) :
    Keeps ids list store (list.releaseAfter id store).1 (list.releaseAfter id store).2 := by
  obtain ⟨first, last⟩ := position_after_cuts list.buffer sound.buffer id
  exact release_from_keeps sound store _ first last

theorem release_all_keeps (sound : list.Sound ids) (store : Store) :
    Keeps ids list store (list.releaseAll store).1 (list.releaseAll store).2 :=
  release_after_keeps sound store 0

theorem position_after_zero (sound : list.Sound ids) (nonzero : 0 ∉ ids) :
    list.buffer.positionAfter 0 = 1 := by
  have cuts := list.buffer.lower_bound_cuts sound.buffer 1
  have first := cuts.first
  have last := cuts.last
  change list.buffer.lowerBound 1 = 1
  by_cases more : list.buffer.lowerBound 1 = 1
  · exact more
  · have below := cuts.below 1 (by omega) (by omega)
    have listed := Buffer.cell_mem_entries list.buffer sound.buffer.room 1 (by omega) (by omega)
    have id := Entry.id_ne_zero ids nonzero _ (sound.entries _ listed)
    have zero : (list.buffer.cell 1).id.toNat = 0 := by
      have small := UInt64.lt_iff_toNat_lt.mp below
      simpa using small
    exact absurd (UInt64.toNat_inj.mp zero) id

theorem release_all_entries (sound : list.Sound ids) (store : Store) (nonzero : 0 ∉ ids) :
    (list.releaseAll store).1.entries = list.entries.map Entry.freed := by
  have all := position_after_zero sound nonzero
  have view := release_from_entries sound store 1 (by omega) (by omega)
  unfold releaseAll releaseAfter
  rw [all]
  simpa using view

theorem release_all_holds_nothing (sound : list.Sound ids) (store : Store) (nonzero : 0 ∉ ids) :
    (list.releaseAll store).1.isHolding = false := by
  rw [isHolding, release_all_entries sound store nonzero]
  simp [Entry.isLocked, Entry.freed]

end CurrentList

end LockOrder
