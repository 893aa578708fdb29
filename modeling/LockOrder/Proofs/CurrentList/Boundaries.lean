import LockOrder.Proofs.Buffer.Alike
import LockOrder.Proofs.CurrentList.Release

set_option autoImplicit false

namespace LockOrder

namespace Buffer

variable {buffer other : Buffer} {range : UInt64 → Bool} {pos : Nat} {id : UInt64}

theorem write_self (buffer : Buffer) (room : buffer.active < buffer.cells.size) (pos : Nat)
    (last : pos ≤ buffer.active + 1) : buffer.write pos (buffer.entriesFrom pos) = buffer := by
  have length := length_entries_from buffer pos room
  refine ext_cells (size_write ..) (active_write ..) fun place => ?_
  rw [cell_write buffer pos place _ (by omega)]
  by_cases before : place < pos
  · rw [if_pos before]
  · rw [if_neg before]
    by_cases inside : place ≤ buffer.active
    · have here := getElem_entries_from buffer pos (place - pos) room (by omega)
      have shift : pos + (place - pos) = place := by omega
      rw [here, shift]
      rfl
    · rw [List.getElem?_eq_none (by omega)]
      rfl

-- The range has all entries from the position on, and none before it.
structure Splits (buffer : Buffer) (range : UInt64 → Bool) (pos : Nat) : Prop where
  first : 0 < pos
  last : pos ≤ buffer.active + 1
  before : ∀ entry ∈ buffer.entries.take (pos - 1), range entry.id = false
  rest : ∀ entry ∈ buffer.entries.drop (pos - 1), range entry.id = true

theorem Splits.filter (splits : buffer.Splits range pos) :
    buffer.entries.filter (fun entry => range entry.id) = buffer.entries.drop (pos - 1) := by
  have whole := List.take_append_drop (pos - 1) buffer.entries
  have none : (buffer.entries.take (pos - 1)).filter (fun entry => range entry.id) = [] :=
    List.filter_eq_nil_iff.mpr fun entry listed => by simp [splits.before entry listed]
  have all : (buffer.entries.drop (pos - 1)).filter (fun entry => range entry.id) =
      buffer.entries.drop (pos - 1) := List.filter_eq_self.mpr splits.rest
  calc buffer.entries.filter (fun entry => range entry.id)
      = (buffer.entries.take (pos - 1) ++ buffer.entries.drop (pos - 1)).filter
          (fun entry => range entry.id) := by rw [whole]
    _ = buffer.entries.drop (pos - 1) := by rw [List.filter_append, none, all, List.nil_append]

theorem Splits.map (splits : buffer.Splits range pos) (f : Entry → Entry) :
    buffer.entries.map (fun entry => if range entry.id then f entry else entry) =
      buffer.entries.take (pos - 1) ++ (buffer.entries.drop (pos - 1)).map f := by
  let change := fun entry : Entry => if range entry.id then f entry else entry
  have before : (buffer.entries.take (pos - 1)).map change = buffer.entries.take (pos - 1) := by
    rw [List.map_congr_left (g := id) fun entry listed => by simp [change, splits.before entry listed],
      List.map_id]
  have rest : (buffer.entries.drop (pos - 1)).map change = (buffer.entries.drop (pos - 1)).map f :=
    List.map_congr_left fun entry listed => by simp [change, splits.rest entry listed]
  calc buffer.entries.map change
      = (buffer.entries.take (pos - 1) ++ buffer.entries.drop (pos - 1)).map change := by
        rw [List.take_append_drop]
    _ = buffer.entries.take (pos - 1) ++ (buffer.entries.drop (pos - 1)).map f := by
        rw [List.map_append, before, rest]

theorem Splits.agree (splits : buffer.Splits range pos) {place : Nat}
    (splitsToo : other.Splits range place) (room : buffer.active < buffer.cells.size)
    (roomToo : other.active < other.cells.size)
    (same : other.entries.map Entry.id = buffer.entries.map Entry.id) : place = pos := by
  have length : other.entries.length = buffer.entries.length := by
    simpa using congrArg List.length same
  have counts : (other.entries.filter fun entry => range entry.id).length =
      (buffer.entries.filter fun entry => range entry.id).length := by
    have ids := congrArg (List.countP range) same
    rw [List.countP_map, List.countP_map] at ids
    rwa [← List.countP_eq_length_filter, ← List.countP_eq_length_filter]
  rw [splits.filter, splitsToo.filter, List.length_drop, List.length_drop, length] at counts
  rw [length_entries buffer room, length_entries other roomToo] at length
  rw [length_entries buffer room] at counts
  have first := splits.first
  have firstToo := splitsToo.first
  have last := splits.last
  have lastToo := splitsToo.last
  omega

theorem Cuts.splits (cuts : buffer.Cuts id pos) (room : buffer.active < buffer.cells.size) :
    buffer.Splits (fun other => decide (id ≤ other)) pos where
  first := cuts.first
  last := cuts.last
  before := fun entry listed =>
    decide_eq_false (UInt64.not_le.mpr (cuts.take_below room entry listed))
  rest := fun entry listed => decide_eq_true (cuts.drop_not_below room entry listed)

theorem Splits.congr (splits : buffer.Splits range pos) {same : UInt64 → Bool}
    (agree : ∀ entry ∈ buffer.entries, same entry.id = range entry.id) : buffer.Splits same pos where
  first := splits.first
  last := splits.last
  before := fun entry listed =>
    (agree entry (List.mem_of_mem_take listed)).trans (splits.before entry listed)
  rest := fun entry listed =>
    (agree entry (List.mem_of_mem_drop listed)).trans (splits.rest entry listed)

theorem after_splits (sound : buffer.Sound) (id : UInt64) :
    buffer.Splits (fun other => decide (id < other)) (buffer.positionAfter id) := by
  rw [positionAfter]
  by_cases greatest : id = 0xffffffffffffffff
  · rw [if_pos greatest]
    refine ⟨Nat.succ_pos _, Nat.le_refl _, fun entry listed => ?_, fun entry listed => ?_⟩
    · rw [greatest]
      refine decide_eq_false (UInt64.not_lt.mpr ?_)
      rw [UInt64.le_iff_toNat_le]
      exact Nat.le_of_lt_succ entry.id.toNat_lt
    · rw [Nat.add_sub_cancel, List.drop_eq_nil_of_le (Nat.le_of_eq (length_entries _ sound.room))]
        at listed
      cases listed
  · rw [if_neg greatest]
    have cuts := lower_bound_cuts buffer sound (id + 1)
    refine (cuts.splits sound.room).congr fun entry listed => decide_eq_decide.mpr ?_
    have apart : id.toNat ≠ 18446744073709551615 := fun same =>
      greatest (UInt64.toNat_inj.mp same)
    have bound := id.toNat_lt
    rw [UInt64.le_iff_toNat_le, UInt64.lt_iff_toNat_lt, UInt64.toNat_add]
    simp
    omega

-- What is not smaller is greater than the number before, and no entry is before the number one.
theorem at_and_after_splits (sound : buffer.Sound) (nonzero : ∀ entry ∈ buffer.entries, entry.id ≠ 0)
    (id : UInt64) : buffer.Splits (fun other => decide (id ≤ other))
      (buffer.positionAfter (if id = 0 then 0 else id - 1)) := by
  refine (after_splits sound _).congr fun entry listed => decide_eq_decide.mpr ?_
  by_cases zero : id = 0
  · rw [if_pos zero, zero]
    have some : 0 < entry.id := UInt64.pos_iff_ne_zero.mpr (nonzero entry listed)
    exact ⟨fun _ => some, fun _ => UInt64.le_of_lt some⟩
  · rw [if_neg zero]
    have least : (1 : UInt64) ≤ id := by
      rw [UInt64.le_iff_toNat_le]
      exact Nat.pos_of_ne_zero fun none => zero (UInt64.toNat_inj.mp none)
    rw [UInt64.le_iff_toNat_le, UInt64.lt_iff_toNat_lt, UInt64.toNat_sub_of_le _ _ least]
    rw [UInt64.le_iff_toNat_le] at least
    simp at least ⊢
    omega

end Buffer

namespace Entry

variable {ids : List UInt64} {entry : Entry}

theorem freed_of_unlocked (sound : entry.Sound ids) (unlocked : entry.isLocked = false) :
    entry.freed = entry := by
  have taken : entry.taken = .unlocked := by
    simpa [isLocked] using unlocked
  rw [freed, ← taken, ← handle_of_unlocked sound unlocked]

theorem give_up_of_locked (locked : entry.isLocked = true) : entry.giveUp = entry := by
  rw [giveUp, if_pos locked]

theorem give_up_twice (entry : Entry) : entry.giveUp.giveUp = entry.giveUp := by
  cases locked : entry.isLocked with
  | true => rw [give_up_of_locked locked, give_up_of_locked locked]
  | false =>
      have same : entry.giveUp = { entry with preferred := .unlocked } := by
        rw [giveUp, locked]
        rfl
      have still : entry.giveUp.isLocked = false := by
        rw [same]
        exact locked
      rw [giveUp, still, same]
      rfl

def letGo (store : Store) (entry : Entry) : Store :=
  match entry.lock, entry.handle with
  | some lock, some handle => store.release lock handle
  | _, _ => store

end Entry

namespace CurrentList

variable {ids : List UInt64} {list : CurrentList} {range : UInt64 → Bool} {pos : Nat}

def heldIn (list : CurrentList) (range : UInt64 → Bool) : List Entry :=
  list.entries.filter fun entry => range entry.id && entry.isLocked

-- The cells of the sentinel and of what was listed once.
def KeepsRest (list after : CurrentList) : Prop :=
  after.spins = list.spins ∧ after.buffer.active = list.buffer.active ∧
    after.buffer.cells.size = list.buffer.cells.size ∧
    ∀ pos, pos = 0 ∨ list.buffer.active < pos → after.buffer.cell pos = list.buffer.cell pos

structure Releases (list : CurrentList) (range : UInt64 → Bool) (store : Store)
    (result : CurrentList × Store) : Prop where
  calls : ∃ made : List LockCall, result.1.calls.toList = list.calls.toList ++ made ∧
    made.map some = (list.heldIn range).map fun entry => entry.handle.map (.release entry.id)
  ordered : ((list.heldIn range).map Entry.id).Pairwise (· < ·)
  store : result.2 = (list.heldIn range).foldl Entry.letGo store
  entries : result.1.entries = list.entries.map fun entry =>
    if range entry.id && entry.isLocked then { entry with taken := .unlocked, handle := none }
    else entry
  rest : list.KeepsRest result.1

structure GivesUp (list : CurrentList) (range : UInt64 → Bool) (after : CurrentList) : Prop where
  calls : after.calls = list.calls
  breaches : after.breaches = list.breaches
  entries : after.entries = list.entries.map fun entry =>
    if range entry.id && !entry.isLocked then { entry with preferred := .unlocked } else entry
  rest : list.KeepsRest after

theorem give_back_calls (entries : List Entry) (list : CurrentList) (store : Store)
    (sound : ∀ entry ∈ entries, entry.Sound ids) :
    let held := entries.filter Entry.isLocked
    let result := entries.foldl giveBack (list, store)
    (∃ made : List LockCall, result.1.calls.toList = list.calls.toList ++ made ∧
      made.map some = held.map fun entry => entry.handle.map (.release entry.id)) ∧
    result.2 = held.foldl Entry.letGo store ∧ result.1.spins = list.spins := by
  induction entries generalizing list store with
  | nil => exact ⟨⟨[], (List.append_nil _).symm, rfl⟩, rfl, rfl⟩
  | cons entry entries ih =>
      have own := sound entry (by simp)
      have others : ∀ other ∈ entries, other.Sound ids := fun other listed =>
        sound other (by simp [listed])
      rw [List.foldl_cons]
      cases locked : entry.isLocked with
      | false =>
          have same : giveBack (list, store) entry = (list, store) := by
            simp [giveBack, Entry.handle_of_unlocked own locked]
          rw [same, List.filter_cons_of_neg (by simp [locked])]
          exact ih list store others
      | true =>
          obtain ⟨lock, named, _⟩ := own.listed
          obtain ⟨kind, has, _⟩ := Entry.handle_of_locked own locked
          have id : entry.id = lock.id := by rw [Entry.id, named]
          obtain ⟨next, step, calls, spins⟩ : ∃ next, giveBack (list, store) entry =
              (next, store.release lock kind) ∧
                next.calls.toList = list.calls.toList ++ [.release lock.id kind] ∧
                next.spins = list.spins := by
            refine ⟨(giveBack (list, store) entry).1, by simp [giveBack, has, named], ?_, ?_⟩
            · simp only [giveBack, has, named, called, require]
              split <;> simp
            · simp only [giveBack, has, named, called, require]
              split <;> rfl
          have gone : entry.letGo store = store.release lock kind := by
            simp [Entry.letGo, has, named]
          rw [step, List.filter_cons_of_pos locked]
          obtain ⟨⟨made, grown, each⟩, last, same⟩ := ih next (store.release lock kind) others
          refine ⟨⟨.release lock.id kind :: made, ?_, ?_⟩, ?_, same.trans spins⟩
          · rw [grown, calls, List.append_assoc]
            rfl
          · rw [List.map_cons, List.map_cons, each, has, id]
            rfl
          · rw [List.foldl_cons, gone]
            exact last

theorem keeps_rest_write (after : CurrentList) (spins : after.spins = list.spins) (pos : Nat)
    (f : Entry → Entry) (sound : list.buffer.Sound) (first : 0 < pos)
    (last : pos ≤ list.buffer.active + 1)
    (written : after.buffer = list.buffer.write pos ((list.buffer.entriesFrom pos).map f)) :
    list.KeepsRest after := by
  have length := Buffer.length_entries_from list.buffer pos sound.room
  have room := sound.room
  rw [KeepsRest, written]
  refine ⟨spins, Buffer.active_write .., Buffer.size_write .., fun place outside => ?_⟩
  rw [Buffer.cell_write _ _ _ _ (by rw [List.length_map, length]; omega)]
  rcases outside with rfl | beyond
  · rw [if_pos first]
  · by_cases before : place < pos
    · rw [if_pos before]
    · rw [if_neg before, List.getElem?_eq_none (by rw [List.length_map, length]; omega)]
      rfl

theorem held_in_splits (splits : list.buffer.Splits range pos) :
    list.heldIn range = (list.buffer.entriesFrom pos).filter Entry.isLocked := by
  have both : list.heldIn range =
      (list.entries.filter fun entry => range entry.id).filter Entry.isLocked := by
    rw [heldIn, List.filter_filter]
    exact List.filter_congr fun entry _ => Bool.and_comm _ _
  rw [both, Buffer.entries_from_eq_drop _ _ splits.first]
  exact congrArg _ splits.filter

theorem release_from_releases (sound : list.Sound ids) (splits : list.buffer.Splits range pos)
    (store : Store) : list.Releases range store (list.releaseFrom pos store) := by
  have part : ∀ entry ∈ list.buffer.entriesFrom pos, entry.Sound ids := by
    intro entry listed
    rw [Buffer.entries_from_eq_drop _ _ splits.first] at listed
    exact sound.entries entry (List.mem_of_mem_drop listed)
  obtain ⟨calls, last, spins⟩ := give_back_calls (list.buffer.entriesFrom pos) list store part
  have buffer := (give_back_fold (list.buffer.entriesFrom pos) list store part).1
  rw [← held_in_splits splits] at calls last
  refine ⟨calls, ?_, last, ?_, ?_⟩
  · exact (List.pairwise_map.mpr sound.buffer.ascending).sublist (List.filter_sublist.map _)
  · have view := release_from_entries sound store pos splits.first splits.last
    rw [view]
    refine (splits.map Entry.freed).symm.trans (List.map_congr_left fun entry listed => ?_)
    cases locked : entry.isLocked with
    | true => cases range entry.id <;> rfl
    | false =>
        rw [Entry.freed_of_unlocked (sound.entries entry listed) locked]
        cases range entry.id <;> rfl
  · exact keeps_rest_write _ spins pos Entry.freed sound.buffer splits.first splits.last
      (congrArg (fun old => old.write pos ((list.buffer.entriesFrom pos).map Entry.freed)) buffer)

theorem release_from_nothing (sound : list.Sound ids) (store : Store) (last : pos ≤ list.buffer.active + 1)
    (free : ∀ entry ∈ list.buffer.entriesFrom pos, entry.freed = entry) :
    list.releaseFrom pos store = (list, store) := by
  have gives : (list.buffer.entriesFrom pos).foldl giveBack (list, store) = (list, store) := by
    revert free
    generalize list.buffer.entriesFrom pos = entries
    intro free
    induction entries with
    | nil => rfl
    | cons entry rest ih =>
        have none : entry.handle = none := (congrArg Entry.handle (free entry (by simp))).symm
        have same : giveBack (list, store) entry = (list, store) := by simp [giveBack, none]
        rw [List.foldl_cons, same]
        exact ih fun other listed => free other (by simp [listed])
  have same : (list.buffer.entriesFrom pos).map Entry.freed = list.buffer.entriesFrom pos := by
    rw [List.map_congr_left (g := id) free, List.map_id]
  simp only [releaseFrom, gives, same]
  rw [Buffer.write_self _ sound.buffer.room _ last]

theorem changed_from {after : CurrentList} (sound : list.buffer.Sound) (f : Entry → Entry)
    (same : ∀ entry, (f entry).id = entry.id) (first : 0 < pos) (last : pos ≤ list.buffer.active + 1)
    (view : after.entries = list.entries.take (pos - 1) ++ (list.entries.drop (pos - 1)).map f) :
    after.buffer.entries.map Entry.id = list.buffer.entries.map Entry.id ∧
      after.buffer.entriesFrom pos = (list.entries.drop (pos - 1)).map f := by
  constructor
  · change after.entries.map Entry.id = list.entries.map Entry.id
    rw [view, List.map_append, List.map_map, show Entry.id ∘ f = Entry.id from funext same,
      ← List.map_append, List.take_append_drop]
  · have length : list.entries.length = list.buffer.active :=
      Buffer.length_entries list.buffer sound.room
    have shorter : (list.entries.take (pos - 1)).length = pos - 1 := by
      rw [List.length_take, length]
      omega
    rw [Buffer.entries_from_eq_drop _ _ first]
    change after.entries.drop (pos - 1) = _
    rw [view, List.drop_left' shorter]

theorem release_from_twice (sound : list.Sound ids) (splits : list.buffer.Splits range pos) (store : Store)
    {place : Nat} (splitsToo : (list.releaseFrom pos store).1.buffer.Splits range place) :
    (list.releaseFrom pos store).1.releaseFrom place (list.releaseFrom pos store).2 =
      list.releaseFrom pos store := by
  have keeps := release_from_keeps sound store pos splits.first splits.last
  obtain ⟨ids, tail⟩ := changed_from sound.buffer Entry.freed Entry.id_freed splits.first splits.last
    (release_from_entries sound store pos splits.first splits.last)
  obtain rfl : place = pos := splits.agree splitsToo sound.buffer.room keeps.sound.buffer.room ids
  refine release_from_nothing keeps.sound _ splitsToo.last fun entry listed => ?_
  rw [tail] at listed
  obtain ⟨old, _, rfl⟩ := List.mem_map.mp listed
  rfl

theorem give_up_from_view (sound : list.Sound ids) (first : 0 < pos)
    (last : pos ≤ list.buffer.active + 1) : (list.giveUpFrom pos).entries =
      list.entries.take (pos - 1) ++ (list.entries.drop (pos - 1)).map Entry.giveUp :=
  entries_write_from sound pos Entry.giveUp first last

theorem give_up_from_gives_up (sound : list.Sound ids) (splits : list.buffer.Splits range pos) :
    list.GivesUp range (list.giveUpFrom pos) where
  calls := rfl
  breaches := rfl
  entries := by
    rw [give_up_from_view sound splits.first splits.last]
    refine (splits.map Entry.giveUp).symm.trans (List.map_congr_left fun entry _ => ?_)
    cases locked : entry.isLocked with
    | true =>
        rw [Entry.give_up_of_locked locked]
        cases range entry.id <;> rfl
    | false =>
        rw [Entry.giveUp, locked]
        cases range entry.id <;> rfl
  rest := keeps_rest_write _ rfl pos Entry.giveUp sound.buffer splits.first splits.last rfl

theorem give_up_from_twice (sound : list.Sound ids) (splits : list.buffer.Splits range pos) {place : Nat}
    (splitsToo : (list.giveUpFrom pos).buffer.Splits range place) :
    (list.giveUpFrom pos).giveUpFrom place = list.giveUpFrom pos := by
  have keeps : Keeps ids list {} (list.giveUpFrom pos) {} :=
    give_up_from_keeps sound pos splits.first splits.last
  obtain ⟨ids, tail⟩ := changed_from sound.buffer Entry.giveUp Entry.id_give_up splits.first splits.last
    (give_up_from_view sound splits.first splits.last)
  obtain rfl : place = pos := splits.agree splitsToo sound.buffer.room keeps.sound.buffer.room ids
  have same : ((list.giveUpFrom place).buffer.entriesFrom place).map Entry.giveUp =
      (list.giveUpFrom place).buffer.entriesFrom place := by
    rw [tail, List.map_map,
      show Entry.giveUp ∘ Entry.giveUp = Entry.giveUp from funext Entry.give_up_twice]
  rw [giveUpFrom, same, Buffer.write_self _ keeps.sound.buffer.room _ splitsToo.last]

def HasSlice (list : CurrentList) (pos : Nat) : Prop :=
  0 < pos ∧ pos ≤ list.buffer.active + 1 ∧ list.buffer.active + 1 ≤ list.buffer.cells.size ∧
    list.buffer.active + 1 < UInt32.size

theorem boundaries_cut_exactly (list : CurrentList) (sound : list.Sound ids) (nonzero : 0 ∉ ids)
    (small : list.buffer.capacity < UInt32.size - 1) (id : UInt64) (store : Store) :
    (list.Releases (fun other => decide (id < other)) store (list.releaseAfter id store) ∧
      list.Releases (fun other => decide (id ≤ other)) store (list.releaseAtAndAfter id store)) ∧
    (list.GivesUp (fun other => decide (id < other)) (list.giveUpAfter id) ∧
      list.GivesUp (fun other => decide (id ≤ other)) (list.giveUpAtAndAfter id)) ∧
    (∀ boundary, list.HasSlice (list.buffer.positionAfter boundary)) ∧
    -- A second time nothing is left to do.
    ((let once := list.releaseAfter id store
      once.1.releaseAfter id once.2 = once) ∧
      (let once := list.releaseAtAndAfter id store
      once.1.releaseAtAndAfter id once.2 = once) ∧
      (list.giveUpAfter id).giveUpAfter id = list.giveUpAfter id ∧
      (list.giveUpAtAndAfter id).giveUpAtAndAfter id = list.giveUpAtAndAfter id) := by
  have listed : ∀ {list : CurrentList}, list.Sound ids → ∀ entry ∈ list.buffer.entries, entry.id ≠ 0 :=
    fun sound entry here => Entry.id_ne_zero ids nonzero entry (sound.entries entry here)
  have after : ∀ {list : CurrentList}, list.Sound ids → _ := fun sound =>
    Buffer.after_splits sound.buffer id
  have onward : ∀ {list : CurrentList}, list.Sound ids → _ := fun sound =>
    Buffer.at_and_after_splits sound.buffer (listed sound) id
  have released : ∀ boundary, (list.releaseAfter boundary store).1.Sound ids := fun boundary =>
    (release_after_keeps sound store boundary).sound
  have given : ∀ boundary, (list.giveUpAfter boundary).Sound ids := by
    intro boundary
    have kept : Keeps ids list store (list.giveUpAfter boundary) store :=
      give_up_after_keeps sound boundary
    exact kept.sound
  refine ⟨⟨?_, ?_⟩, ⟨?_, ?_⟩, fun boundary => ?_, ?_, ?_, ?_, ?_⟩
  · exact release_from_releases sound (after sound) store
  · exact release_from_releases sound (onward sound) store
  · exact give_up_from_gives_up sound (after sound)
  · exact give_up_from_gives_up sound (onward sound)
  · obtain ⟨first, last⟩ := position_after_cuts list.buffer sound.buffer boundary
    have room := sound.buffer.room
    rw [Buffer.capacity] at small
    exact ⟨first, last, room, by omega⟩
  · exact release_from_twice sound (after sound) store (after (released _))
  · exact release_from_twice sound (onward sound) store (onward (released _))
  · exact give_up_from_twice sound (after sound) (after (given _))
  · exact give_up_from_twice sound (onward sound) (onward (given _))

-- A full list, with a lock or a wish on either side of a boundary, and the greatest identifier at its end.
def straddling : CurrentList where
  buffer :=
    { cells := #[.sentinel, ⟨some ⟨0, 3⟩, .shared, .shared, some .reader⟩,
        ⟨some ⟨1, 5⟩, .exclusive, .unlocked, none⟩, ⟨some ⟨2, 7⟩, .exclusive, .shared, some .reader⟩,
        ⟨some ⟨3, 9⟩, .shared, .unlocked, none⟩,
        ⟨some ⟨4, 18446744073709551615⟩, .exclusive, .exclusive, some .writer⟩]
      active := 5 }
  spins := 3

def straddledStore : Store where
  records := #[{ id := 3, lock := ⟨1⟩ }, { id := 5 }, { id := 7, lock := ⟨2⟩ }, { id := 9 },
    { id := 18446744073709551615, lock := ⟨RwLock.exclusiveWord⟩ }]

theorem straddling_sound : straddling.Sound [3, 5, 7, 9, 18446744073709551615] where
  buffer := ⟨by decide, rfl, by unfold Entry.Ascending; decide⟩
  entries := by
    intro entry listed
    have view : straddling.entries = [⟨some ⟨0, 3⟩, .shared, .shared, some .reader⟩,
        ⟨some ⟨1, 5⟩, .exclusive, .unlocked, none⟩, ⟨some ⟨2, 7⟩, .exclusive, .shared, some .reader⟩,
        ⟨some ⟨3, 9⟩, .shared, .unlocked, none⟩,
        ⟨some ⟨4, 18446744073709551615⟩, .exclusive, .exclusive, some .writer⟩] := by decide
    rw [view] at listed
    simp only [List.mem_cons, List.not_mem_nil, or_false] at listed
    rcases listed with rfl | rfl | rfl | rfl | rfl <;> exact ⟨⟨_, rfl, rfl⟩, rfl⟩

theorem straddling_cut_exactly :
    (straddling.releaseAfter 5 straddledStore).1.calls.toList =
        [.release 7 .reader, .release 18446744073709551615 .writer] ∧
      straddling.Releases (fun other => decide (5 < other)) straddledStore
        (straddling.releaseAfter 5 straddledStore) ∧
      (straddling.releaseAfter 18446744073709551615 straddledStore).1.calls.toList = [] ∧
      (straddling.giveUpAtAndAfter 5).entries.map Entry.preferred =
        [.shared, .unlocked, .exclusive, .unlocked, .exclusive] ∧
      straddling.GivesUp (fun other => decide (5 ≤ other)) (straddling.giveUpAtAndAfter 5) :=
  have cut := boundaries_cut_exactly straddling straddling_sound (by decide) (by decide) 5 straddledStore
  ⟨by decide +kernel, cut.1.1, by decide +kernel, by decide +kernel, cut.2.1.2⟩

end CurrentList

end LockOrder
