import LockOrder.Proofs.CurrentList.Counts
import LockOrder.Proofs.CurrentList.Insertion

set_option autoImplicit false

namespace LockOrder

theorem Entry.prefer_exclusive_again (entry : Entry) :
    (entry.prefer .exclusive).prefer .exclusive = entry.prefer .exclusive :=
  entry.prefer_prefer .exclusive .exclusive

namespace Buffer

-- Has other entries than `origin`, in cells that held entries or were free; all other cells are the same.
structure Grown (origin buffer : Buffer) : Prop where
  size : buffer.cells.size = origin.cells.size
  room : buffer.active < buffer.cells.size
  sentinel : buffer.cell 0 = origin.cell 0
  beyond : ∀ pos, buffer.active < pos → buffer.cell pos = origin.cell pos

namespace Grown

variable {origin buffer next : Buffer}

theorem refl (room : origin.active < origin.cells.size) : origin.Grown origin :=
  ⟨rfl, room, rfl, fun _ _ => rfl⟩

theorem capacity (grown : origin.Grown buffer) : buffer.capacity = origin.capacity :=
  congrArg (· - 1) grown.size

theorem set (grown : origin.Grown buffer) (pos : Nat) (entry : Entry) (first : 0 < pos)
    (last : pos ≤ buffer.active) : origin.Grown (buffer.set pos entry) where
  size := by simpa using grown.size
  room := by simpa using grown.room
  sentinel := (cell_set_other _ _ _ _ (by omega)).trans grown.sentinel
  beyond := by
    intro other behind
    have behind : buffer.active < other := behind
    exact (cell_set_other _ _ _ _ (by omega)).trans (grown.beyond other behind)

theorem push (grown : origin.Grown buffer) (entry : Entry) (pushed : buffer.push entry = some next) :
    origin.Grown next := by
  unfold Buffer.push at pushed
  split at pushed
  · rename_i free
    cases pushed
    refine ⟨by simpa using grown.size, ?_, ?_, fun other behind => ?_⟩
    · unfold Buffer.capacity at free
      simp
      omega
    · exact (cell_set_other _ _ _ _ (by omega)).trans grown.sentinel
    · have behind : buffer.active + 1 < other := behind
      exact (cell_set_other _ _ _ _ (by omega)).trans (grown.beyond other (by omega))
  · cases pushed

theorem fill (grown : origin.Grown buffer) (entries : List Entry)
    (size : entries.length = buffer.active) : origin.Grown (buffer.fill entries) where
  size := by simpa [Buffer.fill] using grown.size
  room := by simpa [Buffer.fill, size] using grown.room
  sentinel := (cell_write_before buffer 1 0 entries (by omega)).trans grown.sentinel
  beyond := by
    intro pos behind
    have behind : entries.length < pos := behind
    have room := grown.room
    have same : (buffer.fill entries).cell pos = (buffer.write 1 entries).cell pos := rfl
    rw [same, cell_write _ _ _ _ (by omega), if_neg (by omega), List.getElem?_eq_none (by omega)]
    exact grown.beyond pos (by omega)

theorem eq_fill (grown : origin.Grown buffer) : buffer = origin.fill buffer.entries := by
  have length := length_entries buffer grown.room
  have size := grown.size
  have room := grown.room
  refine ext_cells (by simp [Buffer.fill, size]) length.symm fun pos => ?_
  have same : (origin.fill buffer.entries).cell pos = (origin.write 1 buffer.entries).cell pos := rfl
  rw [same, cell_write _ _ _ _ (by omega)]
  rcases Nat.eq_zero_or_pos pos with rfl | first
  · rw [if_pos Nat.one_pos, grown.sentinel]
  · rw [if_neg (by omega)]
    by_cases inside : pos ≤ buffer.active
    · rw [entry_at buffer room pos first inside]
      rfl
    · rw [List.getElem?_eq_none (by omega)]
      exact grown.beyond pos (by omega)

theorem fill_eq (grown : origin.Grown buffer) (entries : List Entry)
    (size : entries.length = buffer.active) : buffer.fill entries = origin.fill entries := by
  have room := grown.room
  have filled := (grown.fill entries size).eq_fill
  rwa [entries_fill _ _ (by omega)] at filled

end Grown

end Buffer

namespace CurrentList

def mergeInPlace (list : CurrentList) (writes : List WriteAccess) : Except Misuse CurrentList :=
  match mergeFrom list.buffer.active 1 list.buffer false writes with
  | .error _ => .error (.full .currentList)
  | .ok (buffer, interleaved) =>
      .ok { list with
        buffer := if interleaved then buffer.fill (RetroList.sorted buffer.entries) else buffer }

theorem written_cons (write : WriteAccess) (rest : List WriteAccess) :
    written (write :: rest) = write.lock :: written (otherRecords write.id rest) := by
  induction rest generalizing write with
  | nil => rfl
  | cons next rest ih =>
      have head := ih next
      rw [written, head]
      simp only
      by_cases same : next.id = write.id
      · have named : next.lock.id = write.id := same
        rw [if_pos named, same, otherRecords, otherRecords, List.dropWhile_cons,
          if_pos (beq_iff_eq.mpr same)]
      · have named : ¬ next.lock.id = write.id := same
        have apart : ¬ (next.id == write.id) = true := by simpa using same
        rw [if_neg named, ← head, otherRecords, List.dropWhile_cons, if_neg apart]

theorem walk_unwritten (entries : List Entry) : walk entries [] = ⟨entries, [], []⟩ := by
  induction entries with
  | nil => rfl
  | cons entry rest ih => simp [walk, ih, placeholders]

theorem walk_skip (entry : Entry) (rest : List Entry) (lock : LockRef) (locks : List LockRef)
    (less : entry.id < lock.id) :
    walk (entry :: rest) (lock :: locks) =
      let tail := walk rest (lock :: locks)
      ⟨entry :: tail.old, tail.between, tail.after⟩ := by
  have least : decide (lock.id < entry.id) = false :=
    decide_eq_false (UInt64.not_lt.mpr (UInt64.le_of_lt less))
  have apart : ¬ lock.id = entry.id := Ne.symm (UInt64.ne_of_lt less)
  simp [walk, least, apart, placeholders]

theorem walk_raise (entry : Entry) (rest : List Entry) (lock : LockRef) (locks : List LockRef)
    (same : lock.id = entry.id) :
    walk (entry :: rest) (lock :: locks) =
      let tail := walk rest locks
      ⟨entry.prefer .exclusive :: tail.old, tail.between, tail.after⟩ := by
  simp [walk, same, placeholders]

theorem walk_placeholder (entries : List Entry) (lock : LockRef) (locks : List LockRef)
    (ahead : ∀ entry ∈ entries.head?, lock.id < entry.id) :
    let merged := walk entries (lock :: locks)
    let tail := walk entries locks
    merged.old = tail.old ∧
      merged.between ++ merged.after = .fresh lock .exclusive :: (tail.between ++ tail.after) ∧
      merged.between.isEmpty = (tail.between.isEmpty && entries.isEmpty) := by
  cases entries with
  | nil => exact ⟨rfl, rfl, rfl⟩
  | cons entry rest =>
      have below : decide (lock.id < entry.id) = true := decide_eq_true (ahead entry rfl)
      simp only [walk, List.takeWhile_cons, List.dropWhile_cons, below, if_true]
      cases locks.dropWhile fun lock => decide (lock.id < entry.id) with
      | nil => simp [placeholders]
      | cons next more =>
          simp only
          split <;> simp [placeholders]

theorem walk_raise_each (entry : Entry) (rest : List Entry) (write : WriteAccess)
    (writes : List WriteAccess) (same : write.id = entry.id)
    (least : ∀ next ∈ writes, write.id ≤ next.id) :
    walk (entry :: rest) (written (write :: writes)) =
      walk (entry.prefer .exclusive :: rest) (written writes) := by
  rw [written_cons, walk_raise entry rest _ _ same]
  cases writes with
  | nil =>
      simp [written, otherRecords, walk_unwritten]
  | cons next writes =>
      by_cases again : next.id = write.id
      · have skipped : otherRecords write.id (next :: writes) = otherRecords next.id writes := by
          rw [otherRecords, List.dropWhile_cons, if_pos (beq_iff_eq.mpr again), again]
          rfl
        have here : next.lock.id = (entry.prefer .exclusive).id := again.trans same
        rw [skipped, written_cons, walk_raise _ rest _ _ here, Entry.prefer_exclusive_again]
      · have kept : otherRecords write.id (next :: writes) = next :: writes := by
          rw [otherRecords, List.dropWhile_cons, if_neg (by simpa using again)]
        have less : (entry.prefer .exclusive).id < next.lock.id := by
          rw [Entry.id_prefer, ← same]
          exact UInt64.lt_of_le_of_ne (least next (by simp)) (Ne.symm again)
        rw [kept, written_cons, walk_skip _ rest _ _ less]

-- The old entries that the first cursor has passed, those that are left, and the placeholders.
structure Parted (origin buffer : Buffer) (last pos : Nat) (done rest added : List Entry) : Prop where
  grown : origin.Grown buffer
  view : buffer.entries = done ++ rest ++ added
  place : pos = done.length + 1
  whole : last = done.length + rest.length

namespace Parted

variable {origin buffer next : Buffer} {last pos : Nat} {done rest added : List Entry}

theorem under (parted : Parted origin buffer last pos done rest added) (inside : pos ≤ last) :
    ∃ later, rest = buffer.cell pos :: later := by
  obtain ⟨grown, view, place, whole⟩ := parted
  cases rest with
  | nil =>
      simp only [List.length_nil] at whole
      omega
  | cons entry later =>
      have size := Buffer.length_entries buffer grown.room
      have here := Buffer.getElem_entries buffer grown.room done.length
      rw [view] at size here
      simp only [List.length_append, List.length_cons] at size
      rw [if_pos (by omega), ← place] at here
      have first : (done ++ entry :: later ++ added)[done.length]? = some entry := by simp
      rw [first] at here
      exact ⟨later, by rw [← Option.some.inj here]⟩

theorem ahead (parted : Parted origin buffer last pos done rest added) {write : WriteAccess}
    (notSmaller : ¬ (pos ≤ last ∧ (buffer.cell pos).id < write.id))
    (notHere : ¬ (pos ≤ last ∧ (buffer.cell pos).id = write.id)) :
    (∀ entry ∈ rest.head?, write.id < entry.id) ∧ decide (pos ≤ last) = !rest.isEmpty := by
  by_cases inside : pos ≤ last
  · obtain ⟨later, rfl⟩ := parted.under inside
    refine ⟨fun entry first => ?_, by simp [inside]⟩
    obtain rfl := Option.some.inj first
    have least := UInt64.not_lt.mp fun less => notSmaller ⟨inside, less⟩
    exact UInt64.lt_of_le_of_ne least fun same => notHere ⟨inside, same.symm⟩
  · have place := parted.place
    have whole := parted.whole
    have none : rest = [] := List.length_eq_zero_iff.mp (by omega)
    simp [none, inside]

theorem skip {entry : Entry} {later : List Entry}
    (parted : Parted origin buffer last pos done (entry :: later) added) :
    Parted origin buffer last (pos + 1) (done ++ [entry]) later added where
  grown := parted.grown
  view := by simp [parted.view]
  place := by simp [parted.place]
  whole := by
    rw [parted.whole]
    simp only [List.length_append, List.length_cons, List.length_nil]
    omega

theorem raise {entry : Entry} {later : List Entry} (mode : Mode)
    (parted : Parted origin buffer last pos done (entry :: later) added) :
    Parted origin (buffer.set pos (entry.prefer mode)) last pos done (entry.prefer mode :: later)
      added where
  grown := by
    have size := Buffer.length_entries buffer parted.grown.room
    simp only [parted.view, List.length_append, List.length_cons] at size
    have place := parted.place
    exact parted.grown.set pos _ (by omega) (by omega)
  view := by
    have place := parted.place
    rw [Buffer.entries_set _ _ _ (by omega), parted.view, place]
    simp
  place := parted.place
  whole := parted.whole

theorem push {entry : Entry} (parted : Parted origin buffer last pos done rest added)
    (pushed : buffer.push entry = some next) :
    Parted origin next last pos done rest (added ++ [entry]) where
  grown := parted.grown.push entry pushed
  view := by rw [Buffer.entries_push _ _ _ pushed, parted.view, List.append_assoc]
  place := parted.place
  whole := parted.whole

end Parted

-- Along the cursors, by what the walk makes of the old entries and the writes that are left: each of
-- their steps is one of the walk, or one more write of the same record.
theorem merge_from_walks {origin : Buffer} (last pos : Nat) (buffer : Buffer) (interleaved : Bool)
    (writes : List WriteAccess) (done rest added : List Entry)
    (parted : Parted origin buffer last pos done rest added)
    (ordered : writes.Pairwise fun a b => a.id ≤ b.id) :
    let merged := walk rest (written writes)
    (∃ next, mergeFrom last pos buffer interleaved writes =
        .ok (next, interleaved || !merged.between.isEmpty) ∧ origin.Grown next ∧
      next.entries = done ++ merged.old ++ added ++ (merged.between ++ merged.after)) ∨
    ((∃ stop, mergeFrom last pos buffer interleaved writes = .error stop) ∧
      origin.capacity < buffer.active + (merged.between ++ merged.after).length) := by
  fun_induction mergeFrom last pos buffer interleaved writes generalizing done rest added with
  | case1 pos buffer interleaved =>
      refine Or.inl ⟨buffer, ?_, parted.grown, ?_⟩
      · simp [written, walk_unwritten]
      · simp [written, walk_unwritten, parted.view]
  | case2 pos buffer interleaved write writes smaller ih =>
      obtain ⟨later, rfl⟩ := parted.under smaller.1
      have next := ih _ later added parted.skip ordered
      rw [written_cons] at next ⊢
      rw [walk_skip _ later _ _ smaller.2]
      simpa using next
  | case3 pos buffer interleaved write writes _ here ih =>
      obtain ⟨later, split⟩ := parted.under here.1
      obtain ⟨least, remain⟩ := List.pairwise_cons.mp ordered
      rw [split] at parted ⊢
      rw [walk_raise_each _ later write writes here.2.symm least]
      exact ih done _ added (parted.raise .exclusive) remain
  | case4 pos buffer interleaved write writes notSmaller notHere next pushed ih =>
      obtain ⟨ahead, within⟩ := parted.ahead notSmaller notHere
      have remain := (List.pairwise_cons.mp ordered).2.sublist
        (List.dropWhile_sublist fun other => other.id == write.id)
      obtain ⟨old, behind, empty⟩ :=
        walk_placeholder rest write.lock (written (otherRecords write.id writes)) ahead
      have count := Buffer.active_push _ pushed
      rw [written_cons]
      simp only [old, behind, empty]
      rcases ih done rest _ (parted.push pushed) remain with
        ⟨last, merged, grown, entries⟩ | ⟨refused, full⟩
      · refine Or.inl ⟨last, ?_, grown, by simpa using entries⟩
        rw [merged, within]
        cases interleaved <;> simp [Bool.or_comm]
      · refine Or.inr ⟨refused, ?_⟩
        rw [List.length_cons]
        omega
  | case5 pos buffer interleaved write writes notSmaller notHere full =>
      obtain ⟨ahead, _⟩ := parted.ahead notSmaller notHere
      obtain ⟨_, behind, _⟩ :=
        walk_placeholder rest write.lock (written (otherRecords write.id writes)) ahead
      have past := (Buffer.push_eq_none_iff _ _).mp full
      rw [parted.grown.capacity] at past
      refine Or.inr ⟨⟨_, rfl⟩, ?_⟩
      rw [written_cons]
      simp only [behind, List.length_cons]
      omega

theorem merge_from_stops {origin stop : Buffer} (holds : List Entry → Prop)
    (raises : ∀ done entry later, holds (done ++ entry :: later) →
      holds (done ++ entry.prefer .exclusive :: later))
    (last pos : Nat) (buffer : Buffer) (interleaved : Bool) (writes : List WriteAccess)
    (done rest added : List Entry) (parted : Parted origin buffer last pos done rest added)
    (old : holds (done ++ rest))
    (stopped : mergeFrom last pos buffer interleaved writes = .error stop) :
    origin.Grown stop ∧ ∃ old added, stop.entries = old ++ added ∧ old.length = last ∧ holds old := by
  fun_induction mergeFrom last pos buffer interleaved writes generalizing done rest added with
  | case1 pos buffer interleaved => cases stopped
  | case2 pos buffer interleaved write writes smaller ih =>
      obtain ⟨later, rfl⟩ := parted.under smaller.1
      exact ih _ later added parted.skip (by simpa using old) stopped
  | case3 pos buffer interleaved write writes _ here ih =>
      obtain ⟨later, split⟩ := parted.under here.1
      rw [split] at parted old
      exact ih done _ added (parted.raise .exclusive) (raises done _ later old) stopped
  | case4 pos buffer interleaved write writes notSmaller notHere next pushed ih =>
      exact ih done rest _ (parted.push pushed) old stopped
  | case5 pos buffer interleaved write writes notSmaller notHere full =>
      cases stopped
      exact ⟨parted.grown, done ++ rest, added, parted.view, by simp [parted.whole], old⟩

theorem parted_start (list : CurrentList) (room : list.buffer.active < list.buffer.cells.size) :
    Parted list.buffer list.buffer list.buffer.active 1 [] list.entries [] :=
  ⟨.refl room, by simp [entries], rfl, by simp [entries, Buffer.length_entries list.buffer room]⟩

theorem cut_short_keeps {ids : List UInt64} {list : CurrentList} (sound : list.Sound ids)
    (writes : List WriteAccess) (store : Store) :
    Keeps ids list store (list.cutShort writes) store := by
  rw [cutShort]
  cases stopped : mergeFrom list.buffer.active 1 list.buffer false writes with
  | ok _ => exact keeps_refl sound
  | error stop =>
      let holds := fun old : List Entry => old.map Entry.id = list.entries.map Entry.id ∧
        (∀ entry ∈ old, entry.Sound ids) ∧
        ∀ slot kind, Entry.tally old slot kind = Entry.tally list.entries slot kind
      have raises : ∀ done entry later, holds (done ++ entry :: later) →
          holds (done ++ entry.prefer .exclusive :: later) := by
        rintro done entry later ⟨same, all, held⟩
        refine ⟨by simpa using same, fun other listed => ?_, fun slot kind => ?_⟩
        · rcases List.mem_append.mp listed with before | after
          · exact all other (List.mem_append_left _ before)
          · rcases List.mem_cons.mp after with rfl | behind
            · exact Entry.sound_prefer ids entry .exclusive (all entry (by simp))
            · exact all other (by simp [behind])
        · rw [← held, Entry.tally_append, Entry.tally_append, Entry.tally_cons, Entry.tally_cons,
            Entry.owns_prefer]
      obtain ⟨grown, old, added, view, length, same, all, held⟩ := merge_from_stops holds raises
        _ _ _ _ _ _ _ _ (parted_start list sound.buffer.room) ⟨rfl, sound.entries, fun _ _ => rfl⟩ stopped
      have room : list.buffer.active < stop.cells.size := grown.size ▸ sound.buffer.room
      let after : CurrentList := { list with buffer := { stop with active := list.buffer.active } }
      have entries : after.entries = old := by
        change Buffer.entries { stop with active := list.buffer.active } = old
        rw [Buffer.entries_shorten stop list.buffer.active, view, ← length, List.take_left]
        rw [← Buffer.length_entries stop grown.room, view, List.length_append, length]
        exact Nat.le_add_right ..
      have ascending : Entry.Ascending old := by
        rw [Entry.Ascending, ← List.pairwise_map, same]
        exact List.pairwise_map.mpr sound.buffer.ascending
      change Keeps ids list store after store
      refine keeps_of_tally ⟨⟨room, grown.sentinel.trans sound.buffer.sentinel, ?_⟩, ?_⟩ grown.size ?_
      · change Entry.Ascending after.entries
        rwa [entries]
      · rwa [entries]
      · rwa [entries]

theorem merge_in_place_eq (list : CurrentList) (sound : list.buffer.Sound) (writes : List WriteAccess)
    (ordered : writes.Pairwise fun a b => a.id ≤ b.id) :
    list.mergeInPlace writes = list.mergeWrites writes := by
  have size := Buffer.length_entries list.buffer sound.room
  have steps := merge_from_walks list.buffer.active 1 list.buffer false writes [] list.entries []
    (parted_start list sound.room) ordered
  have walked := walk_walked list.entries (written writes) sound.ascending
    (written_ascend writes ordered).1
  unfold mergeInPlace mergeWrites
  simp only at steps
  generalize walk list.entries (written writes) = merged at steps walked ⊢
  have olds : merged.old.length = list.buffer.active := by simp [walked.old, entries, size]
  simp only [Merged.length_entries]
  rcases steps with ⟨next, done, grown, view⟩ | ⟨⟨stop, refused⟩, full⟩
  · have all : next.entries = merged.old ++ merged.between ++ merged.after := by simpa using view
    have length := Buffer.length_entries next grown.room
    have room := grown.room
    have same := grown.size
    rw [done, ← all, if_neg (by unfold Buffer.capacity; omega), Merged.entries, ← all]
    simp only [Bool.false_or]
    cases merged.between.isEmpty with
    | true =>
        simp only [Bool.not_true, Bool.false_eq_true, if_false, if_true]
        exact congrArg (fun buffer => Except.ok { list with buffer }) grown.eq_fill
    | false =>
        simp only [Bool.not_false, Bool.false_eq_true, if_false, if_true]
        have sorted := (RetroList.sorted_perm next.entries).length_eq.trans length
        exact congrArg (fun buffer => Except.ok { list with buffer }) (grown.fill_eq _ sorted)
  · rw [refused, if_pos]
    simp only [List.length_append] at full ⊢
    omega

end CurrentList

end LockOrder
