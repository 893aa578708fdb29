import LockOrder.Proofs.Buffer.Alike
import LockOrder.Proofs.Buffer.Find

set_option autoImplicit false

namespace LockOrder

namespace Buffer

-- Tells how many entries pass a test, if the test holds up to some entry and fails from there on. For
-- any other entries its answer may be anything.
structure Partitions (partition : (Entry → Bool) → List Entry → Nat) : Prop where
  length : ∀ (test : Entry → Bool) (passed failed : List Entry), (∀ entry ∈ passed, test entry = true) →
    (∀ entry ∈ failed, test entry = false) → partition test (passed ++ failed) = passed.length

theorem partitions_count : Partitions fun test entries => entries.countP test where
  length test passed failed all none := by
    have front := List.countP_eq_length.mpr all
    have back : failed.countP test = 0 :=
      List.countP_eq_zero.mpr fun entry listed => by simp [none entry listed]
    rw [List.countP_append, front, back, Nat.add_zero]

theorem partitions_scan : Partitions fun test entries => (entries.takeWhile test).length where
  length test passed failed all none := by
    have stops : failed.takeWhile test = [] := by
      cases failed with
      | nil => rfl
      | cons entry rest => exact List.takeWhile_cons_of_neg (by simp [none entry (by simp)])
    rw [List.takeWhile_append_of_pos all, stops, List.append_nil]

variable {buffer : Buffer} {id above : UInt64} {pos : Nat}
  {partition : (Entry → Bool) → List Entry → Nat}

theorem Cuts.partition_at (cuts : buffer.Cuts id pos) (room : buffer.active < buffer.cells.size)
    (partitions : Partitions partition) :
    partition (fun entry => decide (entry.id < id)) buffer.entries + 1 = pos := by
  have front := partitions.length (fun entry => decide (entry.id < id))
    (buffer.entries.take (pos - 1)) (buffer.entries.drop (pos - 1))
    (fun entry listed => decide_eq_true (cuts.take_below room entry listed))
    (fun entry listed => decide_eq_false (UInt64.not_lt.mpr (cuts.drop_not_below room entry listed)))
  rw [List.take_append_drop, List.length_take, length_entries buffer room] at front
  have first := cuts.first
  have last := cuts.last
  omega

theorem Cuts.count_below (cuts : buffer.Cuts id pos) (room : buffer.active < buffer.cells.size) :
    pos = buffer.entries.countP (fun entry => decide (entry.id < id)) + 1 :=
  (cuts.partition_at room partitions_count).symm

theorem lower_bound_mono (sound : buffer.Sound) (order : id ≤ above) :
    buffer.lowerBound id ≤ buffer.lowerBound above := by
  rw [(lower_bound_cuts buffer sound id).count_below sound.room,
    (lower_bound_cuts buffer sound above).count_below sound.room]
  refine Nat.succ_le_succ (List.countP_mono_left fun entry _ below => ?_)
  exact decide_eq_true (UInt64.lt_of_lt_of_le (of_decide_eq_true below) order)

theorem find_eq_none_iff (sound : buffer.Sound) :
    buffer.find id = none ↔ ∀ entry ∈ buffer.entries, entry.id ≠ id := by
  rw [← Option.not_isSome_iff_eq_none, find_is_some_iff sound]
  simp only [not_exists, not_and, ne_eq]

def separates (buffer : Buffer) (id : UInt64) (pos : UInt32) : Bool :=
  decide (pos ≤ UInt32.ofNat buffer.active) && decide (id ≤ (buffer.cell pos.toNat).id) &&
    (pos == 1 || decide ((buffer.cell (pos.toNat - 1)).id < id))

-- The search with positions in words, and with any way to partition the entries. There is no answer if
-- it looks outside of the cells, if a position has no room in a word, or if an assertion fails.
def lowerBoundInWords (partition : (Entry → Bool) → List Entry → Nat) (buffer : Buffer)
    (id : UInt64) : Option UInt32 :=
  let last := UInt32.ofNat buffer.active
  if last = 0 then some 1
  else
    match buffer.cells[last.toNat]? with
    | none => none
    | some entry =>
        if entry.id = id then some last
        else if entry.id < id then
          if last = 0xffffffff then none else some (last + 1)
        else
          let offset := partition (fun entry => decide (entry.id < id)) buffer.entries
          let pos := UInt32.ofNat (min (offset + 1) 0xffffffff)
          if buffer.separates id pos then some pos else none

def findInWords (partition : (Entry → Bool) → List Entry → Nat) (buffer : Buffer) (id : UInt64) :
    Option (Option UInt32) :=
  match buffer.lowerBoundInWords partition id with
  | none => none
  | some pos =>
      if pos ≤ UInt32.ofNat buffer.active then
        match buffer.cells[pos.toNat]? with
        | none => none
        | some entry => some (if entry.id = id then some pos else none)
      else some none

theorem word_of_position (small : buffer.active + 1 < UInt32.size) (last : pos ≤ buffer.active + 1) :
    (UInt32.ofNat pos).toNat = pos :=
  UInt32.toNat_ofNat_of_lt' (Nat.lt_of_le_of_lt last small)

theorem Cuts.separates (cuts : buffer.Cuts id pos) (small : buffer.active + 1 < UInt32.size)
    (inside : pos ≤ buffer.active) : buffer.separates id (UInt32.ofNat pos) = true := by
  have place := word_of_position small cuts.last
  have last := word_of_position small (Nat.le_succ buffer.active)
  have least := cuts.rest pos (Nat.le_refl _) inside
  have within : UInt32.ofNat pos ≤ UInt32.ofNat buffer.active := by
    rw [UInt32.le_iff_toNat_le, place, last]
    exact inside
  rw [Buffer.separates, place, decide_eq_true within, decide_eq_true least, Bool.true_and, Bool.true_and]
  by_cases first : pos = 1
  · rw [first]
    rfl
  · have positive := cuts.first
    have before := cuts.below (pos - 1) (by omega) (by omega)
    rw [decide_eq_true before, Bool.or_true]

theorem lower_bound_in_words (sound : buffer.Sound) (small : buffer.active + 1 < UInt32.size)
    (partitions : Partitions partition) (id : UInt64) :
    buffer.lowerBoundInWords partition id = some (UInt32.ofNat (buffer.lowerBound id)) := by
  have last := word_of_position small (Nat.le_succ buffer.active)
  rw [lowerBoundInWords]
  by_cases empty : buffer.active = 0
  · rw [lowerBound, if_pos empty, empty]
    rfl
  · have nonzero : UInt32.ofNat buffer.active ≠ 0 := fun zero => by
      rw [zero] at last
      exact empty last.symm
    have read : buffer.cells[(UInt32.ofNat buffer.active).toNat]? =
        some (buffer.cell buffer.active) := by
      rw [last, get_cell, if_pos sound.room]
    simp only [if_neg nonzero, read]
    by_cases same : (buffer.cell buffer.active).id = id
    · rw [if_pos same, lowerBound, if_neg empty]
      simp only [if_pos same]
    · rw [if_neg same]
      by_cases below : (buffer.cell buffer.active).id < id
      · have fits : UInt32.ofNat buffer.active ≠ 0xffffffff := fun full => by
          rw [full] at last
          have most : buffer.active = 4294967295 := last.symm
          rw [most] at small
          exact absurd small (by decide)
        rw [if_pos below, if_neg fits, lowerBound, if_neg empty]
        simp only [if_neg same, if_pos below, UInt32.ofNat_add]
        rfl
      · -- The last entry is not below, so the partition leaves some entry behind it.
        have cuts := lower_bound_cuts buffer sound id
        have inside : buffer.lowerBound id ≤ buffer.active := Nat.le_of_not_lt fun beyond =>
          below (cuts.below buffer.active (Nat.pos_of_ne_zero empty) beyond)
        have room : min (buffer.lowerBound id) 0xffffffff = buffer.lowerBound id :=
          Nat.min_eq_left (by rw [UInt32.size] at small; omega)
        rw [if_neg below, cuts.partition_at sound.room partitions, room]
        exact if_pos (cuts.separates small inside)

theorem find_in_words (sound : buffer.Sound) (small : buffer.active + 1 < UInt32.size)
    (partitions : Partitions partition) (id : UInt64) :
    buffer.findInWords partition id = some ((buffer.find id).map UInt32.ofNat) := by
  have cuts := lower_bound_cuts buffer sound id
  have place := word_of_position small cuts.last
  have last := word_of_position small (Nat.le_succ buffer.active)
  rw [findInWords, lower_bound_in_words sound small partitions, find]
  simp only [UInt32.le_iff_toNat_le, place, last]
  by_cases inside : buffer.lowerBound id ≤ buffer.active
  · have room := sound.room
    rw [if_pos inside, get_cell, if_pos (by omega)]
    by_cases here : (buffer.cell (buffer.lowerBound id)).id = id
    · rw [if_pos ⟨inside, here⟩]
      simp only [if_pos here]
      rfl
    · rw [if_neg fun both => here both.2]
      simp only [if_neg here]
      rfl
  · rw [if_neg inside, if_neg fun both => inside both.1]
    rfl

theorem search_is_a_linear_scan (buffer : Buffer) (sound : buffer.Sound)
    (small : buffer.capacity < UInt32.size - 1) :
    (∀ id, buffer.lowerBound id = buffer.entries.countP (fun entry => decide (entry.id < id)) + 1 ∧
      buffer.lowerBound id ≤ buffer.active + 1) ∧
    (∀ id above, id ≤ above → buffer.lowerBound id ≤ buffer.lowerBound above) ∧
    (∀ id pos, buffer.find id = some pos ↔
      0 < pos ∧ pos ≤ buffer.active ∧ (buffer.cell pos).id = id) ∧
    (∀ id, buffer.find id = none ↔ ∀ entry ∈ buffer.entries, entry.id ≠ id) ∧
    -- Other cells behind the last entry make no difference.
    (∀ other, buffer.Alike other → ∀ id,
      other.lowerBound id = buffer.lowerBound id ∧ other.find id = buffer.find id) ∧
    -- Words have room for all positions, and nothing that the search relies on fails.
    ∀ partition, Partitions partition → ∀ id,
      (buffer.lowerBoundInWords partition id).map UInt32.toNat = some (buffer.lowerBound id) ∧
        (buffer.findInWords partition id).map (Option.map UInt32.toNat) = some (buffer.find id) := by
  have cuts := lower_bound_cuts buffer sound
  have fits : buffer.active + 1 < UInt32.size := by
    have room := sound.room
    rw [capacity] at small
    omega
  refine ⟨fun id => ⟨(cuts id).count_below sound.room, (cuts id).last⟩,
    fun id above => lower_bound_mono sound, fun id pos => find_eq_some_iff sound,
    fun id => find_eq_none_iff sound,
    fun other alike id => ⟨(alike.lower_bound id).symm, (alike.find id).symm⟩,
    fun partition partitions id => ⟨?_, ?_⟩⟩
  · rw [lower_bound_in_words sound fits partitions, Option.map_some,
      word_of_position fits (cuts id).last]
  · rw [find_in_words sound fits partitions, Option.map_some, Option.map_map]
    refine congrArg some ?_
    cases found : buffer.find id with
    | none => rfl
    | some pos =>
        have inside := (find_inside id pos found).2
        exact congrArg some (word_of_position fits (Nat.le_succ_of_le inside))

-- Three entries, and behind them two that were listed once.
def shrunk : Buffer where
  cells := #[.sentinel, .fresh ⟨0, 3⟩ .shared, ⟨some ⟨1, 7⟩, .exclusive, .shared, some .reader⟩,
    .fresh ⟨2, 18446744073709551614⟩ .exclusive, .fresh ⟨3, 9⟩ .shared, .fresh ⟨0, 3⟩ .exclusive]
  active := 3

theorem shrunk_sound : shrunk.Sound :=
  ⟨by decide, rfl, by unfold Entry.Ascending; decide⟩

theorem shrunk_is_scanned :
    (shrunk.lowerBound 0 = 1 ∧ shrunk.lowerBound 18446744073709551615 = 4 ∧
      shrunk.lowerBound 18446744073709551614 = 3 ∧ shrunk.lowerBound 9 = 3) ∧
    shrunk.find 7 = some 2 ∧ shrunk.find 9 = none ∧
    let scan := fun (test : Entry → Bool) entries => (entries.takeWhile test).length
    (shrunk.lowerBoundInWords scan 9).map UInt32.toNat = some 3 ∧
      (shrunk.findInWords scan 7).map (Option.map UInt32.toNat) = some (some 2) := by
  obtain ⟨counts, _, found, missing, _, words⟩ :=
    search_is_a_linear_scan shrunk shrunk_sound (by decide)
  have between : shrunk.lowerBound 9 = 3 := (counts 9).1.trans (by decide)
  have second : shrunk.find 7 = some 2 := (found 7 2).mpr (by decide)
  refine ⟨⟨(counts 0).1.trans (by decide), (counts _).1.trans (by decide),
    (counts _).1.trans (by decide), between⟩, second, (missing 9).mpr (by decide), ?_, ?_⟩
  · exact (words _ partitions_scan 9).1.trans (congrArg some between)
  · exact (words _ partitions_scan 7).2.trans (congrArg some second)

end Buffer

end LockOrder
