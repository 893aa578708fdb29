import LockOrder.Proofs.CurrentList.Cursors

set_option autoImplicit false

namespace LockOrder

namespace Entry

theorem ascending_request_all (requests : List (LockRef × Mode)) (entries : List Entry)
    (ascending : Ascending entries) : Ascending (requestAll entries requests) := by
  induction requests generalizing entries with
  | nil => exact ascending
  | cons request rest ih => exact ih _ (ascending_request _ _ _ ascending)

theorem request_unlisted_perm (lock : LockRef) (mode : Mode) (entries : List Entry)
    (unlisted : ∀ entry ∈ entries, entry.id ≠ lock.id) :
    (request lock mode entries).Perm (.fresh lock mode :: entries) := by
  induction entries with
  | nil => exact .refl _
  | cons first rest ih =>
      rw [request]
      split
      · exact ((ih fun entry listed => unlisted entry (by simp [listed])).cons first).trans (.swap _ _ _)
      · rw [if_neg (unlisted first (by simp))]

end Entry

namespace CurrentList

open Entry (request requestAll preferAt)

def wholeLocks (locks : List LockRef) : List (LockRef × Mode) := locks.map fun lock => (lock, .exclusive)

def writeRequests (writes : List WriteAccess) : List (LockRef × Mode) :=
  wholeLocks (writes.map WriteAccess.lock)

theorem request_all_written (writes : List WriteAccess) (entries : List Entry) :
    requestAll entries (writeRequests writes) = requestAll entries (wholeLocks (written writes)) := by
  induction writes generalizing entries with
  | nil => rfl
  | cons write rest ih =>
      have first : requestAll entries (writeRequests (write :: rest)) =
          requestAll (request write.lock .exclusive entries) (writeRequests rest) := rfl
      rw [first, ih, written]
      cases written rest with
      | nil => rfl
      | cons next more =>
          simp only
          split
          · rename_i same
            have again : requestAll (request write.lock .exclusive entries) (wholeLocks (next :: more)) =
                requestAll (request next .exclusive (request write.lock .exclusive entries))
                  (wholeLocks more) := rfl
            rw [again, Entry.request_again write.lock next same]
            rfl
          · rfl

theorem raised_cons (lock : LockRef) (locks : List LockRef) (entry : Entry) :
    raised (lock :: locks) entry = raised locks (entry.preferAt lock.id .exclusive) := by
  by_cases here : entry.id = lock.id
  · have first : raised (lock :: locks) entry = entry.prefer .exclusive := by simp [raised, here]
    rw [first, preferAt, if_pos here, raised]
    split
    · exact (Entry.prefer_exclusive_again entry).symm
    · rfl
  · have apart : (lock.id == entry.id) = false := beq_eq_false_iff_ne.mpr (Ne.symm here)
    rw [preferAt, if_neg here]
    simp [raised, apart]

theorem missing_congr {entries other : List Entry} (locks : List LockRef)
    (same : ∀ lock ∈ locks, isListed entries lock = isListed other lock) :
    missing entries locks = missing other locks :=
  List.filter_congr fun lock member => by rw [same lock member]

theorem request_all_merged (locks : List LockRef) (entries : List Entry)
    (ascending : Entry.Ascending entries) (ordered : LocksAscend locks) :
    (requestAll entries (wholeLocks locks)).Perm
      (entries.map (raised locks) ++ placeholders (missing entries locks)) := by
  induction locks generalizing entries with
  | nil =>
      have all : entries.map (raised []) = entries :=
        (List.map_congr_left fun entry _ => raised_none [] entry (by simp)).trans (List.map_id _)
      rw [all]
      simp [wholeLocks, requestAll, missing, placeholders]
  | cons lock rest ih =>
      obtain ⟨above, remain⟩ := List.pairwise_cons.mp ordered
      have later := ih (request lock .exclusive entries) (Entry.ascending_request _ _ _ ascending) remain
      change (requestAll (request lock .exclusive entries) (wholeLocks rest)).Perm _
      refine later.trans ?_
      have old : entries.map (raised (lock :: rest)) =
          (entries.map (preferAt lock.id .exclusive)).map (raised rest) := by
        rw [List.map_map]
        exact List.map_congr_left fun entry _ => raised_cons lock rest entry
      cases listed : isListed entries lock with
      | true =>
          have found : ∃ entry ∈ entries, entry.id = lock.id := by simpa [isListed] using listed
          have kept : missing (entries.map (preferAt lock.id .exclusive)) rest = missing entries rest :=
            missing_congr rest fun next _ => by simp [isListed, List.any_map, Function.comp_def]
          have absent : missing entries (lock :: rest) = missing entries rest := by
            simp [missing, listed]
          rw [Entry.request_listed lock .exclusive entries ascending found, old, kept, absent]
      | false =>
          have unlisted : ∀ entry ∈ entries, entry.id ≠ lock.id := by simpa [isListed] using listed
          have perm := Entry.request_unlisted_perm lock .exclusive entries unlisted
          have same : entries.map (preferAt lock.id .exclusive) = entries :=
            (List.map_congr_left fun entry member => if_neg (unlisted entry member)).trans (List.map_id _)
          have kept : missing (request lock .exclusive entries) rest = missing entries rest := by
            refine missing_congr rest fun next member => ?_
            have apart : (lock.id == next.id) = false :=
              beq_eq_false_iff_ne.mpr (UInt64.ne_of_lt (above next member))
            rw [isListed, perm.any_eq, List.any_cons, Entry.id_fresh, apart]
            rfl
          have placed : raised rest (.fresh lock .exclusive) = .fresh lock .exclusive :=
            raised_none _ _ fun next member => Ne.symm (UInt64.ne_of_lt (above next member))
          have added : missing entries (lock :: rest) = lock :: missing entries rest := by
            simp [missing, listed]
          rw [old, same, kept, added]
          have first := (perm.map (raised rest)).append_right (placeholders (missing entries rest))
          rw [List.map_cons, placed] at first
          exact first.trans List.perm_middle.symm

theorem request_all_writes (writes : List WriteAccess) (entries : List Entry)
    (ascending : Entry.Ascending entries) (ordered : writes.Pairwise fun a b => a.id ≤ b.id) :
    requestAll entries (writeRequests writes) = (walk entries (written writes)).entries := by
  obtain ⟨locks, _⟩ := written_ascend writes ordered
  obtain ⟨perm, sorted⟩ := merged_entries entries (written writes) ascending locks
  have requested := request_all_merged (written writes) entries ascending locks
  rw [request_all_written]
  exact Entry.eq_of_perm_of_ascending (requested.trans perm.symm)
    (Entry.ascending_request_all _ _ ascending) sorted

theorem merge_is_one_request_at_a_time (list : CurrentList) (sound : list.buffer.Sound)
    (writes : List WriteAccess) (ordered : writes.Pairwise WriteAccess.before) :
    -- Two cursors do the merge in place.
    list.mergeInPlace writes = list.mergeWrites writes ∧
    ((list.mergeWrites writes = .error (.full .currentList) ∧
        list.addAll (writeRequests writes) = .error (.full .currentList)) ∨
      ∃ merged after, list.mergeWrites writes = .ok merged ∧
        list.addAll (writeRequests writes) = .ok after ∧ merged.entries = after.entries ∧
        merged.buffer.active = after.buffer.active ∧ merged = { after with buffer := merged.buffer }) := by
  have ids : writes.Pairwise fun a b => a.id ≤ b.id := ordered.imp WriteAccess.id_le_of_before
  have same := request_all_writes writes list.entries sound.ascending ids
  refine ⟨merge_in_place_eq list sound writes ids, ?_⟩
  unfold mergeWrites
  rw [← same]
  simp only
  rcases add_all_cases sound (writeRequests writes) with
    ⟨after, added, view, sorted, room, rest⟩ | ⟨refused, full⟩
  · have inside := sorted.room
    have count := Buffer.length_entries after.buffer inside
    rw [← entries, view] at count
    unfold Buffer.capacity at room ⊢
    rw [if_neg (by omega)]
    have fits : (requestAll list.entries (writeRequests writes)).length < list.buffer.cells.size := by
      have some := sound.room
      omega
    refine Or.inr ⟨_, after, rfl, added, ?_, count, ?_⟩
    · rw [view]
      exact Buffer.entries_fill _ _ fits
    · rw [rest]
  · exact Or.inl ⟨if_pos full, refused⟩

def halfFull : CurrentList where
  buffer :=
    { cells := #[.sentinel, ⟨some ⟨1, 3⟩, .shared, .exclusive, some .writer⟩,
        ⟨some ⟨3, 6⟩, .shared, .shared, some .reader⟩, .sentinel, .sentinel]
      active := 2 }
  spins := 0

theorem half_full_sound : halfFull.buffer.Sound :=
  ⟨by decide, rfl, by unfold Entry.Ascending; decide⟩

-- Two writes of a record before the entries, two of a listed record, and one behind the entries.
def scatteredWrites : List WriteAccess :=
  [⟨⟨0, 2⟩, 1, 7⟩, ⟨⟨0, 2⟩, 3, 8⟩, ⟨⟨1, 3⟩, 0, 5⟩, ⟨⟨1, 3⟩, 4, 6⟩, ⟨⟨4, 8⟩, 2, 9⟩]

theorem half_full_is_filled :
    (∃ merged after, halfFull.mergeWrites scatteredWrites = .ok merged ∧
      halfFull.addAll (writeRequests scatteredWrites) = .ok after ∧ merged.entries = after.entries) ∧
    halfFull.mergeWrites (scatteredWrites ++ [⟨⟨5, 9⟩, 5, 0⟩]) = .error (.full .currentList) ∧
    halfFull.addAll (writeRequests (scatteredWrites ++ [⟨⟨5, 9⟩, 5, 0⟩])) =
      .error (.full .currentList) := by
  have fits := (merge_is_one_request_at_a_time halfFull half_full_sound scatteredWrites (by decide)).2
  have overflows := (merge_is_one_request_at_a_time halfFull half_full_sound
    (scatteredWrites ++ [⟨⟨5, 9⟩, 5, 0⟩]) (by decide)).2
  have some : (halfFull.addAll (writeRequests scatteredWrites)).toOption.isSome = true := by
    decide +kernel
  have none : (halfFull.addAll (writeRequests (scatteredWrites ++ [⟨⟨5, 9⟩, 5, 0⟩]))).toOption.isSome =
      false := by
    decide +kernel
  refine ⟨?_, ?_⟩
  · rcases fits with ⟨_, full⟩ | ⟨merged, after, ok, added, same, _⟩
    · rw [full] at some
      cases some
    · exact ⟨merged, after, ok, added, same⟩
  · rcases overflows with full | ⟨_, _, _, added, _⟩
    · exact full
    · rw [added] at none
      cases none

end CurrentList

end LockOrder
