import LockOrder.Ensemble
import LockOrder.Proofs.Buffer.Scan
import LockOrder.Proofs.CurrentList.Request
import LockOrder.Proofs.CurrentList.Sound

set_option autoImplicit false

namespace LockOrder

namespace Mode

theorem max_comm (a b : Mode) : max a b = max b a :=
  rank_injective (by rw [rank_max, rank_max, Nat.max_comm])

theorem max_assoc (a b c : Mode) : max (max a b) c = max a (max b c) :=
  rank_injective (by rw [rank_max, rank_max, rank_max, rank_max, Nat.max_assoc])

theorem max_unlocked (mode : Mode) : max .unlocked mode = mode := by
  cases mode <;> rfl

end Mode

namespace Entry

theorem prefer_prefer (entry : Entry) (first second : Mode) :
    (entry.prefer first).prefer second = entry.prefer (max first second) := by
  simp [prefer, Mode.max_assoc]

theorem prefer_fresh (lock : LockRef) (first second : Mode) :
    (fresh lock first).prefer second = fresh lock (max first second) := rfl

def found (lock : LockRef) (entries : List Entry) : Entry :=
  (entries.find? fun entry => entry.id == lock.id).getD (.fresh lock .unlocked)

def others (lock : LockRef) (entries : List Entry) : List Entry :=
  entries.filter fun entry => entry.id != lock.id

theorem others_request (lock : LockRef) (mode : Mode) (entries : List Entry) :
    others lock (request lock mode entries) = others lock entries := by
  induction entries with
  | nil => simp [request, others]
  | cons first rest ih =>
      rw [request]
      split
      · rw [others, others, List.filter_cons, List.filter_cons, ← others, ← others, ih]
      · split
        · rename_i here
          simp [others, here]
        · simp [others]

theorem find_request (lock : LockRef) (mode : Mode) (entries : List Entry)
    (ascending : Ascending entries) :
    (request lock mode entries).find? (fun entry => entry.id == lock.id) =
      some ((found lock entries).prefer mode) := by
  induction entries with
  | nil => simp [request, found, prefer_fresh, Mode.max_unlocked]
  | cons first rest ih =>
      obtain ⟨above, later⟩ := List.pairwise_cons.mp ascending
      rw [request]
      by_cases smaller : first.id < lock.id
      · have apart : (first.id == lock.id) = false :=
          beq_eq_false_iff_ne.mpr (UInt64.ne_of_lt smaller)
        rw [if_pos smaller, List.find?_cons, apart, ih later, found, found, List.find?_cons, apart]
      · by_cases here : first.id = lock.id
        · simp [here, found]
        · -- All entries are greater, so the lock has none.
          have greater : lock.id < first.id :=
            UInt64.lt_of_le_of_ne (UInt64.not_lt.mp smaller) (Ne.symm here)
          have none : (first :: rest).find? (fun entry => entry.id == lock.id) = none := by
            refine List.find?_eq_none.mpr fun entry listed same => ?_
            rcases List.mem_cons.mp listed with rfl | behind
            · exact here (beq_iff_eq.mp same)
            · have less := UInt64.lt_trans greater (above entry behind)
              exact UInt64.ne_of_lt less (beq_iff_eq.mp same).symm
          rw [if_neg smaller, if_neg here, found, none]
          simp [prefer_fresh, Mode.max_unlocked]

theorem request_again (lock next : LockRef) (same : next.id = lock.id) (first second : Mode)
    (entries : List Entry) :
    request next second (request lock first entries) =
      request lock (max first second) entries := by
  induction entries with
  | nil => simp [request, same, prefer_fresh]
  | cons entry rest ih =>
      by_cases smaller : entry.id < lock.id
      · simp [request, same, smaller, ih]
      · by_cases here : entry.id = lock.id
        · simp [request, same, here, prefer_prefer]
        · simp [request, same, smaller, here, prefer_fresh]

theorem request_comm (a b : LockRef) (known : a.id = b.id → a = b) (first second : Mode)
    (entries : List Entry) :
    request b second (request a first entries) = request a first (request b second entries) := by
  by_cases same : a.id = b.id
  · obtain rfl := known same
    rw [request_again a a rfl, request_again a a rfl, Mode.max_comm]
  · -- Two locks with an entry, a greater one or the end between their places.
    induction entries with
    | nil => grind [request, id_fresh]
    | cons entry rest ih => grind [request, id_fresh, id_prefer]

theorem find_of_mem (id : UInt64) (entries : List Entry) (ascending : Ascending entries) (entry : Entry)
    (listed : entry ∈ entries) (here : entry.id = id) :
    entries.find? (fun entry => entry.id == id) = some entry := by
  induction entries with
  | nil => cases listed
  | cons first rest ih =>
      obtain ⟨above, later⟩ := List.pairwise_cons.mp ascending
      rcases List.mem_cons.mp listed with rfl | behind
      · simp [here]
      · have apart : (first.id == id) = false :=
          beq_eq_false_iff_ne.mpr (here ▸ UInt64.ne_of_lt (above entry behind))
        rw [List.find?_cons, apart]
        exact ih later behind

theorem le_length_request (lock : LockRef) (mode : Mode) (entries : List Entry) :
    entries.length ≤ (request lock mode entries).length := by
  induction entries with
  | nil => exact Nat.zero_le _
  | cons first rest ih =>
      rw [request]
      split
      · simpa using ih
      · split <;> simp

theorem length_request_unlisted (lock : LockRef) (mode : Mode) (entries : List Entry)
    (unlisted : ∀ entry ∈ entries, entry.id ≠ lock.id) :
    (request lock mode entries).length = entries.length + 1 := by
  induction entries with
  | nil => rfl
  | cons first rest ih =>
      rw [request]
      split
      · rw [List.length_cons, ih fun entry listed => unlisted entry (by simp [listed]), List.length_cons]
      · rw [if_neg (unlisted first (by simp))]
        rfl

def requestAll (entries : List Entry) (requests : List (LockRef × Mode)) : List Entry :=
  requests.foldl (fun entries request => Entry.request request.1 request.2 entries) entries

theorem le_length_request_all (requests : List (LockRef × Mode)) (entries : List Entry) :
    entries.length ≤ (requestAll entries requests).length := by
  induction requests generalizing entries with
  | nil => exact Nat.le_refl _
  | cons request rest ih => exact Nat.le_trans (le_length_request _ _ _) (ih _)

theorem request_all_perm (entries : List Entry) (requests other : List (LockRef × Mode))
    (perm : requests.Perm other)
    (known : ∀ a ∈ requests, ∀ b ∈ requests, a.1.id = b.1.id → a.1 = b.1) :
    requestAll entries requests = requestAll entries other :=
  perm.foldl_eq' (fun a first b second entries =>
    request_comm a.1 b.1 (known a first b second) a.2 b.2 entries) entries

-- What is left of an entry when it does not matter which of the locks with its identifier it has.
def unplaced (entry : Entry) : Entry :=
  { entry with lock := entry.lock.map fun lock => ⟨0, lock.id⟩ }

@[simp] theorem id_unplaced (entry : Entry) : entry.unplaced.id = entry.id := by
  obtain ⟨lock, preferred, taken, handle⟩ := entry
  cases lock <;> rfl

theorem unplaced_request (lock : LockRef) (mode : Mode) (entries : List Entry) :
    (request lock mode entries).map unplaced =
      request ⟨0, lock.id⟩ mode (entries.map unplaced) := by
  induction entries with
  | nil => rfl
  | cons first rest ih =>
      simp only [request, List.map_cons, id_unplaced]
      split
      · rw [List.map_cons, ih]
      · split <;> rfl

theorem unplaced_request_all (requests : List (LockRef × Mode)) (entries : List Entry) :
    (requestAll entries requests).map unplaced =
      requestAll (entries.map unplaced)
        (requests.map fun request => (⟨0, request.1.id⟩, request.2)) := by
  induction requests generalizing entries with
  | nil => rfl
  | cons request rest ih =>
      obtain ⟨lock, mode⟩ := request
      have later := ih (Entry.request lock mode entries)
      rw [unplaced_request] at later
      exact later

theorem unplaced_request_all_perm (entries : List Entry) (requests other : List (LockRef × Mode))
    (perm : requests.Perm other) :
    (requestAll entries requests).map unplaced = (requestAll entries other).map unplaced := by
  rw [unplaced_request_all, unplaced_request_all]
  refine request_all_perm _ _ _ (perm.map _) ?_
  intro a first b second same
  obtain ⟨_, _, rfl⟩ := List.mem_map.mp first
  obtain ⟨_, _, rfl⟩ := List.mem_map.mp second
  exact congrArg (LockRef.mk 0) same

end Entry

namespace CurrentList

variable {list after : CurrentList} {lock : LockRef} {mode : Mode} {pos : Nat}

def addAll (list : CurrentList) : List (LockRef × Mode) → Except Misuse CurrentList
  | [] => .ok list
  | (lock, mode) :: rest =>
      match list.getOrAdd lock mode with
      | .ok (_, list) => list.addAll rest
      | .error misuse => .error misuse

theorem get_or_add_rest (added : list.getOrAdd lock mode = .ok (pos, after)) :
    pos = list.buffer.lowerBound lock.id ∧ after = { list with buffer := after.buffer } := by
  unfold getOrAdd at added
  simp only at added
  split at added <;> cases added
  exact ⟨rfl, rfl⟩

theorem get_or_add_sound (sound : list.buffer.Sound)
    (added : list.getOrAdd lock mode = .ok (pos, after)) : after.buffer.Sound := by
  obtain ⟨_, sentinel, room⟩ := get_or_add_frame lock mode pos sound added
  refine ⟨room, sentinel.trans sound.sentinel, ?_⟩
  change Entry.Ascending after.entries
  rw [get_or_add_entries list after lock mode pos sound added]
  exact Entry.ascending_request lock mode list.entries sound.ascending

theorem get_or_add_refuses (sound : list.buffer.Sound) (misuse : Misuse) :
    list.getOrAdd lock mode = .error misuse ↔
      misuse = .full .currentList ∧ list.buffer.active = list.buffer.capacity ∧
        ∀ entry ∈ list.entries, entry.id ≠ lock.id := by
  have bound : list.buffer.active ≤ list.buffer.capacity := Nat.le_sub_one_of_lt sound.room
  constructor
  · intro refused
    have kind : misuse = .full .currentList := by
      unfold getOrAdd at refused
      simp only at refused
      split at refused <;> cases refused
      rfl
    have none : ¬ (list.buffer.active < list.buffer.capacity ∨
        ∃ entry ∈ list.entries, entry.id = lock.id) := by
      intro room
      obtain ⟨_, _, added⟩ := get_or_add_succeeds sound lock mode room
      rw [refused] at added
      cases added
    obtain ⟨full, unlisted⟩ := not_or.mp none
    exact ⟨kind, by omega, fun entry listed here => unlisted ⟨entry, listed, here⟩⟩
  · rintro ⟨rfl, full, unlisted⟩
    cases added : list.getOrAdd lock mode with
    | error misuse =>
        unfold getOrAdd at added
        simp only at added
        split at added <;> cases added
        rfl
    | ok result =>
        -- The new entry would not fit.
        obtain ⟨pos, after⟩ := result
        obtain ⟨size, _, room⟩ := get_or_add_frame lock mode pos sound added
        have more := Entry.length_request_unlisted lock mode list.entries unlisted
        rw [← get_or_add_entries list after lock mode pos sound added, entries, entries,
          Buffer.length_entries _ room, Buffer.length_entries _ sound.room] at more
        unfold Buffer.capacity at full
        omega

structure Inserted (list : CurrentList) (lock : LockRef) (mode : Mode) (pos : Nat)
    (after : CurrentList) : Prop where
  position : pos = list.entries.countP (fun entry => decide (entry.id < lock.id)) + 1
  entry : ∃ entry, after.buffer.entry pos = .ok entry ∧ entry.id = lock.id ∧
    entry = (Entry.found lock list.entries).prefer mode
  others : Entry.others lock after.entries = Entry.others lock list.entries
  sorted : after.buffer.Sound
  rest : after = { list with buffer := after.buffer } ∧
    after.buffer.capacity = list.buffer.capacity

theorem get_or_add_inserted (sound : list.buffer.Sound)
    (added : list.getOrAdd lock mode = .ok (pos, after)) : list.Inserted lock mode pos after := by
  have sorted := get_or_add_sound sound added
  have view := get_or_add_entries list after lock mode pos sound added
  obtain ⟨place, same⟩ := get_or_add_rest added
  obtain ⟨first, last, id, _⟩ := get_or_add_position sound added
  obtain ⟨size, _, _⟩ := get_or_add_frame lock mode pos sound added
  have found : after.buffer.cell pos = (Entry.found lock list.entries).prefer mode := by
    have listed := Buffer.cell_mem_entries after.buffer sorted.room pos first last
    have here := Entry.find_of_mem lock.id after.entries sorted.ascending _ listed id
    rw [view, Entry.find_request lock mode list.entries sound.ascending] at here
    exact (Option.some.inj here).symm
  refine ⟨?_, ⟨_, ?_, id, found⟩, ?_, sorted, same, congrArg (· - 1) size⟩
  · rw [place]
    exact (list.buffer.lower_bound_cuts sound lock.id).count_below sound.room
  · have inside : after.buffer.holds pos = true := by simp [Buffer.holds, first, last]
    rw [Buffer.entry, if_pos inside]
  · rw [view]
    exact Entry.others_request lock mode list.entries

theorem add_all_cases (sound : list.buffer.Sound) (requests : List (LockRef × Mode)) :
    (∃ after, list.addAll requests = .ok after ∧
      after.entries = Entry.requestAll list.entries requests ∧ after.buffer.Sound ∧
      after.buffer.capacity = list.buffer.capacity ∧ after = { list with buffer := after.buffer }) ∨
    list.addAll requests = .error (.full .currentList) ∧
      list.buffer.capacity < (Entry.requestAll list.entries requests).length := by
  induction requests generalizing list with
  | nil => exact Or.inl ⟨list, rfl, rfl, sound, rfl, rfl⟩
  | cons request rest ih =>
      obtain ⟨lock, mode⟩ := request
      have first : Entry.requestAll list.entries ((lock, mode) :: rest) =
          Entry.requestAll (Entry.request lock mode list.entries) rest := rfl
      rw [addAll, first]
      cases added : list.getOrAdd lock mode with
      | error misuse =>
          obtain ⟨rfl, full, unlisted⟩ := (get_or_add_refuses sound misuse).mp added
          have more := Entry.length_request_unlisted lock mode list.entries unlisted
          have least := Entry.le_length_request_all rest (Entry.request lock mode list.entries)
          rw [more, entries, Buffer.length_entries _ sound.room] at least
          exact Or.inr ⟨rfl, Nat.lt_of_lt_of_le (by omega) least⟩
      | ok result =>
          obtain ⟨pos, next⟩ := result
          have inserted := get_or_add_inserted sound added
          rw [← get_or_add_entries list next lock mode pos sound added, ← inserted.rest.2]
          rcases ih inserted.sorted with ⟨after, added, view, sorted, room, same⟩ | refused
          · refine Or.inl ⟨after, added, view, sorted, room, ?_⟩
            rw [same, inserted.rest.1]
          · exact Or.inr refused

theorem add_all_eq_error_iff (sound : list.buffer.Sound) (requests : List (LockRef × Mode)) :
    list.addAll requests = .error (.full .currentList) ↔
      list.buffer.capacity < (Entry.requestAll list.entries requests).length := by
  rcases add_all_cases sound requests with ⟨after, added, view, sorted, room, _⟩ | ⟨refused, full⟩
  · have inside := sorted.room
    have fits := Buffer.length_entries after.buffer inside
    rw [← entries, view] at fits
    unfold Buffer.capacity at room ⊢
    simp only [added, reduceCtorEq, false_iff]
    omega
  · simp [refused, full]

-- The order of requests does not matter. Where two locks share an identifier, the entry has the lock
-- that came first.
theorem add_all_perm (sound : list.buffer.Sound) (requests other : List (LockRef × Mode))
    (perm : requests.Perm other) :
    (list.addAll requests = .error (.full .currentList) ∧
      list.addAll other = .error (.full .currentList)) ∨
    ∃ after last, list.addAll requests = .ok after ∧ list.addAll other = .ok last ∧
      after.entries.map Entry.unplaced = last.entries.map Entry.unplaced ∧
      ((∀ a ∈ requests, ∀ b ∈ requests, a.1.id = b.1.id → a.1 = b.1) →
        after.entries = last.entries) := by
  have alike := Entry.unplaced_request_all_perm list.entries requests other perm
  have size : (Entry.requestAll list.entries requests).length =
      (Entry.requestAll list.entries other).length := by
    simpa using congrArg List.length alike
  have both : list.addAll requests = .error (.full .currentList) ↔
      list.addAll other = .error (.full .currentList) := by
    rw [add_all_eq_error_iff sound, add_all_eq_error_iff sound, size]
  rcases add_all_cases sound requests with ⟨after, added, view, _⟩ | ⟨refused, _⟩
  · rcases add_all_cases sound other with ⟨last, addedToo, viewToo, _⟩ | ⟨refusedToo, _⟩
    · refine Or.inr ⟨after, last, added, addedToo, by rw [view, viewToo, alike], fun known => ?_⟩
      rw [view, viewToo, Entry.request_all_perm list.entries requests other perm known]
    · rw [both.mpr refusedToo] at added
      cases added
  · exact Or.inl ⟨refused, both.mp refused⟩

theorem requests_fill_a_sorted_map (list : CurrentList) (sound : list.buffer.Sound) :
    (∀ lock mode misuse, list.getOrAdd lock mode = .error misuse ↔
      misuse = .full .currentList ∧ list.buffer.active = list.buffer.capacity ∧
        ∀ entry ∈ list.entries, entry.id ≠ lock.id) ∧
    -- A list that refuses stays as it is.
    (∀ (ensemble : Ensemble) (index slot : Nat) (mode : Mode) (misuse : Misuse),
      ensemble.current index = list →
      list.getOrAdd (ensemble.store.lockAt slot) mode = .error misuse →
        ensemble.step (.add index slot mode) = (.misuse misuse, ensemble)) ∧
    (∀ lock mode pos after, list.getOrAdd lock mode = .ok (pos, after) →
      list.Inserted lock mode pos after) ∧
    ∀ requests other : List (LockRef × Mode), requests.Perm other →
      (list.addAll requests = .error (.full .currentList) ∧
        list.addAll other = .error (.full .currentList)) ∨
      ∃ after last, list.addAll requests = .ok after ∧ list.addAll other = .ok last ∧
        after.entries.map Entry.unplaced = last.entries.map Entry.unplaced ∧
        ((∀ a ∈ requests, ∀ b ∈ requests, a.1.id = b.1.id → a.1 = b.1) →
          after.entries = last.entries) := by
  refine ⟨fun lock mode => get_or_add_refuses sound, ?_,
    fun lock mode pos after => get_or_add_inserted sound, add_all_perm sound⟩
  intro ensemble index slot mode misuse here refused
  rw [Ensemble.step, here, refused]

def roomForOne : CurrentList where
  buffer :=
    { cells := #[.sentinel, ⟨some ⟨0, 2⟩, .shared, .exclusive, some .writer⟩,
        ⟨some ⟨1, 6⟩, .exclusive, .shared, some .reader⟩, .sentinel]
      active := 2 }
  spins := 0

theorem room_for_one_sound : roomForOne.buffer.Sound :=
  ⟨by decide, rfl, by unfold Entry.Ascending; decide⟩

theorem room_for_one_is_filled :
    (∃ after, roomForOne.getOrAdd ⟨2, 4⟩ .shared = .ok (2, after) ∧
      roomForOne.Inserted ⟨2, 4⟩ .shared 2 after) ∧
    roomForOne.addAll [(⟨2, 4⟩, .shared), (⟨3, 5⟩, .shared)] = .error (.full .currentList) ∧
    roomForOne.addAll [(⟨3, 5⟩, .shared), (⟨2, 4⟩, .shared)] = .error (.full .currentList) := by
  obtain ⟨_, _, inserted, permuted⟩ := requests_fill_a_sorted_map roomForOne room_for_one_sound
  have first : (roomForOne.addAll [(⟨2, 4⟩, .shared), (⟨3, 5⟩, .shared)]).toOption.isSome = false := by
    decide +kernel
  refine ⟨?_, ?_⟩
  · have place : (roomForOne.getOrAdd ⟨2, 4⟩ .shared).toOption.map Prod.fst = some 2 := by
      decide +kernel
    cases added : roomForOne.getOrAdd ⟨2, 4⟩ .shared with
    | error misuse => rw [added] at place; cases place
    | ok result =>
        obtain ⟨pos, after⟩ := result
        rw [added] at place
        cases place
        exact ⟨after, rfl, inserted _ _ _ _ added⟩
  · rcases permuted [(⟨2, 4⟩, .shared), (⟨3, 5⟩, .shared)] [(⟨3, 5⟩, .shared), (⟨2, 4⟩, .shared)]
      (.swap _ _ _) with full | ⟨_, _, added, _⟩
    · exact full
    · rw [added] at first
      cases first

end CurrentList

end LockOrder
