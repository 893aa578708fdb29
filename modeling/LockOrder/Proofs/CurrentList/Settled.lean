import LockOrder.Proofs.CurrentList.InTurn

set_option autoImplicit false

namespace LockOrder

namespace Entry

def owned (entry : Entry) : Entry :=
  if entry.isEnough then entry else entry.took .exclusive .writer

theorem enough_owned (entry : Entry) : entry.owned.isEnough = true := by
  by_cases enough : entry.isEnough = true
  · rw [owned, if_pos enough]
    exact enough
  · rw [owned, if_neg enough]
    exact Acquisition.covers_exclusive entry.preferred

theorem short_of_share {entry : Entry} (shared : entry.taken = .shared)
    (wants : entry.preferred = .exclusive) : entry.isEnough = false := by
  rw [isEnough, shared, wants]
  rfl

end Entry

theorem Store.take_writer_eq_none_iff {store : Store} {lock : LockRef} :
    store.take lock .writer = none ↔ (store.word lock).isFree = false := by
  rw [take, Option.map_eq_none_iff, RwLock.take, RwLock.takeExclusive, RwLock.isFree]
  by_cases free : (store.word lock).word = 0 <;> simp [free]

namespace CurrentList

-- Up to its last lock the list has all that it wants.
def Settled (list : CurrentList) : Prop :=
  ∀ pos, 0 < pos → pos ≤ list.lastLocked → (list.buffer.cell pos).isEnough = true

def unmet (list : CurrentList) (count : Nat) : List UInt64 :=
  ((list.entries.take count).filter fun entry => !entry.isEnough).map Entry.id

def acquireAmid (list : CurrentList) (others : List (Store → Store)) (store : Store) :
    Outcome Unit × CurrentList × Store :=
  Acquisition.seen (Acquisition.stepsAmid 1 others (.start list store))

def acquireRows :
    List (List (Store → Store)) → CurrentList → Store → Outcome Unit × CurrentList × Store
  | [], list, store => (.ok (), list, store)
  | row :: rows, list, store =>
      match list.acquireAmid row store with
      | (.ok (), list, store) => acquireRows rows list store
      | stopped => stopped

def furthest (rows : List (List (Store → Store))) : Nat := (rows.map List.length).foldr max 0

variable {ids : List UInt64} {list start : CurrentList} {done asked goal : Nat}

theorem settled_of_free (sound : list.Sound ids) (free : list.isHolding = false) : list.Settled := by
  intro pos first last
  obtain ⟨bound, _, locked⟩ := last_locked_within list list.buffer.active
  have some : list.lastLocked ≠ 0 := by omega
  have held := locked.resolve_left some
  have listed := Buffer.cell_mem_entries list.buffer sound.buffer.room list.lastLocked (by omega) bound
  simp only [isHolding, List.any_eq_false] at free
  exact absurd held (free _ listed)

theorem unmet_ascend (sound : list.Sound ids) (count : Nat) : (list.unmet count).Pairwise (· < ·) := by
  have part : (list.unmet count).Sublist list.ids :=
    (List.filter_sublist.trans (List.take_sublist count list.entries)).map Entry.id
  exact (ids_ascend sound).sublist part

theorem unmet_succ (room : list.buffer.active < list.buffer.cells.size)
    (inside : done + 1 ≤ list.buffer.active) :
    list.unmet (done + 1) = list.unmet done ++
      if (list.buffer.cell (done + 1)).isEnough then [] else [(list.buffer.cell (done + 1)).id] := by
  have here : list.entries[done]? = some (list.buffer.cell (done + 1)) :=
    Buffer.entry_at list.buffer room (done + 1) (Nat.succ_pos done) inside
  rw [unmet, List.take_add_one, here, List.filter_append, List.map_append]
  by_cases enough : (list.buffer.cell (done + 1)).isEnough = true
  · simp [unmet, enough]
  · simp [unmet, enough]

-- The list after it has waited for whatever it wanted at its first `asked` positions, and has got it at
-- the first `done` of them.
structure Awaited (start : CurrentList) (done asked : Nat) (list : CurrentList) : Prop where
  active : list.buffer.active = start.buffer.active
  cells : ∀ pos, 0 < pos → pos ≤ start.buffer.active →
    list.buffer.cell pos = if pos ≤ done then (start.buffer.cell pos).owned else start.buffer.cell pos
  calls : list.calls.toList = start.calls.toList ++ (start.unmet asked).map .await

theorem awaited_start (list : CurrentList) : Awaited list 0 0 list where
  active := rfl
  cells := fun _ first _ => (if_neg (Nat.not_le.mpr first)).symm
  calls := by simp [unmet]

theorem Awaited.enough (awaited : Awaited start done asked list) (pos : Nat) (first : 0 < pos)
    (reached : pos ≤ done) (last : pos ≤ start.buffer.active) :
    (list.buffer.cell pos).isEnough = true := by
  rw [awaited.cells pos first last, if_pos reached]
  exact Entry.enough_owned _

-- A lock behind the last one that was waited for was held at the start, and so nothing was missing
-- up to there.
theorem Awaited.settled (awaited : Awaited start done asked list) (settled : start.Settled) :
    list.Settled := by
  intro pos first last
  obtain ⟨bound, _, locked⟩ := last_locked_within list list.buffer.active
  change list.lastLocked ≤ list.buffer.active at bound
  have active := awaited.active
  by_cases reached : pos ≤ done
  · exact awaited.enough pos first reached (by omega)
  · have some : list.lastLocked ≠ 0 := by omega
    have held := locked.resolve_left some
    change (list.buffer.cell list.lastLocked).isLocked = true at held
    rw [awaited.cells list.lastLocked (by omega) (by omega), if_neg (by omega)] at held
    have early := locked_le_last_locked start list.lastLocked (by omega) held
    rw [awaited.cells pos first (by omega), if_neg reached]
    exact settled pos first (by omega)

theorem Awaited.skips (awaited : Awaited start done done list)
    (room : start.buffer.active < start.buffer.cells.size) (bound : done + 1 ≤ start.buffer.active)
    (enough : (start.buffer.cell (done + 1)).isEnough = true) :
    Awaited start (done + 1) (done + 1) list where
  active := awaited.active
  cells := by
    intro pos first last
    rw [awaited.cells pos first last]
    by_cases here : pos = done + 1
    · rw [here, if_neg (by omega), if_pos (Nat.le_refl _), Entry.owned, if_pos enough]
    · have order : pos ≤ done ↔ pos ≤ done + 1 := by omega
      simp only [order]
  calls := by
    rw [unmet_succ room bound, if_pos enough, List.append_nil]
    exact awaited.calls

theorem Awaited.asks (awaited : Awaited start done done list)
    (room : start.buffer.active < start.buffer.cells.size) (bound : done + 1 ≤ start.buffer.active)
    (short : (start.buffer.cell (done + 1)).isEnough = false) {lock : LockRef}
    (named : (start.buffer.cell (done + 1)).lock = some lock) :
    (list.calls.push (.await lock.id)).toList =
      start.calls.toList ++ (start.unmet (done + 1)).map .await := by
  have id : (start.buffer.cell (done + 1)).id = lock.id := by
    rw [Entry.id, named]
  have more : start.unmet (done + 1) = start.unmet done ++ [lock.id] := by
    rw [unmet_succ room bound, short, id]
    rfl
  rw [more, Array.toList_push, awaited.calls, List.map_append, List.append_assoc]
  rfl

theorem Awaited.gets {after : CurrentList} (awaited : Awaited start done done list)
    (room : start.buffer.active < start.buffer.cells.size) (bound : done + 1 ≤ start.buffer.active)
    (short : (start.buffer.cell (done + 1)).isEnough = false) {lock : LockRef}
    (named : (start.buffer.cell (done + 1)).lock = some lock)
    (inside : done + 1 < list.buffer.cells.size)
    (buffer : after.buffer =
      list.buffer.set (done + 1) ((list.buffer.cell (done + 1)).took .exclusive .writer))
    (calls : after.calls = list.calls.push (.await lock.id)) :
    Awaited start (done + 1) (done + 1) after where
  active := by
    rw [buffer]
    exact awaited.active
  cells := by
    intro pos first last
    rw [buffer, Buffer.cell_set _ _ _ _ inside]
    by_cases here : pos = done + 1
    · have old := awaited.cells (done + 1) (Nat.succ_pos done) bound
      rw [if_neg (by omega)] at old
      rw [if_pos here, here, if_pos (Nat.le_refl _), Entry.owned, if_neg (by simp [short]), old]
    · have order : pos ≤ done ↔ pos ≤ done + 1 := by omega
      rw [if_neg here, awaited.cells pos first last]
      simp only [order]
  calls := by
    rw [calls]
    exact awaited.asks room bound short named

inductive OnlyAwaits (start : CurrentList) (goal : Nat) : Outcome Unit × CurrentList × Store → Prop
  where
  | got (list : CurrentList) (store : Store) (awaited : Awaited start goal goal list) :
      OnlyAwaits start goal (.ok (), list, store)
  -- It waits for the next lock that it wants, and that is not free.
  | stuck (done : Nat) (lock : LockRef) (list : CurrentList) (store : Store) (short : done < goal)
      (named : (start.buffer.cell (done + 1)).lock = some lock)
      (wanted : (start.buffer.cell (done + 1)).isEnough = false)
      (taken : (store.word lock).isFree = false) (awaited : Awaited start done (done + 1) list) :
      OnlyAwaits start goal (.waiting lock.id, list, store)

end CurrentList

namespace Acquisition

open CurrentList

variable {ids : List UInt64} {start : CurrentList} {state next : Acquisition} {done pos : Nat}
  {outcome : Outcome Unit}

theorem Stepped.skips (stepped : Stepped pos state outcome next)
    (enough : (state.cell pos).isEnough = true) : outcome = .ok () ∧ next = state := by
  have never : (state.cell pos).isEnough ≠ false := by
    rw [enough]
    decide
  cases stepped with
  | enough enough => exact ⟨rfl, rfl⟩
  | awaited lock store named short unlocked behind taken => exact absurd short never
  | stuck lock named short unlocked behind refused => exact absurd short never
  | tried lock kind store named short unlocked ahead wanted taken => exact absurd short never
  | refused lock kind named short unlocked ahead wanted refused => exact absurd short never
  | upgraded lock store named shared wants ahead raised =>
      exact absurd (Entry.short_of_share shared wants) never
  | shareKept lock named shared wants ahead refused =>
      exact absurd (Entry.short_of_share shared wants) never

theorem Stepped.awaits (stepped : Stepped pos state outcome next) (ready : state.Ready ids)
    (room : start.buffer.active < start.buffer.cells.size) (settled : start.Settled)
    (awaited : Awaited start done done state.list) (first : 0 < pos) (reach : pos ≤ done + 1)
    (last : pos ≤ state.list.buffer.active) :
    (outcome = .ok () ∧ Awaited start (max done pos) (max done pos) next.list) ∨
      (pos = done + 1 ∧ ∃ lock, outcome = .waiting lock.id ∧
        (start.buffer.cell pos).lock = some lock ∧ (start.buffer.cell pos).isEnough = false ∧
        (next.store.word lock).isFree = false ∧ Awaited start done pos next.list) := by
  have active := awaited.active
  by_cases early : pos ≤ done
  · obtain ⟨rfl, rfl⟩ := stepped.skips (awaited.enough pos first early (by omega))
    rw [Nat.max_eq_left early]
    exact Or.inl ⟨rfl, awaited⟩
  · obtain rfl : pos = done + 1 := by omega
    have bound : done + 1 ≤ start.buffer.active := by omega
    have same : state.cell (done + 1) = start.buffer.cell (done + 1) :=
      (awaited.cells (done + 1) first bound).trans (if_neg early)
    rw [Nat.max_eq_right (Nat.le_succ done)]
    by_cases enough : (start.buffer.cell (done + 1)).isEnough = true
    · rw [← same] at enough
      obtain ⟨rfl, rfl⟩ := stepped.skips enough
      rw [same] at enough
      exact Or.inl ⟨rfl, awaited.skips room bound enough⟩
    · have short : (start.buffer.cell (done + 1)).isEnough = false := by simpa using enough
      have behind : ¬ done + 1 ≤ state.last := by
        intro ahead
        rw [ready.tracks] at ahead
        have wanted := awaited.settled settled (done + 1) first ahead
        rw [← same] at enough
        exact enough wanted
      cases stepped with
      | enough now =>
          rw [same] at now
          exact absurd now enough
      | awaited lock store named _ unlocked _ taken =>
          rw [same] at named
          have inside := Nat.lt_of_le_of_lt last ready.sound.buffer.room
          exact Or.inl ⟨rfl, awaited.gets room bound short named inside rfl rfl⟩
      | stuck lock named _ unlocked _ refused =>
          rw [same] at named
          exact Or.inr ⟨rfl, lock, rfl, named, short, Store.take_writer_eq_none_iff.mp refused, active,
            awaited.cells, awaited.asks room bound short named⟩
      | tried lock kind store named _ unlocked ahead wanted taken => exact absurd ahead behind
      | refused lock kind named _ unlocked ahead wanted refused => exact absurd ahead behind
      | upgraded lock store named shared wants ahead raised => exact absurd ahead behind
      | shareKept lock named shared wants ahead refused => exact absurd ahead behind

theorem steps_amid_await (others : List (Store → Store)) (state : Acquisition)
    (ready : state.Ready ids) (room : start.buffer.active < start.buffer.cells.size)
    (settled : start.Settled) (awaited : Awaited start done done state.list) (first : 0 < pos)
    (reach : pos ≤ done + 1) (last : pos + others.length ≤ state.list.buffer.active + 1) :
    (stepsAmid pos others state).2.list.Sound ids ∧
      OnlyAwaits start (max done (pos + others.length - 1)) (seen (stepsAmid pos others state)) := by
  induction others generalizing state pos done with
  | nil =>
      have same : max done (pos + ([] : List (Store → Store)).length - 1) = done := by
        rw [List.length_nil]
        omega
      rw [same]
      exact ⟨ready.sound, .got state.list state.store awaited⟩
  | cons change rest ih =>
      rw [List.length_cons] at last ⊢
      let around : Acquisition := { state with store := change state.store }
      have steady : around.Ready ids := ⟨ready.sound, ready.tracks⟩
      have bound : pos ≤ around.list.buffer.active := by
        change pos ≤ state.list.buffer.active
        omega
      have stepped := step_cases around steady pos first bound
      have changed : ({ state with store := change state.store } : Acquisition) = around := rfl
      rw [stepsAmid, changed]
      generalize around.step pos = result at stepped
      obtain ⟨outcome, next⟩ := result
      have kept := (stepped.keeps steady first bound).1
      rcases stepped.awaits steady room settled awaited first reach bound with
        ⟨ok, further⟩ | ⟨here, lock, waits, named, short, taken, stuck⟩
      · obtain rfl : outcome = .ok () := ok
        have active : next.list.buffer.active = state.list.buffer.active := stepped.active
        have later := ih next kept further (Nat.succ_pos pos) (by omega) (by omega)
        have goal : max (max done pos) (pos + 1 + rest.length - 1) =
            max done (pos + (rest.length + 1) - 1) := by omega
        rwa [goal] at later
      · obtain rfl : outcome = .waiting lock.id := waits
        rw [here] at named short stuck
        exact ⟨kept.sound, .stuck done lock next.list next.store (by omega) named short taken stuck⟩

end Acquisition

namespace CurrentList

variable {ids : List UInt64} {list start : CurrentList} {done : Nat}

theorem acquire_amid_awaits (sound : list.Sound ids)
    (room : start.buffer.active < start.buffer.cells.size) (settled : start.Settled)
    (awaited : Awaited start done done list) (others : List (Store → Store)) (store : Store)
    (last : others.length ≤ list.buffer.active) :
    (list.acquireAmid others store).2.1.Sound ids ∧
      OnlyAwaits start (max done others.length) (list.acquireAmid others store) := by
  have ends := Acquisition.steps_amid_await others (.start list store)
    (Acquisition.ready_start list store sound) room settled awaited Nat.one_pos (by omega)
    (by change 1 + others.length ≤ list.buffer.active + 1; omega)
  rwa [Nat.add_sub_cancel_left] at ends

theorem acquire_rows_await (rows : List (List (Store → Store))) (sound : list.Sound ids)
    (room : start.buffer.active < start.buffer.cells.size) (settled : start.Settled)
    (awaited : Awaited start done done list) (store : Store)
    (last : ∀ row ∈ rows, row.length ≤ list.buffer.active) :
    OnlyAwaits start (max done (furthest rows)) (acquireRows rows list store) := by
  induction rows generalizing list store done with
  | nil =>
      have same : max done (furthest []) = done := Nat.max_zero done
      rw [same]
      exact .got list store awaited
  | cons row rows ih =>
      obtain ⟨after, ended⟩ :=
        acquire_amid_awaits sound room settled awaited row store (last row (by simp))
      have far : max done (furthest (row :: rows)) = max (max done row.length) (furthest rows) :=
        (Nat.max_assoc ..).symm
      rw [acquireRows, far]
      generalize list.acquireAmid row store = result at after ended
      cases ended with
      | got next store further =>
          have active := further.active.trans awaited.active.symm
          refine ih after further store fun other listed => ?_
          rw [active]
          exact last other (by simp [listed])
      | stuck reached lock next store less named wanted taken stuck =>
          exact .stuck reached lock next store (by omega) named wanted taken stuck

theorem OnlyAwaits.goes_on {goal : Nat} {result : Outcome Unit × CurrentList × Store}
    (ends : OnlyAwaits start goal result) (settled : start.Settled) :
    (∀ fault, result.1 ≠ .fault fault) ∧ result.2.1.Settled ∧
      (result.1 = .ok () → ∀ pos, 0 < pos → pos ≤ goal → pos ≤ start.buffer.active →
        (result.2.1.buffer.cell pos).isEnough = true) := by
  cases ends with
  | got list store awaited =>
      exact ⟨fun fault wrong => (by cases wrong), awaited.settled settled,
        fun _ pos first reached last => awaited.enough pos first reached last⟩
  | stuck done lock list store less named wanted taken awaited =>
      exact ⟨fun fault wrong => (by cases wrong), awaited.settled settled, fun won => (by cases won)⟩

theorem settled_lists_only_wait (list : CurrentList) (sound : list.Sound ids) :
    (list.isHolding = false → list.Settled) ∧
    (∀ last store, list.buffer.holds last = true →
      list.acquireThrough last store = list.acquireAmid (List.replicate last id) store) ∧
    -- Whatever others do before each single lock is taken, the list waits for what it lacks and for
    -- nothing else, in ascending order. Having got it, it is settled again, so it may go on asking.
    (list.Settled →
      (∀ count, (list.unmet count).Pairwise (· < ·)) ∧
      (∀ (others : List (Store → Store)) (store : Store), list.buffer.holds others.length = true →
        OnlyAwaits list others.length (list.acquireAmid others store) ∧
        (∀ fault, (list.acquireAmid others store).1 ≠ .fault fault) ∧
        (list.acquireAmid others store).2.1.Sound ids ∧
        (list.acquireAmid others store).2.1.Settled ∧
        ((list.acquireAmid others store).1 = .ok () → ∀ pos, 0 < pos → pos ≤ others.length →
          ((list.acquireAmid others store).2.1.buffer.cell pos).isEnough = true)) ∧
      ∀ (rows : List (List (Store → Store))) (store : Store),
        (∀ row ∈ rows, list.buffer.holds row.length = true) →
          OnlyAwaits list (furthest rows) (acquireRows rows list store)) := by
  have within : ∀ count, list.buffer.holds count = true → count ≤ list.buffer.active := by
    intro count inside
    rw [Buffer.holds, decide_eq_true_eq] at inside
    exact inside.2
  refine ⟨settled_of_free sound, fun last store inside => ?_, fun settled =>
    ⟨unmet_ascend sound, fun others store inside => ?_, fun rows store inside => ?_⟩⟩
  · rw [acquireThrough, if_pos inside, acquireAmid, Acquisition.steps_alone]
    rfl
  · have last := within others.length inside
    obtain ⟨after, ends⟩ := acquire_amid_awaits sound sound.buffer.room settled (awaited_start list)
      others store last
    rw [Nat.zero_max] at ends
    obtain ⟨never, again, enough⟩ := ends.goes_on settled
    exact ⟨ends, never, after, again,
      fun won pos first reached => enough won pos first reached (by omega)⟩
  · have ends := acquire_rows_await rows sound sound.buffer.room settled (awaited_start list) store
      fun row listed => within row.length (inside row listed)
    rwa [Nat.zero_max] at ends

-- An entry that was given up, one that owns what it only wanted to share, a share, and behind them
-- another entry that was given up between two that still want their locks.
def ahead : CurrentList where
  buffer :=
    { cells := #[.sentinel, ⟨some ⟨0, 1⟩, .unlocked, .unlocked, none⟩,
        ⟨some ⟨1, 2⟩, .shared, .exclusive, some .writer⟩,
        ⟨some ⟨2, 3⟩, .shared, .shared, some .reader⟩, ⟨some ⟨3, 4⟩, .shared, .unlocked, none⟩,
        ⟨some ⟨4, 5⟩, .unlocked, .unlocked, none⟩, ⟨some ⟨5, 6⟩, .exclusive, .unlocked, none⟩]
      active := 6 }
  spins := 0

def aheadStore : Store where
  records := #[{ id := 1, lock := ⟨RwLock.exclusiveWord⟩ }, { id := 2, lock := ⟨RwLock.exclusiveWord⟩ },
    { id := 3, lock := ⟨2⟩ }, { id := 4, lock := ⟨RwLock.exclusiveWord⟩ }, { id := 5 }, { id := 6 }]

theorem ahead_sound : ahead.Sound [1, 2, 3, 4, 5, 6] where
  buffer := ⟨by decide, rfl, by unfold Entry.Ascending; decide⟩
  entries := by
    intro entry listed
    have view : ahead.entries = ahead.buffer.cells.toList.tail := by decide
    rw [view] at listed
    simp only [ahead, List.tail_cons, List.mem_cons, List.not_mem_nil, or_false] at listed
    rcases listed with rfl | rfl | rfl | rfl | rfl | rfl <;> exact ⟨⟨_, rfl, rfl⟩, rfl⟩

theorem ahead_settled : ahead.Settled := by
  intro pos first last
  have locked : ahead.lastLocked = 3 := by decide
  rw [locked] at last
  have each : ∀ pos < 4, 0 < pos → (ahead.buffer.cell pos).isEnough = true := by decide
  exact each pos (by omega) first

def givesBackFourth : List (Store → Store) :=
  [id, id, id, fun store => store.release ⟨3, 4⟩ .writer]

theorem ahead_only_waits :
    (ahead.acquireAmid givesBackFourth aheadStore).1 = .ok () ∧
      (ahead.acquireAmid givesBackFourth aheadStore).2.1.calls.toList = [.await 4] ∧
      OnlyAwaits ahead 6 (acquireRows [givesBackFourth, List.replicate 6 id] ahead aheadStore) ∧
      (acquireRows [givesBackFourth, List.replicate 6 id] ahead aheadStore).2.1.calls.toList =
        [.await 4, .await 6] ∧
      (ahead.acquireThrough 6 aheadStore).1 = .waiting 4 ∧
      OnlyAwaits ahead 6 (ahead.acquireAmid (List.replicate 6 id) aheadStore) := by
  have waits := (settled_lists_only_wait ahead ahead_sound).2.2 ahead_settled
  exact ⟨by decide +kernel, by decide +kernel,
    waits.2.2 [givesBackFourth, List.replicate 6 id] aheadStore (by decide), by decide +kernel,
    by decide +kernel, (waits.2.1 (List.replicate 6 id) aheadStore (by decide)).1⟩

end CurrentList

end LockOrder
