import LockOrder.Proofs.CurrentList.Contracts
import LockOrder.Proofs.CurrentList.Settled

set_option autoImplicit false

namespace LockOrder

namespace Entry

def word (entry : Entry) (store : Store) : RwLock := (entry.lock.map store.word).getD {}

def isDenied (entry : Entry) (lock : RwLock) : Bool :=
  if entry.taken = .shared then lock.readers != 1
  else if entry.preferred = .exclusive then !lock.isFree
  else lock.isWriteLocked || lock.readers == RwLock.fullWord

theorem word_of_named {entry : Entry} {lock : LockRef} (named : entry.lock = some lock)
    (store : Store) : entry.word store = store.word lock := by
  rw [word, named]
  rfl

end Entry

namespace RwLock

theorem take_shared_eq_none_iff (lock : RwLock) :
    lock.takeShared = none ↔ (lock.isWriteLocked || lock.readers == fullWord) = true := by
  rw [takeShared, readers]
  cases locked : lock.isWriteLocked with
  | true => simp
  | false => by_cases full : lock.word = fullWord <;> simp [full]

theorem upgrade_eq_none_iff (lock : RwLock) : lock.upgrade = none ↔ lock.readers ≠ 1 := by
  rw [upgrade, readers]
  cases locked : lock.isWriteLocked with
  | true =>
      have apart : lock.word ≠ 1 := by
        intro one
        rw [isWriteLocked, one] at locked
        revert locked
        decide
      simp [apart]
  | false => by_cases one : lock.word = 1 <;> simp [one]

end RwLock

namespace Store

variable {store next : Store} {lock : LockRef}

theorem record_at_relocked {change : Option RwLock}
    (relocked : change.map (store.setWord lock) = some next) (slot : Nat)
    (other : slot ≠ lock.slot) : next.recordAt slot = store.recordAt slot := by
  obtain ⟨word, _, rfl⟩ := Option.map_eq_some_iff.mp relocked
  exact record_at_put_other store lock.slot slot _ other

end Store

namespace Acquisition

variable {state next : Acquisition} {pos : Nat} {outcome : Outcome Unit} {entry : Entry} {store : Store}
  {lock : LockRef}

theorem take_wanted_eq_none_iff (unlocked : entry.taken = .unlocked) :
    store.take lock (wanted entry) = none ↔ entry.isDenied (store.word lock) = true := by
  have free : ¬ entry.taken = .shared := by
    rw [unlocked]
    decide
  rw [Entry.isDenied, if_neg free, wanted]
  by_cases whole : entry.preferred = .exclusive
  · rw [if_pos whole, if_pos whole, Store.take_writer_eq_none_iff, Bool.not_eq_true']
  · rw [if_neg whole, if_neg whole, Store.take, Option.map_eq_none_iff]
    exact RwLock.take_shared_eq_none_iff _

theorem upgrade_eq_none_iff (shared : entry.taken = .shared) :
    store.upgrade lock = none ↔ entry.isDenied (store.word lock) = true := by
  rw [Entry.isDenied, if_pos shared, bne_iff_ne, ← RwLock.upgrade_eq_none_iff]
  exact Option.map_eq_none_iff

theorem checked_calls (state : Acquisition) (lock : LockRef) :
    (state.checked lock).list.calls = state.list.calls := by
  rw [checked, require, CurrentList.require]
  split <;> rfl

theorem Stepped.calls (stepped : Stepped pos state outcome next) :
    ∃ made, next.list.calls.toList = state.list.calls.toList ++ made ∧
      ∀ id handle, LockCall.release id handle ∉ made := by
  cases stepped with
  | enough enough => exact ⟨[], (List.append_nil _).symm, by simp⟩
  | awaited lock store named short unlocked behind taken =>
      exact ⟨[.await lock.id], Array.toList_push, by simp⟩
  | stuck lock named short unlocked behind refused =>
      exact ⟨[.await lock.id], Array.toList_push, by simp⟩
  | tried lock kind store named short unlocked ahead wanted taken =>
      exact ⟨[.tryTake lock.id kind state.list.spins true], Array.toList_push, by simp⟩
  | refused lock kind named short unlocked ahead wanted refused =>
      exact ⟨[.tryTake lock.id kind state.list.spins false], Array.toList_push, by simp⟩
  | upgraded lock store named shared wants ahead raised =>
      refine ⟨[.upgrade lock.id .reader (state.checked lock).list.spins true], ?_, by simp⟩
      rw [← checked_calls state lock]
      exact Array.toList_push
  | shareKept lock named shared wants ahead refused =>
      refine ⟨[.upgrade lock.id .reader (state.checked lock).list.spins false], ?_, by simp⟩
      rw [← checked_calls state lock]
      exact Array.toList_push

theorem Stepped.records (stepped : Stepped pos state outcome next) (slot : Nat)
    (other : (state.cell pos).lock.map LockRef.slot ≠ some slot) :
    next.store.recordAt slot = state.store.recordAt slot := by
  have apart : ∀ lock, (state.cell pos).lock = some lock → slot ≠ lock.slot := by
    intro lock named same
    rw [named, same] at other
    exact other rfl
  cases stepped with
  | awaited lock store named short unlocked behind taken =>
      exact Store.record_at_relocked taken slot (apart lock named)
  | tried lock kind store named short unlocked ahead wanted taken =>
      exact Store.record_at_relocked taken slot (apart lock named)
  | upgraded lock store named shared wants ahead raised =>
      exact Store.record_at_relocked raised slot (apart lock named)
  | _ => rfl

theorem Stepped.missed (stepped : Stepped pos state outcome next) (missed : outcome ≠ .ok ()) :
    next.list.buffer = state.list.buffer ∧ next.store = state.store := by
  cases stepped with
  | shareKept lock named shared wants ahead refused => exact ⟨checked_buffer state lock, rfl⟩
  | stuck lock named short unlocked behind refused => exact ⟨rfl, rfl⟩
  | refused lock kind named short unlocked ahead wanted refused => exact ⟨rfl, rfl⟩
  | _ => exact absurd rfl missed

theorem Stepped.stronger (stepped : Stepped pos state outcome next)
    (room : pos < state.list.buffer.cells.size) (other : Nat) :
    (state.cell other).taken.rank ≤ (next.cell other).taken.rank := by
  by_cases here : other = pos
  · rw [here]
    have whole := stepped
    cases stepped with
    | awaited lock store named short unlocked behind taken =>
        rw [unlocked]
        exact Nat.zero_le _
    | tried lock kind store named short unlocked ahead wanted taken =>
        rw [unlocked]
        exact Nat.zero_le _
    | upgraded lock store named shared wants ahead raised =>
        -- Whoever wants the whole lock and has enough, has all of it.
        have wish := (whole.wants room pos).2.trans wants
        rw [Entry.exclusive_of_enough (whole.enough_after room) wish, shared]
        decide
    | shareKept lock named shared wants ahead refused =>
        have same := (whole.missed fun won => by cases won).1
        exact Nat.le_of_eq (congrArg (fun buffer => (buffer.cell pos).taken.rank) same.symm)
    | _ => exact Nat.le_refl _
  · have same := stepped.elsewhere other here
    exact Nat.le_of_eq (congrArg (fun entry => entry.taken.rank) same.symm)

end Acquisition

namespace CurrentList

def Contested (list : CurrentList) (pos : Nat) : Prop :=
  ∃ other, pos ≤ other ∧ other ≤ list.buffer.active ∧ (list.buffer.cell other).isLocked = true

def Obtains (list : CurrentList) (store : Store) (pos : Nat) : Prop :=
  (list.buffer.cell pos).isEnough = true ∨
    (list.Contested pos ∧
      (list.buffer.cell pos).isDenied ((list.buffer.cell pos).word store) = false) ∨
    (¬ list.Contested pos ∧ ((list.buffer.cell pos).word store).isFree = true)

-- What the list lacks at `pos` it may not wait for, and it is not to be had.
structure Loses (list : CurrentList) (store : Store) (pos : Nat) : Prop where
  short : (list.buffer.cell pos).isEnough = false
  contested : list.Contested pos
  denied : (list.buffer.cell pos).isDenied ((list.buffer.cell pos).word store) = true

structure Blocks (list : CurrentList) (store : Store) (pos : Nat) : Prop where
  short : (list.buffer.cell pos).isEnough = false
  behind : ¬ list.Contested pos
  taken : ((list.buffer.cell pos).word store).isFree = false

-- Since then no entry has changed its place, its lock or its wish, none holds less, and no lock has been
-- given back.
structure Advances (list after : CurrentList) : Prop where
  active : after.buffer.active = list.buffer.active
  wants : ∀ other, (after.buffer.cell other).lock = (list.buffer.cell other).lock ∧
    (after.buffer.cell other).preferred = (list.buffer.cell other).preferred
  stronger : ∀ other, (list.buffer.cell other).taken.rank ≤ (after.buffer.cell other).taken.rank
  calls : ∃ made, after.calls.toList = list.calls.toList ++ made ∧
    ∀ id handle, LockCall.release id handle ∉ made

-- The list after it has got what it wants before `pos`. From there on, it has touched neither entries
-- nor locks.
structure Passed (list : CurrentList) (store : Store) (pos : Nat) (after : CurrentList)
    (next : Store) : Prop where
  advances : list.Advances after
  obtained : ∀ other, 0 < other → other < pos → (after.buffer.cell other).isEnough = true
  ahead : ∀ other, pos ≤ other → after.buffer.cell other = list.buffer.cell other
  records : ∀ slot, (∀ other, 0 < other → other < pos →
    (list.buffer.cell other).lock.map LockRef.slot ≠ some slot) →
      next.recordAt slot = store.recordAt slot

variable {ids : List UInt64} {list after final : CurrentList} {store next : Store} {pos other : Nat}

theorem contested_iff (first : 0 < pos) : list.Contested pos ↔ pos ≤ list.lastLocked := by
  constructor
  · rintro ⟨other, least, last, locked⟩
    exact Nat.le_trans least (locked_le_last_locked list other last locked)
  · intro early
    obtain ⟨bound, _, locked⟩ := last_locked_within list list.buffer.active
    have some : list.lastLocked ≠ 0 := by omega
    exact ⟨list.lastLocked, early, bound, locked.resolve_left some⟩

theorem Obtains.not_loses (obtains : list.Obtains store pos) : ¬ list.Loses store pos := by
  rintro ⟨short, contested, denied⟩
  rcases obtains with enough | ⟨_, free⟩ | ⟨behind, _⟩
  · rw [short] at enough
    cases enough
  · rw [denied] at free
    cases free
  · exact behind contested

theorem Obtains.not_blocks (obtains : list.Obtains store pos) : ¬ list.Blocks store pos := by
  rintro ⟨short, behind, taken⟩
  rcases obtains with enough | ⟨contested, _⟩ | ⟨_, free⟩
  · rw [short] at enough
    cases enough
  · exact behind contested
  · rw [taken] at free
    cases free

theorem advances_refl (list : CurrentList) : list.Advances list :=
  ⟨rfl, fun _ => ⟨rfl, rfl⟩, fun _ => Nat.le_refl _, [], (List.append_nil _).symm, by simp⟩

theorem Advances.trans (first : list.Advances after) (second : after.Advances final) :
    list.Advances final where
  active := second.active.trans first.active
  wants := fun other => ⟨(second.wants other).1.trans (first.wants other).1,
    (second.wants other).2.trans (first.wants other).2⟩
  stronger := fun other => Nat.le_trans (first.stronger other) (second.stronger other)
  calls := by
    obtain ⟨early, before, none⟩ := first.calls
    obtain ⟨late, behind, nothing⟩ := second.calls
    refine ⟨early ++ late, by rw [behind, before, List.append_assoc], fun id handle made => ?_⟩
    rcases List.mem_append.mp made with old | new
    · exact none id handle old
    · exact nothing id handle new

theorem passed_start (list : CurrentList) (store : Store) : list.Passed store 1 list store where
  advances := advances_refl list
  obtained := fun _ _ _ => by omega
  ahead := fun _ _ => rfl
  records := fun _ _ => rfl

theorem Passed.contested (passed : list.Passed store pos after next) :
    after.Contested pos ↔ list.Contested pos := by
  have same : ∀ other, (pos ≤ other ∧ other ≤ after.buffer.active ∧
      (after.buffer.cell other).isLocked = true) ↔ (pos ≤ other ∧ other ≤ list.buffer.active ∧
        (list.buffer.cell other).isLocked = true) := by
    intro other
    rw [passed.advances.active]
    refine and_congr_right fun least => ?_
    rw [passed.ahead other least]
  exact exists_congr same

theorem Passed.word (passed : list.Passed store pos after next) (sound : list.Sound ids)
    (first : 0 < pos) (least : pos ≤ other) (last : other ≤ list.buffer.active) :
    (list.buffer.cell other).word next = (list.buffer.cell other).word store := by
  have room := sound.buffer.room
  have listed := fun place first last =>
    sound.entries _ (Buffer.cell_mem_entries list.buffer room place first last)
  obtain ⟨lock, named, on⟩ := (listed other (by omega) last).listed
  rw [Entry.word_of_named named, Entry.word_of_named named, Store.word, Store.word]
  refine congrArg Record.lock (passed.records lock.slot fun place begins before same => ?_)
  obtain ⟨own, ownNamed, ownOn⟩ := (listed place begins (by omega)).listed
  rw [ownNamed] at same
  have equal : own = lock := LockRef.on_slot ownOn on (Option.some.inj same)
  have less := Buffer.cells_ascend list.buffer sound.buffer place other begins (by omega) last
  rw [Entry.id, Entry.id, ownNamed, named, equal] at less
  exact UInt64.lt_irrefl _ less

end CurrentList

namespace Acquisition

open CurrentList

variable {ids : List UInt64} {list : CurrentList} {store : Store} {state next : Acquisition}
  {pos : Nat} {outcome : Outcome Unit}

theorem Stepped.advances (stepped : Stepped pos state outcome next)
    (room : pos < state.list.buffer.cells.size) : state.list.Advances next.list :=
  ⟨stepped.active, stepped.wants room, stepped.stronger room, stepped.calls⟩

theorem Stepped.stays (stepped : Stepped pos state outcome next)
    (room : pos < state.list.buffer.cells.size)
    (passed : list.Passed store pos state.list state.store) (missed : outcome ≠ .ok ()) :
    list.Passed store pos next.list next.store := by
  obtain ⟨buffer, records⟩ := stepped.missed missed
  refine ⟨passed.advances.trans (stepped.advances room), ?_, ?_, ?_⟩
  · rw [buffer]
    exact passed.obtained
  · rw [buffer]
    exact passed.ahead
  · rw [records]
    exact passed.records

theorem Stepped.passes (stepped : Stepped pos state (.ok ()) next) (first : 0 < pos)
    (room : pos < state.list.buffer.cells.size)
    (passed : list.Passed store pos state.list state.store) :
    list.Passed store (pos + 1) next.list next.store := by
  refine ⟨passed.advances.trans (stepped.advances room), fun other begins reached => ?_,
    fun other least => ?_, fun slot apart => ?_⟩
  · by_cases here : other = pos
    · rw [here]
      exact stepped.enough_after room
    · have same := stepped.elsewhere other here
      have enough := passed.obtained other begins (by omega)
      rwa [← cell, ← same] at enough
  · exact (stepped.elsewhere other (by omega)).trans (passed.ahead other (by omega))
  · have own : (state.cell pos).lock = (list.buffer.cell pos).lock := (passed.advances.wants pos).1
    have other : (state.cell pos).lock.map LockRef.slot ≠ some slot := by
      rw [own]
      exact apart pos first (Nat.lt_succ_self pos)
    refine (stepped.records slot other).trans (passed.records slot fun place begins before => ?_)
    exact apart place begins (by omega)

inductive Ends (list : CurrentList) (store : Store) (pos count : Nat) :
    Outcome Unit × Acquisition → Prop where
  | got (state : Acquisition)
      (obtains : ∀ other, pos ≤ other → other < pos + count → list.Obtains store other) :
      Ends list store pos count (.ok (), state)
  | lost (place : Nat) (state : Acquisition) (least : pos ≤ place) (bound : place < pos + count)
      (obtains : ∀ other, pos ≤ other → other < place → list.Obtains store other)
      (loses : list.Loses store place) (passed : list.Passed store place state.list state.store) :
      Ends list store pos count (.fault .raceAbort, state)
  | blocked (place : Nat) (id : UInt64) (state : Acquisition) (least : pos ≤ place)
      (bound : place < pos + count)
      (obtains : ∀ other, pos ≤ other → other < place → list.Obtains store other)
      (blocks : list.Blocks store place) : Ends list store pos count (.waiting id, state)

theorem Stepped.decided (stepped : Stepped pos state outcome next) (sound : list.Sound ids)
    (ready : state.Ready ids) (passed : list.Passed store pos state.list state.store)
    (first : 0 < pos) (last : pos ≤ list.buffer.active) :
    (outcome = .ok () ∧ list.Obtains store pos) ∨
      (outcome = .fault .raceAbort ∧ list.Loses store pos) ∨
      ((∃ id, outcome = .waiting id) ∧ list.Blocks store pos) := by
  have same : state.cell pos = list.buffer.cell pos := passed.ahead pos (Nat.le_refl pos)
  have word : ∀ lock, (state.cell pos).lock = some lock →
      (list.buffer.cell pos).word store = state.store.word lock := by
    intro lock named
    rw [← passed.word sound first (Nat.le_refl pos) last, ← same, Entry.word_of_named named]
  have contested : list.Contested pos ↔ pos ≤ state.last := by
    rw [← passed.contested, contested_iff first, ready.tracks]
  cases stepped with
  | enough enough =>
      rw [same] at enough
      exact Or.inl ⟨rfl, Or.inl enough⟩
  | awaited lock store named short unlocked behind taken =>
      have free : (state.store.word lock).isFree = true := by
        rw [← Bool.not_eq_false, ← Store.take_writer_eq_none_iff, taken]
        simp
      rw [← word lock named] at free
      have alone : ¬ list.Contested pos := by
        rw [contested]
        omega
      exact Or.inl ⟨rfl, Or.inr (Or.inr ⟨alone, free⟩)⟩
  | stuck lock named short unlocked behind refused =>
      have taken := Store.take_writer_eq_none_iff.mp refused
      rw [← word lock named] at taken
      rw [same] at short
      have alone : ¬ list.Contested pos := by
        rw [contested]
        omega
      exact Or.inr (Or.inr ⟨⟨lock.id, rfl⟩, short, alone, taken⟩)
  | tried lock kind store named short unlocked ahead wanted taken =>
      have free : (state.cell pos).isDenied (state.store.word lock) = false := by
        rw [← Bool.not_eq_true, ← take_wanted_eq_none_iff unlocked, ← wanted, taken]
        simp
      rw [← word lock named, same] at free
      exact Or.inl ⟨rfl, Or.inr (Or.inl ⟨contested.mpr ahead, free⟩)⟩
  | refused lock kind named short unlocked ahead wanted refused =>
      rw [wanted, take_wanted_eq_none_iff unlocked, ← word lock named, same] at refused
      rw [same] at short
      exact Or.inr (Or.inl ⟨rfl, short, contested.mpr ahead, refused⟩)
  | upgraded lock store named shared wants ahead raised =>
      have free : (state.cell pos).isDenied (state.store.word lock) = false := by
        rw [← Bool.not_eq_true, ← upgrade_eq_none_iff shared, raised]
        simp
      rw [← word lock named, same] at free
      exact Or.inl ⟨rfl, Or.inr (Or.inl ⟨contested.mpr ahead, free⟩)⟩
  | shareKept lock named shared wants ahead refused =>
      have short := Entry.short_of_share shared wants
      rw [upgrade_eq_none_iff shared, ← word lock named, same] at refused
      rw [same] at short
      exact Or.inr (Or.inl ⟨rfl, short, contested.mpr ahead, refused⟩)

theorem steps_end (count : Nat) (state : Acquisition) (sound : list.Sound ids)
    (ready : state.Ready ids) (passed : list.Passed store pos state.list state.store)
    (first : 0 < pos) (last : pos + count ≤ list.buffer.active + 1) :
    Ends list store pos count (steps pos count state) := by
  induction count generalizing state pos with
  | zero => exact .got state fun other least bound => by omega
  | succ count ih =>
      have active := passed.advances.active
      have inside : pos ≤ state.list.buffer.active := by omega
      have room := Nat.lt_of_le_of_lt inside ready.sound.buffer.room
      have stepped := step_cases state ready pos first inside
      rw [steps]
      generalize state.step pos = result at stepped
      obtain ⟨outcome, next⟩ := result
      dsimp only at stepped
      rcases stepped.decided sound ready passed first (by omega) with
        ⟨rfl, obtains⟩ | ⟨rfl, loses⟩ | ⟨⟨id, rfl⟩, blocks⟩
      · have further := stepped.passes first room passed
        have later := ih next (stepped.keeps ready first inside).1 further (Nat.succ_pos pos) (by omega)
        have here : ∀ other, pos ≤ other → (pos + 1 ≤ other → list.Obtains store other) →
            list.Obtains store other := by
          intro other least rest
          by_cases same : other = pos
          · rwa [same]
          · exact rest (by omega)
        dsimp only
        generalize steps (pos + 1) count next = rest at later
        cases later with
        | got state all =>
            exact .got state fun other least bound =>
              here other least fun above => all other above (by omega)
        | lost place state least bound before loses passed =>
            exact .lost place state (by omega) (by omega) (fun other least early =>
              here other least fun above => before other above early) loses passed
        | blocked place id state least bound before blocks =>
            exact .blocked place id state (by omega) (by omega) (fun other least early =>
              here other least fun above => before other above early) blocks
      · have stays := stepped.stays room passed fun won => by cases won
        exact .lost pos next (Nat.le_refl pos) (by omega) (fun other least early => by omega) loses stays
      · exact .blocked pos id next (Nat.le_refl pos) (by omega) (fun other least early => by omega) blocks

theorem Ends.lost_at {count : Nat} {result : Outcome Unit × Acquisition}
    (ends : Ends list store 1 count result) (first : 0 < pos) (last : pos ≤ count)
    (obtains : ∀ earlier, 0 < earlier → earlier < pos → list.Obtains store earlier)
    (loses : list.Loses store pos) :
    result.1 = .fault .raceAbort ∧ list.Passed store pos result.2.list result.2.store := by
  cases ends with
  | got state all => exact absurd loses (all pos first (by omega)).not_loses
  | lost place state least bound before here passed =>
      have same : place = pos := by
        by_cases less : place < pos
        · exact absurd here (obtains place least less).not_loses
        · by_cases more : pos < place
          · exact absurd loses (before pos first more).not_loses
          · omega
      rw [← same]
      exact ⟨rfl, passed⟩
  | blocked place id state least bound before blocks =>
      by_cases less : place < pos
      · exact absurd blocks (obtains place least less).not_blocks
      · by_cases more : pos < place
        · exact absurd loses (before pos first more).not_loses
        · have same : place = pos := by omega
          rw [same] at blocks
          exact absurd loses.contested blocks.behind

end Acquisition

namespace CurrentList

variable {ids : List UInt64}

theorem race_lost_iff_denied (list : CurrentList) (sound : list.Sound ids) (last : Nat)
    (inside : list.buffer.holds last = true) (store : Store) :
    ((list.acquireThrough last store).1 = .fault .raceAbort ↔
      ∃ pos, 0 < pos ∧ pos ≤ last ∧
        (∀ earlier, 0 < earlier → earlier < pos → list.Obtains store earlier) ∧
        list.Loses store pos) ∧
    -- Wherever that is, nothing but the progress up to there has been made.
    ∀ pos, 0 < pos → pos ≤ last →
      (∀ earlier, 0 < earlier → earlier < pos → list.Obtains store earlier) →
      list.Loses store pos →
        list.Passed store pos (list.acquireThrough last store).2.1
          (list.acquireThrough last store).2.2 ∧
        ∀ other, pos ≤ other → other ≤ list.buffer.active →
          (list.buffer.cell other).word (list.acquireThrough last store).2.2 =
            (list.buffer.cell other).word store := by
  obtain ⟨first, bound⟩ : 0 < last ∧ last ≤ list.buffer.active := by
    rwa [Buffer.holds, decide_eq_true_eq] at inside
  have ends := Acquisition.steps_end last (.start list store) sound
    (Acquisition.ready_start list store sound) (passed_start list store) Nat.one_pos (by omega)
  rw [acquireThrough, if_pos inside]
  generalize Acquisition.steps 1 last (.start list store) = result at ends
  constructor
  · constructor
    · intro lost
      cases ends with
      | got state all => cases lost
      | lost place state least early before loses passed =>
          exact ⟨place, least, by omega, before, loses⟩
      | blocked place id state least early before blocks => cases lost
    · rintro ⟨pos, begins, reached, obtains, loses⟩
      exact (ends.lost_at begins reached obtains loses).1
  · intro pos begins reached obtains loses
    have passed := (ends.lost_at begins reached obtains loses).2
    exact ⟨passed, fun other least most => passed.word sound begins least most⟩

def crowdedStore : Store where
  records := #[{ id := 1 }, { id := 2 }, { id := 3, lock := ⟨2⟩ }, { id := 4 },
    { id := 5, lock := ⟨RwLock.exclusiveWord⟩ }]

-- The second lock is shared, and then the upgrade of the third one fails and its share is kept.
theorem patchwork_loses_upgrade :
    (patchwork.acquireThrough 5 crowdedStore).1 = .fault .raceAbort ∧
      (patchwork.acquireThrough 5 crowdedStore).2.1.calls.toList =
        [.tryTake 2 .reader 7 true, .upgrade 3 .reader 7 false] ∧
      patchwork.Passed crowdedStore 3 (patchwork.acquireThrough 5 crowdedStore).2.1
        (patchwork.acquireThrough 5 crowdedStore).2.2 := by
  have contested : ∀ pos, pos ≤ 3 → patchwork.Contested pos := fun pos least =>
    ⟨3, least, by decide, by decide⟩
  have obtains : ∀ earlier, 0 < earlier → earlier < 3 → patchwork.Obtains crowdedStore earlier := by
    intro earlier first before
    by_cases one : earlier = 1
    · rw [one]
      exact Or.inl (by decide)
    · obtain rfl : earlier = 2 := by omega
      exact Or.inr (Or.inl ⟨contested 2 (by decide), by decide +kernel⟩)
  have loses : patchwork.Loses crowdedStore 3 :=
    ⟨by decide, contested 3 (Nat.le_refl 3), by decide +kernel⟩
  have races := race_lost_iff_denied patchwork patchwork_sound 5 (by decide) crowdedStore
  exact ⟨races.1.mpr ⟨3, by decide, by decide, obtains, loses⟩, by decide +kernel,
    (races.2 3 (by decide) (by decide) obtains loses).1⟩

end CurrentList

end LockOrder
