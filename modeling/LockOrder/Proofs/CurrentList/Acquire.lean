import LockOrder.CurrentList.Acquire
import LockOrder.Proofs.CurrentList.Sound

set_option autoImplicit false

namespace LockOrder

namespace CurrentList

theorem last_locked_within (list : CurrentList) (count : Nat) :
    list.lastLockedWithin count ≤ count ∧
      (∀ pos, list.lastLockedWithin count < pos → pos ≤ count →
        (list.buffer.cell pos).isLocked = false) ∧
      (list.lastLockedWithin count = 0 ∨
        (list.buffer.cell (list.lastLockedWithin count)).isLocked = true) := by
  induction count with
  | zero => exact ⟨Nat.le_refl 0, fun pos above bound => by omega, Or.inl rfl⟩
  | succ count ih =>
      obtain ⟨bound, free, locked⟩ := ih
      unfold lastLockedWithin
      split
      · rename_i here
        exact ⟨Nat.le_refl _, fun pos above bound => by omega, Or.inr here⟩
      · rename_i here
        refine ⟨by omega, ?_, locked⟩
        intro pos above last
        by_cases same : pos = count + 1
        · rw [same]
          simpa using here
        · exact free pos above (by omega)

theorem last_locked_unique (list : CurrentList) (last : Nat) (bound : last ≤ list.buffer.active)
    (free : ∀ pos, last < pos → pos ≤ list.buffer.active →
      (list.buffer.cell pos).isLocked = false)
    (locked : last = 0 ∨ (list.buffer.cell last).isLocked = true) : list.lastLocked = last := by
  obtain ⟨bound', free', locked'⟩ := last_locked_within list list.buffer.active
  change list.lastLocked ≤ _ at bound'
  change ∀ pos, list.lastLocked < pos → _ at free'
  change list.lastLocked = 0 ∨ (list.buffer.cell list.lastLocked).isLocked = true at locked'
  by_cases less : list.lastLocked < last
  · rcases locked with zero | held
    · omega
    · rw [free' last less bound] at held
      cases held
  · by_cases more : last < list.lastLocked
    · rcases locked' with zero | held
      · omega
      · rw [free _ more bound'] at held
        cases held
    · omega

theorem locked_le_last_locked (list : CurrentList) (pos : Nat) (bound : pos ≤ list.buffer.active)
    (locked : (list.buffer.cell pos).isLocked = true) : pos ≤ list.lastLocked := by
  by_cases above : list.lastLocked < pos
  · have free := (last_locked_within list list.buffer.active).2.1 pos above bound
    rw [locked] at free
    cases free
  · omega

end CurrentList

namespace Acquisition

structure Ready (ids : List UInt64) (state : Acquisition) : Prop where
  sound : state.list.Sound ids
  tracks : state.last = state.list.lastLocked

def wanted (entry : Entry) : Handle := if entry.preferred = .exclusive then .writer else .reader

def cell (state : Acquisition) (pos : Nat) : Entry := state.list.buffer.cell pos

def checked (state : Acquisition) (lock : LockRef) : Acquisition :=
  state.require ((state.store.word lock).isHeldBy .reader) (.foreignHandle lock.id .reader)

-- The ways in which one step can end.
inductive Stepped (pos : Nat) (state : Acquisition) : Outcome Unit → Acquisition → Prop where
  | enough (enough : (state.cell pos).isEnough = true) : Stepped pos state (.ok ()) state
  | awaited (lock : LockRef) (store : Store) (named : (state.cell pos).lock = some lock)
      (short : (state.cell pos).isEnough = false) (unlocked : (state.cell pos).taken = .unlocked)
      (behind : state.last < pos) (taken : state.store.take lock .writer = some store) :
      Stepped pos state (.ok ())
        ((state.called (.await lock.id)).took pos .exclusive .writer store)
  | stuck (lock : LockRef) (named : (state.cell pos).lock = some lock)
      (short : (state.cell pos).isEnough = false) (unlocked : (state.cell pos).taken = .unlocked)
      (behind : state.last < pos) (refused : state.store.take lock .writer = none) :
      Stepped pos state (.waiting lock.id) (state.called (.await lock.id))
  | tried (lock : LockRef) (kind : Handle) (store : Store)
      (named : (state.cell pos).lock = some lock) (short : (state.cell pos).isEnough = false)
      (unlocked : (state.cell pos).taken = .unlocked) (ahead : pos ≤ state.last)
      (kind_eq : kind = wanted (state.cell pos)) (taken : state.store.take lock kind = some store) :
      Stepped pos state (.ok ())
        ((state.called (.tryTake lock.id kind state.list.spins true)).took pos kind.mode kind store)
  | refused (lock : LockRef) (kind : Handle) (named : (state.cell pos).lock = some lock)
      (short : (state.cell pos).isEnough = false) (unlocked : (state.cell pos).taken = .unlocked)
      (ahead : pos ≤ state.last) (kind_eq : kind = wanted (state.cell pos))
      (refused : state.store.take lock kind = none) :
      Stepped pos state (.fault .raceAbort)
        (state.called (.tryTake lock.id kind state.list.spins false))
  | upgraded (lock : LockRef) (store : Store) (named : (state.cell pos).lock = some lock)
      (shared : (state.cell pos).taken = .shared) (wants : (state.cell pos).preferred = .exclusive)
      (ahead : pos ≤ state.last) (raised : state.store.upgrade lock = some store) :
      Stepped pos state (.ok ())
        (((state.checked lock).called
          (.upgrade lock.id .reader (state.checked lock).list.spins true)).took pos
          .exclusive .writer store)
  | shareKept (lock : LockRef) (named : (state.cell pos).lock = some lock)
      (shared : (state.cell pos).taken = .shared) (wants : (state.cell pos).preferred = .exclusive)
      (ahead : pos ≤ state.last) (refused : state.store.upgrade lock = none) :
      Stepped pos state (.fault .raceAbort)
        ((state.checked lock).called
          (.upgrade lock.id .reader (state.checked lock).list.spins false))

theorem not_enough (entry : Entry) (short : entry.isEnough = false) :
    entry.taken = .unlocked ∨ (entry.taken = .shared ∧ entry.preferred = .exclusive) := by
  unfold Entry.isEnough Mode.covers at short
  cases taken : entry.taken <;> cases preferred : entry.preferred <;>
    simp [taken, preferred, Mode.rank] at short ⊢

variable {ids : List UInt64}

theorem step_cases (state : Acquisition) (ready : state.Ready ids) (pos : Nat) (first : 0 < pos)
    (last : pos ≤ state.list.buffer.active) :
    Stepped pos state (state.step pos).1 (state.step pos).2 := by
  have listed := Buffer.cell_mem_entries _ ready.sound.buffer.room pos first last
  have sound := ready.sound.entries _ listed
  obtain ⟨lock, named, _⟩ := sound.listed
  unfold step
  simp only [named]
  by_cases enough : (state.list.buffer.cell pos).isEnough = true
  · rw [if_pos enough]
    exact .enough enough
  · have short : (state.list.buffer.cell pos).isEnough = false := by simpa using enough
    rw [if_neg enough]
    by_cases behind : state.last < pos
    · -- No entry behind the last lock is locked, so whoever waits here gives nothing away.
      have unlocked : (state.list.buffer.cell pos).taken = .unlocked := by
        have free : (state.list.buffer.cell pos).isLocked = false := by
          cases locked : (state.list.buffer.cell pos).isLocked with
          | false => rfl
          | true =>
              have bound := CurrentList.locked_le_last_locked state.list pos last locked
              rw [← ready.tracks] at bound
              omega
        simpa [Entry.isLocked] using free
      have kept : state.require ((state.list.buffer.cell pos).taken != .shared)
          (.awaitedShared lock.id) = state := by
        simp [require, CurrentList.require, unlocked]
      rw [if_pos behind, kept]
      unfold await
      cases taken : state.store.take lock .writer with
      | some store =>
          simp only [called, taken]
          exact .awaited lock store named short unlocked behind taken
      | none =>
          simp only [called, taken]
          exact .stuck lock named short unlocked behind taken
    · rw [if_neg behind]
      have ahead : pos ≤ state.last := by omega
      rcases not_enough _ short with unlocked | ⟨shared, wants⟩
      · rw [sound.handled, unlocked]
        by_cases wants : (state.list.buffer.cell pos).preferred = .exclusive
        · have writer : Handle.writer = wanted (state.cell pos) := (if_pos wants).symm
          simp only [if_pos wants]
          unfold tryExclusive
          cases taken : state.store.take lock .writer with
          | some store => exact .tried lock .writer store named short unlocked ahead writer taken
          | none => exact .refused lock .writer named short unlocked ahead writer taken
        · have reader : Handle.reader = wanted (state.cell pos) := (if_neg wants).symm
          simp only [if_neg wants]
          unfold tryShared
          cases taken : state.store.take lock .reader with
          | some store => exact .tried lock .reader store named short unlocked ahead reader taken
          | none => exact .refused lock .reader named short unlocked ahead reader taken
      · rw [sound.handled, shared]
        simp only [Mode.handle]
        unfold tryUpgrade
        cases raised : state.store.upgrade lock with
        | some store =>
            simp only [require, raised]
            exact .upgraded lock store named shared wants ahead raised
        | none =>
            simp only [require, raised]
            exact .shareKept lock named shared wants ahead raised

theorem last_locked_of_buffer {list other : CurrentList} (same : other.buffer = list.buffer) :
    other.lastLocked = list.lastLocked := by
  have bound := (CurrentList.last_locked_within list list.buffer.active)
  refine CurrentList.last_locked_unique other list.lastLocked ?_ ?_ ?_
  · rw [same]
    exact bound.1
  · rw [same]
    exact bound.2.1
  · rw [same]
    exact bound.2.2

theorem ready_of_buffer {state next : Acquisition} (ready : state.Ready ids)
    (buffer : next.list.buffer = state.list.buffer) (store : next.store = state.store)
    (last : next.last = state.last) :
    next.Ready ids ∧ CurrentList.Keeps ids state.list state.store next.list next.store := by
  have keeps : CurrentList.Keeps ids state.list state.store next.list next.store := by
    rw [store]
    exact (CurrentList.keeps_refl ready.sound).of_buffer buffer
  exact ⟨⟨keeps.sound, by rw [last, ready.tracks, last_locked_of_buffer buffer]⟩, keeps⟩

theorem last_locked_took (list after : CurrentList) (pos : Nat) (kind : Handle) (first : 0 < pos)
    (last : pos ≤ list.buffer.active) (room : list.buffer.active < list.buffer.cells.size)
    (buffer : after.buffer = list.buffer.set pos ((list.buffer.cell pos).took kind.mode kind)) :
    after.lastLocked = max pos list.lastLocked := by
  obtain ⟨bound, free, locked⟩ := CurrentList.last_locked_within list list.buffer.active
  have cells : ∀ other, after.buffer.cell other =
      if other = pos then (list.buffer.cell pos).took kind.mode kind else list.buffer.cell other := by
    intro other
    rw [buffer]
    exact Buffer.cell_set list.buffer pos other _ (by omega)
  have here : ((list.buffer.cell pos).took kind.mode kind).isLocked = true := by
    cases kind <;> rfl
  have active : after.buffer.active = list.buffer.active := by rw [buffer, Buffer.active_set]
  change list.lastLocked ≤ _ at bound
  change ∀ pos, list.lastLocked < pos → _ at free
  change list.lastLocked = 0 ∨ (list.buffer.cell list.lastLocked).isLocked = true at locked
  -- Either the new lock is the last one, or the old last one still is.
  refine CurrentList.last_locked_unique after (max pos list.lastLocked) (by omega) ?_ ?_
  · intro other above bounded
    rw [cells, if_neg (by omega)]
    exact free other (by omega) (by omega)
  · right
    rw [cells]
    by_cases same : max pos list.lastLocked = pos
    · rw [if_pos same]
      exact here
    · rw [if_neg same]
      have late : max pos list.lastLocked = list.lastLocked := by omega
      rw [late]
      rcases locked with zero | held
      · omega
      · exact held

theorem took_keeps (state mid : Acquisition) (ready : state.Ready ids) (pos : Nat) (first : 0 < pos)
    (last : pos ≤ state.list.buffer.active) (buffer : mid.list.buffer = state.list.buffer)
    (tracks : mid.last = state.last) (kind : Handle) (store : Store)
    (bare : store.bare = state.store.bare)
    (conserves : Conserves state.list.entries state.store
      (state.list.entries.set (pos - 1) ((state.cell pos).took kind.mode kind)) store) :
    (mid.took pos kind.mode kind store).Ready ids ∧
      CurrentList.Keeps ids state.list state.store (mid.took pos kind.mode kind store).list store := by
  have room := ready.sound.buffer.room
  have taken : (mid.took pos kind.mode kind store).list.buffer =
      state.list.buffer.set pos ((state.list.buffer.cell pos).took kind.mode kind) := by
    simp [took, buffer]
  have view : (mid.took pos kind.mode kind store).list.entries =
      state.list.entries.set (pos - 1) ((state.cell pos).took kind.mode kind) := by
    rw [CurrentList.entries, taken, Buffer.entries_set _ _ _ first]
    rfl
  have sound : (mid.took pos kind.mode kind store).list.Sound ids := by
    refine ⟨?_, ?_⟩
    · rw [taken]
      exact Buffer.sound_set _ ready.sound.buffer pos _ first last rfl
    · intro entry listed
      rw [view] at listed
      rcases List.mem_or_eq_of_mem_set listed with old | new
      · exact ready.sound.entries entry old
      · rw [new]
        exact Entry.sound_took ids _ kind
          (ready.sound.entries _ (Buffer.cell_mem_entries _ room pos first last))
  refine ⟨⟨sound, ?_⟩, ⟨sound, ?_, bare, ?_⟩⟩
  · rw [last_locked_took state.list _ pos kind first last room taken, ← ready.tracks]
    change max mid.last pos = _
    rw [tracks, Nat.max_comm]
  · rw [taken, Buffer.size_set]
  · rw [view]
    exact conserves

theorem checked_buffer (state : Acquisition) (lock : LockRef) :
    (state.checked lock).list.buffer = state.list.buffer := by
  simp only [checked, require, CurrentList.require]
  split <;> rfl

theorem Stepped.active {state next : Acquisition} {pos : Nat} {outcome : Outcome Unit}
    (stepped : Stepped pos state outcome next) :
    next.list.buffer.active = state.list.buffer.active := by
  cases stepped with
  | upgraded lock store named shared wants ahead raised =>
      change (state.checked lock).list.buffer.active = _
      rw [checked_buffer]
  | shareKept lock named shared wants ahead refused =>
      change (state.checked lock).list.buffer.active = _
      rw [checked_buffer]
  | _ => rfl

theorem Stepped.keeps {state next : Acquisition} {pos : Nat} {outcome : Outcome Unit}
    (stepped : Stepped pos state outcome next) (ready : state.Ready ids) (first : 0 < pos)
    (last : pos ≤ state.list.buffer.active) :
    next.Ready ids ∧ CurrentList.Keeps ids state.list state.store next.list next.store := by
  have here : state.list.entries[pos - 1]? = some (state.cell pos) :=
    Buffer.entry_at _ ready.sound.buffer.room pos first last
  have sound := ready.sound.entries _
    (Buffer.cell_mem_entries _ ready.sound.buffer.room pos first last)
  cases stepped with
  | enough enough => exact ready_of_buffer ready rfl rfl rfl
  | awaited lock store named short unlocked behind taken =>
      exact took_keeps state (state.called (.await lock.id)) ready pos first last rfl rfl .writer
        store (Store.bare_take _ _ lock .writer taken)
        (.take (pos - 1) _ lock .writer here named unlocked taken)
  | stuck lock named short unlocked behind refused => exact ready_of_buffer ready rfl rfl rfl
  | tried lock kind store named short unlocked ahead kind_eq taken =>
      exact took_keeps state (state.called (.tryTake lock.id kind state.list.spins true)) ready pos
        first last rfl rfl kind store (Store.bare_take _ _ lock kind taken)
        (.take (pos - 1) _ lock kind here named unlocked taken)
  | refused lock kind named short unlocked ahead kind_eq refused =>
      exact ready_of_buffer ready rfl rfl rfl
  | upgraded lock store named shared wants ahead raised =>
      let mid := (state.checked lock).called
        (.upgrade lock.id .reader (state.checked lock).list.spins true)
      exact took_keeps state mid ready pos first last (checked_buffer state lock) rfl .writer store
        (Store.bare_upgrade _ _ lock raised)
        (.upgrade ids (pos - 1) _ lock here named sound shared raised)
  | shareKept lock named shared wants ahead refused =>
      exact ready_of_buffer ready (checked_buffer state lock) rfl rfl

-- Who waits, waits for a lock behind all locks that it holds.
theorem Stepped.waits_behind {state next : Acquisition} {pos : Nat} {id : UInt64}
    (stepped : Stepped pos state (.waiting id) next) (ready : state.Ready ids)
    (last : pos ≤ state.list.buffer.active) :
    ∀ entry ∈ next.list.entries, entry.isLocked = true → entry.id < id := by
  cases stepped with
  | stuck lock named short unlocked behind refused =>
      -- Locks are at positions before this one, where the identifiers are smaller.
      intro entry listed locked
      have room := ready.sound.buffer.room
      obtain ⟨other, first, bound, rfl⟩ := Buffer.mem_entries_cell state.list.buffer room entry listed
      have early := CurrentList.locked_le_last_locked state.list other bound locked
      rw [← ready.tracks] at early
      have ascend := Buffer.cells_ascend state.list.buffer ready.sound.buffer other pos first
        (by omega) last
      have id : (state.list.buffer.cell pos).id = lock.id := by
        change (state.list.buffer.cell pos).lock = some lock at named
        simp [Entry.id, named]
      rwa [id] at ascend

theorem ready_start (list : CurrentList) (store : Store) (sound : list.Sound ids) :
    (start list store).Ready ids :=
  ⟨sound, rfl⟩

def OnlyRaces (outcome : Outcome Unit) : Prop := ∀ fault, outcome = .fault fault → fault = .raceAbort

theorem await_only_races (state : Acquisition) (pos : Nat) (lock : LockRef) :
    OnlyRaces (state.await pos lock).1 := by
  rw [await]
  cases (state.called (.await lock.id)).store.take lock .writer <;> exact fun _ same => by cases same

theorem tries_only_race (state : Acquisition) (pos : Nat) (lock : LockRef) :
    OnlyRaces (state.tryExclusive pos lock).1 ∧ OnlyRaces (state.tryShared pos lock).1 := by
  rw [tryExclusive, tryShared]
  constructor
  · cases state.store.take lock .writer <;> exact fun _ same => by cases same <;> rfl
  · cases state.store.take lock .reader <;> exact fun _ same => by cases same <;> rfl

theorem upgrade_only_races (state : Acquisition) (pos : Nat) (lock : LockRef) (handle : Handle) :
    OnlyRaces (state.tryUpgrade pos lock handle).1 := by
  rw [tryUpgrade]
  generalize require state _ _ = checked
  cases checked.store.upgrade lock <;> exact fun _ same => by cases same <;> rfl

theorem step_only_races (state : Acquisition) (pos : Nat) : OnlyRaces (state.step pos).1 := by
  rw [step]
  split
  · exact fun _ same => by cases same
  · split
    · exact fun _ same => by cases same
    · split
      · exact await_only_races _ pos _
      · split
        · exact upgrade_only_races state pos _ _
        · split
          · exact (tries_only_race state pos _).1
          · exact (tries_only_race state pos _).2

theorem steps_only_race (state : Acquisition) (pos count : Nat) :
    OnlyRaces (steps pos count state).1 := by
  induction count generalizing state pos with
  | zero => exact fun _ same => by cases same
  | succ count ih =>
      have step := step_only_races state pos
      rw [steps]
      generalize state.step pos = result at step
      obtain ⟨outcome, next⟩ := result
      cases outcome with
      | ok done => exact ih next (pos + 1)
      | fault why => exact step
      | misuse why => exact step
      | waiting id => exact step

theorem steps_keeps (count : Nat) (state : Acquisition) (ready : state.Ready ids) (pos : Nat)
    (first : 0 < pos) (last : pos + count ≤ state.list.buffer.active + 1) :
    (steps pos count state).2.Ready ids ∧
      CurrentList.Keeps ids state.list state.store (steps pos count state).2.list
        (steps pos count state).2.store ∧
      ∀ id, (steps pos count state).1 = .waiting id →
        ∀ entry ∈ (steps pos count state).2.list.entries, entry.isLocked = true → entry.id < id := by
  induction count generalizing state pos with
  | zero => exact ⟨ready, CurrentList.keeps_refl ready.sound, fun id waits => by cases waits⟩
  | succ count ih =>
      have stepped := step_cases state ready pos first (by omega)
      unfold steps
      generalize state.step pos = result at stepped
      obtain ⟨outcome, next⟩ := result
      simp only at stepped
      obtain ⟨nextReady, keeps⟩ := stepped.keeps ready first (by omega)
      cases outcome with
      | ok value =>
          have active := stepped.active
          obtain ⟨lastReady, later, rest⟩ := ih next nextReady (pos + 1) (by omega) (by omega)
          exact ⟨lastReady, keeps.trans later, rest⟩
      | fault fault => exact ⟨nextReady, keeps, fun id waits => by cases waits⟩
      | misuse misuse => exact ⟨nextReady, keeps, fun id waits => by cases waits⟩
      | waiting id =>
          refine ⟨nextReady, keeps, fun other waits => ?_⟩
          cases waits
          exact stepped.waits_behind ready (by omega)

end Acquisition

namespace CurrentList

variable {ids : List UInt64}

structure Acquires (ids : List UInt64) (list : CurrentList) (store : Store)
    (result : Outcome Unit × CurrentList × Store) : Prop where
  keeps : Keeps ids list store result.2.1 result.2.2
  behind : ∀ id, result.1 = .waiting id →
    ∀ entry ∈ result.2.1.entries, entry.isLocked = true → entry.id < id

theorem acquire_at_acquires (list : CurrentList) (sound : list.Sound ids) (pos : Nat)
    (store : Store) : Acquires ids list store (list.acquireAt pos store) := by
  unfold acquireAt
  split
  · rename_i inside
    obtain ⟨first, last⟩ : 0 < pos ∧ pos ≤ list.buffer.active := by
      simpa [Buffer.holds] using inside
    have ready := Acquisition.ready_start list store sound
    have stepped := Acquisition.step_cases _ ready pos first last
    refine ⟨(stepped.keeps ready first last).2, fun id waits => ?_⟩
    simp only at waits
    rw [waits] at stepped
    exact stepped.waits_behind ready last
  · exact ⟨keeps_refl sound, fun id waits => by cases waits⟩

theorem acquire_through_acquires (list : CurrentList) (sound : list.Sound ids) (last : Nat)
    (store : Store) : Acquires ids list store (list.acquireThrough last store) := by
  unfold acquireThrough
  split
  · rename_i inside
    obtain ⟨first, bound⟩ : 0 < last ∧ last ≤ list.buffer.active := by
      simpa [Buffer.holds] using inside
    obtain ⟨_, keeps, behind⟩ := Acquisition.steps_keeps last (.start list store)
      (Acquisition.ready_start list store sound) 1 (by omega) (by
        change 1 + last ≤ list.buffer.active + 1
        omega)
    exact ⟨keeps, behind⟩
  · exact ⟨keeps_refl sound, fun id waits => by cases waits⟩

theorem acquire_through_only_races (list : CurrentList) (last : Nat) (store : Store) :
    Acquisition.OnlyRaces (list.acquireThrough last store).1 := by
  rw [acquireThrough]
  split
  · exact Acquisition.steps_only_race _ 1 last
  · exact fun _ same => by cases same

end CurrentList

end LockOrder
