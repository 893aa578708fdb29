import LockOrder.Proofs.CurrentList.Merge
import LockOrder.Proofs.CurrentList.Release
import LockOrder.Proofs.CurrentList.Resume

set_option autoImplicit false

namespace LockOrder

-- The records, and the handles that everybody else has.
structure World where
  store : Store
  others : Tally

-- What others may do. All that they have to keep is what they do not have.
structure World.Fair (world after : World) : Prop where
  ids : after.store.ids = world.store.ids
  balanced : Balanced world.others world.store after.others after.store

theorem World.fair_refl (world : World) : world.Fair world := ⟨rfl, .refl⟩

theorem World.Fair.accounts {world after : World} (fair : world.Fair after) {own : Tally}
    (before : world.store.Accounts (world.others.plus own)) :
    after.store.Accounts (after.others.plus own) := by
  have swap : ∀ (a b : Tally) slot kind, a.plus b slot kind = b.plus a slot kind := fun a b slot kind =>
    Nat.add_comm _ _
  have kept := fair.balanced own (Store.accounts_congr before (swap _ _))
  exact Store.accounts_congr kept (swap _ _)

variable {ids : List UInt64}

theorem Entry.holds_lock {entries : List Entry} {world : World} {entry : Entry} {lock : LockRef}
    {handle : Handle} (named : world.store.ids = ids)
    (accounts : world.store.Accounts (world.others.plus (Entry.tally entries)))
    (listed : entry ∈ entries) (sound : entry.Sound ids) (own : entry.lock = some lock)
    (has : entry.handle = some handle) : (world.store.word lock).isHeldBy handle = true := by
  have mode : entry.taken = handle.mode :=
    (entry.taken.handle_eq_some_iff handle).mp (sound.handled.symm.trans has)
  have some : 0 < Entry.tally entries lock.slot handle :=
    List.countP_pos_iff.mpr ⟨entry, listed, by simp [owns, own, mode, has]⟩
  obtain ⟨other, same, on⟩ := sound.listed
  cases own.symm.trans same
  have inside : lock.slot < world.store.records.size := on.inside named
  exact (accounts lock.slot inside).held_by (Nat.lt_of_lt_of_le some (Nat.le_add_left _ _))

theorem Entry.exclusive_of_enough {entry : Entry} (enough : entry.isEnough = true)
    (wish : entry.preferred = .exclusive) : entry.taken = .exclusive := by
  rw [isEnough, wish, Mode.covers_iff] at enough
  cases taken : entry.taken with
  | exclusive => rfl
  | unlocked => simp [taken, Mode.rank] at enough
  | shared => simp [taken, Mode.rank] at enough

namespace CurrentList

variable {list after : CurrentList} {world next : World}

structure InOrder (ids : List UInt64) (list : CurrentList) (world : World) : Prop where
  sound : list.Sound ids
  named : world.store.ids = ids
  accounts : world.store.Accounts (world.others.plus (Entry.tally list.entries))
  clean : list.breaches = #[]

theorem InOrder.fair (ordered : list.InOrder ids world) (fair : world.Fair next) :
    list.InOrder ids next where
  sound := ordered.sound
  named := fair.ids.trans ordered.named
  accounts := fair.accounts ordered.accounts
  clean := ordered.clean

theorem InOrder.keeps {store next : Store} {others : Tally}
    (ordered : list.InOrder ids ⟨store, others⟩) (keeps : Keeps ids list store after next)
    (same : after.breaches = list.breaches) : after.InOrder ids ⟨next, others⟩ where
  sound := keeps.sound
  named := (Store.ids_of_bare keeps.bare).trans ordered.named
  accounts := keeps.conserves others ordered.accounts
  clean := same.trans ordered.clean

theorem breaches_get_or_add {lock : LockRef} {mode : Mode} {pos : Nat}
    (added : list.getOrAdd lock mode = .ok (pos, after)) : after.breaches = list.breaches := by
  unfold getOrAdd at added
  simp only at added
  split at added <;> cases added
  rfl

theorem breaches_merge_writes {writes : List WriteAccess}
    (merged : list.mergeWrites writes = .ok after) : after.breaches = list.breaches := by
  unfold mergeWrites at merged
  simp only at merged
  split at merged <;> cases merged
  rfl

theorem breaches_seed {retro : RetroList} (seeded : list.seed retro = .ok after) :
    after.breaches = list.breaches := by
  unfold seed at seeded
  split at seeded
  · cases seeded
  · split at seeded <;> cases seeded
    rfl

end CurrentList

namespace Acquisition

variable {state next : Acquisition} {others : Tally} {pos count : Nat} {outcome : Outcome Unit}

structure InOrder (ids : List UInt64) (others : Tally) (state : Acquisition) : Prop where
  ready : state.Ready ids
  around : state.list.InOrder ids ⟨state.store, others⟩

theorem InOrder.checked (ordered : state.InOrder ids others) (first : 0 < pos)
    (last : pos ≤ state.list.buffer.active) (lock : LockRef) (named : (state.cell pos).lock = some lock)
    (shared : (state.cell pos).taken = .shared) : state.checked lock = state := by
  have sound := ordered.ready.sound
  have listed := Buffer.cell_mem_entries _ sound.buffer.room pos first last
  have own := sound.entries _ listed
  have has : (state.cell pos).handle = some .reader := by
    rw [show (state.cell pos).handle = (state.cell pos).taken.handle from own.handled, shared]
    rfl
  have held : (state.store.word lock).isHeldBy .reader = true :=
    Entry.holds_lock ordered.around.named ordered.around.accounts listed own named has
  rw [Acquisition.checked, require, CurrentList.require, if_pos held]

theorem Stepped.clean (stepped : Stepped pos state outcome next) (ordered : state.InOrder ids others)
    (first : 0 < pos) (last : pos ≤ state.list.buffer.active) :
    next.list.breaches = state.list.breaches := by
  cases stepped with
  | upgraded lock store named shared wants ahead raised =>
      rw [ordered.checked first last lock named shared]
      rfl
  | shareKept lock named shared wants ahead refused =>
      rw [ordered.checked first last lock named shared]
      rfl
  | _ => rfl

theorem Stepped.in_order (stepped : Stepped pos state outcome next)
    (ordered : state.InOrder ids others) (first : 0 < pos) (last : pos ≤ state.list.buffer.active) :
    next.InOrder ids others := by
  obtain ⟨ready, keeps⟩ := stepped.keeps ordered.ready first last
  exact ⟨ready, ordered.around.keeps keeps (stepped.clean ordered first last)⟩

theorem wants_took (mid : Acquisition) (mode : Mode) (handle : Handle) (store : Store)
    (same : mid.list.buffer = state.list.buffer) (room : pos < state.list.buffer.cells.size)
    (other : Nat) :
    ((mid.took pos mode handle store).cell other).lock = (state.cell other).lock ∧
      ((mid.took pos mode handle store).cell other).preferred = (state.cell other).preferred := by
  have cell : (mid.took pos mode handle store).cell other =
      if other = pos then (state.cell pos).took mode handle else state.cell other := by
    change (mid.list.buffer.set pos ((mid.list.buffer.cell pos).took mode handle)).cell other = _
    rw [same]
    exact Buffer.cell_set _ _ _ _ room
  rw [cell]
  by_cases here : other = pos
  · rw [if_pos here, here]
    exact ⟨rfl, rfl⟩
  · rw [if_neg here]
    exact ⟨rfl, rfl⟩

theorem Stepped.wants (stepped : Stepped pos state outcome next)
    (room : pos < state.list.buffer.cells.size) (other : Nat) :
    (next.cell other).lock = (state.cell other).lock ∧
      (next.cell other).preferred = (state.cell other).preferred := by
  cases stepped with
  | awaited lock store named short unlocked behind taken =>
      exact wants_took (state.called _) .exclusive .writer store rfl room other
  | tried lock kind store named short unlocked ahead wanted taken =>
      exact wants_took (state.called _) kind.mode kind store rfl room other
  | upgraded lock store named shared wants ahead raised =>
      exact wants_took _ .exclusive .writer store (checked_buffer state lock) room other
  | shareKept lock named shared wants ahead refused =>
      have same := congrArg (fun buffer => buffer.cell other) (checked_buffer state lock)
      exact ⟨congrArg Entry.lock same, congrArg Entry.preferred same⟩
  | _ => exact ⟨rfl, rfl⟩

-- Takes `count` locks from `pos` on while others act before every single one, and stops at the first
-- one that it does not get.
inductive Among : Nat → Nat → Tally → Acquisition → Outcome Unit → Tally → Acquisition → Prop where
  | done (pos : Nat) (others : Tally) (state : Acquisition) :
      Among pos 0 others state (.ok ()) others state
  | got {pos count : Nat} {others last : Tally} {state mid final : Acquisition} {world : World}
      {outcome : Outcome Unit} (fair : World.Fair ⟨state.store, others⟩ world)
      (step : step pos { state with store := world.store } = (.ok (), mid))
      (rest : Among (pos + 1) count world.others mid outcome last final) :
      Among pos (count + 1) others state outcome last final
  | stopped {pos count : Nat} {others : Tally} {state final : Acquisition} {world : World}
      {outcome : Outcome Unit} (fair : World.Fair ⟨state.store, others⟩ world)
      (step : step pos { state with store := world.store } = (outcome, final))
      (missed : outcome ≠ .ok ()) :
      Among pos (count + 1) others state outcome world.others final

theorem steps_among (pos count : Nat) (others : Tally) (state : Acquisition) :
    Among pos count others state (steps pos count state).1 others (steps pos count state).2 := by
  induction count generalizing pos state with
  | zero => exact .done pos others state
  | succ count ih =>
      have fair := World.fair_refl ⟨state.store, others⟩
      rw [steps]
      cases taken : state.step pos with
      | mk outcome mid =>
          cases outcome with
          | ok _ => exact .got fair taken (ih (pos + 1) mid)
          | fault _ => exact .stopped fair taken fun won => by cases won
          | misuse _ => exact .stopped fair taken fun won => by cases won
          | waiting _ => exact .stopped fair taken fun won => by cases won

theorem InOrder.fair {world : World} (ordered : state.InOrder ids others)
    (fair : World.Fair ⟨state.store, others⟩ world) :
    InOrder ids world.others { state with store := world.store } :=
  ⟨⟨ordered.ready.sound, ordered.ready.tracks⟩, ordered.around.fair fair⟩

theorem InOrder.step_among {world : World} (ordered : state.InOrder ids others)
    (fair : World.Fair ⟨state.store, others⟩ world) (first : 0 < pos)
    (last : pos ≤ state.list.buffer.active)
    (step : step pos { state with store := world.store } = (outcome, next)) :
    Stepped pos { state with store := world.store } outcome next ∧ next.InOrder ids world.others := by
  have around := ordered.fair fair
  have stepped := step_cases { state with store := world.store } around.ready pos first last
  rw [step] at stepped
  exact ⟨stepped, stepped.in_order around first last⟩

structure Among.Ends (ids : List UInt64) (pos count : Nat) (state : Acquisition)
    (outcome : Outcome Unit) (last : Tally) (final : Acquisition) : Prop where
  ordered : final.InOrder ids last
  active : final.list.buffer.active = state.list.buffer.active
  wants : ∀ other, (final.cell other).lock = (state.cell other).lock ∧
    (final.cell other).preferred = (state.cell other).preferred
  before : ∀ other, other < pos → final.cell other = state.cell other
  enough : outcome = .ok () → ∀ other, pos ≤ other → other < pos + count →
    (final.cell other).isEnough = true

theorem Among.ends {last : Tally} {final : Acquisition}
    (among : Among pos count others state outcome last final) (ordered : state.InOrder ids others)
    (first : 0 < pos) (bound : pos + count ≤ state.list.buffer.active + 1) :
    Among.Ends ids pos count state outcome last final := by
  induction among with
  | done pos others state =>
      exact ⟨ordered, rfl, fun _ => ⟨rfl, rfl⟩, fun _ _ => rfl, fun _ => by omega⟩
  | @got pos count others last state mid final world outcome fair step rest ih =>
      have inside : pos ≤ state.list.buffer.active := by omega
      have room := Nat.lt_of_le_of_lt inside ordered.ready.sound.buffer.room
      obtain ⟨stepped, goes⟩ := ordered.step_among fair first inside step
      have active : mid.list.buffer.active = state.list.buffer.active := stepped.active
      obtain ⟨ends, same, wants, before, enough⟩ := ih goes (by omega) (by omega)
      refine ⟨ends, same.trans active, fun other => ?_, fun other less => ?_,
        fun won other least less => ?_⟩
      · have early := stepped.wants room other
        exact ⟨(wants other).1.trans early.1, (wants other).2.trans early.2⟩
      · exact (before other (by omega)).trans (stepped.elsewhere other (by omega))
      · by_cases here : other = pos
        · rw [here, before pos (by omega)]
          exact stepped.enough_after room
        · exact enough won other (by omega) (by omega)
  | @stopped pos count others state final world outcome fair step missed =>
      have inside : pos ≤ state.list.buffer.active := by omega
      have room := Nat.lt_of_le_of_lt inside ordered.ready.sound.buffer.room
      obtain ⟨stepped, goes⟩ := ordered.step_among fair first inside step
      exact ⟨goes, stepped.active, stepped.wants room,
        fun other less => stepped.elsewhere other (by omega), fun won => absurd won missed⟩

end Acquisition

namespace CurrentList

variable {list after gone : CurrentList} {world last : World} {entries : List Entry}

inductive GivesBack : List Entry → CurrentList → World → CurrentList → World → Prop where
  | done (list : CurrentList) (world : World) : GivesBack [] list world list world
  | gave {entry : Entry} {entries : List Entry} {list gone : CurrentList} {world mid last : World}
      (fair : world.Fair mid)
      (rest : GivesBack entries (giveBack (list, mid.store) entry).1
        ⟨(giveBack (list, mid.store) entry).2, mid.others⟩ gone last) :
      GivesBack (entry :: entries) list world gone last

theorem gives_back_alone (entries : List Entry) (list : CurrentList) (store : Store)
    (others : Tally) :
    GivesBack entries list ⟨store, others⟩ (entries.foldl giveBack (list, store)).1
      ⟨(entries.foldl giveBack (list, store)).2, others⟩ := by
  induction entries generalizing list store with
  | nil => exact .done list ⟨store, others⟩
  | cons entry entries ih => exact .gave (World.fair_refl _) (ih _ _)

structure StillGives (ids : List UInt64) (list : CurrentList) (entries : List Entry)
    (gone : CurrentList) (last : World) : Prop where
  same : gone.buffer = list.buffer
  clean : gone.breaches = list.breaches
  named : last.store.ids = ids
  accounts : last.store.Accounts (last.others.plus (Entry.tally entries))

theorem StillGives.fair {mid : World} (gives : StillGives ids list entries gone world)
    (fair : world.Fair mid) : StillGives ids list entries gone mid where
  same := gives.same
  clean := gives.clean
  named := fair.ids.trans gives.named
  accounts := fair.accounts gives.accounts

theorem StillGives.give_back {entry : Entry} {store : Store} {others : Tally}
    (gives : StillGives ids list (entry :: entries) gone ⟨store, others⟩) (own : entry.Sound ids) :
    StillGives ids list entries (giveBack (gone, store) entry).1
      ⟨(giveBack (gone, store) entry).2, others⟩ := by
  obtain ⟨same, clean, named, accounts⟩ := gives
  obtain ⟨lock, lock_eq, _⟩ := own.listed
  cases handle : entry.handle with
  | none =>
      have step : giveBack (gone, store) entry = (gone, store) := by simp [giveBack, handle]
      rw [step]
      refine ⟨same, clean, named, Store.accounts_congr accounts fun slot kind => ?_⟩
      rw [Tally.plus, Entry.tally_cons_free entry entries handle]
      rfl
  | some held =>
      have holds := Entry.holds_lock named accounts (by simp) own lock_eq handle
      have step : giveBack (gone, store) entry =
          (gone.called (.release lock.id held), store.release lock held) := by
        simp only [giveBack, handle, lock_eq, require]
        rw [if_pos holds]
      rw [step]
      refine ⟨same, clean, (Store.ids_of_bare (Store.bare_release store lock held)).trans named, ?_⟩
      apply Store.accounts_release
      refine Store.accounts_congr accounts fun slot kind => ?_
      rw [Tally.plus, Entry.tally_cons_held ids entry entries lock held lock_eq own handle,
        Tally.one_more_apply, Tally.one_more_apply, Tally.plus, Nat.add_assoc]

-- The entries still name what has been given back; what is left to give back is still held.
theorem GivesBack.ends {start : CurrentList} (given : GivesBack entries list world gone last)
    (sound : ∀ entry ∈ entries, entry.Sound ids) (gives : StillGives ids start entries list world) :
    StillGives ids start [] gone last := by
  induction given with
  | done list world => exact gives
  | gave fair rest ih =>
      have own := sound _ List.mem_cons_self
      exact ih (fun other listed => sound other (List.mem_cons_of_mem _ listed))
        ((gives.fair fair).give_back own)

def writeFreed (list : CurrentList) (pos : Nat) (entries : List Entry) : CurrentList :=
  { list with buffer := list.buffer.write pos (entries.map Entry.freed) }

inductive ReleasesAmong (list : CurrentList) (world : World) : CurrentList → World → Prop where
  | released (entries : List Entry) (gone : CurrentList) (last : World)
      (all : entries = list.buffer.entriesFrom (list.buffer.positionAfter 0))
      (gives : GivesBack entries list world gone last) :
      ReleasesAmong list world (gone.writeFreed (list.buffer.positionAfter 0) entries) last

theorem releases_alone (list : CurrentList) (store : Store) (others : Tally) :
    list.ReleasesAmong ⟨store, others⟩ (list.releaseAll store).1 ⟨(list.releaseAll store).2, others⟩ :=
  .released _ _ _ rfl (gives_back_alone _ list store others)

structure Released (ids : List UInt64) (list : CurrentList) (world : World) : Prop where
  ordered : list.InOrder ids world
  free : list.isHolding = false

theorem sound_write_freed (sound : list.Sound ids) (same : gone.buffer = list.buffer) :
    (gone.writeFreed 1 (list.buffer.entriesFrom 1)).Sound ids ∧
      (gone.writeFreed 1 (list.buffer.entriesFrom 1)).isHolding = false := by
  have room : 1 ≤ list.buffer.active + 1 := Nat.le_add_left 1 _
  have written : (gone.writeFreed 1 (list.buffer.entriesFrom 1)).buffer =
      list.buffer.write 1 ((list.buffer.entriesFrom 1).map Entry.freed) :=
    congrArg (fun buffer => Buffer.write buffer 1 _) same
  have entries : (gone.writeFreed 1 (list.buffer.entriesFrom 1)).entries = list.entries.map Entry.freed := by
    have entries := entries_write_from sound 1 Entry.freed Nat.one_pos room
    rw [CurrentList.entries, written]
    exact entries
  refine ⟨sound_write_from sound 1 Entry.freed Nat.one_pos room Entry.id_freed (Entry.sound_freed ids)
    written, ?_⟩
  rw [isHolding, entries]
  simp [Entry.isLocked, Entry.freed]

theorem InOrder.releases (ordered : list.InOrder ids world) (nonzero : 0 ∉ ids)
    (releases : list.ReleasesAmong world gone last) : Released ids gone last := by
  obtain ⟨listed, gone, last, all, gives⟩ := releases
  have sound := ordered.sound
  rw [position_after_zero sound nonzero] at all ⊢
  subst all
  obtain ⟨same, clean, named, accounts⟩ :=
    gives.ends sound.entries ⟨rfl, rfl, ordered.named, ordered.accounts⟩
  obtain ⟨kept, free⟩ := sound_write_freed sound same
  refine ⟨⟨kept, named, ?_, clean.trans ordered.clean⟩, free⟩
  refine Store.accounts_congr accounts fun slot kind => ?_
  rw [Tally.plus, Tally.plus, tally_of_free _ free]
  rfl

theorem InOrder.release_all {store : Store} {others : Tally}
    (ordered : list.InOrder ids ⟨store, others⟩) (nonzero : 0 ∉ ids) :
    (list.releaseAll store).1.breaches = #[] := by
  have released := ordered.releases nonzero (releases_alone list store others)
  exact released.ordered.clean

theorem InOrder.acquire_through {store : Store} {others : Tally}
    (ordered : list.InOrder ids ⟨store, others⟩) (through : Nat) :
    (list.acquireThrough through store).2.1.InOrder ids
      ⟨(list.acquireThrough through store).2.2, others⟩ := by
  rw [acquireThrough]
  by_cases inside : list.buffer.holds through = true
  · obtain ⟨_, bound⟩ : 0 < through ∧ through ≤ list.buffer.active := by
      simpa [Buffer.holds] using inside
    rw [if_pos inside]
    have among := Acquisition.steps_among 1 through others (.start list store)
    have ends := among.ends ⟨Acquisition.ready_start list store ordered.sound, ordered⟩
      Nat.one_pos (Nat.add_comm 1 through ▸ Nat.succ_le_succ bound)
    exact ends.ordered.around
  · rw [if_neg inside]
    exact ordered

theorem written_all (writes : List WriteAccess) :
    ∀ write ∈ writes, ∃ lock ∈ written writes, lock.id = write.id := by
  induction writes with
  | nil => simp
  | cons write rest ih =>
      intro other listed
      rw [written]
      rcases List.mem_cons.mp listed with rfl | later
      · cases written rest with
        | nil => exact ⟨other.lock, by simp, rfl⟩
        | cons next more =>
            simp only
            split <;> exact ⟨other.lock, by simp, rfl⟩
      · obtain ⟨lock, member, id⟩ := ih other later
        cases found : written rest with
        | nil => simp [found] at member
        | cons next more =>
            rw [found] at member
            simp only
            by_cases same : next.id = write.id
            · rw [if_pos same]
              rcases List.mem_cons.mp member with rfl | behind
              · exact ⟨write.lock, by simp, same.symm.trans id⟩
              · exact ⟨lock, by simp [behind], id⟩
            · rw [if_neg same]
              exact ⟨lock, List.mem_cons_of_mem _ member, id⟩

theorem merge_writes_wants (sound : list.Sound ids) (writes : List WriteAccess)
    (ordered : writes.Pairwise fun a b => a.id ≤ b.id) (merged : list.mergeWrites writes = .ok after) :
    ∀ write ∈ writes, ∃ entry ∈ after.entries, entry.id = write.id ∧ entry.preferred = .exclusive := by
  intro write listed
  obtain ⟨lock, member, id⟩ := written_all writes write listed
  obtain ⟨ascend, _⟩ := written_ascend writes ordered
  have perm := (merged_entries list.entries (written writes) sound.buffer.ascending ascend).1
  rw [(merge_writes_merges writes sound.buffer.room merged).entries]
  cases known : isListed list.entries lock with
  | true =>
      obtain ⟨entry, there, same⟩ := List.any_eq_true.mp known
      have named : entry.id = lock.id := beq_iff_eq.mp same
      have wanted : (written writes).any (fun lock => lock.id == entry.id) = true :=
        List.any_eq_true.mpr ⟨lock, member, by simp [named]⟩
      refine ⟨raised (written writes) entry, perm.mem_iff.mpr ?_, ?_, ?_⟩
      · exact List.mem_append_left _ (List.mem_map_of_mem there)
      · rw [id_raised, named, id]
      · rw [raised, if_pos wanted]
        cases wish : entry.preferred <;> simp only [Entry.prefer, wish] <;> rfl
  | false =>
      refine ⟨.fresh lock .exclusive, perm.mem_iff.mpr (List.mem_append_right _ ?_), id, rfl⟩
      exact List.mem_map_of_mem (List.mem_filter.mpr ⟨member, by simp [known]⟩)

end CurrentList

end LockOrder
