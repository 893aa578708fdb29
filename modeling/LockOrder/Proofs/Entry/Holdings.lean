import LockOrder.Entry
import LockOrder.Proofs.Store.Accounts

set_option autoImplicit false

namespace LockOrder

def Handle.mode : Handle → Mode
  | .reader => .shared
  | .writer => .exclusive

def Mode.handle : Mode → Option Handle
  | .unlocked => none
  | .shared => some .reader
  | .exclusive => some .writer

theorem Handle.handle_mode (kind : Handle) : kind.mode.handle = some kind := by
  cases kind <;> rfl

theorem Mode.handle_eq_some_iff (mode : Mode) (kind : Handle) :
    mode.handle = some kind ↔ mode = kind.mode := by
  cases mode <;> cases kind <;> simp [handle, Handle.mode]

namespace Entry

structure Sound (ids : List UInt64) (entry : Entry) : Prop where
  listed : ∃ lock, entry.lock = some lock ∧ lock.On ids
  handled : entry.handle = entry.taken.handle

def owns (entry : Entry) (slot : Nat) (kind : Handle) : Bool :=
  decide (entry.lock.map LockRef.slot = some slot ∧ entry.taken = kind.mode ∧
    entry.handle = some kind)

def tally (entries : List Entry) : Tally := fun slot kind => entries.countP (·.owns slot kind)

theorem handle_of_locked {ids : List UInt64} {entry : Entry} (sound : entry.Sound ids)
    (locked : entry.isLocked = true) : ∃ kind, entry.handle = some kind ∧ entry.taken = kind.mode := by
  rw [sound.handled]
  cases taken : entry.taken with
  | unlocked => simp [isLocked, taken] at locked
  | shared => exact ⟨.reader, rfl, rfl⟩
  | exclusive => exact ⟨.writer, rfl, rfl⟩

theorem handle_of_unlocked {ids : List UInt64} {entry : Entry} (sound : entry.Sound ids)
    (unlocked : entry.isLocked = false) : entry.handle = none := by
  rw [sound.handled]
  cases taken : entry.taken with
  | unlocked => rfl
  | shared => simp [isLocked, taken] at unlocked
  | exclusive => simp [isLocked, taken] at unlocked

theorem sound_fresh (ids : List UInt64) (lock : LockRef) (mode : Mode) (on : lock.On ids) :
    (fresh lock mode).Sound ids :=
  ⟨⟨lock, rfl, on⟩, rfl⟩

theorem sound_prefer (ids : List UInt64) (entry : Entry) (mode : Mode) (sound : entry.Sound ids) :
    (entry.prefer mode).Sound ids :=
  ⟨sound.listed, sound.handled⟩

theorem prefer_wants (entry : Entry) (mode : Mode) (wants : entry.preferred ≠ .unlocked) :
    (entry.prefer mode).preferred ≠ .unlocked := by
  intro none
  have rank := Mode.rank_max entry.preferred mode
  change (entry.prefer mode).preferred.rank = _ at rank
  rw [none] at rank
  refine wants (Mode.rank_injective ?_)
  simp only [Mode.rank] at rank ⊢
  omega

theorem sound_took (ids : List UInt64) (entry : Entry) (kind : Handle) (sound : entry.Sound ids) :
    (entry.took kind.mode kind).Sound ids :=
  ⟨sound.listed, kind.handle_mode.symm⟩

theorem sound_freed (ids : List UInt64) (entry : Entry) (sound : entry.Sound ids) :
    entry.freed.Sound ids :=
  ⟨sound.listed, rfl⟩

theorem sound_give_up (ids : List UInt64) (entry : Entry) (sound : entry.Sound ids) :
    entry.giveUp.Sound ids := by
  unfold giveUp
  split
  · exact sound
  · exact ⟨sound.listed, sound.handled⟩

@[simp] theorem owns_fresh (lock : LockRef) (mode : Mode) (slot : Nat) (kind : Handle) :
    (fresh lock mode).owns slot kind = false := by
  simp [owns, fresh]

@[simp] theorem owns_prefer (entry : Entry) (mode : Mode) (slot : Nat) (kind : Handle) :
    (entry.prefer mode).owns slot kind = entry.owns slot kind := rfl

@[simp] theorem owns_give_up (entry : Entry) (slot : Nat) (kind : Handle) :
    entry.giveUp.owns slot kind = entry.owns slot kind := by
  unfold giveUp
  split <;> rfl

@[simp] theorem owns_freed (entry : Entry) (slot : Nat) (kind : Handle) :
    entry.freed.owns slot kind = false := by
  simp [owns, freed]

theorem owns_of_unlocked (entry : Entry) (slot : Nat) (kind : Handle)
    (unlocked : entry.taken = .unlocked) : entry.owns slot kind = false := by
  cases kind <;> simp [owns, unlocked, Handle.mode]

theorem owns_took (entry : Entry) (lock : LockRef) (named : entry.lock = some lock)
    (held kind : Handle) (slot : Nat) :
    (entry.took held.mode held).owns slot kind = decide (slot = lock.slot ∧ kind = held) := by
  rw [owns, decide_eq_decide]
  cases held <;> cases kind <;> simp [took, named, Handle.mode, eq_comm]

theorem tally_cons (entry : Entry) (rest : List Entry) (slot : Nat) (kind : Handle) :
    tally (entry :: rest) slot kind = tally rest slot kind + (entry.owns slot kind).toNat := by
  cases owned : entry.owns slot kind <;> simp [tally, owned]

theorem tally_append (a b : List Entry) (slot : Nat) (kind : Handle) :
    tally (a ++ b) slot kind = tally a slot kind + tally b slot kind := by
  simp [tally, List.countP_append]

theorem tally_map (f : Entry → Entry) (entries : List Entry)
    (same : ∀ entry slot kind, (f entry).owns slot kind = entry.owns slot kind) (slot : Nat)
    (kind : Handle) : tally (entries.map f) slot kind = tally entries slot kind := by
  simp [tally, List.countP_map, Function.comp_def, same]

theorem tally_of_owns_nothing (entries : List Entry)
    (nothing : ∀ entry ∈ entries, ∀ slot kind, entry.owns slot kind = false) (slot : Nat)
    (kind : Handle) : tally entries slot kind = 0 := by
  rw [tally, List.countP_eq_zero]
  intro entry listed
  simp [nothing entry listed slot kind]

theorem tally_of_unlocked (entries : List Entry)
    (unlocked : ∀ entry ∈ entries, entry.isLocked = false) (slot : Nat) (kind : Handle) :
    tally entries slot kind = 0 := by
  refine tally_of_owns_nothing entries (fun entry listed slot kind => ?_) slot kind
  exact owns_of_unlocked entry slot kind (by simpa [isLocked] using unlocked entry listed)

theorem tally_set (entries : List Entry) (index : Nat) (old new : Entry)
    (here : entries[index]? = some old) (slot : Nat) (kind : Handle) :
    tally (entries.set index new) slot kind + (old.owns slot kind).toNat =
      tally entries slot kind + (new.owns slot kind).toNat := by
  induction entries generalizing index with
  | nil => simp at here
  | cons entry rest ih =>
      cases index with
      | zero =>
          obtain rfl : entry = old := by simpa using here
          rw [List.set_cons_zero, tally_cons, tally_cons]
          omega
      | succ index =>
          have step := ih index (by simpa using here)
          rw [List.set_cons_succ, tally_cons, tally_cons]
          omega

theorem tally_took (entries : List Entry) (index : Nat) (entry : Entry) (lock : LockRef)
    (held : Handle) (here : entries[index]? = some entry) (named : entry.lock = some lock)
    (unlocked : entry.taken = .unlocked) (slot : Nat) (kind : Handle) :
    tally (entries.set index (entry.took held.mode held)) slot kind =
      (tally entries).oneMore lock.slot held slot kind := by
  have count := tally_set entries index entry (entry.took held.mode held) here slot kind
  rw [owns_of_unlocked entry slot kind unlocked, owns_took entry lock named] at count
  rw [Tally.one_more_apply]
  by_cases own : slot = lock.slot ∧ kind = held
  · simpa [own] using count
  · simpa [own] using count

theorem tally_held (ids : List UInt64) (entries : List Entry) (index : Nat) (entry : Entry)
    (lock : LockRef) (held : Handle) (here : entries[index]? = some entry)
    (named : entry.lock = some lock) (sound : entry.Sound ids) (handle : entry.handle = some held)
    (slot : Nat) (kind : Handle) :
    tally entries slot kind =
      (tally (entries.set index entry.freed)).oneMore lock.slot held slot kind := by
  have mode : entry.taken = held.mode :=
    (entry.taken.handle_eq_some_iff held).mp (sound.handled.symm.trans handle)
  have again : entry.freed.took held.mode held = entry := by
    rw [took, freed, ← mode, ← handle]
  obtain ⟨inside, value⟩ := List.getElem?_eq_some_iff.mp here
  have whole : (entries.set index entry.freed).set index entry = entries := by
    rw [List.set_set, ← value, List.set_getElem_self]
  have count := tally_took (entries.set index entry.freed) index entry.freed lock held
    (by simp [inside]) named rfl slot kind
  rwa [again, whole] at count

end Entry

-- Whatever accounts for the first entries and for anything else, does so for the others afterwards.
def Conserves (entries : List Entry) (store : Store) (after : List Entry) (next : Store) : Prop :=
  Balanced (Entry.tally entries) store (Entry.tally after) next

namespace Conserves

variable {entries after last : List Entry} {store next final : Store}

theorem of_tally (same : ∀ slot kind, Entry.tally after slot kind = Entry.tally entries slot kind) :
    Conserves entries store after store := by
  intro rest accounts
  refine Store.accounts_congr accounts fun slot kind => ?_
  simp [Tally.plus, same]

theorem refl : Conserves entries store entries store := Balanced.refl

theorem trans (first : Conserves entries store after next) (second : Conserves after next last final) :
    Conserves entries store last final :=
  Balanced.trans first second

theorem take (index : Nat) (entry : Entry) (lock : LockRef) (kind : Handle)
    (here : entries[index]? = some entry) (named : entry.lock = some lock)
    (unlocked : entry.taken = .unlocked) (taken : store.take lock kind = some next) :
    Conserves entries store (entries.set index (entry.took kind.mode kind)) next := by
  intro rest accounts
  refine Store.accounts_congr (Store.accounts_take store next lock kind _ accounts taken) ?_
  intro slot which
  rw [Tally.plus, Entry.tally_took entries index entry lock kind here named unlocked,
    Tally.one_more_apply, Tally.one_more_apply, Tally.plus, Nat.add_assoc]

theorem upgrade (ids : List UInt64) (index : Nat) (entry : Entry) (lock : LockRef)
    (here : entries[index]? = some entry) (named : entry.lock = some lock) (sound : entry.Sound ids)
    (shared : entry.taken = .shared) (raised : store.upgrade lock = some next) :
    Conserves entries store (entries.set index (entry.took .exclusive .writer)) next := by
  intro rest accounts
  have handle : entry.handle = some .reader := by rw [sound.handled, shared]; rfl
  have inside : index < entries.length := (List.getElem?_eq_some_iff.mp here).1
  have before : store.Accounts (Tally.oneMore
      (rest.plus (Entry.tally (entries.set index entry.freed))) lock.slot .reader) := by
    refine Store.accounts_congr accounts fun slot kind => ?_
    rw [Tally.plus, Entry.tally_held ids entries index entry lock .reader here named sound handle,
      Tally.one_more_apply, Tally.one_more_apply, Tally.plus, Nat.add_assoc]
  refine Store.accounts_congr (Store.accounts_upgrade store next lock _ before raised) ?_
  intro slot kind
  have count := Entry.tally_took (entries.set index entry.freed) index entry.freed lock .writer
    (by simp [inside]) named rfl slot kind
  rw [List.set_set] at count
  rw [Tally.plus, Tally.one_more_apply, Tally.plus, Nat.add_assoc, ← Tally.one_more_apply, ← count]
  rfl

end Conserves

end LockOrder
