import LockOrder.Proofs.RwLock.Owners
import LockOrder.Proofs.Store.Bare

set_option autoImplicit false

namespace LockOrder

abbrev Tally := Nat → Handle → Nat

namespace Tally

def oneMore (tally : Tally) (slot : Nat) (kind : Handle) : Tally :=
  fun other => if other = slot then RwLock.oneMore (tally slot) kind else tally other

def plus (a b : Tally) : Tally := fun slot kind => a slot kind + b slot kind

theorem plus_assoc (a b c : Tally) : (a.plus b).plus c = a.plus (b.plus c) := by
  funext slot kind
  exact Nat.add_assoc _ _ _

theorem plus_comm (a b : Tally) : a.plus b = b.plus a := by
  funext slot kind
  exact Nat.add_comm _ _

theorem plus_right_comm (a b c : Tally) : (a.plus b).plus c = (a.plus c).plus b := by
  funext slot kind
  exact Nat.add_right_comm _ _ _

theorem plus_nothing (a b : Tally) (nothing : ∀ slot kind, b slot kind = 0) : a.plus b = a := by
  funext slot kind
  rw [plus, nothing]
  rfl

theorem nothing_plus (tally : Tally) : plus (fun _ _ => 0) tally = tally := by
  funext slot kind
  exact Nat.zero_add _

theorem one_more_apply (tally : Tally) (slot other : Nat) (kind which : Handle) :
    tally.oneMore slot kind other which =
      tally other which + if other = slot ∧ which = kind then 1 else 0 := by
  by_cases here : other = slot
  · subst here
    simp [oneMore, RwLock.oneMore]
  · simp [oneMore, here]

end Tally

namespace Store

def Accounts (store : Store) (tally : Tally) : Prop :=
  ∀ slot < store.records.size, (store.recordAt slot).lock.Counts (tally slot)

theorem accounts_congr {store : Store} {tally other : Tally} (accounts : store.Accounts tally)
    (same : ∀ slot kind, tally slot kind = other slot kind) : store.Accounts other :=
  fun slot inside => RwLock.counts_congr (accounts slot inside) (same slot)

-- Nobody else holds a lock in any way that somebody owns.
theorem accounts_alone {store : Store} {rest own : Tally} {slot : Nat}
    (accounts : store.Accounts (rest.plus own)) (inside : slot < store.records.size)
    (owns : 0 < own slot .writer) (kind : Handle) : rest slot kind = 0 := by
  rcases accounts slot inside with ⟨nobody, _, _⟩ | ⟨owner, readers, _⟩
  · rw [Tally.plus] at nobody
    omega
  · rw [Tally.plus] at owner readers
    cases kind <;> omega

-- And nobody else owns one that somebody holds.
theorem accounts_unowned {store : Store} {rest own : Tally} {slot : Nat} {kind : Handle}
    (accounts : store.Accounts (rest.plus own)) (inside : slot < store.records.size)
    (held : 0 < own slot kind) : rest slot .writer = 0 := by
  rcases accounts slot inside with ⟨nobody, _, _⟩ | ⟨owner, readers, _⟩
  · rw [Tally.plus] at nobody
    omega
  · rw [Tally.plus] at owner readers
    cases kind <;> omega

theorem record_at_set_word (store : Store) (lock : LockRef) (word : RwLock) (slot : Nat)
    (inside : slot < store.records.size) : ((store.setWord lock word).recordAt slot).lock =
      if slot = lock.slot then word else (store.recordAt slot).lock := by
  rw [setWord, record_at_put]
  by_cases here : slot = lock.slot
  · subst here
    simp [inside]
  · simp [here]

theorem bare_of_accounts {store : Store} {tally : Tally} (accounts : store.Accounts tally)
    (nothing : ∀ slot kind, tally slot kind = 0) : store.bare = store := by
  refine ext_records rfl (size_bare store) fun slot inside => ?_
  rw [size_bare] at inside
  have word : (store.recordAt slot).lock.word = 0 := by
    have readers := (accounts slot inside).readers (nothing slot .writer)
    rw [nothing] at readers
    exact UInt64.toNat_inj.mp readers
  rw [record_at_bare, Record.bare]
  generalize store.recordAt slot = record at word
  obtain ⟨id, ⟨lock⟩, version, hotness, value⟩ := record
  obtain rfl : lock = 0 := word
  rfl

theorem accounts_set_word (store : Store) (lock : LockRef) (word : RwLock) (tally next : Tally)
    (accounts : store.Accounts tally)
    (here : lock.slot < store.records.size → (store.word lock).Counts (tally lock.slot) →
      word.Counts (next lock.slot))
    (elsewhere : ∀ slot, slot ≠ lock.slot → ∀ kind, next slot kind = tally slot kind) :
    (store.setWord lock word).Accounts next := by
  intro slot inside
  have inside : slot < store.records.size := by simpa [setWord] using inside
  rw [record_at_set_word store lock word slot inside]
  by_cases same : slot = lock.slot
  · subst same
    simpa using here inside (accounts lock.slot inside)
  · rw [if_neg same]
    exact RwLock.counts_congr (accounts slot inside) fun kind => (elsewhere slot same kind).symm

theorem accounts_take (store next : Store) (lock : LockRef) (kind : Handle) (tally : Tally)
    (accounts : store.Accounts tally) (taken : store.take lock kind = some next) :
    next.Accounts (tally.oneMore lock.slot kind) := by
  obtain ⟨word, got, rfl⟩ := Option.map_eq_some_iff.mp taken
  refine accounts_set_word store lock word tally _ accounts ?_ ?_
  · intro _ counts
    simpa [Tally.oneMore] using RwLock.counts_take (store.word lock) word kind _ counts got
  · intro slot other kind
    simp [Tally.oneMore, other]

theorem accounts_upgrade (store next : Store) (lock : LockRef) (tally : Tally)
    (accounts : store.Accounts (tally.oneMore lock.slot .reader))
    (raised : store.upgrade lock = some next) :
    next.Accounts (tally.oneMore lock.slot .writer) := by
  obtain ⟨word, got, rfl⟩ := Option.map_eq_some_iff.mp raised
  refine accounts_set_word store lock word _ _ accounts ?_ ?_
  · intro _ counts
    simp only [Tally.oneMore, if_true] at counts ⊢
    exact RwLock.counts_upgrade (store.word lock) word _ counts got
  · intro slot other kind
    simp [Tally.oneMore, other]

theorem accounts_release (store : Store) (lock : LockRef) (kind : Handle) (tally : Tally)
    (accounts : store.Accounts (tally.oneMore lock.slot kind)) :
    (store.release lock kind).Accounts tally := by
  refine accounts_set_word store lock _ _ _ accounts ?_ ?_
  · intro _ counts
    simp only [Tally.oneMore, if_true] at counts
    exact RwLock.counts_release (store.word lock) kind _ counts
  · intro slot other kind
    simp [Tally.oneMore, other]

theorem accounts_put (store : Store) (slot : Nat) (record : Record) (tally : Tally)
    (same : record.lock = (store.recordAt slot).lock) (accounts : store.Accounts tally) :
    (store.put slot record).Accounts tally := by
  intro other inside
  have inside : other < store.records.size := by simpa using inside
  rw [record_at_put]
  split
  · rename_i here
    rw [same, ← here.1]
    exact accounts other inside
  · exact accounts other inside

theorem accounts_install (store : Store) (slot : Nat) (value : UInt64) (tally : Tally)
    (accounts : store.Accounts tally) : (store.install slot value).Accounts tally :=
  accounts_put store slot _ tally rfl accounts

theorem accounts_bump (store : Store) (slot : Nat) (tally : Tally)
    (accounts : store.Accounts tally) : (store.bump slot).Accounts tally :=
  accounts_put store slot ((store.recordAt slot).bump store.draws).1 tally rfl accounts

end Store

-- Whoever else holds locks, the accounts stay right when these handles turn into those.
def Balanced (held : Tally) (store : Store) (after : Tally) (next : Store) : Prop :=
  ∀ rest : Tally, store.Accounts (rest.plus held) → next.Accounts (rest.plus after)

namespace Balanced

variable {held after last : Tally} {store next final : Store}

theorem refl : Balanced held store held store := fun _ accounts => accounts

theorem trans (first : Balanced held store after next) (second : Balanced after next last final) :
    Balanced held store last final :=
  fun rest accounts => second rest (first rest accounts)

theorem congr {other : Tally} (balanced : Balanced held store after next)
    (same : ∀ slot kind, after slot kind = other slot kind) : Balanced held store other next := by
  intro rest accounts
  refine Store.accounts_congr (balanced rest accounts) fun slot kind => ?_
  rw [Tally.plus, Tally.plus, same]

theorem accounts (balanced : Balanced held store after next) (before : store.Accounts held) :
    next.Accounts after := by
  have alone := balanced fun _ _ => 0
  rw [Tally.nothing_plus, Tally.nothing_plus] at alone
  exact alone before

theorem frame (balanced : Balanced held store after next) (others : Tally) :
    Balanced (others.plus held) store (others.plus after) next := by
  intro rest accounts
  rw [← Tally.plus_assoc] at accounts ⊢
  exact balanced (rest.plus others) accounts

theorem frame_right (balanced : Balanced held store after next) (others : Tally) :
    Balanced (held.plus others) store (after.plus others) next := by
  rw [Tally.plus_comm held, Tally.plus_comm after]
  exact balanced.frame others

end Balanced

end LockOrder
