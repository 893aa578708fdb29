import LockOrder.RwLock

set_option autoImplicit false

namespace LockOrder

namespace RwLock

-- Readers share the lock and the word is their number, or one writer has all of it.
def Counts (lock : RwLock) (handles : Handle → Nat) : Prop :=
  (handles .writer = 0 ∧ lock.word.toNat = handles .reader ∧ handles .reader < exclusiveWord.toNat) ∨
    (handles .writer = 1 ∧ handles .reader = 0 ∧ lock.word = exclusiveWord)

def oneMore (handles : Handle → Nat) (kind : Handle) : Handle → Nat :=
  fun other => handles other + if other = kind then 1 else 0

theorem exclusive_word_next : exclusiveWord.toNat = fullWord.toNat + 1 := by decide

theorem counts_free : (⟨0⟩ : RwLock).Counts fun _ => 0 := by
  simp [Counts, exclusive_word_next]

theorem counts_of_free {lock : RwLock} (free : lock.isFree = true) : lock.Counts fun _ => 0 := by
  obtain ⟨word⟩ := lock
  obtain rfl : word = 0 := beq_iff_eq.mp free
  exact counts_free

theorem counts_congr {lock : RwLock} {handles others : Handle → Nat} (counts : lock.Counts handles)
    (same : ∀ kind, handles kind = others kind) : lock.Counts others := by
  simpa only [Counts, same] using counts

theorem Counts.readers {lock : RwLock} {handles : Handle → Nat} (counts : lock.Counts handles)
    (nobody : handles .writer = 0) : lock.word.toNat = handles .reader := by
  rcases counts with ⟨_, readers, _⟩ | ⟨owner, _, _⟩
  · exact readers
  · omega

theorem Counts.owner {lock : RwLock} {handles : Handle → Nat} (counts : lock.Counts handles)
    (locked : lock.isWriteLocked = true) : handles .writer = 1 := by
  rcases counts with ⟨_, readers, bound⟩ | ⟨owner, _, _⟩
  · have high := UInt64.le_iff_toNat_le.mp (of_decide_eq_true locked)
    omega
  · exact owner

theorem Counts.held_by {lock : RwLock} {handles : Handle → Nat} {kind : Handle}
    (counts : lock.Counts handles) (some : 0 < handles kind) : lock.isHeldBy kind = true := by
  rcases counts with ⟨nobody, readers, bound⟩ | ⟨_, alone, owned⟩
  · cases kind with
    | reader =>
        have shared : lock.word ≠ 0 := by
          intro free
          rw [free] at readers
          exact absurd readers (Nat.ne_of_lt some)
        have below : ¬ exclusiveWord ≤ lock.word := by
          rw [UInt64.le_iff_toNat_le, readers]
          exact Nat.not_le.mpr bound
        simp [isHeldBy, isWriteLocked, shared, below]
    | writer => exact absurd nobody (Nat.ne_of_gt some)
  · cases kind with
    | reader => exact absurd alone (Nat.ne_of_gt some)
    | writer => simp [isHeldBy, owned]

theorem write_locked_iff {lock : RwLock} {handles : Handle → Nat} (counts : lock.Counts handles) :
    lock.isWriteLocked = true ↔ handles .writer ≠ 0 := by
  constructor
  · intro locked
    rw [counts.owner locked]
    exact Nat.one_ne_zero
  · intro some
    have held := counts.held_by (Nat.pos_of_ne_zero some)
    rw [isHeldBy, beq_iff_eq] at held
    rw [isWriteLocked, held]
    decide

theorem take_free {lock : RwLock} (free : lock.word = 0) (kind : Handle) :
    (lock.take kind).isSome = true := by
  cases kind with
  | reader => simp [take, takeShared, isWriteLocked, free, exclusiveWord, fullWord]
  | writer => simp [take, takeExclusive, free]

theorem counts_take_exclusive (lock next : RwLock) (handles : Handle → Nat)
    (counts : lock.Counts handles) (taken : lock.takeExclusive = some next) :
    next.Counts (oneMore handles .writer) := by
  unfold takeExclusive at taken
  split at taken
  · rename_i free
    cases taken
    rcases counts with ⟨writers, readers, _⟩ | ⟨_, _, owned⟩
    · right
      simp [oneMore, writers, ← readers, free]
    · rw [free] at owned
      exact absurd owned (by decide)
  · cases taken

theorem counts_take_shared (lock next : RwLock) (handles : Handle → Nat)
    (counts : lock.Counts handles) (taken : lock.takeShared = some next) :
    next.Counts (oneMore handles .reader) := by
  unfold takeShared at taken
  split at taken
  · cases taken
  · rename_i notTaken
    simp only [isWriteLocked, Bool.or_eq_true, decide_eq_true_eq, beq_iff_eq, not_or] at notTaken
    obtain ⟨notOwned, notFull⟩ := notTaken
    cases taken
    rcases counts with ⟨writers, readers, bound⟩ | ⟨_, _, owned⟩
    · have below : lock.word.toNat ≠ fullWord.toNat := fun same =>
        notFull (UInt64.toNat_inj.mp same)
      have limit : fullWord.toNat = 9223372036854775807 := rfl
      rw [exclusive_word_next] at bound
      have next : (lock.word + 1).toNat = lock.word.toNat + 1 := by
        rw [UInt64.toNat_add]
        simp
        omega
      left
      rw [exclusive_word_next]
      simp [oneMore, writers, next]
      omega
    · exact absurd (by rw [owned]; decide) notOwned

theorem counts_take (lock next : RwLock) (kind : Handle) (handles : Handle → Nat)
    (counts : lock.Counts handles) (taken : lock.take kind = some next) :
    next.Counts (oneMore handles kind) := by
  cases kind with
  | reader => exact counts_take_shared lock next handles counts taken
  | writer => exact counts_take_exclusive lock next handles counts taken

theorem counts_upgrade (lock next : RwLock) (handles : Handle → Nat)
    (counts : lock.Counts (oneMore handles .reader)) (raised : lock.upgrade = some next) :
    next.Counts (oneMore handles .writer) := by
  unfold upgrade at raised
  split at raised
  · rename_i alone
    cases raised
    rcases counts with ⟨writers, readers, _⟩ | ⟨_, readers, _⟩
    · have one : handles .reader + 1 = 1 := by
        simpa [oneMore, alone] using readers.symm
      right
      simp only [oneMore] at writers ⊢
      simp at writers ⊢
      omega
    · simp [oneMore] at readers
  · cases raised

theorem counts_release (lock : RwLock) (kind : Handle) (handles : Handle → Nat)
    (counts : lock.Counts (oneMore handles kind)) : (lock.release kind).Counts handles := by
  cases kind with
  | reader =>
      rcases counts with ⟨writers, readers, bound⟩ | ⟨_, readers, _⟩
      · simp only [oneMore] at writers readers bound
        simp at writers readers bound
        have positive : (1 : UInt64) ≤ lock.word := by
          rw [UInt64.le_iff_toNat_le]
          simp
          omega
        have next : (lock.word - 1).toNat = handles .reader := by
          rw [UInt64.toNat_sub_of_le _ _ positive]
          simp
          omega
        left
        exact ⟨writers, next, by omega⟩
      · simp [oneMore] at readers
  | writer =>
      rcases counts with ⟨writers, _, _⟩ | ⟨writers, readers, _⟩
      · simp [oneMore] at writers
      · simp only [oneMore] at writers readers
        simp at writers readers
        left
        simp [release, writers, readers, exclusive_word_next]

end RwLock

end LockOrder
