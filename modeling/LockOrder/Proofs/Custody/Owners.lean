import LockOrder.Custody
import LockOrder.Proofs.RwLock.Owners

set_option autoImplicit false

namespace LockOrder

namespace RwLock

variable {lock next : RwLock} {handles : Handle → Nat} {kind : Handle}

-- As many tries as the budget allows, and one more. Nobody else acts in between.
def within (attempt : RwLock → Option RwLock) : Nat → RwLock → Option RwLock
  | 0, lock => attempt lock
  | spins + 1, lock =>
      match attempt lock with
      | some next => some next
      | none => within attempt spins lock

theorem within_eq (attempt : RwLock → Option RwLock) (spins : Nat) (lock : RwLock) :
    within attempt spins lock = attempt lock := by
  induction spins with
  | zero => rfl
  | succ spins ih =>
      rw [within]
      cases tried : attempt lock with
      | some next => rfl
      | none => exact ih.trans tried

theorem release_take (taken : lock.take kind = some next) : next.release kind = lock := by
  cases kind with
  | writer =>
      rw [take, takeExclusive] at taken
      split at taken
      · rename_i free
        cases taken
        exact congrArg RwLock.mk free.symm
      · cases taken
  | reader =>
      rw [take, takeShared] at taken
      split at taken
      · cases taken
      · cases taken
        exact congrArg RwLock.mk (UInt64.add_sub_cancel lock.word 1)

theorem Counts.word_eq_zero_iff (counts : lock.Counts handles) :
    lock.word = 0 ↔ ∀ kind, handles kind = 0 := by
  constructor
  · intro free kind
    have zero : lock.word.toNat = 0 := congrArg UInt64.toNat free
    rcases counts with ⟨nobody, readers, _⟩ | ⟨_, _, owned⟩
    · cases kind with
      | reader => exact readers.symm.trans zero
      | writer => exact nobody
    · rw [owned] at zero
      exact absurd zero (by decide)
  · intro nothing
    have zero := (counts.readers (nothing .writer)).trans (nothing .reader)
    exact UInt64.toNat_inj.mp zero

theorem Counts.free_iff (counts : lock.Counts handles) :
    lock.isFree = true ↔ ∀ kind, handles kind = 0 := by
  rw [isFree, beq_iff_eq]
  exact counts.word_eq_zero_iff

theorem Counts.nobody (counts : lock.Counts handles) (unlocked : ¬ lock.isWriteLocked = true) :
    handles .writer = 0 :=
  Decidable.byContradiction fun some => unlocked ((write_locked_iff counts).mpr some)

theorem Counts.readers_eq (counts : lock.Counts handles) : lock.readers.toNat = handles .reader := by
  rw [RwLock.readers]
  by_cases locked : lock.isWriteLocked = true
  · rw [if_pos locked]
    have some := (write_locked_iff counts).mp locked
    rcases counts with ⟨nobody, _, _⟩ | ⟨_, alone, _⟩
    · exact absurd nobody some
    · exact alone.symm
  · rw [if_neg locked]
    exact counts.readers (counts.nobody locked)

theorem Counts.take_exclusive_iff (counts : lock.Counts handles) :
    lock.takeExclusive.isSome = true ↔ ∀ kind, handles kind = 0 := by
  rw [takeExclusive, ← counts.word_eq_zero_iff]
  by_cases free : lock.word = 0
  · simp [free]
  · simp [free]

theorem Counts.take_shared_iff (counts : lock.Counts handles) :
    lock.takeShared.isSome = true ↔
      handles .writer = 0 ∧ handles .reader < fullWord.toNat := by
  rw [takeShared]
  by_cases locked : lock.isWriteLocked = true
  · have some := (write_locked_iff counts).mp locked
    simp [locked, some]
  · have nobody := counts.nobody locked
    have readers := counts.readers nobody
    have bound : handles .reader < exclusiveWord.toNat := by
      rcases counts with ⟨_, _, bound⟩ | ⟨owner, _, _⟩
      · exact bound
      · exact absurd owner (by omega)
    rw [exclusive_word_next] at bound
    have full : lock.word = fullWord ↔ handles .reader = fullWord.toNat := by
      rw [← readers]
      exact UInt64.toNat_inj.symm
    by_cases most : handles .reader = fullWord.toNat
    · simp [full.mpr most, most]
    · have apart : lock.word ≠ fullWord := fun same => most (full.mp same)
      simp [locked, apart, nobody]
      omega

theorem Counts.upgrade_iff (counts : lock.Counts handles) :
    lock.upgrade.isSome = true ↔ handles .writer = 0 ∧ handles .reader = 1 := by
  have one : lock.word = 1 ↔ handles .writer = 0 ∧ handles .reader = 1 := by
    rcases counts with ⟨nobody, readers, _⟩ | ⟨owner, _, owned⟩
    · rw [← UInt64.toNat_inj, readers]
      exact ⟨fun same => ⟨nobody, same⟩, fun both => both.2⟩
    · rw [owned, owner]
      simp [exclusiveWord]
  rw [upgrade, ← one]
  by_cases same : lock.word = 1
  · simp [same]
  · simp [same]

theorem Counts.shared_stays_below (counts : lock.Counts handles) (taken : lock.takeShared = some next) :
    next.word.toNat = lock.word.toNat + 1 ∧ next.word.toNat < exclusiveWord.toNat := by
  have granted := counts.take_shared_iff.mp (by rw [taken]; rfl)
  have after := counts_take_shared lock next handles counts taken
  have nobody : oneMore handles .reader .writer = 0 := granted.1
  have more : oneMore handles .reader .reader = handles .reader + 1 := rfl
  rw [after.readers nobody, counts.readers granted.1, more, exclusive_word_next]
  exact ⟨rfl, Nat.succ_lt_succ granted.2⟩

end RwLock

namespace Custody

def outstanding (custody : Custody) (kind : Handle) : Nat := custody.handles.toList.count (some kind)

def play (custody : Custody) (ops : List Op) : Custody :=
  ops.foldl (fun custody op => (custody.step op).2) custody

def Answer.isRefusal : Answer → Bool
  | .handle none | .blocked | .noHandle | .notUpgraded _ => true
  | _ => false

def Answer.isGrant : Answer → Bool
  | .handle (some _) | .upgraded _ | .released => true
  | _ => false

def Op.isOnLock : Op → Bool
  | .install _ | .read | .readLocked | .bump => false
  | _ => true

variable {custody : Custody} {index : Nat} {kind : Handle}

theorem outstanding_given (custody : Custody) (lock : RwLock) (kind : Handle) :
    (custody.given kind (some lock)).2.outstanding = RwLock.oneMore custody.outstanding kind := by
  funext other
  by_cases same : other = kind
  · subst same
    simp [given, outstanding, setLock, RwLock.oneMore]
  · simp [given, outstanding, setLock, RwLock.oneMore, same, Ne.symm same]

theorem handle_listed (here : custody.handleAt index = some kind) :
    ∃ inside : index < custody.handles.toList.length, custody.handles.toList[index] = some kind := by
  have inside : index < custody.handles.size := by
    refine Decidable.byContradiction fun beyond => ?_
    simp [handleAt, beyond] at here
  exact ⟨inside, by simpa [handleAt, inside] using here⟩

theorem outstanding_set (here : custody.handleAt index = some kind) (other : Option Handle)
    (record : Record) : ∃ rest, custody.outstanding = RwLock.oneMore rest kind ∧
      outstanding { custody with record, handles := custody.handles.setIfInBounds index other } =
        other.elim rest (RwLock.oneMore rest) := by
  obtain ⟨inside, listed⟩ := handle_listed here
  have counted : ∀ which : Option Handle, ((custody.handles.toList.set index other).count which) =
      custody.handles.toList.count which - (if some kind = which then 1 else 0) +
        if other = which then 1 else 0 := by
    intro which
    rw [List.count_set inside, listed]
    simp only [beq_iff_eq]
  have own : 0 < custody.handles.toList.count (some kind) :=
    List.count_pos_iff.mpr (listed ▸ List.getElem_mem inside)
  refine ⟨fun which => custody.outstanding which - if which = kind then 1 else 0, ?_, ?_⟩
  · funext which
    by_cases same : which = kind
    · subst same
      simp only [RwLock.oneMore, outstanding, if_true]
      omega
    · simp [RwLock.oneMore, same]
  · funext which
    simp only [outstanding, Array.toList_setIfInBounds, counted]
    cases other with
    | none => simp [eq_comm]
    | some more => simp [RwLock.oneMore, eq_comm]

theorem visited_eq (custody : Custody) (kind : Handle) : custody.visited kind = custody := by
  rw [visited]
  cases taken : custody.record.lock.take kind with
  | none => rfl
  | some lock =>
      simp only [RwLock.release_take taken]
      rfl

def OnlyLock (custody next : Custody) : Prop :=
  next = { custody.setLock next.record.lock with handles := next.handles }

structure Gives (custody : Custody) (kind : Handle) (next : Custody) : Prop where
  handles : next.handles = custody.handles.push (some kind)
  outstanding : next.outstanding = RwLock.oneMore custody.outstanding kind
  lock : custody.record.lock.take kind = some next.record.lock
  rest : custody.OnlyLock next

structure Raises (custody : Custody) (index : Nat) (next : Custody) : Prop where
  own : custody.handleAt index = some .reader
  handles : next.handles = custody.handles.setIfInBounds index (some .writer)
  outstanding : ∃ rest, custody.outstanding = RwLock.oneMore rest .reader ∧
    next.outstanding = RwLock.oneMore rest .writer
  lock : custody.record.lock.upgrade = some next.record.lock
  rest : custody.OnlyLock next

structure Returns (custody : Custody) (index : Nat) (next : Custody) : Prop where
  own : ∃ kind, custody.handleAt index = some kind ∧
    custody.outstanding = RwLock.oneMore next.outstanding kind ∧
    next.record.lock = custody.record.lock.release kind
  handles : next.handles = custody.handles.setIfInBounds index none
  rest : custody.OnlyLock next

theorem given_gives (kind : Handle) {granted : Option RwLock} (taken : custody.record.lock.take kind = granted)
    {other : Handle} (answer : (custody.given kind granted).1 = .handle (some other)) :
    other = kind ∧ custody.Gives kind (custody.given kind granted).2 := by
  cases granted with
  | none => cases answer
  | some lock =>
      cases answer
      exact ⟨rfl, rfl, outstanding_given custody lock kind, taken, rfl⟩

theorem await_gives (answer : custody.await.1 = .handle (some kind)) :
    custody.Gives kind custody.await.2 := by
  rw [Custody.await] at answer ⊢
  cases taken : custody.record.lock.takeExclusive with
  | none =>
      rw [taken] at answer
      cases answer
  | some lock =>
      rw [taken] at answer
      obtain ⟨rfl, gives⟩ := given_gives .writer taken answer
      exact gives

theorem step_gives (op : Op) (answer : (custody.step op).1 = .handle (some kind)) :
    custody.Gives kind (custody.step op).2 := by
  cases op with
  | await => exact await_gives answer
  | tryExclusive spins =>
      obtain ⟨rfl, gives⟩ := given_gives .writer rfl answer
      exact gives
  | tryShared spins =>
      obtain ⟨rfl, gives⟩ := given_gives .reader rfl answer
      exact gives
  | contend other =>
      rw [step, visited_eq] at answer ⊢
      exact await_gives answer
  | upgrade index spins =>
      simp only [step] at answer
      split at answer
      · cases answer
      · split at answer <;> cases answer
  | release index =>
      simp only [step] at answer
      split at answer <;> cases answer
  | read =>
      simp only [step, content] at answer
      split at answer <;> cases answer
  | _ => cases answer

def Counted (custody : Custody) : Prop := custody.record.lock.Counts custody.outstanding

theorem Counted.given (counted : custody.Counted) (kind : Handle) {granted : Option RwLock}
    (taken : custody.record.lock.take kind = granted) : (custody.given kind granted).2.Counted := by
  cases granted with
  | none => exact counted
  | some lock =>
      rw [Counted, outstanding_given]
      exact RwLock.counts_take _ lock kind _ counted taken

theorem Counted.await (counted : custody.Counted) : custody.await.2.Counted := by
  rw [Custody.await]
  cases taken : custody.record.lock.takeExclusive with
  | none => exact counted
  | some lock => exact counted.given .writer taken

theorem Counted.swap (counted : custody.Counted) (here : custody.handleAt index = some kind)
    (other : Option Handle) (lock : RwLock)
    (kept : ∀ rest, custody.record.lock.Counts (RwLock.oneMore rest kind) →
      lock.Counts (other.elim rest (RwLock.oneMore rest))) :
    Counted { custody.setLock lock with handles := custody.handles.setIfInBounds index other } := by
  obtain ⟨rest, before, after⟩ := outstanding_set here other (custody.setLock lock).record
  rw [Counted, before] at counted
  rw [Counted]
  exact after ▸ kept rest counted

theorem Counted.upgrade (counted : custody.Counted) (index : Nat) (spins : UInt32) :
    (custody.step (.upgrade index spins)).2.Counted := by
  rw [step]
  cases here : custody.handleAt index with
  | none => exact counted
  | some kind =>
      cases raised : custody.record.lock.upgrade with
      | none => exact counted
      | some lock =>
          refine counted.swap here (some .writer) lock fun rest before => ?_
          -- Nobody owns a lock that can be upgraded, so the handle is that of its only reader.
          have alone := before.upgrade_iff.mp (by rw [raised]; rfl)
          cases kind with
          | reader => exact RwLock.counts_upgrade _ lock rest before raised
          | writer => simp [RwLock.oneMore] at alone

theorem Counted.release (counted : custody.Counted) (index : Nat) :
    (custody.step (.release index)).2.Counted := by
  rw [step]
  cases here : custody.handleAt index with
  | none => exact counted
  | some kind => exact counted.swap here none _ fun rest => RwLock.counts_release _ kind rest

theorem Counted.step (counted : custody.Counted) (op : Op) : (custody.step op).2.Counted := by
  cases op with
  | await => exact counted.await
  | tryExclusive spins => exact counted.given .writer rfl
  | tryShared spins => exact counted.given .reader rfl
  | contend kind =>
      rw [Custody.step, visited_eq]
      exact counted.await
  | upgrade index spins => exact counted.upgrade index spins
  | release index => exact counted.release index
  | install value => exact counted
  | read => exact counted
  | readLocked => exact counted
  | bump => exact counted

theorem Counted.play (counted : custody.Counted) (ops : List Op) : (custody.play ops).Counted := by
  induction ops generalizing custody with
  | nil => exact counted
  | cons op ops ih => exact ih (counted.step op)

theorem step_raises (counted : custody.Counted) {spins : UInt32} {handle : Handle}
    (answer : (custody.step (.upgrade index spins)).1 = .upgraded handle) :
    handle = .writer ∧ custody.Raises index (custody.step (.upgrade index spins)).2 := by
  rw [Custody.step] at answer ⊢
  cases here : custody.handleAt index with
  | none =>
      rw [here] at answer
      cases answer
  | some kind =>
      cases raised : custody.record.lock.upgrade with
      | none =>
          rw [here, raised] at answer
          cases answer
      | some lock =>
          rw [here, raised] at answer
          cases answer
          obtain ⟨rest, before, after⟩ :=
            outstanding_set here (some .writer) (custody.setLock lock).record
          obtain ⟨nobody, _⟩ := (RwLock.Counts.upgrade_iff counted).mp (by rw [raised]; rfl)
          cases kind with
          | writer => simp [before, RwLock.oneMore] at nobody
          | reader => exact ⟨rfl, here, rfl, ⟨rest, before, after⟩, raised, rfl⟩

theorem step_returns (answer : (custody.step (.release index)).1 = .released) :
    custody.Returns index (custody.step (.release index)).2 := by
  rw [step] at answer ⊢
  cases here : custody.handleAt index with
  | none =>
      rw [here] at answer
      cases answer
  | some kind =>
      obtain ⟨rest, before, after⟩ := outstanding_set here none
        (custody.setLock (custody.record.lock.release kind)).record
      exact ⟨⟨kind, here, before.trans (congrArg (RwLock.oneMore · kind) after.symm), rfl⟩, rfl, rfl⟩

theorem released_iff (custody : Custody) (index : Nat) :
    (custody.step (.release index)).1 = .released ↔ (custody.handleAt index).isSome = true := by
  rw [step]
  cases custody.handleAt index <;> simp

theorem step_of_record (custody : Custody) (op : Op) (record : op.isOnLock = false) :
    (custody.step op).2.record.lock = custody.record.lock ∧
      (custody.step op).2.handles = custody.handles := by
  cases op with
  | install value => exact ⟨rfl, rfl⟩
  | read => exact ⟨rfl, rfl⟩
  | readLocked => exact ⟨rfl, rfl⟩
  | bump => exact ⟨rfl, rfl⟩
  | _ => cases record

theorem step_answers (custody : Custody) (op : Op) (lock : op.isOnLock = true) :
    (custody.step op).1.isRefusal = true ∨ (custody.step op).1.isGrant = true := by
  have given : ∀ kind granted, (custody.given kind granted).1.isRefusal = true ∨
      (custody.given kind granted).1.isGrant = true := by
    intro kind granted
    cases granted with
    | none => exact Or.inl rfl
    | some lock => exact Or.inr rfl
  have await : custody.await.1.isRefusal = true ∨ custody.await.1.isGrant = true := by
    rw [Custody.await]
    cases custody.record.lock.takeExclusive with
    | none => exact Or.inl rfl
    | some lock => exact Or.inr rfl
  cases op with
  | await => exact await
  | tryExclusive spins => exact given .writer _
  | tryShared spins => exact given .reader _
  | contend kind =>
      rw [step, visited_eq]
      exact await
  | upgrade index spins =>
      simp only [step]
      split
      · exact Or.inl rfl
      · split
        · exact Or.inl rfl
        · exact Or.inr rfl
  | release index =>
      simp only [step]
      split
      · exact Or.inl rfl
      · exact Or.inr rfl
  | _ => cases lock

theorem step_refused (custody : Custody) (op : Op) (refused : (custody.step op).1.isRefusal = true) :
    (custody.step op).2 = custody := by
  have given : ∀ kind granted, (custody.given kind granted).1.isRefusal = true →
      (custody.given kind granted).2 = custody := by
    intro kind granted refused
    cases granted with
    | none => rfl
    | some lock => cases refused
  have await : custody.await.1.isRefusal = true → custody.await.2 = custody := by
    rw [Custody.await]
    cases custody.record.lock.takeExclusive with
    | none => exact fun _ => rfl
    | some lock => exact given .writer (some lock)
  cases op with
  | await => exact await refused
  | tryExclusive spins => exact given .writer _ refused
  | tryShared spins => exact given .reader _ refused
  | contend kind =>
      rw [step, visited_eq] at refused ⊢
      exact await refused
  | upgrade index spins =>
      rw [step] at refused ⊢
      cases here : custody.handleAt index with
      | none => rfl
      | some kind =>
          cases raised : custody.record.lock.upgrade with
          | none => rfl
          | some lock =>
              rw [here, raised] at refused
              cases refused
  | release index =>
      rw [step] at refused ⊢
      cases here : custody.handleAt index with
      | none => rfl
      | some kind =>
          rw [here] at refused
          cases refused
  | install value => cases refused
  | read => rfl
  | readLocked => rfl
  | bump => cases refused

theorem nothing_out_iff (custody : Custody) :
    (∀ kind, custody.outstanding kind = 0) ↔ ∀ index, custody.handleAt index = none := by
  constructor
  · intro nothing index
    cases here : custody.handleAt index with
    | none => rfl
    | some kind =>
        obtain ⟨inside, listed⟩ := handle_listed here
        exact absurd (listed ▸ List.getElem_mem inside) (List.count_eq_zero.mp (nothing kind))
  · intro none kind
    refine List.count_eq_zero.mpr fun member => ?_
    obtain ⟨index, inside, listed⟩ := List.mem_iff_getElem.mp member
    have here := none index
    rw [Array.length_toList] at inside
    rw [Array.getElem_toList] at listed
    simp [handleAt, inside, listed] at here

theorem handle_at_cleared (custody : Custody) (record : Record) (index other : Nat) :
    handleAt { custody with record, handles := custody.handles.setIfInBounds index none } other =
      if other = index then none else custody.handleAt other := by
  by_cases same : other = index
  · subst same
    by_cases inside : other < custody.handles.size
    · simp [handleAt, inside]
    · simp [handleAt, inside]
  · simp [handleAt, same, Ne.symm same]

theorem upgrade_granted_iff (counted : custody.Counted) (index : Nat) (spins : UInt32) :
    (custody.step (.upgrade index spins)).1 = .upgraded .writer ↔
      custody.handleAt index = some .reader ∧
        ∀ other, other ≠ index → custody.handleAt other = none := by
  rw [step]
  cases here : custody.handleAt index with
  | none => simp
  | some kind =>
      obtain ⟨rest, before, after⟩ := outstanding_set here none custody.record
      have others : (∀ other, other ≠ index → custody.handleAt other = none) ↔
          ∀ kind, rest kind = 0 := by
        have cleared := nothing_out_iff
          { custody with handles := custody.handles.setIfInBounds index none }
        rw [after] at cleared
        simp only [handle_at_cleared] at cleared
        simpa using cleared.symm
      have raises := RwLock.Counts.upgrade_iff counted
      rw [before] at raises
      rw [others]
      cases kind with
      | writer =>
          have refused : custody.record.lock.upgrade = none := by
            rw [← Option.not_isSome_iff_eq_none, raises]
            simp [RwLock.oneMore]
          simp [refused]
      | reader =>
          have alone : custody.record.lock.upgrade.isSome = true ↔ ∀ kind, rest kind = 0 := by
            rw [raises]
            constructor
            · rintro ⟨writers, readers⟩ kind
              cases kind with
              | writer => exact writers
              | reader => exact Nat.succ.inj readers
            · intro nothing
              simp [RwLock.oneMore, nothing]
          rw [← alone]
          cases custody.record.lock.upgrade with
          | none => simp
          | some lock => simp

theorem given_granted_iff (custody : Custody) (kind : Handle) (granted : Option RwLock) :
    (custody.given kind granted).1 = .handle (some kind) ↔ granted.isSome = true := by
  cases granted with
  | none => simp [given]
  | some lock => simp [given]

theorem await_granted_iff (custody : Custody) :
    custody.await.1 = .handle (some .writer) ↔ custody.record.lock.takeExclusive.isSome = true := by
  rw [await]
  cases custody.record.lock.takeExclusive with
  | none => simp
  | some lock => simp [given]

def Owned (custody : Custody) : Prop :=
  (custody.record.lock.word.toNat = 0x8000000000000000 ∧ custody.outstanding .writer = 1 ∧
    custody.outstanding .reader = 0) ∨
  (custody.record.lock.word.toNat < 0x8000000000000000 ∧
    custody.record.lock.word.toNat = custody.outstanding .reader ∧
    custody.outstanding .writer = 0)

theorem Counted.owned (counted : custody.Counted) : custody.Owned := by
  rcases counted with ⟨nobody, readers, bound⟩ | ⟨owner, alone, owned⟩
  · exact Or.inr ⟨Nat.lt_of_le_of_lt (Nat.le_of_eq readers) bound, readers, nobody⟩
  · exact Or.inl ⟨congrArg UInt64.toNat owned, owner, alone⟩

-- The word stands for the handles that are out, and they decide what is granted next.
structure Told (custody : Custody) : Prop where
  word : custody.Owned
  writeLocked : custody.record.lock.isWriteLocked = true ↔ custody.outstanding .writer = 1
  readers : custody.record.lock.readers.toNat = custody.outstanding .reader
  free : custody.record.lock.isFree = true ↔ ∀ kind, custody.outstanding kind = 0
  awaited : (custody.step .await).1 = .handle (some .writer) ↔ ∀ kind, custody.outstanding kind = 0
  contended : ∀ kind, custody.step (.contend kind) = custody.step .await
  exclusive : ∀ spins, (custody.step (.tryExclusive spins)).1 = .handle (some .writer) ↔
    ∀ kind, custody.outstanding kind = 0
  shared : ∀ spins, (custody.step (.tryShared spins)).1 = .handle (some .reader) ↔
    custody.outstanding .writer = 0 ∧ custody.outstanding .reader < 0x7fffffffffffffff
  upgraded : ∀ index spins, (custody.step (.upgrade index spins)).1 = .upgraded .writer ↔
    custody.handleAt index = some .reader ∧ ∀ other, other ≠ index → custody.handleAt other = none
  released : ∀ index, (custody.step (.release index)).1 = .released ↔
    (custody.handleAt index).isSome = true
  -- What is granted is granted in fact, and the word stands for it again.
  gives : ∀ op kind, (custody.step op).1 = .handle (some kind) → custody.Gives kind (custody.step op).2
  raises : ∀ index spins handle, (custody.step (.upgrade index spins)).1 = .upgraded handle →
    handle = .writer ∧ custody.Raises index (custody.step (.upgrade index spins)).2
  returns : ∀ index, (custody.step (.release index)).1 = .released →
    custody.Returns index (custody.step (.release index)).2
  after : ∀ op, (custody.step op).2.Owned
  answers : ∀ op, op.isOnLock = true →
    (custody.step op).1.isRefusal = true ∨ (custody.step op).1.isGrant = true
  refused : ∀ op, (custody.step op).1.isRefusal = true → (custody.step op).2 = custody
  unlocked : ∀ op, op.isOnLock = false → (custody.step op).2.record.lock = custody.record.lock ∧
    (custody.step op).2.handles = custody.handles
  -- A larger budget does not help while nobody else acts.
  budget : ∀ spins,
    (∀ kind, RwLock.within (·.take kind) spins custody.record.lock = custody.record.lock.take kind) ∧
      RwLock.within RwLock.upgrade spins custody.record.lock = custody.record.lock.upgrade
  -- No number of readers looks like a writer.
  below : ∀ next, custody.record.lock.takeShared = some next →
    next.word.toNat = custody.record.lock.word.toNat + 1 ∧ next.word.toNat < 0x8000000000000000

theorem Counted.told (counted : custody.Counted) : custody.Told where
  word := counted.owned
  writeLocked := by
    rw [RwLock.write_locked_iff counted]
    rcases counted with ⟨nobody, _, _⟩ | ⟨owner, _, _⟩
    · simp [nobody]
    · simp [owner]
  readers := counted.readers_eq
  free := counted.free_iff
  awaited := (await_granted_iff custody).trans counted.take_exclusive_iff
  contended := fun kind => congrArg Custody.await (visited_eq custody kind)
  exclusive := fun _ => (given_granted_iff custody .writer _).trans counted.take_exclusive_iff
  shared := fun _ => (given_granted_iff custody .reader _).trans counted.take_shared_iff
  upgraded := upgrade_granted_iff counted
  released := released_iff custody
  gives := fun op _ => step_gives op
  raises := fun _ _ _ => step_raises counted
  returns := fun _ => step_returns
  after := fun op => (counted.step op).owned
  answers := step_answers custody
  refused := step_refused custody
  unlocked := step_of_record custody
  budget := fun spins =>
    ⟨fun kind => RwLock.within_eq (·.take kind) spins _, RwLock.within_eq RwLock.upgrade spins _⟩
  below := fun _ => counted.shared_stays_below

theorem word_stands_for_the_owners (start : Custody) (free : start.record.lock.isFree = true)
    (fresh : start.handles = #[]) (ops : List Op) : (start.play ops).Told := by
  refine (Counted.play ?_ ops).told
  have nothing : ∀ kind, 0 = start.outstanding kind := by simp [outstanding, fresh]
  exact RwLock.counts_congr (RwLock.counts_of_free free) nothing

-- A writer comes and goes. With two readers there is neither a writer nor an upgrade; when one of them
-- has gone there is an upgrade.
def raised : Custody :=
  play { record := {} } [.await, .tryShared 0, .release 0, .tryShared 0, .tryShared 0, .tryExclusive 16,
    .upgrade 1 16, .release 2, .upgrade 1 16, .tryShared 16]

theorem raised_stands_for_its_owner :
    raised.record.lock.word = RwLock.exclusiveWord ∧ raised.handles = #[none, some .writer, none] ∧
      raised.Told ∧ raised.Returns 1 (raised.step (.release 1)).2 ∧
      (play { record := {} } [.await]).outstanding .writer = 1 ∧
      (play { record := {} } [.await]).Told := by
  have told : raised.Told := word_stands_for_the_owners { record := {} } rfl rfl _
  exact ⟨by decide, by decide, told, told.returns 1 rfl, by decide,
    word_stands_for_the_owners { record := {} } rfl rfl [.await]⟩

end Custody

end LockOrder
