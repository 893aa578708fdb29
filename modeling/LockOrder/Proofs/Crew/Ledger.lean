import LockOrder.Proofs.Crew.Sound
import LockOrder.Proofs.Serial.Places

set_option autoImplicit false

namespace LockOrder

theorem Stage.owed_of_unbound {stage : Stage} (free : stage.isBound = false) : stage.owed = [] := by
  cases stage <;> first | rfl | cases free

namespace Member

def IsChecking (member : Member) : Prop := ∃ reads, member.stage = .checking reads

theorem not_checking {member : Member} (free : member.stage.isBound = false) : ¬ member.IsChecking := by
  rintro ⟨reads, here⟩
  rw [here] at free
  cases free

end Member

namespace Crew

-- The places of those that are still checking their reads are empty.
structure Placed (crew : Crew) : Prop where
  vacant : ∀ member ∈ crew.members, member.IsChecking → crew.history[member.place]? = some []
  apart : crew.members.Pairwise fun a b => a.IsChecking → b.IsChecking → a.place ≠ b.place

-- Somebody has passed the checks and still has to replace the record.
def Owes (crew : Crew) (slot : Nat) : Prop :=
  ∃ member ∈ crew.members, ∃ write ∈ member.stage.owed, write.lock.slot = slot

-- What was read is there at this place of the history, unless the record is replaced before the read is
-- checked.
structure Pending (crew : Crew) (place : Nat) (read : ReadAccess) (value : UInt64) : Prop where
  saw : crew.store.contents.Saw read.lock.slot read.version value
  replaced : ∀ later accesses written, place < later → crew.history[later]? = some accesses →
    Access.latest read.lock.slot accesses = some written →
      crew.Owes read.lock.slot ∨ ∃ now : UInt64 × UInt64,
        crew.store.contents[read.lock.slot]? = some now ∧ read.version < now.1

-- It is there for good: whoever may still write behind a place before does not write the record.
structure Settled (start : Contents) (crew : Crew) (place slot : Nat) (value : UInt64) : Prop where
  there : ∃ version, (start.replay (crew.history.take place))[slot]? = some (version, value)
  apart : ∀ member ∈ crew.members, member.IsChecking → member.place < place →
    Access.latest slot member.accesses = none

structure Checks (start : Contents) (crew : Crew) (place : Nat) (accesses : List Access)
    (reads : List ReadAccess) : Prop where
  -- Nobody behind this place is in the way of what is to be written here.
  later : ∀ later others, place < later → crew.history[later]? = some others →
    ∀ slot value, Access.latest slot accesses = some value →
      Access.latest slot others = none ∧ ¬ Access.Asks slot others
  answers : ∀ before slot value after, accesses = before ++ .read slot value :: after →
    Access.latest slot before = some value ∨ (Access.latest slot before = none ∧
      ((∃ read ∈ reads, read.lock.slot = slot ∧ crew.Pending place read value) ∨
        crew.Settled start place slot value))

structure Serializes (start : Contents) (crew : Crew) : Prop where
  small : crew.store.contents.Small
  explained : ∀ place accesses, crew.history[place]? = some accesses →
    (start.replay (crew.history.take place)).Explains accesses
  stored : ∀ slot, ¬ crew.Owes slot → crew.store.contents[slot]? = (start.replay crew.history)[slot]?
  owed : ∀ member ∈ crew.members, ∀ write ∈ member.stage.owed, ∃ now : UInt64 × UInt64,
    crew.store.contents[write.lock.slot]? = some now ∧
      (start.replay crew.history)[write.lock.slot]? = some (now.1 + 1, write.value)
  faithful : ∀ member ∈ crew.members, member.Faithful crew.store.contents
  checks : ∀ member ∈ crew.members, ∀ reads, member.stage = .checking reads →
    crew.Checks start member.place member.accesses reads

-- The record has got a later version.
def Risen (crew next : Crew) (slot : Nat) : Prop :=
  ∃ old new : UInt64 × UInt64, crew.store.contents[slot]? = some old ∧
    next.store.contents[slot]? = some new ∧ old.1 < new.1

-- What a step leaves alone of the checks of an attempt at this place.
structure Spares (start : Contents) (crew next : Crew) (place : Nat) (accesses : List Access) : Prop where
  later : ∀ later others, place < later → next.history[later]? = some others →
    crew.history[later]? = some others ∨
      (∀ slot value, Access.latest slot accesses = some value →
        Access.latest slot others = none ∧ ¬ Access.Asks slot others) ∧
      ∀ slot value, Access.latest slot others = some value → next.Owes slot ∨ crew.Risen next slot
  owes : ∀ slot, crew.Owes slot → next.Owes slot ∨ crew.Risen next slot
  follows : crew.store.contents.Follows next.store.contents
  before : ∀ slot value, crew.Settled start place slot value →
    (start.replay (next.history.take place))[slot]? = (start.replay (crew.history.take place))[slot]?
  checkers : ∀ member ∈ next.members, member.IsChecking → member.place < place →
    ∃ same ∈ crew.members, same.IsChecking ∧ same.place = member.place ∧
      same.accesses = member.accesses

variable {start : Contents} {crew next : Crew} {place : Nat} {accesses : List Access}
  {reads : List ReadAccess} {store after : Store} {outside : Outsiders} {member turned : Member}
  {members others : List Member} {history longer : List (List Access)} {scene : Scene}

theorem Placed.perm (placed : Placed ⟨store, outside, members, history⟩) (perm : members.Perm others) :
    Placed ⟨store, outside, others, history⟩ where
  vacant := fun member listed => placed.vacant member (perm.mem_iff.mpr listed)
  apart := (perm.pairwise_iff fun apart here there => Ne.symm (apart there here)).mp placed.apart

theorem Placed.turn (placed : Placed ⟨store, outside, member :: others, history⟩)
    (rest : ∀ other ∈ others, other.IsChecking → longer[other.place]? = some [])
    (own : turned.IsChecking → longer[turned.place]? = some [] ∧
      ∀ other ∈ others, other.IsChecking → turned.place ≠ other.place) :
    Placed ⟨after, outside, turned :: others, longer⟩ where
  vacant := fun other listed checks => by
    rcases List.mem_cons.mp listed with rfl | beside
    · exact (own checks).1
    · exact rest other beside checks
  apart := List.pairwise_cons.mpr
    ⟨fun other listed here there => (own here).2 other listed there, (List.pairwise_cons.mp placed.apart).2⟩

theorem Placed.steps (placed : Placed ⟨store, outside, member :: others, history⟩)
    (goes : Scene.Goes ⟨member, store, history⟩ scene) :
    Placed ⟨scene.store, outside, scene.member :: others, scene.history⟩ := by
  have before : ∀ other ∈ others, other.IsChecking → history[other.place]? = some [] :=
    fun other listed => placed.vacant other (List.mem_cons_of_mem _ listed)
  have apart := (List.pairwise_cons.mp placed.apart).1
  cases goes with
  | quiet contents same paid free faithful =>
      exact placed.turn (same ▸ before) fun checks => absurd checks (Member.not_checking free)
  | secured last pos here =>
      have inside : ∀ other ∈ others, other.IsChecking → other.place < history.length :=
        fun other listed checks => (List.getElem?_eq_some_iff.mp (before other listed checks)).1
      refine placed.turn (fun other listed checks => ?_) fun _ => ⟨by simp, fun other listed checks => ?_⟩
      · exact (List.getElem?_append_left (inside other listed checks)).trans (before other listed checks)
      · exact Ne.symm (Nat.ne_of_lt (inside other listed checks))
  | checked read reads here current =>
      have checking : member.IsChecking := ⟨_, here⟩
      exact placed.turn before fun _ => ⟨placed.vacant member (List.mem_cons_self ..) checking,
        fun other listed => apart other listed checking⟩
  | passed here =>
      refine placed.turn (fun other listed checks => ?_) fun checks => ?_
      · exact (List.getElem?_set_ne (apart other listed ⟨_, here⟩ checks)).trans (before other listed checks)
      · obtain ⟨_, wrong⟩ := checks
        cases wrong
  | installed write writes here =>
      refine placed.turn before fun checks => ?_
      obtain ⟨_, wrong⟩ := checks
      cases wrong

-- A record is not written by fewer transactions later.
theorem Placed.writers (placed : Placed ⟨store, outside, member :: others, history⟩)
    (goes : Scene.Goes ⟨member, store, history⟩ scene) (slot : Nat) :
    Contents.writers slot history ≤ Contents.writers slot scene.history := by
  cases goes with
  | quiet contents same paid free faithful => exact Nat.le_of_eq (congrArg _ same.symm)
  | secured last pos here => exact Contents.writers_snoc history [] slot
  | checked read reads here current => exact Nat.le_refl _
  | passed here =>
      have vacant := placed.vacant member (List.mem_cons_self ..) ⟨_, here⟩
      exact Contents.writers_set vacant member.accesses slot
  | installed write writes here => exact Nat.le_refl _

theorem Pending.spared {read : ReadAccess} {value : UInt64} (pending : crew.Pending place read value)
    (spares : Spares start crew next place accesses) : next.Pending place read value where
  saw := pending.saw.later spares.follows
  replaced := by
    obtain ⟨seen, here, below, _⟩ := pending.saw
    have risen : crew.Risen next read.lock.slot → ∃ now : UInt64 × UInt64,
        next.store.contents[read.lock.slot]? = some now ∧ read.version < now.1 := by
      rintro ⟨old, new, before, after, less⟩
      cases here.symm.trans before
      exact ⟨new, after, UInt64.lt_of_le_of_lt below less⟩
    intro later others written behind listed writes
    rcases spares.later later others behind listed with old | ⟨_, new⟩
    · rcases pending.replaced later others written behind old writes with owes | ⟨now, there, less⟩
      · exact (spares.owes _ owes).imp_right risen
      · obtain ⟨after, found, above, _⟩ := spares.follows _ now there
        exact Or.inr ⟨after, found, UInt64.lt_of_lt_of_le less above⟩
    · exact (new _ written writes).imp_right risen

theorem Settled.spared {slot : Nat} {value : UInt64} (settled : crew.Settled start place slot value)
    (spares : Spares start crew next place accesses) : next.Settled start place slot value where
  there := by
    rw [spares.before slot value settled]
    exact settled.there
  apart := fun member listed checks before => by
    obtain ⟨same, here, checking, at_place, made⟩ := spares.checkers member listed checks before
    rw [← made]
    exact settled.apart same here checking (at_place ▸ before)

theorem Checks.spared (checks : crew.Checks start place accesses reads)
    (spares : Spares start crew next place accesses) : next.Checks start place accesses reads where
  later := fun later others behind listed slot value writes => by
    rcases spares.later later others behind listed with old | ⟨new, _⟩
    · exact checks.later later others behind old slot value writes
    · exact new slot value writes
  answers := fun before slot value after split => by
    rcases checks.answers before slot value after split with own | ⟨none, pending | settled⟩
    · exact Or.inl own
    · obtain ⟨read, listed, same, pending⟩ := pending
      exact Or.inr ⟨none, Or.inl ⟨read, listed, same, pending.spared spares⟩⟩
    · exact Or.inr ⟨none, Or.inr (settled.spared spares)⟩

end Crew

end LockOrder
