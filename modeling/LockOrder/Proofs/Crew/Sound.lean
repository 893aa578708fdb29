import LockOrder.Proofs.Crew.Fits
import LockOrder.Proofs.Worker.Verdict

set_option autoImplicit false

namespace LockOrder

namespace Member

def tally (members : List Member) : Tally := Entry.tally (members.flatMap held)

variable {ids : List UInt64} {member other : Member} {members others : List Member}

theorem tally_cons (member : Member) (members : List Member) :
    tally (member :: members) = (tally members).plus (Entry.tally member.held) := by
  funext slot kind
  rw [tally, List.flatMap_cons, Entry.tally_append, Nat.add_comm]
  rfl

theorem tally_perm (perm : members.Perm others) : tally members = tally others := by
  funext slot kind
  exact (perm.flatMap_right held).countP_eq _

theorem tally_of_nothing (nothing : ∀ member ∈ members, member.held = []) (slot : Nat) (kind : Handle) :
    tally members slot kind = 0 := by
  rw [tally, List.flatMap_eq_nil_iff.mpr nothing]
  rfl

theorem tally_at_most (listed : member ∈ members) (slot : Nat) (kind : Handle) :
    Entry.tally member.held slot kind ≤ tally members slot kind := by
  obtain ⟨before, after, rfl⟩ := List.append_of_mem listed
  rw [tally_perm List.perm_middle, tally_cons]
  exact Nat.le_add_left _ _

-- What an attempt is about to install it has locked, and so has it what it will install.
theorem guards (different : ids.Nodup) (fits : member.Fits ids) {slot : Nat}
    (bound : member.stage.isBound = true) {value : UInt64}
    (writes : Access.latest slot member.accesses = some value) :
    slot < ids.length ∧ 0 < Entry.tally member.held slot .writer := by
  obtain ⟨worker, stage, accesses, place⟩ := member
  obtain ⟨prepared, held⟩ : worker.Prepared accesses ∧
      Member.held ⟨worker, stage, accesses, place⟩ = worker.list.entries := by
    cases stage with
    | checking reads => exact ⟨fits.stage.1, rfl⟩
    | installing writes => exact ⟨fits.stage.1, rfl⟩
    | _ => cases bound
  obtain ⟨write, last, rfl⟩ := prepared.decided.all slot value writes
  have listed := (Worker.last_writes_sublist _).subset last
  have on := fits.sound.sets.writes write listed
  rw [held]
  exact ⟨(List.getElem?_eq_some_iff.mp on).1,
    Worker.owns_tally fits.sound.list different on (prepared.owned write listed)⟩

theorem guards_owed (different : ids.Nodup) (fits : member.Fits ids) {write : WriteAccess}
    (owes : write ∈ member.stage.owed) :
    write.lock.slot < ids.length ∧ 0 < Entry.tally member.held write.lock.slot .writer := by
  obtain ⟨worker, stage, accesses, place⟩ := member
  cases stage with
  | installing writes =>
      obtain ⟨prepared, part⟩ : worker.Prepared accesses ∧
        writes.Sublist (Worker.lastWrites worker.sets.writes.toList) := fits.stage
      exact guards different fits rfl (prepared.decided.values write (part.subset owes))
  | _ => cases owes

end Member

namespace Crew

structure Sound (ids : List UInt64) (crew : Crew) : Prop where
  named : crew.store.ids = ids
  outside : crew.outside.held.size = ids.length
  accounts : crew.store.Accounts (crew.outside.tally.plus (Member.tally crew.members))
  fits : ∀ member ∈ crew.members, member.Fits ids

variable {ids : List UInt64} {crew : Crew} {member : Member} {members others : List Member} {store : Store}
  {outside : Outsiders} {history : List (List Access)} {scene : Scene} {table : Table}

theorem Sound.perm (sound : Sound ids ⟨store, outside, members, history⟩) (perm : members.Perm others) :
    Sound ids ⟨store, outside, others, history⟩ where
  named := sound.named
  outside := sound.outside
  accounts := by
    rw [← Member.tally_perm perm]
    exact sound.accounts
  fits := fun member listed => sound.fits member (perm.mem_iff.mpr listed)

theorem Sound.steps (sound : Sound ids ⟨store, outside, member :: others, history⟩)
    (steps : Scene.Steps ids ⟨member, store, history⟩ scene) :
    Sound ids ⟨scene.store, outside, scene.member :: others, scene.history⟩ where
  named := steps.named.trans sound.named
  outside := sound.outside
  accounts := by
    have before := sound.accounts
    rw [Member.tally_cons, ← Tally.plus_assoc] at before ⊢
    exact steps.balanced _ before
  fits := fun other listed => by
    rcases List.mem_cons.mp listed with rfl | rest
    · exact steps.fits
    · exact sound.fits other (List.mem_cons_of_mem _ rest)

theorem Sound.size (sound : crew.Sound ids) : crew.store.records.size = ids.length :=
  Store.size_of_ids sound.named

theorem Sound.act (fits : table.Fits ids) (sound : crew.Sound ids) (act : Act) :
    (crew.move table (.act act)).Sound ids where
  named := by
    have tells := act.perform_tells table crew.outside crew.store
    exact (Mark.ids_of_lead tells.lead).trans sound.named
  outside := (act.perform_keeps fits crew.outside crew.store sound.named).size.trans sound.outside
  accounts := by
    have keeps := act.perform_keeps fits crew.outside crew.store sound.named
    have size := sound.outside.trans sound.size.symm
    have goes := (keeps.balanced size).frame_right (Member.tally crew.members)
    exact goes.accounts sound.accounts
  fits := sound.fits

-- What this member owns, nobody else holds in any way.
theorem Sound.alone (sound : Sound ids ⟨store, outside, member :: others, history⟩) {slot : Nat}
    (inside : slot < ids.length) (owns : 0 < Entry.tally member.held slot .writer) :
    (store.recordAt slot).lock.isWriteLocked = true ∧ (∀ kind, outside.tally slot kind = 0) ∧
      ∀ other ∈ others, ∀ kind, Entry.tally other.held slot kind = 0 := by
  have counts := sound.accounts slot (sound.size ▸ inside)
  have locked := RwLock.write_locked_iff counts
  have rest : ∀ kind, outside.tally slot kind = 0 ∧ Member.tally others slot kind = 0 := by
    intro kind
    have accounts := sound.accounts
    rw [Member.tally_cons, ← Tally.plus_assoc] at accounts
    exact Nat.add_eq_zero_iff.mp (Store.accounts_alone accounts (sound.size ▸ inside) owns kind)
  simp only [Member.tally_cons, Tally.plus] at locked
  refine ⟨locked.mpr (by omega), fun kind => (rest kind).1, fun other listed kind => ?_⟩
  have most := Member.tally_at_most listed slot kind
  have none := (rest kind).2
  omega

theorem Sound.beside {other : Member} (sound : Sound ids ⟨store, outside, member :: others, history⟩)
    (listed : other ∈ others) {slot : Nat} (inside : slot < ids.length)
    (owns : 0 < Entry.tally other.held slot .writer) :
    (store.recordAt slot).lock.isWriteLocked = true ∧ ∀ kind, Entry.tally member.held slot kind = 0 := by
  obtain ⟨before, after, rfl⟩ := List.append_of_mem listed
  have perm : (member :: (before ++ other :: after)).Perm (other :: member :: (before ++ after)) :=
    (List.perm_middle.cons member).trans (.swap _ _ _)
  obtain ⟨locked, _, rest⟩ := (sound.perm perm).alone inside owns
  exact ⟨locked, rest member (List.mem_cons_self ..)⟩

-- A check does not get by the lock of somebody else.
theorem Sound.stale {other : Member} (different : ids.Nodup)
    (sound : Sound ids ⟨store, outside, member :: others, history⟩) (listed : other ∈ others)
    (held : member.held = member.worker.list.entries) (read : ReadAccess) (on : read.lock.On ids)
    (owns : 0 < Entry.tally other.held read.lock.slot .writer) :
    member.worker.isStale store read = true := by
  have inside : read.lock.slot < ids.length := (List.getElem?_eq_some_iff.mp on).1
  have own := (sound.fits member (List.mem_cons_self ..)).sound
  obtain ⟨locked, nothing⟩ := sound.beside listed inside owns
  refine (Worker.is_stale_iff own.list different read on).mpr (Or.inr ⟨fun has => ?_, locked⟩)
  obtain ⟨kind, some⟩ := has.tally own.list
  rw [← held, nothing kind] at some
  exact Nat.lt_irrefl 0 some

-- What this member has locked to install, no other is going to install.
theorem Sound.excludes {other : Member} (different : ids.Nodup)
    (sound : Sound ids ⟨store, outside, member :: others, history⟩) (bound : member.stage.isBound = true)
    {slot : Nat} {value : UInt64} (writes : Access.latest slot member.accesses = some value)
    (listed : other ∈ others) :
    (other.stage.isBound = true → Access.latest slot other.accesses = none) ∧
      ∀ write ∈ other.stage.owed, write.lock.slot ≠ slot := by
  have fits := sound.fits other (List.mem_cons_of_mem _ listed)
  obtain ⟨inside, owns⟩ := Member.guards different (sound.fits member (List.mem_cons_self ..)) bound writes
  obtain ⟨_, _, alone⟩ := sound.alone inside owns
  have nothing := alone other listed .writer
  refine ⟨fun checks => ?_, fun write owes same => ?_⟩
  · refine Option.eq_none_iff_forall_ne_some.mpr fun value written => ?_
    have some := (Member.guards different fits checks written).2
    omega
  · have some := (Member.guards_owed different fits owes).2
    rw [same] at some
    omega

end Crew

end LockOrder
