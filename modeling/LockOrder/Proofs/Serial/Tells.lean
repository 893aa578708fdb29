import LockOrder.Proofs.Outsiders.Holders
import LockOrder.Proofs.Serial.History

set_option autoImplicit false

namespace LockOrder

open Mark

structure Tells (marks : List Mark) (store next : Store) : Prop where
  lead : Lead marks store next
  serial : store.contents.Bounded (commits marks) → store.contents.Serial (commits marks)

variable {first second marks : List Mark} {store mid next : Store}

theorem tells_nothing (bare : next.bare = store.bare) : Tells [] store next :=
  ⟨bare, fun _ => trivial⟩

-- What comes later may rely on what went before to have been bounded.
theorem Tells.extend (early : Tells first store mid) (lead : Lead second mid next)
    (late : store.contents.Bounded (commits first) → mid.contents.Bounded (commits second) →
      mid.contents.Serial (commits second)) : Tells (first ++ second) store next where
  lead := lead_append early.lead lead
  serial := by
    intro bounded
    rw [commits_append] at bounded ⊢
    obtain ⟨boundedEarly, boundedLate⟩ := (Contents.bounded_append _ _ _).mp bounded
    refine (Contents.serial_append _ _ _).mpr ⟨early.serial boundedEarly, ?_⟩
    rw [← contents_of_lead early.lead] at boundedLate ⊢
    exact late boundedEarly boundedLate

theorem Tells.append (early : Tells first store mid) (late : Tells second mid next) :
    Tells (first ++ second) store next :=
  early.extend late.lead fun _ => late.serial

theorem Tells.follows (tells : Tells marks store next)
    (bounded : store.contents.Bounded (commits marks)) : store.contents.Follows next.contents := by
  rw [contents_of_lead tells.lead]
  exact Contents.follows_replay _ _ bounded

theorem Tells.later (tells : Tells marks store mid) (bare : next.bare = mid.bare) :
    Tells marks store next := by
  have whole := tells.append (tells_nothing bare)
  rwa [List.append_nil] at whole

theorem tells_heated (slot : Option Nat) (takes : (Mark.heated slot).Takes store next) :
    Tells [.heated slot] store next :=
  ⟨lead_single takes, fun _ => trivial⟩

theorem tells_committed (accesses : List Access) (bare : next.bare = store.bare.commit accesses)
    (explains : store.contents.Explains accesses) : Tells [.committed accesses] store next :=
  ⟨lead_single bare, fun _ => ⟨explains, trivial⟩⟩

namespace Store

theorem commit_write (store : Store) (slot : Nat) (value : UInt64) :
    store.commit [.write slot value] = store.install slot value := by
  refine ext_records rfl (by simp [commit, install]) fun index inside => ?_
  have inside : index < store.records.size := by simpa [commit] using inside
  rw [record_at_commit store _ index inside, record_at_install]
  by_cases here : slot = index
  · subst here
    simp [Access.latest, Access.written, inside]
  · simp [Access.latest, Access.written, here, Ne.symm here]

theorem contents_install (store : Store) (slot : Nat) (value : UInt64) :
    (store.install slot value).contents = store.contents.commit [.write slot value] := by
  rw [← commit_write, contents_commit]

end Store

theorem Access.write_reads_nothing {slot other : Nat} {value read : UInt64} {before after : List Access} :
    [.write slot value] ≠ before ++ .read other read :: after := by
  intro split
  have member : Access.read other read ∈ [Access.write slot value] := by
    rw [split]
    simp
  simp at member

theorem Contents.explains_write (contents : Contents) (slot : Nat) (value : UInt64) :
    contents.Explains [.write slot value] :=
  fun _ _ _ _ split => absurd split Access.write_reads_nothing

-- Who writes one record and reads none runs a transaction of its own.
theorem tells_installed (slot : Nat) (value : UInt64) (bare : next.bare = store.bare.install slot value) :
    Tells [.committed [.write slot value]] store next := by
  refine tells_committed _ (bare.trans (Store.commit_write store.bare slot value).symm) ?_
  exact Contents.explains_write _ _ _

namespace Outsiders

theorem bare_install (outsiders : Outsiders) (slot : Nat) (value : UInt64) (store : Store) :
    ((outsiders.install slot value store).1 = none ∧
      (outsiders.install slot value store).2.bare = store.bare) ∨
    ((∃ version, (outsiders.install slot value store).1 = some version) ∧
      (outsiders.install slot value store).2.bare = store.bare.install slot value) := by
  unfold install
  simp only
  split
  · exact Or.inr ⟨⟨_, rfl⟩, Store.bare_install store slot value⟩
  · split
    · exact Or.inl ⟨rfl, rfl⟩
    · rename_i next taken
      refine Or.inr ⟨⟨_, rfl⟩, ?_⟩
      rw [Store.bare_release, Store.bare_install, Store.bare_take store next _ _ taken]

theorem act_at_tells (table : Table) (outsiders : Outsiders) (slot : Nat) (store : Store) (act : Act)
    (found : ∀ key, act.key? = some key → table.slot key = .ok slot) :
    Tells (act.marks table (outsiders.actAt slot store act).1) store
      (outsiders.actAt slot store act).2.2 := by
  cases act with
  | peek => exact tells_nothing rfl
  | get key => exact tells_nothing rfl
  | take key kind => exact tells_nothing (bare_taken outsiders slot kind store)
  | release key => exact tells_nothing (bare_released outsiders slot store)
  | install key value =>
      simp only [actAt]
      rcases bare_install outsiders slot value store with ⟨none, bare⟩ | ⟨⟨version, some⟩, bare⟩
      · rw [none]
        exact tells_nothing bare
      · rw [some]
        simp only [Act.marks, found key rfl]
        exact tells_installed slot value bare
  | bump key =>
      simp only [actAt, Act.marks, found key rfl]
      exact tells_heated (some slot) (Store.bare_bump store slot)

theorem act_at_keeps {outsiders : Outsiders} (slot : Nat) (inside : slot < store.records.size)
    (act : Act) : outsiders.Keeps store (outsiders.actAt slot store act).2.1
      (outsiders.actAt slot store act).2.2 := by
  cases act with
  | peek => exact keeps_refl
  | get key => exact keeps_refl
  | take key kind => exact take_keeps slot kind inside
  | release key => exact release_keeps slot inside
  | install key value => exact install_keeps slot value
  | bump key => exact ⟨rfl, fun _ rest accounts => Store.accounts_bump store slot _ accounts⟩

end Outsiders

theorem Act.perform_tells (table : Table) (act : Act) (outsiders : Outsiders) (store : Store) :
    Tells (act.marks table (act.perform table outsiders store).1) store
      (act.perform table outsiders store).2.2 := by
  unfold perform
  cases named : act.key? with
  | none =>
      refine Outsiders.act_at_tells table outsiders 0 store act fun key here => ?_
      rw [named] at here
      cases here
  | some key =>
      simp only
      cases found : table.slot key with
      | error fault =>
          have nothing : act.marks table .unknownKey = [] := by cases act <;> rfl
          rw [nothing]
          exact tells_nothing rfl
      | ok slot =>
          refine Outsiders.act_at_tells table outsiders slot store act fun other here => ?_
          rw [named] at here
          cases here
          exact found

end LockOrder
