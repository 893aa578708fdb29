import LockOrder.Outsiders
import LockOrder.Proofs.CurrentList.Sound

set_option autoImplicit false

namespace LockOrder

def CurrentList.tally (lists : List CurrentList) : Tally :=
  Entry.tally (lists.flatMap CurrentList.entries)

namespace Outsiders

def tally (outsiders : Outsiders) : Tally := fun slot kind => (outsiders.heldAt slot).count kind

def holders (outsiders : Outsiders) (lists : List CurrentList) : Tally :=
  (CurrentList.tally lists).plus outsiders.tally

end Outsiders

namespace CurrentList

theorem tally_cons (list : CurrentList) (lists : List CurrentList) (slot : Nat) (kind : Handle) :
    tally (list :: lists) slot kind = Entry.tally list.entries slot kind + tally lists slot kind := by
  rw [tally, List.flatMap_cons, Entry.tally_append]
  rfl

theorem tally_set (lists : List CurrentList) (index : Nat) (old new : CurrentList)
    (here : lists[index]? = some old) (slot : Nat) (kind : Handle) :
    tally (lists.set index new) slot kind + Entry.tally old.entries slot kind =
      tally lists slot kind + Entry.tally new.entries slot kind := by
  induction lists generalizing index with
  | nil => simp at here
  | cons list lists ih =>
      cases index with
      | zero =>
          obtain rfl : list = old := by simpa using here
          rw [List.set_cons_zero, tally_cons, tally_cons]
          omega
      | succ index =>
          have step := ih index (by simpa using here)
          rw [List.set_cons_succ, tally_cons, tally_cons]
          omega

theorem tally_at_most (lists : List CurrentList) (list : CurrentList) (listed : list ∈ lists)
    (slot : Nat) (kind : Handle) : Entry.tally list.entries slot kind ≤ tally lists slot kind := by
  induction lists with
  | nil => cases listed
  | cons first lists ih =>
      rw [tally_cons]
      rcases List.mem_cons.mp listed with rfl | later
      · omega
      · have bound := ih later
        omega

theorem tally_of_empty (lists : List CurrentList) (empty : ∀ list ∈ lists, list.entries = [])
    (slot : Nat) (kind : Handle) : tally lists slot kind = 0 := by
  have none : lists.flatMap CurrentList.entries = [] := List.flatMap_eq_nil_iff.mpr empty
  rw [tally, none]
  rfl

end CurrentList

namespace Outsiders

variable {ids : List UInt64} {store next : Store} {outsiders : Outsiders}

theorem holders_set (lists : List CurrentList) (index : Nat) (list after : CurrentList)
    (here : lists[index]? = some list) (accounts : store.Accounts (outsiders.holders lists))
    (conserves : Conserves list.entries store after.entries next) :
    next.Accounts (outsiders.holders (lists.set index after)) := by
  let rest : Tally := fun slot kind =>
    outsiders.holders lists slot kind - Entry.tally list.entries slot kind
  have bound := CurrentList.tally_at_most lists list (List.mem_of_getElem? here)
  have before : store.Accounts (rest.plus (Entry.tally list.entries)) := by
    refine Store.accounts_congr accounts fun slot kind => ?_
    have least := bound slot kind
    simp only [rest, Tally.plus, holders]
    omega
  refine Store.accounts_congr (conserves rest before) fun slot kind => ?_
  have least := bound slot kind
  have change := CurrentList.tally_set lists index list after here slot kind
  simp only [rest, Tally.plus, holders]
  omega

theorem held_at_set (outsiders : Outsiders) (slot other : Nat) (handles : List Handle)
    (inside : slot < outsiders.held.size) :
    (outsiders.setHeld slot handles).heldAt other =
      if other = slot then handles else outsiders.heldAt other := by
  by_cases same : other = slot
  · subst same
    simp [setHeld, heldAt, inside]
  · simp [setHeld, heldAt, same, Ne.symm same]

@[simp] theorem size_set_held (outsiders : Outsiders) (slot : Nat) (handles : List Handle) :
    (outsiders.setHeld slot handles).held.size = outsiders.held.size := by
  simp [setHeld]

theorem tally_more (slot : Nat) (kind : Handle) (handles : List Handle)
    (inside : slot < outsiders.held.size) (other : Nat) (which : Handle) :
    (outsiders.setHeld slot (kind :: handles)).tally other which =
      (outsiders.setHeld slot handles).tally other which +
        if other = slot ∧ which = kind then 1 else 0 := by
  simp only [tally]
  rw [held_at_set _ _ _ _ inside, held_at_set _ _ _ _ inside]
  by_cases same : other = slot
  · subst same
    by_cases kinds : kind = which
    · simp [kinds]
    · simp [kinds, Ne.symm kinds]
  · simp [same]

theorem tally_set_self (slot : Nat) (inside : slot < outsiders.held.size) (other : Nat)
    (kind : Handle) :
    (outsiders.setHeld slot (outsiders.heldAt slot)).tally other kind = outsiders.tally other kind := by
  simp only [tally]
  rw [held_at_set _ _ _ _ inside]
  split
  · rename_i same
    rw [same]
  · rfl

theorem bare_taken (outsiders : Outsiders) (slot : Nat) (kind : Handle) (store : Store) :
    (outsiders.take slot kind store).2.2.bare = store.bare := by
  unfold take
  split
  · rename_i next taken
    exact Store.bare_take store next _ kind taken
  · rfl

theorem bare_released (outsiders : Outsiders) (slot : Nat) (store : Store) :
    (outsiders.release slot store).2.2.bare = store.bare := by
  unfold release
  split
  · rfl
  · exact Store.bare_release store _ _

structure Keeps (outsiders : Outsiders) (store : Store) (after : Outsiders) (next : Store) : Prop where
  size : after.held.size = outsiders.held.size
  balanced : outsiders.held.size = store.records.size →
    Balanced outsiders.tally store after.tally next

theorem keeps_refl : Keeps outsiders store outsiders store := ⟨rfl, fun _ => .refl⟩

theorem take_keeps (slot : Nat) (kind : Handle) (inside : slot < store.records.size) :
    Keeps outsiders store (outsiders.take slot kind store).2.1 (outsiders.take slot kind store).2.2 := by
  unfold take
  split
  · rename_i next taken
    refine ⟨size_set_held _ _ _, fun size rest accounts => ?_⟩
    rw [← size] at inside
    refine Store.accounts_congr
      (Store.accounts_take store next (store.lockAt slot) kind _ accounts taken) ?_
    intro other which
    rw [Tally.one_more_apply, Tally.plus, Tally.plus, tally_more slot kind _ inside,
      tally_set_self slot inside, Nat.add_assoc]
    rfl
  · exact keeps_refl

theorem release_keeps (slot : Nat) (inside : slot < store.records.size) :
    Keeps outsiders store (outsiders.release slot store).2.1 (outsiders.release slot store).2.2 := by
  unfold release
  split
  · exact keeps_refl
  · rename_i handle handles held
    refine ⟨size_set_held _ _ _, fun size rest accounts => ?_⟩
    rw [← size] at inside
    refine Store.accounts_release store (store.lockAt slot) handle _ ?_
    refine Store.accounts_congr accounts fun other which => ?_
    rw [Tally.one_more_apply, Tally.plus, Tally.plus, ← tally_set_self slot inside, held,
      tally_more slot handle handles inside, Nat.add_assoc]
    rfl

theorem install_keeps (slot : Nat) (value : UInt64) :
    Keeps outsiders store outsiders (outsiders.install slot value store).2 := by
  refine ⟨rfl, fun size rest accounts => ?_⟩
  unfold install
  simp only
  split
  · exact Store.accounts_install store slot value _ accounts
  · split
    · exact accounts
    · rename_i next taken
      refine Store.accounts_release _ (store.lockAt slot) .writer _ ?_
      exact Store.accounts_install next slot value _
        (Store.accounts_take store next (store.lockAt slot) .writer _ accounts taken)

end Outsiders

end LockOrder
