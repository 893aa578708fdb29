import LockOrder.Proofs.Store.Bare

set_option autoImplicit false

namespace LockOrder

inductive Access where
  | read (slot : Nat) (value : UInt64)
  | write (slot : Nat) (value : UInt64)
deriving DecidableEq

namespace Access

def written (slot : Nat) : Access → Option UInt64
  | .read _ _ => none
  | .write other value => if other = slot then some value else none

def latest (slot : Nat) (accesses : List Access) : Option UInt64 :=
  (accesses.filterMap (written slot)).getLast?

end Access

abbrev Contents := List (UInt64 × UInt64)

namespace Contents

def commit (accesses : List Access) (contents : Contents) : Contents :=
  contents.mapIdx fun slot content =>
    match Access.latest slot accesses with
    | some value => (content.1 + 1, value)
    | none => content

def replay : List (List Access) → Contents → Contents
  | [], contents => contents
  | accesses :: rest, contents => replay rest (contents.commit accesses)

-- Each read got the latest value written before by the same transaction, or else what was there.
def Explains (contents : Contents) (accesses : List Access) : Prop :=
  ∀ before slot value after, accesses = before ++ .read slot value :: after →
    Access.latest slot before = some value ∨
      (Access.latest slot before = none ∧ ∃ version, contents[slot]? = some (version, value))

def Serial : Contents → List (List Access) → Prop
  | _, [] => True
  | contents, accesses :: rest => contents.Explains accesses ∧ Serial (contents.commit accesses) rest

def Small (contents : Contents) : Prop := ∀ content ∈ contents, content.1 < Record.beingWritten

-- No version gets so high that it would mark a record as being written.
def Bounded : Contents → List (List Access) → Prop
  | contents, [] => contents.Small
  | contents, accesses :: rest => contents.Small ∧ Bounded (contents.commit accesses) rest

instance (contents : Contents) : Decidable contents.Small :=
  List.decidableBAll (fun content : UInt64 × UInt64 => content.1 < Record.beingWritten) contents

instance decidableBounded : ∀ (history : List (List Access)) (contents : Contents),
    Decidable (contents.Bounded history)
  | [], contents => inferInstanceAs (Decidable contents.Small)
  | accesses :: rest, contents =>
      have := decidableBounded rest (contents.commit accesses)
      inferInstanceAs (Decidable (_ ∧ _))

theorem replay_append (first second : List (List Access)) (contents : Contents) :
    contents.replay (first ++ second) = (contents.replay first).replay second := by
  induction first generalizing contents with
  | nil => rfl
  | cons accesses rest ih => exact ih (contents.commit accesses)

theorem serial_append (first second : List (List Access)) (contents : Contents) :
    contents.Serial (first ++ second) ↔
      contents.Serial first ∧ (contents.replay first).Serial second := by
  induction first generalizing contents with
  | nil => simp [Serial, replay]
  | cons accesses rest ih => simp [Serial, replay, ih, and_assoc]

theorem Bounded.small {contents : Contents} {history : List (List Access)}
    (bounded : contents.Bounded history) : contents.Small := by
  cases history with
  | nil => exact bounded
  | cons accesses rest => exact bounded.1

theorem bounded_append (first second : List (List Access)) (contents : Contents) :
    contents.Bounded (first ++ second) ↔
      contents.Bounded first ∧ (contents.replay first).Bounded second := by
  induction first generalizing contents with
  | nil => exact ⟨fun bounded => ⟨bounded.small, bounded⟩, And.right⟩
  | cons accesses rest ih => simp [Bounded, replay, ih, and_assoc]

-- Versions never go back, and a version that is the same comes with the same value.
def Follows (before after : Contents) : Prop :=
  ∀ (slot : Nat) (old : UInt64 × UInt64), before[slot]? = some old →
    ∃ new : UInt64 × UInt64, after[slot]? = some new ∧ old.1 ≤ new.1 ∧ (old.1 = new.1 → old.2 = new.2)

theorem follows_refl (contents : Contents) : contents.Follows contents :=
  fun _ old here => ⟨old, here, UInt64.le_refl _, fun _ => rfl⟩

theorem Follows.trans {first second third : Contents} (early : first.Follows second)
    (late : second.Follows third) : first.Follows third := by
  intro slot old here
  obtain ⟨mid, there, below, same⟩ := early slot old here
  obtain ⟨new, last, above, again⟩ := late slot mid there
  refine ⟨new, last, UInt64.le_trans below above, fun version => ?_⟩
  have still : old.1 = mid.1 := UInt64.le_antisymm below (version ▸ above)
  exact (same still).trans (again (still.symm.trans version))

theorem follows_commit (contents : Contents) (accesses : List Access) (small : contents.Small) :
    contents.Follows (contents.commit accesses) := by
  intro slot old here
  rw [commit, List.getElem?_mapIdx, here, Option.map_some]
  cases Access.latest slot accesses with
  | none => exact ⟨old, rfl, UInt64.le_refl _, fun _ => rfl⟩
  | some value =>
      have bound := small old (List.mem_of_getElem? here)
      have next : (old.1 + 1).toNat = old.1.toNat + 1 := by
        rw [UInt64.toNat_add]
        simp [Record.beingWritten, UInt64.lt_iff_toNat_lt] at bound ⊢
        omega
      refine ⟨(old.1 + 1, value), rfl, UInt64.le_iff_toNat_le.mpr ?_, fun same => ?_⟩
      · rw [next]
        omega
      · have stuck := congrArg UInt64.toNat same
        rw [next] at stuck
        omega

theorem follows_replay (history : List (List Access)) (contents : Contents)
    (bounded : contents.Bounded history) : contents.Follows (contents.replay history) := by
  induction history generalizing contents with
  | nil => exact follows_refl contents
  | cons accesses rest ih =>
      exact (follows_commit contents accesses bounded.1).trans (ih _ bounded.2)

end Contents

namespace Store

def contents (store : Store) : Contents := store.records.toList.map Record.readLocked

def commit (accesses : List Access) (store : Store) : Store :=
  { store with
    records := store.records.mapIdx fun slot record =>
      match Access.latest slot accesses with
      | some value => record.install value
      | none => record }

theorem record_at_commit (store : Store) (accesses : List Access) (slot : Nat)
    (inside : slot < store.records.size) : (store.commit accesses).recordAt slot =
      match Access.latest slot accesses with
      | some value => (store.recordAt slot).install value
      | none => store.recordAt slot := by
  simp only [commit, recordAt, Array.getElem?_mapIdx, Array.getElem?_eq_getElem inside,
    Option.map_some, Option.getD_some]

theorem record_at_commit_outside (store : Store) (accesses : List Access) (slot : Nat)
    (outside : store.records.size ≤ slot) :
    (store.commit accesses).recordAt slot = store.recordAt slot := by
  simp [commit, recordAt, outside]

theorem bare_commit (store : Store) (accesses : List Access) :
    (store.commit accesses).bare = store.bare.commit accesses := by
  refine ext_records rfl (by simp [bare, commit]) fun slot inside => ?_
  have inside : slot < store.records.size := by simpa [commit] using inside
  simp only [bare, commit, recordAt, Array.getElem?_map, Array.getElem?_mapIdx,
    Array.getElem?_eq_getElem inside, Option.map_some, Option.getD_some]
  cases Access.latest slot accesses <;> rfl

theorem contents_at (store : Store) (slot : Nat) (inside : slot < store.records.size) :
    store.contents[slot]? = some (store.recordAt slot).readLocked := by
  simp [contents, recordAt, inside]

theorem content_eq {store : Store} {slot : Nat} {content : UInt64 × UInt64}
    (here : store.contents[slot]? = some content) : content = (store.recordAt slot).readLocked := by
  have inside : slot < store.records.size := by
    simpa [contents] using (List.getElem?_eq_some_iff.mp here).1
  exact Option.some.inj (here.symm.trans (store.contents_at slot inside))

theorem contents_bare (store : Store) : store.bare.contents = store.contents := by
  simp [contents, bare, Record.bare, Record.readLocked, Function.comp_def]

theorem contents_of_bare {store next : Store} (same : next.bare = store.bare) :
    next.contents = store.contents := by
  rw [← contents_bare next, same, contents_bare]

theorem contents_commit (accesses : List Access) (store : Store) :
    (store.commit accesses).contents = store.contents.commit accesses := by
  apply List.ext_getElem?
  intro slot
  simp only [contents, commit, Contents.commit, List.getElem?_map, List.getElem?_mapIdx,
    Array.toList_mapIdx, Option.map_map]
  congr 1
  funext record
  simp only [Function.comp_apply]
  cases Access.latest slot accesses <;> rfl

theorem ids_commit (accesses : List Access) (store : Store) :
    (store.commit accesses).ids = store.ids := by
  apply List.ext_getElem?
  intro slot
  simp only [ids, commit, List.getElem?_map, List.getElem?_mapIdx, Array.toList_mapIdx,
    Option.map_map]
  congr 1
  funext record
  simp only [Function.comp_apply]
  cases Access.latest slot accesses <;> rfl

theorem contents_put (store : Store) (slot : Nat) (record : Record)
    (same : record.readLocked = (store.recordAt slot).readLocked) :
    (store.put slot record).contents = store.contents := by
  apply List.ext_getElem?
  intro index
  by_cases here : slot = index
  · subst here
    by_cases inside : slot < store.records.size
    · simp [contents, put, inside, same, recordAt]
    · simp [contents, put, inside]
  · simp [contents, put, here]

theorem contents_bump (store : Store) (slot : Nat) : (store.bump slot).contents = store.contents :=
  contents_put store slot _ rfl

end Store

end LockOrder
