import LockOrder.Store

set_option autoImplicit false

namespace LockOrder

namespace Record

def bare (record : Record) : Record := { record with lock := {} }

theorem bump_bare (record : Record) (draws : Draws) :
    record.bare.bump draws = ((record.bump draws).1.bare, (record.bump draws).2) := rfl

end Record

namespace Store

def bare (store : Store) : Store := { store with records := store.records.map Record.bare }

def ids (store : Store) : List UInt64 := store.records.toList.map Record.id

@[simp] theorem size_put (store : Store) (slot : Nat) (record : Record) :
    (store.put slot record).records.size = store.records.size := by
  simp [put]

theorem record_at_put (store : Store) (slot other : Nat) (record : Record) :
    (store.put slot record).recordAt other =
      if other = slot ∧ slot < store.records.size then record else store.recordAt other := by
  by_cases same : other = slot
  · subst same
    by_cases inside : other < store.records.size
    · simp [record_at_put_self store other record inside, inside]
    · simp [recordAt, put, inside]
  · simp [record_at_put_other store slot other record same, same]

theorem ext_records {a b : Store} (draws : a.draws = b.draws)
    (size : a.records.size = b.records.size)
    (same : ∀ slot < a.records.size, a.recordAt slot = b.recordAt slot) : a = b := by
  obtain ⟨recordsA, drawsA⟩ := a
  obtain ⟨recordsB, drawsB⟩ := b
  obtain rfl : drawsA = drawsB := draws
  have records : recordsA = recordsB := by
    refine Array.ext size fun slot insideA insideB => ?_
    have here := same slot insideA
    simpa [recordAt, insideA, insideB] using here
  rw [records]

theorem record_at_install (store : Store) (slot other : Nat) (value : UInt64) :
    (store.install slot value).recordAt other =
      if other = slot ∧ slot < store.records.size then (store.recordAt slot).install value
      else store.recordAt other :=
  record_at_put store slot other _

theorem put_self (store : Store) (slot : Nat) : store.put slot (store.recordAt slot) = store := by
  have same : store.records.setIfInBounds slot (store.recordAt slot) = store.records := by
    apply Array.ext (by simp)
    intro index _ inside
    by_cases here : slot = index
    · subst here
      simp [recordAt, inside]
    · rw [Array.getElem_setIfInBounds_ne inside here]
  simp [put, same]

@[simp] theorem size_bare (store : Store) : store.bare.records.size = store.records.size := by
  simp [bare]

@[simp] theorem draws_bare (store : Store) : store.bare.draws = store.draws := rfl

theorem record_at_bare (store : Store) (slot : Nat) :
    store.bare.recordAt slot = (store.recordAt slot).bare := by
  by_cases inside : slot < store.records.size
  · simp [recordAt, bare, inside]
  · simp [recordAt, bare, inside]
    rfl

theorem bare_put (store : Store) (slot : Nat) (record : Record) :
    (store.put slot record).bare = store.bare.put slot record.bare := by
  simp [put, bare, Array.map_setIfInBounds]

theorem bare_put_of_bare (store : Store) (slot : Nat) (record : Record)
    (same : record.bare = (store.recordAt slot).bare) : (store.put slot record).bare = store.bare := by
  rw [bare_put, same, ← record_at_bare, put_self]

theorem bare_set_word (store : Store) (lock : LockRef) (word : RwLock) :
    (store.setWord lock word).bare = store.bare :=
  bare_put_of_bare store lock.slot _ rfl

theorem bare_take (store next : Store) (lock : LockRef) (kind : Handle)
    (taken : store.take lock kind = some next) : next.bare = store.bare := by
  obtain ⟨word, _, rfl⟩ := Option.map_eq_some_iff.mp taken
  exact bare_set_word store lock word

theorem bare_upgrade (store next : Store) (lock : LockRef)
    (raised : store.upgrade lock = some next) : next.bare = store.bare := by
  obtain ⟨word, _, rfl⟩ := Option.map_eq_some_iff.mp raised
  exact bare_set_word store lock word

theorem bare_release (store : Store) (lock : LockRef) (handle : Handle) :
    (store.release lock handle).bare = store.bare :=
  bare_set_word store lock _

theorem bare_install (store : Store) (slot : Nat) (value : UInt64) :
    (store.install slot value).bare = store.bare.install slot value := by
  rw [install, install, bare_put, record_at_bare]
  rfl

theorem bare_bump (store : Store) (slot : Nat) : (store.bump slot).bare = store.bare.bump slot := by
  have put := bare_put store slot ((store.recordAt slot).bump store.draws).1
  simp only [bump, record_at_bare, draws_bare, Record.bump_bare]
  simpa [bare] using congrArg Store.records put

theorem ids_bare (store : Store) : store.bare.ids = store.ids := by
  simp [ids, bare, Record.bare, Function.comp_def]

theorem ids_put (store : Store) (slot : Nat) (record : Record)
    (same : record.id = (store.recordAt slot).id) : (store.put slot record).ids = store.ids := by
  apply List.ext_getElem?
  intro index
  by_cases here : slot = index
  · subst here
    by_cases inside : slot < store.records.size
    · simp [ids, put, inside, same, recordAt]
    · simp [ids, put, inside]
  · simp [ids, put, here]

theorem ids_bump (store : Store) (slot : Nat) : (store.bump slot).ids = store.ids :=
  ids_put store slot _ rfl

theorem ids_of_bare {store next : Store} (same : next.bare = store.bare) : next.ids = store.ids := by
  rw [← ids_bare next, same, ids_bare]

theorem size_of_bare {store next : Store} (same : next.bare = store.bare) :
    next.records.size = store.records.size := by
  rw [← size_bare next, same, size_bare]

theorem length_ids (store : Store) : store.ids.length = store.records.size := by
  simp [ids]

theorem size_of_ids {ids : List UInt64} {store : Store} (named : store.ids = ids) :
    store.records.size = ids.length := by
  rw [← named, length_ids]

end Store

def LockRef.On (ids : List UInt64) (lock : LockRef) : Prop := ids[lock.slot]? = some lock.id

theorem LockRef.On.inside {ids : List UInt64} {lock : LockRef} {store : Store} (on : lock.On ids)
    (named : store.ids = ids) : lock.slot < store.records.size := by
  rw [Store.size_of_ids named]
  exact (List.getElem?_eq_some_iff.mp on).1

theorem LockRef.on_injective {ids : List UInt64} {a b : LockRef} (different : ids.Nodup)
    (onA : a.On ids) (onB : b.On ids) (same : a.id = b.id) : a = b := by
  obtain ⟨slotA, idA⟩ := a
  obtain ⟨slotB, idB⟩ := b
  simp only at same
  subst same
  have inside : slotA < ids.length := (List.getElem?_eq_some_iff.mp onA).1
  have slots : slotA = slotB :=
    (List.getElem?_inj inside different).mp ((onA : ids[slotA]? = _).trans (onB : ids[slotB]? = _).symm)
  rw [slots]

theorem LockRef.on_slot {ids : List UInt64} {a b : LockRef} (onA : a.On ids) (onB : b.On ids)
    (same : a.slot = b.slot) : a = b := by
  obtain ⟨slotA, idA⟩ := a
  obtain ⟨slotB, idB⟩ := b
  simp only at same
  subst same
  have ids : idA = idB := Option.some.inj ((onA : ids[slotA]? = _).symm.trans onB)
  rw [ids]

theorem Store.on_lock_at (store : Store) (slot : Nat) (inside : slot < store.records.size) :
    (store.lockAt slot).On store.ids := by
  simp [LockRef.On, ids, lockAt, recordAt, inside]

theorem Store.on_lock_within {ids : List UInt64} {store : Store} (named : store.ids = ids) (slot : Nat)
    (inside : slot < ids.length) : (store.lockAt slot).On ids := by
  rw [← named] at inside ⊢
  exact store.on_lock_at slot (store.length_ids ▸ inside)

end LockOrder
