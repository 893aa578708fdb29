import LockOrder.CurrentList.Merge
import LockOrder.Proofs.CurrentList.Sound
import LockOrder.Proofs.RetroList.Sound

set_option autoImplicit false

namespace LockOrder

theorem Entry.eq_of_perm_of_ascending {entries other : List Entry} (perm : entries.Perm other)
    (mine : Entry.Ascending entries) (yours : Entry.Ascending other) : entries = other := by
  refine List.Perm.eq_of_pairwise (fun a b _ _ less more => ?_) mine yours perm
  exact absurd (UInt64.lt_trans less more) (UInt64.lt_irrefl _)

namespace CurrentList

def LocksAscend (locks : List LockRef) : Prop := locks.Pairwise fun a b => a.id < b.id

def isListed (entries : List Entry) (lock : LockRef) : Bool :=
  entries.any fun entry => entry.id == lock.id

def missing (entries : List Entry) (locks : List LockRef) : List LockRef :=
  locks.filter fun lock => !isListed entries lock

def raised (locks : List LockRef) (entry : Entry) : Entry :=
  if locks.any (fun lock => lock.id == entry.id) then entry.prefer .exclusive else entry

@[simp] theorem id_raised (locks : List LockRef) (entry : Entry) :
    (raised locks entry).id = entry.id := by
  unfold raised
  split <;> rfl

@[simp] theorem owns_raised (locks : List LockRef) (entry : Entry) (slot : Nat) (kind : Handle) :
    (raised locks entry).owns slot kind = entry.owns slot kind := by
  unfold raised
  split <;> rfl

theorem sound_raised (ids : List UInt64) (locks : List LockRef) (entry : Entry)
    (sound : entry.Sound ids) : (raised locks entry).Sound ids := by
  unfold raised
  split
  · exact Entry.sound_prefer ids entry .exclusive sound
  · exact sound

theorem not_listed (entries : List Entry) (lock : LockRef)
    (apart : ∀ entry ∈ entries, entry.id ≠ lock.id) : isListed entries lock = false := by
  simpa [isListed] using apart

theorem missing_all (entries : List Entry) (locks : List LockRef)
    (apart : ∀ lock ∈ locks, ∀ entry ∈ entries, entry.id ≠ lock.id) :
    missing entries locks = locks := by
  refine List.filter_eq_self.mpr fun lock member => ?_
  simp [not_listed entries lock (apart lock member)]

theorem raised_none (locks : List LockRef) (entry : Entry)
    (apart : ∀ lock ∈ locks, lock.id ≠ entry.id) : raised locks entry = entry := by
  rw [raised, if_neg]
  simpa using apart

structure Walked (entries : List Entry) (locks : List LockRef) (merged : Merged) : Prop where
  old : merged.old = entries.map (raised locks)
  added : merged.between ++ merged.after = placeholders (missing entries locks)
  after : ∀ entry ∈ merged.after, ∀ old ∈ entries, old.id < entry.id

theorem walked_smaller (entries : List Entry) (smaller locks : List LockRef) (merged : Merged)
    (apart : ∀ lock ∈ smaller, ∀ entry ∈ entries, lock.id < entry.id)
    (walked : Walked entries locks merged) :
    Walked entries (smaller ++ locks)
      ⟨merged.old, placeholders smaller ++ merged.between, merged.after⟩ where
  old := by
    rw [walked.old]
    refine List.map_congr_left fun entry listed => ?_
    have unwritten : smaller.any (fun lock => lock.id == entry.id) = false := by
      simpa using fun lock member => UInt64.ne_of_lt (apart lock member entry listed)
    simp [raised, unwritten]
  added := by
    have all : missing entries smaller = smaller := missing_all entries smaller
      fun lock member entry listed => Ne.symm (UInt64.ne_of_lt (apart lock member entry listed))
    have split : missing entries (smaller ++ locks) = smaller ++ missing entries locks := by
      rw [missing, List.filter_append]
      exact congrArg (· ++ missing entries locks) all
    rw [split]
    simp only [placeholders, List.map_append, List.append_assoc]
    exact congrArg _ walked.added
  after := walked.after

theorem walked_nil (locks : List LockRef) : Walked [] locks (walk [] locks) := by
  have all : missing [] locks = locks := missing_all [] locks (by simp)
  exact ⟨rfl, by rw [all]; rfl, by simp⟩

theorem Walked.mem_after {entries : List Entry} {locks : List LockRef} {merged : Merged}
    (walked : Walked entries locks merged) (entry : Entry) (behind : entry ∈ merged.after) :
    ∃ lock ∈ locks, entry = .fresh lock .exclusive := by
  have listed : entry ∈ placeholders (missing entries locks) := by
    rw [← walked.added]
    exact List.mem_append_right _ behind
  obtain ⟨lock, member, rfl⟩ := List.mem_map.mp listed
  exact ⟨lock, (List.mem_filter.mp member).1, rfl⟩

theorem walked_skip (entry : Entry) (rest : List Entry) (locks : List LockRef) (tail : Merged)
    (above : ∀ lock ∈ locks, entry.id < lock.id) (walked : Walked rest locks tail) :
    Walked (entry :: rest) locks ⟨entry :: tail.old, tail.between, tail.after⟩ where
  old := by
    rw [List.map_cons, walked.old, raised_none locks entry]
    exact fun lock member => Ne.symm (UInt64.ne_of_lt (above lock member))
  added := by
    have same : missing (entry :: rest) locks = missing rest locks := by
      refine List.filter_congr fun lock member => ?_
      have apart : (entry.id == lock.id) = false :=
        beq_eq_false_iff_ne.mpr (UInt64.ne_of_lt (above lock member))
      simp [isListed, apart]
    rw [same]
    exact walked.added
  after := by
    intro found behind old listed
    rcases List.mem_cons.mp listed with here | later
    · obtain ⟨lock, member, rfl⟩ := walked.mem_after found behind
      rw [here]
      exact above lock member
    · exact walked.after found behind old later

theorem walked_raise (entry : Entry) (rest : List Entry) (lock : LockRef) (locks : List LockRef)
    (tail : Merged) (same : lock.id = entry.id) (later : ∀ old ∈ rest, entry.id < old.id)
    (above : ∀ next ∈ locks, entry.id < next.id) (walked : Walked rest locks tail) :
    Walked (entry :: rest) (lock :: locks)
      ⟨entry.prefer .exclusive :: tail.old, tail.between, tail.after⟩ where
  old := by
    rw [List.map_cons, walked.old]
    have here : raised (lock :: locks) entry = entry.prefer .exclusive := by
      simp [raised, same]
    rw [here]
    refine congrArg _ (List.map_congr_left fun old listed => ?_)
    have apart : (lock.id == old.id) = false := by
      rw [same]
      exact beq_eq_false_iff_ne.mpr (UInt64.ne_of_lt (later old listed))
    simp [raised, apart]
  added := by
    have listed : isListed (entry :: rest) lock = true := by simp [isListed, same]
    have skip : missing (entry :: rest) (lock :: locks) = missing (entry :: rest) locks := by
      simp [missing, listed]
    rw [skip]
    exact (walked_skip entry rest locks tail above walked).added
  after := (walked_skip entry rest locks tail above walked).after

theorem walk_walked (entries : List Entry) (locks : List LockRef)
    (ascending : Entry.Ascending entries) (ordered : LocksAscend locks) :
    Walked entries locks (walk entries locks) := by
  induction entries generalizing locks with
  | nil => exact walked_nil locks
  | cons entry rest ih =>
      obtain ⟨later, ascending⟩ := List.pairwise_cons.mp ascending
      let isSmaller := fun lock : LockRef => decide (lock.id < entry.id)
      have small : ∀ lock ∈ locks.takeWhile isSmaller, ∀ old ∈ entry :: rest, lock.id < old.id := by
        intro lock member old listed
        have below : lock.id < entry.id := by
          simpa [isSmaller] using List.all_eq_true.mp (List.all_takeWhile (p := isSmaller)) lock member
        rcases List.mem_cons.mp listed with rfl | behind
        · exact below
        · exact UInt64.lt_trans below (later old behind)
      have split : locks.takeWhile isSmaller ++ locks.dropWhile isSmaller = locks :=
        List.takeWhile_append_dropWhile
      have rests : LocksAscend (locks.dropWhile isSmaller) :=
        ordered.sublist (List.dropWhile_sublist isSmaller)
      have head := List.head?_dropWhile_not isSmaller locks
      unfold walk
      simp only
      cases left : locks.dropWhile isSmaller with
      | nil =>
          rw [left] at split
          have walked := walked_skip entry rest [] _ (by simp) (ih [] ascending List.Pairwise.nil)
          have whole := walked_smaller (entry :: rest) _ [] _ small walked
          rwa [split] at whole
      | cons lock behind =>
          rw [left] at split rests head
          obtain ⟨above, remain⟩ := List.pairwise_cons.mp rests
          have least : ¬ lock.id < entry.id := by simpa [isSmaller] using head
          by_cases same : lock.id = entry.id
          · simp only [if_pos same]
            have walked := walked_raise entry rest lock behind _ same later (same ▸ above)
              (ih behind ascending remain)
            have whole := walked_smaller (entry :: rest) _ _ _ small walked
            rwa [split] at whole
          · simp only [if_neg same]
            have more : entry.id < lock.id :=
              UInt64.lt_of_le_of_ne (UInt64.not_lt.mp least) (Ne.symm same)
            have all : ∀ next ∈ lock :: behind, entry.id < next.id := by
              intro next member
              rcases List.mem_cons.mp member with rfl | late
              · exact more
              · exact UInt64.lt_trans more (above next late)
            have walked := walked_skip entry rest _ _ all (ih (lock :: behind) ascending rests)
            have whole := walked_smaller (entry :: rest) _ _ _ small walked
            rwa [split] at whole

theorem ids_missing (entries : List Entry) (locks : List LockRef) :
    ((entries.map (raised locks) ++ placeholders (missing entries locks)).map Entry.id) =
      entries.map Entry.id ++ (missing entries locks).map LockRef.id := by
  simp [placeholders, Function.comp_def]

theorem different_merged (entries : List Entry) (locks : List LockRef)
    (ascending : Entry.Ascending entries) (ordered : LocksAscend locks) :
    ((entries.map (raised locks) ++ placeholders (missing entries locks)).map Entry.id).Nodup := by
  rw [ids_missing]
  refine List.nodup_append.mpr ⟨?_, ?_, ?_⟩
  · exact List.pairwise_map.mpr (ascending.imp fun less => UInt64.ne_of_lt less)
  · have part : LocksAscend (missing entries locks) := ordered.sublist List.filter_sublist
    exact List.pairwise_map.mpr (part.imp fun less => UInt64.ne_of_lt less)
  · intro id listed other added same
    subst same
    obtain ⟨entry, member, named⟩ := List.mem_map.mp listed
    obtain ⟨lock, unlisted, rfl⟩ := List.mem_map.mp added
    have absent := (List.mem_filter.mp unlisted).2
    simp only [isListed, Bool.not_eq_true', List.any_eq_false, beq_iff_eq] at absent
    exact absent entry member named

theorem merged_entries (entries : List Entry) (locks : List LockRef)
    (ascending : Entry.Ascending entries) (ordered : LocksAscend locks) :
    ((walk entries locks).entries.Perm
      (entries.map (raised locks) ++ placeholders (missing entries locks))) ∧
      Entry.Ascending (walk entries locks).entries := by
  have walked := walk_walked entries locks ascending ordered
  generalize walk entries locks = merged at walked
  have all : merged.old ++ merged.between ++ merged.after =
      entries.map (raised locks) ++ placeholders (missing entries locks) := by
    rw [List.append_assoc, walked.old, walked.added]
  have different := different_merged entries locks ascending ordered
  have perm := RetroList.sorted_perm (merged.old ++ merged.between ++ merged.after)
  unfold Merged.entries
  rw [all] at perm ⊢
  split
  · rename_i empty
    refine ⟨List.Perm.refl _, ?_⟩
    have none : merged.between = [] := by simpa using empty
    have behind : placeholders (missing entries locks) = merged.after := by
      rw [← walked.added, none, List.nil_append]
    refine List.pairwise_append.mpr ⟨?_, ?_, ?_⟩
    · refine List.pairwise_map.mpr (ascending.imp fun {a b} less => ?_)
      rwa [id_raised, id_raised]
    · have part : LocksAscend (missing entries locks) := ordered.sublist List.filter_sublist
      exact List.pairwise_map.mpr part
    · intro old listed found added
      rw [behind] at added
      obtain ⟨entry, member, rfl⟩ := List.mem_map.mp listed
      rw [id_raised]
      exact walked.after found added entry member
  · exact ⟨perm, RetroList.ascending_sorted _ different⟩

theorem tally_merged (entries : List Entry) (locks : List LockRef) (merged : List Entry)
    (perm : merged.Perm (entries.map (raised locks) ++ placeholders (missing entries locks)))
    (slot : Nat) (kind : Handle) : Entry.tally merged slot kind = Entry.tally entries slot kind := by
  have nothing : Entry.tally (placeholders (missing entries locks)) slot kind = 0 := by
    refine Entry.tally_of_owns_nothing _ (fun entry listed slot kind => ?_) slot kind
    obtain ⟨lock, _, rfl⟩ := List.mem_map.mp listed
    exact Entry.owns_fresh lock .exclusive slot kind
  rw [Entry.tally, perm.countP_eq]
  change Entry.tally _ slot kind = _
  rw [Entry.tally_append, nothing, Entry.tally_map _ _ (owns_raised locks), Nat.add_zero]

theorem written_ascend (writes : List WriteAccess)
    (ordered : writes.Pairwise fun a b => a.id ≤ b.id) :
    LocksAscend (written writes) ∧ ∀ lock ∈ written writes, ∃ write ∈ writes, write.lock = lock := by
  induction writes with
  | nil => exact ⟨List.Pairwise.nil, by simp [written]⟩
  | cons write rest ih =>
      obtain ⟨least, ordered⟩ := List.pairwise_cons.mp ordered
      obtain ⟨ascend, among⟩ := ih ordered
      have above : ∀ lock ∈ written rest, write.id ≤ lock.id := by
        intro lock member
        obtain ⟨other, listed, rfl⟩ := among lock member
        exact least other listed
      unfold written
      generalize written rest = locks at ascend among above
      cases locks with
      | nil => exact ⟨List.pairwise_singleton _ _, by simp⟩
      | cons next more =>
          obtain ⟨first, ascendMore⟩ := List.pairwise_cons.mp ascend
          simp only
          split
          · rename_i same
            refine ⟨List.pairwise_cons.mpr ⟨fun lock member => ?_, ascendMore⟩, ?_⟩
            · have less := first lock member
              rwa [same] at less
            · intro lock member
              rcases List.mem_cons.mp member with rfl | later
              · exact ⟨write, by simp, rfl⟩
              · obtain ⟨other, listed, named⟩ := among lock (by simp [later])
                exact ⟨other, by simp [listed], named⟩
          · rename_i different
            have less : write.id < next.id :=
              UInt64.lt_of_le_of_ne (above next (by simp)) (Ne.symm different)
            refine ⟨List.pairwise_cons.mpr ⟨?_, ascend⟩, ?_⟩
            · intro lock member
              rcases List.mem_cons.mp member with rfl | later
              · exact less
              · exact UInt64.lt_trans less (first lock later)
            · intro lock member
              rcases List.mem_cons.mp member with rfl | later
              · exact ⟨write, by simp, rfl⟩
              · obtain ⟨other, listed, named⟩ := among lock later
                exact ⟨other, by simp [listed], named⟩

theorem fill_keeps {ids : List UInt64} {list : CurrentList} {store : Store} (sound : list.Sound ids)
    (entries : List Entry) (fits : entries.length ≤ list.buffer.capacity)
    (ascending : Entry.Ascending entries) (all : ∀ entry ∈ entries, entry.Sound ids)
    (same : ∀ slot kind, Entry.tally entries slot kind = Entry.tally list.entries slot kind) :
    Keeps ids list store { list with buffer := list.buffer.fill entries } store := by
  have room : entries.length < list.buffer.cells.size := by
    have some := sound.buffer.room
    unfold Buffer.capacity at fits
    omega
  have view : (list.buffer.fill entries).entries = entries := Buffer.entries_fill _ _ room
  refine keeps_of_tally ⟨?_, ?_⟩ ?_ ?_
  · exact Buffer.sound_fill list.buffer entries room sound.buffer.sentinel ascending
  · change ∀ entry ∈ (list.buffer.fill entries).entries, _
    rw [view]
    exact all
  · simp [Buffer.fill]
  · change ∀ slot kind, Entry.tally (list.buffer.fill entries).entries slot kind = _
    rw [view]
    exact same

theorem merge_writes_keeps {ids : List UInt64} {list after : CurrentList} (store : Store)
    (sound : list.Sound ids) (writes : List WriteAccess)
    (on : ∀ write ∈ writes, write.lock.On ids)
    (ordered : writes.Pairwise fun a b => a.id ≤ b.id)
    (merged : list.mergeWrites writes = .ok after) : Keeps ids list store after store := by
  obtain ⟨ascend, among⟩ := written_ascend writes ordered
  obtain ⟨perm, ascending⟩ := merged_entries list.entries (written writes) sound.buffer.ascending ascend
  unfold mergeWrites at merged
  simp only at merged
  split at merged
  · cases merged
  · rename_i fits
    cases merged
    refine fill_keeps sound _ (Nat.le_of_not_lt fits) ascending ?_ (tally_merged _ _ _ perm)
    intro entry listed
    rcases List.mem_append.mp (perm.mem_iff.mp listed) with old | added
    · obtain ⟨entry, member, rfl⟩ := List.mem_map.mp old
      exact sound_raised ids _ entry (sound.entries entry member)
    · obtain ⟨lock, unlisted, rfl⟩ := List.mem_map.mp added
      obtain ⟨write, member, rfl⟩ := among lock (List.mem_filter.mp unlisted).1
      exact Entry.sound_fresh ids _ .exclusive (on write member)

structure Merges (list : CurrentList) (writes : List WriteAccess) (after : CurrentList) : Prop where
  entries : after.entries = (walk list.entries (written writes)).entries
  calls : after.calls = list.calls
  size : after.buffer.cells.size = list.buffer.cells.size

theorem merge_writes_merges {list after : CurrentList} (writes : List WriteAccess)
    (room : list.buffer.active < list.buffer.cells.size)
    (merged : list.mergeWrites writes = .ok after) : list.Merges writes after := by
  unfold mergeWrites at merged
  simp only at merged
  split at merged
  · cases merged
  · rename_i fits
    cases merged
    have inside : (walk list.entries (written writes)).entries.length < list.buffer.cells.size := by
      unfold Buffer.capacity at fits
      omega
    exact ⟨Buffer.entries_fill _ _ inside, rfl, by simp [Buffer.fill]⟩

theorem walk_behind (entries : List Entry) (locks : List LockRef)
    (ascending : Entry.Ascending entries) (ordered : LocksAscend locks)
    (behind : ∀ lock ∈ missing entries locks, ∀ entry ∈ entries, entry.id < lock.id) :
    (walk entries locks).entries =
      entries.map (raised locks) ++ placeholders (missing entries locks) := by
  obtain ⟨perm, sorted⟩ := merged_entries entries locks ascending ordered
  have plain : Entry.Ascending (entries.map (raised locks) ++ placeholders (missing entries locks)) := by
    refine List.pairwise_append.mpr ⟨?_, ?_, ?_⟩
    · exact List.pairwise_map.mpr (ascending.imp fun less => by rwa [id_raised, id_raised])
    · have part : LocksAscend (missing entries locks) := ordered.sublist List.filter_sublist
      exact List.pairwise_map.mpr part
    · intro old listed found added
      obtain ⟨entry, member, rfl⟩ := List.mem_map.mp listed
      obtain ⟨lock, absent, rfl⟩ := List.mem_map.mp added
      rw [id_raised]
      exact behind lock absent entry member
  exact Entry.eq_of_perm_of_ascending perm sorted plain

theorem entries_of_empty {list : CurrentList} (room : list.buffer.active < list.buffer.cells.size)
    (empty : list.isEmpty = true) : list.entries = [] := by
  have none : list.buffer.active = 0 := by simpa [isEmpty, Buffer.isEmpty] using empty
  refine List.length_eq_zero_iff.mp ?_
  rw [entries, Buffer.length_entries list.buffer room, none]

theorem seed_keeps {ids : List UInt64} {list after : CurrentList} (store : Store) (retro : RetroList)
    (sound : list.Sound ids) (good : retro.Sound ids) (seeded : list.seed retro = .ok after) :
    Keeps ids list store after store := by
  unfold seed at seeded
  split at seeded
  · cases seeded
  · rename_i notBusy
    have empty : list.entries = [] := entries_of_empty sound.buffer.room (by simpa using notBusy)
    split at seeded
    · cases seeded
    · rename_i fits
      cases seeded
      refine fill_keeps sound _ ?_ good.buffer.ascending good.entries ?_
      · rw [Buffer.length_entries retro.buffer good.buffer.room]
        exact Nat.le_of_not_lt fits
      · intro slot kind
        rw [Entry.tally_of_unlocked _ good.free, empty]
        rfl

end CurrentList

end LockOrder
