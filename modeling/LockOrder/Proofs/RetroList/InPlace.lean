import LockOrder.Proofs.CurrentList.Cursors
import LockOrder.Proofs.RetroList.Needed
import Mathlib.Data.List.Sort

set_option autoImplicit false

namespace LockOrder

namespace Buffer

variable {buffer : Buffer} {pos : Nat}

theorem set_self (buffer : Buffer) (pos : Nat) : buffer.set pos (buffer.cell pos) = buffer := by
  refine ext_cells (size_set ..) rfl fun other => ?_
  by_cases here : other = pos
  · by_cases inside : pos < buffer.cells.size
    · rw [cell_set _ _ _ _ inside, if_pos here, here]
    · simp [set, cell, here, inside]
  · exact cell_set_other buffer pos other _ here

theorem write_set (entry first : Entry) (rest : List Entry) :
    (buffer.set pos entry).write pos (first :: rest) = buffer.write pos (first :: rest) := by
  have twice : (buffer.set pos entry).set pos first = buffer.set pos first := by
    simp [set]
  rw [write, twice, write]

theorem entries_from_set (entry : Entry) {before : Nat} (behind : before < pos) :
    (buffer.set before entry).entriesFrom pos = buffer.entriesFrom pos := by
  simp only [entriesFrom, set, Array.toList_extract, List.extract_eq_take_drop,
    Array.toList_setIfInBounds, List.drop_set_of_lt behind]

theorem entries_from_cons (room : buffer.active < buffer.cells.size) (first : 0 < pos)
    (inside : pos ≤ buffer.active) :
    buffer.entriesFrom pos = buffer.cell pos :: buffer.entriesFrom (pos + 1) := by
  have here := entry_at buffer room pos first inside
  obtain ⟨bound, value⟩ := List.getElem?_eq_some_iff.mp here
  have next : pos - 1 + 1 = pos := by omega
  rw [entries_from_eq_drop buffer pos first, entries_from_eq_drop buffer (pos + 1) (Nat.succ_pos pos),
    List.drop_eq_getElem_cons bound, value, next, Nat.add_sub_cancel]

theorem entries_from_nil (behind : buffer.active < pos) : buffer.entriesFrom pos = [] := by
  rw [entriesFrom, Array.toList_extract, List.extract_eq_take_drop]
  have none : buffer.active + 1 - pos = 0 := by omega
  rw [none, List.take_zero]

end Buffer

namespace RetroList

-- Goes over the `left` cells from `pos` on, which ascend. The entry of each is merged into that of the
-- cell `kept` if it is of the same lock, and moved behind it otherwise.
def collapseFrom (kept pos : Nat) : Nat → Buffer → Buffer
  | 0, buffer => { buffer with active := kept }
  | left + 1, buffer =>
      if (buffer.cell kept).id = (buffer.cell pos).id then
        collapseFrom kept (pos + 1) left
          (buffer.set kept ((buffer.cell kept).prefer (buffer.cell pos).preferred))
      else
        collapseFrom (kept + 1) (pos + 1) left
          (if kept + 1 < pos then buffer.set (kept + 1) (buffer.cell pos) else buffer)

-- Builds the list with any way to bring entries into order.
def constructInPlace (arrange : List Entry → List Entry) (list : RetroList) (sets : AccessSets)
    (threshold : UInt32) (store : Store) : Except Misuse RetroList :=
  match append list.reset.buffer (needed sets threshold store) with
  | none => .error (.full .retroList)
  | some buffer =>
      if buffer.active ≤ 1 then .ok ⟨buffer⟩
      else .ok ⟨collapseFrom 1 2 (buffer.active - 1) (buffer.fill (arrange buffer.entries))⟩

theorem collapse_eq_cons (first : Entry) (rest : List Entry) :
    ∃ merged others, collapse first rest = merged :: others := by
  induction rest generalizing first with
  | nil => exact ⟨first, [], rfl⟩
  | cons next rest ih =>
      rw [collapse]
      by_cases same : first.id = next.id
      · rw [if_pos same]
        exact ih _
      · rw [if_neg same]
        exact ⟨first, collapse next rest, rfl⟩

theorem collapse_from_eq (kept pos left : Nat) (buffer : Buffer)
    (room : buffer.active < buffer.cells.size) (before : kept < pos)
    (last : pos + left = buffer.active + 1) :
    collapseFrom kept pos left buffer =
      { buffer.write kept (collapse (buffer.cell kept) (buffer.entriesFrom pos)) with
        active := kept + (collapse (buffer.cell kept) (buffer.entriesFrom pos)).length - 1 } := by
  induction left generalizing kept pos buffer with
  | zero =>
      rw [Buffer.entries_from_nil (by omega), collapse, Buffer.write, Buffer.write, Buffer.set_self]
      rfl
  | succ left ih =>
      rw [collapseFrom, Buffer.entries_from_cons room (by omega) (by omega), collapse]
      by_cases same : (buffer.cell kept).id = (buffer.cell pos).id
      · rw [if_pos same, if_pos same, ih _ _ _ (by simpa using room) (by omega)
          (by rw [Buffer.active_set]; omega), Buffer.entries_from_set _ (by omega),
          Buffer.cell_set _ _ _ _ (by omega), if_pos rfl]
        obtain ⟨merged, others, shape⟩ := collapse_eq_cons
          ((buffer.cell kept).prefer (buffer.cell pos).preferred) (buffer.entriesFrom (pos + 1))
        rw [shape, Buffer.write_set]
      · -- The entry is moved, or it is where it belongs already.
        have moved : (if kept + 1 < pos then buffer.set (kept + 1) (buffer.cell pos) else buffer) =
            buffer.set (kept + 1) (buffer.cell pos) := by
          by_cases gap : kept + 1 < pos
          · rw [if_pos gap]
          · have here : pos = kept + 1 := by omega
            rw [if_neg gap, here, Buffer.set_self]
        rw [if_neg same, if_neg same, moved, ih _ _ _ (by simpa using room) (by omega)
          (by rw [Buffer.active_set]; omega), Buffer.entries_from_set _ (by omega),
          Buffer.cell_set _ _ _ _ (by omega), if_pos rfl]
        obtain ⟨merged, others, shape⟩ := collapse_eq_cons (buffer.cell pos)
          (buffer.entriesFrom (pos + 1))
        have whole : buffer.write kept (buffer.cell kept :: merged :: others) =
            buffer.write (kept + 1) (merged :: others) := by
          rw [Buffer.write, Buffer.set_self]
        have count : kept + 1 + (merged :: others).length - 1 =
            kept + (buffer.cell kept :: merged :: others).length - 1 := by
          simp only [List.length_cons]
          omega
        rw [shape, Buffer.write_set, whole, count]

theorem runs_ascending (order : List Entry) (ordered : order.Pairwise fun a b => a.id ≤ b.id) :
    Entry.Ascending (runs order) := by
  cases order with
  | nil => exact List.Pairwise.nil
  | cons first rest => exact collapse_ascending first rest ordered

theorem prefer_exclusive_iff (entry : Entry) (mode : Mode) :
    (entry.prefer mode).preferred = .exclusive ↔ entry.preferred = .exclusive ∨ mode = .exclusive := by
  change max entry.preferred mode = .exclusive ↔ _
  cases entry.preferred <;> cases mode <;> decide

theorem collapse_wishes (first : Entry) (rest : List Entry)
    (ordered : (first :: rest).Pairwise fun a b => a.id ≤ b.id) :
    ∀ entry ∈ collapse first rest, (entry.preferred = .exclusive ↔
      ∃ other ∈ first :: rest, other.id = entry.id ∧ other.preferred = .exclusive) := by
  induction rest generalizing first with
  | nil =>
      intro entry listed
      obtain rfl := List.mem_singleton.mp listed
      simp
  | cons next rest ih =>
      obtain ⟨least, later⟩ := List.pairwise_cons.mp ordered
      rw [collapse]
      by_cases same : first.id = next.id
      · rw [if_pos same]
        have raised : (first.prefer next.preferred :: rest).Pairwise fun a b => a.id ≤ b.id :=
          List.pairwise_cons.mpr ⟨fun entry listed => least entry (List.mem_cons_of_mem _ listed),
            (List.pairwise_cons.mp later).2⟩
        intro entry listed
        rw [ih _ raised entry listed]
        simp only [List.mem_cons, exists_eq_or_imp, Entry.id_prefer, prefer_exclusive_iff, same,
          and_or_left, or_assoc]
      · rw [if_neg same]
        have less : first.id < next.id :=
          UInt64.lt_of_le_of_ne (least next (List.mem_cons_self ..)) same
        have above : ∀ entry ∈ next :: rest, first.id < entry.id := by
          intro entry listed
          rcases List.mem_cons.mp listed with here | member
          · rw [here]
            exact less
          · exact UInt64.lt_of_lt_of_le less ((List.pairwise_cons.mp later).1 entry member)
        have alone : ∀ entry ∈ next :: rest, first.id ≠ entry.id := fun entry listed =>
          UInt64.ne_of_lt (above entry listed)
        intro entry listed
        rw [List.exists_mem_cons_iff]
        rcases List.mem_cons.mp listed with here | member
        · have none : ¬ ∃ other ∈ next :: rest, other.id = first.id ∧ other.preferred = .exclusive := by
            rintro ⟨other, there, equal, _⟩
            exact alone other there equal.symm
          rw [here, or_iff_left none]
          simp
        · obtain ⟨other, there, equal⟩ := (collapse_ids next rest entry.id).mp ⟨entry, member, rfl⟩
          have apart := alone other there
          rw [equal] at apart
          rw [ih next later entry member, or_iff_right fun both => apart both.1]

structure Sorts (arrange : List Entry → List Entry) : Prop where
  perm : ∀ entries, (arrange entries).Perm entries
  ordered : ∀ entries, (arrange entries).Pairwise fun a b => a.id ≤ b.id

theorem sorts_sorted : Sorts sorted := ⟨sorted_perm, sorted_ordered⟩

theorem collapse_from_runs (buffer : Buffer) (some : 0 < buffer.active)
    (room : buffer.active < buffer.cells.size) :
    collapseFrom 1 2 (buffer.active - 1) buffer = buffer.fill (runs buffer.entries) := by
  have split : buffer.entries = buffer.cell 1 :: buffer.entriesFrom 2 :=
    Buffer.entries_from_cons room Nat.one_pos some
  rw [collapse_from_eq 1 2 _ buffer room (by omega) (by omega), split, runs, Nat.add_sub_cancel_left]
  rfl

theorem length_runs (order : List Entry) : (runs order).length ≤ order.length := by
  cases order with
  | nil => exact Nat.le_refl _
  | cons first rest => exact length_collapse first rest

theorem construct_in_place_cases {arrange : List Entry → List Entry} (sorts : Sorts arrange)
    (list : RetroList) (room : 0 < list.buffer.cells.size) (sets : AccessSets) (threshold : UInt32)
    (store : Store) :
    (list.constructInPlace arrange sets threshold store = .error (.full .retroList) ∧
      list.buffer.capacity < (needed sets threshold store).length) ∨
    ((needed sets threshold store).length ≤ list.buffer.capacity ∧
      ∃ after, list.constructInPlace arrange sets threshold store = .ok after ∧
        after.buffer.entries = runs (arrange (needed sets threshold store))) := by
  have clean : list.reset.buffer.Sound := Buffer.sound_clear list.buffer room
  have old : list.reset.buffer.entries = [] := Buffer.entries_clear list.buffer
  have cells : list.reset.buffer.cells.size = list.buffer.cells.size := by
    simp [reset, Buffer.clear]
  have empty : list.reset.buffer.active = 0 := rfl
  rw [constructInPlace, Buffer.capacity, ← cells]
  rcases append_counts list.reset.buffer (needed sets threshold store) with
    ⟨next, appended, count⟩ | ⟨none, full⟩
  · obtain ⟨view, size, _, bound⟩ := append_entries _ next _ clean.room appended
    rw [old, List.nil_append] at view
    rw [appended]
    refine Or.inr ⟨by omega, ?_⟩
    have perm := sorts.perm (needed sets threshold store)
    by_cases short : next.active ≤ 1
    · simp only [if_pos short]
      refine ⟨_, rfl, ?_⟩
      rw [runs_of_short perm (by omega)]
      exact view
    · simp only [if_neg short, view]
      have length : (arrange (needed sets threshold store)).length = next.active := by
        rw [perm.length_eq]
        omega
      have filled := Buffer.entries_fill next (arrange (needed sets threshold store)) (by omega)
      have active : (next.fill (arrange (needed sets threshold store))).active = next.active := length
      have inside : next.active < (next.fill (arrange (needed sets threshold store))).cells.size := by
        simpa [Buffer.fill] using bound
      have fewer := length_runs (arrange (needed sets threshold store))
      refine ⟨_, rfl, ?_⟩
      simp only
      rw [← active, collapse_from_runs _ (by omega) (by omega), filled]
      exact Buffer.entries_fill _ _ (by omega)
  · rw [none]
    rw [Buffer.capacity] at full
    exact Or.inl ⟨rfl, by omega⟩

theorem construct_eq_in_place (list : RetroList) (room : 0 < list.buffer.cells.size) (sets : AccessSets)
    (threshold : UInt32) (store : Store) :
    list.construct sets threshold store = list.constructInPlace sorted sets threshold store := by
  have clean : list.reset.buffer.Sound := Buffer.sound_clear list.buffer room
  rw [construct, constructInPlace]
  cases appended : append list.reset.buffer (needed sets threshold store) with
  | none => rfl
  | some next =>
      obtain ⟨_, _, _, bound⟩ := append_entries _ next _ clean.room appended
      by_cases short : next.active ≤ 1
      · simp only [if_pos short]
      · simp only [if_neg short]
        have length : (sorted next.entries).length = next.active := by
          rw [(sorted_perm next.entries).length_eq, Buffer.length_entries next bound]
        have active : (next.fill (sorted next.entries)).active = next.active := length
        have inside : next.active < (next.fill (sorted next.entries)).cells.size := by
          simpa [Buffer.fill] using bound
        have loop := collapse_from_runs (next.fill (sorted next.entries)) (by omega) (by omega)
        rw [active] at loop
        rw [loop]
        cases listed : (next.fill (sorted next.entries)).entries with
        | nil =>
            have none := Buffer.length_entries (next.fill (sorted next.entries)) (by omega)
            rw [listed, active, List.length_nil] at none
            omega
        | cons first rest => rfl

theorem needed_perm {sets others : AccessSets} (threshold : UInt32) (store : Store)
    (reads : others.reads.toList.Perm sets.reads.toList)
    (writes : (others.writes.toList.map WriteAccess.lock).Perm
      (sets.writes.toList.map WriteAccess.lock)) :
    (needed others threshold store).Perm (needed sets threshold store) := by
  have whole := writes.map (Entry.fresh · .exclusive)
  rw [List.map_map, List.map_map] at whole
  exact ((reads.filter _).map _).append whole

theorem length_needed_eq (sets : AccessSets) (threshold : UInt32) (store : Store) :
    (needed sets threshold store).length =
      sets.reads.toList.countP (keeps threshold store) + sets.writes.size := by
  rw [needed, List.length_append, List.length_map, List.length_map, List.countP_eq_length_filter]
  rfl

theorem keeps_iff (threshold : UInt32) (store : Store) (read : ReadAccess) :
    keeps threshold store read = true ↔
      threshold ≤ (store.recordAt read.lock.slot).hotness.level ∨
        (store.recordAt read.lock.slot).version ≠ read.version := by
  rw [keeps, ReadAccess.isCurrent, Bool.not_eq_true', Bool.and_eq_false_iff, decide_eq_false_iff_not,
    UInt32.not_lt, beq_eq_false_iff_ne]

-- The entries are those of the records that are written or whose read is kept, each once and in order.
-- Each wants the whole lock if its record is written, and holds nothing.
structure Lists (sets : AccessSets) (threshold : UInt32) (store : Store) (entries : List Entry) :
    Prop where
  ascending : Entry.Ascending entries
  ids : ∀ id, (∃ entry ∈ entries, entry.id = id) ↔
    (∃ read ∈ sets.reads.toList, read.lock.id = id ∧ keeps threshold store read = true) ∨
      ∃ write ∈ sets.writes.toList, write.id = id
  wishes : ∀ entry ∈ entries, entry.preferred =
    if ∃ write ∈ sets.writes.toList, write.id = entry.id then .exclusive else .shared
  free : ∀ entry ∈ entries, entry.taken = .unlocked ∧ entry.handle = none
  locks : ∀ entry ∈ entries, (∃ read ∈ sets.reads.toList, entry.lock = some read.lock) ∨
    ∃ write ∈ sets.writes.toList, entry.lock = some write.lock

variable {ids : List UInt64} {sets : AccessSets} {threshold : UInt32} {store : Store}
  {entries other order : List Entry}

theorem needed_written (sets : AccessSets) (threshold : UInt32) (store : Store) (entry : Entry) :
    (∃ asked ∈ needed sets threshold store, asked.id = entry.id ∧ asked.preferred = .exclusive) ↔
      ∃ write ∈ sets.writes.toList, write.id = entry.id := by
  constructor
  · rintro ⟨asked, listed, same, whole⟩
    rcases mem_needed sets threshold store asked listed with ⟨read, _, rfl⟩ | ⟨write, member, rfl⟩
    · cases whole
    · exact ⟨write, member, same⟩
  · rintro ⟨write, member, same⟩
    exact ⟨.fresh write.lock .exclusive,
      List.mem_append_right _ (List.mem_map_of_mem member), same, rfl⟩

theorem lists_runs (perm : order.Perm (needed sets threshold store))
    (ordered : order.Pairwise fun a b => a.id ≤ b.id) : Lists sets threshold store (runs order) := by
  have all := fun (holds : Entry → Prop) kept (start : ∀ entry ∈ needed sets threshold store, holds entry) =>
    runs_all holds kept order fun entry listed => start entry (perm.mem_iff.mp listed)
  have wants := all (fun entry => entry.preferred ≠ .unlocked)
    (fun entry mode wants => entry.prefer_wants mode wants) (needed_wants sets threshold store)
  refine ⟨runs_ascending order ordered, fun id => ?_, fun entry listed => ?_, all _ ?_ ?_, all _ ?_ ?_⟩
  · rw [runs_ids, ← needed_ids]
    simp only [perm.mem_iff]
  · have whole : entry.preferred = .exclusive ↔ ∃ write ∈ sets.writes.toList, write.id = entry.id := by
      cases order with
      | nil => cases listed
      | cons first rest =>
          rw [collapse_wishes first rest ordered entry listed, ← needed_written sets threshold store]
          simp only [perm.mem_iff]
    by_cases written : ∃ write ∈ sets.writes.toList, write.id = entry.id
    · rw [if_pos written]
      exact whole.mpr written
    · rw [if_neg written]
      cases wish : entry.preferred with
      | unlocked => exact absurd wish (wants entry listed)
      | shared => rfl
      | exclusive => exact absurd (whole.mp wish) written
  · exact fun entry mode free => free
  · intro entry listed
    rcases mem_needed sets threshold store entry listed with ⟨read, _, rfl⟩ | ⟨write, _, rfl⟩ <;>
      exact ⟨rfl, rfl⟩
  · exact fun entry mode named => named
  · intro entry listed
    rcases mem_needed sets threshold store entry listed with ⟨read, member, rfl⟩ | ⟨write, member, rfl⟩
    · exact Or.inl ⟨read, member, rfl⟩
    · exact Or.inr ⟨write, member, rfl⟩

theorem Lists.lock_on (lists : Lists sets threshold store entries) (on : sets.On ids) (entry : Entry)
    (listed : entry ∈ entries) : ∃ lock, entry.lock = some lock ∧ lock.On ids := by
  rcases lists.locks entry listed with ⟨read, member, named⟩ | ⟨write, member, named⟩
  · exact ⟨read.lock, named, on.reads read member⟩
  · exact ⟨write.lock, named, on.writes write member⟩

theorem Lists.subset (mine : Lists sets threshold store entries)
    (yours : Lists sets threshold store other) (different : ids.Nodup) (on : sets.On ids) :
    ∀ entry ∈ entries, entry ∈ other := by
  intro entry listed
  obtain ⟨twin, there, same⟩ := (yours.ids entry.id).mpr ((mine.ids entry.id).mp ⟨entry, listed, rfl⟩)
  obtain ⟨lock, named, here⟩ := mine.lock_on on entry listed
  obtain ⟨twinLock, twinNamed, twinHere⟩ := yours.lock_on on twin there
  have locks : twin.lock = entry.lock := by
    have ids := same
    rw [Entry.id, Entry.id, named, twinNamed] at ids
    rw [named, twinNamed, LockRef.on_injective different twinHere here ids]
  have wishes : twin.preferred = entry.preferred := by
    rw [yours.wishes twin there, mine.wishes entry listed, same]
  have taken := (yours.free twin there).1.trans (mine.free entry listed).1.symm
  have handles := (yours.free twin there).2.trans (mine.free entry listed).2.symm
  have equal : twin = entry := by
    cases twin
    cases entry
    exact Entry.mk.injEq .. ▸ ⟨locks, wishes, taken, handles⟩
  rwa [← equal]

theorem Lists.unique (mine : Lists sets threshold store entries)
    (yours : Lists sets threshold store other) (different : ids.Nodup) (on : sets.On ids) :
    entries = other := by
  have once : ∀ list : List Entry, Entry.Ascending list → list.Nodup := by
    intro list ascending
    refine List.Pairwise.imp (fun less same => ?_) ascending
    rw [same] at less
    exact UInt64.lt_irrefl _ less
  have perm : entries.Perm other :=
    (List.perm_ext_iff_of_nodup (once _ mine.ascending) (once _ yours.ascending)).mpr fun entry =>
      ⟨mine.subset yours different on entry, yours.subset mine different on entry⟩
  exact Entry.eq_of_perm_of_ascending perm mine.ascending yours.ascending

theorem construct_lists_needed (list : RetroList) (room : 0 < list.buffer.cells.size)
    (sets : AccessSets) (threshold : UInt32) (store : Store) :
    (∀ read, keeps threshold store read = true ↔
      threshold ≤ (store.recordAt read.lock.slot).hotness.level ∨
        (store.recordAt read.lock.slot).version ≠ read.version) ∧
    Sorts sorted ∧
    list.construct sets threshold store = list.constructInPlace sorted sets threshold store ∧
    ∀ arrange, Sorts arrange →
      (list.constructInPlace arrange sets threshold store = .error (.full .retroList) ↔
        list.buffer.capacity <
          sets.reads.toList.countP (keeps threshold store) + sets.writes.size) ∧
      (sets.reads.toList.countP (keeps threshold store) + sets.writes.size ≤ list.buffer.capacity →
        ∃ after, list.constructInPlace arrange sets threshold store = .ok after ∧
          Lists sets threshold store after.buffer.entries) ∧
      -- The same accesses in another order make the same list out of any other one, however it sorts.
      ∀ (ids : List UInt64) (others : AccessSets) (other : RetroList) (again : List Entry → List Entry),
        ids.Nodup → sets.On ids → others.reads.toList.Perm sets.reads.toList →
        (others.writes.toList.map WriteAccess.lock).Perm (sets.writes.toList.map WriteAccess.lock) →
        0 < other.buffer.cells.size → other.buffer.capacity = list.buffer.capacity → Sorts again →
          (other.constructInPlace again others threshold store).map (·.buffer.entries) =
            (list.constructInPlace arrange sets threshold store).map (·.buffer.entries) := by
  refine ⟨keeps_iff threshold store, sorts_sorted, construct_eq_in_place list room sets threshold store,
    fun arrange sorts => ?_⟩
  have cases := construct_in_place_cases sorts list room sets threshold store
  have lists := lists_runs (sorts.perm (needed sets threshold store)) (sorts.ordered _)
  rw [← length_needed_eq]
  refine ⟨⟨fun full => ?_, fun less => ?_⟩, fun fits => ?_,
    fun ids others other again different on reads writes space same sorting => ?_⟩
  · rcases cases with ⟨_, less⟩ | ⟨_, after, built, _⟩
    · exact less
    · rw [built] at full
      cases full
  · rcases cases with ⟨full, _⟩ | ⟨fits, _⟩
    · exact full
    · omega
  · rcases cases with ⟨_, less⟩ | ⟨_, after, built, view⟩
    · omega
    · rw [← view] at lists
      exact ⟨after, built, lists⟩
  · have perm := needed_perm threshold store reads writes
    have length := perm.length_eq
    have theirs := lists_runs ((sorting.perm (needed others threshold store)).trans perm)
      (sorting.ordered _)
    rcases construct_in_place_cases sorting other space others threshold store with
      ⟨refused, full⟩ | ⟨enough, built, added, view⟩
    · rcases cases with ⟨error, _⟩ | ⟨fits, _⟩
      · rw [refused, error]
      · omega
    · rcases cases with ⟨_, less⟩ | ⟨_, after, made, entries⟩
      · omega
      · rw [added, made, Except.map, Except.map, view, entries]
        exact congrArg Except.ok (theirs.unique lists different on)

def backwards (entries : List Entry) : List Entry :=
  entries.reverse.insertionSort fun a b => a.id ≤ b.id

theorem sorts_backwards : Sorts backwards where
  perm := fun entries => (List.perm_insertionSort _ _).trans entries.reverse_perm
  ordered := fun entries => by
    have total : Std.Total fun a b : Entry => a.id ≤ b.id := ⟨fun a b => UInt64.le_total a.id b.id⟩
    have chain : IsTrans Entry fun a b => a.id ≤ b.id := ⟨fun _ _ _ => UInt64.le_trans⟩
    exact List.pairwise_insertionSort _ _

def mixedStore : Store where
  records := #[{ id := 1, version := 5 }, { id := 2, version := 5, hotness := ⟨9⟩ },
    { id := 3, version := 5 }, { id := 4, version := 5 }]

def mixedSets : AccessSets where
  capacity := 4
  reads := #[⟨⟨2, 3⟩, 4⟩, ⟨⟨0, 1⟩, 5⟩, ⟨⟨2, 3⟩, 5⟩, ⟨⟨1, 2⟩, 5⟩]
  writes := #[⟨⟨3, 4⟩, 0, 7⟩, ⟨⟨2, 3⟩, 1, 8⟩, ⟨⟨2, 3⟩, 2, 9⟩]

def turnedSets : AccessSets where
  capacity := 4
  reads := #[⟨⟨1, 2⟩, 5⟩, ⟨⟨2, 3⟩, 5⟩, ⟨⟨0, 1⟩, 5⟩, ⟨⟨2, 3⟩, 4⟩]
  writes := #[⟨⟨2, 3⟩, 0, 9⟩, ⟨⟨2, 3⟩, 1, 8⟩, ⟨⟨3, 4⟩, 2, 7⟩]

theorem mixed_sets_on : mixedSets.On [1, 2, 3, 4] where
  reads := by
    unfold LockRef.On
    decide
  writes := by
    unfold LockRef.On
    decide

def stale : RetroList where
  buffer :=
    { cells := #[.sentinel, .fresh ⟨0, 1⟩ .exclusive, .sentinel, .sentinel, .sentinel, .sentinel]
      active := 1 }

-- Five accesses need a lock. They fit into five cells, in either order, and not into four.
theorem mixed_sets_listed :
    (∃ after, stale.constructInPlace backwards mixedSets 9 mixedStore = .ok after ∧
      Lists mixedSets 9 mixedStore after.buffer.entries) ∧
    (stale.constructInPlace backwards mixedSets 9 mixedStore).map (·.buffer.entries) =
      .ok [.fresh ⟨1, 2⟩ .shared, .fresh ⟨2, 3⟩ .exclusive, .fresh ⟨3, 4⟩ .exclusive] ∧
    ((ofCapacity 5).constructInPlace sorted turnedSets 9 mixedStore).map (·.buffer.entries) =
      (stale.constructInPlace backwards mixedSets 9 mixedStore).map (·.buffer.entries) ∧
    (ofCapacity 4).constructInPlace backwards mixedSets 9 mixedStore = .error (.full .retroList) := by
  obtain ⟨_, sorts, _, each⟩ := construct_lists_needed stale (by decide) mixedSets 9 mixedStore
  obtain ⟨_, fits, turned⟩ := each backwards sorts_backwards
  have small := (construct_lists_needed (ofCapacity 4) (by decide) mixedSets 9 mixedStore).2.2.2
    backwards sorts_backwards
  refine ⟨fits (by decide), ?_, ?_, small.1.mpr (by decide)⟩
  · decide +kernel
  · exact turned [1, 2, 3, 4] turnedSets (ofCapacity 5) sorted (by decide) mixed_sets_on (by decide)
      (by decide) (by decide) (by decide) sorts

end RetroList

end LockOrder
