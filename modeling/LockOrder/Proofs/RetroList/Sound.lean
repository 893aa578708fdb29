import LockOrder.RetroList
import LockOrder.Proofs.AccessSets.Order
import LockOrder.Proofs.Buffer.Edits
import LockOrder.Proofs.Entry.Holdings

set_option autoImplicit false

namespace LockOrder

namespace RetroList

variable {ids : List UInt64}

structure Sound (ids : List UInt64) (list : RetroList) : Prop where
  buffer : list.buffer.Sound
  entries : ∀ entry ∈ list.buffer.entries, entry.Sound ids
  free : ∀ entry ∈ list.buffer.entries, entry.isLocked = false

-- All but the order of the entries.
structure Loose (ids : List UInt64) (list : RetroList) : Prop where
  room : list.buffer.active < list.buffer.cells.size
  sentinel : list.buffer.cell 0 = .sentinel
  entries : ∀ entry ∈ list.buffer.entries, entry.Sound ids
  free : ∀ entry ∈ list.buffer.entries, entry.isLocked = false

theorem Sound.loose {list : RetroList} (sound : list.Sound ids) : list.Loose ids :=
  ⟨sound.buffer.room, sound.buffer.sentinel, sound.entries, sound.free⟩

theorem Loose.some_cell {list : RetroList} (loose : list.Loose ids) : 0 < list.buffer.cells.size :=
  Nat.lt_of_le_of_lt (Nat.zero_le _) loose.room

theorem Loose.sound {list : RetroList} (loose : list.Loose ids)
    (ascending : Entry.Ascending list.buffer.entries) : list.Sound ids :=
  ⟨⟨loose.room, loose.sentinel, ascending⟩, loose.entries, loose.free⟩

theorem sound_of_capacity (ids : List UInt64) (capacity : Nat) : (ofCapacity capacity).Sound ids where
  buffer := Buffer.sound_of_capacity capacity
  entries := by simp [ofCapacity, Buffer.entries_of_capacity]
  free := by simp [ofCapacity, Buffer.entries_of_capacity]

theorem sound_reset (ids : List UInt64) (list : RetroList) (room : 0 < list.buffer.cells.size) :
    list.reset.Sound ids where
  buffer := Buffer.sound_clear list.buffer room
  entries := by simp [reset, Buffer.entries_clear]
  free := by simp [reset, Buffer.entries_clear]

theorem sorted_perm (entries : List Entry) : (sorted entries).Perm entries :=
  List.mergeSort_perm entries _

theorem sorted_ordered (entries : List Entry) :
    (sorted entries).Pairwise fun a b => a.id ≤ b.id := by
  have ordered : (sorted entries).Pairwise fun a b => decide (a.id ≤ b.id) = true := by
    refine List.pairwise_mergeSort (fun a b c first second => ?_) (fun a b => ?_) entries
    · simp only [decide_eq_true_eq] at first second ⊢
      exact UInt64.le_trans first second
    · simp only [Bool.or_eq_true, decide_eq_true_eq]
      exact UInt64.le_total a.id b.id
  exact ordered.imp fun order => by simpa using order

theorem ascending_sorted (entries : List Entry) (different : (entries.map Entry.id).Nodup) :
    Entry.Ascending (sorted entries) := by
  have apart : (sorted entries).Pairwise fun a b => a.id ≠ b.id :=
    List.pairwise_map.mp (((sorted_perm entries).map Entry.id).nodup_iff.mpr different)
  exact (List.Pairwise.and (sorted_ordered entries) apart).imp fun both =>
    UInt64.lt_of_le_of_ne both.1 both.2

theorem append_entries (buffer next : Buffer) (entries : List Entry)
    (room : buffer.active < buffer.cells.size) (appended : append buffer entries = some next) :
    next.entries = buffer.entries ++ entries ∧ next.cells.size = buffer.cells.size ∧
      next.cell 0 = buffer.cell 0 ∧ next.active < next.cells.size := by
  induction entries generalizing buffer with
  | nil =>
      cases appended
      exact ⟨by simp, rfl, rfl, room⟩
  | cons entry rest ih =>
      unfold append at appended
      split at appended
      · rename_i mid pushed
        have view := Buffer.entries_push buffer mid entry pushed
        unfold Buffer.push at pushed
        split at pushed
        · rename_i free
          cases pushed
          unfold Buffer.capacity at free
          obtain ⟨entries, size, sentinel, bound⟩ := ih _ (by simp; omega) appended
          refine ⟨by rw [entries, view, List.append_assoc]; rfl, by simpa using size, ?_, bound⟩
          exact sentinel.trans (Buffer.cell_set_other buffer _ 0 entry (by omega))
        · cases pushed
      · cases appended

theorem collapse_all (holds : Entry → Prop)
    (kept : ∀ entry mode, holds entry → holds (entry.prefer mode)) (first : Entry)
    (rest : List Entry) (all : ∀ entry ∈ first :: rest, holds entry) :
    ∀ entry ∈ collapse first rest, holds entry := by
  induction rest generalizing first with
  | nil => exact all
  | cons next rest ih =>
      unfold collapse
      split
      · refine ih (first.prefer next.preferred) fun entry listed => ?_
        rcases List.mem_cons.mp listed with here | later
        · rw [here]
          exact kept first _ (all first (by simp))
        · exact all entry (by simp [later])
      · intro entry listed
        rcases List.mem_cons.mp listed with here | later
        · exact all entry (by simp [here])
        · exact ih next (fun other member => all other (by simp [List.mem_cons.mp member])) entry later

theorem collapse_ascending (first : Entry) (rest : List Entry)
    (ordered : (first :: rest).Pairwise fun a b => a.id ≤ b.id) :
    Entry.Ascending (collapse first rest) := by
  induction rest generalizing first with
  | nil => exact List.pairwise_singleton _ _
  | cons next rest ih =>
      obtain ⟨least, later⟩ := List.pairwise_cons.mp ordered
      unfold collapse
      split
      · refine ih _ (List.pairwise_cons.mpr ⟨?_, (List.pairwise_cons.mp later).2⟩)
        exact fun entry listed => least entry (by simp [listed])
      · rename_i different
        have less : first.id < next.id := UInt64.lt_of_le_of_ne (least next (by simp)) different
        refine List.pairwise_cons.mpr ⟨?_, ih next later⟩
        refine collapse_all (fun entry => first.id < entry.id) (fun _ _ above => above) next rest ?_
        intro entry listed
        rcases List.mem_cons.mp listed with here | member
        · rw [here]
          exact less
        · exact UInt64.lt_of_lt_of_le less ((List.pairwise_cons.mp later).1 entry member)

theorem length_collapse (first : Entry) (rest : List Entry) :
    (collapse first rest).length ≤ rest.length + 1 := by
  induction rest generalizing first with
  | nil => exact Nat.le_refl _
  | cons next rest ih =>
      unfold collapse
      split
      · have bound := ih (first.prefer next.preferred)
        simp
        omega
      · have bound := ih next
        simp
        omega

theorem mem_needed (sets : AccessSets) (threshold : UInt32) (store : Store) (entry : Entry)
    (listed : entry ∈ needed sets threshold store) :
    (∃ read ∈ sets.reads.toList, entry = .fresh read.lock .shared) ∨
      ∃ write ∈ sets.writes.toList, entry = .fresh write.lock .exclusive := by
  unfold needed at listed
  rcases List.mem_append.mp listed with reads | writes
  · obtain ⟨read, member, rfl⟩ := List.mem_map.mp reads
    exact Or.inl ⟨read, (List.mem_filter.mp member).1, rfl⟩
  · obtain ⟨write, member, rfl⟩ := List.mem_map.mp writes
    exact Or.inr ⟨write, member, rfl⟩

theorem needed_sound (sets : AccessSets) (on : sets.On ids) (threshold : UInt32) (store : Store) :
    ∀ entry ∈ needed sets threshold store, entry.Sound ids ∧ entry.isLocked = false := by
  intro entry listed
  rcases mem_needed sets threshold store entry listed with ⟨read, member, rfl⟩ | ⟨write, member, rfl⟩
  · exact ⟨Entry.sound_fresh ids _ _ (on.reads read member), rfl⟩
  · exact ⟨Entry.sound_fresh ids _ _ (on.writes write member), rfl⟩

theorem ascending_short (entries : List Entry) (short : entries.length ≤ 1) :
    Entry.Ascending entries := by
  cases entries with
  | nil => exact List.Pairwise.nil
  | cons entry rest =>
      have none : rest = [] := List.length_eq_zero_iff.mp (Nat.le_zero.mp (Nat.le_of_succ_le_succ short))
      rw [none]
      exact List.pairwise_singleton _ _

theorem collapse_sound (buffer : Buffer) (first : Entry) (rest : List Entry)
    (room : rest.length + 1 < buffer.cells.size) (sentinel : buffer.cell 0 = .sentinel)
    (ordered : (first :: rest).Pairwise fun a b => a.id ≤ b.id)
    (all : ∀ entry ∈ first :: rest, entry.Sound ids ∧ entry.isLocked = false) :
    Sound ids ⟨buffer.fill (collapse first rest)⟩ := by
  have fits : (collapse first rest).length < buffer.cells.size :=
    Nat.lt_of_le_of_lt (length_collapse first rest) room
  have kept : ∀ entry ∈ collapse first rest, entry.Sound ids ∧ entry.isLocked = false :=
    collapse_all (fun entry => entry.Sound ids ∧ entry.isLocked = false)
      (fun entry mode both => ⟨Entry.sound_prefer ids entry mode both.1, both.2⟩) first rest all
  have entries := Buffer.entries_fill buffer (collapse first rest) fits
  refine ⟨Buffer.sound_fill buffer _ fits sentinel (collapse_ascending first rest ordered), ?_, ?_⟩
  · rw [entries]
    exact fun entry listed => (kept entry listed).1
  · rw [entries]
    exact fun entry listed => (kept entry listed).2

theorem construct_sound (list after : RetroList) (sets : AccessSets) (threshold : UInt32)
    (store : Store) (room : 0 < list.buffer.cells.size) (on : sets.On ids)
    (built : list.construct sets threshold store = .ok after) : after.Sound ids := by
  have fresh := needed_sound sets on threshold store
  have clean := Buffer.sound_clear list.buffer room
  unfold construct at built
  split at built
  · cases built
  · rename_i buffer appended
    obtain ⟨view, _, sentinel, bound⟩ := append_entries _ buffer _ clean.room appended
    have sentinel : buffer.cell 0 = .sentinel := sentinel.trans clean.sentinel
    have length := Buffer.length_entries buffer bound
    have all : ∀ entry ∈ buffer.entries, entry.Sound ids ∧ entry.isLocked = false := by
      intro entry listed
      rw [view, Buffer.entries_clear, List.nil_append] at listed
      exact fresh entry listed
    split at built
    · rename_i short
      cases built
      have few : buffer.entries.length ≤ 1 := by omega
      refine ⟨⟨bound, sentinel, ascending_short _ few⟩, ?_, ?_⟩
      · exact fun entry listed => (all entry listed).1
      · exact fun entry listed => (all entry listed).2
    · have perm := sorted_perm buffer.entries
      have sortedLength := perm.length_eq
      have fits : (sorted buffer.entries).length < buffer.cells.size := by omega
      simp only [Buffer.entries_fill buffer (sorted buffer.entries) fits] at built
      split at built
      · rename_i empty
        rw [empty] at sortedLength
        simp at sortedLength
        omega
      · rename_i first rest order
        cases built
        have ordered := sorted_ordered buffer.entries
        rw [order] at ordered perm fits
        have filled : rest.length + 1 < (buffer.fill (sorted buffer.entries)).cells.size := by
          simpa [Buffer.fill] using fits
        refine collapse_sound _ first rest filled ?_ ordered fun entry listed => ?_
        · exact (Buffer.cell_write_before buffer 1 0 _ (by omega)).trans sentinel
        · exact all entry (perm.mem_iff.mp listed)

theorem size_append_some (buffer : Buffer) (entries : List Entry) :
    (appendSome buffer entries).cells.size = buffer.cells.size := by
  induction entries generalizing buffer with
  | nil => rfl
  | cons entry rest ih =>
      rw [appendSome]
      cases pushed : buffer.push entry with
      | none => rfl
      | some next => exact (ih next).trans (Buffer.size_push entry pushed)

theorem append_some_entries (buffer : Buffer) (entries : List Entry)
    (room : buffer.active < buffer.cells.size) :
    (appendSome buffer entries).entries =
        buffer.entries ++ entries.take (buffer.capacity - buffer.active) ∧
      (appendSome buffer entries).cell 0 = buffer.cell 0 ∧
      (appendSome buffer entries).active < (appendSome buffer entries).cells.size := by
  induction entries generalizing buffer with
  | nil => exact ⟨by simp [appendSome], rfl, room⟩
  | cons entry rest ih =>
      rw [appendSome]
      cases pushed : buffer.push entry with
      | none =>
          have full := (Buffer.push_eq_none_iff _ _).mp pushed
          have nothing : buffer.capacity - buffer.active = 0 := by omega
          exact ⟨by simp [nothing], rfl, room⟩
      | some next =>
          obtain ⟨view, size, sentinel, bound⟩ :=
            append_entries buffer next [entry] room (by simp [append, pushed])
          obtain ⟨entries, sentinels, bounds⟩ := ih next bound
          have more := Buffer.active_push entry pushed
          have left : buffer.capacity - buffer.active = next.capacity - next.active + 1 := by
            unfold Buffer.capacity
            omega
          refine ⟨?_, sentinels.trans sentinel, bounds⟩
          rw [entries, view, left, List.take_succ_cons, List.append_assoc]
          rfl

theorem spilled_entries (list : RetroList) (sets : AccessSets) (threshold : UInt32) (store : Store)
    (room : 0 < list.buffer.cells.size) :
    (list.spilled sets threshold store).buffer.entries =
      (needed sets threshold store).take list.buffer.capacity := by
  have clean := Buffer.sound_clear list.buffer room
  obtain ⟨view, _⟩ := append_some_entries list.reset.buffer (needed sets threshold store) clean.room
  have capacity : list.reset.buffer.capacity - list.reset.buffer.active = list.buffer.capacity := by
    simp [reset, Buffer.clear, Buffer.capacity]
  rw [capacity] at view
  exact view.trans (by simp [reset, Buffer.entries_clear])

theorem spilled_loose (list : RetroList) (sets : AccessSets) (threshold : UInt32) (store : Store)
    (room : 0 < list.buffer.cells.size) (on : sets.On ids) :
    (list.spilled sets threshold store).Loose ids := by
  have clean := Buffer.sound_clear list.buffer room
  obtain ⟨_, sentinel, bound⟩ :=
    append_some_entries list.reset.buffer (needed sets threshold store) clean.room
  have fresh : ∀ entry ∈ (list.spilled sets threshold store).buffer.entries,
      entry.Sound ids ∧ entry.isLocked = false := by
    intro entry listed
    rw [spilled_entries list sets threshold store room] at listed
    exact needed_sound sets on threshold store entry (List.mem_of_mem_take listed)
  exact ⟨bound, sentinel.trans clean.sentinel, fun entry listed => (fresh entry listed).1,
    fun entry listed => (fresh entry listed).2⟩

theorem size_spilled (list : RetroList) (sets : AccessSets) (threshold : UInt32) (store : Store) :
    (list.spilled sets threshold store).buffer.cells.size = list.buffer.cells.size :=
  (size_append_some _ _).trans (by simp [reset, Buffer.clear])

end RetroList

end LockOrder
