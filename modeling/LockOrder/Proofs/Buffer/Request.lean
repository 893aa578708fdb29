import LockOrder.CurrentList.Basic
import LockOrder.Proofs.Buffer.Edits
import LockOrder.Proofs.Entry.Holdings

set_option autoImplicit false

namespace LockOrder

namespace Entry

def request (lock : LockRef) (mode : Mode) : List Entry → List Entry
  | [] => [.fresh lock mode]
  | entry :: rest =>
      if entry.id < lock.id then entry :: request lock mode rest
      else if entry.id = lock.id then entry.prefer mode :: rest
      else .fresh lock mode :: entry :: rest

theorem request_append (lock : LockRef) (mode : Mode) (a b : List Entry)
    (below : ∀ entry ∈ a, entry.id < lock.id) :
    request lock mode (a ++ b) = a ++ request lock mode b := by
  induction a with
  | nil => rfl
  | cons entry rest ih =>
      have smaller : entry.id < lock.id := below entry (by simp)
      rw [List.cons_append, request, if_pos smaller, ih fun other listed => below other (by simp [listed])]
      rfl

theorem mem_request (lock : LockRef) (mode : Mode) (entries : List Entry) (entry : Entry)
    (listed : entry ∈ request lock mode entries) :
    entry ∈ entries ∨ entry = .fresh lock mode ∨ ∃ old ∈ entries, entry = old.prefer mode := by
  induction entries with
  | nil => simpa [request] using listed
  | cons first rest ih =>
      unfold request at listed
      split at listed
      · rcases List.mem_cons.mp listed with here | later
        · simp [here]
        · rcases ih later with old | fresh | ⟨old, member, raised⟩
          · simp [old]
          · simp [fresh]
          · exact Or.inr (Or.inr ⟨old, by simp [member], raised⟩)
      · split at listed
        · rcases List.mem_cons.mp listed with here | later
          · exact Or.inr (Or.inr ⟨first, by simp, here⟩)
          · simp [later]
        · rcases List.mem_cons.mp listed with here | later
          · simp [here]
          · exact Or.inl later

theorem mem_request_id (lock : LockRef) (mode : Mode) (entries : List Entry) (entry : Entry)
    (listed : entry ∈ request lock mode entries) :
    entry.id = lock.id ∨ ∃ old ∈ entries, entry.id = old.id := by
  rcases mem_request lock mode entries entry listed with old | fresh | ⟨old, member, raised⟩
  · exact Or.inr ⟨entry, old, rfl⟩
  · exact Or.inl (by simp [fresh])
  · exact Or.inr ⟨old, member, by simp [raised]⟩

theorem ascending_request (lock : LockRef) (mode : Mode) (entries : List Entry)
    (ascending : Ascending entries) : Ascending (request lock mode entries) := by
  induction entries with
  | nil => exact List.pairwise_singleton _ _
  | cons first rest ih =>
      obtain ⟨above, later⟩ := List.pairwise_cons.mp ascending
      unfold request
      split
      · rename_i smaller
        refine List.pairwise_cons.mpr ⟨?_, ih later⟩
        intro entry listed
        rcases mem_request_id lock mode rest entry listed with same | ⟨old, member, same⟩
        · rwa [same]
        · rw [same]
          exact above old member
      · split
        · exact List.pairwise_cons.mpr ⟨fun entry listed => above entry listed, later⟩
        · rename_i notSmaller different
          have greater : lock.id < first.id :=
            UInt64.lt_of_le_of_ne (UInt64.not_lt.mp notSmaller) (Ne.symm different)
          refine List.pairwise_cons.mpr ⟨?_, ascending⟩
          intro entry listed
          rcases List.mem_cons.mp listed with here | old
          · rw [here]
            exact greater
          · exact UInt64.lt_trans greater (above entry old)

theorem sound_request (ids : List UInt64) (lock : LockRef) (on : lock.On ids) (mode : Mode)
    (entries : List Entry) (sound : ∀ entry ∈ entries, entry.Sound ids) :
    ∀ entry ∈ request lock mode entries, entry.Sound ids := by
  intro entry listed
  rcases mem_request lock mode entries entry listed with old | fresh | ⟨old, member, raised⟩
  · exact sound entry old
  · rw [fresh]
    exact sound_fresh ids lock mode on
  · rw [raised]
    exact sound_prefer ids old mode (sound old member)

theorem tally_request (lock : LockRef) (mode : Mode) (entries : List Entry) (slot : Nat)
    (kind : Handle) : tally (request lock mode entries) slot kind = tally entries slot kind := by
  induction entries with
  | nil => simp [request, tally]
  | cons first rest ih =>
      unfold request
      split
      · rw [tally_cons, tally_cons, ih]
      · split
        · rw [tally_cons, tally_cons, owns_prefer]
        · simp [tally_cons]

end Entry

namespace Buffer

namespace Cuts

variable {buffer : Buffer} {id : UInt64} {pos : Nat}

theorem drop_eq_cons (cuts : buffer.Cuts id pos) (room : buffer.active < buffer.cells.size)
    (inside : pos ≤ buffer.active) :
    buffer.entries.drop (pos - 1) = buffer.cell pos :: buffer.entries.drop pos := by
  have first := cuts.first
  have place := entry_at buffer room pos first inside
  obtain ⟨bound, value⟩ := List.getElem?_eq_some_iff.mp place
  have next : pos - 1 + 1 = pos := by omega
  rw [List.drop_eq_getElem_cons bound, value, next]

end Cuts

end Buffer

namespace CurrentList

theorem get_or_add_entries (list after : CurrentList) (lock : LockRef) (mode : Mode) (pos : Nat)
    (sound : list.buffer.Sound) (added : list.getOrAdd lock mode = .ok (pos, after)) :
    after.entries = Entry.request lock mode list.entries := by
  have cuts := list.buffer.lower_bound_cuts sound lock.id
  unfold getOrAdd at added
  generalize place : list.buffer.lowerBound lock.id = bound at added cuts
  simp only at added
  have split := List.take_append_drop (bound - 1) list.buffer.entries
  have below := cuts.take_below sound.room
  have first := cuts.first
  split at added
  · rename_i buffer edit
    obtain ⟨rfl, rfl⟩ : bound = pos ∧ { list with buffer } = after := by simpa using added
    change buffer.entries = Entry.request lock mode list.buffer.entries
    split at edit
    · rename_i beyond
      have all : list.buffer.entries.take (bound - 1) = list.buffer.entries := by
        rw [List.take_of_length_le]
        rw [Buffer.length_entries _ sound.room]
        omega
      rw [Buffer.entries_push _ _ _ edit]
      rw [all] at below
      simpa [Entry.request] using (Entry.request_append lock mode list.buffer.entries [] below).symm
    · rename_i inside
      have inside : bound ≤ list.buffer.active := by omega
      rw [← split, Entry.request_append lock mode _ _ below,
        cuts.drop_eq_cons sound.room inside, Entry.request]
      have least := cuts.rest bound (Nat.le_refl _) inside
      rw [if_neg (UInt64.not_lt.mpr least)]
      split at edit
      · rename_i same
        cases edit
        have bounded : bound - 1 < list.buffer.entries.length := by
          rw [Buffer.length_entries _ sound.room]
          omega
        have next : bound - 1 + 1 = bound := by omega
        rw [if_pos same, Buffer.entries_set _ _ _ first, List.set_eq_take_append_cons_drop,
          if_pos bounded, next]
      · rename_i different
        rw [if_neg different, Buffer.entries_insert _ _ _ _ first cuts.last edit,
          cuts.drop_eq_cons sound.room inside]
  · cases added

end CurrentList

end LockOrder
