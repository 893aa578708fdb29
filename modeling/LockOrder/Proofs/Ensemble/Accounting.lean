import LockOrder.Proofs.Ensemble.Reach

set_option autoImplicit false

namespace LockOrder

namespace Ensemble

variable {ids : List UInt64}

theorem replace_removes_holds (ensemble : Ensemble) (list : Nat)
    (inside : list < ensemble.currents.size) (slot : Nat) (kind : Handle) :
    (ensemble.step (.replace list)).2.holders slot kind +
      Entry.tally (ensemble.current list).entries slot kind = ensemble.holders slot kind := by
  have here : ensemble.currents.toList[list]? = some (ensemble.current list) := by
    simp [current, inside]
  let released := ((ensemble.current list).releaseAll ensemble.store).1
  let after : CurrentList := { released with buffer := .ofCapacity released.buffer.capacity }
  have nothing : Entry.tally after.entries slot kind = 0 := by
    simp [after, CurrentList.entries, Buffer.entries_of_capacity, Entry.tally]
  have change := CurrentList.tally_set _ list _ after here slot kind
  have view : (ensemble.step (.replace list)).2.holders slot kind =
      CurrentList.tally (ensemble.currents.toList.set list after) slot kind +
        ensemble.outsiders.tally slot kind := by
    simp [step, released, after, holders, Outsiders.holders, Tally.plus, Ensemble.released, setCurrent]
  rw [view]
  simp only [holders, Outsiders.holders, Tally.plus]
  omega

theorem drop_fold (nonzero : 0 ∉ ids) (lists : List CurrentList) (dropped : Array CurrentList)
    (store : Store) (sound : ∀ list ∈ lists, list.Sound ids) :
    Balanced (CurrentList.tally lists) store (fun _ _ => 0)
      (lists.foldl (fun (dropped, store) list =>
        (dropped.push (list.releaseAll store).1, (list.releaseAll store).2)) (dropped, store)).2 := by
  induction lists generalizing dropped store with
  | nil => exact .refl
  | cons list lists ih =>
      have own := sound list (by simp)
      have keeps := CurrentList.release_all_keeps own store
      have free := CurrentList.release_all_holds_nothing own store nonzero
      have rest := ih (dropped.push (list.releaseAll store).1) (list.releaseAll store).2
        fun other listed => sound other (by simp [listed])
      rw [List.foldl_cons]
      -- What the later lists hold is among the others while the first one lets go.
      refine Balanced.trans (fun others accounts => ?_) rest
      have before : store.Accounts
          ((others.plus (CurrentList.tally lists)).plus (Entry.tally list.entries)) := by
        refine Store.accounts_congr accounts fun slot kind => ?_
        rw [Tally.plus, CurrentList.tally_cons, Tally.plus, Tally.plus]
        omega
      refine Store.accounts_congr (keeps.conserves _ before) fun slot kind => ?_
      have nothing := CurrentList.tally_of_free (list.releaseAll store).1 free slot kind
      simp only [Tally.plus, nothing]
      omega

theorem drop_lists_accounts (nonzero : 0 ∉ ids) (ensemble : Ensemble) (sound : ensemble.Sound ids) :
    ensemble.dropLists.store.Accounts ensemble.outsiders.tally := by
  have each : ∀ list ∈ ensemble.currents.toList, list.Sound ids := by
    intro list listed
    obtain ⟨index, inside, rfl⟩ := List.mem_iff_getElem.mp listed
    have here := sound.currents index
    rw [Array.length_toList] at inside
    simpa [current, inside] using here
  have dropped := (drop_fold nonzero ensemble.currents.toList #[] ensemble.store each).frame_right
    ensemble.outsiders.tally
  unfold dropLists
  rw [← Array.foldl_toList]
  exact Store.accounts_congr (dropped.accounts sound.accounts) fun slot kind => Nat.zero_add _

theorem locks_count_their_holders (start : Ensemble) (initial : start.Initial)
    (situation : Situation) (reached : Reached start situation) :
    -- Each word counts the handles that are out, and each entry has the handle of its mode.
    (∀ slot < situation.ensemble.store.records.size,
      (situation.ensemble.store.recordAt slot).lock.Counts (situation.ensemble.holders slot)) ∧
    (∀ list, ∀ entry ∈ (situation.ensemble.current list).entries,
      entry.handle = entry.taken.handle) ∧
    -- Dropping a list removes what it holds.
    (∀ list < situation.ensemble.currents.size,
      let dropped := (situation.ensemble.step (.replace list)).2
      (∀ slot kind, dropped.holders slot kind +
        Entry.tally (situation.ensemble.current list).entries slot kind =
          situation.ensemble.holders slot kind) ∧
      ∀ slot < dropped.store.records.size,
        (dropped.store.recordAt slot).lock.Counts (dropped.holders slot)) ∧
    -- Dropping all lists leaves what is held without a list.
    ∀ slot < situation.ensemble.dropLists.store.records.size,
      (situation.ensemble.dropLists.store.recordAt slot).lock.Counts
        (situation.ensemble.outsiders.tally slot) := by
  have sound := reached_sound start initial situation reached
  refine ⟨sound.accounts, ?_, ?_, ?_⟩
  · intro list entry listed
    exact ((sound.currents list).entries entry listed).handled
  · intro list inside dropped
    refine ⟨replace_removes_holds _ list inside, ?_⟩
    have legal : (Op.replace list).Legal situation.ensemble :=
      ⟨fun other same => by cases same; exact inside, by simp [Op.slots], trivial⟩
    exact (step_sound initial.nonzero sound (.replace list) legal).accounts
  · exact drop_lists_accounts initial.nonzero situation.ensemble sound

def Situation.mixed : Situation :=
  (((Situation.start pair).step (.add 0 0 .exclusive)).step (.acquireThrough 0 1)).step
    (.take 1 .reader)

theorem mixed_reached : Reached pair Situation.mixed := by
  refine .step _ (.step _ (.step _ .start ?_) ?_) ?_
  · exact ⟨fun list here => by cases here; decide, by decide, trivial⟩
  · exact ⟨fun list here => by cases here; decide, by decide, trivial⟩
  · exact ⟨fun list here => (by cases here), by decide, trivial⟩

theorem mixed_counts :
    (Situation.mixed.ensemble.store.recordAt 0).lock.word = RwLock.exclusiveWord ∧
      (Situation.mixed.ensemble.store.recordAt 0).lock.Counts (Situation.mixed.ensemble.holders 0) ∧
      (Situation.mixed.ensemble.store.recordAt 1).lock.word = 1 ∧
      (Situation.mixed.ensemble.store.recordAt 1).lock.Counts (Situation.mixed.ensemble.holders 1) := by
  have counts := (locks_count_their_holders pair pair_initial Situation.mixed mixed_reached).1
  exact ⟨by decide, counts 0 (by decide), by decide, counts 1 (by decide)⟩

end Ensemble

end LockOrder
