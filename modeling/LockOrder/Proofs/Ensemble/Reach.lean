import LockOrder.Ensemble
import LockOrder.Proofs.CurrentList.Acquire
import LockOrder.Proofs.CurrentList.Cursors
import LockOrder.Proofs.CurrentList.Release
import LockOrder.Proofs.Outsiders.Holders

set_option autoImplicit false

namespace LockOrder

namespace Ensemble

structure Initial (ensemble : Ensemble) : Prop where
  different : ensemble.store.ids.Nodup
  nonzero : 0 ∉ ensemble.store.ids
  free : ∀ record ∈ ensemble.store.records, record.lock.isFree
  outsiders : ensemble.outsiders = .forRecords ensemble.store.records.size
  currents : ∀ list ∈ ensemble.currents, ∃ capacity spins, list = .ofCapacity capacity spins
  retros : ∀ list ∈ ensemble.retros, ∃ capacity, list = .ofCapacity capacity
  sets : ∀ sets ∈ ensemble.sets, ∃ capacity, sets = { capacity }

namespace Op

def current? : Op → Option Nat
  | .add list _ _ | .merge list _ | .mergeSet list _ | .seed list _ | .acquireAt list _
  | .acquireThrough list _ | .releaseAfter list _ | .releaseAtAndAfter list _ | .releaseAll list
  | .giveUpAfter list _ | .giveUpAtAndAfter list _ | .reset list | .replace list => some list
  | .construct _ _ _ | .resetRetro _ | .addRead _ _ _ | .addWrite _ _ _ | .sortWrites _
  | .clearSets _ | .take _ _ | .release _ | .setVersion _ _ | .setHotness _ _ => none

def retro? : Op → Option Nat
  | .construct retro _ _ | .resetRetro retro => some retro
  | _ => none

def slots : Op → List Nat
  | .add _ slot _ | .addRead _ slot _ | .addWrite _ slot _ | .take slot _ | .release slot
  | .setVersion slot _ | .setHotness slot _ => [slot]
  | .merge _ writes => writes.map Prod.fst
  | _ => []

-- What the owner of a list has to see to: writes come in order, so do the entries of a list that
-- another one starts with, and a list that holds a lock is not reset.
def Respects (ensemble : Ensemble) : Op → Prop
  | .merge _ writes => (ensemble.writesOf writes).Pairwise WriteAccess.before
  | .mergeSet _ sets => (ensemble.accessSets sets).writesAscend = true
  | .seed _ retro => Entry.ascending (ensemble.retro retro).buffer.entries = true
  | .reset list => (ensemble.current list).isHolding = false
  | _ => True

structure Legal (ensemble : Ensemble) (op : Op) : Prop where
  listed : ∀ list, op.current? = some list → list < ensemble.currents.size
  recorded : ∀ slot ∈ op.slots, slot < ensemble.store.records.size
  respects : op.Respects ensemble

end Op

-- The ensemble, for which lock each list waits, and which retrospective lists had no room for what was
-- needed when they were last built or reset.
structure Situation where
  ensemble : Ensemble
  waits : Nat → Option UInt64
  spilled : Nat → Bool

namespace Situation

def waitFor : Outcome Answer → Option UInt64
  | .waiting id => some id
  | _ => none

def isMisuse : Outcome Answer → Bool
  | .misuse _ => true
  | _ => false

def start (ensemble : Ensemble) : Situation := ⟨ensemble, fun _ => none, fun _ => false⟩

def step (situation : Situation) (op : Op) : Situation where
  ensemble := (situation.ensemble.step op).2
  waits := fun list =>
    if op.current? = some list then waitFor (situation.ensemble.step op).1 else situation.waits list
  spilled := fun retro =>
    if op.retro? = some retro then isMisuse (situation.ensemble.step op).1 else situation.spilled retro

end Situation

inductive Reached (start : Ensemble) : Situation → Prop where
  | start : Reached start (.start start)
  | step {situation : Situation} (op : Op) (before : Reached start situation)
      (legal : op.Legal situation.ensemble) : Reached start (situation.step op)

def holders (ensemble : Ensemble) : Tally :=
  ensemble.outsiders.holders ensemble.currents.toList

structure Sound (ids : List UInt64) (ensemble : Ensemble) : Prop where
  named : ensemble.store.ids = ids
  currents : ∀ list, (ensemble.current list).Sound ids
  retros : ∀ list, (ensemble.retro list).Loose ids
  sets : ∀ sets, (ensemble.accessSets sets).On ids
  outsiders : ensemble.outsiders.held.size = ensemble.store.records.size
  accounts : ensemble.store.Accounts ensemble.holders

theorem sound_initial_retro {ids : List UInt64} (ensemble : Ensemble) (initial : ensemble.Initial)
    (list : Nat) : (ensemble.retro list).Sound ids := by
  unfold retro
  cases here : ensemble.retros[list]? with
  | none => exact RetroList.sound_of_capacity _ 0
  | some found =>
      obtain ⟨capacity, rfl⟩ := initial.retros found (Array.mem_of_getElem? here)
      exact RetroList.sound_of_capacity _ capacity

theorem sound_initial (ensemble : Ensemble) (initial : ensemble.Initial) :
    ensemble.Sound ensemble.store.ids where
  named := rfl
  currents := by
    intro list
    unfold current
    cases here : ensemble.currents[list]? with
    | none => exact CurrentList.sound_of_capacity 0 0
    | some found =>
        obtain ⟨capacity, spins, rfl⟩ := initial.currents found (Array.mem_of_getElem? here)
        exact CurrentList.sound_of_capacity capacity spins
  retros := fun list => (sound_initial_retro ensemble initial list).loose
  sets := by
    intro index
    unfold accessSets
    cases here : ensemble.sets[index]? with
    | none => exact AccessSets.on_empty 0
    | some found =>
        obtain ⟨capacity, rfl⟩ := initial.sets found (Array.mem_of_getElem? here)
        exact AccessSets.on_empty capacity
  outsiders := by simp [initial.outsiders, Outsiders.forRecords]
  accounts := by
    intro slot inside
    have free := initial.free _ (Array.getElem_mem inside)
    have word : (ensemble.store.recordAt slot).lock = ⟨0⟩ := by
      simp only [RwLock.isFree, beq_iff_eq] at free
      simp [Store.recordAt, inside, ← free]
    rw [word]
    refine RwLock.counts_congr RwLock.counts_free fun kind => ?_
    have none : CurrentList.tally ensemble.currents.toList slot kind = 0 := by
      refine CurrentList.tally_of_empty _ (fun list listed => ?_) slot kind
      obtain ⟨capacity, spins, rfl⟩ := initial.currents list (by simpa using listed)
      exact Buffer.entries_of_capacity capacity
    have alone : ensemble.outsiders.tally slot kind = 0 := by
      simp [initial.outsiders, Outsiders.tally, Outsiders.forRecords, Outsiders.heldAt, inside]
    rw [holders, Outsiders.holders, Tally.plus, none, alone]

variable {ids : List UInt64} {ensemble : Ensemble}

theorem current_set (ensemble : Ensemble) (list other : Nat) (after : CurrentList) (store : Store)
    (inside : list < ensemble.currents.size) :
    (ensemble.setCurrent list after store).current other =
      if other = list then after else ensemble.current other := by
  by_cases same : other = list
  · subst same
    simp [setCurrent, current, inside]
  · simp [setCurrent, current, same, Ne.symm same]

theorem set_current_sound (sound : ensemble.Sound ids) (list : Nat)
    (inside : list < ensemble.currents.size) (after : CurrentList) (next : Store)
    (keeps : CurrentList.Keeps ids (ensemble.current list) ensemble.store after next) :
    (ensemble.setCurrent list after next).Sound ids where
  named := (Store.ids_of_bare keeps.bare).trans sound.named
  currents := by
    intro other
    rw [current_set ensemble list other after next inside]
    split
    · exact keeps.sound
    · exact sound.currents other
  retros := sound.retros
  sets := sound.sets
  outsiders := sound.outsiders.trans (Store.size_of_bare keeps.bare).symm
  accounts := by
    have here : ensemble.currents.toList[list]? = some (ensemble.current list) := by
      simp [current, inside]
    have accounts := Outsiders.holders_set _ list _ after here sound.accounts keeps.conserves
    simpa [holders, setCurrent] using accounts

theorem retro_set (ensemble : Ensemble) (list other : Nat) (after : RetroList) :
    (ensemble.setRetro list after).retro other =
      if other = list ∧ list < ensemble.retros.size then after else ensemble.retro other := by
  by_cases same : other = list
  · subst same
    by_cases inside : other < ensemble.retros.size
    · simp [setRetro, retro, inside]
    · simp [setRetro, retro, inside]
  · simp [setRetro, retro, same, Ne.symm same]

theorem set_retro_sound (sound : ensemble.Sound ids) (list : Nat) (after : RetroList)
    (kept : after.Loose ids) : (ensemble.setRetro list after).Sound ids where
  named := sound.named
  currents := sound.currents
  retros := by
    intro other
    rw [retro_set]
    split
    · exact kept
    · exact sound.retros other
  sets := sound.sets
  outsiders := sound.outsiders
  accounts := sound.accounts

theorem set_sets_sound (sound : ensemble.Sound ids) (index : Nat) (after : AccessSets)
    (kept : after.On ids) : (ensemble.setSets index after).Sound ids where
  named := sound.named
  currents := sound.currents
  retros := sound.retros
  sets := by
    intro other
    by_cases same : index = other
    · subst same
      by_cases inside : index < ensemble.sets.size
      · simpa [setSets, accessSets, inside] using kept
      · simpa [setSets, accessSets, inside] using sound.sets index
    · simpa [setSets, accessSets, same] using sound.sets other
  outsiders := sound.outsiders
  accounts := sound.accounts

theorem set_record_sound (sound : ensemble.Sound ids) (slot : Nat) (record : Record)
    (id : record.id = (ensemble.store.recordAt slot).id)
    (lock : record.lock = (ensemble.store.recordAt slot).lock) :
    (ensemble.setRecord slot record).Sound ids where
  named := (Store.ids_put ensemble.store slot record id).trans sound.named
  currents := sound.currents
  retros := sound.retros
  sets := sound.sets
  outsiders := by simpa [setRecord] using sound.outsiders
  accounts := Store.accounts_put ensemble.store slot record _ lock sound.accounts

theorem set_outsiders_sound (sound : ensemble.Sound ids) (after : Outsiders) (next : Store)
    (bare : next.bare = ensemble.store.bare)
    (keeps : ensemble.outsiders.Keeps ensemble.store after next) :
    Sound ids { ensemble with outsiders := after, store := next } where
  named := (Store.ids_of_bare bare).trans sound.named
  currents := sound.currents
  retros := sound.retros
  sets := sound.sets
  outsiders := keeps.size.trans (sound.outsiders.trans (Store.size_of_bare bare).symm)
  accounts := keeps.balanced sound.outsiders _ sound.accounts

theorem changed_sound (sound : ensemble.Sound ids) (list : Nat)
    (inside : list < ensemble.currents.size) (result : Except Misuse CurrentList)
    (keeps : ∀ after, result = .ok after →
      CurrentList.Keeps ids (ensemble.current list) ensemble.store after ensemble.store) :
    (ensemble.changed list result).2.Sound ids := by
  cases result with
  | ok after => exact set_current_sound sound list inside after _ (keeps after rfl)
  | error misuse => exact sound

theorem replaced_keeps (nonzero : 0 ∉ ids) (list : CurrentList) (sound : list.Sound ids)
    (store : Store) : CurrentList.Keeps ids list store
      { (list.releaseAll store).1 with
        buffer := .ofCapacity (list.releaseAll store).1.buffer.capacity }
      (list.releaseAll store).2 := by
  have released := CurrentList.release_all_keeps sound store
  have free := CurrentList.release_all_holds_nothing sound store nonzero
  have room := released.sound.buffer.room
  refine released.trans (CurrentList.keeps_of_tally ⟨?_, ?_⟩ ?_ ?_)
  · exact Buffer.sound_of_capacity _
  · intro entry listed
    simp [CurrentList.entries, Buffer.entries_of_capacity] at listed
  · simp only [Buffer.ofCapacity, Buffer.capacity, Array.size_replicate]
    omega
  · intro slot kind
    rw [CurrentList.tally_of_free (list.releaseAll store).1 free]
    simp [CurrentList.entries, Buffer.entries_of_capacity, Entry.tally]

theorem merged_sound (sound : ensemble.Sound ids) (list : Nat) (inside : list < ensemble.currents.size)
    (writes : List WriteAccess) (on : ∀ write ∈ writes, write.lock.On ids)
    (ordered : writes.Pairwise WriteAccess.before) : (ensemble.merged list writes).2.Sound ids := by
  rw [merged]
  cases result : (ensemble.current list).mergeWrites writes with
  | ok after =>
      exact set_current_sound sound list inside after _ (CurrentList.merge_writes_keeps _
        (sound.currents list) writes on (ordered.imp WriteAccess.id_le_of_before) result)
  | error misuse =>
      exact set_current_sound sound list inside _ _
        (CurrentList.cut_short_keeps (sound.currents list) writes _)

theorem step_sound (nonzero : 0 ∉ ids) (sound : ensemble.Sound ids) (op : Op)
    (legal : op.Legal ensemble) : (ensemble.step op).2.Sound ids := by
  have on : ∀ slot ∈ op.slots, (ensemble.store.lockAt slot).On ids := fun slot named =>
    sound.named ▸ ensemble.store.on_lock_at slot (legal.recorded slot named)
  cases op with
  | add list slot mode =>
      have inside := legal.listed list rfl
      simp only [step]
      split
      · rename_i pos after added
        exact set_current_sound sound list inside after _ (CurrentList.get_or_add_keeps _ _ mode pos
          (sound.currents list) (on slot (by simp [Op.slots])) added)
      · exact sound
  | merge list writes =>
      refine merged_sound sound list (legal.listed list rfl) _ ?_ legal.respects
      intro write listed
      obtain ⟨⟨slot, ordinal⟩, member, rfl⟩ := List.mem_map.mp listed
      exact on slot (List.mem_map.mpr ⟨_, member, rfl⟩)
  | mergeSet list sets =>
      have ordered : (ensemble.accessSets sets).writesAscend = true := legal.respects
      exact merged_sound sound list (legal.listed list rfl) _ (sound.sets sets).writes
        (of_decide_eq_true ordered)
  | seed list retro =>
      have ordered : Entry.ascending (ensemble.retro retro).buffer.entries = true := legal.respects
      refine changed_sound sound list (legal.listed list rfl) _ fun after seeded => ?_
      exact CurrentList.seed_keeps _ _ (sound.currents list)
        ((sound.retros retro).sound (Entry.ascending_iff.mp ordered)) seeded
  | acquireAt list pos =>
      exact set_current_sound sound list (legal.listed list rfl) _ _
        (CurrentList.acquire_at_acquires _ (sound.currents list) pos _).keeps
  | acquireThrough list last =>
      exact set_current_sound sound list (legal.listed list rfl) _ _
        (CurrentList.acquire_through_acquires _ (sound.currents list) last _).keeps
  | releaseAfter list id =>
      exact set_current_sound sound list (legal.listed list rfl) _ _
        (CurrentList.release_after_keeps (sound.currents list) _ id)
  | releaseAtAndAfter list id =>
      exact set_current_sound sound list (legal.listed list rfl) _ _
        (CurrentList.release_after_keeps (sound.currents list) _ _)
  | releaseAll list =>
      exact set_current_sound sound list (legal.listed list rfl) _ _
        (CurrentList.release_all_keeps (sound.currents list) _)
  | giveUpAfter list id =>
      exact set_current_sound sound list (legal.listed list rfl) _ _
        (CurrentList.give_up_after_keeps (sound.currents list) id)
  | giveUpAtAndAfter list id =>
      exact set_current_sound sound list (legal.listed list rfl) _ _
        (CurrentList.give_up_after_keeps (sound.currents list) _)
  | reset list =>
      exact set_current_sound sound list (legal.listed list rfl) _ _
        (CurrentList.reset_keeps (sound.currents list) legal.respects)
  | replace list =>
      exact set_current_sound sound list (legal.listed list rfl) _ _
        (replaced_keeps nonzero _ (sound.currents list) _)
  | construct retro sets threshold =>
      simp only [step]
      split
      · rename_i after built
        exact set_retro_sound sound retro after (RetroList.construct_sound _ after _ threshold _
          (sound.retros retro).some_cell (sound.sets sets) built).loose
      · exact set_retro_sound sound retro _ (RetroList.spilled_loose _ _ threshold _
          (sound.retros retro).some_cell (sound.sets sets))
  | resetRetro retro =>
      exact set_retro_sound sound retro _
        (RetroList.sound_reset ids _ (sound.retros retro).some_cell).loose
  | addRead sets slot version =>
      simp only [step]
      split
      · rename_i after added
        exact set_sets_sound sound sets after (AccessSets.on_add_read (sound.sets sets) _ version
          (on slot (by simp [Op.slots])) added)
      · exact sound
  | addWrite sets slot value =>
      simp only [step]
      split
      · rename_i after added
        exact set_sets_sound sound sets after (AccessSets.on_add_write (sound.sets sets) _ value
          (on slot (by simp [Op.slots])) added)
      · exact sound
  | sortWrites sets =>
      exact set_sets_sound sound sets _ (AccessSets.on_sort_writes (sound.sets sets))
  | clearSets sets => exact set_sets_sound sound sets _ (AccessSets.on_clear _)
  | take slot kind =>
      exact set_outsiders_sound sound _ _ (Outsiders.bare_taken _ slot kind _)
        (Outsiders.take_keeps slot kind (legal.recorded slot (by simp [Op.slots])))
  | release slot =>
      exact set_outsiders_sound sound _ _ (Outsiders.bare_released _ slot _)
        (Outsiders.release_keeps slot (legal.recorded slot (by simp [Op.slots])))
  | setVersion slot version => exact set_record_sound sound slot _ rfl rfl
  | setHotness slot level => exact set_record_sound sound slot _ rfl rfl

theorem retro_step_other (ensemble : Ensemble) (op : Op) (list : Nat) (other : op.retro? ≠ some list) :
    (ensemble.step op).2.retro list = ensemble.retro list := by
  have elsewhere : ∀ index after, op.retro? = some index →
      (ensemble.setRetro index after).retro list = ensemble.retro list := by
    intro index after here
    rw [retro_set, if_neg]
    rintro ⟨rfl, _⟩
    exact other here
  cases op <;> simp only [step, changed, merged, acquired, released] <;> (try split) <;>
    first
      | rfl
      | exact elsewhere _ _ rfl

theorem set_retro_in_order (ensemble : Ensemble) (list : Nat) (after : RetroList) (kept : after.Sound ids) :
    ((ensemble.setRetro list after).retro list).Sound ids := by
  rw [retro_set]
  by_cases inside : list < ensemble.retros.size
  · rw [if_pos ⟨rfl, inside⟩]
    exact kept
  · have beyond : ensemble.retro list = .ofCapacity 0 := by simp [retro, inside]
    rw [if_neg fun both => inside both.2, beyond]
    exact RetroList.sound_of_capacity ids 0

theorem step_in_order (sound : ensemble.Sound ids) (op : Op) (list : Nat) (here : op.retro? = some list)
    (fits : Situation.isMisuse (ensemble.step op).1 = false) :
    ((ensemble.step op).2.retro list).Sound ids := by
  cases op with
  | construct retro sets threshold =>
      obtain rfl : retro = list := Option.some.inj here
      simp only [step] at fits ⊢
      split at fits
      · rename_i after built
        exact set_retro_in_order ensemble retro after (RetroList.construct_sound _ after _ threshold _
          (sound.retros retro).some_cell (sound.sets sets) built)
      · cases fits
  | resetRetro retro =>
      obtain rfl : retro = list := Option.some.inj here
      exact set_retro_in_order ensemble retro _
        (RetroList.sound_reset ids _ (sound.retros retro).some_cell)
  | _ => cases here

theorem reached_sound (start : Ensemble) (initial : start.Initial) (situation : Situation)
    (reached : Reached start situation) : situation.ensemble.Sound start.store.ids := by
  induction reached with
  | start => exact sound_initial start initial
  | step op before legal sound => exact step_sound initial.nonzero sound op legal

theorem reached_in_order (start : Ensemble) (initial : start.Initial) (situation : Situation)
    (reached : Reached start situation) (list : Nat) (fits : situation.spilled list = false) :
    (situation.ensemble.retro list).Sound start.store.ids := by
  induction reached with
  | start => exact sound_initial_retro start initial list
  | @step situation op before legal ih =>
      have sound := reached_sound start initial situation before
      simp only [Situation.step] at fits ⊢
      by_cases here : op.retro? = some list
      · rw [if_pos here] at fits
        exact step_in_order sound op list here fits
      · rw [if_neg here] at fits
        rw [retro_step_other situation.ensemble op list here]
        exact ih fits

def pair : Ensemble where
  store := { records := #[{ id := 1 }, { id := 2 }] }
  outsiders := .forRecords 2
  currents := #[.ofCapacity 2 0, .ofCapacity 2 0]
  retros := #[]
  sets := #[]

theorem pair_initial : pair.Initial where
  different := by decide
  nonzero := by decide
  free := by decide
  outsiders := rfl
  currents := by
    intro list listed
    have same : list = .ofCapacity 2 0 := by simpa [pair] using listed
    exact ⟨2, 0, same⟩
  retros := by simp [pair]
  sets := by simp [pair]

end Ensemble

end LockOrder
