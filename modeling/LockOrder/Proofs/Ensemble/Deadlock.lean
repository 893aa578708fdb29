import LockOrder.Proofs.Ensemble.Reach

set_option autoImplicit false

namespace LockOrder

namespace Ensemble

def Situation.WaitsBehind (situation : Situation) : Prop :=
  ∀ list id, situation.waits list = some id →
    ∀ entry ∈ (situation.ensemble.current list).entries, entry.isLocked = true → entry.id < id

-- The first list waits for a lock that an entry of the second one holds, in whatever mode.
def Situation.WaitsFor (situation : Situation) (a b : Nat) : Prop :=
  ∃ id, situation.waits a = some id ∧
    ∃ entry ∈ (situation.ensemble.current b).entries, entry.isLocked = true ∧ entry.id = id

theorem wait_for_map (outcome : Outcome Unit) (answer : Answer) (id : UInt64)
    (waits : Situation.waitFor (outcome.map fun () => answer) = some id) : outcome = .waiting id := by
  cases outcome with
  | waiting other =>
      obtain rfl : other = id := by simpa [Outcome.map, Situation.waitFor] using waits
      rfl
  | _ => cases waits

theorem current_step_other (ensemble : Ensemble) (op : Op) (list : Nat) (legal : op.Legal ensemble)
    (other : op.current? ≠ some list) : (ensemble.step op).2.current list = ensemble.current list := by
  have elsewhere : ∀ index after store, op.current? = some index →
      (ensemble.setCurrent index after store).current list = ensemble.current list := by
    intro index after store here
    rw [current_set ensemble index list after store (legal.listed index here), if_neg]
    intro same
    exact other (same ▸ here)
  cases op <;> simp only [step, changed, merged, acquired, released] <;> (try split) <;>
    first
      | rfl
      | exact elsewhere _ _ _ rfl

theorem step_waits_behind {ids : List UInt64} (ensemble : Ensemble) (sound : ensemble.Sound ids)
    (op : Op) (legal : op.Legal ensemble) (list : Nat) (id : UInt64) (here : op.current? = some list)
    (waits : Situation.waitFor (ensemble.step op).1 = some id) :
    ∀ entry ∈ ((ensemble.step op).2.current list).entries, entry.isLocked = true → entry.id < id := by
  have inside := legal.listed list here
  cases op with
  | acquireAt index pos =>
      obtain rfl : index = list := by simpa [Op.current?] using here
      have acquires := CurrentList.acquire_at_acquires (ensemble.current index) (sound.currents index)
        pos ensemble.store
      change ∀ entry ∈ ((ensemble.setCurrent index _ _).current index).entries, _
      rw [current_set ensemble index index _ _ inside, if_pos rfl]
      exact acquires.behind id (wait_for_map _ _ id waits)
  | acquireThrough index last =>
      obtain rfl : index = list := by simpa [Op.current?] using here
      have acquires := CurrentList.acquire_through_acquires (ensemble.current index)
        (sound.currents index) last ensemble.store
      change ∀ entry ∈ ((ensemble.setCurrent index _ _).current index).entries, _
      rw [current_set ensemble index index _ _ inside, if_pos rfl]
      exact acquires.behind id (wait_for_map _ _ id waits)
  | add index slot mode =>
      simp only [step] at waits
      split at waits <;> cases waits
  | merge index writes =>
      simp only [step, merged] at waits
      split at waits <;> cases waits
  | mergeSet index sets =>
      simp only [step, merged] at waits
      split at waits <;> cases waits
  | seed index retro =>
      simp only [step, changed] at waits
      split at waits <;> cases waits
  | construct retro sets threshold => cases here
  | addRead sets slot version => cases here
  | addWrite sets slot value => cases here
  | _ => cases waits

theorem reached_waits_behind (start : Ensemble) (initial : start.Initial) (situation : Situation)
    (reached : Reached start situation) : situation.WaitsBehind := by
  induction reached with
  | start => intro list id waits; cases waits
  | @step situation op before legal behind =>
      have sound := reached_sound start initial situation before
      intro list id waits
      simp only [Situation.step] at waits
      by_cases here : op.current? = some list
      · rw [if_pos here] at waits
        exact step_waits_behind situation.ensemble sound op legal list id here waits
      · rw [if_neg here] at waits
        simp only [Situation.step]
        rw [current_step_other situation.ensemble op list legal here]
        exact behind list id waits

theorem chain_waits {situation : Situation} {a b : Nat}
    (chain : Relation.TransGen situation.WaitsFor a b) : ∃ id, situation.waits a = some id := by
  induction chain with
  | single edge => exact ⟨edge.choose, edge.choose_spec.1⟩
  | tail _ _ ih => exact ih

-- The last list of a chain holds a lock that is not before the one the first list waits for.
theorem chain_ascends (situation : Situation) (behind : situation.WaitsBehind) (a b : Nat)
    (chain : Relation.TransGen situation.WaitsFor a b) (id : UInt64)
    (waits : situation.waits a = some id) :
    ∃ entry ∈ (situation.ensemble.current b).entries, entry.isLocked = true ∧ id ≤ entry.id := by
  induction chain with
  | single edge =>
      obtain ⟨first, waitsFirst, entry, listed, locked, same⟩ := edge
      obtain rfl : id = first := Option.some.inj (waits.symm.trans waitsFirst)
      exact ⟨entry, listed, locked, same ▸ UInt64.le_refl _⟩
  | tail _ edge ih =>
      obtain ⟨held, listedHeld, lockedHeld, least⟩ := ih
      obtain ⟨next, waitsNext, entry, listed, locked, rfl⟩ := edge
      have less := behind _ _ waitsNext held listedHeld lockedHeld
      exact ⟨entry, listed, locked, UInt64.le_trans least (UInt64.le_of_lt less)⟩

theorem no_circular_wait (start : Ensemble) (initial : start.Initial) (situation : Situation)
    (reached : Reached start situation) (list : Nat) :
    ¬ Relation.TransGen situation.WaitsFor list list := by
  intro circle
  have behind := reached_waits_behind start initial situation reached
  obtain ⟨id, waits⟩ := chain_waits circle
  -- The list would hold a lock that is not before the one it waits for.
  obtain ⟨entry, listed, locked, least⟩ := chain_ascends situation behind list list circle id waits
  exact UInt64.not_lt.mpr least (behind list id waits entry listed locked)

def Situation.queued : Situation :=
  ((((Situation.start pair).step (.add 0 0 .exclusive)).step
    (.acquireThrough 0 1)).step (.add 1 0 .exclusive)).step (.acquireThrough 1 1)

theorem queued_reached : Reached pair Situation.queued := by
  refine .step _ (.step _ (.step _ (.step _ .start ?_) ?_) ?_) ?_
  · exact ⟨fun list here => by cases here; decide, by decide, trivial⟩
  · exact ⟨fun list here => by cases here; decide, by decide, trivial⟩
  · exact ⟨fun list here => by cases here; decide, by decide, trivial⟩
  · exact ⟨fun list here => by cases here; decide, by decide, trivial⟩

theorem queued_waits : Situation.queued.WaitsFor 1 0 :=
  ⟨1, by decide, ⟨some ⟨0, 1⟩, .exclusive, .exclusive, some .writer⟩, by decide, by decide, by decide⟩

theorem no_circular_wait_queued :
    Situation.queued.WaitsFor 1 0 ∧ ¬ Relation.TransGen Situation.queued.WaitsFor 1 1 :=
  ⟨queued_waits, no_circular_wait pair pair_initial Situation.queued queued_reached 1⟩

end Ensemble

end LockOrder
