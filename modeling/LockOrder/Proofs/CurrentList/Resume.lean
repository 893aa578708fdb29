import LockOrder.Proofs.CurrentList.Acquire

set_option autoImplicit false

namespace LockOrder

namespace Acquisition

variable {ids : List UInt64}

theorem step_enough (state : Acquisition) (pos : Nat) (enough : (state.cell pos).isEnough = true) :
    state.step pos = (.ok (), state) := by
  unfold step
  change (state.list.buffer.cell pos).isEnough = true at enough
  simp only [enough, if_true]
  split <;> rfl

theorem steps_enough (skipped count : Nat) (state : Acquisition) (pos : Nat)
    (enough : ∀ other, pos ≤ other → other < pos + skipped → (state.cell other).isEnough = true) :
    steps pos (skipped + count) state = steps (pos + skipped) count state := by
  induction skipped generalizing pos with
  | zero => simp
  | succ skipped ih =>
      have rest := ih (pos + 1) fun other above below => enough other (by omega) (by omega)
      have here := step_enough state pos (enough pos (by omega) (by omega))
      rw [Nat.add_right_comm, steps, here]
      simp only
      rw [rest, Nat.add_right_comm, Nat.add_assoc]

theorem enough_took (entry : Entry) (kind : Handle) (short : entry.isEnough = false)
    (unlocked : entry.taken = .unlocked) (wanted : kind = Acquisition.wanted entry) :
    (entry.took kind.mode kind).isEnough = true := by
  have wish : entry.preferred ≠ .unlocked := by
    intro none
    simp [Entry.isEnough, unlocked, none, Mode.covers_refl] at short
  subst wanted
  unfold Acquisition.wanted Entry.isEnough Entry.took
  cases preferred : entry.preferred with
  | unlocked => exact absurd preferred wish
  | shared => rfl
  | exclusive => rfl

theorem covers_exclusive (mode : Mode) : Mode.exclusive.covers mode = true := by
  cases mode <;> rfl

theorem Stepped.elsewhere {state next : Acquisition} {pos : Nat} {outcome : Outcome Unit}
    (stepped : Stepped pos state outcome next) (other : Nat) (different : other ≠ pos) :
    next.cell other = state.cell other := by
  cases stepped with
  | upgraded lock store named shared wants ahead raised =>
      refine (Buffer.cell_set_other _ pos other _ different).trans ?_
      rw [called, CurrentList.called, checked_buffer]
      rfl
  | shareKept lock named shared wants ahead refused =>
      change (state.checked lock).list.buffer.cell other = _
      rw [checked_buffer]
      rfl
  | awaited lock store named short unlocked behind taken =>
      exact Buffer.cell_set_other _ pos other _ different
  | tried lock kind store named short unlocked ahead wanted taken =>
      exact Buffer.cell_set_other _ pos other _ different
  | _ => rfl

theorem Stepped.enough_after {state next : Acquisition} {pos : Nat}
    (stepped : Stepped pos state (.ok ()) next) (room : pos < state.list.buffer.cells.size) :
    (next.cell pos).isEnough = true := by
  have here : ∀ (buffer : Buffer) (entry : Entry), buffer.cells.size = state.list.buffer.cells.size →
      (buffer.set pos entry).cell pos = entry := by
    intro buffer entry size
    rw [Buffer.cell_set buffer pos pos entry (by omega), if_pos rfl]
  cases stepped with
  | enough enough => exact enough
  | awaited lock store named short unlocked behind taken =>
      change (Buffer.cell (Buffer.set _ pos _) pos).isEnough = true
      rw [here]
      · exact covers_exclusive _
      · rfl
  | tried lock kind store named short unlocked ahead wanted taken =>
      change (Buffer.cell (Buffer.set _ pos _) pos).isEnough = true
      rw [here]
      · exact enough_took (state.cell pos) kind short unlocked wanted
      · rfl
  | upgraded lock store named shared wants ahead raised =>
      change (Buffer.cell (Buffer.set _ pos _) pos).isEnough = true
      rw [here]
      · exact covers_exclusive _
      · exact congrArg (fun buffer => buffer.cells.size) (checked_buffer state lock)

theorem steps_wait (count : Nat) (state : Acquisition) (ready : state.Ready ids) (pos : Nat)
    (first : 0 < pos) (last : pos + count ≤ state.list.buffer.active + 1) (id : UInt64)
    (waits : (steps pos count state).1 = .waiting id) :
    ∃ place, pos ≤ place ∧ place < pos + count ∧ ((steps pos count state).2.cell place).id = id ∧
      (∀ other, other < pos → (steps pos count state).2.cell other = state.cell other) ∧
      ∀ other, pos ≤ other → other < place →
        ((steps pos count state).2.cell other).isEnough = true := by
  induction count generalizing state pos with
  | zero => cases waits
  | succ count ih =>
      have stepped := step_cases state ready pos first (by omega)
      unfold steps at waits ⊢
      generalize state.step pos = result at stepped waits
      obtain ⟨outcome, next⟩ := result
      simp only at stepped waits ⊢
      cases outcome with
      | ok value =>
          have nextReady := (stepped.keeps ready first (by omega)).1
          have active := stepped.active
          have room := ready.sound.buffer.room
          have enough := stepped.enough_after (by omega)
          obtain ⟨place, above, below, named, before, passed⟩ :=
            ih next nextReady (pos + 1) (by omega) (by omega) waits
          refine ⟨place, by omega, by omega, named, ?_, ?_⟩
          · intro other less
            exact (before other (by omega)).trans (stepped.elsewhere other (by omega))
          · intro other least less
            by_cases same : other = pos
            · simp only [same, before pos (by omega)]
              exact enough
            · exact passed other (by omega) less
      | fault fault => cases waits
      | misuse misuse => cases waits
      | waiting other =>
          cases waits
          refine ⟨pos, by omega, by omega, ?_, ?_, by omega⟩
          · cases stepped with
            | stuck lock named short unlocked behind refused =>
                change (state.cell pos).id = lock.id
                simp [Entry.id, named]
          · exact fun other less => stepped.elsewhere other (by omega)

end Acquisition

namespace CurrentList

theorem acquire_through_resumes (ids : List UInt64) (list : CurrentList) (sound : list.Sound ids)
    (last : Nat) (store : Store) (id : UInt64)
    (waits : (list.acquireThrough last store).1 = .waiting id) :
    ∃ place, 0 < place ∧ place ≤ last ∧
      ((list.acquireThrough last store).2.1.buffer.cell place).id = id ∧
      ∀ next, Acquisition.steps 1 last (.start (list.acquireThrough last store).2.1 next) =
        Acquisition.steps place (last + 1 - place)
          (.start (list.acquireThrough last store).2.1 next) := by
  unfold acquireThrough at waits ⊢
  split at waits
  · rename_i inside
    obtain ⟨first, bound⟩ : 0 < last ∧ last ≤ list.buffer.active := by
      simpa [Buffer.holds] using inside
    rw [if_pos inside]
    obtain ⟨place, above, below, named, _, enough⟩ := Acquisition.steps_wait last
      (.start list store) (Acquisition.ready_start list store sound) 1 (by omega)
      (by change 1 + last ≤ list.buffer.active + 1; omega) id waits
    refine ⟨place, by omega, by omega, named, fun next => ?_⟩
    have skip := Acquisition.steps_enough (place - 1) (last + 1 - place)
      (.start (Acquisition.steps 1 last (.start list store)).2.list next) 1
      (fun other least less => enough other (by omega) (by omega))
    have whole : place - 1 + (last + 1 - place) = last := by omega
    have start : 1 + (place - 1) = place := by omega
    rwa [whole, start] at skip
  · cases waits

end CurrentList

end LockOrder
