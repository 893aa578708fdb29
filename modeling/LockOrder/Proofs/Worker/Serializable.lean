import LockOrder.Proofs.Table.Start

set_option autoImplicit false

namespace LockOrder

open Mark

variable {ids : List UInt64} {table : Table}

-- What an attempt with this body promises if it commits, however many others run in between.
def Worker.CommitsWhatItSaw (table : Table) (arena : Arena Outsiders) (worker : Worker)
    (body : Body Act Reply) : Prop :=
  let executed := body.execute table (Act.perform table) worker arena
  let accesses := Event.accesses table executed.events
  arena.store.contents.Bounded (commits (Event.historyOf table executed.events)) →
    ∀ value after next, Worker.conclude executed = (.ok value, after, next) →
      executed.arena.store.contents.Explains accesses ∧
        next.contents = executed.arena.store.contents.commit accesses

theorem attempt_commits_what_it_saw (different : ids.Nodup) (fits : table.Fits ids)
    (arena : Arena Outsiders) (sound : arena.Sound ids) (worker started : Worker)
    (idle : worker.Idle ids) (start : worker.start = (.ok (), started)) (body : Body Act Reply) :
    started.CommitsWhatItSaw table arena body := by
  unfold Worker.CommitsWhatItSaw
  intro executed accesses bounded value after next concluded
  obtain ⟨clean, empty, _⟩ := Worker.start_sound idle
  rw [start] at clean empty
  have told := execute_told different fits body [] started arena
    ⟨clean, AccessSets.records_empty _ empty⟩ sound
  have busy : executed.worker.Busy ids accesses := told.busy
  obtain ⟨concludes, _⟩ := Worker.conclude_cases different executed busy told.sound.named
  rw [concluded] at concludes
  generalize executed.outcome = returned at concludes
  cases concludes with
  | committed _ next bare current =>
      refine ⟨?_, ?_⟩
      · exact Worker.explains_of_current accesses executed.worker executed.arena.store
          (told.faithful bounded (Worker.faithful_nil started _)) current
      · have takes : (Mark.committed accesses).Takes executed.arena.store next := bare
        exact contents_of_takes takes
  | failed _ _ next bare silent fails => exact absurd rfl (fails value)

theorem commits_are_serializable (table : Table) (workers : List Worker) (draws : Draws)
    (made : ∀ worker ∈ workers, ∃ settings, Worker.ofSettings settings = .ok worker)
    (moves : List Arena.Move) :
    let start := Arena.ofTable table workers draws
    let played := Arena.play table moves start
    let history := commits (Event.historyOf table played.1)
    played.2.Sound start.store.ids ∧
    -- Whenever an attempt commits, it has read what is there, and installs what it wrote last.
    (∀ (arena : Arena Outsiders) (worker started : Worker) (body : Body Act Reply),
      arena.Sound start.store.ids → worker.Idle start.store.ids →
        worker.start = (.ok (), started) → started.CommitsWhatItSaw table arena body) ∧
    -- Replaying the commits explains all of their reads, and the records at the end.
    (start.store.contents.Bounded history →
      start.store.contents.Serial history ∧
        played.2.store.contents = start.store.contents.replay history) := by
  intro start played history
  have different := Table.slot_ids_different table.size table.size_le
  have fits := table.fits_slot_ids
  have sound := Arena.sound_of_table table workers draws made
  have named : start.store.ids = Table.slotIds table.size := sound.named
  obtain ⟨last, tells, _⟩ := Arena.play_told different fits moves start sound
  rw [named]
  refine ⟨last, fun arena worker started body sound idle begun => ?_, fun bounded => ?_⟩
  · exact attempt_commits_what_it_saw different fits arena sound worker started idle begun body
  · exact ⟨tells.serial bounded, contents_of_lead tells.lead⟩

-- Somebody else changes the record under the first attempt; the second one adds one to it.
def increment : Transaction Act Reply := fun past =>
  .read 5 fun
    | .error fault => .done (.error fault)
    | .ok value =>
        if past.isEmpty then .act (.install 5 7) fun _ => .done (.ok value)
        else .write 5 (value + 1) fun _ => .done (.ok value)

def incremented : List (Event Act Reply) × Arena Outsiders :=
  Arena.play .single [.transact 0 increment] (Arena.ofTable .single [.small] {})

theorem increment_history :
    commits (Event.historyOf .single incremented.1) = [[.write 0 7], [.read 0 7, .write 0 8]] := by
  decide +kernel

theorem increment_is_serializable :
    Contents.Serial [(0, 0)] [[.write 0 7], [.read 0 7, .write 0 8]] ∧
      incremented.2.store.contents = [(2, 8)] := by
  have start : (Arena.ofTable .single [.small] {}).store.contents = [(0, 0)] := by decide +kernel
  have replayed : Contents.replay [[.write 0 7], [.read 0 7, .write 0 8]] [(0, 0)] = [(2, 8)] := by
    decide +kernel
  have bounded : Contents.Bounded [(0, 0)] [[.write 0 7], [.read 0 7, .write 0 8]] := by
    decide +kernel
  obtain ⟨_, _, explained⟩ := commits_are_serializable .single [.small] {} small_made
    [.transact 0 increment]
  rw [start, ← incremented, increment_history] at explained
  obtain ⟨serial, last⟩ := explained bounded
  exact ⟨serial, last.trans replayed⟩

end LockOrder
