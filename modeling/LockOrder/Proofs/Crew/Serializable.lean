import LockOrder.Proofs.Crew.Outside
import LockOrder.Proofs.Worker.Released

set_option autoImplicit false

namespace LockOrder

namespace Crew

variable {start : Contents} {ids : List UInt64} {crew : Crew} {table : Table} {store : Store}
  {outside : Outsiders} {member : Member} {others : List Member} {history : List (List Access)}
  {scene : Scene}

theorem Serializes.steps (different : ids.Nodup)
    (sound : Sound ids ⟨store, outside, member :: others, history⟩)
    (placed : Placed ⟨store, outside, member :: others, history⟩)
    (serial : Serializes start ⟨store, outside, member :: others, history⟩)
    (goes : Scene.Goes ⟨member, store, history⟩ scene) (room : start.Room scene.history) :
    Serializes start ⟨scene.store, outside, scene.member :: others, scene.history⟩ := by
  cases goes with
  | quiet contents same paid free faithful =>
      obtain ⟨turned, after, longer⟩ := scene
      obtain rfl : longer = history := same
      refine serial.same contents paid (Stage.owed_of_unbound free) ?_ faithful fun reads here => ?_
      · exact fun checks => absurd checks (Member.not_checking free)
      · exact absurd ⟨reads, here⟩ (Member.not_checking free)
  | secured last pos here => exact serial.secured placed here
  | checked read reads here current => exact serial.checked different sound placed here current
  | passed here =>
      obtain ⟨prepared, _⟩ := Scene.prepared_of_checking here (sound.fits member (List.mem_cons_self ..))
      exact serial.passed different sound placed here _ prepared.decided
  | installed write writes here => exact serial.installed different sound room here

-- As long as the versions have room, the history explains what there is.
structure Orderly (ids : List UInt64) (start : Contents) (crew : Crew) : Prop where
  sound : crew.Sound ids
  placed : crew.Placed
  serial : start.Room crew.history → crew.Serializes start

theorem Orderly.perm {members : List Member}
    (orderly : Orderly ids start ⟨store, outside, members, history⟩) (perm : members.Perm others) :
    Orderly ids start ⟨store, outside, others, history⟩ where
  sound := orderly.sound.perm perm
  placed := orderly.placed.perm perm
  serial := fun room => (orderly.serial room).idle perm rfl rfl

theorem Orderly.steps (different : ids.Nodup)
    (orderly : Orderly ids start ⟨store, outside, member :: others, history⟩)
    (steps : Scene.Steps ids ⟨member, store, history⟩ scene) :
    Orderly ids start ⟨scene.store, outside, scene.member :: others, scene.history⟩ where
  sound := orderly.sound.steps steps
  placed := orderly.placed.steps steps.goes
  serial := fun room => by
    have before := orderly.serial (room.fewer (orderly.placed.writers steps.goes))
    exact before.steps different orderly.sound orderly.placed steps.goes room

theorem Orderly.turn (different : ids.Nodup) (orderly : crew.Orderly ids start) (seat : Nat)
    (step : Scene → Option Scene)
    (steps : ∀ member ∈ crew.members, ∀ scene, step ⟨member, crew.store, crew.history⟩ = some scene →
      Scene.Steps ids ⟨member, crew.store, crew.history⟩ scene) :
    (crew.turn seat step).Orderly ids start := by
  unfold Crew.turn
  split
  · exact orderly
  · rename_i member here
    split
    · exact orderly
    · rename_i scene done
      obtain ⟨inside, rfl⟩ := List.getElem?_eq_some_iff.mp here
      have turned := steps _ (List.getElem_mem inside) scene done
      have front := Orderly.perm orderly (List.getElem_cons_eraseIdx_perm inside).symm
      exact (front.steps different turned).perm (List.set_perm_cons_eraseIdx inside _).symm

theorem Orderly.act (different : ids.Nodup) (fits : table.Fits ids) (orderly : crew.Orderly ids start)
    (act : Act) : (crew.move table (.act act)).Orderly ids start := by
  have sound := orderly.sound.act fits act
  have tells := act.perform_tells table crew.outside crew.store
  have contents := Mark.contents_of_lead tells.lead
  rcases act_commits fits orderly.sound act with none | ⟨slot, value, alone, inside, nobody⟩
  · have history : (crew.move table (.act act)).history = crew.history := by
      simp only [move, none, List.append_nil]
    rw [none] at contents
    refine ⟨sound, ⟨?_, orderly.placed.apart⟩, fun room => ?_⟩
    · exact history ▸ orderly.placed.vacant
    · exact (orderly.serial (history ▸ room)).idle (.refl _) contents history
  · have history : (crew.move table (.act act)).history = crew.history ++ [[.write slot value]] := by
      simp only [move, alone]
    rw [alone] at contents
    refine ⟨sound, ⟨fun member listed checks => ?_, orderly.placed.apart⟩, fun room => ?_⟩
    · have vacant := orderly.placed.vacant member listed checks
      rw [history]
      exact (List.getElem?_append_left (List.getElem?_eq_some_iff.mp vacant).1).trans vacant
    · have before := orderly.serial (room.fewer fun slot => history ▸ Contents.writers_snoc _ _ slot)
      have replaces : crew.Replaces (crew.move table (.act act)) slot value :=
        ⟨orderly.sound.size ▸ inside, nobody, rfl, contents, history⟩
      exact before.replaced different orderly.sound orderly.placed replaces room

theorem Orderly.move (different : ids.Nodup) (fits : table.Fits ids) (orderly : crew.Orderly ids start)
    (move : Move) : (crew.move table move).Orderly ids start := by
  have sound := orderly.sound
  cases move with
  | act act => exact orderly.act different fits act
  | ask seat deal =>
      exact orderly.turn different seat (Scene.ask table · deal) fun member listed scene done =>
        Scene.ask_steps different fits (sound.fits member listed) sound.named deal done
  | go seat =>
      exact orderly.turn different seat Scene.go fun member listed scene done =>
        Scene.go_steps (sound.fits member listed) sound.named done

theorem Orderly.play (different : ids.Nodup) (fits : table.Fits ids) (moves : List Move)
    (orderly : crew.Orderly ids start) : (crew.play table moves).Orderly ids start := by
  induction moves generalizing crew with
  | nil => exact orderly
  | cons move rest ih => exact ih (orderly.move different fits move)

theorem orderly_of_table (table : Table) (workers : List Worker) (draws : Draws)
    (made : ∀ worker ∈ workers, ∃ settings, Worker.ofSettings settings = .ok worker) :
    (ofTable table workers draws).Orderly (Table.slotIds table.size)
      (ofTable table workers draws).store.contents := by
  have seated : ∀ member ∈ (ofTable table workers draws).members,
      member.stage = .resting ∧ member.worker.Idle (Table.slotIds table.size) := by
    intro member listed
    obtain ⟨worker, among, rfl⟩ := List.mem_map.mp listed
    obtain ⟨settings, fresh⟩ := made worker among
    exact ⟨rfl, Worker.idle_of_settings _ settings worker fresh⟩
  have resting : ∀ member ∈ (ofTable table workers draws).members, ¬ member.IsChecking := by
    rintro member listed ⟨reads, here⟩
    rw [(seated member listed).1] at here
    cases here
  have paid : ∀ member ∈ (ofTable table workers draws).members, member.stage.owed = [] := by
    intro member listed
    rw [(seated member listed).1]
    rfl
  have nothing : ∀ member ∈ (ofTable table workers draws).members, member.held = [] := by
    intro member listed
    rw [Member.held, (seated member listed).1]
    exact (seated member listed).2.empty
  refine ⟨⟨table.ids_records draws, ?_, ?_, ?_⟩, ⟨?_, ?_⟩, fun room => ?_⟩
  · simp [ofTable, Outsiders.forRecords, Table.slotIds]
  · rw [Tally.plus_nothing _ _ (Member.tally_of_nothing nothing)]
    exact Arena.accounts_of_table table workers draws
  · intro member listed
    obtain ⟨rests, idle⟩ := seated member listed
    refine ⟨idle.sound, ?_⟩
    rw [rests]
    exact idle.empty
  · exact fun member listed checks => absurd checks (resting member listed)
  · exact List.pairwise_of_forall_mem_list fun member listed _ _ checks => absurd checks (resting member listed)
  · refine ⟨room.small, fun place accesses here => ?_, fun _ _ => rfl, fun member listed write owes => ?_,
      fun member listed opens => ?_, fun member listed reads here => ?_⟩
    · cases here
    · rw [paid member listed] at owes
      cases owes
    · rw [(seated member listed).1] at opens
      cases opens
    · exact absurd ⟨reads, here⟩ (resting member listed)

end Crew

-- Attempts, and what others do, take turns at every lock, check and value. Still the commits form a serial
-- history, which tells what each record contains that nobody is still about to replace.
theorem interleaved_commits_are_serializable (table : Table) (workers : List Worker) (draws : Draws)
    (made : ∀ worker ∈ workers, ∃ settings, Worker.ofSettings settings = .ok worker)
    (moves : List Crew.Move) :
    let start := Crew.ofTable table workers draws
    let played := start.play table moves
    start.store.contents.Bounded played.history →
      start.store.contents.Serial played.history ∧ ∀ slot, ¬ played.Owes slot →
        played.store.contents[slot]? = (start.store.contents.replay played.history)[slot]? := by
  intro start played bounded
  have different := Table.slot_ids_different table.size table.size_le
  have orderly := (Crew.orderly_of_table table workers draws made).play different table.fits_slot_ids moves
  have serial := orderly.serial (Contents.room_of_bounded bounded)
  exact ⟨Contents.serial_of_places _ _ serial.explained, serial.stored⟩

namespace Crew

def pair : Crew := .ofTable .double [.alert, .alert] {}

-- Each reads what the other one writes, and both have their locks when the first has passed its checks.
def crossing : List Move :=
  [.ask 0 .start, .ask 1 .start, .ask 0 (.read 0), .ask 1 (.read 1), .ask 0 (.write 1 7), .ask 1 (.write 0 9),
    .ask 0 .commit, .ask 1 .commit, .go 0, .go 0, .go 0, .go 1, .go 1]

-- The first installs its value and gives back its lock.
def finishing : List Move := [.go 0, .go 0, .go 0, .go 0]

example : (pair.play .double (crossing ++ finishing ++ [.go 1])).history = [[.read 0 0, .write 1 7], []] := by
  decide +kernel

end Crew

-- A check that looks at the version first, and at the lock word a while later.
def Worker.isStaleLate (worker : Worker) (early late : Store) (read : ReadAccess) : Bool :=
  !read.isCurrent early ||
    (!worker.holds read.lock.id && (late.recordAt read.lock.slot).lock.isWriteLocked)

def Member.stale (member : Member) (isStale : Worker → ReadAccess → Bool) : List Bool :=
  match member.stage with
  | .checking reads => reads.map (isStale member.worker)
  | _ => []

-- It passes although it fails at either moment, and no order explains the two that would have committed.
theorem late_lock_word_misses_a_commit :
    let early := Crew.pair.play .double Crew.crossing
    let late := early.play .double Crew.finishing
    late.members.map (Member.stale · (·.isStaleLate early.store late.store)) = [[], [false]] ∧
      early.members.map (Member.stale · (·.isStale early.store)) = [[], [true]] ∧
      late.members.map (Member.stale · (·.isStale late.store)) = [[], [true]] ∧
      late.members.map Member.accesses = [[.read 0 0, .write 1 7], [.read 1 0, .write 0 9]] ∧
      ¬ Contents.Serial [(0, 0), (0, 0)] [[.read 0 0, .write 1 7], [.read 1 0, .write 0 9]] ∧
      ¬ Contents.Serial [(0, 0), (0, 0)] [[.read 1 0, .write 0 9], [.read 0 0, .write 1 7]] := by
  refine ⟨by decide +kernel, by decide +kernel, by decide +kernel, by decide +kernel, ?_, ?_⟩
  · rintro ⟨_, explains, _⟩
    rcases explains [] 1 0 [.write 0 9] rfl with own | ⟨_, version, here⟩
    · cases own
    · cases here
  · rintro ⟨_, explains, _⟩
    rcases explains [] 0 0 [.write 1 7] rfl with own | ⟨_, version, here⟩
    · cases own
    · cases here

end LockOrder
