import LockOrder.Proofs.AccessSets.Latest
import LockOrder.Proofs.Crew.Steps
import LockOrder.Proofs.CurrentList.Request

set_option autoImplicit false

namespace LockOrder

namespace Worker

variable {ids : List UInt64} {accesses : List Access} {worker : Worker}

-- Of each record that the attempt has written, it installs what it has written last.
structure Decided (accesses : List Access) (writes : List WriteAccess) : Prop where
  values : ∀ write ∈ writes, Access.latest write.lock.slot accesses = some write.value
  all : ∀ slot value, Access.latest slot accesses = some value →
    ∃ write ∈ writes, write.lock.slot = slot
  apart : writes.Pairwise fun a b => a.lock.slot ≠ b.lock.slot

theorem mem_last_writes_pending {sets : AccessSets} (records : sets.Records accesses)
    (write : WriteAccess) :
    write ∈ lastWrites sets.sortWrites.writes.toList ↔ sets.pending write.id = some write := by
  have different : (sets.writes.toList.map WriteAccess.ordinal).Nodup :=
    List.pairwise_map.mpr ((AccessSets.ordinals_ascend records).imp UInt32.ne_of_lt)
  have perm := sets.sort_writes_perm
  rw [mem_last_writes_iff, AccessSets.ends_run_iff (AccessSets.sort_writes_before different),
    AccessSets.pending_eq_iff different]
  exact ⟨fun latest => latest.perm perm, fun latest => latest.perm perm.symm⟩

theorem last_writes_decided (different : ids.Nodup) {sets : AccessSets} (on : sets.On ids)
    (records : sets.Records accesses) :
    Decided accesses (lastWrites sets.sortWrites.writes.toList) := by
  have pending := fun write => (mem_last_writes_pending records write).mp
  have listed : ∀ write, sets.pending write.id = some write → write ∈ sets.writes.toList := by
    intro write last
    have latest := AccessSets.pending_latest sets write.id
    rw [last] at latest
    exact latest.1
  constructor
  case values =>
    intro write last
    have own := pending write last
    rw [← AccessSets.pending_value different on records write.lock (on.writes write (listed write own)),
      show sets.pending write.lock.id = some write from own]
    rfl
  case all =>
    intro slot value some
    rw [AccessSets.latest_of_writes records, Option.map_eq_some_iff] at some
    obtain ⟨write, here, _⟩ := some
    obtain ⟨inside, same⟩ := List.mem_filter.mp (List.mem_of_getLast? here)
    have latest := AccessSets.pending_latest sets write.id
    cases last : sets.pending write.id with
    | none =>
        rw [last] at latest
        exact absurd rfl (latest write inside)
    | some other =>
        rw [last] at latest
        obtain ⟨there, own, _⟩ := latest
        refine ⟨other, (mem_last_writes_pending records other).mpr (own ▸ last), ?_⟩
        rw [← of_decide_eq_true same]
        exact (AccessSets.same_id_iff different on write.lock (on.writes write inside) other there).mp own
  case apart =>
    have ascend := AccessSets.sort_writes_before
      (List.pairwise_map.mpr ((AccessSets.ordinals_ascend records).imp UInt32.ne_of_lt))
    refine List.Pairwise.imp_of_mem ?_ (ascend.sublist (last_writes_sublist _))
    intro a b inA inB order same
    have ids : a.id = b.id :=
      (AccessSets.same_id_iff different on b.lock (on.writes b (listed b (pending b inB))) a
        (listed a (pending a inA))).mpr same
    have own := pending a inA
    rw [ids, pending b inB] at own
    obtain rfl := Option.some.inj own
    exact UInt32.lt_irrefl _ (order.ordinal_lt rfl)

theorem rested_idle (sound : worker.Sound ids) : worker.rested.Idle ids := by
  obtain ⟨kept, free⟩ := CurrentList.sound_write_freed sound.list (rfl : worker.list.buffer = _)
  have leaves : Leaves ids _ {} _ {} := ⟨sound.with_list _ kept, rfl, fun _ => free, fun _ => .refl⟩
  exact (clear_attempt_leaves leaves).2

theorem remembered_sound {retro : RetroList} {store : Store} (sound : worker.Sound ids)
    (remembered : worker.remembered store = .ok retro) : retro.Sound ids := by
  unfold Worker.remembered at remembered
  split at remembered
  · exact RetroList.construct_sound _ _ _ _ store
      (Nat.lt_of_le_of_lt (Nat.zero_le _) sound.retro.buffer.room) sound.sets remembered
  · cases remembered
    exact sound.retro

theorem rested_after_idle {next : Worker} {store : Store} (sound : worker.Sound ids) (ended : Outcome UInt64)
    (done : worker.restedAfter store ended = some next) : next.Idle ids := by
  have forgets : ∀ {worker : Worker}, worker.Idle ids → worker.forget.Idle ids := fun idle =>
    ⟨⟨idle.sound.list, retro_reset_sound idle.sound, idle.sound.sets, idle.sound.capacity⟩, idle.empty⟩
  cases ended with
  | ok value =>
      cases done
      obtain ⟨⟨list, retro, sets, capacity⟩, empty⟩ := forgets (rested_idle sound)
      exact ⟨⟨list, retro, sets, capacity⟩, empty⟩
  | misuse misuse => cases done
  | waiting id => cases done
  | fault fault =>
      rw [restedAfter] at done
      split at done
      · cases remembered : worker.remembered store with
        | error misuse =>
            rw [remembered] at done
            cases done
        | ok retro =>
            rw [remembered] at done
            cases done
            obtain ⟨⟨list, _, sets, capacity⟩, empty⟩ := rested_idle (count_abort_sound sound fault).1
            exact ⟨⟨list, remembered_sound sound remembered, sets, capacity⟩, empty⟩
      · cases done
        exact forgets (rested_idle sound)

structure Prepared (accesses : List Access) (worker : Worker) : Prop where
  decided : Decided accesses (lastWrites worker.sets.writes.toList)
  owned : ∀ write ∈ worker.sets.writes.toList, worker.owns write.id = true

-- The locks of a commit before this position are taken, and they are all when the last one is.
structure Securing (accesses : List Access) (worker : Worker) (pos count : Nat) : Prop where
  decided : Decided accesses (lastWrites worker.sets.writes.toList)
  whole : pos + count = worker.list.buffer.active + 1
  enough : ∀ other, 0 < other → other < pos → (worker.list.buffer.cell other).isEnough = true
  wants : ∀ write ∈ worker.sets.writes.toList, ∃ other, 0 < other ∧ other ≤ worker.list.buffer.active ∧
    (worker.list.buffer.cell other).id = write.id ∧
      (worker.list.buffer.cell other).preferred = .exclusive

theorem Securing.locked {pos count last : Nat} {store : Store} {state : Acquisition}
    (securing : worker.Securing accesses pos (count + 1)) (room : pos < worker.list.buffer.cells.size)
    (stepped : Acquisition.Stepped pos ⟨worker.list, last, store⟩ (.ok ()) state) :
    Worker.Securing accesses { worker with list := state.list } (pos + 1) count where
  decided := securing.decided
  whole := by
    have active : state.list.buffer.active = worker.list.buffer.active := stepped.active
    have whole := securing.whole
    change pos + 1 + count = state.list.buffer.active + 1
    omega
  enough := fun other start less => by
    change (state.cell other).isEnough = true
    by_cases here : other = pos
    · subst here
      exact stepped.enough_after room
    · rw [stepped.elsewhere other here]
      exact securing.enough other start (by omega)
  wants := fun write listed => by
    have active : state.list.buffer.active = worker.list.buffer.active := stepped.active
    obtain ⟨other, start, most, id, wish⟩ := securing.wants write listed
    obtain ⟨lock, preferred⟩ := stepped.wants room other
    refine ⟨other, start, active ▸ most, ?_, preferred.trans wish⟩
    change Entry.id (state.cell other) = write.id
    rw [Entry.id, lock]
    exact id

structure Seeking (ids : List UInt64) (accesses : List Access) (worker : Worker) (lock : LockRef) :
    Prop where
  records : worker.sets.Records accesses
  on : lock.On ids
  fresh : Access.latest lock.slot accesses = none

end Worker

structure CurrentList.Acquiring (list : CurrentList) (last pos count : Nat) : Prop where
  tracks : last = list.lastLocked
  first : 0 < pos
  bound : pos + count ≤ list.buffer.active + 1

namespace Stage

def Fits (ids : List UInt64) (worker : Worker) (accesses : List Access) : Stage → Prop
  | .resting => worker.list.entries = []
  | .serving => worker.sets.Records accesses
  | .locking (some lock) last pos count =>
      worker.list.Acquiring last pos count ∧ worker.Seeking ids accesses lock
  | .locking none last pos count =>
      worker.list.Acquiring last pos count ∧ worker.Securing accesses pos count
  | .checking reads => worker.Prepared accesses ∧ ∀ read ∈ reads, read.lock.On ids
  | .installing writes =>
      worker.Prepared accesses ∧ writes.Sublist (Worker.lastWrites worker.sets.writes.toList)
  | .leaving entries => ∀ entry ∈ entries, entry.Sound ids

-- What is still to be installed.
def owed : Stage → List WriteAccess
  | .installing writes => writes
  | _ => []

def isOpen : Stage → Bool
  | .serving | .locking .. => true
  | _ => false

def isBound : Stage → Bool
  | .checking _ | .installing _ => true
  | _ => false

end Stage

namespace Member

-- The entries whose locks it holds, if they are locked at all.
def held (member : Member) : List Entry :=
  match member.stage with
  | .leaving entries => entries
  | _ => member.worker.list.entries

structure Fits (ids : List UInt64) (member : Member) : Prop where
  sound : member.worker.Sound ids
  stage : member.stage.Fits ids member.worker member.accesses

def Faithful (member : Member) (contents : Contents) : Prop :=
  member.stage.isOpen = true → member.worker.Faithful member.accesses contents

end Member

namespace Scene

-- What the steps of an attempt mean to the records and to the history.
inductive Goes (scene : Scene) : Scene → Prop where
  | quiet {next : Scene} (contents : next.store.contents = scene.store.contents)
      (history : next.history = scene.history) (paid : scene.member.stage.owed = [])
      (free : next.member.stage.isBound = false)
      (faithful : scene.member.Faithful scene.store.contents →
        next.member.Faithful scene.store.contents) : Goes scene next
  | secured (last pos : Nat) (here : scene.member.stage = .locking none last pos 0) :
      Goes scene
        { scene with
          member := { scene.member with
            stage := .checking scene.member.worker.sets.reads.toList, place := scene.history.length }
          history := scene.history ++ [[]] }
  | checked (read : ReadAccess) (reads : List ReadAccess)
      (here : scene.member.stage = .checking (read :: reads))
      (current : scene.member.worker.isStale scene.store read = false) :
      Goes scene (scene.enter (.checking reads))
  | passed (here : scene.member.stage = .checking []) :
      Goes scene
        ({ scene with history := scene.history.set scene.member.place scene.member.accesses }.enter
          (.installing (Worker.lastWrites scene.member.worker.sets.writes.toList)))
  | installed (write : WriteAccess) (writes : List WriteAccess)
      (here : scene.member.stage = .installing (write :: writes)) :
      Goes scene
        ({ scene with store := scene.store.install write.lock.slot write.value }.enter
          (.installing writes))

structure Steps (ids : List UInt64) (scene next : Scene) : Prop where
  named : next.store.ids = scene.store.ids
  fits : next.member.Fits ids
  balanced : Balanced (Entry.tally scene.member.held) scene.store (Entry.tally next.member.held) next.store
  goes : scene.Goes next

variable {ids : List UInt64} {scene next : Scene}

theorem leave_steps {store : Store} {worker : Worker} (sound : worker.Sound ids)
    (named : store.ids = scene.store.ids) (contents : store.contents = scene.store.contents)
    (paid : scene.member.stage.owed = [])
    (balanced : Balanced (Entry.tally scene.member.held) scene.store
      (Entry.tally worker.list.entries) store) :
    Steps ids scene (({ scene with store }.withWorker worker).leave) :=
  ⟨named, ⟨sound, sound.list.entries⟩, balanced, .quiet contents rfl paid rfl fun _ => nofun⟩

theorem leave_here_steps (sound : scene.member.worker.Sound ids) (paid : scene.member.stage.owed = [])
    (held : scene.member.held = scene.member.worker.list.entries) : Steps ids scene scene.leave := by
  have balanced : Balanced (Entry.tally scene.member.held) scene.store
      (Entry.tally scene.member.worker.list.entries) scene.store := by
    rw [held]
    exact .refl
  exact leave_steps sound rfl rfl paid balanced

theorem held_of_open (opens : scene.member.stage.isOpen = true) :
    scene.member.held = scene.member.worker.list.entries ∧ scene.member.stage.owed = [] := by
  obtain ⟨⟨worker, stage, accesses, place⟩, store, history⟩ := scene
  cases stage <;> first | exact ⟨rfl, rfl⟩ | cases opens

theorem accessed_steps {worker : Worker} {access : Access} (opens : scene.member.stage.isOpen = true)
    (goes : Worker.Goes ids scene.member.accesses [access] scene.member.worker scene.store worker
      scene.store) : Steps ids scene ((scene.withWorker worker).accessed access) := by
  obtain ⟨held, paid⟩ := held_of_open opens
  refine ⟨rfl, ⟨goes.busy.sound, goes.busy.records⟩, ?_, .quiet rfl rfl paid rfl fun faithful _ => ?_⟩
  · rw [held]
    exact goes.conserves
  · exact goes.faithful (faithful opens)

theorem open_leave_steps {worker : Worker} (opens : scene.member.stage.isOpen = true)
    (goes : Worker.Goes ids scene.member.accesses [] scene.member.worker scene.store worker
      scene.store) : Steps ids scene (scene.withWorker worker).leave := by
  obtain ⟨held, paid⟩ := held_of_open opens
  refine leave_steps goes.busy.sound rfl rfl paid ?_
  rw [held]
  exact goes.conserves

theorem look_steps {lock : LockRef} (opens : scene.member.stage.isOpen = true)
    (busy : scene.member.worker.Busy ids scene.member.accesses) (named : scene.store.ids = ids)
    (on : lock.On ids) (fresh : Access.latest lock.slot scene.member.accesses = none) :
    Steps ids scene (scene.look lock (scene.store.recordAt lock.slot).readLocked) := by
  have inside := on.inside named
  have goes := Worker.saw_version_goes busy busy.sound rfl rfl .refl lock on
    (scene.store.contents_at lock.slot inside) fresh
  rw [look]
  generalize scene.member.worker.sawVersion lock _ = seen at goes
  obtain ⟨outcome, worker⟩ := seen
  cases outcome with
  | ok value => exact accessed_steps opens goes
  | fault fault => exact open_leave_steps opens goes
  | misuse misuse => exact open_leave_steps opens goes
  | waiting id => exact open_leave_steps opens goes

theorem read_steps {lock : LockRef} (different : ids.Nodup) (here : scene.member.stage = .serving)
    (fits : scene.member.Fits ids) (named : scene.store.ids = ids) (on : lock.On ids)
    (done : scene.read lock = some next) : Steps ids scene next := by
  have opens : scene.member.stage.isOpen = true := by rw [here]; rfl
  have records : scene.member.worker.sets.Records scene.member.accesses := by
    have stage := fits.stage
    rwa [here] at stage
  have busy : scene.member.worker.Busy ids scene.member.accesses := ⟨fits.sound, records⟩
  have pending := AccessSets.pending_value different fits.sound.sets records lock on
  rw [read] at done
  cases found : scene.member.worker.sets.pending lock.id with
  | some write =>
      rw [found] at done pending
      cases done
      have goes : Worker.Goes ids scene.member.accesses [.read lock.slot write.value]
          scene.member.worker scene.store scene.member.worker scene.store := by
        refine ⟨rfl, .refl, ⟨fits.sound, AccessSets.records_read records _ _ rfl⟩, fun faithful => ?_⟩
        exact Worker.faithful_read faithful _ _ (Or.inl pending.symm)
      exact accessed_steps opens goes
  | none =>
      rw [found] at done pending
      simp only at done
      split at done
      · cases asked : scene.member.worker.list.getOrAdd lock .shared with
        | error misuse =>
            rw [asked] at done
            cases done
            obtain ⟨held, paid⟩ := held_of_open opens
            exact leave_here_steps fits.sound paid held
        | ok grown =>
            obtain ⟨pos, list⟩ := grown
            rw [asked] at done
            cases done
            obtain ⟨held, paid⟩ := held_of_open opens
            have keeps := CurrentList.get_or_add_keeps scene.store lock .shared pos fits.sound.list on asked
            obtain ⟨first, bound, _⟩ := CurrentList.get_or_add_position fits.sound.list.buffer asked
            refine ⟨rfl, ⟨fits.sound.with_list list keeps.sound, ?_⟩, ?_, .quiet rfl rfl paid rfl ?_⟩
            · exact ⟨⟨rfl, Nat.one_pos, Nat.add_comm 1 pos ▸ Nat.succ_le_succ bound⟩, records, on, pending.symm⟩
            · rw [held]
              exact keeps.conserves
            · exact fun faithful _ => (faithful opens).with_reads fun _ listed => listed
      · cases content : (scene.store.recordAt lock.slot).readOptimistic with
        | none =>
            rw [content] at done
            cases done
        | some seen =>
            rw [content] at done
            cases done
            rw [Record.read_optimistic_eq content]
            exact look_steps opens busy named on pending.symm

theorem write_steps {lock : LockRef} (here : scene.member.stage = .serving)
    (fits : scene.member.Fits ids) (on : lock.On ids) (value : UInt64) :
    Steps ids scene (scene.write lock value) := by
  have opens : scene.member.stage.isOpen = true := by rw [here]; rfl
  have records : scene.member.worker.sets.Records scene.member.accesses := by
    have stage := fits.stage
    rwa [here] at stage
  have goes := Worker.write_goes ⟨fits.sound, records⟩ lock on value scene.store
  rw [write]
  generalize scene.member.worker.write lock value = result at goes
  obtain ⟨outcome, worker⟩ := result
  cases outcome with
  | ok done => exact accessed_steps opens goes
  | fault fault => exact open_leave_steps opens goes
  | misuse misuse => exact open_leave_steps opens goes
  | waiting id => exact open_leave_steps opens goes

theorem commit_steps (different : ids.Nodup) (here : scene.member.stage = .serving)
    (fits : scene.member.Fits ids) : Steps ids scene scene.commit := by
  have opens : scene.member.stage.isOpen = true := by rw [here]; rfl
  have records : scene.member.worker.sets.Records scene.member.accesses := by
    have stage := fits.stage
    rwa [here] at stage
  obtain ⟨held, paid⟩ := held_of_open opens
  have sorted := Worker.sorted_sound fits.sound
  have same : scene.member.worker.sorted.list.entries = scene.member.worker.list.entries :=
    Worker.entries_require _ _ _
  have on := AccessSets.on_sort_writes fits.sound.sets
  have ascend := AccessSets.sort_writes_ids scene.member.worker.sets
  rw [commit]
  cases merged : scene.member.worker.sorted.list.mergeWrites
      scene.member.worker.sorted.sets.writes.toList with
  | error misuse =>
      simp only
      refine leave_steps sorted rfl rfl paid ?_
      rw [held, same]
      exact .refl
  | ok list =>
      have keeps := CurrentList.merge_writes_keeps scene.store sorted.list _ on.writes ascend merged
      have wants := CurrentList.merge_writes_wants sorted.list _ ascend merged
      simp only
      refine ⟨rfl, ⟨sorted.with_list list keeps.sound, ?_⟩, ?_, .quiet rfl rfl paid rfl ?_⟩
      · refine ⟨⟨rfl, Nat.one_pos, Nat.le_of_eq (Nat.add_comm 1 _)⟩, ?_, Nat.add_comm 1 _, ?_, ?_⟩
        · exact Worker.last_writes_decided different fits.sound.sets records
        · intro other first less
          exact absurd first (by omega)
        · intro write listed
          obtain ⟨entry, there, named, wish⟩ := wants write listed
          obtain ⟨pos, first, bound, rfl⟩ :=
            Buffer.mem_entries_cell _ keeps.sound.buffer.room entry there
          exact ⟨pos, first, bound, named, wish⟩
      · rw [held, ← same]
        exact keeps.conserves
      · exact fun faithful _ => (faithful opens).with_reads fun _ listed => listed

theorem start_steps {worker : Worker} {place : Nat} (here : scene.member.stage = .resting)
    (fits : scene.member.Fits ids) (begun : scene.member.worker.start = (.ok (), worker)) :
    Steps ids scene { scene with member := { worker, stage := .serving, place } } := by
  obtain ⟨⟨resting, stage, accesses, place⟩, store, history⟩ := scene
  cases here
  have idle : resting.Idle ids := ⟨fits.sound, fits.stage⟩
  obtain ⟨sound, empty, conserves⟩ := Worker.start_sound idle
  rw [show resting.start = (.ok (), worker) from begun] at sound empty conserves
  refine ⟨rfl, ⟨sound, AccessSets.records_empty _ empty⟩, conserves store, .quiet rfl rfl rfl rfl ?_⟩
  exact fun _ _ => Worker.faithful_nil worker _

theorem forget_steps (here : scene.member.stage = .resting) (fits : scene.member.Fits ids) :
    Steps ids scene (scene.withWorker scene.member.worker.forget) := by
  obtain ⟨⟨worker, stage, accesses, place⟩, store, history⟩ := scene
  cases here
  have sound := fits.sound
  refine ⟨rfl, ⟨⟨sound.list, Worker.retro_reset_sound sound, sound.sets, sound.capacity⟩, fits.stage⟩, ?_, ?_⟩
  · exact .refl
  · exact .quiet rfl rfl rfl rfl fun _ => nofun

theorem rest_steps (here : scene.member.stage = .leaving []) (fits : scene.member.Fits ids)
    (ended : Outcome UInt64) (done : scene.rest ended = some next) : Steps ids scene next := by
  obtain ⟨worker, rests, rfl⟩ := Option.map_eq_some_iff.mp done
  have idle := Worker.rested_after_idle fits.sound ended rests
  obtain ⟨⟨left, stage, accesses, place⟩, store, history⟩ := scene
  cases here
  refine ⟨rfl, ⟨idle.sound, idle.empty⟩, ?_, .quiet rfl rfl rfl rfl fun _ => nofun⟩
  change Balanced (Entry.tally []) store (Entry.tally worker.list.entries) store
  rw [idle.empty]
  exact .refl

theorem ask_steps {table : Table} (different : ids.Nodup) (fits : table.Fits ids)
    (fit : scene.member.Fits ids) (named : scene.store.ids = ids) (deal : Deal)
    (done : scene.ask table deal = some next) : Steps ids scene next := by
  have on : ∀ {key slot}, table.slot key = .ok slot → (scene.store.lockAt slot).On ids := fun found =>
    Store.on_lock_within named _ (fits _ _ found)
  unfold ask at done
  split at done
  case h_1 here =>
    split at done
    · rename_i worker begun
      cases done
      exact start_steps here fit begun
    · cases done
  case h_2 here =>
    cases done
    exact forget_steps here fit
  case h_3 key here =>
    split at done
    · rename_i slot found
      exact read_steps different here fit named (on found) done
    · cases done
  case h_4 key value here =>
    split at done
    · rename_i slot found
      cases done
      exact write_steps here fit (on found) value
    · cases done
  case h_5 here =>
    cases done
    exact commit_steps different here fit
  case h_6 here =>
    cases done
    have opens : scene.member.stage.isOpen = true := by rw [here]; rfl
    obtain ⟨held, paid⟩ := held_of_open opens
    exact leave_here_steps fit.sound paid held
  case h_7 ended here => exact rest_steps here fit ended done
  case h_8 => cases done

theorem lock_next_steps {goal : Option LockRef} {last pos count : Nat}
    (here : scene.member.stage = .locking goal last pos (count + 1)) (fits : scene.member.Fits ids)
    (done : scene.lockNext goal last pos count = some next) : Steps ids scene next := by
  obtain ⟨⟨worker, stage, accesses, place⟩, store, history⟩ := scene
  cases here
  have sound : worker.Sound ids := fits.sound
  have acquiring : worker.list.Acquiring last pos (count + 1) := by
    cases goal with
    | none => exact fits.stage.1
    | some lock => exact fits.stage.1
  obtain ⟨tracks, first, bound⟩ := acquiring
  have inside : pos ≤ worker.list.buffer.active := by omega
  have room := Nat.lt_of_le_of_lt inside sound.list.buffer.room
  have ready : Acquisition.Ready ids ⟨worker.list, last, store⟩ := ⟨sound.list, tracks⟩
  have stepped := Acquisition.step_cases _ ready pos first inside
  simp only [lockNext] at done
  generalize Acquisition.step pos ⟨worker.list, last, store⟩ = result at done stepped
  obtain ⟨outcome, state⟩ := result
  simp only at done stepped
  obtain ⟨after, keeps⟩ := stepped.keeps ready first inside
  have named := Store.ids_of_bare keeps.bare
  have contents := Store.contents_of_bare keeps.bare
  cases outcome with
  | fault fault =>
      cases goal with
      | none =>
          cases done
          exact leave_steps (sound.with_list _ keeps.sound) named contents rfl keeps.conserves
      | some lock =>
          cases done
          refine ⟨named, ⟨sound.with_list _ keeps.sound, fits.stage.2.records⟩, keeps.conserves,
            .quiet contents rfl rfl rfl fun faithful _ => ?_⟩
          exact (faithful rfl).with_reads fun _ listed => listed
  | misuse misuse => cases done
  | waiting id => cases done
  | ok won =>
      cases done
      have active : state.list.buffer.active = worker.list.buffer.active := stepped.active
      have acquiring : state.list.Acquiring state.last (pos + 1) count :=
        ⟨after.tracks, Nat.succ_pos pos, by omega⟩
      refine ⟨named, ⟨sound.with_list _ keeps.sound, ?_⟩, keeps.conserves, .quiet contents rfl rfl rfl ?_⟩
      · cases goal with
        | some lock =>
            obtain ⟨_, records, on, fresh⟩ := fits.stage
            exact ⟨acquiring, records, on, fresh⟩
        | none => exact ⟨acquiring, Worker.Securing.locked fits.stage.2 room stepped⟩
      · exact fun faithful _ => (faithful rfl).with_reads fun _ listed => listed

theorem secured_steps {last pos : Nat} (here : scene.member.stage = .locking none last pos 0)
    (fits : scene.member.Fits ids) :
    Steps ids scene
      { scene with
        member := { scene.member with
          stage := .checking scene.member.worker.sets.reads.toList, place := scene.history.length }
        history := scene.history ++ [[]] } := by
  have opens : scene.member.stage.isOpen = true := by rw [here]; rfl
  obtain ⟨held, _⟩ := held_of_open opens
  obtain ⟨_, decided, whole, enough, wants⟩ : scene.member.worker.list.Acquiring last pos 0 ∧
      scene.member.worker.Securing scene.member.accesses pos 0 := by
    have stage := fits.stage
    rwa [here] at stage
  refine ⟨rfl, ⟨fits.sound, ⟨⟨decided, fun write listed => ?_⟩, fits.sound.sets.reads⟩⟩, ?_,
    .secured last pos here⟩
  · obtain ⟨other, first, bound, named, wish⟩ := wants write listed
    exact Worker.owns_of_enough fits.sound.list first bound named wish (enough other first (by omega))
  · rw [held]
    exact .refl

theorem prepared_of_checking {reads : List ReadAccess} (here : scene.member.stage = .checking reads)
    (fits : scene.member.Fits ids) : scene.member.worker.Prepared scene.member.accesses ∧
      (∀ read ∈ reads, read.lock.On ids) ∧ scene.member.held = scene.member.worker.list.entries := by
  obtain ⟨⟨worker, stage, accesses, place⟩, store, history⟩ := scene
  cases here
  exact ⟨fits.stage.1, fits.stage.2, rfl⟩

theorem check_steps {read : ReadAccess} {reads : List ReadAccess}
    (here : scene.member.stage = .checking (read :: reads)) (fits : scene.member.Fits ids)
    (done : scene.go = some next) : Steps ids scene next := by
  obtain ⟨prepared, on, held⟩ := prepared_of_checking here fits
  have later : ∀ other ∈ reads, other.lock.On ids := fun other listed => on other (List.mem_cons_of_mem _ listed)
  simp only [go, here] at done
  by_cases stale : scene.member.worker.isStale scene.store read = true
  · rw [if_pos stale] at done
    cases done
    have balanced : Balanced (Entry.tally scene.member.held) scene.store
        (Entry.tally scene.member.worker.list.entries) (scene.store.bump read.lock.slot) := by
      rw [held]
      exact fun rest => Store.accounts_bump scene.store read.lock.slot _
    exact leave_steps fits.sound (Store.ids_bump _ _) (Store.contents_bump _ _) (by rw [here]; rfl) balanced
  · rw [if_neg stale] at done
    cases done
    refine ⟨rfl, ⟨fits.sound, prepared, later⟩, ?_, .checked read reads here (Bool.eq_false_iff.mpr stale)⟩
    rw [held]
    exact .refl

theorem pass_steps (here : scene.member.stage = .checking []) (fits : scene.member.Fits ids)
    (done : scene.go = some next) : Steps ids scene next := by
  obtain ⟨prepared, _, held⟩ := prepared_of_checking here fits
  simp only [go, here] at done
  cases done
  refine ⟨rfl, ⟨fits.sound, prepared, .refl _⟩, ?_, .passed here⟩
  rw [held]
  exact .refl

theorem install_steps {write : WriteAccess} {writes : List WriteAccess}
    (here : scene.member.stage = .installing (write :: writes)) (fits : scene.member.Fits ids)
    (done : scene.go = some next) : Steps ids scene next := by
  have goes := Goes.installed write writes here
  obtain ⟨⟨worker, stage, accesses, place⟩, store, history⟩ := scene
  cases here
  obtain ⟨prepared, part⟩ : worker.Prepared accesses ∧
    (write :: writes).Sublist (Worker.lastWrites worker.sets.writes.toList) := fits.stage
  have listed := (Worker.last_writes_sublist _).subset (part.subset (List.mem_cons_self ..))
  simp only [go, Worker.install, prepared.owned write listed] at done
  cases done
  refine ⟨Store.ids_install store _ _, ⟨fits.sound, prepared, ?_⟩, ?_, goes⟩
  · exact (List.sublist_cons_self ..).trans part
  · exact fun rest => Store.accounts_install store write.lock.slot write.value _

theorem give_back_steps {entry : Entry} {entries : List Entry}
    (here : scene.member.stage = .leaving (entry :: entries)) (fits : scene.member.Fits ids)
    (done : scene.go = some next) : Steps ids scene next := by
  obtain ⟨⟨worker, stage, accesses, place⟩, store, history⟩ := scene
  cases here
  have sound : ∀ other ∈ entry :: entries, other.Sound ids := fits.stage
  obtain ⟨buffer, bare, accounts⟩ := CurrentList.give_back_fold [entry] worker.list store fun other listed =>
    sound other (List.mem_singleton.mp listed ▸ List.mem_cons_self ..)
  have keeps : CurrentList.Keeps ids worker.list store worker.list store :=
    CurrentList.keeps_refl fits.sound.list
  simp only [go] at done
  cases done
  refine ⟨Store.ids_of_bare bare, ⟨fits.sound.with_list _ (keeps.of_buffer buffer).sound, ?_⟩, ?_, ?_⟩
  · exact fun other listed => sound other (List.mem_cons_of_mem _ listed)
  · intro rest before
    refine accounts (rest.plus (Entry.tally entries)) (Store.accounts_congr before fun slot kind => ?_)
    have whole := Entry.tally_append [entry] entries slot kind
    change rest slot kind + Entry.tally ([entry] ++ entries) slot kind = _
    rw [whole, Nat.add_comm (Entry.tally [entry] slot kind), ← Nat.add_assoc]
    rfl
  · exact .quiet (Store.contents_of_bare bare) rfl rfl rfl fun _ => nofun

theorem go_steps (fits : scene.member.Fits ids) (named : scene.store.ids = ids)
    (done : scene.go = some next) : Steps ids scene next := by
  cases here : scene.member.stage with
  | resting =>
      simp only [go, here] at done
      cases done
  | serving =>
      simp only [go, here] at done
      cases done
  | locking goal last pos count =>
      cases count with
      | succ count =>
          simp only [go, here] at done
          exact lock_next_steps here fits done
      | zero =>
          cases goal with
          | none =>
              simp only [go, here] at done
              cases done
              exact secured_steps here fits
          | some lock =>
              simp only [go, here] at done
              cases done
              obtain ⟨_, records, on, fresh⟩ : scene.member.worker.list.Acquiring last pos 0 ∧
                  scene.member.worker.Seeking ids scene.member.accesses lock := by
                have stage := fits.stage
                rwa [here] at stage
              exact look_steps (by rw [here]; rfl) ⟨fits.sound, records⟩ named on fresh
  | checking reads =>
      cases reads with
      | nil => exact pass_steps here fits done
      | cons read reads => exact check_steps here fits done
  | installing writes =>
      cases writes with
      | cons write writes => exact install_steps here fits done
      | nil =>
          simp only [go, here] at done
          cases done
          have held : scene.member.held = scene.member.worker.list.entries := by rw [Member.held, here]
          exact leave_here_steps fits.sound (by rw [here]; rfl) held
  | leaving entries =>
      cases entries with
      | cons entry entries => exact give_back_steps here fits done
      | nil =>
          simp only [go, here] at done
          cases done

end Scene

end LockOrder
