import LockOrder.Proofs.Serial.Tells
import LockOrder.Proofs.Worker.Commit

set_option autoImplicit false

namespace LockOrder

open Mark

structure Arena.Sound (ids : List UInt64) (arena : Arena Outsiders) : Prop where
  named : arena.store.ids = ids
  outside : arena.outside.held.size = ids.length
  seats : ∀ seat worker, arena.worker seat = some worker → worker.Idle ids

theorem Arena.Sound.size {ids : List UInt64} {arena : Arena Outsiders} (sound : arena.Sound ids) :
    arena.outside.held.size = arena.store.records.size :=
  sound.outside.trans (Store.size_of_ids sound.named).symm

def Table.Fits (ids : List UInt64) (table : Table) : Prop :=
  ∀ key slot, table.slot key = .ok slot → slot < ids.length

variable {ids : List UInt64} {table : Table}

theorem Act.perform_keeps (fits : table.Fits ids) (act : Act) (outsiders : Outsiders) (store : Store)
    (identified : store.ids = ids) :
    outsiders.Keeps store (act.perform table outsiders store).2.1
      (act.perform table outsiders store).2.2 := by
  unfold perform
  cases named : act.key? with
  | none =>
      cases act with
      | peek => exact Outsiders.keeps_refl
      | _ => cases named
  | some key =>
      simp only
      cases found : table.slot key with
      | error fault => exact Outsiders.keeps_refl
      | ok slot =>
          have inside : slot < store.records.size := Store.size_of_ids identified ▸ fits key slot found
          exact Outsiders.act_at_keeps slot inside act

namespace Arena

-- The handles that are held without a list, or by a list in use.
def held (arena : Arena Outsiders) (list : CurrentList) : Tally :=
  arena.outside.tally.plus (Entry.tally list.entries)

theorem sound_outside {arena : Arena Outsiders} (sound : arena.Sound ids) (outside : Outsiders)
    (size : outside.held.size = ids.length) (store : Store) (named : store.ids = ids) :
    Sound ids { arena with outside, store } where
  named := named
  outside := size
  seats := sound.seats

theorem sound_store {arena : Arena Outsiders} (sound : arena.Sound ids) (store : Store)
    (named : store.ids = ids) : (arena.withStore store).Sound ids :=
  sound_outside sound arena.outside sound.outside store named

theorem sound_set_seat {arena : Arena Outsiders} (sound : arena.Sound ids) (seat : Nat)
    (worker : Option Worker) (idle : ∀ other, worker = some other → other.Idle ids) :
    (arena.setSeat seat worker).Sound ids where
  named := sound.named
  outside := sound.outside
  seats := by
    intro other found here
    by_cases same : seat = other
    · subst same
      by_cases inside : seat < arena.seats.size
      · exact idle found (by simpa [Arena.worker, setSeat, inside] using here)
      · simp [Arena.worker, setSeat, inside] at here
    · exact sound.seats other found (by simpa [Arena.worker, setSeat, same] using here)

end Arena

structure Executed.Told (ids : List UInt64) (table : Table) (accesses : List Access) (worker : Worker)
    (arena : Arena Outsiders) (executed : Executed Act Reply Outsiders) : Prop where
  sound : executed.arena.Sound ids
  tells : Tells (Event.historyOf table executed.events) arena.store executed.arena.store
  busy : executed.worker.Busy ids (accesses ++ Event.accesses table executed.events)
  faithful : arena.store.contents.Bounded (commits (Event.historyOf table executed.events)) →
    worker.Faithful accesses arena.store.contents →
      executed.worker.Faithful (accesses ++ Event.accesses table executed.events)
        executed.arena.store.contents
  -- Whoever waits for ever keeps what it holds.
  balanced : 0 ∉ ids → (∀ id, executed.outcome ≠ .waiting id) →
    Balanced (arena.held worker.list) arena.store (executed.arena.held executed.worker.list)
      executed.arena.store

namespace Executed

variable {accesses : List Access} {worker : Worker} {arena : Arena Outsiders}

theorem told_nothing (busy : worker.Busy ids accesses) (sound : arena.Sound ids)
    (outcome : Outcome UInt64) : Told ids table accesses worker arena ⟨[], outcome, worker, arena⟩ where
  sound := sound
  tells := tells_nothing rfl
  busy := by
    change worker.Busy ids (accesses ++ [])
    rw [List.append_nil]
    exact busy
  faithful := by
    intro _ faithful
    change worker.Faithful (accesses ++ []) arena.store.contents
    rw [List.append_nil]
    exact faithful
  balanced := fun _ _ => .refl

theorem told_after {after : Worker} {mid : Arena Outsiders} (event : Event Act Reply)
    (rest : Executed Act Reply Outsiders) (tells : Tells (event.history table) arena.store mid.store)
    (faithful : arena.store.contents.Bounded (commits (event.history table)) →
      worker.Faithful accesses arena.store.contents →
        after.Faithful (accesses ++ Event.accesses table [event]) mid.store.contents)
    (balanced : 0 ∉ ids → (∀ id, rest.outcome ≠ .waiting id) →
      Balanced (arena.held worker.list) arena.store (mid.held after.list) mid.store)
    (told : Told ids table (accesses ++ Event.accesses table [event]) after mid rest) :
    Told ids table accesses worker arena (rest.after event) := by
  have events : accesses ++ Event.accesses table (event :: rest.events) =
      accesses ++ Event.accesses table [event] ++ Event.accesses table rest.events := by
    rw [List.append_assoc]
    exact congrArg _ (List.filterMap_append (l := [event]))
  refine ⟨told.sound, tells.append told.tells, ?_, ?_, fun nonzero ends =>
    (balanced nonzero ends).trans (told.balanced nonzero ends)⟩
  · change rest.worker.Busy ids (accesses ++ Event.accesses table (event :: rest.events))
    rw [events]
    exact told.busy
  · intro bounded before
    change rest.worker.Faithful (accesses ++ Event.accesses table (event :: rest.events)) _
    rw [events]
    change arena.store.contents.Bounded
      (commits (event.history table ++ Event.historyOf table rest.events)) at bounded
    rw [commits_append] at bounded
    obtain ⟨early, late⟩ := (Contents.bounded_append _ _ _).mp bounded
    rw [← contents_of_lead tells.lead] at late
    exact told.faithful late (faithful early before)

theorem told_step {after : Worker} {next : Store} (event : Event Act Reply)
    (rest : Executed Act Reply Outsiders) (silent : event.history table = [])
    (goes : Worker.Goes ids accesses (Event.accesses table [event]) worker arena.store after next)
    (told : Told ids table (accesses ++ Event.accesses table [event]) after (arena.withStore next) rest) :
    Told ids table accesses worker arena (rest.after event) := by
  refine told_after event rest ?_ (fun _ => goes.faithful) (fun _ _ => ?_) told
  · rw [silent]
    exact tells_nothing goes.bare
  · exact Balanced.frame goes.conserves arena.outside.tally

theorem told_other {mid : Arena Outsiders} (event : Event Act Reply)
    (rest : Executed Act Reply Outsiders) (silent : Event.accesses table [event] = [])
    (tells : Tells (event.history table) arena.store mid.store)
    (balanced : 0 ∉ ids → (∀ id, rest.outcome ≠ .waiting id) →
      Balanced arena.outside.tally arena.store mid.outside.tally mid.store)
    (told : Told ids table accesses worker mid rest) :
    Told ids table accesses worker arena (rest.after event) := by
  have same : accesses ++ Event.accesses table [event] = accesses := by
    rw [silent, List.append_nil]
  refine told_after event rest tells (fun bounded faithful => ?_) (fun nonzero ends => ?_) (same ▸ told)
  · rw [same]
    exact faithful.later (tells.follows bounded)
  · exact (balanced nonzero ends).frame_right (Entry.tally worker.list.entries)

end Executed

structure Ran.Told (ids : List UInt64) (table : Table) (past : List (Call Act Reply))
    (list : CurrentList) (arena : Arena Outsiders) (ran : Ran Act Reply Outsiders) : Prop where
  sound : ran.arena.Sound ids
  worker : ran.worker.Sound ids
  -- The worker is ready for another run, unless it broke a contract or waits.
  idle : ran.run.result.isOver = true → ran.worker.Idle ids
  calls : ∃ calls, ran.run.calls = past ++ calls ∧
    Tells (Event.historyOfCalls table calls) arena.store ran.arena.store
  balanced : 0 ∉ ids → (∀ id, ran.run.result ≠ .waiting id) →
    Balanced (arena.held list) arena.store (ran.arena.held ran.worker.list) ran.arena.store

namespace Worker

variable {worker : Worker} {arena : Arena Outsiders}

inductive Concludes (accesses : List Access) (worker : Worker) (store : Store) :
    Outcome UInt64 → Outcome UInt64 → Store → Prop where
  | committed (value : UInt64) (next : Store) (bare : next.bare = store.bare.commit accesses)
      (current : ∀ read ∈ worker.sets.reads.toList, read.isCurrent store = true) :
      Concludes accesses worker store (.ok value) (.ok value) next
  | conflict (value : UInt64) (slot : Nat) (next : Store) (bare : next.bare = store.bare.bump slot) :
      Concludes accesses worker store (.ok value) (.fault .conflict) next
  | failed (returned ended : Outcome UInt64) (next : Store) (bare : next.bare = store.bare)
      (silent : Event.ending accesses returned ended = []) (fails : ∀ value, ended ≠ .ok value) :
      Concludes accesses worker store returned ended next

theorem conclude_cases {accesses : List Access} (different : ids.Nodup)
    (executed : Executed Act Reply Outsiders) (busy : executed.worker.Busy ids accesses)
    (named : executed.arena.store.ids = ids) :
    Concludes accesses executed.worker executed.arena.store executed.outcome (conclude executed).1
      (conclude executed).2.2 ∧
      (conclude executed).2.1.Sound ids ∧
      Conserves executed.worker.list.entries executed.arena.store
        (conclude executed).2.1.list.entries (conclude executed).2.2 := by
  unfold conclude
  cases executed.outcome with
  | ok value =>
      obtain ⟨commits, sound, conserves⟩ := commit_cases different busy executed.arena.store named
      refine ⟨?_, sound, conserves⟩
      simp only
      generalize executed.worker.commit executed.arena.store = result at commits
      obtain ⟨outcome, after, next⟩ := result
      cases commits with
      | committed next bare current => exact .committed value next bare current
      | conflict next read listed bare => exact .conflict value read.lock.slot next bare
      | lostRace next bare => exact .failed _ _ next bare rfl fun _ ok => by cases ok
      | broken misuse next bare => exact .failed _ _ next bare rfl fun _ ok => by cases ok
      | stuck id next bare => exact .failed _ _ next bare rfl fun _ ok => by cases ok
  | fault fault => exact ⟨.failed _ _ _ rfl rfl fun _ ok => (by cases ok), busy.sound, .refl⟩
  | misuse misuse => exact ⟨.failed _ _ _ rfl rfl fun _ ok => (by cases ok), busy.sound, .refl⟩
  | waiting id => exact ⟨.failed _ _ _ rfl rfl fun _ ok => (by cases ok), busy.sound, .refl⟩

theorem conclude_waiting (executed : Executed Act Reply Outsiders) (id : UInt64)
    (waits : executed.outcome = .waiting id) : (conclude executed).1 = .waiting id := by
  unfold conclude
  rw [waits]

structure Concluded (ids : List UInt64) (table : Table) (worker : Worker) (arena : Arena Outsiders)
    (executed : Executed Act Reply Outsiders) : Prop where
  sound : (conclude executed).2.1.Sound ids
  tells : Tells (Event.historyOf table executed.events ++
    Event.ending (Event.accesses table executed.events) executed.outcome (conclude executed).1)
      arena.store (conclude executed).2.2
  balanced : 0 ∉ ids → (∀ id, (conclude executed).1 ≠ .waiting id) →
    Balanced (arena.held worker.list) arena.store
      (executed.arena.held (conclude executed).2.1.list) (conclude executed).2.2

theorem conclude_tells (different : ids.Nodup) (executed : Executed Act Reply Outsiders)
    (told : Executed.Told ids table [] worker arena executed) :
    Concluded ids table worker arena executed := by
  have busy : executed.worker.Busy ids (Event.accesses table executed.events) := told.busy
  obtain ⟨concludes, sound, conserves⟩ := conclude_cases different executed busy told.sound.named
  refine ⟨sound, ?_, fun nonzero ends => ?_⟩
  · generalize (conclude executed).1 = ended at concludes
    generalize (conclude executed).2.2 = next at concludes
    generalize executed.outcome = returned at concludes
    cases concludes with
    | committed value next bare current =>
        refine told.tells.extend (lead_single bare) fun bounded _ => ⟨?_, trivial⟩
        exact explains_of_current _ executed.worker executed.arena.store
          (told.faithful bounded (faithful_nil worker _)) current
    | conflict value slot next bare => exact told.tells.append (tells_heated none ⟨slot, bare⟩)
    | failed returned ended next bare silent fails =>
        rw [silent]
        exact told.tells.append (tells_nothing bare)
  · refine (told.balanced nonzero fun id waits => ?_).trans
      (Balanced.frame conserves executed.arena.outside.tally)
    exact ends id (conclude_waiting executed id waits)

abbrev Execution :=
  List (Call Act Reply) → Worker → Arena Outsiders → Executed Act Reply Outsiders

def Executes (ids : List UInt64) (table : Table) (execute : Execution) : Prop :=
  ∀ past worker arena, worker.Busy ids [] → arena.Sound ids →
    Executed.Told ids table [] worker arena (execute past worker arena)

structure Attempted (ids : List UInt64) (table : Table) (worker : Worker) (arena : Arena Outsiders)
    (result : Call Act Reply × Worker × Arena Outsiders) : Prop where
  sound : result.2.1.Sound ids
  around : result.2.2.Sound ids
  tells : Tells (Event.historyOfCalls table [result.1]) arena.store result.2.2.store
  balanced : 0 ∉ ids → (∀ id, result.1.ended ≠ .waiting id) →
    Balanced (arena.held worker.list) arena.store (result.2.2.held result.2.1.list) result.2.2.store

theorem attempt_told (different : ids.Nodup) (execute : Execution)
    (executes : Executes ids table execute) (past : List (Call Act Reply)) (worker : Worker)
    (arena : Arena Outsiders) (busy : worker.Busy ids []) (sound : arena.Sound ids) :
    Attempted ids table worker arena (attempt execute past worker arena) := by
  have told := executes past worker arena busy sound
  obtain ⟨after, tells, balanced⟩ := conclude_tells different _ told
  refine ⟨after, ?_, ?_, balanced⟩
  · exact Arena.sound_store told.sound _ ((ids_of_lead tells.lead).trans sound.named)
  · change Tells (_ ++ []) _ _
    rw [List.append_nil]
    exact tells

-- What comes after an attempt changes no record. The worker may go on unless it is stopped; who
-- waits for ever is left waiting.
structure Rested (ids : List UInt64) (worker : Worker) (store : Store) (ended : Outcome UInt64)
    (result : Option (Outcome UInt64) × Worker × Store) : Prop where
  sound : result.2.1.Sound ids
  bare : result.2.2.bare = store.bare
  idle : (∀ outcome, result.1 = some outcome → outcome.isOver = true) → result.2.1.Idle ids
  conserves : 0 ∉ ids → Conserves worker.list.entries store result.2.1.list.entries result.2.2
  waits : ∀ id, ended = .waiting id → result.1 = some (.waiting id)

theorem after_attempt_rested (worker : Worker) (sound : worker.Sound ids) (store : Store)
    (ended : Outcome UInt64) :
    Rested ids worker store ended (worker.afterAttempt store ended) := by
  cases closed : ended.isOver with
  | false =>
      rw [after_attempt_stopped worker store ended closed]
      refine ⟨sound, rfl, fun all => ?_, fun _ => .refl, fun id waits => congrArg some waits⟩
      have wrong := all ended rfl
      rw [closed] at wrong
      cases wrong
  | true =>
      have awake : ∀ id, ended = .waiting id →
          (worker.afterAttempt store ended).1 = some (.waiting id) := by
        intro id waits
        rw [waits] at closed
        cases closed
      obtain ⟨leaves, misused | idle⟩ := after_attempt_leaves sound store ended closed
      · obtain ⟨misuse, result⟩ := misused
        refine ⟨leaves.sound, leaves.bare, fun all => ?_, leaves.conserves, awake⟩
        cases all _ result
      · exact ⟨leaves.sound, leaves.bare, fun _ => idle, leaves.conserves, awake⟩

theorem forget_idle (worker : Worker) (idle : worker.Idle ids) : worker.forget.Idle ids where
  sound := ⟨idle.sound.list, retro_reset_sound idle.sound, idle.sound.sets, idle.sound.capacity⟩
  empty := idle.empty

theorem history_of_calls_cons (call : Call Act Reply) (rest : List (Call Act Reply)) :
    Event.historyOfCalls table (call :: rest) =
      Event.historyOfCalls table [call] ++ Event.historyOfCalls table rest := by
  obtain ⟨events, returned, ended⟩ := call
  simp [Event.historyOfCalls]

theorem told_call {past : List (Call Act Reply)} {list after : CurrentList}
    {arena mid : Arena Outsiders} {ran : Ran Act Reply Outsiders} (call : Call Act Reply)
    (tells : Tells (Event.historyOfCalls table [call]) arena.store mid.store)
    (balanced : 0 ∉ ids → (∀ id, ran.run.result ≠ .waiting id) →
      Balanced (arena.held list) arena.store (mid.held after) mid.store)
    (told : Ran.Told ids table (past ++ [call]) after mid ran) :
    Ran.Told ids table past list arena ran := by
  obtain ⟨sound, worker, idle, ⟨calls, same, later⟩, rest⟩ := told
  refine ⟨sound, worker, idle, ⟨call :: calls, by rw [same, List.append_assoc]; rfl, ?_⟩,
    fun nonzero ends => (balanced nonzero ends).trans (rest nonzero ends)⟩
  rw [history_of_calls_cons]
  exact tells.append later

theorem leave_told (calls : List (Call Act Reply)) (result : Outcome UInt64) (worker : Worker)
    (arena : Arena Outsiders) (sound : arena.Sound ids) (worker_sound : worker.Sound ids)
    (idle : result.isOver = true → worker.Idle ids) :
    Ran.Told ids table calls worker.list arena (leave calls result worker arena) :=
  ⟨sound, worker_sound, idle, ⟨[], (List.append_nil calls).symm, tells_nothing rfl⟩,
    fun _ _ => .refl⟩

theorem told_list {past : List (Call Act Reply)} {list other : CurrentList} {arena : Arena Outsiders}
    {ran : Ran Act Reply Outsiders} (told : Ran.Told ids table past other arena ran)
    (conserves : Conserves list.entries arena.store other.entries arena.store) :
    Ran.Told ids table past list arena ran :=
  ⟨told.sound, told.worker, told.idle, told.calls, fun nonzero ends =>
    (Balanced.frame conserves arena.outside.tally).trans (told.balanced nonzero ends)⟩

def callThen (execute : Execution)
    (again : List (Call Act Reply) → Worker → Arena Outsiders → Ran Act Reply Outsiders)
    (past : List (Call Act Reply)) (worker : Worker) (arena : Arena Outsiders) :
    Ran Act Reply Outsiders :=
  match worker.start with
  | (.error misuse, worker) => leave past (.misuse misuse) worker arena
  | (.ok (), worker) =>
      let (call, worker, arena) := attempt execute past worker arena
      match worker.afterAttempt arena.store call.ended with
      | (some result, worker, store) =>
          leave (past ++ [call]) result worker (arena.withStore store)
      | (none, worker, store) => again (past ++ [call]) worker (arena.withStore store)

theorem run_from_zero (execute : Execution) (past : List (Call Act Reply)) (worker : Worker)
    (arena : Arena Outsiders) :
    runFrom execute 0 past worker arena = callThen execute (fun calls worker arena =>
      leave calls (.fault .retryLimitExceeded) worker.forget arena) past worker arena := by
  unfold runFrom callThen
  rfl

theorem run_from_succ (execute : Execution) (retries : Nat) (past : List (Call Act Reply))
    (worker : Worker) (arena : Arena Outsiders) :
    runFrom execute (retries + 1) past worker arena =
      callThen execute (runFrom execute retries) past worker arena := by
  rw [runFrom]
  rfl

structure Over (ids : List UInt64) (table : Table) (list : CurrentList) (arena : Arena Outsiders)
    (call : Call Act Reply) (result : Option (Outcome UInt64)) (fresh : Worker)
    (last : Arena Outsiders) : Prop where
  around : last.Sound ids
  sound : fresh.Sound ids
  idle : (∀ outcome, result = some outcome → outcome.isOver = true) → fresh.Idle ids
  tells : Tells (Event.historyOfCalls table [call]) arena.store last.store
  balanced : 0 ∉ ids → (∀ id, result ≠ some (.waiting id)) →
    Balanced (arena.held list) arena.store (last.held fresh.list) last.store

theorem attempt_over (different : ids.Nodup) {execute : Execution}
    (executes : Executes ids table execute) {past : List (Call Act Reply)}
    {worker started tired fresh : Worker} {arena mid : Arena Outsiders} {call : Call Act Reply}
    {result : Option (Outcome UInt64)} {next : Store} (idle : worker.Idle ids)
    (sound : arena.Sound ids) (start : worker.start = (.ok (), started))
    (attempted : attempt execute past started arena = (call, tired, mid))
    (left : tired.afterAttempt mid.store call.ended = (result, fresh, next)) :
    Over ids table worker.list arena call result fresh (mid.withStore next) := by
  obtain ⟨clean, empty, seeded⟩ := start_sound idle
  rw [start] at clean empty seeded
  have told := attempt_told different execute executes past started arena
    ⟨clean, AccessSets.records_empty _ empty⟩ sound
  rw [attempted] at told
  have rested := after_attempt_rested tired told.sound mid.store call.ended
  rw [left] at rested
  refine ⟨?_, rested.sound, rested.idle, told.tells.later rested.bare, fun nonzero ends => ?_⟩
  · exact Arena.sound_store told.around next
      ((Store.ids_of_bare rested.bare).trans told.around.named)
  · refine (Balanced.frame (seeded arena.store) arena.outside.tally).trans ?_
    refine (told.balanced nonzero fun id waits => ends id (rested.waits id waits)).trans ?_
    exact Balanced.frame (rested.conserves nonzero) mid.outside.tally

theorem call_told (different : ids.Nodup) (execute : Execution)
    (executes : Executes ids table execute) (past : List (Call Act Reply)) (worker : Worker)
    (arena : Arena Outsiders) (idle : worker.Idle ids) (sound : arena.Sound ids)
    (again : List (Call Act Reply) → Worker → Arena Outsiders → Ran Act Reply Outsiders)
    (retried : ∀ calls worker arena, worker.Idle ids → arena.Sound ids →
      Ran.Told ids table calls worker.list arena (again calls worker arena)) :
    Ran.Told ids table past worker.list arena
      (callThen execute again past worker arena) := by
  unfold callThen
  rcases start : worker.start with ⟨misuse | _, started⟩
  · obtain ⟨clean, _, seeded⟩ := start_sound idle
    rw [start] at clean seeded
    exact told_list (leave_told past _ started arena sound clean fun closed => by cases closed)
      (seeded arena.store)
  · rcases attempted : attempt execute past started arena with ⟨call, tired, mid⟩
    rcases left : tired.afterAttempt mid.store call.ended with ⟨none | result, fresh, next⟩
    · have rested := attempt_over different executes idle sound start attempted left
      simp only [attempted, left]
      refine told_call call rested.tells (fun nonzero _ => ?_)
        (retried _ fresh _ (rested.idle fun other same => by cases same) rested.around)
      exact rested.balanced nonzero fun id same => by cases same
    · have rested := attempt_over different executes idle sound start attempted left
      simp only [attempted, left]
      refine told_call call rested.tells (fun nonzero ends => ?_)
        (leave_told _ result fresh _ rested.around rested.sound fun closed => ?_)
      · exact rested.balanced nonzero fun id same => ends id (Option.some.inj same)
      · exact rested.idle fun other same => by cases same; exact closed

theorem run_from_told (different : ids.Nodup) (execute : Execution)
    (executes : Executes ids table execute) (retries : Nat) (past : List (Call Act Reply))
    (worker : Worker) (arena : Arena Outsiders) (idle : worker.Idle ids) (sound : arena.Sound ids) :
    Ran.Told ids table past worker.list arena (runFrom execute retries past worker arena) := by
  induction retries generalizing past worker arena with
  | zero =>
      rw [run_from_zero]
      refine call_told different execute executes past worker arena idle sound _ ?_
      intro calls worker arena idle sound
      have forgot := forget_idle worker idle
      exact leave_told calls _ worker.forget arena sound forgot.sound fun _ => forgot
  | succ retries ih =>
      rw [run_from_succ]
      exact call_told different execute executes past worker arena idle sound _ ih

end Worker

namespace Ran

theorem settled_sound {past : List (Call Act Reply)} {list : CurrentList} {arena : Arena Outsiders}
    {ran : Ran Act Reply Outsiders} (told : Ran.Told ids table past list arena ran) (seat : Nat) :
    (ran.settled seat).Sound ids ∧ (ran.settled seat).store.bare = ran.arena.store.bare ∧
      (0 ∉ ids → (∀ id, ran.run.result ≠ .waiting id) →
        Balanced (ran.arena.held ran.worker.list) ran.arena.store (ran.settled seat).outside.tally
          (ran.settled seat).store) := by
  have empty : ran.worker.Idle ids → Balanced (ran.arena.held ran.worker.list) ran.arena.store
      ran.arena.outside.tally ran.arena.store := by
    intro idle
    refine Balanced.refl.congr fun slot kind => ?_
    rw [Arena.held, idle.empty]
    rfl
  unfold settled
  cases result : ran.run.result with
  | ok value =>
      have idle := told.idle (by rw [result]; rfl)
      refine ⟨?_, rfl, fun _ _ => empty idle⟩
      exact Arena.sound_set_seat told.sound seat _ fun other same => by cases same; exact idle
  | fault fault =>
      have idle := told.idle (by rw [result]; rfl)
      refine ⟨?_, rfl, fun _ _ => empty idle⟩
      exact Arena.sound_set_seat told.sound seat _ fun other same => by cases same; exact idle
  | misuse misuse =>
      have keeps := CurrentList.release_all_keeps told.worker.list ran.arena.store
      refine ⟨?_, keeps.bare, fun nonzero _ => ?_⟩
      · exact Arena.sound_store told.sound _ ((Store.ids_of_bare keeps.bare).trans told.sound.named)
      · have free := CurrentList.release_all_holds_nothing told.worker.list ran.arena.store nonzero
        refine (Balanced.frame keeps.conserves ran.arena.outside.tally).congr fun slot kind => ?_
        rw [Tally.plus, CurrentList.tally_of_free _ free]
        rfl
  | waiting id =>
      exact ⟨told.sound, rfl, fun _ ends => absurd rfl (ends id)⟩

end Ran

structure Seated (ids : List UInt64) (table : Table) (seat : Nat) (arena : Arena Outsiders)
    (ran : Ran Act Reply Outsiders) : Prop where
  sound : (ran.settled seat).Sound ids
  tells : Tells ((Event.ran seat (some ran.run)).history table) arena.store (ran.settled seat).store
  balanced : 0 ∉ ids → (∀ id, ran.run.result ≠ .waiting id) →
    Balanced arena.outside.tally arena.store (ran.settled seat).outside.tally (ran.settled seat).store

theorem seat_told (different : ids.Nodup) (execute : Worker.Execution)
    (executes : Worker.Executes ids table execute) (seat : Nat) (worker : Worker)
    (arena : Arena Outsiders) (sound : arena.Sound ids) (here : arena.worker seat = some worker) :
    Seated ids table seat arena (worker.runWith execute (arena.setSeat seat none)) := by
  have left : (arena.setSeat seat none).Sound ids :=
    Arena.sound_set_seat sound seat none fun other same => by cases same
  have idle := sound.seats seat worker here
  have told := Worker.run_from_told different execute executes worker.settings.maxRetries.toNat []
    worker (arena.setSeat seat none) idle left
  obtain ⟨settled, bare, released⟩ := Ran.settled_sound told seat
  obtain ⟨calls, same, tells⟩ := told.calls
  refine ⟨settled, ?_, fun nonzero ends => ?_⟩
  · change Tells (Event.historyOfCalls table
      (Worker.runFrom execute _ [] worker (arena.setSeat seat none)).run.calls) _ _
    rw [same]
    exact tells.later bare
  · have began : Balanced arena.outside.tally arena.store
        ((arena.setSeat seat none).held worker.list) arena.store := by
      refine Balanced.refl.congr fun slot kind => ?_
      rw [Arena.held, idle.empty]
      rfl
    exact (began.trans (told.balanced nonzero ends)).trans (released nonzero ends)

theorem execute_told (different : ids.Nodup) (fits : table.Fits ids) (body : Body Act Reply)
    (accesses : List Access) (worker : Worker) (arena : Arena Outsiders)
    (busy : worker.Busy ids accesses) (sound : arena.Sound ids) :
    Executed.Told ids table accesses worker arena
      (body.execute table (Act.perform table) worker arena) := by
  induction body generalizing accesses worker arena with
  | done result => cases result <;> exact Executed.told_nothing busy sound _
  | read key next ih =>
      have goes := Worker.read_key_goes different table busy sound.named fits key
      unfold Body.execute
      generalize worker.readKey table key arena.store = answer at goes
      obtain ⟨outcome, after, store⟩ := answer
      have mid := Arena.sound_store sound store ((Store.ids_of_bare goes.bare).trans sound.named)
      cases outcome with
      | ok value => exact Executed.told_step _ _ rfl goes (ih _ _ _ _ goes.busy mid)
      | fault fault => exact Executed.told_step _ _ rfl goes (ih _ _ _ _ goes.busy mid)
      | misuse misuse => exact Executed.told_step _ _ rfl goes (Executed.told_nothing goes.busy mid _)
      | waiting id => exact Executed.told_step _ _ rfl goes (Executed.told_nothing goes.busy mid _)
  | write key value next ih =>
      have goes := Worker.write_key_goes table busy sound.named fits key value
      unfold Body.execute
      generalize worker.writeKey table key value arena.store = answer at goes
      obtain ⟨outcome, after⟩ := answer
      cases outcome with
      | ok done => exact Executed.told_step _ _ rfl goes (ih _ _ _ _ goes.busy sound)
      | fault fault => exact Executed.told_step _ _ rfl goes (ih _ _ _ _ goes.busy sound)
      | misuse misuse => exact Executed.told_step _ _ rfl goes (Executed.told_nothing goes.busy sound _)
      | waiting id => exact Executed.told_step _ _ rfl goes (Executed.told_nothing goes.busy sound _)
  | act action next ih =>
      have tells := Act.perform_tells table action arena.outside arena.store
      have keeps := Act.perform_keeps fits action arena.outside arena.store sound.named
      unfold Body.execute
      generalize Act.perform table action arena.outside arena.store = answer at tells keeps
      obtain ⟨reply, outside, store⟩ := answer
      have mid := Arena.sound_outside sound outside (keeps.size.trans sound.outside) store
        ((ids_of_lead tells.lead).trans sound.named)
      have size := sound.size
      refine Executed.told_other _ _ rfl ?_ (fun _ _ => ?_) (ih _ _ _ _ busy mid)
      · exact tells
      · exact keeps.balanced size
  | transact seat inner next inner_ih ih =>
      unfold Body.execute
      cases here : arena.worker seat with
      | none =>
          refine Executed.told_other _ _ rfl ?_ (fun _ _ => ?_) (ih _ _ _ _ busy sound)
          · exact tells_nothing rfl
          · exact .refl
      | some other =>
          -- The body of the nested run is told by induction, and with it each of its attempts.
          have executes : Worker.Executes ids table fun past =>
              (inner past).execute table (Act.perform table) :=
            fun past worker arena busy sound => inner_ih past [] worker arena busy sound
          have seated := seat_told different _ executes seat other arena sound here
          simp only
          generalize other.runWith (fun past => (inner past).execute table (Act.perform table))
            (arena.setSeat seat none) = ran at seated
          have balanced := seated.balanced
          cases result : ran.run.result with
          | ok value =>
              rw [result] at balanced
              exact Executed.told_other _ _ rfl seated.tells
                (fun nonzero _ => balanced nonzero fun id wrong => by cases wrong)
                (ih _ _ _ _ busy seated.sound)
          | fault fault =>
              rw [result] at balanced
              exact Executed.told_other _ _ rfl seated.tells
                (fun nonzero _ => balanced nonzero fun id wrong => by cases wrong)
                (ih _ _ _ _ busy seated.sound)
          | misuse misuse =>
              rw [result] at balanced
              exact Executed.told_other _ _ rfl seated.tells
                (fun nonzero _ => balanced nonzero fun id wrong => by cases wrong)
                (Executed.told_nothing busy seated.sound _)
          | waiting id =>
              exact Executed.told_other _ _ rfl seated.tells
                (fun _ ends => absurd rfl (ends id)) (Executed.told_nothing busy seated.sound _)

theorem executes_transaction (different : ids.Nodup) (fits : table.Fits ids)
    (transaction : Transaction Act Reply) :
    Worker.Executes ids table fun past => (transaction past).execute table (Act.perform table) :=
  fun past worker arena busy sound =>
    execute_told different fits (transaction past) [] worker arena busy sound

end LockOrder
