import LockOrder.Proofs.Crew.Alone
import LockOrder.Proofs.Crew.Serializable
import LockOrder.Proofs.Worker.Execution
import LockOrder.Proofs.Worker.Sessions

set_option autoImplicit false

namespace LockOrder

open Mark

-- It neither panicked nor waits for ever.
def Event.isOver : Event Act Reply → Bool
  | .read _ outcome => outcome.isOver
  | .write _ _ outcome => outcome.isOver
  | .act _ _ | .ran _ none => true
  | .ran _ (some run) => run.result.isOver

theorem Event.history_of_append (table : Table) (first second : List (Event Act Reply)) :
    historyOf table (first ++ second) = historyOf table first ++ historyOf table second := by
  induction first with
  | nil => rfl
  | cons event rest ih => rw [List.cons_append, historyOf, historyOf, ih, List.append_assoc]

theorem Body.events_over (table : Table) (body : Body Act Reply) (worker : Worker) (arena : Arena Outsiders)
    (closed : (body.execute table (Act.perform table) worker arena).outcome.isOver = true) :
    ∀ event ∈ (body.execute table (Act.perform table) worker arena).events, event.isOver = true := by
  induction body generalizing worker arena with
  | done result => cases result <;> exact nofun
  | read key next ih =>
      unfold Body.execute at closed ⊢
      generalize worker.readKey table key arena.store = answer at closed ⊢
      obtain ⟨outcome, after, store⟩ := answer
      cases outcome with
      | ok value => exact List.forall_mem_cons.mpr ⟨rfl, ih _ _ _ closed⟩
      | fault fault => exact List.forall_mem_cons.mpr ⟨rfl, ih _ _ _ closed⟩
      | misuse misuse => cases closed
      | waiting id => cases closed
  | write key value next ih =>
      unfold Body.execute at closed ⊢
      generalize worker.writeKey table key value arena.store = answer at closed ⊢
      obtain ⟨outcome, after⟩ := answer
      cases outcome with
      | ok done => exact List.forall_mem_cons.mpr ⟨rfl, ih _ _ _ closed⟩
      | fault fault => exact List.forall_mem_cons.mpr ⟨rfl, ih _ _ _ closed⟩
      | misuse misuse => cases closed
      | waiting id => cases closed
  | act action next ih =>
      unfold Body.execute at closed ⊢
      exact List.forall_mem_cons.mpr ⟨rfl, ih _ _ _ closed⟩
  | transact seat inner next inner_ih ih =>
      unfold Body.execute at closed ⊢
      cases here : arena.worker seat with
      | none =>
          rw [here] at closed
          exact List.forall_mem_cons.mpr ⟨rfl, ih _ _ _ closed⟩
      | some other =>
          rw [here] at closed
          simp only at closed ⊢
          generalize other.runWith (fun past => (inner past).execute table (Act.perform table))
            (arena.setSeat seat none) = ran at closed ⊢
          cases result : ran.run.result with
          | ok value =>
              rw [result] at closed
              refine List.forall_mem_cons.mpr ⟨?_, ih _ _ _ closed⟩
              rw [Event.isOver, result]
              rfl
          | fault fault =>
              rw [result] at closed
              refine List.forall_mem_cons.mpr ⟨?_, ih _ _ _ closed⟩
              rw [Event.isOver, result]
              rfl
          | misuse misuse =>
              rw [result] at closed
              cases closed
          | waiting id =>
              rw [result] at closed
              cases closed

namespace Arena

theorem worker_set_other {σ : Type} {arena : Arena σ} {seat other : Nat} (apart : seat ≠ other)
    (worker : Option Worker) : (arena.setSeat seat worker).worker other = arena.worker other := by
  simp [Arena.worker, setSeat, apart]

theorem settled_over {ran : Ran Act Reply Outsiders} (closed : ran.run.result.isOver = true) (seat : Nat) :
    ran.settled seat = ran.arena.setSeat seat (some ran.worker) := by
  rw [Ran.settled]
  cases result : ran.run.result with
  | misuse misuse =>
      rw [result] at closed
      cases closed
  | waiting id =>
      rw [result] at closed
      cases closed
  | _ => rfl

end Arena

namespace Crew

variable {table : Table} {crew mid played : Crew} {arena between last : Arena Outsiders} {seat : Nat}
  {first second : List (List Access)} {scene next : Scene} {worker : Worker}

theorem play_append (moves more : List Move) (crew : Crew) :
    crew.play table (moves ++ more) = (crew.play table moves).play table more :=
  List.foldl_append

def Comes (table : Table) (crew played : Crew) : Prop := ∃ moves, crew.play table moves = played

theorem Comes.trans (early : crew.Comes table mid) (late : mid.Comes table played) :
    crew.Comes table played := by
  obtain ⟨moves, rfl⟩ := early
  obtain ⟨more, rfl⟩ := late
  exact ⟨moves ++ more, play_append moves more crew⟩

-- The member in this seat has got to this scene.
def seen (crew : Crew) (seat : Nat) (scene : Scene) : Crew :=
  { crew with
    store := scene.store
    members := crew.members.set seat scene.member
    history := scene.history }

theorem turn_seen (inside : seat < crew.members.length) (step : Scene → Option Scene)
    (steps : step scene = some next) : (crew.seen seat scene).turn seat step = crew.seen seat next := by
  have here : (crew.seen seat scene).members[seat]? = some scene.member :=
    List.getElem?_set_self inside
  have again : step ⟨scene.member, (crew.seen seat scene).store, (crew.seen seat scene).history⟩ = some next :=
    steps
  rw [turn, here]
  simp only [again]
  simp only [seen, List.set_set]

theorem comes_of_runs (inside : seat < crew.members.length) (runs : Scene.Runs table scene next) :
    (crew.seen seat scene).Comes table (crew.seen seat next) := by
  induction runs with
  | refl => exact ⟨[], rfl⟩
  | tail _ step ih =>
      rcases step with goes | ⟨deal, asks⟩
      · exact ih.trans ⟨[.go seat], turn_seen inside Scene.go goes⟩
      · exact ih.trans ⟨[.ask seat deal], turn_seen inside (Scene.ask table · deal) asks⟩

def Rests (crew : Crew) (seat : Nat) (worker : Worker) : Prop :=
  ∃ member, crew.members[seat]? = some member ∧ member.stage = .resting ∧ member.worker = worker

structure Seats (crew : Crew) (arena : Arena Outsiders) : Prop where
  store : crew.store = arena.store
  outside : crew.outside = arena.outside
  seated : ∀ seat worker, arena.worker seat = some worker → crew.Rests seat worker

theorem Seats.away (seats : crew.Seats arena) {member : Member} (here : crew.members[seat]? = some member)
    (busy : member.stage ≠ .resting) : arena.worker seat = none := by
  cases sits : arena.worker seat with
  | none => rfl
  | some worker =>
      obtain ⟨other, there, rests, _⟩ := seats.seated seat worker sits
      cases here.symm.trans there
      exact absurd rests busy

theorem Seats.set_seat (seats : crew.Seats arena) {sitting : Option Worker}
    (rests : ∀ worker, sitting = some worker → crew.Rests seat worker) :
    crew.Seats (arena.setSeat seat sitting) where
  store := seats.store
  outside := seats.outside
  seated := fun other worker sits => by
    by_cases own : seat = other
    · subst own
      by_cases inside : seat < arena.seats.size
      · rw [Arena.worker_set_seat inside] at sits
        exact rests worker sits
      · simp [Arena.worker, Arena.setSeat, inside] at sits
    · rw [Arena.worker_set_other own] at sits
      exact seats.seated other worker sits

-- What the crew does for the worker in this seat, and for those whom it calls.
structure Follows (table : Table) (seat : Nat) (crew : Crew) (arena : Arena Outsiders)
    (added : List (List Access)) (played : Crew) (last : Arena Outsiders) : Prop where
  comes : crew.Comes table played
  seats : played.Seats last
  away : ∀ other, arena.worker other = none →
    last.worker other = none ∧ (other ≠ seat → played.members[other]? = crew.members[other]?)
  history : filled played.history = filled (crew.history ++ added)

theorem follows_refl (seats : crew.Seats arena) : Follows table seat crew arena [] crew arena :=
  ⟨⟨[], rfl⟩, seats, fun _ none => ⟨none, fun _ => rfl⟩, by rw [List.append_nil]⟩

theorem Follows.trans (early : Follows table seat crew arena first mid between)
    (late : Follows table seat mid between second played last) :
    Follows table seat crew arena (first ++ second) played last where
  comes := early.comes.trans late.comes
  seats := late.seats
  away := fun other none => by
    obtain ⟨still, same⟩ := early.away other none
    obtain ⟨gone, again⟩ := late.away other still
    exact ⟨gone, fun apart => (again apart).trans (same apart)⟩
  history := by
    rw [late.history, filled_append, early.history, ← filled_append, List.append_assoc]

theorem follows_of_runs (seats : crew.Seats arena) (away : arena.worker seat = none) {member : Member}
    (here : crew.members[seat]? = some member)
    (runs : Scene.Runs table ⟨member, arena.store, crew.history⟩ next)
    (history : filled next.history = filled (crew.history ++ first)) :
    Follows table seat crew arena first (crew.seen seat next) (arena.withStore next.store) ∧
      (crew.seen seat next).members[seat]? = some next.member := by
  have inside := (List.getElem?_eq_some_iff.mp here).1
  have begins : crew.seen seat ⟨member, arena.store, crew.history⟩ = crew := by
    obtain ⟨_, rfl⟩ := List.getElem?_eq_some_iff.mp here
    rw [seen, ← seats.store, List.set_getElem_self]
  refine ⟨⟨?_, ⟨rfl, seats.outside, fun other worker sits => ?_⟩, fun other none => ?_, history⟩,
    List.getElem?_set_self inside⟩
  · have comes : (crew.seen seat _).Comes table (crew.seen seat next) := comes_of_runs inside runs
    rwa [begins] at comes
  · have apart : seat ≠ other := by
      rintro rfl
      rw [show arena.worker seat = some worker from sits] at away
      cases away
    obtain ⟨member, there, rests⟩ := seats.seated other worker sits
    exact ⟨member, (List.getElem?_set_ne apart).trans there, rests⟩
  · exact ⟨none, fun apart => List.getElem?_set_ne (Ne.symm apart)⟩

theorem follows_of_quiet (seats : crew.Seats arena) (away : arena.worker seat = none) {member turned : Member}
    {store : Store} (here : crew.members[seat]? = some member)
    (runs : Scene.Runs table ⟨member, arena.store, crew.history⟩ ⟨turned, store, crew.history⟩) :
    ∃ played, Follows table seat crew arena [] played (arena.withStore store) ∧
      played.members[seat]? = some turned :=
  ⟨_, follows_of_runs seats away here runs (by rw [List.append_nil])⟩

variable {ids : List UInt64} {start : Contents}

theorem Comes.orderly (different : ids.Nodup) (fits : table.Fits ids) (comes : crew.Comes table played)
    (orderly : crew.Orderly ids start) : played.Orderly ids start := by
  obtain ⟨moves, rfl⟩ := comes
  exact orderly.play different fits moves

-- What a body does, its worker does in this seat.
def Plays (ids : List UInt64) (start : Contents) (table : Table) (worker : Worker)
    (arena : Arena Outsiders) (events : List (Event Act Reply)) (after : Worker)
    (last : Arena Outsiders) : Prop :=
  (∀ event ∈ events, event.isOver = true) → ∀ (crew : Crew) (seat place : Nat) (accesses : List Access),
    crew.Orderly ids start → crew.Seats arena →
      crew.members[seat]? = some ⟨worker, .serving, accesses, place⟩ →
        ∃ played, Follows table seat crew arena (commits (Event.historyOf table events)) played last ∧
          played.members[seat]? =
            some ⟨after, .serving, accesses ++ Event.accesses table events, place⟩

def PlaysAll (ids : List UInt64) (start : Contents) (table : Table) (execute : Worker.Execution) : Prop :=
  ∀ past worker arena, let executed := execute past worker arena
    (executed.outcome.isOver = true → ∀ event ∈ executed.events, event.isOver = true) ∧
      Plays ids start table worker arena executed.events executed.worker executed.arena

-- What a run does that starts in this seat.
def PlaysRun (table : Table) (crew : Crew) (seat : Nat) (past : List (Call Act Reply))
    (arena : Arena Outsiders) (ran : Ran Act Reply Outsiders) : Prop :=
  ran.run.result.isOver = true → ∃ calls played, ran.run.calls = past ++ calls ∧
    Follows table seat crew arena (commits (Event.historyOfCalls table calls)) played ran.arena ∧
      played.Rests seat ran.worker

theorem Follows.filled_alike (follows : Follows table seat crew arena first played last)
    (same : filled first = filled second) : Follows table seat crew arena second played last :=
  ⟨follows.comes, follows.seats, follows.away, by rw [follows.history, filled_append, same, filled_append]⟩

theorem filled_ending (accesses : List Access) (value : UInt64) (outcome : Outcome Unit) :
    filled (commits (Event.ending accesses (.ok value) (outcome.map fun () => value))) =
      filled [if outcome = .ok () then accesses else []] := by
  cases outcome with
  | ok done => rfl
  | fault fault => cases fault <;> rfl
  | misuse misuse => rfl
  | waiting id => rfl

theorem ending_plays {executed : Executed Act Reply Outsiders} {ended : Outcome UInt64} {tired : Worker}
    {next : Store} {accesses : List Access} {place : Nat} (seats : crew.Seats executed.arena)
    (here : crew.members[seat]? = some ⟨executed.worker, .serving, accesses, place⟩)
    (concluded : Worker.conclude executed = (ended, tired, next)) (closed : ended.isOver = true) :
    ∃ played place, Follows table seat crew executed.arena
      (commits (Event.ending accesses executed.outcome ended)) played (executed.arena.withStore next) ∧
        played.members[seat]? = some ⟨tired, .leaving tired.list.entries, accesses, place⟩ := by
  obtain ⟨events, outcome, worker, arena⟩ := executed
  have away := seats.away here (by rintro ⟨⟩)
  cases outcome with
  | ok value =>
      rw [Worker.conclude] at concluded
      cases commits : worker.commit arena.store with
      | mk outcome rest =>
          simp only [commits] at concluded
          cases concluded
          have done : outcome.isOver = true := by cases outcome <;> first | rfl | cases closed
          obtain ⟨place, longer, runs, history⟩ := Scene.commit_runs commits done
          obtain ⟨follows, there⟩ := follows_of_runs seats away here runs history
          exact ⟨_, place, follows.filled_alike (filled_ending accesses value outcome).symm, there⟩
  | fault fault =>
      cases concluded
      have quits : Scene.Runs table ⟨⟨worker, .serving, accesses, place⟩, arena.store, crew.history⟩
        ⟨⟨worker, .leaving worker.list.entries, accesses, place⟩, arena.store, crew.history⟩ :=
          .ask .quit rfl .refl
      obtain ⟨played, follows, there⟩ := follows_of_quiet seats away here quits
      exact ⟨played, place, follows, there⟩
  | misuse misuse =>
      cases concluded
      cases closed
  | waiting id =>
      cases concluded
      cases closed

theorem attempt_plays (different : ids.Nodup) (fits : table.Fits ids) (nonzero : 0 ∉ ids)
    {execute : Worker.Execution} {past : List (Call Act Reply)}
    (plays : PlaysAll ids start table execute)
    {started tired fresh : Worker} {call : Call Act Reply} {result : Option (Outcome UInt64)}
    {next : Store} (orderly : crew.Orderly ids start) (seats : crew.Seats arena)
    (rests : crew.Rests seat worker) (away : arena.worker seat = none)
    (begun : worker.start = (.ok (), started))
    (attempted : Worker.attempt execute past started arena = (call, tired, between))
    (left : tired.afterAttempt between.store call.ended = (result, fresh, next))
    (closed : call.ended.isOver = true) (unharmed : ∀ misuse, result ≠ some (.misuse misuse)) :
    ∃ played, Follows table seat crew arena (commits (Event.historyOfCalls table [call])) played
      (between.withStore next) ∧ played.Rests seat fresh := by
  obtain ⟨⟨sitting, stage, accesses, place⟩, here, rfl, rfl⟩ := rests
  have begins : Scene.Runs table ⟨⟨sitting, .resting, accesses, place⟩, arena.store, crew.history⟩
      ⟨⟨started, .serving, [], place⟩, arena.store, crew.history⟩ := by
    refine .ask .start ?_ .refl
    simp only [Scene.ask, begun]
  obtain ⟨serving, starts, serves⟩ := follows_of_quiet seats away here begins
  unfold Worker.attempt at attempted
  obtain ⟨whole, plays⟩ := plays past started arena
  generalize execute past started arena = executed at attempted whole plays
  cases concluded : Worker.conclude executed with
  | mk ended rest =>
      obtain ⟨last, store⟩ := rest
      simp only [concluded] at attempted
      cases attempted
      have done : executed.outcome.isOver = true := by
        rw [Worker.conclude] at concluded
        cases outcome : executed.outcome with
        | misuse misuse =>
            rw [outcome] at concluded
            cases concluded
            cases closed
        | waiting id =>
            rw [outcome] at concluded
            cases concluded
            cases closed
        | _ => rfl
      obtain ⟨busy, goes, serves⟩ := plays (whole done) serving seat place []
        (starts.comes.orderly different fits orderly) starts.seats serves
      obtain ⟨tired, spot, ends, leaves⟩ := ending_plays goes.seats serves concluded closed
      have sound := ((ends.comes.orderly different fits (goes.comes.orderly different fits
        (starts.comes.orderly different fits orderly))).sound.fits _ (List.mem_of_getElem? leaves)).sound
      have gone := ends.seats.away leaves (by rintro ⟨⟩)
      obtain ⟨played, rests, there⟩ := follows_of_quiet ends.seats gone leaves
        (Scene.rest_runs sound nonzero left closed unharmed)
      refine ⟨played, ?_, _, there, rfl, rfl⟩
      have follows := ((starts.trans goes).trans ends).trans rests
      simp only [List.nil_append, List.append_nil] at follows
      simpa [Event.historyOfCalls] using follows

theorem call_plays (different : ids.Nodup) (fits : table.Fits ids) (nonzero : 0 ∉ ids)
    {execute : Worker.Execution}
    (plays : PlaysAll ids start table execute)
    (again : List (Call Act Reply) → Worker → Arena Outsiders → Ran Act Reply Outsiders)
    (retried : ∀ crew calls worker arena, crew.Orderly ids start → crew.Seats arena → crew.Rests seat worker →
      arena.worker seat = none → PlaysRun table crew seat calls arena (again calls worker arena))
    (past : List (Call Act Reply)) (orderly : crew.Orderly ids start) (seats : crew.Seats arena)
    (rests : crew.Rests seat worker) (away : arena.worker seat = none) :
    PlaysRun table crew seat past arena (Worker.callThen execute again past worker arena) := by
  unfold Worker.callThen
  rcases begun : worker.start with ⟨misuse | _, started⟩
  · exact nofun
  · rcases attempted : Worker.attempt execute past started arena with ⟨call, tired, between⟩
    rcases left : tired.afterAttempt between.store call.ended with ⟨none | result, fresh, next⟩
    · simp only [attempted, left]
      have closed : call.ended.isOver = true := by
        by_contra stopped
        rw [Worker.after_attempt_stopped _ _ _ (Bool.eq_false_iff.mpr stopped)] at left
        cases left
      obtain ⟨mid, follows, rested⟩ := attempt_plays different fits nonzero plays orderly seats rests away
        begun attempted left closed nofun
      have later := retried mid (past ++ [call]) fresh (between.withStore next)
        (follows.comes.orderly different fits orderly) follows.seats rested (follows.away seat away).1
      intro ends
      obtain ⟨calls, played, same, goes, settled⟩ := later ends
      refine ⟨call :: calls, played, same.trans (List.append_assoc ..), ?_, settled⟩
      have whole := follows.trans goes
      rwa [← commits_append, ← Worker.history_of_calls_cons] at whole
    · simp only [attempted, left]
      intro ends
      have closed : call.ended.isOver = true := by
        by_contra stopped
        rw [Worker.after_attempt_stopped _ _ _ (Bool.eq_false_iff.mpr stopped)] at left
        cases left
        exact stopped ends
      obtain ⟨played, follows, rested⟩ := attempt_plays different fits nonzero plays orderly seats rests away
        begun attempted left closed fun misuse same => by cases same; cases ends
      exact ⟨[call], played, rfl, follows, rested⟩

theorem run_plays (different : ids.Nodup) (fits : table.Fits ids) (nonzero : 0 ∉ ids)
    {execute : Worker.Execution}
    (plays : PlaysAll ids start table execute)
    (retries : Nat) (past : List (Call Act Reply)) (orderly : crew.Orderly ids start)
    (seats : crew.Seats arena) (rests : crew.Rests seat worker) (away : arena.worker seat = none) :
    PlaysRun table crew seat past arena (Worker.runFrom execute retries past worker arena) := by
  induction retries generalizing crew past worker arena with
  | zero =>
      rw [Worker.run_from_zero]
      refine call_plays different fits nonzero plays _ ?_ past orderly seats rests away
      rintro crew calls worker arena orderly seats ⟨⟨sitting, stage, accesses, place⟩, here, rfl, rfl⟩ away _
      have forgets : Scene.Runs table ⟨⟨sitting, .resting, accesses, place⟩, arena.store, crew.history⟩
          ⟨⟨sitting.forget, .resting, accesses, place⟩, arena.store, crew.history⟩ := .ask .forget rfl .refl
      obtain ⟨played, follows, there⟩ := follows_of_quiet seats away here forgets
      exact ⟨[], played, (List.append_nil calls).symm, follows, _, there, rfl, rfl⟩
  | succ retries ih =>
      rw [Worker.run_from_succ]
      exact call_plays different fits nonzero plays _
        (fun crew calls worker arena orderly seats rests away => ih calls orderly seats rests away)
        past orderly seats rests away

theorem act_follows (seats : crew.Seats arena) (action : Act) (seat : Nat) :
    let answer := action.perform table arena.outside arena.store
    Follows table seat crew arena (commits (Event.historyOf table [.act action answer.1]))
      (crew.move table (.act action)) { arena with outside := answer.2.1, store := answer.2.2 } := by
  intro answer
  obtain ⟨store, outside, seated⟩ := seats
  have told : commits (Event.historyOf table [.act action answer.1]) = commits (action.marks table answer.1) := by
    simp [Event.historyOf, Event.history]
  refine ⟨⟨[.act action], rfl⟩, ⟨?_, ?_, seated⟩, fun other none => ⟨none, fun _ => rfl⟩, ?_⟩
  · simp only [move, store, outside]
    rfl
  · simp only [move, store, outside]
    rfl
  · rw [told]
    simp only [move, store, outside]
    rfl

-- Whoever is in the middle of an attempt does not notice who runs meanwhile.
theorem ran_follows (different : ids.Nodup) (fits : table.Fits ids) (nonzero : 0 ∉ ids)
    {transaction : Transaction Act Reply}
    (plays : PlaysAll ids start table fun past => (transaction past).execute table (Act.perform table))
    (orderly : crew.Orderly ids start) (seats : crew.Seats arena) {other : Nat} {sitting : Worker}
    (sits : arena.worker other = some sitting) :
    let ran := sitting.runWith (fun past => (transaction past).execute table (Act.perform table))
      (arena.setSeat other none)
    ran.run.result.isOver = true → ∃ played, (∀ seat, Follows table seat crew arena
      (commits (Event.historyOf table [.ran other (some ran.run)])) played (ran.settled other)) ∧
        ∀ seat, arena.worker seat = none → played.members[seat]? = crew.members[seat]? := by
  intro ran done
  have left : crew.Seats (arena.setSeat other none) := seats.set_seat fun _ none => by cases none
  obtain ⟨calls, played, same, follows, rests⟩ := run_plays different fits nonzero plays
    sitting.settings.maxRetries.toNat [] orderly left (seats.seated other sitting sits)
    (Arena.worker_set_seat (Arena.inside_of_seat sits) none) done
  have settled : ran.settled other = ran.arena.setSeat other (some ran.worker) := Arena.settled_over done other
  have told : Event.historyOf table [.ran other (some ran.run)] = Event.historyOfCalls table calls := by
    have calls : ran.run.calls = calls := same
    rw [Event.historyOf, Event.historyOf, List.append_nil, ← calls]
    rfl
  have away : ∀ seat, arena.worker seat = none →
      (ran.settled other).worker seat = none ∧ played.members[seat]? = crew.members[seat]? := by
    intro seat none
    have apart : other ≠ seat := by
      rintro rfl
      rw [sits] at none
      cases none
    obtain ⟨gone, kept⟩ := follows.away seat ((Arena.worker_set_other apart _).trans none)
    rw [settled, Arena.worker_set_other apart]
    exact ⟨gone, kept apart.symm⟩
  refine ⟨played, fun seat => ⟨follows.comes, ?_, fun third none => ?_, ?_⟩, fun seat none => (away seat none).2⟩
  · rw [settled]
    exact follows.seats.set_seat fun worker same => Option.some.inj same ▸ rests
  · exact ⟨(away third none).1, fun _ => (away third none).2⟩
  · rw [told]
    exact follows.history

theorem plays_execute (different : ids.Nodup) (fits : table.Fits ids) (nonzero : 0 ∉ ids) :
    Body.Obeyed table (Act.perform table) (Plays ids start table) := by
  constructor
  case nothing =>
    intro worker arena _ crew seat place accesses orderly seats here
    refine ⟨crew, follows_refl seats, ?_⟩
    rwa [show Event.accesses table [] = [] from rfl, List.append_nil]
  case both =>
    intro worker mid last arena between final first rest early late closed crew seat place accesses orderly seats here
    obtain ⟨played, goes, serves⟩ := early (fun event listed => closed event (List.mem_append_left _ listed))
      crew seat place accesses orderly seats here
    obtain ⟨ends, follows, there⟩ := late (fun event listed => closed event (List.mem_append_right _ listed))
      played seat place _ (goes.comes.orderly different fits orderly) goes.seats serves
    refine ⟨ends, ?_, ?_⟩
    · rw [Event.history_of_append, commits_append]
      exact goes.trans follows
    · rw [there, Event.accesses, Event.accesses, Event.accesses, List.filterMap_append, List.append_assoc]
  case read =>
    intro worker arena key answer closed crew seat place accesses orderly seats here
    have done : answer.1.isOver = true := closed _ (List.mem_singleton_self _)
    exact follows_of_quiet seats (seats.away here (by rintro ⟨⟩)) here (Scene.read_runs rfl done)
  case write =>
    intro worker arena key value answer closed crew seat place accesses orderly seats here
    have done : answer.1.isOver = true := closed _ (List.mem_singleton_self _)
    exact follows_of_quiet seats (seats.away here (by rintro ⟨⟩)) here (Scene.write_runs rfl done)
  case act =>
    intro worker arena action answer _ crew seat place accesses orderly seats here
    refine ⟨_, act_follows seats action seat, ?_⟩
    rwa [show Event.accesses table [.act action answer.1] = [] from rfl, List.append_nil]
  case away =>
    intro worker arena other _ crew seat place accesses orderly seats here
    refine ⟨crew, follows_refl seats, ?_⟩
    rwa [show Event.accesses table [.ran other none] = [] from rfl, List.append_nil]
  case ran =>
    intro worker arena other sitting inner laws sits ran closed crew seat place accesses orderly seats here
    have plays : PlaysAll ids start table fun past => (inner past).execute table (Act.perform table) :=
      fun past worker arena => ⟨Body.events_over table (inner past) worker arena, laws past worker arena⟩
    obtain ⟨played, follows, away⟩ := ran_follows different fits nonzero plays orderly seats sits
      (closed _ (List.mem_singleton_self _))
    refine ⟨played, follows seat, ?_⟩
    rw [show Event.accesses table [.ran other (some ran.run)] = [] from rfl, List.append_nil]
    exact (away seat (seats.away here (by rintro ⟨⟩))).trans here

theorem move_follows (different : ids.Nodup) (fits : table.Fits ids) (nonzero : 0 ∉ ids) (move : Arena.Move)
    (orderly : crew.Orderly ids start) (seats : crew.Seats arena)
    (closed : (arena.move table move).1.isOver = true) (seat : Nat) :
    ∃ played, Follows table seat crew arena (commits (Event.historyOf table [(arena.move table move).1]))
      played (arena.move table move).2 := by
  cases move with
  | act act => exact ⟨_, act_follows seats act seat⟩
  | transact other transaction =>
      rw [Arena.move, Arena.transact] at closed ⊢
      cases sits : arena.worker other with
      | none => exact ⟨crew, follows_refl seats⟩
      | some sitting =>
          rw [sits] at closed
          have plays : PlaysAll ids start table fun past => (transaction past).execute table (Act.perform table) :=
            fun past worker arena => ⟨Body.events_over table (transaction past) worker arena,
              (plays_execute different fits nonzero).execute (transaction past) worker arena⟩
          obtain ⟨played, follows, _⟩ := ran_follows different fits nonzero plays orderly seats sits closed
          exact ⟨played, follows seat⟩

theorem play_follows (different : ids.Nodup) (fits : table.Fits ids) (nonzero : 0 ∉ ids)
    (moves : List Arena.Move) (orderly : crew.Orderly ids start) (seats : crew.Seats arena)
    (closed : ∀ event ∈ (Arena.play table moves arena).1, event.isOver = true) (seat : Nat) :
    ∃ played, Follows table seat crew arena (commits (Event.historyOf table (Arena.play table moves arena).1))
      played (Arena.play table moves arena).2 := by
  induction moves generalizing crew arena with
  | nil => exact ⟨crew, follows_refl seats⟩
  | cons move rest ih =>
      obtain ⟨first, later⟩ := List.forall_mem_cons.mp closed
      obtain ⟨mid, early⟩ := move_follows different fits nonzero move orderly seats first seat
      obtain ⟨played, late⟩ := ih (early.comes.orderly different fits orderly) early.seats later
      have follows := early.trans late
      rw [← commits_append, ← Event.history_of_append] at follows
      exact ⟨played, follows⟩

end Crew

-- Transactions that are not interrupted are among what the crew does, as long as none panics or hangs.
theorem uninterrupted_runs_are_played (table : Table) (few : table.size < UInt64.size) (workers : List Worker)
    (draws : Draws) (made : ∀ worker ∈ workers, ∃ settings, Worker.ofSettings settings = .ok worker)
    (moves : List Arena.Move) :
    let ran := Arena.play table moves (Arena.ofTable table workers draws)
    (∀ event ∈ ran.1, event.isOver = true) →
      ∃ steps, let played := (Crew.ofTable table workers draws).play table steps
        played.Seats ran.2 ∧ filled played.history = filled (commits (Event.historyOf table ran.1)) := by
  intro ran closed
  have different := Table.slot_ids_different table.size table.size_le
  have seats : (Crew.ofTable table workers draws).Seats (Arena.ofTable table workers draws) := by
    refine ⟨rfl, rfl, fun seat worker sits => ⟨{ worker }, ?_, rfl, rfl⟩⟩
    rw [Arena.worker_of_table] at sits
    rw [Crew.ofTable, List.getElem?_map, sits]
    rfl
  obtain ⟨_, ⟨steps, rfl⟩, settled, _, history⟩ := Crew.play_follows different table.fits_slot_ids
    (Table.zero_not_slot_id _ few) moves (Crew.orderly_of_table table workers draws made) seats closed 0
  exact ⟨steps, settled, history⟩

end LockOrder
