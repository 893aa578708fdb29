import LockOrder.Proofs.Crew.Checks

set_option autoImplicit false

namespace LockOrder

theorem Record.version_rises {version : UInt64} (low : version < Record.beingWritten) :
    version < version + 1 := by
  refine UInt64.lt_add_one ?_
  rintro rfl
  exact absurd low (by decide)

namespace Crew

variable {start : Contents} {store after : Store} {outside : Outsiders} {member : Member}
  {others : List Member} {history : List (List Access)} {ids : List UInt64}

theorem Checks.explains {crew : Crew} {place : Nat} {accesses : List Access}
    (checks : crew.Checks start place accesses []) :
    (start.replay (crew.history.take place)).Explains accesses := by
  intro before slot value after split
  rcases checks.answers before slot value after split with own | ⟨none, ⟨read, listed, _⟩ | settled⟩
  · exact Or.inl own
  · cases listed
  · exact Or.inr ⟨none, settled.there⟩

-- Whoever checks later reads and writes in the way of nobody that has passed, and the other way round.
theorem Checks.unasked {crew : Crew} {place : Nat} {accesses : List Access} {other : Member}
    (checks : crew.Checks start place accesses []) (listed : other ∈ crew.members)
    (checking : other.IsChecking) (before : other.place < place) {slot : Nat} {value : UInt64}
    (writes : Access.latest slot other.accesses = some value) : ¬ Access.Asks slot accesses := by
  rintro ⟨early, read, after, split, none⟩
  rcases checks.answers early slot read after split with own | ⟨_, ⟨_, wrong, _⟩ | settled⟩
  · rw [none] at own
    cases own
  · cases wrong
  · rw [settled.apart other listed checking before] at writes
    cases writes

theorem passed_spares (different : ids.Nodup)
    (sound : Sound ids ⟨store, outside, member :: others, history⟩)
    (placed : Placed ⟨store, outside, member :: others, history⟩)
    (serial : Serializes start ⟨store, outside, member :: others, history⟩)
    (here : member.stage = .checking []) {writes : List WriteAccess}
    (decided : Worker.Decided member.accesses writes)
    {other : Member} (listed : other ∈ others) (checking : other.IsChecking) :
    Spares start ⟨store, outside, member :: others, history⟩
      ⟨store, outside, { member with stage := .installing writes } :: others,
        history.set member.place member.accesses⟩
      other.place other.accesses := by
  have paid : member.stage.owed = [] := by rw [here]; rfl
  have isBound : member.stage.isBound = true := by rw [here]; rfl
  have otherBound : other.stage.isBound = true := by
    obtain ⟨_, there⟩ := checking
    rw [there]
    rfl
  have vacant := placed.vacant member (List.mem_cons_self ..) ⟨_, here⟩
  have checks := serial.checks member (List.mem_cons_self ..) _ here
  constructor
  case later =>
    intro later made behind there
    by_cases own : member.place = later
    · subst own
      rw [List.getElem?_set_self (List.getElem?_eq_some_iff.mp vacant).1] at there
      cases there
      refine Or.inr ⟨fun slot value writes => ⟨?_, ?_⟩, fun slot value writes => Or.inl ?_⟩
      · refine Option.eq_none_iff_forall_ne_some.mpr fun last written => ?_
        rw [(sound.excludes different isBound written listed).1 otherBound] at writes
        cases writes
      · exact checks.unasked (List.mem_cons_of_mem _ listed) checking behind writes
      · exact (owes_cons slot).mpr (Or.inl (decided.all slot value writes))
    · rw [List.getElem?_set_ne own] at there
      exact Or.inl there
  case owes =>
    intro slot owed
    rw [owes_of_paid paid] at owed
    exact Or.inl ((owes_cons slot).mpr (Or.inr owed))
  case follows => exact Contents.follows_refl _
  case before =>
    intro slot value settled
    exact Contents.replay_take_set vacant fun early =>
      settled.apart member (List.mem_cons_self ..) ⟨_, here⟩ early
  case checkers =>
    intro checker among checks _
    rcases List.mem_cons.mp among with rfl | beside
    · obtain ⟨_, wrong⟩ := checks
      cases wrong
    · exact ⟨checker, List.mem_cons_of_mem _ beside, checks, rfl, rfl⟩

theorem Serializes.passed (different : ids.Nodup)
    (sound : Sound ids ⟨store, outside, member :: others, history⟩)
    (placed : Placed ⟨store, outside, member :: others, history⟩)
    (serial : Serializes start ⟨store, outside, member :: others, history⟩)
    (here : member.stage = .checking []) (writes : List WriteAccess)
    (decided : Worker.Decided member.accesses writes) :
    Serializes start ⟨store, outside, { member with stage := .installing writes } :: others,
      history.set member.place member.accesses⟩ := by
  have paid : member.stage.owed = [] := by rw [here]; rfl
  have isBound : member.stage.isBound = true := by rw [here]; rfl
  have vacant := placed.vacant member (List.mem_cons_self ..) ⟨_, here⟩
  have checks := serial.checks member (List.mem_cons_self ..) _ here
  have unowed : ∀ slot value, Access.latest slot member.accesses = some value →
      ¬ Owes ⟨store, outside, member :: others, history⟩ slot := by
    intro slot value written
    rw [owes_of_paid paid]
    rintro ⟨other, listed, write, owes, same⟩
    exact (sound.excludes different isBound written listed).2 write owes same
  constructor
  case small => exact serial.small
  case explained =>
    refine Contents.explained_set serial.explained vacant checks.explains ?_
    intro later made behind there slot asks
    exact Option.eq_none_iff_forall_ne_some.mpr fun value written =>
      (checks.later later made behind there slot value written).2 asks
  case stored =>
    intro slot free
    rw [owes_cons] at free
    have unwritten : Access.latest slot member.accesses = none :=
      Option.eq_none_iff_forall_ne_some.mpr fun value written =>
        free (Or.inl (decided.all slot value written))
    rw [Contents.replay_set_unwritten vacant unwritten]
    refine serial.stored slot fun owed => free (Or.inr ?_)
    rwa [owes_of_paid paid] at owed
  case owed =>
    intro other listed write owes
    rcases List.mem_cons.mp listed with rfl | rest
    · have written := decided.values write owes
      have inside := (Member.guards different (sound.fits member (List.mem_cons_self ..)) isBound written).1
      have now := store.contents_at write.lock.slot (sound.size ▸ inside)
      refine ⟨_, now, ?_⟩
      rw [Contents.replay_set_last vacant written fun later made behind there =>
        (checks.later later made behind there _ _ written).1,
        ← serial.stored _ (unowed _ _ written), now]
      rfl
    · have unwritten : Access.latest write.lock.slot member.accesses = none :=
        Option.eq_none_iff_forall_ne_some.mpr fun value written =>
          (sound.excludes different isBound written rest).2 write owes rfl
      rw [Contents.replay_set_unwritten vacant unwritten]
      exact serial.owed other (List.mem_cons_of_mem _ rest) write owes
  case faithful =>
    intro other listed
    rcases List.mem_cons.mp listed with rfl | rest
    · exact nofun
    · exact serial.faithful other (List.mem_cons_of_mem _ rest)
  case checks =>
    intro other listed reads checking
    rcases List.mem_cons.mp listed with rfl | rest
    · cases checking
    · have before := serial.checks other (List.mem_cons_of_mem _ rest) reads checking
      exact before.spared (passed_spares different sound placed serial here decided rest ⟨_, checking⟩)

theorem get_installed (store : Store) (slot other : Nat) (value : UInt64) :
    (store.install slot value).contents[other]? =
      if other = slot then store.contents[other]?.map fun content => (content.1 + 1, value)
      else store.contents[other]? := by
  rw [Store.contents_install, Contents.get_commit_write]

theorem follows_install (small : store.contents.Small) (slot : Nat) (value : UInt64) :
    store.contents.Follows (store.install slot value).contents := by
  rw [Store.contents_install]
  exact Contents.follows_commit _ _ small

theorem risen_install {crew next : Crew} {slot : Nat} {value : UInt64} {now : UInt64 × UInt64}
    (small : crew.store.contents.Small) (here : crew.store.contents[slot]? = some now)
    (installed : next.store.contents = (crew.store.install slot value).contents) :
    crew.Risen next slot := by
  refine ⟨now, (now.1 + 1, value), here, ?_, Record.version_rises (small now (List.mem_of_getElem? here))⟩
  rw [installed, get_installed, if_pos rfl, here]
  rfl

theorem owes_installed {write : WriteAccess} {writes : List WriteAccess}
    (here : member.stage = .installing (write :: writes)) (slot : Nat) (apart : slot ≠ write.lock.slot) :
    Owes ⟨after, outside, { member with stage := .installing writes } :: others, history⟩ slot ↔
      Owes ⟨store, outside, member :: others, history⟩ slot := by
  rw [owes_cons, owes_cons, here]
  simp [Stage.owed, apart.symm]

theorem installed_spares {write : WriteAccess} {writes : List WriteAccess} {now : UInt64 × UInt64}
    (small : store.contents.Small) (stored : store.contents[write.lock.slot]? = some now)
    (here : member.stage = .installing (write :: writes)) (place : Nat) (accesses : List Access) :
    Spares start ⟨store, outside, member :: others, history⟩
      ⟨store.install write.lock.slot write.value, outside,
        { member with stage := .installing writes } :: others, history⟩ place accesses := by
  constructor
  case later => exact fun _ _ _ there => Or.inl there
  case owes =>
    intro slot owed
    by_cases own : slot = write.lock.slot
    · subst own
      exact Or.inr (risen_install small stored rfl)
    · exact Or.inl ((owes_installed here slot own).mpr owed)
  case follows => exact follows_install small _ _
  case before => exact fun _ _ _ => rfl
  case checkers =>
    intro checker among checks _
    rcases List.mem_cons.mp among with rfl | beside
    · obtain ⟨_, wrong⟩ := checks
      cases wrong
    · exact ⟨checker, List.mem_cons_of_mem _ beside, checks, rfl, rfl⟩

theorem Serializes.installed (different : ids.Nodup)
    (sound : Sound ids ⟨store, outside, member :: others, history⟩)
    (serial : Serializes start ⟨store, outside, member :: others, history⟩)
    (room : start.Room history) {write : WriteAccess} {writes : List WriteAccess}
    (here : member.stage = .installing (write :: writes)) :
    Serializes start ⟨store.install write.lock.slot write.value, outside,
      { member with stage := .installing writes } :: others, history⟩ := by
  have fits := sound.fits member (List.mem_cons_self ..)
  obtain ⟨prepared, part⟩ : member.worker.Prepared member.accesses ∧
      (write :: writes).Sublist (Worker.lastWrites member.worker.sets.writes.toList) := by
    have stage := fits.stage
    rwa [here] at stage
  have isBound : member.stage.isBound = true := by rw [here]; rfl
  have owing : member.stage.owed = write :: writes := by rw [here]; rfl
  have written := prepared.decided.values write (part.subset (List.mem_cons_self ..))
  have apart := List.pairwise_cons.mp (prepared.decided.apart.sublist part)
  obtain ⟨now, stored, replayed⟩ := serial.owed member (List.mem_cons_self ..) write (by
    rw [owing]
    exact List.mem_cons_self ..)
  have installed : (store.install write.lock.slot write.value).contents[write.lock.slot]? =
      some (now.1 + 1, write.value) := by
    rw [get_installed, if_pos rfl, show store.contents[write.lock.slot]? = some now from stored]
    rfl
  have elsewhere : ∀ slot, slot ≠ write.lock.slot →
      (store.install write.lock.slot write.value).contents[slot]? = store.contents[slot]? := by
    intro slot other
    rw [get_installed, if_neg other]
  constructor
  case small =>
    refine serial.small.replaced elsewhere fun content there => ?_
    cases installed.symm.trans there
    exact room.small _ (List.mem_of_getElem? replayed)
  case explained => exact serial.explained
  case stored =>
    intro slot free
    by_cases own : slot = write.lock.slot
    · subst own
      exact installed.trans replayed.symm
    · refine (elsewhere slot own).trans (serial.stored slot fun owed => free ?_)
      exact (owes_installed here slot own).mpr owed
  case owed =>
    intro other listed last owes
    rcases List.mem_cons.mp listed with rfl | rest
    · rw [elsewhere _ (apart.1 last owes).symm]
      refine serial.owed member (List.mem_cons_self ..) last ?_
      rw [owing]
      exact List.mem_cons_of_mem _ owes
    · rw [elsewhere _ ((sound.excludes different isBound written rest).2 last owes)]
      exact serial.owed other (List.mem_cons_of_mem _ rest) last owes
  case faithful =>
    intro other listed
    rcases List.mem_cons.mp listed with rfl | rest
    · exact nofun
    · intro opens
      have before := serial.faithful other (List.mem_cons_of_mem _ rest) opens
      exact before.later (follows_install serial.small _ _)
  case checks =>
    intro other listed reads checking
    rcases List.mem_cons.mp listed with rfl | rest
    · cases checking
    · have before := serial.checks other (List.mem_cons_of_mem _ rest) reads checking
      exact before.spared (installed_spares serial.small stored here _ _)

end Crew

end LockOrder
