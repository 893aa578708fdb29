import LockOrder.Proofs.Crew.Ledger

set_option autoImplicit false

namespace LockOrder

namespace Crew

variable {start : Contents} {crew next : Crew} {place : Nat} {accesses : List Access}
  {store after : Store} {outside : Outsiders} {member turned : Member} {others : List Member}
  {history : List (List Access)}

theorem owes_cons (slot : Nat) : Owes ⟨store, outside, member :: others, history⟩ slot ↔
    (∃ write ∈ member.stage.owed, write.lock.slot = slot) ∨
      ∃ other ∈ others, ∃ write ∈ other.stage.owed, write.lock.slot = slot := by
  simp only [Owes, List.mem_cons, exists_eq_or_imp]

theorem owes_of_paid (paid : member.stage.owed = []) (slot : Nat) :
    Owes ⟨store, outside, member :: others, history⟩ slot ↔
      ∃ other ∈ others, ∃ write ∈ other.stage.owed, write.lock.slot = slot := by
  simp [owes_cons, paid]

-- A step that replaces nothing and leaves the history as it is.
theorem spares_same (contents : next.store.contents = crew.store.contents) (history : next.history = crew.history)
    (owes : ∀ slot, crew.Owes slot → next.Owes slot)
    (checkers : ∀ member ∈ next.members, member.IsChecking → ∃ same ∈ crew.members,
      same.IsChecking ∧ same.place = member.place ∧ same.accesses = member.accesses) :
    Spares start crew next place accesses where
  later := fun _ _ _ listed => Or.inl (history ▸ listed)
  owes := fun slot owed => Or.inl (owes slot owed)
  follows := contents ▸ Contents.follows_refl _
  before := fun _ _ _ => by rw [history]
  checkers := fun member listed checks _ => checkers member listed checks

theorem owes_perm (perm : crew.members.Perm next.members) (slot : Nat) : crew.Owes slot ↔ next.Owes slot := by
  simp only [Owes, perm.mem_iff]

-- Who sits where, and what others hold, is of no account.
theorem Serializes.idle (serial : crew.Serializes start) (perm : crew.members.Perm next.members)
    (contents : next.store.contents = crew.store.contents) (history : next.history = crew.history) :
    next.Serializes start where
  small := contents ▸ serial.small
  explained := history ▸ serial.explained
  stored := fun slot free => by
    rw [contents, history]
    exact serial.stored slot (mt (owes_perm perm slot).mp free)
  owed := fun member listed => by
    rw [contents, history]
    exact serial.owed member (perm.mem_iff.mpr listed)
  faithful := fun member listed => by
    rw [contents]
    exact serial.faithful member (perm.mem_iff.mpr listed)
  checks := fun member listed reads here => by
    refine (serial.checks member (perm.mem_iff.mpr listed) reads here).spared (spares_same contents history ?_ ?_)
    · exact fun slot => (owes_perm perm slot).mp
    · exact fun checker among checks => ⟨checker, perm.mem_iff.mpr among, checks, rfl, rfl⟩

theorem Serializes.same (serial : Serializes start ⟨store, outside, member :: others, history⟩)
    (contents : after.contents = store.contents) (paid : member.stage.owed = [])
    (still : turned.stage.owed = [])
    (kept : turned.IsChecking → member.IsChecking ∧ member.place = turned.place ∧
      member.accesses = turned.accesses)
    (faithful : member.Faithful store.contents → turned.Faithful store.contents)
    (checks : ∀ reads, turned.stage = .checking reads →
      Checks start ⟨after, outside, turned :: others, history⟩ turned.place turned.accesses reads) :
    Serializes start ⟨after, outside, turned :: others, history⟩ where
  small := contents ▸ serial.small
  explained := serial.explained
  stored := fun slot free => by
    rw [owes_of_paid still] at free
    have before := serial.stored slot (by rwa [owes_of_paid paid])
    exact (congrArg (·[slot]?) contents).trans before
  owed := fun other listed write owes => by
    rcases List.mem_cons.mp listed with rfl | rest
    · rw [still] at owes
      cases owes
    · rw [contents]
      exact serial.owed other (List.mem_cons_of_mem _ rest) write owes
  faithful := fun other listed => by
    rw [contents]
    rcases List.mem_cons.mp listed with rfl | rest
    · exact faithful (serial.faithful member (List.mem_cons_self ..))
    · exact serial.faithful other (List.mem_cons_of_mem _ rest)
  checks := fun other listed reads here => by
    rcases List.mem_cons.mp listed with rfl | rest
    · exact checks reads here
    · have before := serial.checks other (List.mem_cons_of_mem _ rest) reads here
      refine before.spared (spares_same contents rfl (fun slot => ?_) fun checker among checking => ?_)
      · rw [owes_of_paid paid, owes_of_paid still]
        exact id
      · rcases List.mem_cons.mp among with rfl | beside
        · obtain ⟨was, same⟩ := kept checking
          exact ⟨member, List.mem_cons_self .., was, same⟩
        · exact ⟨checker, List.mem_cons_of_mem _ beside, checking, rfl, rfl⟩

theorem Checks.settle {read : ReadAccess} {reads : List ReadAccess}
    (checks : crew.Checks start place accesses (read :: reads))
    (settles : ∀ value, crew.Pending place read value → crew.Settled start place read.lock.slot value) :
    crew.Checks start place accesses reads where
  later := checks.later
  answers := fun before slot value after split => by
    rcases checks.answers before slot value after split with own | ⟨none, pending | settled⟩
    · exact Or.inl own
    · refine Or.inr ⟨none, ?_⟩
      obtain ⟨other, listed, rfl, pending⟩ := pending
      rcases List.mem_cons.mp listed with rfl | rest
      · exact Or.inr (settles value pending)
      · exact Or.inl ⟨other, rest, rfl, pending⟩
    · exact Or.inr ⟨none, Or.inr settled⟩

variable {ids : List UInt64}

-- A read that is still current is what the history says up to the place of the attempt.
theorem Pending.settles (different : ids.Nodup)
    (sound : Sound ids ⟨store, outside, member :: others, history⟩)
    (placed : Placed ⟨store, outside, member :: others, history⟩)
    (serial : Serializes start ⟨store, outside, member :: others, history⟩)
    {read : ReadAccess} {reads : List ReadAccess} (here : member.stage = .checking (read :: reads))
    (current : member.worker.isStale store read = false) {value : UInt64}
    (pending : Pending ⟨store, outside, member :: others, history⟩ member.place read value) :
    Settled start ⟨store, outside, member :: others, history⟩ member.place read.lock.slot value := by
  have vacant := placed.vacant member (List.mem_cons_self ..) ⟨_, here⟩
  have fits := sound.fits member (List.mem_cons_self ..)
  have held : member.held = member.worker.list.entries := by rw [Member.held, here]
  have on : read.lock.On ids := by
    have stage := fits.stage
    rw [here] at stage
    exact stage.2 read (List.mem_cons_self ..)
  have unowned : ∀ other ∈ others, ¬ 0 < Entry.tally other.held read.lock.slot .writer := by
    intro other listed owns
    rw [sound.stale different listed held read on owns] at current
    cases current
  have free : ¬ Owes ⟨store, outside, member :: others, history⟩ read.lock.slot := by
    rw [owes_of_paid (by rw [here]; rfl)]
    rintro ⟨other, listed, write, owes, same⟩
    refine unowned other listed (same ▸ ?_)
    exact (Member.guards_owed different (sound.fits other (List.mem_cons_of_mem _ listed)) owes).2
  obtain ⟨now, stored, _, same⟩ := pending.saw
  have version : now.1 = read.version := by
    rw [Store.content_eq stored]
    exact beq_iff_eq.mp (Worker.current_of_not_stale current)
  have unwritten : ∀ later accesses, member.place ≤ later → history[later]? = some accesses →
      Access.latest read.lock.slot accesses = none := by
    intro later accesses least listed
    rcases Nat.eq_or_lt_of_le least with rfl | behind
    · cases vacant.symm.trans listed
      rfl
    · refine Option.eq_none_iff_forall_ne_some.mpr fun written writes => ?_
      rcases pending.replaced later accesses written behind listed writes with owes | ⟨risen, there, less⟩
      · exact free owes
      · cases stored.symm.trans there
        exact UInt64.ne_of_lt less version.symm
  constructor
  case there =>
    refine ⟨now.1, ?_⟩
    rw [same version.symm, Contents.replay_take unwritten, ← serial.stored _ free]
    exact stored
  case apart =>
    intro other listed checking before
    rcases List.mem_cons.mp listed with rfl | rest
    · exact absurd before (Nat.lt_irrefl _)
    · obtain ⟨others, there⟩ := checking
      have bound : other.stage.isBound = true := by rw [there]; rfl
      refine Option.eq_none_iff_forall_ne_some.mpr fun written writes => ?_
      exact unowned other rest (Member.guards different (sound.fits other listed) bound writes).2

theorem Serializes.checked (different : ids.Nodup)
    (sound : Sound ids ⟨store, outside, member :: others, history⟩)
    (placed : Placed ⟨store, outside, member :: others, history⟩)
    (serial : Serializes start ⟨store, outside, member :: others, history⟩)
    {read : ReadAccess} {reads : List ReadAccess} (here : member.stage = .checking (read :: reads))
    (current : member.worker.isStale store read = false) :
    Serializes start ⟨store, outside, { member with stage := .checking reads } :: others, history⟩ := by
  have paid : member.stage.owed = [] := by rw [here]; rfl
  have checks := serial.checks member (List.mem_cons_self ..) _ here
  have fewer := checks.settle fun value pending => pending.settles different sound placed serial here current
  refine serial.same rfl paid rfl (fun _ => ⟨⟨_, here⟩, rfl, rfl⟩) (fun _ => nofun) fun rest now => ?_
  cases now
  refine fewer.spared (spares_same rfl rfl (fun slot => ?_) fun checker among checking => ?_)
  · rw [owes_of_paid paid, owes_of_paid rfl]
    exact id
  · rcases List.mem_cons.mp among with rfl | beside
    · exact ⟨member, List.mem_cons_self .., ⟨_, here⟩, rfl, rfl⟩
    · exact ⟨checker, List.mem_cons_of_mem _ beside, checking, rfl, rfl⟩

-- A step that puts something at the end of the history.
theorem spares_snoc {added : List Access} (vacant : crew.history[place]? = some [])
    (longer : next.history = crew.history ++ [added])
    (unharmed : ∀ slot value, Access.latest slot accesses = some value →
      Access.latest slot added = none ∧ ¬ Access.Asks slot added)
    (written : ∀ slot value, Access.latest slot added = some value → crew.Risen next slot)
    (owes : ∀ slot, crew.Owes slot → next.Owes slot)
    (follows : crew.store.contents.Follows next.store.contents)
    (checkers : ∀ member ∈ next.members, member.IsChecking → member.place < place →
      ∃ same ∈ crew.members, same.IsChecking ∧ same.place = member.place ∧
        same.accesses = member.accesses) : Spares start crew next place accesses where
  later := fun later others behind listed => by
    rw [longer] at listed
    by_cases inside : later < crew.history.length
    · rw [List.getElem?_append_left inside] at listed
      exact Or.inl listed
    · have last : later = crew.history.length := by
        have bound := (List.getElem?_eq_some_iff.mp listed).1
        rw [List.length_append, List.length_singleton] at bound
        omega
      subst last
      rw [List.getElem?_concat_length] at listed
      cases listed
      exact Or.inr ⟨unharmed, fun slot value some => Or.inr (written slot value some)⟩
  owes := fun slot owed => Or.inl (owes slot owed)
  follows := follows
  before := fun slot value _ => by
    have inside := (List.getElem?_eq_some_iff.mp vacant).1
    rw [longer, List.take_append_of_le_length (Nat.le_of_lt inside)]
  checkers := checkers

theorem asks_nothing (slot : Nat) : ¬ Access.Asks slot [] := by
  rintro ⟨before, value, rest, split, _⟩
  exact List.append_ne_nil_of_right_ne_nil before (List.cons_ne_nil _ _) split.symm

theorem Serializes.secured (placed : Placed ⟨store, outside, member :: others, history⟩)
    (serial : Serializes start ⟨store, outside, member :: others, history⟩) {last pos : Nat}
    (here : member.stage = .locking none last pos 0) :
    Serializes start ⟨store, outside,
      { member with stage := .checking member.worker.sets.reads.toList, place := history.length } :: others,
      history ++ [[]]⟩ := by
  have paid : member.stage.owed = [] := by rw [here]; rfl
  have still : ∀ slot, Owes ⟨store, outside, { member with
      stage := .checking member.worker.sets.reads.toList, place := history.length } :: others,
        history ++ [[]]⟩ slot ↔ Owes ⟨store, outside, member :: others, history⟩ slot := fun slot => by
    rw [owes_of_paid paid, owes_of_paid rfl]
  have replayed : ∀ slot : Nat, (start.replay (history ++ [[]]))[slot]? = (start.replay history)[slot]? :=
    fun slot => Contents.replay_snoc_unwritten rfl
  constructor
  case small => exact serial.small
  case explained => exact Contents.explained_snoc serial.explained (Contents.explains_nothing _)
  case stored =>
    intro slot free
    rw [replayed]
    exact serial.stored slot (by rwa [still] at free)
  case owed =>
    intro other listed write owes
    rw [replayed]
    rcases List.mem_cons.mp listed with rfl | rest
    · cases owes
    · exact serial.owed other (List.mem_cons_of_mem _ rest) write owes
  case faithful =>
    intro other listed
    rcases List.mem_cons.mp listed with rfl | rest
    · exact nofun
    · exact serial.faithful other (List.mem_cons_of_mem _ rest)
  case checks =>
    intro other listed reads checking
    rcases List.mem_cons.mp listed with rfl | rest
    · cases checking
      have nothing : ∀ later accesses, history.length < later → (history ++ [[]])[later]? ≠ some accesses := by
        intro later accesses behind listed
        have bound := (List.getElem?_eq_some_iff.mp listed).1
        rw [List.length_append, List.length_singleton] at bound
        omega
      refine ⟨fun later accesses behind listed => absurd listed (nothing later accesses behind), ?_⟩
      intro before slot value rest split
      have opens : member.stage.isOpen = true := by rw [here]; rfl
      have faithful := serial.faithful member (List.mem_cons_self ..) opens
      rcases faithful before slot value rest split with own | ⟨none, read, among, rfl, saw⟩
      · exact Or.inl own
      · refine Or.inr ⟨none, Or.inl ⟨read, among, rfl, saw, fun later accesses written behind listed => ?_⟩⟩
        exact absurd listed (nothing later accesses behind)
    · have before := serial.checks other (List.mem_cons_of_mem _ rest) reads checking
      have vacant := placed.vacant other (List.mem_cons_of_mem _ rest) ⟨_, checking⟩
      refine before.spared (spares_snoc vacant rfl (fun slot _ _ => ⟨rfl, asks_nothing slot⟩)
        (fun _ _ some => by cases some) (fun slot => (still slot).mpr) (Contents.follows_refl _) ?_)
      intro checker among checks less
      rcases List.mem_cons.mp among with rfl | beside
      · exact absurd (List.getElem?_eq_some_iff.mp vacant).1 (Nat.not_lt.mpr (Nat.le_of_lt less))
      · exact ⟨checker, List.mem_cons_of_mem _ beside, checks, rfl, rfl⟩

end Crew

end LockOrder
