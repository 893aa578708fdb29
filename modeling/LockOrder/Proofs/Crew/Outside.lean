import LockOrder.Proofs.Crew.Commits

set_option autoImplicit false

namespace LockOrder

open Mark

-- Whoever installs a value has the record to itself.
theorem Outsiders.install_alone {outsiders : Outsiders} {rest : Tally} {slot : Nat} {value version : UInt64}
    {store : Store} (accounts : store.Accounts (rest.plus outsiders.tally))
    (inside : slot < store.records.size)
    (done : (outsiders.install slot value store).1 = some version) (kind : Handle) :
    rest slot kind = 0 := by
  unfold install at done
  simp only at done
  split at done
  · rename_i owned
    have owns : 0 < outsiders.tally slot .writer :=
      List.count_pos_iff.mpr (List.contains_iff_mem.mp owned)
    exact Store.accounts_alone accounts inside owns kind
  · split at done
    · cases done
    · rename_i next taken
      have size := Store.size_of_bare (Store.bare_take store next _ _ taken)
      have after := Store.accounts_take store next (store.lockAt slot) .writer _ accounts taken
      have apart : next.Accounts (rest.plus (outsiders.tally.oneMore slot .writer)) := by
        refine Store.accounts_congr after fun other which => ?_
        rw [Tally.one_more_apply, Tally.plus, Tally.plus, Tally.one_more_apply, Nat.add_assoc]
        rfl
      refine Store.accounts_alone apart (size ▸ inside) ?_ kind
      rw [Tally.one_more_apply, if_pos ⟨rfl, rfl⟩]
      exact Nat.succ_pos _

-- The only transactions that others run in one act replace one record.
theorem Act.commits_marks (table : Table) (act : Act) (reply : Reply) :
    commits (act.marks table reply) = [] ∨ ∃ key value slot version, act = .install key value ∧
      table.slot key = .ok slot ∧ reply = .version (some version) ∧
        commits (act.marks table reply) = [[.write slot value]] := by
  unfold marks
  split
  · rename_i key value version
    cases found : table.slot key with
    | error fault => exact Or.inl rfl
    | ok slot => exact Or.inr ⟨key, value, slot, version, rfl, found, rfl, rfl⟩
  · split <;> exact Or.inl rfl
  · exact Or.inl rfl

namespace Crew

variable {start : Contents} {ids : List UInt64} {crew next : Crew} {table : Table}

theorem act_commits (fits : table.Fits ids) (sound : crew.Sound ids) (act : Act) :
    let reply := (act.perform table crew.outside crew.store).1
    commits (act.marks table reply) = [] ∨ ∃ slot value,
      commits (act.marks table reply) = [[.write slot value]] ∧ slot < ids.length ∧
        ∀ kind, Member.tally crew.members slot kind = 0 := by
  intro reply
  rcases act.commits_marks table reply with none | ⟨key, value, slot, version, rfl, found, told, alone⟩
  · exact Or.inl none
  · have inside : slot < ids.length := fits key slot found
    have accounts := sound.accounts
    rw [Tally.plus_comm] at accounts
    refine Or.inr ⟨slot, value, alone, inside, ?_⟩
    have done : (crew.outside.install slot value crew.store).1 = some version := by
      simpa [reply, Act.perform, Act.key?, found, Outsiders.actAt] using told
    exact Outsiders.install_alone accounts (sound.size ▸ inside) done

-- Others replace a record that no attempt has locked, as one more transaction.
structure Replaces (crew next : Crew) (slot : Nat) (value : UInt64) : Prop where
  inside : slot < crew.store.records.size
  alone : ∀ kind, Member.tally crew.members slot kind = 0
  members : next.members = crew.members
  contents : next.store.contents = crew.store.contents.commit [.write slot value]
  history : next.history = crew.history ++ [[.write slot value]]

namespace Replaces

variable {slot : Nat} {value : UInt64} {member : Member}

theorem nobody (replaces : crew.Replaces next slot value) (listed : member ∈ crew.members) :
    Entry.tally member.held slot .writer = 0 :=
  Nat.le_zero.mp (replaces.alone .writer ▸ Member.tally_at_most listed slot .writer)

theorem unowed (replaces : crew.Replaces next slot value) (different : ids.Nodup)
    (sound : crew.Sound ids) : ¬ crew.Owes slot := by
  rintro ⟨member, listed, write, owes, rfl⟩
  have some := (Member.guards_owed different (sound.fits member listed) owes).2
  rw [replaces.nobody listed] at some
  exact Nat.lt_irrefl 0 some

theorem unwritten (replaces : crew.Replaces next slot value) (different : ids.Nodup)
    (sound : crew.Sound ids) (listed : member ∈ crew.members) (bound : member.stage.isBound = true) :
    Access.latest slot member.accesses = none := by
  refine Option.eq_none_iff_forall_ne_some.mpr fun last written => ?_
  have some := (Member.guards different (sound.fits member listed) bound written).2
  rw [replaces.nobody listed] at some
  exact Nat.lt_irrefl 0 some

theorem owes_iff (replaces : crew.Replaces next slot value) (other : Nat) :
    next.Owes other ↔ crew.Owes other := by
  rw [Owes, Owes, replaces.members]

theorem replayed (replaces : crew.Replaces next slot value) {other : Nat}
    (same : crew.store.contents[other]? = (start.replay crew.history)[other]?) :
    next.store.contents[other]? = (start.replay next.history)[other]? := by
  rw [replaces.contents, replaces.history, Contents.get_commit, Contents.replay_snoc, same]

theorem stored_elsewhere (replaces : crew.Replaces next slot value) (other : Nat) (apart : other ≠ slot) :
    next.store.contents[other]? = crew.store.contents[other]? := by
  rw [replaces.contents, Contents.get_commit_write, if_neg apart]

theorem replayed_elsewhere (replaces : crew.Replaces next slot value) {other : Nat}
    (apart : other ≠ slot) :
    (start.replay next.history)[other]? = (start.replay crew.history)[other]? := by
  rw [replaces.history, Contents.replay_snoc_unwritten (Access.only_write_misses value apart)]

theorem follows (replaces : crew.Replaces next slot value) (small : crew.store.contents.Small) :
    crew.store.contents.Follows next.store.contents :=
  replaces.contents ▸ Contents.follows_commit _ _ small

theorem spares (replaces : crew.Replaces next slot value) (different : ids.Nodup)
    (sound : crew.Sound ids) (placed : crew.Placed) (small : crew.store.contents.Small)
    (listed : member ∈ crew.members) {reads : List ReadAccess} (here : member.stage = .checking reads) :
    Spares start crew next member.place member.accesses := by
  have bound : member.stage.isBound = true := by rw [here]; rfl
  have vacant := placed.vacant member listed ⟨_, here⟩
  refine spares_snoc vacant replaces.history (fun other written some => ⟨?_, ?_⟩) ?_ ?_
    (replaces.follows small) ?_
  · refine Option.eq_none_iff_forall_ne_some.mpr fun again there => ?_
    rw [← Access.only_write_writes there, replaces.unwritten different sound listed bound] at some
    cases some
  · rintro ⟨before, read, after, split, _⟩
    exact Access.write_reads_nothing split
  · intro other written some
    rw [← Access.only_write_writes some]
    exact risen_install small (crew.store.contents_at slot replaces.inside)
      (replaces.contents.trans (Store.contents_install ..).symm)
  · exact fun other => (replaces.owes_iff other).mpr
  · exact fun checker among checks _ => ⟨checker, replaces.members ▸ among, checks, rfl, rfl⟩

end Replaces

theorem Serializes.replaced (different : ids.Nodup) (sound : crew.Sound ids) (placed : crew.Placed)
    (serial : crew.Serializes start) {slot : Nat} {value : UInt64}
    (replaces : crew.Replaces next slot value) (room : start.Room next.history) :
    next.Serializes start := by
  have unowed := replaces.unowed different sound
  constructor
  case small =>
    refine serial.small.replaced replaces.stored_elsewhere fun content there => ?_
    rw [replaces.replayed (serial.stored slot unowed)] at there
    exact room.small content (List.mem_of_getElem? there)
  case explained =>
    rw [replaces.history]
    exact Contents.explained_snoc serial.explained (Contents.explains_write _ _ _)
  case stored =>
    exact fun other owed => replaces.replayed (serial.stored other (mt (replaces.owes_iff other).mpr owed))
  case owed =>
    intro member listed write owes
    rw [replaces.members] at listed
    have apart : write.lock.slot ≠ slot := fun same => unowed ⟨member, listed, write, owes, same⟩
    rw [replaces.stored_elsewhere _ apart, replaces.replayed_elsewhere apart]
    exact serial.owed member listed write owes
  case faithful =>
    intro member listed opens
    rw [replaces.members] at listed
    exact (serial.faithful member listed opens).later (replaces.follows serial.small)
  case checks =>
    intro member listed reads here
    rw [replaces.members] at listed
    refine (serial.checks member listed reads here).spared ?_
    exact replaces.spares different sound placed serial.small listed here

end Crew

end LockOrder
