import LockOrder.Proofs.AccessSets.Order
import LockOrder.Worker.Commit

set_option autoImplicit false

namespace LockOrder

namespace WriteAccess

theorem before.ordinal_lt {a b : WriteAccess} (first : before a b) (same : a.id = b.id) :
    a.ordinal < b.ordinal := by
  rcases first with less | ⟨_, below⟩
  · exact absurd same (UInt64.ne_of_lt less)
  · exact below

end WriteAccess

namespace AccessSets

inductive Op where
  | read (lock : LockRef) (version : UInt64)
  | write (lock : LockRef) (value : UInt64)
  | sort
  | clear
deriving DecidableEq

namespace Op

def read? : Op → Option ReadAccess
  | .read lock version => some ⟨lock, version⟩
  | _ => none

def write? : Op → Option (LockRef × UInt64)
  | .write lock value => some (lock, value)
  | _ => none

def note (recent : List Op) : Op → List Op
  | .clear => []
  | op => recent ++ [op]

def recent (ops : List Op) : List Op := ops.foldl note []

def readsMade (ops : List Op) : List ReadAccess := (recent ops).filterMap read?

def writesMade (ops : List Op) : List WriteAccess :=
  ((recent ops).filterMap write?).mapIdx fun index (lock, value) => ⟨lock, UInt32.ofNat index, value⟩

def Fit (capacity : Nat) (ops : List Op) : Prop :=
  ∀ begun, begun <+: ops → (readsMade begun).length ≤ capacity ∧ (writesMade begun).length ≤ capacity

theorem recent_concat (ops : List Op) (op : Op) : recent (ops ++ [op]) = note (recent ops) op := by
  rw [recent, List.foldl_append]
  rfl

@[simp] theorem reads_made_read (ops : List Op) (lock : LockRef) (version : UInt64) :
    readsMade (ops ++ [.read lock version]) = readsMade ops ++ [⟨lock, version⟩] := by
  simp [readsMade, recent_concat, note, read?]

@[simp] theorem writes_made_read (ops : List Op) (lock : LockRef) (version : UInt64) :
    writesMade (ops ++ [.read lock version]) = writesMade ops := by
  simp only [writesMade, recent_concat, note, List.filterMap_append]
  exact congrArg _ (List.append_nil _)

@[simp] theorem reads_made_write (ops : List Op) (lock : LockRef) (value : UInt64) :
    readsMade (ops ++ [.write lock value]) = readsMade ops := by
  simp [readsMade, recent_concat, note, read?]

@[simp] theorem writes_made_write (ops : List Op) (lock : LockRef) (value : UInt64) :
    writesMade (ops ++ [.write lock value]) =
      writesMade ops ++ [⟨lock, UInt32.ofNat (writesMade ops).length, value⟩] := by
  simp [writesMade, recent_concat, note, write?, List.mapIdx_concat]

@[simp] theorem reads_made_sort (ops : List Op) : readsMade (ops ++ [.sort]) = readsMade ops := by
  simp [readsMade, recent_concat, note, read?]

@[simp] theorem writes_made_sort (ops : List Op) : writesMade (ops ++ [.sort]) = writesMade ops := by
  simp only [writesMade, recent_concat, note, List.filterMap_append]
  exact congrArg _ (List.append_nil _)

@[simp] theorem reads_made_clear (ops : List Op) : readsMade (ops ++ [.clear]) = [] := by
  simp [readsMade, recent_concat, note]

@[simp] theorem writes_made_clear (ops : List Op) : writesMade (ops ++ [.clear]) = [] := by
  simp [writesMade, recent_concat, note]

theorem writes_made_ordinals (ops : List Op) (few : (writesMade ops).length ≤ UInt32.size) :
    (writesMade ops).map (fun write => write.ordinal.toNat) = List.range (writesMade ops).length := by
  apply List.ext_getElem (by simp)
  intro index made inside
  have below : index < UInt32.size := by
    rw [List.length_range] at inside
    exact Nat.lt_of_lt_of_le inside few
  simp only [writesMade, List.getElem_map, List.getElem_mapIdx, List.getElem_range]
  exact UInt32.toNat_ofNat_of_lt' below

theorem recent_suffix (ops : List Op) : Op.clear ∉ recent ops ∧ recent ops <:+ ops := by
  have step : ∀ ops op, (Op.clear ∉ recent ops ∧ recent ops <:+ ops) →
      Op.clear ∉ recent (ops ++ [op]) ∧ recent (ops ++ [op]) <:+ ops ++ [op] := by
    rintro ops op ⟨kept, before, split⟩
    rw [recent_concat]
    have longer : recent ops ++ [op] <:+ ops ++ [op] := ⟨before, by rw [← List.append_assoc, split]⟩
    cases op with
    | clear => exact ⟨List.not_mem_nil, List.nil_suffix⟩
    | read _ _ => exact ⟨by simp [note, kept], longer⟩
    | write _ _ => exact ⟨by simp [note, kept], longer⟩
    | sort => exact ⟨by simp [note, kept], longer⟩
  have run : ∀ more ops, (Op.clear ∉ recent ops ∧ recent ops <:+ ops) →
      Op.clear ∉ recent (ops ++ more) ∧ recent (ops ++ more) <:+ ops ++ more := by
    intro more
    induction more with
    | nil => simp
    | cons op more ih =>
        intro ops here
        have later := ih (ops ++ [op]) (step ops op here)
        rwa [List.append_assoc, List.singleton_append] at later
  exact run ops [] ⟨List.not_mem_nil, List.nil_suffix⟩

theorem made_by_a_write (ops : List Op) (write : WriteAccess) (made : write ∈ writesMade ops) :
    ∃ before value after, ops = before ++ .write write.lock value :: after ∧ Op.clear ∉ after := by
  obtain ⟨index, bound, rfl⟩ := List.mem_mapIdx.mp made
  have listed := List.getElem_mem bound
  generalize ((recent ops).filterMap write?)[index] = pair at listed
  obtain ⟨op, here, same⟩ := List.mem_filterMap.mp listed
  obtain ⟨kept, old, suffix⟩ := recent_suffix ops
  obtain ⟨before, after, split⟩ := List.append_of_mem here
  cases op with
  | write lock value =>
      cases same
      rw [split] at suffix kept
      refine ⟨old ++ before, value, after, ?_, fun cleared => kept (by simp [cleared])⟩
      rw [List.append_assoc, suffix]
  | read _ _ => cases same
  | sort => cases same
  | clear => cases same

theorem writes_made_append (ops more : List Op) (kept : Op.clear ∉ more) :
    ∃ added, writesMade (ops ++ more) = writesMade ops ++ added ∧
      ∀ write ∈ added, ∃ value, Op.write write.lock value ∈ more := by
  induction more generalizing ops with
  | nil => exact ⟨[], by simp, by simp⟩
  | cons op more ih =>
      rw [List.mem_cons, not_or] at kept
      obtain ⟨added, made, named⟩ := ih (ops ++ [op]) kept.2
      rw [List.append_assoc, List.singleton_append] at made
      have later : ∀ write ∈ added, ∃ value, Op.write write.lock value ∈ op :: more := by
        intro write listed
        obtain ⟨value, here⟩ := named write listed
        exact ⟨value, List.mem_cons_of_mem op here⟩
      cases op with
      | read lock version => exact ⟨added, by rw [made, writes_made_read], later⟩
      | write lock value =>
          rw [writes_made_write, List.append_assoc, List.singleton_append] at made
          refine ⟨_, made, fun write listed => ?_⟩
          rcases List.mem_cons.mp listed with rfl | listed
          · exact ⟨value, List.mem_cons_self ..⟩
          · exact later write listed
      | sort => exact ⟨added, by rw [made, writes_made_sort], later⟩
      | clear => exact absurd rfl kept.1

end Op

def step (sets : AccessSets) : Op → Except Misuse AccessSets
  | .read lock version => sets.addRead lock version
  | .write lock value => sets.addWrite lock value
  | .sort => .ok sets.sortWrites
  | .clear => .ok sets.clear

def run (sets : AccessSets) (ops : List Op) : Except Misuse AccessSets := ops.foldlM step sets

-- The sets hold what was done since they were cleared, the writes in some order.
structure Holds (capacity : Nat) (ops : List Op) (sets : AccessSets) : Prop where
  capacity : sets.capacity = capacity
  reads : sets.reads.toList = Op.readsMade ops
  writes : sets.writes.toList.Perm (Op.writesMade ops)

variable {capacity : Nat} {ops : List Op} {sets : AccessSets}

theorem holds_start (capacity : Nat) : Holds capacity [] { capacity } where
  capacity := rfl
  reads := rfl
  writes := .refl _

theorem Holds.writes_size (holds : Holds capacity ops sets) :
    sets.writes.size = (Op.writesMade ops).length := by
  rw [← Array.length_toList]
  exact holds.writes.length_eq

theorem Holds.next_ordinal (holds : Holds capacity ops sets)
    (few : (Op.writesMade ops).length < UInt32.size) :
    sets.nextOrdinal = UInt32.ofNat (Op.writesMade ops).length := by
  rw [nextOrdinal, holds.writes_size, Nat.min_eq_left (Nat.le_of_lt_succ few)]

theorem Holds.step (holds : Holds capacity ops sets) (few : capacity < UInt32.size) (op : Op)
    (reads : (Op.readsMade (ops ++ [op])).length ≤ capacity)
    (writes : (Op.writesMade (ops ++ [op])).length ≤ capacity) :
    ∃ after, sets.step op = .ok after ∧ Holds capacity (ops ++ [op]) after := by
  cases op with
  | read lock version =>
      rw [Op.reads_made_read, List.length_append, List.length_singleton, ← holds.reads] at reads
      have room : sets.reads.size < sets.capacity := by
        rw [holds.capacity]
        exact reads
      refine ⟨_, if_pos room, holds.capacity, ?_, ?_⟩
      · simp [holds.reads]
      · rw [Op.writes_made_read]
        exact holds.writes
  | write lock value =>
      rw [Op.writes_made_write, List.length_append, List.length_singleton] at writes
      have room : sets.writes.size < sets.capacity := by
        rw [holds.capacity, holds.writes_size]
        exact writes
      refine ⟨_, if_pos room, holds.capacity, ?_, ?_⟩
      · rw [Op.reads_made_write]
        exact holds.reads
      · rw [Array.toList_push, Op.writes_made_write, holds.next_ordinal (by omega)]
        exact holds.writes.append_right _
  | sort =>
      refine ⟨_, rfl, holds.capacity, ?_, ?_⟩
      · rw [Op.reads_made_sort]
        exact holds.reads
      · rw [Op.writes_made_sort]
        exact (sort_writes_perm sets).trans holds.writes
  | clear =>
      refine ⟨_, rfl, holds.capacity, ?_, ?_⟩
      · rw [Op.reads_made_clear]
        rfl
      · rw [Op.writes_made_clear]
        exact .refl _

theorem Holds.run (holds : Holds capacity ops sets) (few : capacity < UInt32.size) (more : List Op)
    (fit : Op.Fit capacity (ops ++ more)) :
    ∃ after, sets.run more = .ok after ∧ Holds capacity (ops ++ more) after := by
  induction more generalizing ops sets with
  | nil => exact ⟨sets, rfl, by rwa [List.append_nil]⟩
  | cons op more ih =>
      have path : ops ++ op :: more = (ops ++ [op]) ++ more := by simp
      rw [path] at fit ⊢
      obtain ⟨reads, writes⟩ := fit (ops ++ [op]) (List.prefix_append ..)
      obtain ⟨next, stepped, held⟩ := holds.step few op reads writes
      obtain ⟨after, done, last⟩ := ih held fit
      refine ⟨after, ?_, last⟩
      rw [AccessSets.run, List.foldlM_cons, stepped]
      exact done

def Latest (writes : List WriteAccess) (id : UInt64) : Option WriteAccess → Prop
  | none => ∀ write ∈ writes, write.id ≠ id
  | some write =>
      write ∈ writes ∧ write.id = id ∧ ∀ other ∈ writes, other.id = id → other.ordinal ≤ write.ordinal

variable {writes others : List WriteAccess} {id : UInt64}

theorem Latest.perm {best : Option WriteAccess} (latest : Latest writes id best)
    (same : writes.Perm others) : Latest others id best := by
  cases best with
  | none => exact fun write listed => latest write (same.mem_iff.mpr listed)
  | some write =>
      obtain ⟨here, own, last⟩ := latest
      exact ⟨same.mem_iff.mp here, own, fun other listed => last other (same.mem_iff.mpr listed)⟩

theorem same_of_ordinal (different : (writes.map WriteAccess.ordinal).Nodup) {a b : WriteAccess}
    (first : a ∈ writes) (second : b ∈ writes) (same : a.ordinal = b.ordinal) : a = b := by
  induction writes with
  | nil => cases first
  | cons write rest ih =>
      rw [List.map_cons, List.nodup_cons] at different
      have apart : ∀ other ∈ rest, other.ordinal ≠ write.ordinal := fun other listed equal =>
        different.1 (equal ▸ List.mem_map_of_mem listed)
      rcases List.mem_cons.mp first with here | inside <;>
        rcases List.mem_cons.mp second with there | within
      · rw [here, there]
      · exact absurd (here ▸ same.symm) (apart b within)
      · exact absurd (there ▸ same) (apart a inside)
      · exact ih different.2 inside within

theorem Latest.unique (different : (writes.map WriteAccess.ordinal).Nodup) {one two : Option WriteAccess}
    (first : Latest writes id one) (second : Latest writes id two) : one = two := by
  cases one with
  | none =>
      cases two with
      | none => rfl
      | some write => exact absurd second.2.1 (first write second.1)
  | some write =>
      cases two with
      | none => exact absurd first.2.1 (second write first.1)
      | some other =>
          have same : write.ordinal = other.ordinal := UInt32.le_antisymm
            (second.2.2 write first.1 first.2.1) (first.2.2 other second.1 second.2.1)
          exact congrArg some (same_of_ordinal different first.1 second.1 same)

theorem later_latest {best : Option WriteAccess} (latest : Latest writes id best) (write : WriteAccess) :
    Latest (writes ++ [write]) id (laterOf id best write) := by
  have either : ∀ {other}, other ∈ writes ++ [write] → other ∈ writes ∨ other = write := by simp
  have old : ∀ {other}, other ∈ writes → other ∈ writes ++ [write] := List.mem_append_left _
  have new : write ∈ writes ++ [write] := by simp
  by_cases own : write.id = id
  · cases best with
    | none =>
        rw [laterOf, if_pos own]
        refine ⟨new, own, fun other listed here => ?_⟩
        rcases either listed with before | rfl
        · exact absurd here (latest other before)
        · exact UInt32.le_refl _
    | some last =>
        obtain ⟨listed, same, latest⟩ := latest
        by_cases below : last.ordinal ≤ write.ordinal
        · rw [laterOf, if_pos own]
          simp only [if_pos below]
          refine ⟨new, own, fun other listed here => ?_⟩
          rcases either listed with before | rfl
          · exact UInt32.le_trans (latest other before here) below
          · exact UInt32.le_refl _
        · rw [laterOf, if_pos own]
          simp only [if_neg below]
          refine ⟨old listed, same, fun other listed here => ?_⟩
          rcases either listed with before | rfl
          · exact latest other before here
          · exact (UInt32.le_total ..).resolve_left below
  · have kept : laterOf id best write = best := if_neg own
    rw [kept]
    cases best with
    | none =>
        intro other listed
        rcases either listed with before | rfl
        · exact latest other before
        · exact own
    | some last =>
        refine ⟨old latest.1, latest.2.1, fun other listed here => ?_⟩
        rcases either listed with before | rfl
        · exact latest.2.2 other before here
        · exact absurd here own

theorem fold_latest {best : Option WriteAccess} (latest : Latest writes id best)
    (more : List WriteAccess) : Latest (writes ++ more) id (more.foldl (laterOf id) best) := by
  induction more generalizing writes best with
  | nil => rwa [List.append_nil]
  | cons write more ih =>
      have next := ih (later_latest latest write)
      rwa [List.append_assoc] at next

theorem pending_latest (sets : AccessSets) (id : UInt64) :
    Latest sets.writes.toList id (sets.pending id) := by
  have nothing : Latest [] id none := by simp [Latest]
  have found := fold_latest nothing sets.writes.toList
  rwa [Array.foldl_toList] at found

theorem pending_eq_iff (different : (sets.writes.toList.map WriteAccess.ordinal).Nodup)
    (best : Option WriteAccess) : sets.pending id = best ↔ Latest sets.writes.toList id best := by
  constructor
  · rintro rfl
    exact pending_latest sets id
  · exact (pending_latest sets id).unique different

-- The last of its run: what comes next is on another record.
def EndsRun (writes : List WriteAccess) (write : WriteAccess) : Prop :=
  ∃ before after, writes = before ++ write :: after ∧ ∀ next, after.head? = some next → next.id ≠ write.id

theorem ends_run_cons (first write : WriteAccess) (rest : List WriteAccess) :
    EndsRun (first :: rest) write ↔
      (first = write ∧ ∀ next, rest.head? = some next → next.id ≠ write.id) ∨ EndsRun rest write := by
  constructor
  · rintro ⟨before, after, split, ends⟩
    cases before with
    | nil =>
        obtain ⟨rfl, rfl⟩ := List.cons.inj split
        exact Or.inl ⟨rfl, ends⟩
    | cons other before =>
        obtain ⟨_, rfl⟩ := List.cons.inj split
        exact Or.inr ⟨before, after, rfl, ends⟩
  · rintro (⟨rfl, ends⟩ | ⟨before, after, rfl, ends⟩)
    · exact ⟨[], rest, rfl, ends⟩
    · exact ⟨first :: before, after, rfl, ends⟩

theorem ends_run_iff (ascend : writes.Pairwise WriteAccess.before) (write : WriteAccess) :
    EndsRun writes write ↔ Latest writes write.id (some write) := by
  constructor
  · rintro ⟨before, after, rfl, ends⟩
    obtain ⟨_, later, earlier⟩ := List.pairwise_append.mp ascend
    refine ⟨by simp, rfl, fun other listed same => ?_⟩
    rcases List.mem_append.mp listed with first | last
    · exact UInt32.le_of_lt ((earlier other first write (by simp)).ordinal_lt same)
    · rcases List.mem_cons.mp last with rfl | behind
      · exact UInt32.le_refl _
      · cases after with
        | nil => cases behind
        | cons next rest =>
            -- From the next one on, identifiers are greater.
            obtain ⟨first, later⟩ := List.pairwise_cons.mp later
            have greater : write.id < next.id := UInt64.lt_of_le_of_ne
              (WriteAccess.id_le_of_before (first next (by simp))) (Ne.symm (ends next rfl))
            have beyond : next.id ≤ other.id := by
              rcases List.mem_cons.mp behind with rfl | rest
              · exact UInt64.le_refl _
              · exact WriteAccess.id_le_of_before ((List.pairwise_cons.mp later).1 other rest)
            exact absurd same.symm (UInt64.ne_of_lt (UInt64.lt_of_lt_of_le greater beyond))
  · rintro ⟨listed, _, latest⟩
    obtain ⟨before, after, rfl⟩ := List.append_of_mem listed
    refine ⟨before, after, rfl, fun next following same => ?_⟩
    have behind : next ∈ after := List.mem_of_head? following
    obtain ⟨_, later, _⟩ := List.pairwise_append.mp ascend
    have less := ((List.pairwise_cons.mp later).1 next behind).ordinal_lt same.symm
    exact UInt32.not_le.mpr less (latest next (by simp [behind]) same)

end AccessSets

namespace Worker

theorem mem_last_writes_iff (writes : List WriteAccess) (write : WriteAccess) :
    write ∈ lastWrites writes ↔ AccessSets.EndsRun writes write := by
  have empty : ¬ AccessSets.EndsRun [] write := by
    rintro ⟨before, after, split, _⟩
    exact List.append_ne_nil_of_right_ne_nil before (List.cons_ne_nil write after) split.symm
  induction writes using lastWrites.induct with
  | case1 => simp [lastWrites, empty]
  | case2 first => simp [lastWrites, AccessSets.ends_run_cons, empty, eq_comm]
  | case3 first next rest same ih =>
      rw [lastWrites, if_pos same, AccessSets.ends_run_cons first]
      refine (Iff.trans ih) (or_iff_right ?_).symm
      rintro ⟨rfl, ends⟩
      exact ends next rfl same
  | case4 first next rest different ih =>
      rw [lastWrites, if_neg different, List.mem_cons, AccessSets.ends_run_cons first]
      refine or_congr ⟨?_, fun here => here.1.symm⟩ ih
      rintro rfl
      refine ⟨rfl, fun other following => ?_⟩
      cases following
      exact different

end Worker

namespace AccessSets

structure Told (capacity : Nat) (ops : List Op) (sets : AccessSets) : Prop where
  ordinals : (sets.writes.toList.map fun write => write.ordinal.toNat).Perm
    (List.range sets.writes.size)
  latest : ∀ before lock value after, ops = before ++ .write lock value :: after →
    Op.clear ∉ after → (∀ other value, .write other value ∈ after → other.id ≠ lock.id) →
    ∃ earlier, run { capacity } before = .ok earlier ∧
      sets.pending lock.id = some ⟨lock, earlier.nextOrdinal, value⟩
  nothing : ∀ id, sets.pending id = none ↔ ∀ before lock value after,
    ops = before ++ .write lock value :: after → lock.id = id → Op.clear ∈ after
  permuted : sets.sortWrites.writes.toList.Perm sets.writes.toList
  ascending : sets.sortWrites.writes.toList.Pairwise WriteAccess.before
  runs : ∀ write, EndsRun sets.sortWrites.writes.toList write ↔ sets.pending write.id = some write
  installed : ∀ write, write ∈ Worker.lastWrites sets.sortWrites.writes.toList ↔
    sets.pending write.id = some write

variable {capacity : Nat} {ops : List Op} {sets : AccessSets}

theorem Op.Fit.few (fit : Op.Fit capacity ops) (small : capacity < UInt32.size) :
    (Op.writesMade ops).length < UInt32.size :=
  Nat.lt_of_le_of_lt (fit ops (List.prefix_refl ops)).2 small

theorem Op.Fit.begun {more : List Op} (fit : Op.Fit capacity (ops ++ more)) : Op.Fit capacity ops :=
  fun begun inside => fit begun (inside.trans (List.prefix_append ..))

theorem writes_made_ascend (few : (Op.writesMade ops).length < UInt32.size) :
    (Op.writesMade ops).Pairwise fun a b => a.ordinal < b.ordinal := by
  have numbers := List.pairwise_lt_range (n := (Op.writesMade ops).length)
  rw [← Op.writes_made_ordinals ops (Nat.le_of_lt few)] at numbers
  exact (List.pairwise_map.mp numbers).imp UInt32.lt_iff_toNat_lt.mpr

theorem Holds.different (holds : Holds capacity ops sets)
    (few : (Op.writesMade ops).length < UInt32.size) :
    (sets.writes.toList.map WriteAccess.ordinal).Nodup :=
  (holds.writes.map WriteAccess.ordinal).nodup_iff.mpr
    (List.pairwise_map.mpr ((writes_made_ascend few).imp UInt32.ne_of_lt))

theorem Holds.latest (holds : Holds capacity ops sets)
    (few : (Op.writesMade ops).length < UInt32.size) {before after : List Op} {lock : LockRef}
    {value : UInt64} (split : ops = before ++ .write lock value :: after) (kept : Op.clear ∉ after)
    (last : ∀ other value, .write other value ∈ after → other.id ≠ lock.id) :
    sets.pending lock.id = some ⟨lock, UInt32.ofNat (Op.writesMade before).length, value⟩ := by
  obtain ⟨added, made, named⟩ := Op.writes_made_append (before ++ [.write lock value]) after kept
  rw [List.append_assoc, List.singleton_append, ← split, Op.writes_made_write, List.append_assoc,
    List.singleton_append] at made
  have ascend := writes_made_ascend few
  rw [made] at ascend
  obtain ⟨_, _, earlier⟩ := List.pairwise_append.mp ascend
  apply (pending_eq_iff (holds.different few) _).mpr
  refine Latest.perm ⟨?_, rfl, fun other listed same => ?_⟩ holds.writes.symm
  · rw [made]
    simp
  · rw [made] at listed
    rcases List.mem_append.mp listed with old | new
    · exact UInt32.le_of_lt (earlier other old _ (by simp))
    · rcases List.mem_cons.mp new with rfl | later
      · exact UInt32.le_refl _
      · obtain ⟨value, written⟩ := named other later
        exact absurd same (last other.lock value written)

theorem Holds.nothing_iff (holds : Holds capacity ops sets)
    (few : (Op.writesMade ops).length < UInt32.size) (id : UInt64) :
    sets.pending id = none ↔ ∀ before lock value after,
      ops = before ++ .write lock value :: after → lock.id = id → Op.clear ∈ after := by
  rw [pending_eq_iff (holds.different few)]
  constructor
  · intro nothing before lock value after split same
    apply Decidable.byContradiction
    intro kept
    obtain ⟨added, made, _⟩ := Op.writes_made_append (before ++ [.write lock value]) after kept
    rw [List.append_assoc, List.singleton_append, ← split, Op.writes_made_write] at made
    refine nothing ⟨lock, UInt32.ofNat (Op.writesMade before).length, value⟩ ?_ same
    rw [holds.writes.mem_iff, made]
    simp
  · intro cleared write listed same
    obtain ⟨before, value, after, split, kept⟩ :=
      Op.made_by_a_write ops write (holds.writes.mem_iff.mp listed)
    exact kept (cleared before write.lock value after split same)

theorem run_holds (small : capacity < UInt32.size) (ops : List Op) (fit : Op.Fit capacity ops) :
    ∃ sets, run { capacity } ops = .ok sets ∧ Holds capacity ops sets :=
  (holds_start capacity).run small ops fit

theorem pending_writes_survive_sorting (capacity : Nat) (small : capacity < UInt32.size) (ops : List Op)
    (fit : Op.Fit capacity ops) :
    ∃ sets, run { capacity } ops = .ok sets ∧ Told capacity ops sets := by
  obtain ⟨sets, done, holds⟩ := run_holds small ops fit
  have few := fit.few small
  have different := holds.different few
  have ascend := sort_writes_before different
  have runs : ∀ write, EndsRun sets.sortWrites.writes.toList write ↔
      sets.pending write.id = some write := by
    intro write
    rw [ends_run_iff ascend, pending_eq_iff different]
    exact ⟨fun latest => latest.perm (sort_writes_perm sets),
      fun latest => latest.perm (sort_writes_perm sets).symm⟩
  refine ⟨sets, done, ?_⟩
  constructor
  case ordinals =>
    rw [holds.writes_size, ← Op.writes_made_ordinals ops (Nat.le_of_lt few)]
    exact holds.writes.map _
  case latest =>
    intro before lock value after split kept last
    have begun : Op.Fit capacity before := Op.Fit.begun (split ▸ fit)
    obtain ⟨earlier, ran, held⟩ := run_holds small before begun
    refine ⟨earlier, ran, ?_⟩
    rw [holds.latest few split kept last, held.next_ordinal (begun.few small)]
  case nothing => exact holds.nothing_iff few
  case permuted => exact sort_writes_perm sets
  case ascending => exact ascend
  case runs => exact runs
  case installed =>
    intro write
    rw [Worker.mem_last_writes_iff]
    exact runs write

-- A write that is cleared, then two records, and after a sort the smaller one again.
def rewriting : List Op :=
  [.write ⟨0, 3⟩ 10, .clear, .write ⟨0, 3⟩ 11, .read ⟨1, 2⟩ 5, .write ⟨1, 2⟩ 12, .sort, .write ⟨1, 2⟩ 13]

theorem rewriting_fits : Op.Fit 3 rewriting := by
  have counts : ∀ count < 8, (Op.readsMade (rewriting.take count)).length ≤ 3 ∧
      (Op.writesMade (rewriting.take count)).length ≤ 3 := by decide
  intro begun inside
  rw [List.prefix_iff_eq_take.mp inside]
  exact counts begun.length (Nat.lt_succ_of_le inside.length_le)

theorem rewriting_is_told :
    (∃ sets, run { capacity := 3 } rewriting = .ok sets ∧ Told 3 rewriting sets) ∧
      ((run { capacity := 3 } rewriting).toOption.map fun sets =>
        (sets.writes.toList.map WriteAccess.value, sets.sortWrites.writes.toList.map WriteAccess.value,
          (sets.pending 2).map WriteAccess.ordinal)) = some ([12, 11, 13], [12, 13, 11], some 2) := by
  refine ⟨pending_writes_survive_sorting 3 (by decide) rewriting rewriting_fits, ?_⟩
  simp [run, rewriting, step, addRead, addWrite, nextOrdinal, clear, sortWrites, pending, laterOf,
    WriteAccess.id, WriteAccess.before, List.mergeSort, List.MergeSort.Internal.splitInTwo,
    bind, Except.bind, Except.toOption, pure, Except.pure]

end AccessSets

end LockOrder
