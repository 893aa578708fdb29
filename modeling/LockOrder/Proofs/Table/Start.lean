import LockOrder.Proofs.Worker.Runs
import LockOrder.Proofs.Worker.Turns
import LockOrder.Script

set_option autoImplicit false

namespace LockOrder

namespace Table

def slotIds (count : Nat) : List UInt64 := (List.range count).map fun slot => UInt64.ofNat (slot + 1)

theorem slot_ids_different (count : Nat) (bound : count ≤ UInt64.size) : (slotIds count).Nodup := by
  refine List.pairwise_map.mpr (List.Pairwise.imp_of_mem ?_ List.nodup_range)
  intro a b inA inB different same
  have belowA := List.mem_range.mp inA
  have belowB := List.mem_range.mp inB
  have words := congrArg UInt64.toNat same
  have size : UInt64.size = 2 ^ 64 := rfl
  simp only [UInt64.toNat_ofNat'] at words
  omega

theorem size_le (table : Table) : table.size ≤ UInt64.size := by
  have different : (table.keys.map UInt64.toNat).Nodup :=
    List.pairwise_map.mpr (table.unique.imp fun {a b} apart same => apart (UInt64.toNat_inj.mp same))
  have inside : table.keys.map UInt64.toNat ⊆ List.range UInt64.size := by
    intro word listed
    obtain ⟨key, _, rfl⟩ := List.mem_map.mp listed
    exact List.mem_range.mpr (UInt64.toNat_lt key)
  have bound := List.Nodup.length_le_of_subset different inside
  rwa [List.length_map, List.length_range] at bound

theorem ids_records (table : Table) (draws : Draws) :
    Store.ids { records := table.records, draws } = slotIds table.size := by
  apply List.ext_getElem?
  intro slot
  simp only [Store.ids, records, slotIds, List.getElem?_map, List.getElem?_mapIdx, Option.map_map,
    size]
  by_cases inside : slot < table.keys.length <;> simp [inside]

theorem fits_slot_ids (table : Table) : table.Fits (slotIds table.size) := by
  intro key slot found
  unfold Table.slot at found
  split at found
  · rename_i index here
    cases found
    have inside := (List.findIdx?_eq_some_iff_findIdx_eq.mp here).1
    simpa [slotIds, size] using inside
  · cases found

end Table

namespace Arena

inductive Move where
  | act (act : Act)
  | transact (seat : Nat) (transaction : Transaction Act Reply)

def move (table : Table) (arena : Arena Outsiders) : Move → Event Act Reply × Arena Outsiders
  | .act act =>
      let (reply, outside, store) := act.perform table arena.outside arena.store
      (.act act reply, { arena with outside, store })
  | .transact seat transaction =>
      let (run, arena) := arena.transact table (Act.perform table) seat transaction
      (.ran seat run, arena)

def play (table : Table) : List Move → Arena Outsiders → List (Event Act Reply) × Arena Outsiders
  | [], arena => ([], arena)
  | move :: rest, arena =>
      let (event, arena) := arena.move table move
      let (events, arena) := play table rest arena
      (event :: events, arena)

theorem worker_of_table (table : Table) (workers : List Worker) (draws : Draws) (seat : Nat) :
    (ofTable table workers draws).worker seat = workers[seat]? := by
  simp only [Arena.worker, ofTable, List.getElem?_toArray, List.getElem?_map]
  cases workers[seat]? <;> rfl

theorem mem_of_seat {table : Table} {workers : List Worker} {draws : Draws} {seat : Nat}
    {worker : Worker} (here : (ofTable table workers draws).worker seat = some worker) :
    worker ∈ workers :=
  List.mem_of_getElem? ((worker_of_table table workers draws seat).symm.trans here)

theorem sound_of_table (table : Table) (workers : List Worker) (draws : Draws)
    (made : ∀ worker ∈ workers, ∃ settings, Worker.ofSettings settings = .ok worker) :
    (Arena.ofTable table workers draws).Sound (Table.slotIds table.size) where
  named := table.ids_records draws
  outside := by simp [ofTable, Outsiders.forRecords, Table.slotIds]
  seats := by
    intro seat worker here
    obtain ⟨settings, fresh⟩ := made worker (mem_of_seat here)
    exact Worker.idle_of_settings _ settings worker fresh

variable {ids : List UInt64} {table : Table}

def Hangs (events : List (Event Act Reply)) : Prop :=
  ∃ seat run id, Event.ran seat (some run) ∈ events ∧ run.result = .waiting id

structure Moved (ids : List UInt64) (table : Table) (arena : Arena Outsiders)
    (events : List (Event Act Reply)) (after : Arena Outsiders) : Prop where
  sound : after.Sound ids
  tells : Tells (Event.historyOf table events) arena.store after.store
  balanced : 0 ∉ ids → ¬ Hangs events →
    Balanced arena.outside.tally arena.store after.outside.tally after.store

theorem move_told (different : ids.Nodup) (fits : table.Fits ids) (arena : Arena Outsiders)
    (sound : arena.Sound ids) (move : Move) :
    Moved ids table arena [(arena.move table move).1] (arena.move table move).2 := by
  have single : ∀ event, Event.historyOf table [event] = event.history table := fun event =>
    List.append_nil _
  cases move with
  | act act =>
      have tells := Act.perform_tells table act arena.outside arena.store
      have keeps := Act.perform_keeps fits act arena.outside arena.store sound.named
      refine ⟨?_, ?_, fun _ _ => keeps.balanced sound.size⟩
      · exact sound_outside sound _ (keeps.size.trans sound.outside) _
          ((Mark.ids_of_lead tells.lead).trans sound.named)
      · rw [single]
        exact tells
  | transact seat transaction =>
      simp only [Arena.move, transact]
      cases here : arena.worker seat with
      | none =>
          refine ⟨sound, ?_, fun _ _ => .refl⟩
          rw [single]
          exact tells_nothing rfl
      | some worker =>
          have executes := executes_transaction different fits transaction
          have seated := seat_told different _ executes seat worker arena sound here
          refine ⟨seated.sound, ?_, fun nonzero ends => seated.balanced nonzero fun id waits => ?_⟩
          · rw [single]
            exact seated.tells
          · exact ends ⟨seat, _, id, List.mem_singleton_self _, waits⟩

theorem play_told (different : ids.Nodup) (fits : table.Fits ids) (moves : List Move)
    (arena : Arena Outsiders) (sound : arena.Sound ids) :
    Moved ids table arena (play table moves arena).1 (play table moves arena).2 := by
  induction moves generalizing arena with
  | nil => exact ⟨sound, tells_nothing rfl, fun _ _ => .refl⟩
  | cons move rest ih =>
      have early := move_told different fits arena sound move
      have late := ih _ early.sound
      refine ⟨late.sound, ?_, fun nonzero ends => ?_⟩
      · have tells := early.tells.append late.tells
        rwa [Event.historyOf, Event.historyOf, List.append_nil] at tells
      · refine (early.balanced nonzero fun hangs => ends ?_).trans
          (late.balanced nonzero fun hangs => ends ?_)
        · obtain ⟨seat, run, id, listed, waits⟩ := hangs
          exact ⟨seat, run, id, List.mem_cons.mpr (Or.inl (List.mem_singleton.mp listed)), waits⟩
        · obtain ⟨seat, run, id, listed, waits⟩ := hangs
          exact ⟨seat, run, id, List.mem_cons_of_mem _ listed, waits⟩

end Arena

def Table.single : Table := ⟨[5], by decide⟩

def Worker.small : Worker where
  settings := { maxAccesses := 1 }
  list := .ofCapacity 4 5000
  retro := .ofCapacity 4
  sets := { capacity := 1 }

theorem small_made : ∀ worker ∈ [Worker.small],
    ∃ settings, Worker.ofSettings settings = .ok worker := by
  intro worker listed
  rw [List.mem_singleton.mp listed]
  exact ⟨{ maxAccesses := 1 }, rfl⟩

def Table.double : Table := ⟨[0, 1], by decide⟩

-- Locks every record that is hot at all.
def Worker.alert : Worker where
  settings := { maxAccesses := 8, readLockThreshold := 1 }
  list := .ofCapacity 32 5000
  retro := .ofCapacity 32
  sets := { capacity := 8 }

def Turn.after (acts : List Act) : Turn Act Reply Outsiders :=
  ⟨[], .alert, ((Arena.play .double (acts.map .act) (.ofTable .double [.alert] {})).2).setSeat 0 none⟩

end LockOrder
