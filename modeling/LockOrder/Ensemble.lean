import LockOrder.CurrentList.Acquire
import LockOrder.CurrentList.Merge
import LockOrder.CurrentList.Release
import LockOrder.Outsiders

set_option autoImplicit false

namespace LockOrder

structure Ensemble where
  store : Store
  outsiders : Outsiders
  currents : Array CurrentList
  retros : Array RetroList
  sets : Array AccessSets

namespace Ensemble

-- Lists, access sets and records are named by their indices.
inductive Op where
  | add (list slot : Nat) (mode : Mode)
  | merge (list : Nat) (writes : List (Nat × UInt32))
  | mergeSet (list sets : Nat)
  | seed (list retro : Nat)
  | acquireAt (list pos : Nat)
  | acquireThrough (list last : Nat)
  | releaseAfter (list : Nat) (id : UInt64)
  | releaseAtAndAfter (list : Nat) (id : UInt64)
  | releaseAll (list : Nat)
  | giveUpAfter (list : Nat) (id : UInt64)
  | giveUpAtAndAfter (list : Nat) (id : UInt64)
  | reset (list : Nat)
  -- A new list takes the place of the old one, which lets go of its locks.
  | replace (list : Nat)
  | construct (retro sets : Nat) (threshold : UInt32)
  | resetRetro (retro : Nat)
  | addRead (sets slot : Nat) (version : UInt64)
  | addWrite (sets slot : Nat) (value : UInt64)
  | sortWrites (sets : Nat)
  | clearSets (sets : Nat)
  | take (slot : Nat) (kind : Handle)
  | release (slot : Nat)
  | setVersion (slot : Nat) (version : UInt64)
  | setHotness (slot : Nat) (level : UInt32)

inductive Answer where
  | done
  | position (pos : Nat)
  | ordinal (ordinal : UInt32)
  | handle (handle : Option Handle)
  | released (any : Bool)

def current (ensemble : Ensemble) (list : Nat) : CurrentList :=
  ensemble.currents[list]?.getD (.ofCapacity 0 0)

def retro (ensemble : Ensemble) (list : Nat) : RetroList :=
  ensemble.retros[list]?.getD (.ofCapacity 0)

def accessSets (ensemble : Ensemble) (sets : Nat) : AccessSets :=
  ensemble.sets[sets]?.getD { capacity := 0 }

def setCurrent (ensemble : Ensemble) (list : Nat) (current : CurrentList) (store : Store) :
    Ensemble :=
  { ensemble with currents := ensemble.currents.setIfInBounds list current, store }

def setRetro (ensemble : Ensemble) (list : Nat) (retro : RetroList) : Ensemble :=
  { ensemble with retros := ensemble.retros.setIfInBounds list retro }

def setSets (ensemble : Ensemble) (index : Nat) (sets : AccessSets) : Ensemble :=
  { ensemble with sets := ensemble.sets.setIfInBounds index sets }

def setRecord (ensemble : Ensemble) (slot : Nat) (record : Record) : Ensemble :=
  { ensemble with store := ensemble.store.put slot record }

def writesOf (ensemble : Ensemble) (writes : List (Nat × UInt32)) : List WriteAccess :=
  writes.map fun (slot, ordinal) => ⟨ensemble.store.lockAt slot, ordinal, 0⟩

-- A list that is not empty, or has no room for another one, stays as it was.
def changed (ensemble : Ensemble) (list : Nat) :
    Except Misuse CurrentList → Outcome Answer × Ensemble
  | .ok current => (.ok .done, ensemble.setCurrent list current ensemble.store)
  | .error misuse => (.misuse misuse, ensemble)

def merged (ensemble : Ensemble) (list : Nat) (writes : List WriteAccess) :
    Outcome Answer × Ensemble :=
  let current := ensemble.current list
  match current.mergeWrites writes with
  | .ok after => (.ok .done, ensemble.setCurrent list after ensemble.store)
  | .error misuse =>
      (.misuse misuse, ensemble.setCurrent list (current.cutShort writes) ensemble.store)

def acquired (ensemble : Ensemble) (list : Nat) (result : Outcome Unit × CurrentList × Store) :
    Outcome Answer × Ensemble :=
  let (outcome, current, store) := result
  (outcome.map fun () => .done, ensemble.setCurrent list current store)

def released (ensemble : Ensemble) (list : Nat) (result : CurrentList × Store) :
    Outcome Answer × Ensemble :=
  (.ok .done, ensemble.setCurrent list result.1 result.2)

def step (ensemble : Ensemble) : Op → Outcome Answer × Ensemble
  | .add list slot mode =>
      match (ensemble.current list).getOrAdd (ensemble.store.lockAt slot) mode with
      | .ok (pos, current) => (.ok (.position pos), ensemble.setCurrent list current ensemble.store)
      | .error misuse => (.misuse misuse, ensemble)
  | .merge list writes => ensemble.merged list (ensemble.writesOf writes)
  | .mergeSet list sets => ensemble.merged list (ensemble.accessSets sets).writes.toList
  | .seed list retro => ensemble.changed list ((ensemble.current list).seed (ensemble.retro retro))
  | .acquireAt list pos =>
      ensemble.acquired list ((ensemble.current list).acquireAt pos ensemble.store)
  | .acquireThrough list last =>
      ensemble.acquired list ((ensemble.current list).acquireThrough last ensemble.store)
  | .releaseAfter list id =>
      ensemble.released list ((ensemble.current list).releaseAfter id ensemble.store)
  | .releaseAtAndAfter list id =>
      ensemble.released list ((ensemble.current list).releaseAtAndAfter id ensemble.store)
  | .releaseAll list => ensemble.released list ((ensemble.current list).releaseAll ensemble.store)
  | .giveUpAfter list id => ensemble.changed list (.ok ((ensemble.current list).giveUpAfter id))
  | .giveUpAtAndAfter list id =>
      ensemble.changed list (.ok ((ensemble.current list).giveUpAtAndAfter id))
  | .reset list => ensemble.changed list (.ok (ensemble.current list).reset)
  | .replace list =>
      let (old, store) := (ensemble.current list).releaseAll ensemble.store
      ensemble.released list ({ old with buffer := .ofCapacity old.buffer.capacity }, store)
  | .construct retro sets threshold =>
      let list := ensemble.retro retro
      let accesses := ensemble.accessSets sets
      match list.construct accesses threshold ensemble.store with
      | .ok built => (.ok .done, ensemble.setRetro retro built)
      | .error misuse =>
          (.misuse misuse, ensemble.setRetro retro (list.spilled accesses threshold ensemble.store))
  | .resetRetro retro => (.ok .done, ensemble.setRetro retro (ensemble.retro retro).reset)
  | .addRead sets slot version =>
      match (ensemble.accessSets sets).addRead (ensemble.store.lockAt slot) version with
      | .ok updated => (.ok .done, ensemble.setSets sets updated)
      | .error misuse => (.misuse misuse, ensemble)
  | .addWrite sets slot value =>
      let old := ensemble.accessSets sets
      match old.addWrite (ensemble.store.lockAt slot) value with
      | .ok updated => (.ok (.ordinal old.nextOrdinal), ensemble.setSets sets updated)
      | .error misuse => (.misuse misuse, ensemble)
  | .sortWrites sets => (.ok .done, ensemble.setSets sets (ensemble.accessSets sets).sortWrites)
  | .clearSets sets => (.ok .done, ensemble.setSets sets (ensemble.accessSets sets).clear)
  | .take slot kind =>
      let (handle, outsiders, store) := ensemble.outsiders.take slot kind ensemble.store
      (.ok (.handle handle), { ensemble with outsiders, store })
  | .release slot =>
      let (any, outsiders, store) := ensemble.outsiders.release slot ensemble.store
      (.ok (.released any), { ensemble with outsiders, store })
  | .setVersion slot version =>
      (.ok .done, ensemble.setRecord slot { ensemble.store.recordAt slot with version })
  | .setHotness slot level =>
      (.ok .done,
        ensemble.setRecord slot { ensemble.store.recordAt slot with hotness := ⟨level⟩ })

def dropLists (ensemble : Ensemble) : Ensemble :=
  let (currents, store) := ensemble.currents.foldl
    (fun (dropped, store) list =>
      let (list, store) := list.releaseAll store
      (dropped.push list, store)) (#[], ensemble.store)
  { ensemble with currents, store }

end Ensemble

end LockOrder
