import LockOrder.AccessSets
import LockOrder.Buffer

set_option autoImplicit false

namespace LockOrder

structure RetroList where
  buffer : Buffer

namespace RetroList

def ofCapacity (capacity : Nat) : RetroList := ⟨.ofCapacity capacity⟩

def isEmpty (list : RetroList) : Bool := list.buffer.isEmpty

def reset (list : RetroList) : RetroList := ⟨list.buffer.clear⟩

-- A read is forgotten if its record is cold and has not changed since.
def keeps (threshold : UInt32) (store : Store) (read : ReadAccess) : Bool :=
  !(decide ((store.recordAt read.lock.slot).hotness.level < threshold) && read.isCurrent store)

def needed (sets : AccessSets) (threshold : UInt32) (store : Store) : List Entry :=
  (sets.reads.toList.filter (keeps threshold store)).map (fun read => .fresh read.lock .shared) ++
    sets.writes.toList.map fun write => .fresh write.lock .exclusive

def append (buffer : Buffer) : List Entry → Option Buffer
  | [] => some buffer
  | entry :: rest =>
      match buffer.push entry with
      | some buffer => append buffer rest
      | none => none

def appendSome (buffer : Buffer) : List Entry → Buffer
  | [] => buffer
  | entry :: rest =>
      match buffer.push entry with
      | some buffer => appendSome buffer rest
      | none => buffer

-- Merges each run of entries of one lock into its first entry.
def collapse (first : Entry) : List Entry → List Entry
  | [] => [first]
  | entry :: rest =>
      if first.id = entry.id then collapse (first.prefer entry.preferred) rest
      else first :: collapse entry rest

def sorted (entries : List Entry) : List Entry :=
  entries.mergeSort fun a b => decide (a.id ≤ b.id)

def construct (list : RetroList) (sets : AccessSets) (threshold : UInt32) (store : Store) :
    Except Misuse RetroList :=
  match append list.reset.buffer (needed sets threshold store) with
  | none => .error (.full .retroList)
  | some buffer =>
      if buffer.active ≤ 1 then .ok ⟨buffer⟩
      else
        let buffer := buffer.fill (sorted buffer.entries)
        match buffer.entries with
        | [] => .ok ⟨buffer⟩
        | first :: rest => .ok ⟨buffer.fill (collapse first rest)⟩

-- What is left of a list that has no room for all of them: neither sorted nor merged.
def spilled (list : RetroList) (sets : AccessSets) (threshold : UInt32) (store : Store) : RetroList :=
  ⟨appendSome list.reset.buffer (needed sets threshold store)⟩

def label (list : RetroList) : String := list.buffer.label "RetrospectiveLockList"

def dump (list : RetroList) : String :=
  Dump.fields "RetrospectiveLockList" [("entries", list.buffer.dumpEntries)]

end RetroList

end LockOrder
