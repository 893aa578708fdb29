import LockOrder.Entry
import LockOrder.Fault

set_option autoImplicit false

namespace LockOrder

-- Cell zero holds the sentinel, and the cells from one to `active` the entries, by ascending identifiers.
-- The cells behind them hold whatever was there before.
structure Buffer where
  cells : Array Entry
  active : Nat

namespace Buffer

def ofCapacity (capacity : Nat) : Buffer := ⟨Array.replicate (capacity + 1) .sentinel, 0⟩

def capacity (buffer : Buffer) : Nat := buffer.cells.size - 1

def isEmpty (buffer : Buffer) : Bool := buffer.active == 0

def cell (buffer : Buffer) (pos : Nat) : Entry := buffer.cells[pos]?.getD .sentinel

def entriesFrom (buffer : Buffer) (pos : Nat) : List Entry :=
  (buffer.cells.extract pos (buffer.active + 1)).toList

def entries (buffer : Buffer) : List Entry := buffer.entriesFrom 1

def holds (buffer : Buffer) (pos : Nat) : Bool := decide (0 < pos ∧ pos ≤ buffer.active)

def entry (buffer : Buffer) (pos : Nat) : Except Misuse Entry :=
  if buffer.holds pos then .ok (buffer.cell pos) else .error .invalidPosition

def set (buffer : Buffer) (pos : Nat) (entry : Entry) : Buffer :=
  { buffer with cells := buffer.cells.setIfInBounds pos entry }

def write (buffer : Buffer) (pos : Nat) : List Entry → Buffer
  | [] => buffer
  | entry :: rest => (buffer.set pos entry).write (pos + 1) rest

-- Makes these the entries of the list; there must be room for them.
def fill (buffer : Buffer) (entries : List Entry) : Buffer :=
  { buffer.write 1 entries with active := entries.length }

def clear (buffer : Buffer) : Buffer := { buffer.set 0 .sentinel with active := 0 }

def push (buffer : Buffer) (entry : Entry) : Option Buffer :=
  if buffer.active < buffer.capacity then
    some { buffer.set (buffer.active + 1) entry with active := buffer.active + 1 }
  else none

def insert (buffer : Buffer) (pos : Nat) (entry : Entry) : Option Buffer :=
  if buffer.active < buffer.capacity then
    some { buffer.write pos (entry :: buffer.entriesFrom pos) with active := buffer.active + 1 }
  else none

-- The first cell from `low` on and before `high` whose identifier is not below `id`, or `high`.
def search (buffer : Buffer) (id : UInt64) (low high : Nat) : Nat :=
  if low < high then
    let mid := low + (high - low) / 2
    if (buffer.cell mid).id < id then buffer.search id (mid + 1) high
    else buffer.search id low mid
  else low
termination_by high - low

def lowerBound (buffer : Buffer) (id : UInt64) : Nat :=
  if buffer.active = 0 then 1
  else
    -- Accesses tend to ascend, so the last entry is looked at first.
    let last := (buffer.cell buffer.active).id
    if last = id then buffer.active
    else if last < id then buffer.active + 1
    else buffer.search id 1 (buffer.active + 1)

def find (buffer : Buffer) (id : UInt64) : Option Nat :=
  let pos := buffer.lowerBound id
  if pos ≤ buffer.active ∧ (buffer.cell pos).id = id then some pos else none

def positionAfter (buffer : Buffer) (id : UInt64) : Nat :=
  if id = 0xffffffffffffffff then buffer.active + 1 else buffer.lowerBound (id + 1)

def shownLimit : Nat := 32

def label (name : String) (buffer : Buffer) : String :=
  let shown := Dump.separated ((buffer.entries.take shownLimit).map Entry.label)
  let more := if shownLimit < buffer.active then ", .." else ""
  name ++ "(capacity: " ++ toString buffer.capacity ++ ", last_active_entry: " ++
    toString buffer.active ++ ")[" ++ shown ++ more ++ "]"

def dumpEntries (buffer : Buffer) : String := Dump.sequence (buffer.entries.map Entry.dump)

end Buffer

end LockOrder
