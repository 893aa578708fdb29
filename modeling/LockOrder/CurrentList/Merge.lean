import LockOrder.CurrentList.Basic

set_option autoImplicit false

namespace LockOrder

namespace CurrentList

-- What a walk over entries and writes has found: the old entries, raised where they are written,
-- and the placeholders that belong before some old entry and after all of them.
structure Merged where
  old : List Entry
  between : List Entry
  after : List Entry

def written : List WriteAccess → List LockRef
  | [] => []
  | write :: rest =>
      match written rest with
      | [] => [write.lock]
      | next :: more =>
          if next.id = write.id then write.lock :: more else write.lock :: next :: more

def placeholders (locks : List LockRef) : List Entry := locks.map (Entry.fresh · .exclusive)

-- `locks` are the written records that no entry before was the place for.
def walk : List Entry → List LockRef → Merged
  | [], locks => ⟨[], [], placeholders locks⟩
  | entry :: rest, locks =>
      let smaller := placeholders (locks.takeWhile fun lock => decide (lock.id < entry.id))
      match locks.dropWhile fun lock => decide (lock.id < entry.id) with
      | [] =>
          let tail := walk rest []
          ⟨entry :: tail.old, smaller ++ tail.between, tail.after⟩
      | lock :: locks =>
          if lock.id = entry.id then
            let tail := walk rest locks
            ⟨entry.prefer .exclusive :: tail.old, smaller ++ tail.between, tail.after⟩
          else
            let tail := walk rest (lock :: locks)
            ⟨entry :: tail.old, smaller ++ tail.between, tail.after⟩

def Merged.entries (merged : Merged) : List Entry :=
  let all := merged.old ++ merged.between ++ merged.after
  if merged.between.isEmpty then all else RetroList.sorted all

-- Asks for the whole lock of each written record. The writes must be in order.
def mergeWrites (list : CurrentList) (writes : List WriteAccess) : Except Misuse CurrentList :=
  let entries := (walk list.entries (written writes)).entries
  if list.buffer.capacity < entries.length then .error (.full .currentList)
  else .ok { list with buffer := list.buffer.fill entries }

def otherRecords (id : UInt64) (writes : List WriteAccess) : List WriteAccess :=
  writes.dropWhile fun write => write.id == id

theorem length_other_records (id : UInt64) (writes : List WriteAccess) :
    (otherRecords id writes).length ≤ writes.length :=
  (List.dropWhile_sublist _).length_le

-- The merge in place, from the entry at `pos`, of those up to `last`, and the first of these writes.
-- Several writes of a record raise its entry each, but they get one placeholder. Tells if a placeholder
-- belongs before an old entry, or stops at the first one that finds no room.
def mergeFrom (last pos : Nat) (buffer : Buffer) (interleaved : Bool) :
    List WriteAccess → Except Buffer (Buffer × Bool)
  | [] => .ok (buffer, interleaved)
  | write :: rest =>
      if pos ≤ last ∧ (buffer.cell pos).id < write.id then
        mergeFrom last (pos + 1) buffer interleaved (write :: rest)
      else if pos ≤ last ∧ (buffer.cell pos).id = write.id then
        mergeFrom last pos (buffer.set pos ((buffer.cell pos).prefer .exclusive)) interleaved rest
      else
        match buffer.push (.fresh write.lock .exclusive) with
        | some buffer =>
            mergeFrom last pos buffer (interleaved || decide (pos ≤ last)) (otherRecords write.id rest)
        | none => .error buffer
termination_by writes => last + 1 - pos + writes.length
decreasing_by
  · simp only [List.length_cons]
    omega
  · simp only [List.length_cons]
    omega
  · have shorter := length_other_records write.id rest
    simp only [List.length_cons]
    omega

-- A merge without room has raised the entries that it came by, and counts none of its placeholders.
def cutShort (list : CurrentList) (writes : List WriteAccess) : CurrentList :=
  match mergeFrom list.buffer.active 1 list.buffer false writes with
  | .ok _ => list
  | .error buffer => { list with buffer := { buffer with active := list.buffer.active } }

end CurrentList

end LockOrder
