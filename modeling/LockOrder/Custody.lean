import LockOrder.Record

set_option autoImplicit false

namespace LockOrder

-- Handles are named by the order in which they were given out.
structure Custody where
  record : Record
  handles : Array (Option Handle) := #[]
  draws : Draws := {}

namespace Custody

inductive Op where
  | await
  | tryExclusive (spins : UInt32)
  | tryShared (spins : UInt32)
  -- Waits while somebody else takes the free lock and gives it back.
  | contend (kind : Handle)
  | upgrade (index : Nat) (spins : UInt32)
  | release (index : Nat)
  | install (value : UInt64)
  | read
  | readLocked
  | bump

inductive Answer where
  | handle (handle : Option Handle)
  | blocked
  | noHandle
  | upgraded (handle : Handle)
  | notUpgraded (handle : Handle)
  | released
  | version (version : UInt64)
  | content (version value : UInt64)
  | level (level : UInt32)

def handleAt (custody : Custody) (index : Nat) : Option Handle :=
  custody.handles[index]?.getD none

def setLock (custody : Custody) (lock : RwLock) : Custody :=
  { custody with record := { custody.record with lock } }

def given (custody : Custody) (handle : Handle) : Option RwLock → Answer × Custody
  | some lock =>
      (.handle (some handle),
        { custody.setLock lock with handles := custody.handles.push (some handle) })
  | none => (.handle none, custody)

def await (custody : Custody) : Answer × Custody :=
  match custody.record.lock.takeExclusive with
  | some lock => custody.given .writer (some lock)
  | none => (.blocked, custody)

def visited (custody : Custody) (kind : Handle) : Custody :=
  match custody.record.lock.take kind with
  | some lock => custody.setLock (lock.release kind)
  | none => custody

def content : Option (UInt64 × UInt64) → Answer
  | some (version, value) => .content version value
  | none => .blocked

def step (custody : Custody) : Op → Answer × Custody
  | .await => custody.await
  | .tryExclusive _ => custody.given .writer custody.record.lock.takeExclusive
  | .tryShared _ => custody.given .reader custody.record.lock.takeShared
  | .contend kind => (custody.visited kind).await
  | .upgrade index _ =>
      match custody.handleAt index with
      | none => (.noHandle, custody)
      | some handle =>
          match custody.record.lock.upgrade with
          | none => (.notUpgraded handle, custody)
          | some lock =>
              (.upgraded .writer,
                { custody.setLock lock with
                  handles := custody.handles.setIfInBounds index (some .writer) })
  | .release index =>
      match custody.handleAt index with
      | none => (.noHandle, custody)
      | some handle =>
          (.released,
            { custody.setLock (custody.record.lock.release handle) with
              handles := custody.handles.setIfInBounds index none })
  | .install value =>
      let record := custody.record.install value
      (.version record.version, { custody with record })
  | .read => (content custody.record.readOptimistic, custody)
  | .readLocked => (content (some custody.record.readLocked), custody)
  | .bump =>
      let (record, draws) := custody.record.bump custody.draws
      (.level record.hotness.level, { custody with record, draws })

def dump (custody : Custody) : String :=
  custody.record.dump ++ " " ++ custody.record.lock.dump ++ " " ++
    Dump.sequence (custody.handles.toList.map fun handle =>
      Dump.optional (handle.map Handle.dump))

end Custody

end LockOrder
