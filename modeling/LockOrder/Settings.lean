import LockOrder.Fault

set_option autoImplicit false

namespace LockOrder

structure Settings where
  -- The most reads, and the most writes, of one attempt.
  maxAccesses : UInt32 := 64
  -- Records at least this hot are locked when they are read.
  readLockThreshold : UInt32 := 10
  tryLockSpins : UInt32 := 5000
  maxRetries : UInt32 := 64
  -- Whether an aborted attempt tells the next one which locks it needed.
  retrospective : Bool := true
deriving DecidableEq

namespace Settings

def largestMaxAccesses : UInt32 := 0xffffffff / 4

def listCapacity (settings : Settings) : UInt32 :=
  UInt32.ofNat (min (settings.maxAccesses.toNat * 4) 0xffffffff)

def validate (settings : Settings) : Except Fault Unit :=
  if settings.maxAccesses = 0 ∨ largestMaxAccesses < settings.maxAccesses then
    .error (.wrongParameter "max_accesses")
  else .ok ()

def dump (settings : Settings) : String :=
  Dump.fields "Config" [("max_accesses", toString settings.maxAccesses),
    ("read_lock_threshold", toString settings.readLockThreshold),
    ("try_lock_spins", toString settings.tryLockSpins),
    ("max_retries", toString settings.maxRetries),
    ("retrospective", toString settings.retrospective)]

end Settings

end LockOrder
