import LockOrder.Dump

set_option autoImplicit false

namespace LockOrder

-- Random words: first those of the script, then always the same one.
structure Draws where
  script : List UInt64 := []
  otherwise : UInt64 := 0xffffffffffffffff
  drawn : Nat := 0

namespace Draws

def draw (draws : Draws) : UInt64 × Draws :=
  match draws.script with
  | word :: rest => (word, { draws with script := rest, drawn := draws.drawn + 1 })
  | [] => (draws.otherwise, { draws with drawn := draws.drawn + 1 })

end Draws

structure Hotness where
  level : UInt32 := 0
deriving DecidableEq

namespace Hotness

def limit : UInt32 := 255

-- The low bits that have to be zero in a drawn word for the level to grow.
def mask (level : UInt32) : UInt64 := (1 <<< (min level 63).toUInt64) - 1

-- Nothing is drawn at level zero, which always grows, and at the limit, which never does.
def increment (hotness : Hotness) (draws : Draws) : Hotness × Draws :=
  if limit ≤ hotness.level then (hotness, draws)
  else if hotness.level = 0 then (⟨1⟩, draws)
  else
    let (word, draws) := draws.draw
    if word &&& mask hotness.level = 0 then (⟨hotness.level + 1⟩, draws) else (hotness, draws)

def dump (hotness : Hotness) : String := Dump.tagged "Hotness" (toString hotness.level)

end Hotness

end LockOrder
