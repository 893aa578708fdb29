set_option autoImplicit false

namespace LockOrder

inductive Mode where
  | unlocked
  | shared
  | exclusive
deriving DecidableEq

namespace Mode

instance : Inhabited Mode := ⟨.unlocked⟩

def rank : Mode → Nat
  | .unlocked => 0
  | .shared => 1
  | .exclusive => 2

def covers (held wanted : Mode) : Bool := decide (wanted.rank ≤ held.rank)

instance : Ord Mode := ⟨fun a b => compare a.rank b.rank⟩
instance : Max Mode := ⟨fun a b => if a.covers b then a else b⟩
instance : Min Mode := ⟨fun a b => if a.covers b then b else a⟩

def letter : Mode → String
  | .unlocked => "N"
  | .shared => "R"
  | .exclusive => "W"

def name : Mode → String
  | .unlocked => "NoLock"
  | .shared => "ReadLock"
  | .exclusive => "WriteLock"

theorem rank_injective {a b : Mode} (same : a.rank = b.rank) : a = b := by
  cases a <;> cases b <;> simp_all [rank]

theorem covers_iff {held wanted : Mode} : held.covers wanted = true ↔ wanted.rank ≤ held.rank := by
  simp [covers]

theorem covers_refl (mode : Mode) : mode.covers mode = true := by
  simp [covers]

theorem rank_max (a b : Mode) : (max a b).rank = max a.rank b.rank := by
  cases a <;> cases b <;> rfl

end Mode

end LockOrder
