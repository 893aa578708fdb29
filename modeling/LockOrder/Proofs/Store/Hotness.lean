import LockOrder.Proofs.Store.Bare
import Mathlib.Algebra.Group.Nat.Defs

set_option autoImplicit false

namespace LockOrder

namespace Hotness

theorem mask_toNat (level : UInt32) : (mask level).toNat = 2 ^ min level.toNat 63 - 1 := by
  have bound : (min level 63).toUInt64.toNat = min level.toNat 63 := by
    change (if level ≤ 63 then level else 63).toNat = min level.toNat 63
    have few : level ≤ 63 ↔ level.toNat ≤ 63 := UInt32.le_iff_toNat_le
    by_cases small : level ≤ 63
    · rw [if_pos small, Nat.min_eq_left (few.mp small)]
    · rw [if_neg small, Nat.min_eq_right (Nat.le_of_not_le fun less => small (few.mpr less))]
      rfl
  have small : min level.toNat 63 < 64 := by omega
  have power : 2 ^ min level.toNat 63 < 2 ^ 64 := Nat.pow_lt_pow_right (by omega) small
  have shifted : ((1 : UInt64) <<< (min level 63).toUInt64).toNat = 2 ^ min level.toNat 63 := by
    rw [UInt64.toNat_shiftLeft, bound, Nat.mod_eq_of_lt small, UInt64.toNat_one, Nat.one_shiftLeft,
      Nat.mod_eq_of_lt power]
  rw [mask, UInt64.toNat_sub_of_le, shifted, UInt64.toNat_one]
  rw [UInt64.le_iff_toNat_le, shifted, UInt64.toNat_one]
  exact Nat.one_le_two_pow

theorem masked_eq_zero_iff (word : UInt64) (level : UInt32) :
    word &&& mask level = 0 ↔ 2 ^ min level.toNat 63 ∣ word.toNat := by
  rw [← UInt64.toNat_inj, UInt64.toNat_and, mask_toNat, Nat.and_two_pow_sub_one_eq_mod,
    Nat.dvd_iff_mod_eq_zero]
  rfl

-- What an increment may make of a level, given the words that will be drawn: at level `n` it counts
-- with one word in `2 ^ n`.
structure Grown (level : UInt32) (draws : Draws) (after : UInt32) (left : Draws) : Prop where
  cold : level = 0 → after = 1 ∧ left = draws
  warm : 0 < level → level < 255 → left = draws.draw.2 ∧
    after = if 2 ^ min level.toNat 63 ∣ draws.draw.1.toNat then level + 1 else level
  hot : 255 ≤ level → after = level ∧ left = draws

theorem increment_grown (hotness : Hotness) (draws : Draws) :
    Grown hotness.level draws (hotness.increment draws).1.level (hotness.increment draws).2 := by
  rw [increment]
  by_cases hot : limit ≤ hotness.level
  · rw [if_pos hot]
    refine ⟨fun cold => ?_, fun _ less => ?_, fun _ => ⟨rfl, rfl⟩⟩
    · rw [cold] at hot
      exact absurd hot (by decide)
    · exact absurd hot (UInt32.not_le.mpr less)
  · rw [if_neg hot]
    by_cases cold : hotness.level = 0
    · rw [if_pos cold]
      refine ⟨fun _ => ⟨rfl, rfl⟩, fun warm => ?_, fun most => absurd most hot⟩
      rw [cold] at warm
      exact absurd warm (by decide)
    · rw [if_neg cold]
      refine ⟨fun none => absurd none cold, fun _ _ => ?_, fun most => absurd most hot⟩
      simp only [masked_eq_zero_iff]
      split <;> exact ⟨rfl, by simp [*]⟩

example : (increment ⟨3⟩ { script := [8] }).1 = ⟨4⟩ ∧ (increment ⟨3⟩ { script := [9] }).1 = ⟨3⟩ := by
  decide

end Hotness

namespace Store

structure Heated (store : Store) (slot : Nat) (next : Store) : Prop where
  size : next.records.size = store.records.size
  grown : Hotness.Grown (store.recordAt slot).hotness.level store.draws
    (next.recordAt slot).hotness.level next.draws
  rest : next.recordAt slot =
    { store.recordAt slot with hotness := (next.recordAt slot).hotness }
  others : ∀ other, other ≠ slot → next.recordAt other = store.recordAt other

theorem record_at_bump (store : Store) (slot other : Nat) :
    (store.bump slot).recordAt other = if other = slot ∧ slot < store.records.size then
        { store.recordAt slot with
          hotness := ((store.recordAt slot).hotness.increment store.draws).1 }
      else store.recordAt other :=
  record_at_put store slot other _

theorem bump_heated (store : Store) (slot : Nat) (inside : slot < store.records.size) :
    store.Heated slot (store.bump slot) := by
  have here := store.record_at_bump slot slot
  rw [if_pos ⟨rfl, inside⟩] at here
  refine ⟨by simp [bump, put], ?_, ?_, fun other apart => ?_⟩
  · rw [here]
    exact Hotness.increment_grown _ store.draws
  · rw [here]
  · rw [record_at_bump, if_neg fun both => apart both.1]

end Store

end LockOrder
