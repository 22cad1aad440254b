import Ferro.Boot.Events
import Mathlib.Algebra.Order.Floor.Div

/-!
# From microseconds to ticks (`timer.rs`)

The multiplication saturates, the addition that rounds up wraps around. The two meet where the product comes within
one denominator of `2 ^ 64`.
-/

namespace Ferro

namespace Events

variable {clock : Clock} {us : UInt64}

/-- Microseconds in a tick, times the frequency. -/
def Clock.denominator (clock : Clock) : Nat := 1000000 * clock.interval.toNat

/-- The length of the delay in the unit of which a tick has `denominator`. -/
def Clock.product (clock : Clock) (us : UInt64) : Nat := us.toNat * clock.freq.toNat

theorem toNat_saturatingMul (a b : UInt64) : (saturatingMul a b).toNat = min (a.toNat * b.toNat) (2 ^ 64 - 1) := by
  rw [saturatingMul, UInt64.toNat_ofNat']
  exact Nat.mod_eq_of_lt (by omega)

section

variable (hi : 1 ≤ clock.interval) (hd : clock.denominator < 2 ^ 64)

include hi hd

theorem microsToTicks_eq (us : UInt64) : ∃ ticks, microsToTicks clock us = some ticks ∧ ticks.toNat =
    (min (clock.product us) (2 ^ 64 - 1) + clock.denominator - 1) % 2 ^ 64 / clock.denominator := by
  have hi' : 1 ≤ clock.interval.toNat := UInt64.le_iff_toNat_le.mp hi
  have hmax : max clock.interval 1 = clock.interval := by
    apply UInt64.toNat_inj.mp
    rw [UInt64.toNat_max]
    exact Nat.max_eq_left hi'
  have hden : (1000000 * clock.interval).toNat = clock.denominator := by
    rw [UInt64.toNat_mul]
    exact Nat.mod_eq_of_lt hd
  have hpos : 1000000 ≤ clock.denominator := by
    unfold Clock.denominator
    omega
  have hne : 1000000 * clock.interval ≠ 0 := by
    intro h
    rw [h] at hden
    exact absurd hden.symm (by simp; omega)
  have hone : (1 : UInt64).toNat = 1 := rfl
  refine ⟨_, by simp only [microsToTicks, hmax, if_neg hne]; rfl, ?_⟩
  rw [UInt64.toNat_div, UInt64.toNat_sub, UInt64.toNat_add, toNat_saturatingMul, hden, hone, Clock.product]
  congr 1
  omega

/-- Below the limit the product is rounded up. -/
theorem microsToTicks_ceil (h : clock.product us + clock.denominator ≤ 2 ^ 64) :
    ∃ ticks, microsToTicks clock us = some ticks ∧ ticks.toNat = clock.product us ⌈/⌉ clock.denominator := by
  obtain ⟨ticks, hticks, heq⟩ := microsToTicks_eq hi hd us
  have hpos : 1 ≤ clock.interval.toNat := UInt64.le_iff_toNat_le.mp hi
  have hden : clock.denominator = 1000000 * clock.interval.toNat := rfl
  refine ⟨ticks, hticks, ?_⟩
  rw [heq, Nat.ceilDiv_eq_add_pred_div, Nat.min_eq_left (by omega), Nat.mod_eq_of_lt (by omega)]

/-- From the limit on the sum wraps around, and no tick is left. -/
theorem microsToTicks_wraps (h : 2 ^ 64 < clock.product us + clock.denominator) : microsToTicks clock us = some 0 := by
  obtain ⟨ticks, hticks, heq⟩ := microsToTicks_eq hi hd us
  have hpos : 1 ≤ clock.interval.toNat := UInt64.le_iff_toNat_le.mp hi
  have hden : clock.denominator = 1000000 * clock.interval.toNat := rfl
  have hzero : ticks = 0 := by
    apply UInt64.toNat_inj.mp
    rw [heq]
    refine Nat.div_eq_of_lt ?_
    omega
  rw [hticks, hzero]

end

/-- The delay is at least as many ticks as it lasts, or, where the product does not fit in 64 bits, as many as the
largest product lasts; and a shorter delay is not more ticks. -/
structure NeverShortens (clock : Clock) (us : UInt64) : Prop where
  enough : ∃ ticks, microsToTicks clock us = some ticks ∧
    (clock.product us ⌈/⌉ clock.denominator ≤ ticks.toNat ∨
      (2 ^ 64 ≤ clock.product us ∧ (2 ^ 64 - 1) / clock.denominator ≤ ticks.toNat))
  monotone (us' ticks ticks' : UInt64) : us' ≤ us → microsToTicks clock us' = some ticks' →
    microsToTicks clock us = some ticks → ticks' ≤ ticks

/-- A delay is not shortened if and only if its product does not come within a denominator of `2 ^ 64`. -/
theorem neverShortens_iff (hf : 1 ≤ clock.freq) (hi : 1 ≤ clock.interval) (hd : clock.denominator < 2 ^ 64)
    (us : UInt64) : NeverShortens clock us ↔ clock.product us + clock.denominator ≤ 2 ^ 64 := by
  have hf' : 1 ≤ clock.freq.toNat := UInt64.le_iff_toNat_le.mp hf
  have hi' : 1 ≤ clock.interval.toNat := UInt64.le_iff_toNat_le.mp hi
  have hpos : 0 < clock.denominator := Nat.mul_pos (by decide) hi'
  constructor
  · rintro ⟨⟨ticks, hticks, h⟩, _⟩
    by_contra hlt
    have hwraps := microsToTicks_wraps hi hd (Nat.lt_of_not_le hlt)
    cases hticks.symm.trans hwraps
    have hzero : (0 : UInt64).toNat = 0 := rfl
    rw [hzero] at h
    rcases h with h | ⟨_, h⟩
    · rw [Nat.le_zero, Nat.ceilDiv_eq_add_pred_div, Nat.div_eq_zero_iff] at h
      omega
    · rw [Nat.le_zero, Nat.div_eq_zero_iff] at h
      omega
  · intro h
    obtain ⟨ticks, hticks, heq⟩ := microsToTicks_ceil hi hd h
    refine ⟨⟨ticks, hticks, .inl (Nat.le_of_eq heq.symm)⟩, fun us' ticks₁ ticks' hle h' h₁ => ?_⟩
    have hprod : clock.product us' ≤ clock.product us :=
      Nat.mul_le_mul_right _ (UInt64.le_iff_toNat_le.mp hle)
    have hlt : clock.product us' + clock.denominator ≤ 2 ^ 64 := by omega
    obtain ⟨_, hticks', heq'⟩ := microsToTicks_ceil hi hd hlt
    cases h₁.symm.trans hticks
    cases h'.symm.trans hticks'
    rw [UInt64.le_iff_toNat_le, heq, heq', Nat.ceilDiv_eq_add_pred_div, Nat.ceilDiv_eq_add_pred_div]
    exact Nat.div_le_div_right (by omega)

/-- A counter of 19.2 MHz and 100 ticks a second. -/
def clock100Hz : Clock := ⟨19200000, 192000⟩

theorem neverShortens_second : NeverShortens clock100Hz 1000000 :=
  (neverShortens_iff (by decide) (by decide) (by decide) _).mpr (by decide)

/-- A delay of 1000000 seconds is no tick, one of a second is 100. -/
theorem not_neverShortens_days : microsToTicks clock100Hz 1000000000000 = some 0 ∧
    microsToTicks clock100Hz 1000000 = some 100 ∧ ¬ NeverShortens clock100Hz 1000000000000 := by
  refine ⟨by decide, by decide, fun h => ?_⟩
  have hle := (neverShortens_iff (by decide) (by decide) (by decide) _).mp h
  exact absurd hle (by decide)

end Events

end Ferro
