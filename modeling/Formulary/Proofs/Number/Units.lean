import Formulary.Number.Magnitude
import Mathlib.Order.Monotone.Basic
import Mathlib.Tactic.Ring

/-!
# The scale of units

Magnitudes and their units: `units` goes up strictly with the bit pattern, and `ofUnits` is its
inverse, rounded down. Above the subnormals a pattern `(q + 1) * binade + r` stands for a significand
`binade + r` and a power of two `q`; its successor has one more in the significand, also where that
carries into the power.
-/

namespace Formulary.Number

/-- There is a pattern in a binade. -/
theorem binade_pos : 0 < binade := by decide

/-- The units of a normal magnitude. -/
theorem units_normal (q : Nat) {r : Nat} (hr : r < binade) :
    units ((q + 1) * binade + r) = (binade + r) * 2 ^ q := by
  have hmod : ((q + 1) * binade + r) % binade = r := by
    rw [Nat.mul_comm, Nat.mul_add_mod, Nat.mod_eq_of_lt hr]
  have hdiv : ((q + 1) * binade + r) / binade = q + 1 := by
    rw [Nat.mul_comm, Nat.mul_add_div binade_pos, Nat.div_eq_of_lt hr, Nat.add_zero]
  have hge : ¬ (q + 1) * binade + r < binade := by
    rw [Nat.succ_mul]
    omega
  rw [units, if_neg hge, hmod, hdiv, Nat.add_sub_cancel, Nat.pow_eq]

/-- The units of the magnitude after a normal one. -/
theorem units_normal_succ (q : Nat) {r : Nat} (hr : r < binade) :
    units ((q + 1) * binade + r + 1) = (binade + r + 1) * 2 ^ q := by
  by_cases hcarry : r + 1 < binade
  · rw [Nat.add_assoc, units_normal q hcarry, Nat.add_assoc]
  · have hr : r + 1 = binade := by omega
    have hnext : (q + 1) * binade + r + 1 = (q + 1 + 1) * binade + 0 := by
      rw [Nat.succ_mul (q + 1)]
      omega
    rw [hnext, units_normal (q + 1) binade_pos, Nat.add_assoc binade r 1, hr]
    ring

/-- A magnitude is subnormal or has a significand and a power of two. -/
theorem subnormal_or_normal (bits : Nat) :
    bits < binade ∨ ∃ q r, r < binade ∧ bits = (q + 1) * binade + r := by
  by_cases h : bits < binade
  · exact .inl h
  · have hpos : 0 < bits / binade := Nat.div_pos (Nat.not_lt.mp h) binade_pos
    refine .inr ⟨bits / binade - 1, bits % binade, Nat.mod_lt _ binade_pos, ?_⟩
    rw [Nat.sub_add_cancel hpos, Nat.mul_comm]
    exact (Nat.div_add_mod bits binade).symm

/-- Each magnitude has fewer units than the next. -/
theorem units_lt_succ (bits : Nat) : units bits < units (bits + 1) := by
  rcases subnormal_or_normal bits with h | ⟨q, r, hr, rfl⟩
  · have hbinade := binade_pos
    rw [units_of_lt (by omega), units_of_lt (by omega)]
    exact Nat.lt_succ_self bits
  · rw [units_normal q hr, units_normal_succ q hr]
    exact Nat.mul_lt_mul_of_pos_right (Nat.lt_succ_self _) (Nat.two_pow_pos q)

/-- Units go up strictly with the bit pattern. -/
theorem units_strictMono : StrictMono units := strictMono_nat_of_lt_succ units_lt_succ

/-- `ofUnits` is the largest magnitude with at most the given units: the next has more. -/
theorem ofUnits_spec (u : Nat) : units (ofUnits u) ≤ u ∧ u < units (ofUnits u + 1) := by
  by_cases hsmall : u.log2 ≤ 52
  · have hlt : u < 2 * binade := by
      have hlog : u < 2 ^ (u.log2 + 1) := Nat.lt_log2_self
      have hpow : 2 ^ (u.log2 + 1) ≤ 2 ^ 53 := Nat.pow_le_pow_right (by decide) (by omega)
      have hbinade : (2 : Nat) ^ 53 = 2 * binade := by decide
      omega
    have hof : ofUnits u = u := by
      unfold ofUnits
      simp [Nat.sub_eq_zero_of_le hsmall]
    rw [hof]
    have hunits := units_of_lt hlt
    exact ⟨Nat.le_of_eq hunits, Nat.lt_of_le_of_lt (Nat.le_of_eq hunits.symm) (units_lt_succ u)⟩
  · -- the significand is cut off at its 53rd bit
    obtain ⟨s, hs⟩ : ∃ s, u.log2 = 52 + (s + 1) := ⟨u.log2 - 53, by omega⟩
    have hne : u ≠ 0 := by
      rintro rfl
      simp at hs
    have hshift : u.log2 - 52 = s + 1 := by omega
    have hle : binade * 2 ^ (s + 1) ≤ u := by
      have hlog := Nat.log2_self_le hne
      rw [hs, Nat.pow_add] at hlog
      exact hlog
    have hlt : u < 2 * binade * 2 ^ (s + 1) := by
      have hlog : u < 2 ^ (u.log2 + 1) := Nat.lt_log2_self
      have hpow : 2 ^ (52 + (s + 1) + 1) = 2 * binade * 2 ^ (s + 1) := by
        rw [show (2 * binade : Nat) = 2 ^ 53 by decide, ← Nat.pow_add]
        congr 1
        omega
      rwa [hs, hpow] at hlog
    obtain ⟨r, hr⟩ : ∃ r, u / 2 ^ (s + 1) = binade + r :=
      ⟨u / 2 ^ (s + 1) - binade, by
        have := (Nat.le_div_iff_mul_le (Nat.two_pow_pos (s + 1))).mpr hle
        omega⟩
    have hrlt : r < binade := by
      have := (Nat.div_lt_iff_lt_mul (Nat.two_pow_pos (s + 1))).mpr hlt
      omega
    have hof : ofUnits u = (s + 1 + 1) * binade + r := by
      unfold ofUnits
      simp only [hshift, Nat.pow_eq, hr]
      rw [Nat.succ_mul (s + 1), Nat.add_assoc]
    rw [hof, units_normal _ hrlt, units_normal_succ _ hrlt, ← hr]
    constructor
    · exact Nat.div_mul_le_self u _
    · exact (Nat.div_lt_iff_lt_mul (Nat.two_pow_pos _)).mp (Nat.lt_succ_self _)

end Formulary.Number
