import Formulary.Number.Nearest
import Formulary.Proofs.Number.Units

/-!
# Decimals that read back

`readsBack` says that a decimal lies between the midpoints around a magnitude, an end of that range
belonging to it when the pattern is even; `nearest` finds the magnitude from the decimal. They agree:
a decimal that reads back as a finite magnitude has that magnitude nearest to it. Both look only at
the number that a decimal stands for, not at how it is split into digits and exponent.
-/

namespace Formulary.Number

namespace Decimal

/-- Twice the midpoint of a magnitude and the next, in units. -/
def midpoint (bits : Nat) : Nat := units bits + units (bits + 1)

/-- The denominator of a decimal is positive. -/
theorem denominator_pos (d : Decimal) : 0 < d.denominator := Nat.pow_pos (by decide)

/-- Twice a midpoint times a denominator. -/
theorem midpoint_mul (bits n : Nat) : midpoint bits * n = units bits * n + units (bits + 1) * n := by
  rw [midpoint, Nat.add_mul]

/-- The comparison of twice a decimal with twice a midpoint. -/
theorem compareMidpoint_eq (d : Decimal) (bits : Nat) :
    d.compareMidpoint bits = compare (2 * d.numerator) (midpoint bits * d.denominator) := rfl

/-- A decimal is below a midpoint. -/
theorem compareMidpoint_eq_lt (d : Decimal) (bits : Nat) :
    d.compareMidpoint bits = .lt ↔ 2 * d.numerator < midpoint bits * d.denominator := by
  rw [compareMidpoint_eq, Nat.compare_eq_lt]

/-- A decimal is a midpoint. -/
theorem compareMidpoint_eq_eq (d : Decimal) (bits : Nat) :
    d.compareMidpoint bits = .eq ↔ 2 * d.numerator = midpoint bits * d.denominator := by
  rw [compareMidpoint_eq, Nat.compare_eq_eq]

/-- A decimal is above a midpoint. -/
theorem compareMidpoint_eq_gt (d : Decimal) (bits : Nat) :
    d.compareMidpoint bits = .gt ↔ midpoint bits * d.denominator < 2 * d.numerator := by
  rw [compareMidpoint_eq, Nat.compare_eq_gt]

/-- Reading back, for any comparison with midpoints. -/
def isBetween (compareAt : Nat → Ordering) (bits : Nat) : Bool :=
  (match bits with
    | 0 => true
    | below + 1 => match compareAt below with
      | .gt => true
      | .eq => bits % 2 == 0
      | .lt => false) && match compareAt bits with
    | .lt => true
    | .eq => bits % 2 == 0
    | .gt => false

/-- Reading back looks only at comparisons with midpoints. -/
theorem readsBack_eq_isBetween (bits : Nat) (d : Decimal) :
    readsBack bits d = isBetween d.compareMidpoint bits := rfl

/-- What lies between the midpoints around a magnitude; a midpoint counts if the pattern is even. -/
theorem isBetween_iff (compareAt : Nat → Ordering) (bits : Nat) : isBetween compareAt bits = true ↔
    (∀ below, bits = below + 1 → compareAt below = .gt ∨ compareAt below = .eq ∧ bits % 2 = 0) ∧
      (compareAt bits = .lt ∨ compareAt bits = .eq ∧ bits % 2 = 0) := by
  unfold isBetween
  rw [Bool.and_eq_true_iff]
  refine and_congr ?_ ?_
  · cases bits with
    | zero => simp
    | succ below => cases hcompare : compareAt below <;> simp [hcompare]
  · cases compareAt bits <;> simp

/-- Two decimals stand for the same number. -/
def Same (d d' : Decimal) : Prop := d.numerator * d'.denominator = d'.numerator * d.denominator

/-- Every decimal stands for the number that it stands for. -/
theorem Same.refl (d : Decimal) : d.Same d := rfl

/-- Numbers on one side of a midpoint stay there when the fraction is written otherwise. -/
theorem compare_of_cross {x y m b d : Nat} (hb : 0 < b) (hd : 0 < d) (h : x * d = y * b) :
    compare (2 * x) (m * b) = compare (2 * y) (m * d) := by
  have hcross : 2 * x * d = 2 * y * b := by rw [Nat.mul_assoc, h, Nat.mul_assoc]
  have hswap : m * b * d = m * d * b := Nat.mul_right_comm m b d
  have hlt : 2 * x < m * b ↔ 2 * y < m * d := by
    rw [← Nat.mul_lt_mul_right hd, hcross, hswap, Nat.mul_lt_mul_right hb]
  have hgt : m * b < 2 * x ↔ m * d < 2 * y := by
    rw [← Nat.mul_lt_mul_right hd, hcross, hswap, Nat.mul_lt_mul_right hb]
  cases hc : compare (2 * x) (m * b) with
  | lt => exact (Nat.compare_eq_lt.mpr (hlt.mp (Nat.compare_eq_lt.mp hc))).symm
  | gt => exact (Nat.compare_eq_gt.mpr (hgt.mp (Nat.compare_eq_gt.mp hc))).symm
  | eq =>
    have heq := Nat.compare_eq_eq.mp hc
    have hnlt := mt hlt.mpr (Nat.not_lt.mpr (Nat.le_of_eq heq.symm))
    have hngt := mt hgt.mpr (Nat.not_lt.mpr (Nat.le_of_eq heq))
    exact (Nat.compare_eq_eq.mpr (by omega)).symm

/-- The comparison with a midpoint depends on the number alone. -/
theorem Same.compareMidpoint_eq {d d' : Decimal} (h : d.Same d') (bits : Nat) :
    d.compareMidpoint bits = d'.compareMidpoint bits := by
  rw [Decimal.compareMidpoint_eq, Decimal.compareMidpoint_eq]
  exact compare_of_cross d.denominator_pos d'.denominator_pos h

/-- Reading back depends on the number alone. -/
theorem Same.readsBack_eq {d d' : Decimal} (h : d.Same d') (bits : Nat) :
    readsBack bits d = readsBack bits d' := by
  have hcompare : d.compareMidpoint = d'.compareMidpoint := funext h.compareMidpoint_eq
  rw [readsBack_eq_isBetween, readsBack_eq_isBetween, hcompare]

/-- A decimal that reads back as a magnitude lies between the magnitudes around it. -/
theorem between_of_readsBack {bits : Nat} {d : Decimal} (h : readsBack bits d = true) :
    (∀ below, bits = below + 1 → units below * d.denominator < d.numerator) ∧
      d.numerator < units (bits + 1) * d.denominator := by
  obtain ⟨habove, hunder⟩ := (isBetween_iff _ _).mp h
  have hpos := d.denominator_pos
  constructor
  · intro below hbelow
    have hscaled := Nat.mul_lt_mul_of_pos_right (units_lt_succ below) hpos
    have hmid := midpoint_mul below d.denominator
    rcases habove below hbelow with h | ⟨h, _⟩
    · rw [compareMidpoint_eq_gt] at h
      omega
    · rw [compareMidpoint_eq_eq] at h
      omega
  · have hscaled := Nat.mul_lt_mul_of_pos_right (units_lt_succ bits) hpos
    have hmid := midpoint_mul bits d.denominator
    rcases hunder with h | ⟨h, _⟩
    · rw [compareMidpoint_eq_lt] at h
      omega
    · rw [compareMidpoint_eq_eq] at h
      omega

/-- The largest magnitude not above a decimal is the one it reads back as, or the one before that. -/
theorem ofUnits_of_readsBack {bits : Nat} {d : Decimal} (h : readsBack bits d = true) :
    ofUnits (d.numerator / d.denominator) = bits ∨
      ofUnits (d.numerator / d.denominator) + 1 = bits := by
  obtain ⟨habove, hunder⟩ := between_of_readsBack h
  have hpos := d.denominator_pos
  obtain ⟨hle, hlt⟩ := ofUnits_spec (d.numerator / d.denominator)
  have hle' := (Nat.le_div_iff_mul_le hpos).mp hle
  have hlt' := (Nat.div_lt_iff_lt_mul hpos).mp hlt
  have hupper : ofUnits (d.numerator / d.denominator) < bits + 1 := by
    have hunits := Nat.lt_of_mul_lt_mul_right (Nat.lt_of_le_of_lt hle' hunder)
    exact units_strictMono.lt_iff_lt.mp hunits
  cases bits with
  | zero => exact .inl (by omega)
  | succ below =>
    have hunits := Nat.lt_of_mul_lt_mul_right (Nat.lt_trans (habove below rfl) hlt')
    have := units_strictMono.lt_iff_lt.mp hunits
    omega

/-- The exponent of a power of ten that is above all doubles. -/
def beyond : Nat := 311

/-- All finite doubles are below that power of ten. -/
theorem units_infinity_le : units infinity ≤ Nat.pow 10 beyond * one := by decide +kernel

/-- A decimal that has digits is no less than the power of ten of its exponent. -/
theorem pow_le_numerator {d : Decimal} {k : Nat} (hdigits : d.digits ≠ 0)
    (hk : k ≤ d.exponent.toNat) : Nat.pow 10 k * one ≤ d.numerator := by
  have hpow : Nat.pow 10 k ≤ Nat.pow 10 d.exponent.toNat := Nat.pow_le_pow_right (by decide) hk
  have hdigit : Nat.pow 10 k ≤ d.digits * Nat.pow 10 d.exponent.toNat :=
    Nat.le_trans hpow (Nat.le_mul_of_pos_left _ (Nat.pos_of_ne_zero hdigits))
  rw [numerator]
  exact Nat.mul_le_mul_right one hdigit

/-- No decimal beyond all doubles reads back as a finite magnitude. -/
theorem exponent_le_of_readsBack {bits : Nat} {d : Decimal} (hbits : bits < infinity)
    (hdigits : d.digits ≠ 0) (h : readsBack bits d = true) : d.exponent ≤ 310 := by
  by_contra hexponent
  have hunder := (between_of_readsBack h).2
  have hden : d.denominator = 1 := by
    rw [denominator, show (-d.exponent).toNat = 0 by omega, Nat.pow_eq, Nat.pow_zero]
  have hunits : units (bits + 1) ≤ units infinity :=
    units_strictMono.monotone (Nat.succ_le_of_lt hbits)
  have hbeyond : beyond ≤ d.exponent.toNat := by
    unfold beyond
    omega
  rw [hden, Nat.mul_one] at hunder
  have hlt : d.numerator < Nat.pow 10 beyond * one :=
    Nat.lt_of_lt_of_le hunder (Nat.le_trans hunits units_infinity_le)
  exact absurd (pow_le_numerator hdigits hbeyond) (Nat.not_le.mpr hlt)

/-- A decimal without digits reads back as zero alone. -/
theorem eq_zero_of_readsBack {bits : Nat} {d : Decimal} (hdigits : d.digits = 0)
    (h : readsBack bits d = true) : bits = 0 := by
  cases bits with
  | zero => rfl
  | succ below =>
    have hbelow := (between_of_readsBack h).1 below rfl
    rw [numerator, hdigits, Nat.zero_mul, Nat.zero_mul] at hbelow
    exact absurd hbelow (Nat.not_lt_zero _)

/-- A decimal that reads back as a finite magnitude has that magnitude nearest to it. -/
theorem nearest_of_readsBack {bits : Nat} {d : Decimal} (hbits : bits < infinity)
    (h : readsBack bits d = true) : d.nearest = bits := by
  obtain ⟨habove, hunder⟩ := (isBetween_iff _ _).mp h
  unfold nearest
  by_cases hdigits : d.digits = 0
  · rw [if_pos hdigits, eq_zero_of_readsBack hdigits h]
  · have hexponent := exponent_le_of_readsBack hbits hdigits h
    rw [if_neg hdigits, if_neg (Int.not_lt.mpr hexponent)]
    have hbelow := ofUnits_of_readsBack h
    generalize ofUnits (d.numerator / d.denominator) = below at hbelow
    generalize d.compareMidpoint = compareAt at habove hunder
    rcases hbelow with rfl | hbelow
    · rcases hunder with hcompare | ⟨hcompare, heven⟩
      · simp only [hcompare]
      · simp only [hcompare, if_pos heven]
    · rcases habove below hbelow.symm with hcompare | ⟨hcompare, heven⟩
      · simp only [hcompare, hbelow]
      · simp only [hcompare, hbelow]
        rw [if_neg (by omega)]

end Decimal

end Formulary.Number
