import Formulary.Proofs.Number.Double
import Formulary.Proofs.Number.Rounding
import Formulary.Token.Numeral

/-!
# Printed numbers read back

The shortest decimal of a magnitude reads back as it, since every candidate of the search does, and
so does the exact expansion, on which the search would fall back. Its positional text spells a
decimal that stands for the same number, and so the number word that is printed has the magnitude
for its value.
-/

namespace Formulary

namespace Number.Decimal

/-- Zeros at the end may be written as digits or in the exponent. -/
theorem same_shift (digits k : Nat) (exponent : Int) :
    Same ⟨digits * 10 ^ k, exponent⟩ ⟨digits, exponent + k⟩ := by
  have hexponents : k + exponent.toNat + (-(exponent + k)).toNat =
      (exponent + k).toNat + (-exponent).toNat := by omega
  simp only [Same, numerator, denominator, Nat.pow_eq]
  calc digits * 10 ^ k * 10 ^ exponent.toNat * one * 10 ^ (-(exponent + k)).toNat
      = digits * one * 10 ^ (k + exponent.toNat + (-(exponent + k)).toNat) := by ring
    _ = digits * one * 10 ^ ((exponent + k).toNat + (-exponent).toNat) := by rw [hexponents]
    _ = digits * 10 ^ (exponent + k).toNat * one * 10 ^ (-exponent).toNat := by ring

/-- Moving zeros into the exponent does not change what a decimal reads back as. -/
theorem readsBack_stripZeros (bits fuel : Nat) (d : Decimal) :
    readsBack bits (stripZeros fuel d) = readsBack bits d := by
  induction fuel generalizing d with
  | zero => rfl
  | succ fuel ih =>
    unfold stripZeros
    split
    · next hzero =>
      rw [ih]
      have hsame := same_shift (d.digits / 10) 1 d.exponent
      have hdigits : d.digits / 10 * 10 ^ 1 = d.digits := by
        rw [pow_one]
        omega
      rw [hdigits] at hsame
      exact (hsame.readsBack_eq bits).symm
    · rfl

/-- What is found on a grid reads back. -/
theorem readsBack_of_onGrid? {bits : Nat} {exponent : Int} {d : Decimal}
    (h : onGrid? bits exponent = some d) : readsBack bits d = true := by
  unfold onGrid? at h
  generalize floorOnGrid bits exponent = digits at h
  cases hlow : readsBack bits ⟨digits, exponent⟩ <;>
    cases hhigh : readsBack bits ⟨digits + 1, exponent⟩ <;>
    simp only [hlow, hhigh] at h
  · cases h
  · exact Option.some.inj h ▸ hhigh
  · exact Option.some.inj h ▸ hlow
  · generalize compareGridMiddle bits ⟨digits, exponent⟩ = side at h
    cases side with
    | lt => exact Option.some.inj h ▸ hlow
    | gt => exact Option.some.inj h ▸ hhigh
    | eq =>
      by_cases heven : digits % 2 = 0
      · simp only [heven, if_true] at h
        exact Option.some.inj h ▸ hlow
      · simp only [heven, if_false] at h
        exact Option.some.inj h ▸ hhigh

/-- A decimal with a negative exponent whose digits have the fives of its denominator. -/
theorem numerator_of_fives (u n : Nat) (exponent : Int) (h : exponent = -(n : Int))
    (hone : one = Nat.pow 2 n) : numerator ⟨u * Nat.pow 5 n, exponent⟩ =
      u * denominator ⟨u * Nat.pow 5 n, exponent⟩ := by
  have htoNat : exponent.toNat = 0 := by omega
  have hneg : (-exponent).toNat = n := by omega
  simp only [numerator, denominator, htoNat, hneg, hone, Nat.pow_eq, pow_zero, mul_one, mul_assoc]
  rw [← Nat.mul_pow]

/-- The exact expansion of a magnitude stands for its units. -/
theorem numerator_exact (bits : Nat) :
    (exact bits).numerator = units bits * (exact bits).denominator :=
  numerator_of_fives (units bits) 1074 (-1074) rfl (by rw [one])

/-- The exact expansion of a magnitude reads back. -/
theorem readsBack_exact (bits : Nat) : readsBack bits (exact bits) = true := by
  have hpos := (exact bits).denominator_pos
  have hnumerator := numerator_exact bits
  rw [readsBack_eq_isBetween, isBetween_iff]
  constructor
  · rintro below rfl
    left
    have hscaled := Nat.mul_lt_mul_of_pos_right (units_lt_succ below) hpos
    have hmid := midpoint_mul below (exact (below + 1)).denominator
    rw [compareMidpoint_eq_gt]
    omega
  · left
    have hscaled := Nat.mul_lt_mul_of_pos_right (units_lt_succ bits) hpos
    have hmid := midpoint_mul bits (exact bits).denominator
    rw [compareMidpoint_eq_lt]
    omega

/-- The shortest decimal of a magnitude reads back. -/
theorem readsBack_shortest (bits : Nat) : readsBack bits (shortest bits) = true := by
  unfold shortest
  split
  · next hzero =>
    rw [hzero]
    decide +kernel
  · rw [readsBack_stripZeros]
    cases hfound : (List.range 17).findSome? fun n =>
        onGrid? bits (pointPosition bits - (n + 1 : Nat)) with
    | none => exact readsBack_exact bits
    | some d =>
      obtain ⟨n, _, hgrid⟩ := List.exists_of_findSome?_eq_some hfound
      exact readsBack_of_onGrid? hgrid

end Number.Decimal

namespace Numeral

/-- Reading digits is reading them in base ten. -/
theorem ofDigits_eq (digits : List Char) : ofDigits digits = Nat.ofDigitChars 10 digits 0 := rfl

/-- Zeros in front of digits do not count. -/
theorem ofDigits_replicate_append (k : Nat) (digits : List Char) :
    ofDigits (List.replicate k '0' ++ digits) = ofDigits digits := by
  rw [ofDigits_eq, Nat.ofDigitChars_append, Nat.ofDigitChars_replicate_zero, Nat.mul_zero,
    ofDigits_eq]

/-- Zeros behind digits shift them. -/
theorem ofDigits_append_replicate (k : Nat) (digits : List Char) :
    ofDigits (digits ++ List.replicate k '0') = ofDigits digits * 10 ^ k := by
  rw [ofDigits_eq, Nat.ofDigitChars_append, Nat.ofDigitChars_replicate_zero, Nat.mul_comm,
    ofDigits_eq]

/-- Digits, a point and digits are a number word. -/
theorem read?_point {whole fraction : List Char} (hne : whole ≠ [])
    (hdigits : ∀ c ∈ whole ++ fraction, c.isDigit = true) :
    read? (whole ++ '.' :: fraction) = some ⟨whole, fraction, []⟩ := by
  have hwhole : ∀ c ∈ whole, c.isDigit = true := fun c hc => hdigits c (List.mem_append_left _ hc)
  have hfraction : ∀ c ∈ fraction, c.isDigit = true := fun c hc =>
    hdigits c (List.mem_append_right _ hc)
  have htake : (whole ++ '.' :: fraction).takeWhile Char.isDigit = whole := by
    rw [List.takeWhile_append_of_pos hwhole, List.takeWhile_cons_of_neg (by decide),
      List.append_nil]
  have hdrop : (whole ++ '.' :: fraction).dropWhile Char.isDigit = '.' :: fraction := by
    rw [List.dropWhile_append_of_pos hwhole, List.dropWhile_cons_of_neg (by decide)]
  have htake' : fraction.takeWhile Char.isDigit = fraction := by
    have h : (fraction ++ []).takeWhile Char.isDigit = fraction ++ [] :=
      List.takeWhile_append_of_pos hfraction
    rwa [List.append_nil] at h
  have hdrop' : fraction.dropWhile Char.isDigit = [] := by
    have h : (fraction ++ []).dropWhile Char.isDigit = [] :=
      List.dropWhile_append_of_pos hfraction
    rwa [List.append_nil] at h
  unfold read?
  simp only [htake, hdrop, splitFraction, htake', hdrop', if_neg hne, readExponent?,
    Option.map_some]

/-- Two runs of digits that spell a decimal when a point is put between them. -/
structure Places (digits : List Char) (exponent : Int) (whole fraction : List Char) : Prop where
  nonempty : whole ≠ []
  allDigits : ∀ c ∈ whole ++ fraction, c.isDigit = true
  same : (Number.Decimal.mk (ofDigits (whole ++ fraction)) (-(fraction.length : Int))).Same
    ⟨ofDigits digits, exponent⟩

/-- Digits with zeros around them are digits. -/
theorem isDigit_of_zeros {digits : List Char} (hdigits : ∀ c ∈ digits, c.isDigit = true) (k l : Nat) :
    ∀ c ∈ List.replicate k '0' ++ digits ++ List.replicate l '0', c.isDigit = true := by
  intro c hc
  rw [List.mem_append, List.mem_append] at hc
  rcases hc with (hc | hc) | hc
  · rw [List.eq_of_mem_replicate hc]
    rfl
  · exact hdigits c hc
  · rw [List.eq_of_mem_replicate hc]
    rfl

/-- With zeros between the point and the digits, the point stands in front. -/
theorem places_of_zeros_before {digits : List Char} (hdigits : ∀ c ∈ digits, c.isDigit = true)
    {exponent : Int} {k : Nat} (hk : -((digits.length : Int) + k) = exponent) :
    Places digits exponent ['0'] (List.replicate k '0' ++ digits) := by
  have hall := isDigit_of_zeros hdigits (1 + k) 0
  have hvalue := ofDigits_replicate_append (1 + k) digits
  have hexponent : -((List.replicate k '0' ++ digits).length : Int) = exponent := by
    rw [List.length_append, List.length_replicate]
    omega
  rw [← List.replicate_append_replicate, List.append_assoc] at hvalue hall
  rw [List.replicate_zero, List.append_nil] at hall
  refine ⟨by simp, hall, ?_⟩
  rw [hexponent, ← hvalue]
  exact .refl _

/-- With zeros between the digits and the point, one more zero stands behind it. -/
theorem places_of_zeros_behind {digits : List Char} (hne : digits ≠ [])
    (hdigits : ∀ c ∈ digits, c.isDigit = true) {exponent : Int} {k : Nat} (hk : (k : Int) = exponent) :
    Places digits exponent (digits ++ List.replicate k '0') ['0'] := by
  have hall := isDigit_of_zeros hdigits 0 (k + 1)
  have hvalue := ofDigits_append_replicate (k + 1) digits
  have hshift := Number.Decimal.same_shift (ofDigits digits) (k + 1) (-1)
  have hexponent : (-1 : Int) + ((k + 1 : Nat) : Int) = exponent := by omega
  rw [← List.replicate_append_replicate, ← List.append_assoc] at hvalue hall
  rw [hexponent, ← hvalue] at hshift
  exact ⟨List.append_ne_nil_of_left_ne_nil hne _, hall, hshift⟩

/-- The point may stand between the digits. -/
theorem places_of_point_between {digits : List Char} (hne : digits ≠ [])
    (hdigits : ∀ c ∈ digits, c.isDigit = true) {exponent : Int} {k : Nat} (hpos : 0 < k)
    (hk : (k : Int) - digits.length = exponent) (hle : k ≤ digits.length) :
    Places digits exponent (digits.take k) (digits.drop k) := by
  have hexponent : -((digits.drop k).length : Int) = exponent := by
    rw [List.length_drop]
    omega
  refine ⟨?_, ?_, ?_⟩
  · rw [Ne, List.take_eq_nil_iff]
    exact not_or.mpr ⟨by omega, hne⟩
  · rwa [List.take_append_drop]
  · rw [List.take_append_drop, hexponent]
    exact .refl _

/-- Positional text has digits on both sides of a point, and they spell the decimal. -/
theorem exists_places {digits : List Char} (hne : digits ≠ [])
    (hdigits : ∀ c ∈ digits, c.isDigit = true) (exponent : Int) : ∃ whole fraction,
      Number.positional digits (digits.length + exponent) = whole ++ '.' :: fraction ∧
        Places digits exponent whole fraction := by
  unfold Number.positional
  by_cases hpoint : (digits.length : Int) + exponent ≤ 0
  · rw [if_pos hpoint]
    exact ⟨['0'], _, rfl, places_of_zeros_before hdigits (by omega)⟩
  · rw [if_neg hpoint]
    by_cases hwhole : (digits.length : Int) ≤ digits.length + exponent
    · have hk : (digits.length + exponent).toNat - digits.length = exponent.toNat := by omega
      rw [if_pos hwhole, hk]
      exact ⟨digits ++ List.replicate exponent.toNat '0', ['0'], by simp,
        places_of_zeros_behind hne hdigits (by omega)⟩
    · rw [if_neg hwhole]
      exact ⟨_, _, rfl, places_of_point_between hne hdigits (by omega) (by omega) (by omega)⟩

/-- The digits of the shortest decimal are digits, there are some, and they spell its digits. -/
theorem digitsAndPoint_digits (bits : Nat) : (Number.digitsAndPoint bits).1 ≠ [] ∧
    (∀ c ∈ (Number.digitsAndPoint bits).1, c.isDigit = true) ∧
      ofDigits (Number.digitsAndPoint bits).1 = (Number.Decimal.shortest bits).digits :=
  ⟨Nat.toDigits_ne_nil, fun _ hc => Nat.isDigit_of_mem_toDigits (by decide) (by decide) hc,
    Nat.ofDigitChars_ten_toDigits⟩

/-- The point of the positional text stands where the shortest decimal has it, for zero as well. -/
theorem plainDigits_eq (bits : Nat) : Number.plainDigits bits =
    Number.positional (Number.digitsAndPoint bits).1
      ((Number.digitsAndPoint bits).1.length + (Number.Decimal.shortest bits).exponent) := by
  have hpoint : (if bits = 0 then 1 else (Number.digitsAndPoint bits).2) =
      (Number.digitsAndPoint bits).1.length + (Number.Decimal.shortest bits).exponent := by
    split
    · next hzero => rw [hzero]; rfl
    · rfl
  rw [← hpoint]
  rfl

/-- The positional text of a finite magnitude has digits on both sides of a point, and the magnitude
is nearest to what they spell. -/
theorem plainDigits_places {bits : Nat} (hbits : bits < Number.infinity) : ∃ whole fraction,
    Number.plainDigits bits = whole ++ '.' :: fraction ∧ whole ≠ [] ∧
      (∀ c ∈ whole ++ fraction, c.isDigit = true) ∧
      (Numeral.mk whole fraction []).toDecimal.nearest = bits := by
  obtain ⟨hne, hdigits, hvalue⟩ := digitsAndPoint_digits bits
  obtain ⟨whole, fraction, htext, hplaces⟩ :=
    exists_places hne hdigits (Number.Decimal.shortest bits).exponent
  refine ⟨whole, fraction, ?_, hplaces.nonempty, hplaces.allDigits, ?_⟩
  · rw [plainDigits_eq, htext]
  · have hsame := hplaces.same
    rw [hvalue] at hsame
    apply Number.Decimal.nearest_of_readsBack hbits
    rw [toDecimal, show ofDigits [] = 0 from rfl, Int.natCast_zero, Int.zero_sub,
      hsame.readsBack_eq, Number.Decimal.readsBack_shortest]

/-- The value of a number word is finite and has no sign. -/
theorem isLiteral_of_value? {n : Numeral} {x : Float} (h : n.value? = some x) :
    Number.IsLiteral x := by
  simp only [value?, Number.Decimal.toFloat?] at h
  split at h
  · next hbits =>
    rw [← Option.some.inj h]
    exact (Number.isLiteral_ofMagnitude hbits).1
  · contradiction

/-- The positional text of a finite double without a sign has digits on both sides of a point, and
is a number word with the value of the double. -/
theorem plain_places {x : Float} (h : Number.IsLiteral x) : ∃ whole fraction,
    (Number.plain x).toList = whole ++ '.' :: fraction ∧ whole ≠ [] ∧
      (∀ c ∈ whole ++ fraction, c.isDigit = true) ∧
      (Numeral.mk whole fraction []).value? = some x := by
  have hbits := (Number.isFinite_iff x).mp h.finite
  obtain ⟨whole, fraction, htext, hne, hdigits, hnearest⟩ := plainDigits_places hbits
  refine ⟨whole, fraction, ?_, hne, hdigits, ?_⟩
  · rw [Number.plain, h.signed_eq, String.toList_ofList, htext]
  · simp only [value?, Number.Decimal.toFloat?, hnearest, if_pos hbits, h.ofMagnitude_magnitude]

end Numeral

end Formulary
