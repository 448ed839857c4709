import Formulary.Proofs.Number.Spelling
import Formulary.Proofs.Token.Tokenizing

/-!
# Numbers in source text

A finite double without a sign is one number token when its positional text is read, and the token has
that very double for its value. The text with an exponent cannot be read back by the lexer, whose
exponents have no signs, but it denotes the same number: `denoted?` reads either text as a rational,
and both layouts keep the digits of the shortest decimal and only move its point. Where no exponent is
written the two texts are one.
-/

namespace Formulary

namespace Number

namespace Decimal

/-- The rational number that a decimal stands for. -/
def toRat (d : Decimal) : ℚ := d.digits * 10 ^ d.exponent

/-- A decimal is its fraction, of which the numerator counts units. -/
theorem numerator_eq_toRat (d : Decimal) : (d.numerator : ℚ) = d.toRat * d.denominator * one := by
  have hexponent : (d.exponent.toNat : Int) = d.exponent + (-d.exponent).toNat := by omega
  have hpower : (10 : ℚ) ^ d.exponent.toNat = 10 ^ d.exponent * 10 ^ (-d.exponent).toNat := by
    rw [← zpow_natCast, hexponent, zpow_add₀ (by norm_num), zpow_natCast]
  simp only [numerator, denominator, toRat, Nat.pow_eq, Nat.cast_mul, Nat.cast_pow, Nat.cast_ofNat]
  rw [hpower]
  ring

/-- Decimals that stand for the same number are the same rational. -/
theorem Same.toRat_eq {d d' : Decimal} (h : d.Same d') : d.toRat = d'.toRat := by
  have hcross : (d.numerator : ℚ) * d'.denominator = d'.numerator * d.denominator := by
    exact_mod_cast h
  have hden : (d.denominator : ℚ) ≠ 0 := Nat.cast_ne_zero.mpr d.denominator_pos.ne'
  have hden' : (d'.denominator : ℚ) ≠ 0 := Nat.cast_ne_zero.mpr d'.denominator_pos.ne'
  have hone : (one : ℚ) ≠ 0 := Nat.cast_ne_zero.mpr (by decide +kernel)
  rw [numerator_eq_toRat, numerator_eq_toRat] at hcross
  apply mul_right_cancel₀ (mul_ne_zero (mul_ne_zero hden hden') hone)
  linear_combination hcross

end Decimal

/-! ### What printed text denotes -/

/-- The letter in front of the power of ten of a number. -/
def isPowerMark (c : Char) : Bool := c == 'e' || c == 'E'

/-- The power of ten at the end of a number: behind its mark a sign and digits. Where nothing stands
it is the zeroth. -/
def readPower? : List Char → Option Int
  | [] => some 0
  | _ :: sign :: digits =>
    if digits = [] ∨ digits.all Char.isDigit = false then none
    else if sign = '+' then some (Numeral.ofDigits digits)
    else if sign = '-' then some (-(Numeral.ofDigits digits))
    else none
  | _ => none

/-- The number that decimal text denotes: digits with or without a point, times a power of ten. -/
def denoted? (text : List Char) : Option ℚ :=
  (Numeral.read? (text.takeWhile (!isPowerMark ·))).bind fun n =>
    (readPower? (text.dropWhile (!isPowerMark ·))).map fun power => n.toDecimal.toRat * 10 ^ power

example : denoted? "2.5e-03".toList = some (1 / 400) ∧ denoted? "1e+3".toList = some 1000 := by
  decide +kernel
example : denoted? "0.25".toList = some (1 / 4) ∧ denoted? "1e3".toList = none := by decide +kernel

/-- A digit marks no power. -/
theorem isPowerMark_of_isDigit {c : Char} (h : c.isDigit = true) : isPowerMark c = false := by
  have hmark : ¬(c = 'e' ∨ c = 'E') := by
    rintro (rfl | rfl) <;> contradiction
  simpa [isPowerMark] using hmark

/-- Digits and a point have no power among them. -/
theorem isPowerMark_of_mem {whole point fraction : List Char}
    (hwhole : ∀ c ∈ whole, c.isDigit = true) (hpoint : Numeral.Fraction point fraction) :
    ∀ c ∈ whole ++ point, isPowerMark c = false := by
  intro c hc
  rcases List.mem_append.mp hc with hc | hc
  · exact isPowerMark_of_isDigit (hwhole c hc)
  · cases hpoint with
    | absent => contradiction
    | point hfraction =>
      rcases List.mem_cons.mp hc with rfl | hc
      · rfl
      · exact isPowerMark_of_isDigit (hfraction c hc)

/-- Digits with a fraction and a power denote what they spell, multiplied with the power. -/
theorem denoted?_parts {whole point fraction mark : List Char} {power : Int} (hne : whole ≠ [])
    (hwhole : ∀ c ∈ whole, c.isDigit = true) (hpoint : Numeral.Fraction point fraction)
    (hmark : ∀ c ∈ mark.head?, isPowerMark c = true) (hpower : readPower? mark = some power) :
    denoted? (whole ++ point ++ mark) =
      some ((Numeral.mk whole fraction []).toDecimal.toRat * 10 ^ power) := by
  have hread : Numeral.read? (whole ++ point) = some ⟨whole, fraction, []⟩ := by
    have hspells := Numeral.Spells.parts hne hwhole hpoint .absent
    rw [List.append_nil] at hspells
    exact (Numeral.read?_eq_some_iff _ _).mpr hspells
  obtain ⟨htake, hdrop⟩ := takeWhile_dropWhile_append (p := (!isPowerMark ·)) (b := mark)
    (fun c hc => by rw [isPowerMark_of_mem hwhole hpoint c hc]; rfl)
    (fun c hc => by rw [hmark c hc]; rfl)
  rw [denoted?, htake, hdrop, hread, hpower]
  rfl

/-- Positional text denotes the decimal that it is made from. -/
theorem denoted?_positional {digits : List Char} (hne : digits ≠ [])
    (hdigits : ∀ c ∈ digits, c.isDigit = true) (exponent : Int) :
    denoted? (positional digits (digits.length + exponent)) =
      some (Decimal.mk (Numeral.ofDigits digits) exponent).toRat := by
  obtain ⟨whole, fraction, htext, hplaces⟩ := Numeral.exists_places hne hdigits exponent
  obtain ⟨hwhole, hfraction⟩ := List.forall_mem_append.mp hplaces.allDigits
  have hend : ∀ c ∈ ([] : List Char).head?, isPowerMark c = true := fun _ hc => nomatch hc
  have hdenoted := denoted?_parts hplaces.nonempty hwhole (.point hfraction) hend rfl
  have hdecimal : (Numeral.mk whole fraction []).toDecimal =
      ⟨Numeral.ofDigits (whole ++ fraction), -(fraction.length : Int)⟩ := by
    rw [Numeral.toDecimal, show Numeral.ofDigits [] = 0 from rfl, Int.natCast_zero, Int.zero_sub]
  rw [List.append_nil, hdecimal, hplaces.same.toRat_eq, zpow_zero, mul_one] at hdenoted
  rw [htext, hdenoted]

/-- The sign and the digits of an exponent, padded to two digits, are read as the exponent. -/
theorem readPower?_padded (exponent : Int) : readPower? ('e' ::
    (if exponent < 0 then '-' else '+') :: (List.replicate
      (2 - (Nat.toDigits 10 exponent.natAbs).length) '0' ++ Nat.toDigits 10 exponent.natAbs)) =
        some exponent := by
  generalize hpadded : List.replicate _ '0' ++ Nat.toDigits 10 exponent.natAbs = padded
  have hne : padded ≠ [] := hpadded ▸ List.append_ne_nil_of_right_ne_nil _ Nat.toDigits_ne_nil
  have hall : padded.all Char.isDigit = true := by
    have hdigits : ∀ c ∈ Nat.toDigits 10 exponent.natAbs, c.isDigit = true := fun _ hc =>
      Nat.isDigit_of_mem_toDigits (by decide) (by decide) hc
    have hzeros :=
      Numeral.isDigit_of_zeros hdigits (2 - (Nat.toDigits 10 exponent.natAbs).length) 0
    rw [List.replicate_zero, List.append_nil, hpadded] at hzeros
    exact List.all_eq_true.mpr hzeros
  have hvalue : Numeral.ofDigits padded = exponent.natAbs := by
    rw [← hpadded, Numeral.ofDigits_replicate_append]
    exact Nat.ofDigitChars_ten_toDigits
  have hguard : ¬(padded = [] ∨ padded.all Char.isDigit = false) := by
    rw [hall]
    exact not_or.mpr ⟨hne, Bool.true_eq_false_eq_False⟩
  rw [readPower?, if_neg hguard, hvalue]
  by_cases hsign : exponent < 0
  · rw [if_pos hsign, if_neg (by decide), if_pos rfl]
    congr 1
    omega
  · rw [if_neg hsign, if_pos rfl]
    congr 1
    omega

/-- The fraction behind the first digit, absent if there is only one digit. -/
theorem exists_scientific (d : Char) {rest : List Char} (hrest : ∀ c ∈ rest, c.isDigit = true)
    (point : Int) : ∃ fraction mark, scientific (d :: rest) point = [d] ++ fraction ++ 'e' :: mark ∧
      Numeral.Fraction fraction rest ∧ readPower? ('e' :: mark) = some (point - 1) := by
  cases rest with
  | nil => exact ⟨[], _, rfl, .absent, readPower?_padded (point - 1)⟩
  | cons c rest => exact ⟨'.' :: c :: rest, _, rfl, .point hrest, readPower?_padded (point - 1)⟩

/-- Text with an exponent denotes the decimal that it is made from. -/
theorem denoted?_scientific {digits : List Char} (hne : digits ≠ [])
    (hdigits : ∀ c ∈ digits, c.isDigit = true) (exponent : Int) :
    denoted? (scientific digits (digits.length + exponent)) =
      some (Decimal.mk (Numeral.ofDigits digits) exponent).toRat := by
  obtain ⟨d, rest, rfl⟩ := List.exists_cons_of_ne_nil hne
  obtain ⟨hd, hrest⟩ := List.forall_mem_cons.mp hdigits
  obtain ⟨fraction, mark, htext, hfraction, hpower⟩ :=
    exists_scientific d hrest ((d :: rest).length + exponent)
  have hmark : ∀ c ∈ ('e' :: mark).head?, isPowerMark c = true := by
    intro c hc
    rw [← Option.some.inj hc]
    rfl
  have hdenoted := denoted?_parts (List.cons_ne_nil d []) (List.forall_mem_singleton.mpr hd)
    hfraction hmark hpower
  have hexponent : ((Numeral.ofDigits [] : Int) - rest.length) +
      (((d :: rest).length : Int) + exponent - 1) = exponent := by
    rw [List.length_cons, show Numeral.ofDigits [] = 0 from rfl]
    omega
  rw [htext, hdenoted, Numeral.toDecimal, Decimal.toRat, Decimal.toRat, mul_assoc,
    ← zpow_add₀ (by norm_num), hexponent]
  rfl

/-- The positional text of a magnitude denotes its shortest decimal. -/
theorem denoted?_plainDigits (bits : Nat) :
    denoted? (plainDigits bits) = some (Decimal.shortest bits).toRat := by
  obtain ⟨hne, hdigits, hvalue⟩ := Numeral.digitsAndPoint_digits bits
  rw [Numeral.plainDigits_eq, denoted?_positional hne hdigits, hvalue]

/-- The shortest text is the positional one, or it has an exponent. -/
theorem naturalDigits_cases (bits : Nat) : naturalDigits bits = plainDigits bits ∨
    naturalDigits bits = scientific (digitsAndPoint bits).1
      ((digitsAndPoint bits).1.length + (Decimal.shortest bits).exponent) := by
  by_cases hzero : bits = 0
  · left
    rw [hzero]
    rfl
  · simp only [naturalDigits, plainDigits, if_neg hzero]
    split
    · exact .inl rfl
    · exact .inr rfl

/-- The shortest text of a magnitude denotes its shortest decimal. -/
theorem denoted?_naturalDigits (bits : Nat) :
    denoted? (naturalDigits bits) = some (Decimal.shortest bits).toRat := by
  obtain ⟨hne, hdigits, hvalue⟩ := Numeral.digitsAndPoint_digits bits
  rcases naturalDigits_cases bits with hplain | hpower
  · rw [hplain, denoted?_plainDigits]
  · rw [hpower, denoted?_scientific hne hdigits, hvalue]

/-- Without an exponent the shortest text is positional. -/
theorem naturalDigits_eq_of_not_mem {bits : Nat} (h : 'e' ∉ naturalDigits bits) :
    naturalDigits bits = plainDigits bits := by
  rcases naturalDigits_cases bits with hplain | hpower
  · exact hplain
  · refine absurd ?_ h
    rw [hpower, scientific]
    exact List.mem_append_right _ List.mem_cons_self

end Number

/-! ### What the lexer reads -/

namespace Lexer

/-- The positional text of a double is a number word. -/
theorem lexeme_plain {x : Float} (h : Number.IsLiteral x) :
    Lexeme (Number.plain x).toList [] (.number x) := by
  obtain ⟨whole, fraction, htext, hne, hdigits, hvalue⟩ := Numeral.plain_places h
  obtain ⟨hwhole, hfraction⟩ := List.forall_mem_append.mp hdigits
  have hspells := Numeral.Spells.parts hne hwhole (.point hfraction) .absent
  rw [List.append_nil] at hspells
  rw [htext]
  refine .word ⟨?_, isWordContinue_of_mem_point hdigits, fun _ hc => nomatch hc⟩
    (.number hspells hvalue)
  obtain ⟨c, rest, rfl⟩ := List.exists_cons_of_ne_nil hne
  exact ⟨c, _, rfl, isWordStart_of_isDigit (hwhole c List.mem_cons_self)⟩

end Lexer

namespace Number

/-- Nothing in positional text marks a power. -/
theorem not_mem_plain {x : Float} (h : IsLiteral x) {c : Char} (hc : isPowerMark c = true) :
    c ∉ (plain x).toList := by
  obtain ⟨whole, fraction, htext, _, hdigits, _⟩ := Numeral.plain_places h
  obtain ⟨hwhole, hfraction⟩ := List.forall_mem_append.mp hdigits
  intro hmem
  rw [htext] at hmem
  rw [isPowerMark_of_mem hwhole (.point hfraction) c hmem] at hc
  contradiction

/-- A finite double without a sign is read back from its positional text, as the only token there is.
The text has no exponent and denotes the same number as the text with an exponent would, namely the
shortest decimal of the double; and it is that text where no exponent is written. -/
theorem plain_is_read_back {x : Float} (h : IsLiteral x) (filename : String) :
    Lexer.tokenize (plain x) filename = .ok [⟨.number x, plain x, Location.behind filename []⟩] ∧
    ('e' ∉ (plain x).toList ∧ 'E' ∉ (plain x).toList) ∧
    (denoted? (plain x).toList = some (Decimal.shortest (magnitude x)).toRat ∧
      denoted? (natural x).toList = some (Decimal.shortest (magnitude x)).toRat) ∧
    ('e' ∉ (natural x).toList → plain x = natural x) := by
  have hplain : plain x = String.ofList (plainDigits (magnitude x)) := h.signed_eq plainDigits
  have hnatural : natural x = String.ofList (naturalDigits (magnitude x)) :=
    h.signed_eq naturalDigits
  refine ⟨?_, ⟨not_mem_plain h rfl, not_mem_plain h rfl⟩, ⟨?_, ?_⟩, fun hmem => ?_⟩
  · have hfits : Lexer.Factorisation.Fits ⟨[⟨[], (plain x).toList, .number x⟩], []⟩
        (plain x).toList [] :=
      ⟨List.append_nil _, .cons .nil (Lexer.lexeme_plain h) .nil, .nil⟩
    rw [hfits.tokenize filename, Lexer.Factorisation.tokens, Lexer.Segment.tokens,
      String.ofList_toList]
    rfl
  · rw [hplain, String.toList_ofList, denoted?_plainDigits]
  · rw [hnatural, String.toList_ofList, denoted?_naturalDigits]
  · rw [hnatural, String.toList_ofList] at hmem
    rw [hplain, hnatural, naturalDigits_eq_of_not_mem hmem]

/-- The text of a large double with an exponent and without, as they are written and read. -/
theorem plain_is_read_back_at_23_zeros :
    IsLiteral (ofMagnitude false 0x44B52D02C7E14AF6) ∧
      natural (ofMagnitude false 0x44B52D02C7E14AF6) = "1e+23" ∧
      plain (ofMagnitude false 0x44B52D02C7E14AF6) = "100000000000000000000000.0" ∧
      Lexer.tokenize "100000000000000000000000.0" "" =
        .ok [⟨.number (ofMagnitude false 0x44B52D02C7E14AF6), "100000000000000000000000.0",
          Location.behind "" []⟩] ∧
      denoted? "100000000000000000000000.0".toList = denoted? "1e+23".toList := by
  have hfinite : 0x44B52D02C7E14AF6 < infinity := by decide
  have hliteral := isLiteral_ofMagnitude hfinite
  have hplain : plain (ofMagnitude false 0x44B52D02C7E14AF6) = "100000000000000000000000.0" := by
    rw [plain, hliteral.1.signed_eq, hliteral.2]
    decide +kernel
  have hnatural : natural (ofMagnitude false 0x44B52D02C7E14AF6) = "1e+23" := by
    rw [natural, hliteral.1.signed_eq, hliteral.2]
    decide +kernel
  obtain ⟨htokens, _, ⟨hdenoted, hdenoted'⟩, _⟩ := plain_is_read_back hliteral.1 ""
  rw [hplain] at htokens hdenoted
  rw [hnatural] at hdenoted'
  exact ⟨hliteral.1, hnatural, hplain, htokens, hdenoted.trans hdenoted'.symm⟩

end Number

end Formulary
