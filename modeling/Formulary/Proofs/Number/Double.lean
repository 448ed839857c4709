import Formulary.Number.Notation
import Mathlib

/-!
# Bit patterns of doubles

A finite double is the same thing as its bit pattern: unpacking a pattern and packing it again gives
it back. So a double that is finite and has no sign is its magnitude, and every pattern below
`infinity` is the magnitude of such a double. Two of them are the same if they are equal as numbers.
-/

namespace Formulary.Number

open Float.Model (UnpackedFloat Format)
open Float.Model.UnpackedFloat

/-- The bits of a double. -/
abbrev Bits := BitVec Format.binary64.numBits

/-- A sign is its bit. -/
theorem toBitVec_ofBitVec (b : BitVec 1) : (Sign.ofBitVec b).toBitVec = b := by
  revert b
  decide

/-- The sign, the exponent and the fraction of a pattern make up the pattern. -/
theorem packComponents_fields (b : Bits) : packComponents Format.binary64
    (Sign.ofBitVec (unpackSign b)) (unpackExponent b) (unpackMantissa b) = b := by
  rw [packComponents, toBitVec_ofBitVec]
  apply BitVec.eq_of_getLsbD_eq
  intro i hi
  simp only [BitVec.getLsbD_append, unpackSign, unpackExponent, unpackMantissa]
  grind

/-- A fraction without the leading one is packed as a subnormal. -/
theorem pack_subnormal (s : Sign) (m : BitVec 52) (hm : 0 < m.toNat) :
    pack Format.binary64 (.finite s m.toNat (-1074) hm) = packComponents Format.binary64 s 0 m := by
  have hlog : m.toNat.log2 < 52 := (Nat.log2_lt (by omega)).mpr m.isLt
  have hsmall : ¬m.toNat.log2 + 1 = Format.binary64.mantissaBits := by
    intro h
    have h53 : Format.binary64.mantissaBits = 53 := rfl
    omega
  rw [UnpackedFloat.pack]
  simp only [if_neg hsmall]
  rw [if_neg (by decide), BitVec.ofNat_toNat, BitVec.setWidth_eq]
  rfl

/-- A leading one put in front of a fraction. -/
theorem toNat_one_append (m : BitVec 52) : (1#1 ++ m).toNat = 2 ^ 52 + m.toNat := by
  rw [BitVec.toNat_append, ← Nat.shiftLeft_add_eq_or_of_lt m.isLt]
  rfl

/-- A fraction with the leading one is packed with the exponent that it came with. -/
theorem pack_normal (s : Sign) (e : BitVec 11) (m : BitVec 52) (hne : e ≠ -1#11)
    (hm : 0 < (1#1 ++ m).toNat) :
    pack Format.binary64 (.finite s (1#1 ++ m).toNat ((e.toNat : Int) - 1075) hm) =
      packComponents Format.binary64 s e m := by
  have hlt := m.isLt
  have happend := toNat_one_append m
  have hlog : (1#1 ++ m).toNat.log2 + 1 = Format.binary64.mantissaBits := by
    have hle : 52 ≤ (1#1 ++ m).toNat.log2 := (Nat.le_log2 (by omega)).mpr (by omega)
    have hlt : (1#1 ++ m).toNat.log2 < 53 := (Nat.log2_lt (by omega)).mpr (by omega)
    have h53 : Format.binary64.mantissaBits = 53 := rfl
    omega
  have hexponent : ((e.toNat : Int) - 1075 + Format.binary64.exponentBias + (52 : Nat)).toNat =
      e.toNat := by
    have hbias : Format.binary64.exponentBias = 1023 := rfl
    omega
  have hfinite : ¬2 ^ 11 ≤ e.toNat + 1 := by
    intro h
    apply hne
    apply BitVec.eq_of_toNat_eq
    have := e.isLt
    rw [show (-1#11).toNat = 2 ^ 11 - 1 from rfl]
    omega
  rw [UnpackedFloat.pack]
  simp only [hexponent, if_neg hfinite, if_pos hlog]
  congr 1
  · rw [BitVec.ofNat_toNat, BitVec.setWidth_eq]
  · apply BitVec.eq_of_toNat_eq
    rw [BitVec.toNat_ofNat, happend]
    omega

/-- Unpacking a finite pattern and packing it again gives the pattern. -/
theorem pack_unpack {b : Bits} (h : unpackExponent b ≠ -1#11) :
    pack Format.binary64 (unpack Format.binary64 b) = b := by
  have hfields := packComponents_fields b
  rw [UnpackedFloat.unpack]
  simp only [if_neg h]
  by_cases hzero : unpackExponent b = 0#11
  · rw [if_pos hzero]
    by_cases hfraction : unpackMantissa b = 0#52
    · rw [dif_pos hfraction]
      rw [hzero, hfraction] at hfields
      exact hfields
    · rw [dif_neg hfraction]
      rw [hzero] at hfields ⊢
      exact (pack_subnormal _ _ _).trans hfields
  · rw [if_neg hzero]
    exact (pack_normal _ _ _ h _).trans hfields

/-- The exponent of a pattern. -/
theorem toNat_unpackExponent (b : Bits) :
    (unpackExponent b).toNat = b.toNat / 2 ^ 52 % 2 ^ 11 := by
  rw [unpackExponent, BitVec.toNat_cast, BitVec.extractLsb_toNat, Nat.shiftRight_eq_div_pow]
  rfl

/-- The exponent of a pattern is the greatest one just when nothing finite is left. -/
theorem unpackExponent_eq_iff (b : Bits) :
    unpackExponent b = -1#11 ↔ infinity ≤ b.toNat % signBit := by
  have hlt := b.isLt
  rw [← BitVec.toNat_inj, toNat_unpackExponent, show (-1#11).toNat = 2047 from rfl]
  unfold infinity signBit binade
  omega

/-- Only patterns with the greatest exponent are not finite. -/
theorem isFinite_unpack_iff (b : Bits) :
    (unpack Format.binary64 b).isFinite = true ↔ unpackExponent b ≠ -1#11 := by
  rw [UnpackedFloat.unpack]
  by_cases h : unpackExponent b = -1#11
  · simp only [if_pos h]
    refine iff_of_false ?_ (not_not_intro h)
    split <;> exact Bool.false_ne_true
  · simp only [if_neg h]
    refine iff_of_true ?_ h
    split
    · split <;> rfl
    · rfl

/-- A double is finite when its magnitude is below infinity. -/
theorem isFinite_iff (x : Float) : x.isFinite = true ↔ magnitude x < infinity := by
  have h := isFinite_unpack_iff x.toBits.toBitVec
  rw [Ne, unpackExponent_eq_iff, Nat.not_le] at h
  exact h

/-- Finite doubles are no other kind of double. -/
theorem not_isNaN_of_isFinite {x : Float} (h : x.isFinite = true) :
    x.isNaN = false ∧ x.isInf = false := by
  have hunpacked : x.toModel.unpack.isFinite = true := h
  show x.toModel.unpack.isNaN = false ∧ x.toModel.unpack.isInf = false
  cases hcase : x.toModel.unpack with
  | infinity s =>
    rw [hcase] at hunpacked
    contradiction
  | notANumber =>
    rw [hcase] at hunpacked
    contradiction
  | zero s => exact ⟨rfl, rfl⟩
  | finite s m e hm => exact ⟨rfl, rfl⟩

/-- Finite doubles are equal to themselves. -/
theorem beq_self_of_isFinite {x : Float} (h : x.isFinite = true) : (x == x) = true := by
  have hunpacked : x.toModel.unpack.isFinite = true := h
  show x.toModel.unpack.beq x.toModel.unpack = true
  cases hcase : x.toModel.unpack with
  | infinity s =>
    rw [hcase] at hunpacked
    contradiction
  | notANumber =>
    rw [hcase] at hunpacked
    contradiction
  | zero s => rfl
  | finite s m e hm => cases s <;> simp [UnpackedFloat.beq, UnpackedFloat.compare]

/-- Finite patterns are those of their doubles. -/
theorem toBits_ofBits {u : UInt64} (h : u.toNat % signBit < infinity) :
    (Float.ofBits u).toBits = u := by
  have hexponent : @unpackExponent Format.binary64 u.toBitVec ≠ -1#11 := by
    rw [Ne, unpackExponent_eq_iff, Nat.not_le]
    exact h
  exact congrArg UInt64.ofBitVec (pack_unpack hexponent)

/-- A double that a number word can have for its value: it is finite and has no sign. -/
structure IsLiteral (x : Float) : Prop where
  finite : x.isFinite = true
  unsigned : isNegative x = false

/-- The pattern of a double without a sign is its magnitude. -/
theorem toNat_toBits {x : Float} (h : isNegative x = false) : x.toBits.toNat = magnitude x := by
  have hlt := Nat.not_le.mp (of_decide_eq_false h)
  rw [magnitude, Nat.mod_eq_of_lt hlt]

/-- A finite double without a sign is that of its magnitude. -/
theorem IsLiteral.ofMagnitude_magnitude {x : Float} (h : IsLiteral x) :
    ofMagnitude false (magnitude x) = x := by
  have hbits : (Float.ofBits x.toBits).toBits = x.toBits :=
    toBits_ofBits ((isFinite_iff x).mp h.finite)
  rw [ofMagnitude, if_neg Bool.false_ne_true, ← toNat_toBits h.unsigned, UInt64.ofNat_toNat]
  cases x with
  | ofModel m =>
    cases hofBits : Float.ofBits (Float.ofModel m).toBits with
    | ofModel m' =>
      rw [hofBits] at hbits
      cases m
      cases m'
      cases hbits
      rfl

/-- Without a sign, a pattern has the positive sign. -/
theorem ofBitVec_unpackSign {b : Bits} (h : b.toNat < signBit) :
    Sign.ofBitVec (unpackSign b) = .positive := by
  have hzero : unpackSign b = 0#1 := by
    apply BitVec.eq_of_toNat_eq
    have hpow : 2 ^ (Format.binary64.mantissaBitsWithoutImplicit + Format.binary64.exponentBits) =
        signBit := rfl
    rw [unpackSign, BitVec.toNat_cast, BitVec.extractLsb_toNat, Nat.shiftRight_eq_div_pow, hpow,
      Nat.div_eq_of_lt h]
    rfl
  rw [hzero]
  rfl

/-- A finite double without a sign is the positive zero or a positive number. -/
theorem IsLiteral.unpack_positive {x : Float} (h : IsLiteral x) :
    x.toModel.unpack = .zero .positive ∨
      ∃ (m : Nat) (e : Int) (hm : 0 < m), x.toModel.unpack = .finite .positive m e hm := by
  have hfinite := (isFinite_unpack_iff x.toBits.toBitVec).mp h.finite
  have hsign : Sign.ofBitVec (@unpackSign Format.binary64 x.toBits.toBitVec) = .positive :=
    ofBitVec_unpackSign (Nat.not_le.mp (of_decide_eq_false h.unsigned))
  have hunpack : x.toModel.unpack = unpack Format.binary64 x.toBits.toBitVec := rfl
  rw [UnpackedFloat.unpack] at hunpack
  simp only [if_neg hfinite, hsign] at hunpack
  split at hunpack
  · split at hunpack
    · exact .inl hunpack
    · exact .inr ⟨_, _, _, hunpack⟩
  · exact .inr ⟨_, _, _, hunpack⟩

/-- Finite doubles without a sign that are equal as numbers are the same. -/
theorem IsLiteral.eq_of_beq {x y : Float} (hx : IsLiteral x) (hy : IsLiteral y)
    (h : (x == y) = true) : x = y := by
  have hcompare : x.toModel.unpack.beq y.toModel.unpack = true := h
  have hunpack : x.toModel.unpack = y.toModel.unpack := by
    rcases hx.unpack_positive with hx | ⟨m, e, hm, hx⟩
    · rcases hy.unpack_positive with hy | ⟨m', e', hm', hy⟩
      · rw [hx, hy]
      · rw [hx, hy] at hcompare
        contradiction
    · rcases hy.unpack_positive with hy | ⟨m', e', hm', hy⟩
      · rw [hx, hy] at hcompare
        contradiction
      · rw [hx, hy] at hcompare
        simp only [UnpackedFloat.beq, UnpackedFloat.compare, beq_iff_eq, Option.some.injEq,
          Ordering.then_eq_eq, compare_eq_iff_eq] at hcompare
        simp only [hx, hy, hcompare]
  have hpattern (x : Float) (hx : IsLiteral x) :
      pack Format.binary64 x.toModel.unpack = x.toBits.toBitVec :=
    pack_unpack ((isFinite_unpack_iff x.toBits.toBitVec).mp hx.finite)
  have hbits : x.toBits.toBitVec = y.toBits.toBitVec := by
    rw [← hpattern x hx, ← hpattern y hy, hunpack]
  have hmagnitude : magnitude x = magnitude y :=
    congrArg (fun b : Bits => b.toNat % signBit) hbits
  rw [← hx.ofMagnitude_magnitude, ← hy.ofMagnitude_magnitude, hmagnitude]

/-- Every magnitude below infinity is that of a finite double without a sign. -/
theorem isLiteral_ofMagnitude {bits : Nat} (h : bits < infinity) :
    IsLiteral (ofMagnitude false bits) ∧ magnitude (ofMagnitude false bits) = bits := by
  have hsign : infinity ≤ signBit := by decide
  have htoNat : (UInt64.ofNat bits).toNat = bits := by
    rw [UInt64.toNat_ofNat']
    unfold signBit at hsign
    omega
  have hmod : bits % signBit = bits := Nat.mod_eq_of_lt (by omega)
  have hbits : (ofMagnitude false bits).toBits = UInt64.ofNat bits := by
    rw [ofMagnitude, if_neg Bool.false_ne_true]
    apply toBits_ofBits
    rwa [htoNat, hmod]
  have hmagnitude : magnitude (ofMagnitude false bits) = bits := by
    rw [magnitude, hbits, htoNat, hmod]
  refine ⟨⟨?_, ?_⟩, hmagnitude⟩
  · rwa [isFinite_iff, hmagnitude]
  · rw [isNegative, hbits, htoNat]
    exact decide_eq_false (by omega)

/-- A finite double without a sign is written as its magnitude. -/
theorem IsLiteral.signed_eq {x : Float} (h : IsLiteral x) (write : Nat → List Char) :
    signed write x = String.ofList (write (magnitude x)) := by
  obtain ⟨hnan, hinf⟩ := not_isNaN_of_isFinite h.finite
  simp only [signed, hnan, hinf, h.unsigned, Bool.false_eq_true, if_false]

end Formulary.Number
