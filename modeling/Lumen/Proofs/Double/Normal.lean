import Mathlib
import Lumen.Double

/-!
# Normal doubles

A normal double is a significand of 53 binary digits with a sign and an exponent. A product or a
quotient that is such a number is that double, since rounding drops nothing but zeros. The bits of
the double hold the three, so they are its parts.
-/

open Float.Model
open Float.Model.UnpackedFloat

namespace Lumen.Double

/-- The significand and the exponent of a normal double. -/
structure IsNormal (m : Nat) (e : Int) : Prop where
  lower : 2 ^ 52 ≤ m
  upper : m < 2 ^ 53
  least : -1074 ≤ e
  greatest : e ≤ 971

section

variable {m k : Nat} {e : Int} {s : Sign}

theorem IsNormal.pos (h : IsNormal m e) : 0 < m := Nat.lt_of_lt_of_le (by decide) h.lower

theorem IsNormal.log2 (h : IsNormal m e) : m.log2 = 52 :=
  (Nat.log2_eq_iff h.pos.ne').mpr ⟨h.lower, h.upper⟩

theorem log2_mul_two_pow {n : Nat} (hn : 0 < n) (k : Nat) : (n * 2 ^ k).log2 = n.log2 + k := by
  have hpos : 0 < 2 ^ k := Nat.two_pow_pos k
  refine (Nat.log2_eq_iff (Nat.mul_pos hn hpos).ne').mpr ⟨?_, ?_⟩
  · rw [Nat.pow_add]
    exact Nat.mul_le_mul_right _ (Nat.log2_self_le hn.ne')
  · rw [Nat.add_right_comm, Nat.pow_add]
    exact Nat.mul_lt_mul_of_pos_right Nat.lt_log2_self hpos

def normal (s : Sign) (m : Nat) (e : Int) (h : IsNormal m e) : Float :=
  .ofModel (.pack (.finite s m e h.pos))

/-! ## Rounding -/

theorem targetExponent_eq (e : Int) :
    Format.binary64.targetExponent e = max (e - 53) (-1074) := by
  simp [Format.targetExponent, Format.mantissaBits, Format.minExponent]

/-- Zeros at the end are dropped without a trace. -/
theorem shiftRight_exact (m k : Nat) :
    (ExtendedMantissa.ofMantissaAndAccuracy (m * 2 ^ k) .exact >>> k) =
      ExtendedMantissa.ofMantissaAndAccuracy m .exact := by
  induction k generalizing m with
  | zero => simp [HShiftRight.hShiftRight, Nat.repeat]
  | succ k ih =>
    have hsplit : m * 2 ^ (k + 1) = m * 2 * 2 ^ k := by ring
    change ExtendedMantissa.shiftRightOne
      (ExtendedMantissa.ofMantissaAndAccuracy (m * 2 ^ (k + 1)) .exact >>> k) = _
    rw [hsplit, ih]
    simp [ExtendedMantissa.shiftRightOne, ExtendedMantissa.ofMantissaAndAccuracy]

theorem shiftToTargetExponent_exact (h : IsNormal m e) (k : Nat) :
    shiftToTargetExponent Format.binary64 (m * 2 ^ k) (e - k) .exact =
      (ExtendedMantissa.ofMantissaAndAccuracy m .exact, e) := by
  have htotal : totalExponent (m * 2 ^ k) (e - k) = e + 53 := by
    rw [totalExponent, log2_mul_two_pow h.pos, h.log2]
    push_cast
    ring
  have hleast := h.least
  have htarget : Format.binary64.targetExponent (e + 53) = e := by
    rw [targetExponent_eq]
    omega
  have hshift : (e - (e - k)).toNat = k := by omega
  rw [shiftToTargetExponent, htotal, htarget, shiftToExponent, hshift, shiftRight_exact]
  rw [Int.sub_add_cancel]

theorem roundWithAccuracy_exact (s : Sign) (h : IsNormal m e) (k : Nat) :
    roundWithAccuracy Format.binary64 s (m * 2 ^ k) (e - k) .exact = .finite s m e h.pos := by
  have hagain := shiftToTargetExponent_exact h 0
  rw [Nat.pow_zero, Nat.mul_one, Nat.cast_zero, Int.sub_zero] at hagain
  unfold roundWithAccuracy
  rw [shiftToTargetExponent_exact h k]
  change (let (final, exponent) := shiftToTargetExponent Format.binary64 m e .exact
    if h : final.mantissa = 0 then UnpackedFloat.zero s
    else .finite s final.mantissa exponent (Nat.pos_of_ne_zero h)) = _
  rw [hagain]
  exact dif_neg h.pos.ne'

/-! ## Bits -/

theorem toNat_packComponents (s : Sign) (b : BitVec 11) (f : BitVec 52) :
    (packComponents Format.binary64 s b f).toNat =
      s.toBitVec.toNat * (exponents * fractions) + b.toNat * fractions + f.toNat := by
  have happend : (packComponents Format.binary64 s b f).toNat =
      (s.toBitVec ++ b).toNat <<< 52 ||| f.toNat := BitVec.toNat_append ..
  rw [happend, ← Nat.shiftLeft_add_eq_or_of_lt f.isLt, BitVec.toNat_append,
    ← Nat.shiftLeft_add_eq_or_of_lt b.isLt, Nat.shiftLeft_eq, Nat.shiftLeft_eq, exponents, fractions]
  omega

theorem unpackSign_packComponents (f : Format) (s : Sign) (b : BitVec f.exponentBits)
    (m : BitVec f.mantissaBitsWithoutImplicit) :
    unpackSign (packComponents f s b m) = s.toBitVec := by
  apply BitVec.eq_of_getLsbD_eq
  intro i hi
  obtain rfl : i = 0 := by omega
  simp [unpackSign, packComponents, BitVec.getLsbD_append, BitVec.getElem_append]

/-- The exponent as it stands in the bits. -/
theorem IsNormal.biased (h : IsNormal m e) :
    ∃ b : Nat, (b : Int) = e + 1075 ∧ 0 < b ∧ b < 2047 := by
  have hleast := h.least
  have hgreatest := h.greatest
  exact ⟨(e + 1075).toNat, by omega, by omega, by omega⟩

theorem pack_normal (s : Sign) (h : IsNormal m e) {b : Nat} (hb : (b : Int) = e + 1075) :
    UnpackedFloat.pack Format.binary64 (.finite s m e h.pos) =
      packComponents Format.binary64 s (BitVec.ofNat 11 b) (BitVec.ofNat 52 m) := by
  have hbiased : (e + Format.binary64.exponentBias + Format.binary64.mantissaBitsWithoutImplicit).toNat
      = b := by
    simp [Format.exponentBias]
    omega
  have hgreatest := h.greatest
  unfold UnpackedFloat.pack
  dsimp only
  have hfits : ¬ 2 ^ 11 ≤ b + 1 := by omega
  rw [hbiased, h.log2, if_neg hfits]
  exact if_pos rfl

theorem toBits_normal (s : Sign) (h : IsNormal m e) {b : Nat} (hb : (b : Int) = e + 1075) :
    (normal s m e h).toBits.toNat =
      s.toBitVec.toNat * (exponents * fractions) + b * fractions + (m - fractions) := by
  have hgreatest := h.greatest
  have hlower := h.lower
  have hupper := h.upper
  have hbits : (normal s m e h).toBits.toNat =
      (UnpackedFloat.pack Format.binary64 (.finite s m e h.pos)).toNat := rfl
  have hfraction : m % 2 ^ 52 = m - fractions := by
    rw [fractions]
    omega
  rw [hbits, pack_normal s h hb, toNat_packComponents, BitVec.toNat_ofNat, BitVec.toNat_ofNat,
    Nat.mod_eq_of_lt (by omega), hfraction]

/-- The parts of a normal double are those that it was made of. -/
theorem parts_normal (s : Sign) (h : IsNormal m e) :
    parts (normal s m e h) = ⟨s.toBitVec.toNat == 1, m, e⟩ := by
  obtain ⟨b, hb, hpos, hlt⟩ := h.biased
  have hlower := h.lower
  have hupper := h.upper
  have hbits := toBits_normal s h hb
  have hsign : s.toBitVec.toNat < 2 := s.toBitVec.isLt
  have hfraction : m - fractions < fractions := by
    rw [fractions]
    omega
  have hdiv : (normal s m e h).toBits.toNat / (exponents * fractions) = s.toBitVec.toNat ∧
      (normal s m e h).toBits.toNat / fractions % exponents = b ∧
      (normal s m e h).toBits.toNat % fractions = m - fractions := by
    rw [hbits]
    rw [fractions] at hfraction ⊢
    rw [exponents]
    omega
  have hbiased : ((b : Int)) - 1075 = e := by omega
  have hsignificand : m - fractions + fractions = m := Nat.sub_add_cancel hlower
  unfold parts
  dsimp only
  rw [hdiv.1, hdiv.2.1, hdiv.2.2, if_neg hpos.ne', hbiased, hsignificand]

theorem unpack_normal (s : Sign) (h : IsNormal m e) :
    (normal s m e h).toModel.unpack = .finite s m e h.pos := by
  obtain ⟨b, hb, hpos, hlt⟩ := h.biased
  have hlower := h.lower
  have hupper := h.upper
  have hbits : (normal s m e h).toModel.unpack = UnpackedFloat.unpack Format.binary64
      (UnpackedFloat.pack Format.binary64 (.finite s m e h.pos)) := rfl
  have hall : BitVec.ofNat 11 b ≠ -1#11 := by
    intro heq
    have hvalue := congrArg BitVec.toNat heq
    rw [BitVec.toNat_ofNat] at hvalue
    change b % 2 ^ 11 = 2047 at hvalue
    omega
  have hnone : BitVec.ofNat 11 b ≠ 0#11 := by
    intro heq
    have hvalue := congrArg BitVec.toNat heq
    rw [BitVec.toNat_ofNat] at hvalue
    change b % 2 ^ 11 = 0 at hvalue
    omega
  have hsignificand : (1#1 ++ BitVec.ofNat 52 m).toNat = m := by
    rw [BitVec.toNat_append, ← Nat.shiftLeft_add_eq_or_of_lt (BitVec.isLt _), BitVec.toNat_ofNat]
    change 1 <<< 52 + m % 2 ^ 52 = m
    omega
  rw [hbits, pack_normal s h hb]
  unfold UnpackedFloat.unpack
  simp only [unpackMantissa_packComponents, unpackExponent_packComponents,
    unpackSign_packComponents, hall, hnone, if_false, hsignificand]
  have hsign : Sign.ofBitVec s.toBitVec = s := by cases s <;> rfl
  have hexponent : ((BitVec.ofNat 11 b).toNat : Int) -
      (Format.binary64.exponentBias + Format.binary64.mantissaBitsWithoutImplicit) = e := by
    rw [BitVec.toNat_ofNat]
    change ((b % 2 ^ 11 : Nat) : Int) - (1023 + 52) = e
    omega
  rw [hsign]
  congr 1

/-! ## Products and quotients -/

theorem isNormal_one : IsNormal (2 ^ 52) (-52) := ⟨by decide, by decide, by decide, by decide⟩

theorem one_eq_normal :
    Float.ofBits 0x3FF0000000000000 = normal .positive (2 ^ 52) (-52) isNormal_one := by
  decide +kernel

theorem neg_one_eq_normal : (-1 : Float) = normal .negative (2 ^ 52) (-52) isNormal_one := by
  decide +kernel

theorem normal_mul_neg_one (s : Sign) (h : IsNormal m e) :
    normal s m e h * -1 = normal (s * .negative) m e h := by
  have hmul : normal s m e h * -1 = .ofModel (.pack (UnpackedFloat.mul Format.binary64
      (normal s m e h).toModel.unpack (-1 : Float).toModel.unpack)) := rfl
  rw [hmul, neg_one_eq_normal, unpack_normal, unpack_normal]
  unfold UnpackedFloat.mul
  dsimp only
  rw [← Int.sub_eq_add_neg]
  exact congrArg (fun r => Float.ofModel (.pack r)) (roundWithAccuracy_exact (s * .negative) h 52)

theorem divCore_one (h : IsNormal m e) (hleast : -1074 < e) :
    divCore Format.binary64 m e (2 ^ 52) (-52) = (m * 2 ^ 1, e - (1 : Nat), .exact) := by
  have htotal : totalExponent m e - totalExponent (2 ^ 52) (-52) = e + 52 := by
    rw [totalExponent, totalExponent, h.log2, Nat.log2_two_pow]
    push_cast
    ring
  have htarget : min (e - -52) (Format.binary64.targetExponent (e + 52)) = e - 1 := by
    rw [targetExponent_eq]
    omega
  have hshift : (e - -52 - (e - 1)).toNat = 53 := by omega
  have hsplit : m <<< 53 = m * 2 ^ 1 * 2 ^ 52 := by
    rw [Nat.shiftLeft_eq]
    ring
  have hpos : 0 < 2 ^ 52 := by decide
  unfold divCore
  dsimp only
  rw [htotal, htarget, hshift, hsplit, Nat.mul_div_cancel _ hpos, Nat.mul_mod_left]
  rfl

theorem normal_div_one (h : IsNormal m e) (hleast : -1074 < e) :
    normal .positive m e h / Float.ofBits 0x3FF0000000000000 = normal .positive m e h := by
  have hdiv : normal .positive m e h / Float.ofBits 0x3FF0000000000000 =
      .ofModel (.pack (UnpackedFloat.div Format.binary64 (normal .positive m e h).toModel.unpack
        (Float.ofBits 0x3FF0000000000000).toModel.unpack)) := rfl
  rw [hdiv, one_eq_normal, unpack_normal, unpack_normal]
  unfold UnpackedFloat.div
  dsimp only
  rw [divCore_one h hleast]
  exact congrArg (fun r => Float.ofModel (.pack r)) (roundWithAccuracy_exact .positive h 1)

/-! ## Natural numbers -/

variable {n : Nat}

/-- A natural number of at most 53 binary digits is a double. -/
theorem toFloat_eq_normal (h : IsNormal (n * 2 ^ k) (-k)) (hn : n < 2 ^ 53) :
    n.toUInt64.toFloat = normal .positive (n * 2 ^ k) (-k) h := by
  have hpos : 0 < n := Nat.pos_of_mul_pos_right h.pos
  have hlog : n.log2 + k = 52 := (log2_mul_two_pow hpos k).symm.trans h.log2
  have htarget : Format.binary64.targetExponent (totalExponent n 0) = -k := by
    have hleast := h.least
    rw [targetExponent_eq, totalExponent]
    omega
  have hround : UnpackedFloat.round Format.binary64 .positive n 0 = .finite .positive (n * 2 ^ k) (-k) h.pos := by
    have hexact := roundWithAccuracy_exact .positive h 0
    rw [Nat.pow_zero, Nat.mul_one, Nat.cast_zero, Int.sub_zero] at hexact
    have hshift : ((0 : Int) - -k).toNat = k := by omega
    unfold UnpackedFloat.round decreaseExponent
    dsimp only
    rw [htarget, hshift, Nat.shiftLeft_eq, Int.zero_sub]
    exact hexact
  have hvalue : n.toUInt64.toNat = n := UInt64.toNat_ofNat_of_lt' (hn.trans (by decide))
  have hcompare : compare (n : Int) 0 = .gt := compare_gt_iff_gt.mpr (by omega)
  have hnormalize : n.toUInt64.toFloat =
      .ofModel (.pack (UnpackedFloat.normalize Format.binary64 n.toUInt64.toNat 0 .positive)) := rfl
  rw [hnormalize, hvalue]
  unfold UnpackedFloat.normalize
  rw [hcompare]
  dsimp only
  rw [Int.toNat_natCast, hround]
  rfl

theorem ofScientific_small (h : IsNormal (n * 2 ^ k) (-k)) (hn : n < 2 ^ 53) (hk : k ≤ 52) :
    Float.ofScientific n true 0 = normal .positive (n * 2 ^ k) (-k) h := by
  have hfast : Float.ofScientific n true 0 = n.toUInt64.toFloat / Float.ofBits 0x3FF0000000000000 :=
    dif_pos ⟨hn, by decide⟩
  rw [hfast, toFloat_eq_normal h hn]
  exact normal_div_one h (by omega)

theorem ofScientific_large (h : IsNormal m k) (hn : ¬ m * 2 ^ k < 2 ^ 53) :
    Float.ofScientific (m * 2 ^ k) true 0 = normal .positive m k h := by
  have hslow : Float.ofScientific (m * 2 ^ k) true 0 = .ofModel (.ofScientific (m * 2 ^ k) 0) :=
    dif_neg fun hfast => hn hfast.1
  have hne : m * 2 ^ k ≠ 0 := by omega
  have hdigits : ¬ (0 : Int) < -(2 ^ 11 + ((m * 2 ^ k).log2 : Int)) := by omega
  have hsplit : (m * 2 ^ k) <<< 53 * 10 ^ 0 = m * 2 ^ (k + 53) := by
    rw [Nat.shiftLeft_eq]
    ring
  have hexponent : ((k : Int) - (k + 53 : Nat)) = -53 := by omega
  have hexact := roundWithAccuracy_exact .positive h (k + 53)
  rw [← hsplit, hexponent] at hexact
  rw [hslow]
  unfold Float.Model.ofScientific UnpackedFloat.ofScientific
  rw [dif_neg hne, if_neg (by decide), if_neg hdigits, if_pos (by decide)]
  exact congrArg (fun r => Float.ofModel (.pack r)) hexact

end

end Lumen.Double
