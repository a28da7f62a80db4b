import Lumen.Decimal.Layout
import Lumen.Decimal.Reader
import Lumen.Proofs.Double.Normal

/-!
# Whole doubles and their digits

The integer part of a finite double has at most 53 binary digits in front of zeros. So there is a
double that is this integer, and it is the one that the digits of the integer are read as.
-/

open Float.Model
open Float.Model.UnpackedFloat

namespace Lumen.Double

variable {x : Float} {m n k : Nat} {e : Int} {s : Sign}

/-! ## The parts of a finite double -/

theorem toNat_unpackExponent (b : BitVec Format.binary64.numBits) :
    (unpackExponent b).toNat = b.toNat / fractions % exponents := by
  unfold unpackExponent
  rw [BitVec.toNat_cast, BitVec.extractLsb_toNat, Nat.shiftRight_eq_div_pow]
  rfl

/-- The greatest exponent is not that of a finite double. -/
theorem parts_bounds (hx : x.isFinite) :
    (parts x).significand < 2 ^ 53 ∧ (parts x).exponent ≤ 971 := by
  have hbiased : x.toBits.toNat / fractions % exponents ≠ 2047 := by
    intro h
    have hall : @unpackExponent Format.binary64 x.toBits.toBitVec = -1#11 :=
      BitVec.eq_of_toNat_eq ((toNat_unpackExponent _).trans h)
    change (UnpackedFloat.unpack Format.binary64 x.toBits.toBitVec).isFinite = true at hx
    unfold UnpackedFloat.unpack at hx
    dsimp only at hx
    rw [if_pos hall] at hx
    split at hx <;> cases hx
  have hlt : x.toBits.toNat / fractions % exponents < exponents := Nat.mod_lt _ (by decide)
  have hfraction : x.toBits.toNat % fractions < fractions := Nat.mod_lt _ (by decide)
  unfold parts
  dsimp only
  rw [fractions, exponents] at *
  split
  · constructor <;> dsimp only <;> omega
  · constructor <;> dsimp only <;> omega

theorem isFinite_of_isWhole (h : isWhole x) : x.isFinite := (Bool.and_eq_true_iff.mp h).1

theorem natAbs_truncate (x : Float) :
    (truncate x).natAbs = shifted (parts x).significand (parts x).exponent := by
  unfold truncate
  dsimp only
  split
  · rw [Int.natAbs_neg, Int.natAbs_natCast]
  · rw [Int.natAbs_natCast]

theorem shifted_natCast (m k : Nat) : shifted m k = m * 2 ^ k := by
  rw [shifted, if_pos (Int.natCast_nonneg k), Int.toNat_natCast, Nat.shiftLeft_eq]

theorem shifted_neg (n k : Nat) : shifted (n * 2 ^ k) (-k) = n := by
  have hpos : 0 < 2 ^ k := Nat.two_pow_pos k
  cases k with
  | zero => simp [shifted]
  | succ k =>
    rw [shifted, if_neg (by omega), Int.neg_neg, Int.toNat_natCast, Nat.shiftRight_eq_div_pow,
      Nat.mul_div_cancel _ hpos]

theorem natAbs_truncate_eq (hx : x.isFinite) :
    ∃ a k, a < 2 ^ 53 ∧ k ≤ 971 ∧ (truncate x).natAbs = a * 2 ^ k := by
  obtain ⟨hsignificand, hexponent⟩ := parts_bounds hx
  rw [natAbs_truncate]
  by_cases hsign : 0 ≤ (parts x).exponent
  · refine ⟨(parts x).significand, (parts x).exponent.toNat, hsignificand, by omega, ?_⟩
    rw [shifted, if_pos hsign, Nat.shiftLeft_eq]
  · refine ⟨(parts x).significand >>> (-(parts x).exponent).toNat, 0, ?_, by omega, ?_⟩
    · exact Nat.lt_of_le_of_lt (Nat.shiftRight_le _ _) hsignificand
    · rw [shifted, if_neg hsign, Nat.pow_zero, Nat.mul_one]

/-! ## Normal doubles that are whole -/

theorem whole_normal (s : Sign) (h : IsNormal m e) (hwhole : 0 ≤ e ∨ m % 2 ^ (-e).toNat = 0) :
    isWhole (normal s m e h) ∧ truncate (normal s m e h) = s.apply (shifted m e) := by
  have hfinite : (normal s m e h).isFinite = true := by
    change (normal s m e h).toModel.unpack.isFinite = true
    rw [unpack_normal]
    rfl
  constructor
  · unfold isWhole
    rw [hfinite, parts_normal]
    simpa using hwhole
  · unfold truncate
    rw [parts_normal]
    cases s <;> rfl

/-- The digits of a natural number with at most 53 binary digits in front of zeros are read as that
number. -/
theorem ofScientific_whole {a : Nat} (ha : a < 2 ^ 53) (hk : k ≤ 971) (hpos : 0 < a * 2 ^ k) :
    ∃ m e, ∃ h : IsNormal m e, Float.ofScientific (a * 2 ^ k) true 0 = normal .positive m e h ∧
      shifted m e = a * 2 ^ k ∧ (0 ≤ e ∨ m % 2 ^ (-e).toNat = 0) := by
  have hlower := Nat.log2_self_le hpos.ne'
  have hupper := Nat.lt_log2_self (n := a * 2 ^ k)
  generalize hn : a * 2 ^ k = n at *
  by_cases hsmall : n < 2 ^ 53
  · have hlog : n.log2 < 53 := (Nat.log2_lt hpos.ne').mpr hsmall
    obtain ⟨j, hj⟩ : ∃ j, n.log2 + j = 52 := ⟨52 - n.log2, by omega⟩
    have hnormal : IsNormal (n * 2 ^ j) (-j) := by
      refine ⟨?_, ?_, by omega, by omega⟩
      · rw [← hj, Nat.pow_add]
        exact Nat.mul_le_mul_right _ hlower
      · rw [show 53 = n.log2 + 1 + j by omega, Nat.pow_add]
        exact Nat.mul_lt_mul_of_pos_right hupper (Nat.two_pow_pos j)
    refine ⟨_, _, hnormal, ofScientific_small hnormal hsmall (by omega), shifted_neg n j, .inr ?_⟩
    rw [Int.neg_neg, Int.toNat_natCast, Nat.mul_mod_left]
  · have ha0 : 0 < a := Nat.pos_of_mul_pos_right (hn ▸ hpos)
    have hlog : n.log2 = a.log2 + k := hn ▸ log2_mul_two_pow ha0 k
    have hloga : a.log2 < 53 := (Nat.log2_lt ha0.ne').mpr ha
    have hlarge : 53 ≤ n.log2 := (Nat.le_log2 hpos.ne').mpr (Nat.le_of_not_lt hsmall)
    obtain ⟨j, hj⟩ : ∃ j, n.log2 = 52 + j := ⟨n.log2 - 52, by omega⟩
    have hsplit : n = a * 2 ^ (k - j) * 2 ^ j := by
      rw [Nat.mul_assoc, ← Nat.pow_add, Nat.sub_add_cancel (by omega), hn]
    generalize a * 2 ^ (k - j) = m at hsplit
    have hnormal : IsNormal m j := by
      rw [hj, hsplit] at hlower hupper
      rw [Nat.pow_add] at hlower
      rw [Nat.add_right_comm, Nat.pow_add] at hupper
      exact ⟨Nat.le_of_mul_le_mul_right hlower (Nat.two_pow_pos j),
        Nat.lt_of_mul_lt_mul_right hupper, by omega, by omega⟩
    refine ⟨m, j, hnormal, ?_, ?_, .inl (Int.natCast_nonneg j)⟩
    · rw [hsplit] at hsmall ⊢
      exact ofScientific_large hnormal hsmall
    · rw [shifted_natCast, ← hsplit]

/-- The digits of the integer part of a finite double are read as that integer, and a sign in front
of them makes it negative. -/
theorem whole_of_digits (hx : x.isFinite) :
    let n := (truncate x).natAbs
    let y := Float.ofScientific n true 0
    (isWhole y ∧ truncate y = n) ∧ isWhole (y * -1) ∧ truncate (y * -1) = -n := by
  obtain ⟨a, k, ha, hk, hn⟩ := natAbs_truncate_eq hx
  rw [hn]
  rcases Nat.eq_zero_or_pos (a * 2 ^ k) with hzero | hpos
  · rw [hzero]
    decide +kernel
  · obtain ⟨m, e, h, hread, hshifted, hwhole⟩ := ofScientific_whole ha hk hpos
    obtain ⟨hpositive, hvalue⟩ := whole_normal .positive h hwhole
    obtain ⟨hnegative, hvalue'⟩ := whole_normal .negative h hwhole
    have hproduct : normal .positive m e h * -1 = normal .negative m e h :=
      normal_mul_neg_one .positive h
    dsimp only
    rw [hread, hproduct, hvalue, hvalue', hshifted]
    exact ⟨⟨hpositive, rfl⟩, hnegative, rfl⟩

end Lumen.Double
