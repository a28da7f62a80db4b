import Lumen.Double

/-!
# How doubles compare

Two doubles compare in one of three ways, or not at all when one of them is no number. Equality is
that of the numbers that they stand for: the two zeros are one number.
-/

open Float.Model
open Float.Model.UnpackedFloat

namespace Lumen.Double

def compare? (x y : Float) : Option Ordering := x.toModel.unpack.compare y.toModel.unpack

theorem beq_iff_compare {x y : Float} : x == y ↔ compare? x y = some .eq :=
  beq_iff_eq (α := Option Ordering)

theorem lt_iff_compare {x y : Float} : x < y ↔ compare? x y = some .lt := by
  have hlt : x < y ↔ (compare? x y == some .lt) := decide_eq_true_iff
  rw [hlt, beq_iff_eq]

theorem le_iff_compare {x y : Float} :
    x ≤ y ↔ compare? x y = some .lt ∨ compare? x y = some .eq := by
  have hle : x ≤ y ↔ (compare? x y).any (·.isLE) := decide_eq_true_iff
  rw [hle]
  rcases compare? x y with _ | _ | _ | _ <;> decide

theorem le_iff {x y : Float} : x ≤ y ↔ x < y ∨ x == y := by
  rw [le_iff_compare, lt_iff_compare, beq_iff_compare]

def numeral? : UnpackedFloat → Option UnpackedFloat
  | .notANumber => none
  | .zero _ => some (.zero .positive)
  | x => some x

theorem compare_sign_eq_iff (s t : Sign) : compare s t = .eq ↔ s = t := by
  cases s <;> cases t <;> simp <;> decide

theorem exists_some_iff {a b : UnpackedFloat} :
    (∃ k, some a = some k ∧ some b = some k) ↔ a = b :=
  ⟨fun ⟨_, ha, hb⟩ => Option.some.inj (ha.trans hb.symm), fun h => ⟨b, congrArg some h, rfl⟩⟩

theorem compare_finite_eq_iff {s t : Sign} {m n : Nat} {e f : Int} {hm : 0 < m} {hn : 0 < n} :
    (finite s m e hm).compare (finite t n f hn) = some .eq ↔ s = t ∧ m = n ∧ e = f := by
  have hthen : (compare e f).then (compare m n) = .eq ↔ m = n ∧ e = f := by
    rw [Ordering.then_eq_eq, Int.compare_eq_eq, Nat.compare_eq_eq, and_comm]
  cases s <;> cases t
  case positive.positive =>
    exact Option.some_inj.trans (hthen.trans (and_iff_right rfl).symm)
  case negative.negative =>
    exact Option.some_inj.trans (Ordering.swap_eq_eq.trans (hthen.trans (and_iff_right rfl).symm))
  all_goals exact iff_of_false nofun nofun

/-- What compares as equal are the numbers, each with itself. -/
theorem compare_eq_iff (a b : UnpackedFloat) :
    a.compare b = some .eq ↔ ∃ k, numeral? a = some k ∧ numeral? b = some k := by
  cases a with
  | notANumber => exact iff_of_false nofun fun ⟨_, h, _⟩ => nomatch h
  | zero s =>
    cases b with
    | notANumber => exact iff_of_false nofun fun ⟨_, _, h⟩ => nomatch h
    | zero t => exact iff_of_true rfl ⟨_, rfl, rfl⟩
    | infinity t | finite t =>
      refine iff_of_false (by cases t <;> nofun) ?_
      rintro ⟨_, ⟨⟩, ⟨⟩⟩
  | infinity s =>
    cases b with
    | notANumber => exact iff_of_false (by cases s <;> nofun) fun ⟨_, _, h⟩ => nomatch h
    | infinity t =>
      refine Iff.trans ?_ exists_some_iff.symm
      rw [infinity.injEq, ← compare_sign_eq_iff]
      exact Option.some_inj
    | zero | finite =>
      refine iff_of_false (by cases s <;> nofun) ?_
      rintro ⟨_, ⟨⟩, ⟨⟩⟩
  | finite s m e hm =>
    cases b with
    | notANumber => exact iff_of_false (by cases s <;> nofun) fun ⟨_, _, h⟩ => nomatch h
    | zero t =>
      refine iff_of_false (by cases s <;> nofun) ?_
      rintro ⟨_, ⟨⟩, ⟨⟩⟩
    | infinity t =>
      refine iff_of_false (by cases s <;> cases t <;> nofun) ?_
      rintro ⟨_, ⟨⟩, ⟨⟩⟩
    | finite t n f hn =>
      refine Iff.trans ?_ exists_some_iff.symm
      rw [finite.injEq]
      exact compare_finite_eq_iff

theorem beq_iff_numeral {x y : Float} :
    x == y ↔ ∃ k, numeral? x.toModel.unpack = some k ∧ numeral? y.toModel.unpack = some k := by
  rw [beq_iff_compare, compare?, compare_eq_iff]

theorem beq_comm (x y : Float) : (x == y) = (y == x) := by
  rw [Bool.eq_iff_iff, beq_iff_numeral, beq_iff_numeral]
  simp only [and_comm]

theorem beq_trans {x y z : Float} (hxy : x == y) (hyz : y == z) : x == z := by
  rw [beq_iff_numeral] at hxy hyz ⊢
  obtain ⟨k, hx, hy⟩ := hxy
  obtain ⟨l, hy', hz⟩ := hyz
  cases hy.symm.trans hy'
  exact ⟨k, hx, hz⟩

end Lumen.Double
