import Mathlib.Data.List.Forall2
import Lumen.Store

/-!
# Collections that correspond place by place

Two arrays are aligned if they are of one length and what stands at the same place is related. The
changes that programs make to lists and scopes keep arrays aligned, and tables that bind the same
names to related values are looked up with related results.
-/

namespace Lumen

section

variable {α β γ δ : Type} {R : α → β → Prop} {T : γ → δ → Prop}

theorem rel_map {f : α → γ} {g : β → δ} {o : Option α} {o' : Option β} (h : Option.Rel R o o')
    (hfg : ∀ a b, R a b → T (f a) (g b)) : Option.Rel T (o.map f) (o'.map g) := by
  cases h with
  | some h => exact .some (hfg _ _ h)
  | none => exact .none

theorem eq_none_iff_of_rel {o : Option α} {o' : Option β} (h : Option.Rel R o o') :
    o = none ↔ o' = none := by
  cases h with
  | some _ => exact ⟨nofun, nofun⟩
  | none => exact ⟨fun _ => rfl, fun _ => rfl⟩

theorem rel_getD {o : Option α} {o' : Option β} {a : α} {b : β} (h : Option.Rel R o o')
    (hab : R a b) : R (o.getD a) (o'.getD b) := by
  cases h with
  | some h => exact h
  | none => exact hab

end

def Aligned {α β : Type} (R : α → β → Prop) (a : Array α) (b : Array β) : Prop :=
  ∀ i : Nat, Option.Rel R a[i]? b[i]?

namespace Aligned

variable {α β : Type} {R : α → β → Prop} {a a' : Array α} {b b' : Array β}

theorem size_eq (h : Aligned R a b) : a.size = b.size := by
  have hnone (i : Nat) : a.size ≤ i ↔ b.size ≤ i := by
    rw [← Array.getElem?_eq_none_iff, ← Array.getElem?_eq_none_iff]
    exact eq_none_iff_of_rel (h i)
  exact Nat.le_antisymm ((hnone b.size).mpr (Nat.le_refl _)) ((hnone a.size).mp (Nat.le_refl _))

theorem refl {R : α → α → Prop} (h : ∀ x ∈ a, R x x) : Aligned R a a := by
  intro i
  cases hi : a[i]? with
  | none => exact .none
  | some x => exact .some (h x (Array.mem_of_getElem? hi))

theorem getD {x : α} {y : β} (h : Aligned R a b) (hxy : R x y) (i : Nat) :
    R (a.getD i x) (b.getD i y) := by
  rw [Array.getD_eq_getD_getElem?, Array.getD_eq_getD_getElem?]
  exact rel_getD (h i) hxy

theorem push {x : α} {y : β} (h : Aligned R a b) (hxy : R x y) :
    Aligned R (a.push x) (b.push y) := by
  intro i
  rw [Array.getElem?_push, Array.getElem?_push, h.size_eq]
  split
  · exact .some hxy
  · exact h i

theorem append (h : Aligned R a b) (h' : Aligned R a' b') : Aligned R (a ++ a') (b ++ b') := by
  intro i
  rw [Array.getElem?_append, Array.getElem?_append, h.size_eq]
  split
  · exact h i
  · exact h' _

theorem extract (h : Aligned R a b) (i j : Nat) : Aligned R (a.extract i j) (b.extract i j) := by
  intro k
  rw [Array.getElem?_extract, Array.getElem?_extract, h.size_eq]
  split
  · exact h _
  · exact .none

theorem pop (h : Aligned R a b) : Aligned R a.pop b.pop := by
  intro i
  rw [Array.getElem?_pop, Array.getElem?_pop, h.size_eq]
  split
  · exact h i
  · exact .none

theorem setIfInBounds {x : α} {y : β} (h : Aligned R a b) (hxy : R x y) (i : Nat) :
    Aligned R (a.setIfInBounds i x) (b.setIfInBounds i y) := by
  intro j
  rw [Array.getElem?_setIfInBounds, Array.getElem?_setIfInBounds, h.size_eq]
  split
  · split
    · exact .some hxy
    · exact .none
  · exact h j

theorem toList (h : Aligned R a b) : List.Forall₂ R a.toList b.toList := by
  refine List.forall₂_iff_get.mpr ⟨h.size_eq, fun i hi hi' => ?_⟩
  have hrel := h i
  rw [Array.getElem?_eq_getElem hi, Array.getElem?_eq_getElem hi'] at hrel
  cases hrel with
  | some hrel => exact hrel

theorem of_forall₂ {xs : List α} {ys : List β} (h : List.Forall₂ R xs ys) :
    Aligned R xs.toArray ys.toArray := by
  intro i
  rw [List.getElem?_toArray, List.getElem?_toArray]
  induction h generalizing i with
  | nil => exact .none
  | cons hxy _ ih =>
    cases i with
    | zero => exact .some hxy
    | succ i => exact ih i

end Aligned

namespace Bindings

variable {R : Value → Value → Prop} {b b' : Bindings} {name : Scalar} {v v' : Value}

/-- The tables bind the same names in the same order, to related values. -/
def Aligned (R : Value → Value → Prop) (b b' : Bindings) : Prop :=
  List.Forall₂ (fun entry entry' => entry.1 = entry'.1 ∧ R entry.2 entry'.2) b b'

theorem Aligned.refl (h : ∀ entry ∈ b, R entry.2 entry.2) : Aligned R b b :=
  List.forall₂_same.mpr fun entry hentry => ⟨rfl, h entry hentry⟩

theorem Aligned.get? (h : Aligned R b b') (name : Scalar) :
    Option.Rel R (b.get? name) (b'.get? name) := by
  induction h with
  | nil => exact .none
  | @cons entry entry' b b' hentry _ ih =>
    obtain ⟨k, v⟩ := entry
    obtain ⟨k', v'⟩ := entry'
    obtain ⟨rfl, hv⟩ := hentry
    unfold Bindings.get?
    split
    · exact .some hv
    · exact ih

theorem Aligned.set (h : Aligned R b b') (hv : R v v') (name : Scalar) :
    Aligned R (b.set name v) (b'.set name v') := by
  induction h with
  | nil => exact .cons ⟨rfl, hv⟩ .nil
  | @cons entry entry' b b' hentry hrest ih =>
    obtain ⟨k, w⟩ := entry
    obtain ⟨k', w'⟩ := entry'
    obtain ⟨rfl, hw⟩ := hentry
    unfold Bindings.set
    split
    · exact .cons ⟨rfl, hv⟩ hrest
    · exact .cons ⟨rfl, hw⟩ ih

theorem Aligned.erase (h : Aligned R b b') (name : Scalar) :
    Aligned R (b.erase name) (b'.erase name) := by
  apply List.rel_filter _ h
  rintro ⟨k, v⟩ ⟨k', v'⟩ ⟨rfl, _⟩
  exact Iff.rfl

end Bindings

end Lumen
