import Mathlib.Data.Fintype.EquivFin
import Mathlib.Order.Filter.AtTopBot.Basic
import Mathlib.Order.Filter.Finite
import Lumen.Store.Display

/-!
# Which lists have a text

The text of a list asks for the texts of all that is nested in it. It comes to an end, in one room
or another, if and only if no list that is met on the way contains itself and no element is a text
that holds something else. Whether the list itself is one of those that contain themselves is only
a part of that.
-/

namespace Lumen.Store

open Relation

variable {s : Store} {form : Form} {l l' : ListId}

def HasElement (s : Store) (l l' : ListId) : Prop := ∃ v ∈ s.elements l, v.payload = .list l'

/-- The second list is found in the first one, directly or through nested lists. -/
def Contains (s : Store) : ListId → ListId → Prop := TransGen s.HasElement

/-- No list that is met in a list contains itself, nor does the list, and no element is a text that
holds something else. -/
def HasText (s : Store) (l : ListId) : Prop :=
  ∀ l', ReflTransGen s.HasElement l l' →
    ¬ s.Contains l' l' ∧ ∀ v ∈ s.elements l', v.payload.isDatum = false

theorem HasText.element (h : s.HasText l) (hl : s.HasElement l l') : s.HasText l' :=
  fun k hk => h k (.head hl hk)

/-- A list without lists and without texts that hold something else. -/
theorem hasText_of_plain
    (h : ∀ v ∈ s.elements l, (∀ l', v.payload ≠ .list l') ∧ v.payload.isDatum = false) :
    s.HasText l := by
  have hnone (k : ListId) : ¬ s.HasElement l k := fun ⟨v, hv, hk⟩ => (h v hv).1 k hk
  intro l' hl
  rcases ReflTransGen.cases_head hl with rfl | ⟨k, hk, -⟩
  · refine ⟨fun hcycle => ?_, fun v hv => (h v hv).2⟩
    obtain ⟨k, hk, -⟩ := TransGen.head'_iff.mp hcycle
    exact hnone k hk
  · exact (hnone k hk).elim

theorem lt_size_of_hasElement (h : s.HasElement l l') : l < s.lists.size := by
  obtain ⟨v, hv, -⟩ := h
  exact lt_size_of_elements (Array.size_pos_of_mem hv)

/-- Going from a list to its elements ends. The store has finitely many lists, and none is met
again. -/
theorem HasText.accessible (h : s.HasText l) : Acc (fun k' k => s.HasElement k k') l := by
  -- Among the lists that are met, being contained is transitive, and no list is below itself.
  let Below (k' k : Fin s.lists.size) : Prop :=
    s.Contains k k' ∧ ReflTransGen s.HasElement l k
  have : IsTrans _ Below := ⟨fun _ _ _ hab hbc => ⟨hbc.1.trans hab.1, hbc.2⟩⟩
  have : Std.Irrefl Below := ⟨fun k hk => (h k hk.2).1 hk.1⟩
  have hbelow : WellFounded Below := Finite.wellFounded_of_trans_of_irrefl Below
  have hbeyond {k : ListId} (hk : ¬ k < s.lists.size) : Acc (fun k' k => s.HasElement k k') k :=
    ⟨_, fun _ hk' => absurd (lt_size_of_hasElement hk') hk⟩
  have hmet (k : Fin s.lists.size) :
      ReflTransGen s.HasElement l k → Acc (fun k' k => s.HasElement k k') k.1 := by
    induction k using hbelow.induction with
    | h k ih =>
      refine fun hk => ⟨_, fun k' hk' => ?_⟩
      by_cases hsize : k' < s.lists.size
      · exact ih ⟨k', hsize⟩ ⟨.single hk', hk⟩ (hk.tail hk')
      · exact hbeyond hsize
  by_cases hsize : l < s.lists.size
  · exact hmet ⟨l, hsize⟩ .refl
  · exact hbeyond hsize

theorem obstacle?_list {room : Nat} {v : Value} (hv : v.payload = .list l) :
    s.obstacle? form (room + 1) v = (s.elements l).toList.findSome? (s.obstacle? form room) := by
  rw [obstacle?, hv]

/-- What is neither a list nor a text that holds something else has a text in any room. -/
theorem obstacle?_plain {room : Nat} {v : Value} (hlist : ∀ l, v.payload ≠ .list l)
    (hdatum : v.payload.isDatum = false) : s.obstacle? form (room + 1) v = none := by
  obtain ⟨p, sp⟩ := v
  cases p with
  | list l => exact (hlist l rfl).elim
  | datum j => cases hdatum
  | _ => rfl

open Filter in
/-- A list that meets none that contains itself has a text in any room that is large enough. -/
theorem HasText.eventually (h : s.HasText l) (form : Form) : ∀ᶠ room in atTop,
    ∀ v : Value, v.payload = .list l → s.obstacle? form room v = none := by
  induction h.accessible with
  | intro l _ ih =>
    have helement (v : Value) (hv : v ∈ (s.elements l).toList) :
        ∀ᶠ room in atTop, s.obstacle? form room v = none := by
      have hmem := Array.mem_toList_iff.mp hv
      by_cases hlist : ∃ k, v.payload = .list k
      · obtain ⟨k, hk⟩ := hlist
        have hk' : s.HasElement l k := ⟨v, hmem, hk⟩
        exact (ih k hk' (h.element hk')).mono fun room hroom => hroom v hk
      · filter_upwards [eventually_gt_atTop 0] with room hroom
        obtain ⟨room, rfl⟩ := Nat.exists_eq_succ_of_ne_zero hroom.ne'
        exact obstacle?_plain (not_exists.mp hlist) ((h l .refl).2 v hmem)
    have hall : ∀ᶠ room in atTop, ∀ v ∈ (s.elements l).toList, s.obstacle? form room v = none :=
      (eventually_all_finite (List.finite_toSet _)).mpr helement
    obtain ⟨enough, hrooms⟩ := eventually_atTop.mp hall
    filter_upwards [eventually_gt_atTop enough] with room hroom v hv
    obtain ⟨room, rfl⟩ := Nat.exists_eq_succ_of_ne_zero (Nat.ne_zero_of_lt hroom)
    rw [obstacle?_list hv, List.findSome?_eq_none_iff]
    exact hrooms room (Nat.le_of_lt_succ hroom)

/-- A list that has a text does not meet one that contains itself. -/
theorem accessible_of_obstacle? {room : Nat} {v : Value} (hv : v.payload = .list l)
    (h : s.obstacle? form room v = none) : Acc (fun k' k => s.HasElement k k') l := by
  induction room generalizing v l with
  | zero => cases h
  | succ room ih =>
    rw [obstacle?_list hv, List.findSome?_eq_none_iff] at h
    refine ⟨_, fun k ⟨w, hw, hk⟩ => ih hk (h w (Array.mem_toList_iff.mpr hw))⟩

theorem not_contains_of_accessible (h : Acc (fun k' k => s.HasElement k k') l) :
    ¬ s.Contains l l := by
  induction h with
  | intro l _ ih =>
    intro hcycle
    obtain ⟨k, hlk, hkl⟩ := TransGen.head'_iff.mp hcycle
    exact ih k hlk (TransGen.tail' hkl hlk)

theorem accessible_of_reflTransGen (h : Acc (fun k' k => s.HasElement k k') l)
    (hl : ReflTransGen s.HasElement l l') : Acc (fun k' k => s.HasElement k k') l' := by
  induction hl with
  | refl => exact h
  | tail _ hk ih => exact ih.inv hk

/-- Where a list contains itself, what it is met in has no text, whatever room there is. -/
theorem exists_obstacle_of_contains {room : Nat} {v : Value} (hv : v.payload = .list l)
    (hl : ReflTransGen s.HasElement l l') (hcycle : s.Contains l' l') :
    ∃ o, s.obstacle? form room v = some o := by
  cases h : s.obstacle? form room v with
  | some o => exact ⟨o, rfl⟩
  | none =>
    have hacc := accessible_of_reflTransGen (accessible_of_obstacle? hv h) hl
    exact (not_contains_of_accessible hacc hcycle).elim

end Lumen.Store
