import Mathlib.Data.List.Forall2
import Lumen.Tree

/-!
# Room for documents

Reading and writing take room for every level of a document. Where there is too little the document
is too deep; where there is enough, more makes no difference. A document has room for a tree just if
it has room for the levels of the tree.
-/

namespace Lumen

/-! ## One thing after another -/

section

variable {α β : Type} {f g : α → Except Fault β} {e : Fault} {as : List α} {bs : List β}

theorem bind_eq_ok {x : Except Fault α} {b : β} (h : x >>= f = .ok b) :
    ∃ a, x = .ok a ∧ f a = .ok b := by
  cases x with
  | error e => cases h
  | ok a => exact ⟨a, rfl, h⟩

theorem bind_ne {x : Except Fault α} (hx : x ≠ .error e) (hf : ∀ a, f a ≠ .error e) :
    x >>= f ≠ .error e := by
  cases x with
  | error e' =>
    rintro ⟨⟩
    exact hx rfl
  | ok a => exact hf a

theorem ok_ne_error (a : α) : (.ok a : Except Fault α) ≠ .error e := by
  rintro ⟨⟩

/-- A step that is the same unless it ends in one fault, before another of the kind. -/
theorem bind_congr_of_ne {x y : Except Fault α} (hx : x ≠ .error e → y = x)
    (hf : ∀ a, f a ≠ .error e → g a = f a) (h : x >>= f ≠ .error e) : y >>= g = x >>= f := by
  cases x with
  | error e' =>
    have hne : (.error e' : Except Fault α) ≠ .error e := by
      rintro ⟨⟩
      exact h rfl
    rw [hx hne]
    rfl
  | ok a =>
    rw [hx (ok_ne_error a)]
    exact hf a h

theorem mapM_eq_ok : as.mapM f = .ok bs ↔ List.Forall₂ (fun a b => f a = .ok b) as bs := by
  induction as generalizing bs with
  | nil =>
    rw [List.mapM_nil, List.forall₂_nil_left_iff]
    exact ⟨fun h => (Except.ok.inj h).symm, fun h => h ▸ rfl⟩
  | cons a as ih =>
    rw [List.mapM_cons, List.forall₂_cons_left_iff]
    constructor
    · intro h
      obtain ⟨b, hb, h⟩ := bind_eq_ok h
      obtain ⟨bs', hbs, h⟩ := bind_eq_ok h
      cases h
      exact ⟨b, bs', hb, ih.mp hbs, rfl⟩
    · rintro ⟨b, bs', hb, hbs, rfl⟩
      rw [hb, ih.mpr hbs]
      rfl

theorem forall_mem_of_mapM {P : β → Prop} (h : as.mapM f = .ok bs)
    (hP : ∀ a b, f a = .ok b → P b) : ∀ b ∈ bs, P b := by
  induction mapM_eq_ok.mp h with
  | nil => exact fun _ h => (List.not_mem_nil h).elim
  | cons hab hrest ih => exact List.forall_mem_cons.mpr ⟨hP _ _ hab, ih (mapM_eq_ok.mpr hrest)⟩

theorem mapM_ok_of_ok (h : as.mapM f = .ok bs)
    (hg : ∀ a, ∀ b ∈ bs, f a = .ok b → g a = .ok b) : as.mapM g = .ok bs := by
  rw [mapM_eq_ok] at h ⊢
  induction h with
  | nil => exact .nil
  | cons hab _ ih =>
    exact .cons (hg _ _ List.mem_cons_self hab)
      (ih fun a b hb => hg a b (List.mem_cons_of_mem _ hb))

theorem mapM_ne (hf : ∀ a ∈ as, f a ≠ .error e) : as.mapM f ≠ .error e := by
  induction as with
  | nil => exact ok_ne_error []
  | cons a as ih =>
    obtain ⟨ha, has⟩ := List.forall_mem_cons.mp hf
    rw [List.mapM_cons]
    exact bind_ne ha fun b => bind_ne (ih has) fun bs => ok_ne_error (b :: bs)

theorem mapM_congr_of_ne (hf : ∀ a ∈ as, f a ≠ .error e → g a = f a)
    (h : as.mapM f ≠ .error e) : as.mapM g = as.mapM f := by
  induction as with
  | nil => rfl
  | cons a as ih =>
    obtain ⟨ha, has⟩ := List.forall_mem_cons.mp hf
    rw [List.mapM_cons] at h
    rw [List.mapM_cons, List.mapM_cons]
    refine bind_congr_of_ne ha (fun b hb => ?_) h
    exact bind_congr_of_ne (fun hne => ih has hne) (fun _ _ => rfl) hb

/-- Where the only thing that can be wrong with an item is always the same. -/
theorem mapM_ite {p : α → Prop} [DecidablePred p] {value : α → β}
    (hf : ∀ a ∈ as, f a = if p a then .ok (value a) else .error e) :
    as.mapM f = if ∀ a ∈ as, p a then .ok (as.map value) else .error e := by
  induction as with
  | nil => rfl
  | cons a as ih =>
    obtain ⟨ha, has⟩ := List.forall_mem_cons.mp hf
    rw [List.mapM_cons, ha, ih has]
    simp only [List.forall_mem_cons]
    by_cases hp : p a
    · by_cases hps : ∀ a ∈ as, p a
      · simp only [if_pos hp, if_pos hps, if_pos (And.intro hp hps)]
        rfl
      · simp only [if_pos hp, if_neg hps, if_neg fun h : _ ∧ _ => hps h.2]
        rfl
    · simp only [if_neg hp, if_neg fun h : _ ∧ _ => hp h.1]
      rfl

end

/-! ## Levels -/

namespace Json

mutual

def levels : Json → Nat
  | scalar _ => 1
  | list items => levelsOfItems items + 1
  | object fields => levelsOfFields fields + 1

def levelsOfItems : List Json → Nat
  | [] => 0
  | j :: js => max (levels j) (levelsOfItems js)

def levelsOfFields : List (String × Json) → Nat
  | [] => 0
  | (_, j) :: rest => max (levels j) (levelsOfFields rest)

end

theorem levels_le_levelsOfItems {items : List Json} :
    ∀ j ∈ items, j.levels ≤ levelsOfItems items := by
  induction items with
  | nil => exact fun _ h => (List.not_mem_nil h).elim
  | cons i items ih =>
    rw [levelsOfItems]
    exact List.forall_mem_cons.mpr
      ⟨Nat.le_max_left .., fun j hj => Nat.le_trans (ih j hj) (Nat.le_max_right ..)⟩

theorem levels_le_levelsOfFields {fields : List (String × Json)} {key : String} {j : Json}
    (h : fields.lookup key = some j) : j.levels ≤ levelsOfFields fields := by
  induction fields with
  | nil => cases h
  | cons field fields ih =>
    obtain ⟨other, i⟩ := field
    rw [List.lookup_cons] at h
    rw [levelsOfFields]
    split at h
    · exact Option.some.inj h ▸ Nat.le_max_left ..
    · exact Nat.le_trans (ih h) (Nat.le_max_right ..)

end Json

namespace Tree

mutual

def levels : Tree → Nat
  | scalar _ | position _ | token .. => 1
  | list items => levelsOfAll items + 1
  | node _ fields => levelsOfAll fields + 1

def levelsOfAll : List Tree → Nat
  | [] => 0
  | t :: ts => max (levels t) (levelsOfAll ts)

end

variable {depth depth' : Nat} {j : Json} {t : Tree}

theorem levels_pos (t : Tree) : 0 < t.levels := by
  cases t <;> rw [levels] <;> exact Nat.succ_pos _

theorem levelsOfAll_le {ts : List Tree} : levelsOfAll ts ≤ depth ↔ ∀ t ∈ ts, t.levels ≤ depth := by
  induction ts with
  | nil => simp [levelsOfAll]
  | cons t ts ih => rw [levelsOfAll, Nat.max_le, ih, List.forall_mem_cons]

theorem toItems_eq_map (ts : List Tree) : toItems ts = ts.map toJson := by
  induction ts with
  | nil => rw [toItems, List.map_nil]
  | cons t ts ih => rw [toItems, ih, List.map_cons]

/-- A tree is written where there is room for its levels. -/
theorem write_eq (depth : Nat) (t : Tree) :
    t.write depth = if t.levels ≤ depth then .ok t.toJson else .error .documentTooDeep := by
  induction depth generalizing t with
  | zero => rw [write, if_neg (Nat.not_le_of_lt t.levels_pos)]
  | succ depth ih =>
    have hparts (ts : List Tree) : ts.mapM (write depth) =
        if levelsOfAll ts ≤ depth then .ok (toItems ts) else .error .documentTooDeep := by
      rw [mapM_ite fun t _ => ih t, toItems_eq_map]
      simp only [levelsOfAll_le]
    cases t with
    | list items =>
      rw [write, hparts, levels, toJson]
      simp only [Nat.succ_le_succ_iff]
      split <;> rfl
    | node kind fields =>
      rw [write, hparts, levels, toJson]
      simp only [Nat.succ_le_succ_iff]
      split <;> rfl
    | _ => rw [write, levels, if_pos (Nat.succ_le_succ depth.zero_le)] <;> nofun

/-! ## The shapes of objects -/

def IsPosition (fields : List (String × Json)) : Prop :=
  marker fields "__type__" = .text "Position"

def IsToken (fields : List (String × Json)) : Prop := marker fields "__type__" = .text "Token"

/-- All other objects are nodes. -/
def IsNode (fields : List (String × Json)) : Prop := ¬ IsPosition fields ∧ ¬ IsToken fields

variable {fields : List (String × Json)}

theorem isPosition_or (fields : List (String × Json)) :
    IsPosition fields ∨ IsToken fields ∨ IsNode fields := by
  by_cases hposition : IsPosition fields
  · exact .inl hposition
  · by_cases htoken : IsToken fields
    · exact .inr (.inl htoken)
    · exact .inr (.inr ⟨hposition, htoken⟩)

theorem ofJson_of_isPosition (h : IsPosition fields) : ofJson (depth + 1) (.object fields) =
    (Json.object fields).need "value" >>= fun j =>
      Place.ofJson j >>= fun p => .ok (position p) := by
  rw [ofJson, show marker fields "__type__" = .scalar (.text "Position") from h]
  rfl

theorem ofJson_of_isToken (h : IsToken fields) :
    ofJson (depth + 1) (.object fields) = tokenOfJson fields := by
  rw [ofJson, show marker fields "__type__" = .scalar (.text "Token") from h]
  rfl

theorem ofJson_of_isNode (h : IsNode fields) : ofJson (depth + 1) (.object fields) =
    nodeKind (marker fields "type") >>= fun kind =>
      readFields (ofJson depth) (.object fields) kind.fields >>= fun ts => .ok (node kind ts) := by
  rw [ofJson]
  split
  · next hmarker => exact (h.1 hmarker).elim
  · next hmarker => exact (h.2 hmarker).elim
  · rfl

/-! ## Reading with more room -/

/-- More room makes no difference to what has been read in less. -/
theorem ofJson_of_le (h : ofJson depth j ≠ .error .documentTooDeep) (hdepth : depth ≤ depth') :
    ofJson depth' j = ofJson depth j := by
  induction depth generalizing depth' j with
  | zero => exact (h (by rw [ofJson])).elim
  | succ depth ih =>
    obtain _ | depth' := depth'
    · exact (Nat.not_succ_le_zero _ hdepth).elim
    have hle := Nat.le_of_succ_le_succ hdepth
    cases j with
    | scalar s => rw [ofJson, ofJson]
    | list items =>
      rw [ofJson] at h
      rw [ofJson, ofJson]
      refine bind_congr_of_ne (fun hitems => ?_) (fun _ _ => rfl) h
      exact mapM_congr_of_ne (fun i _ hi => ih hi hle) hitems
    | object fields =>
      rcases isPosition_or fields with hposition | htoken | hnode
      · rw [ofJson_of_isPosition hposition, ofJson_of_isPosition hposition]
      · rw [ofJson_of_isToken htoken, ofJson_of_isToken htoken]
      · rw [ofJson_of_isNode hnode] at h
        rw [ofJson_of_isNode hnode, ofJson_of_isNode hnode]
        refine bind_congr_of_ne (fun _ => rfl) (fun kind hkind => ?_) h
        refine bind_congr_of_ne (fun hfields => ?_) (fun _ _ => rfl) hkind
        refine mapM_congr_of_ne (fun key _ hkey => ?_) hfields
        exact bind_congr_of_ne (fun _ => rfl) (fun i hi => ih hi hle) hkey

end Tree

end Lumen
