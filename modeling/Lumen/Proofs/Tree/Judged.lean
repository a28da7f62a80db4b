import Lumen.Tree.Node

/-!
# Fields read in order

What reads a document is judged by two conditions: one under which it gives something, and one for
each fault. An object is read field by field, and the first that is missing or holds the wrong thing
is to blame. Places and names are read so.
-/

namespace Lumen

/-- A result is good under one condition, and a fault under one condition for each. -/
structure Judged {α : Type} (r : Except Fault α) (good : Prop) (bad : Fault → Prop) : Prop where
  ok_iff : (∃ a, r = .ok a) ↔ good
  error_iff : ∀ f, r = .error f ↔ bad f

namespace Judged

variable {α β : Type} {good : Prop} {bad : Fault → Prop}

theorem ok {a : α} (hgood : good) (hbad : ∀ f, ¬ bad f) : Judged (.ok a) good bad where
  ok_iff := ⟨fun _ => hgood, fun _ => ⟨a, rfl⟩⟩
  error_iff f := ⟨nofun, fun h => (hbad f h).elim⟩

theorem error {f : Fault} (hgood : ¬ good) (hbad : ∀ g, bad g ↔ f = g) :
    Judged (.error f : Except Fault α) good bad where
  ok_iff := ⟨nofun, fun h => (hgood h).elim⟩
  error_iff g := by rw [hbad, Except.error.injEq]

theorem congr {r : Except Fault α} {good' : Prop} {bad' : Fault → Prop} (h : Judged r good bad)
    (hgood : good ↔ good') (hbad : ∀ f, bad f ↔ bad' f) : Judged r good' bad' where
  ok_iff := h.ok_iff.trans hgood
  error_iff f := (h.error_iff f).trans (hbad f)

theorem map {r : Except Fault α} (h : Judged r good bad) (g : α → β) :
    Judged (r >>= fun a => .ok (g a)) good bad := by
  cases r with
  | ok a => exact .ok (h.ok_iff.mp ⟨a, rfl⟩) fun f hf => nomatch (h.error_iff f).mpr hf
  | error e =>
    exact .error (fun hgood => nomatch h.ok_iff.mpr hgood) fun f => by
      rw [← h.error_iff f, Except.error.injEq]

/-- One step after another: the second is judged where the first is good. -/
theorem bind {r : Except Fault α} {k : α → Except Fault β} {good' : Prop} {bad' : Fault → Prop}
    (h : Judged r good bad) (hk : ∀ a, r = .ok a → Judged (k a) good' bad') :
    Judged (r >>= k) (good ∧ good') (fun f => bad f ∨ good ∧ bad' f) := by
  cases r with
  | ok a =>
    have hgood : good := h.ok_iff.mp ⟨a, rfl⟩
    have hbad f : ¬ bad f := fun hf => nomatch (h.error_iff f).mpr hf
    refine (hk a rfl).congr ⟨fun h' => ⟨hgood, h'⟩, And.right⟩ fun f => ?_
    exact ⟨fun h' => .inr ⟨hgood, h'⟩, fun h' => (h'.resolve_left (hbad f)).2⟩
  | error e =>
    have hgood : ¬ good := fun hgood => nomatch h.ok_iff.mpr hgood
    refine .error (fun h' => hgood h'.1) fun f => ?_
    rw [← Except.error.injEq (ε := Fault) (α := α), h.error_iff f]
    exact ⟨fun h' => h'.resolve_right fun h'' => hgood h''.1, .inl⟩

/-- Items one after another, each judged unless there was no room for it: the first bad one is to
blame. -/
theorem mapM {f : α → Except Fault β} {Good : α → Prop} {Bad : α → Fault → Prop} {e : Fault}
    {as : List α} (hf : ∀ a ∈ as, f a ≠ .error e → Judged (f a) (Good a) (Bad a))
    (h : as.mapM f ≠ .error e) :
    Judged (as.mapM f) (∀ a ∈ as, Good a)
      (fun g => ∃ before a behind, as = before ++ a :: behind ∧ (∀ b ∈ before, Good b) ∧
        Bad a g) := by
  induction as with
  | nil =>
    refine .ok (fun _ h => (List.not_mem_nil h).elim) ?_
    rintro g ⟨before, a, behind, has, -⟩
    simp at has
  | cons a as ih =>
    obtain ⟨hfirst, hrest⟩ := List.forall_mem_cons.mp hf
    rw [List.mapM_cons] at h ⊢
    have ha : f a ≠ .error e := fun ha => h (by rw [ha]; rfl)
    have has (b : β) (hb : f a = .ok b) : as.mapM f ≠ .error e :=
      fun has => h (by rw [hb, has]; rfl)
    refine ((hfirst ha).bind fun b hb => (ih hrest (has b hb)).map (b :: ·)).congr
      List.forall_mem_cons.symm fun g => ⟨?_, ?_⟩
    · rintro (hbad | ⟨hgood, before, i, behind, rfl, hbefore, hbad⟩)
      · exact ⟨[], a, as, rfl, fun _ h => (List.not_mem_nil h).elim, hbad⟩
      · exact ⟨a :: before, i, behind, rfl, List.forall_mem_cons.mpr ⟨hgood, hbefore⟩, hbad⟩
    · rintro ⟨before, i, behind, hitems, hbefore, hbad⟩
      obtain _ | ⟨first, before⟩ := before
      · cases hitems
        exact .inl hbad
      · cases hitems
        obtain ⟨hgood, hbefore⟩ := List.forall_mem_cons.mp hbefore
        exact .inr ⟨hgood, before, i, behind, rfl, hbefore, hbad⟩

end Judged

/-! ## Fields read in order -/

section Fields

variable {fields : List (String × Json)} {key : String} {keys : List String}
variable {Good : String → Json → Prop} {Bad : String → Json → Fault → Prop}

def Meets (Good : String → Json → Prop) (fields : List (String × Json)) (keys : List String) :
    Prop :=
  ∀ key ∈ keys, ∃ j, fields.lookup key = some j ∧ Good key j

/-- The first key that has no field or the wrong one. -/
def Fails (Good : String → Json → Prop) (Bad : String → Json → Fault → Prop)
    (fields : List (String × Json)) (keys : List String) (f : Fault) : Prop :=
  ∃ before key behind, keys = before ++ key :: behind ∧ Meets Good fields before ∧
    ((fields.lookup key = none ∧ f = .missingField key) ∨
      ∃ j, fields.lookup key = some j ∧ Bad key j f)

theorem meets_cons : Meets Good fields (key :: keys) ↔
    (∃ j, fields.lookup key = some j ∧ Good key j) ∧ Meets Good fields keys :=
  List.forall_mem_cons

theorem not_fails_nil {f : Fault} : ¬ Fails Good Bad fields [] f := by
  rintro ⟨before, key, behind, hkeys, -⟩
  simp at hkeys

theorem fails_cons {f : Fault} : Fails Good Bad fields (key :: keys) f ↔
    ((fields.lookup key = none ∧ f = .missingField key) ∨
      ∃ j, fields.lookup key = some j ∧ Bad key j f) ∨
    (∃ j, fields.lookup key = some j ∧ Good key j) ∧ Fails Good Bad fields keys f := by
  constructor
  · rintro ⟨before, other, behind, hkeys, hmeets, hfault⟩
    obtain _ | ⟨first, before⟩ := before
    · cases hkeys
      exact .inl hfault
    · cases hkeys
      obtain ⟨hfirst, hmeets⟩ := meets_cons.mp hmeets
      exact .inr ⟨hfirst, before, other, behind, rfl, hmeets, hfault⟩
  · rintro (hfault | ⟨hfirst, before, other, behind, rfl, hmeets, hfault⟩)
    · exact ⟨[], key, keys, rfl, fun _ h => (List.not_mem_nil h).elim, hfault⟩
    · exact ⟨key :: before, other, behind, rfl, meets_cons.mpr ⟨hfirst, hmeets⟩, hfault⟩

/-- A field that has to be there is read. -/
theorem judged_need {α : Type} {read : Json → Except Fault α} {good : Json → Prop}
    {bad : Json → Fault → Prop}
    (hread : ∀ j, fields.lookup key = some j → Judged (read j) (good j) (bad j)) :
    Judged ((Json.object fields).need key >>= read) (∃ j, fields.lookup key = some j ∧ good j)
      (fun f => (fields.lookup key = none ∧ f = .missingField key) ∨
        ∃ j, fields.lookup key = some j ∧ bad j f) := by
  cases hlookup : fields.lookup key with
  | none =>
    have hneed : (Json.object fields).need key = .error (.missingField key) := by
      rw [Json.need, hlookup]
    rw [hneed]
    exact .error (by simp) fun f => by simp [eq_comm]
  | some j =>
    have hneed : (Json.object fields).need key = .ok j := by rw [Json.need, hlookup]
    rw [hneed]
    exact (hread j hlookup).congr (by simp) fun f => by simp

/-- The first of the fields is read, then the others. -/
theorem judged_fields {α β : Type} {read : Json → Except Fault α} {k : α → Except Fault β}
    (hread : ∀ j, fields.lookup key = some j → Judged (read j) (Good key j) (Bad key j))
    (hk : ∀ a, Judged (k a) (Meets Good fields keys) (Fails Good Bad fields keys)) :
    Judged ((Json.object fields).need key >>= fun j => read j >>= k)
      (Meets Good fields (key :: keys)) (Fails Good Bad fields (key :: keys)) := by
  rw [← bind_assoc]
  exact ((judged_need hread).bind fun a _ => hk a).congr meets_cons.symm fun _ => fails_cons.symm

/-- The first of the fields is there, whatever it holds. -/
theorem judged_fields_of_any {α : Type} {k : Json → Except Fault α}
    (hgood : ∀ j, Good key j) (hbad : ∀ j f, ¬ Bad key j f)
    (hk : ∀ j, Judged (k j) (Meets Good fields keys) (Fails Good Bad fields keys)) :
    Judged ((Json.object fields).need key >>= k)
      (Meets Good fields (key :: keys)) (Fails Good Bad fields (key :: keys)) := by
  have hread (j : Json) : Judged (Except.ok j) (Good key j) (Bad key j) := .ok (hgood j) (hbad j)
  exact judged_fields (fun j _ => hread j) hk

theorem judged_no_fields {α : Type} (a : α) :
    Judged (.ok a) (Meets Good fields []) (Fails Good Bad fields []) :=
  .ok (fun _ h => (List.not_mem_nil h).elim) fun _ => not_fails_nil

end Fields

/-! ## Places and names -/

def Json.Any (_ : String) (_ : Json) : Prop := True

def Json.NoFault (_ : String) (_ : Json) (_ : Fault) : Prop := False

namespace Place

def keys : List String := ["file", "line", "col", "index"]

/-- An object with the keys of a place, whatever it has under them. -/
def Accepted (j : Json) : Prop := ∃ fields, j = .object fields ∧ Meets Json.Any fields keys

/-- What is wrong with what is no place. -/
inductive Violates : Json → Fault → Prop where
  | notAnObject {j : Json} : (∀ fields, j ≠ .object fields) →
    Violates j (.notAnObject j.typeName)
  | field {fields : List (String × Json)} {f : Fault} : Fails Json.Any Json.NoFault fields keys f →
    Violates (.object fields) f

theorem judged_ofJson (j : Json) : Judged (ofJson j) (Accepted j) (Violates j) := by
  have hno {j : Json} (h : ∀ fields, j ≠ .object fields) (f : Fault) :
      Violates j f ↔ Fault.notAnObject j.typeName = f := by
    constructor
    · intro hf
      cases hf with
      | notAnObject => rfl
      | field => exact (h _ rfl).elim
    · rintro rfl
      exact .notAnObject h
  cases j with
  | scalar s => exact .error (fun ⟨_, h, _⟩ => nomatch h) (hno nofun)
  | list items => exact .error (fun ⟨_, h, _⟩ => nomatch h) (hno nofun)
  | object fields =>
    have hany {key : String} {keys : List String} {α : Type} {k : Json → Except Fault α}
        (hk : ∀ j, Judged (k j) (Meets Json.Any fields keys)
          (Fails Json.Any Json.NoFault fields keys)) :
        Judged ((Json.object fields).need key >>= k) (Meets Json.Any fields (key :: keys))
          (Fails Json.Any Json.NoFault fields (key :: keys)) :=
      judged_fields_of_any (fun _ => trivial) (fun _ _ => id) hk
    have hfields : Judged (ofJson (.object fields)) (Meets Json.Any fields keys)
        (Fails Json.Any Json.NoFault fields keys) :=
      hany fun _ => hany fun _ => hany fun _ => hany fun _ => judged_no_fields _
    refine hfields.congr ⟨fun h => ⟨fields, rfl, h⟩, ?_⟩ fun f => ⟨.field, ?_⟩
    · rintro ⟨_, ⟨⟩, h⟩
      exact h
    · intro h
      cases h with
      | notAnObject h => exact (h _ rfl).elim
      | field h => exact h

end Place

def Names (names : List String) (j : Json) : Prop := ∃ name ∈ names, j = .text name

/-- What is wrong with what is none of the names. -/
inductive Misnames (names : List String) (unknown : Scalar → Fault) : Json → Fault → Prop where
  | unknown {s : Scalar} : ¬ Names names (.scalar s) →
    Misnames names unknown (.scalar s) (unknown s)
  | notAName {j : Json} : (∀ s, j ≠ .scalar s) → Misnames names unknown j (.notAName j.typeName)

section Names

variable {α : Type} {names : List String} {find? : String → Option α} {unknown : Scalar → Fault}
variable {s : Scalar} {f : Fault}

theorem names_scalar_iff (hfind : ∀ name, (find? name).isSome ↔ name ∈ names) :
    Names names (.scalar s) ↔ (s.text?.bind find?).isSome := by
  constructor
  · rintro ⟨name, hname, ⟨⟩⟩
    exact (hfind name).mpr hname
  · intro h
    cases s with
    | text name => exact ⟨name, (hfind name).mp h, rfl⟩
    | _ => cases h

theorem misnames_scalar_iff :
    Misnames names unknown (.scalar s) f ↔ ¬ Names names (.scalar s) ∧ unknown s = f := by
  constructor
  · rintro (hno | hne)
    · exact ⟨hno, rfl⟩
    · exact (hne _ rfl).elim
  · rintro ⟨hno, rfl⟩
    exact .unknown hno

theorem misnames_iff_of_ne {j : Json} (h : ∀ s, j ≠ .scalar s) :
    Misnames names unknown j f ↔ Fault.notAName j.typeName = f := by
  constructor
  · rintro (hno | hne)
    · exact (h _ rfl).elim
    · rfl
  · rintro rfl
    exact .notAName h

/-- A name is looked up, and nothing but a text can be one. -/
theorem judged_name {read : Json → Except Fault α}
    (hfind : ∀ name, (find? name).isSome ↔ name ∈ names)
    (hscalar : ∀ s, read (.scalar s) =
      match s.text?.bind find? with
      | some a => .ok a
      | none => .error (unknown s))
    (hother : ∀ j, (∀ s, j ≠ .scalar s) → read j = .error (.notAName j.typeName)) (j : Json) :
    Judged (read j) (Names names j) (Misnames names unknown j) := by
  have hno {j : Json} (h : ∀ s, j ≠ .scalar s) :
      Judged (read j) (Names names j) (Misnames names unknown j) := by
    rw [hother j h]
    exact .error (fun ⟨name, _, hj⟩ => h _ hj) fun f => misnames_iff_of_ne h
  cases j with
  | list items => exact hno nofun
  | object fields => exact hno nofun
  | scalar s =>
    rw [hscalar]
    split
    · next a ha =>
      have hgood : Names names (.scalar s) := (names_scalar_iff hfind).mpr (ha ▸ rfl)
      exact .ok hgood fun f hf => (misnames_scalar_iff.mp hf).1 hgood
    · next hnone =>
      have hbad : ¬ Names names (.scalar s) := by
        rw [names_scalar_iff hfind, hnone]
        nofun
      exact .error hbad fun f => misnames_scalar_iff.trans (and_iff_right hbad)

end Names

end Lumen
