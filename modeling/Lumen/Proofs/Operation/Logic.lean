import Lumen.Proofs.Double.Order
import Lumen.Proofs.Operation.Refusals

/-!
# Equality, truth and order

Equality, truth and the logical operators have a value for all values that programs compute with,
and obey the laws that their names promise. The logical operators give one of their operands or
zero, so their laws hold of the truth of what they give. The operators that order refuse all but two
numbers or two texts.
-/

namespace Lumen

/-- Two numbers that compare as equal, the same text twice, or two nulls. -/
inductive Payload.Alike : Payload → Payload → Prop where
  | number {x y : Float} : x == y → Alike (.number x) (.number y)
  | text (s : String) : Alike (.text s) (.text s)
  | null : Alike .null .null

namespace Payload.Alike

variable {p q r : Payload}

theorem symm (h : p.Alike q) : q.Alike p := by
  cases h with
  | number h => exact .number ((Double.beq_comm _ _).trans h)
  | text s => exact .text s
  | null => exact .null

theorem trans (hpq : p.Alike q) (hqr : q.Alike r) : p.Alike r := by
  cases hpq with
  | number hxy =>
    cases hqr with
    | number hyz => exact .number (Double.beq_trans hxy hyz)
  | text s => exact hqr
  | null => exact hqr

theorem kind_eq (h : p.Alike q) : p.kind = q.kind := by cases h <;> rfl

theorem kind_mem (h : p.Alike q) : p.kind ∈ [Value.Kind.number, .text, .null] := by
  cases h <;> simp [Payload.kind]

end Payload.Alike

theorem Payload.equals_iff_alike {p q : Payload} : p.equals q ↔ p.Alike q := by
  constructor
  · intro h
    unfold Payload.equals at h
    split at h
    · exact .number h
    · exact eq_of_beq h ▸ .text _
    · exact .null
    · cases h
  · intro h
    cases h with
    | number h => exact h
    | text s => exact beq_self_eq_true s
    | null => rfl

namespace Value

variable {a b c : Value}

theorem isTrue_ofBool (x : Bool) : (ofBool x).isTrue = x := by cases x <;> decide +kernel

theorem ofBool_eq_zero {x : Bool} (h : ¬ x) : ofBool x = number 0 := by
  rw [Bool.eq_false_iff.mpr h]
  rfl

theorem isTrue_equals : (a.equals b).isTrue ↔ a.payload.Alike b.payload := by
  rw [equals, isTrue_ofBool, Payload.equals_iff_alike]

theorem equals_comm (a b : Value) : a.equals b = b.equals a := by
  have hsymm : a.payload.equals b.payload = b.payload.equals a.payload := by
    rw [Bool.eq_iff_iff, Payload.equals_iff_alike, Payload.equals_iff_alike]
    exact ⟨.symm, .symm⟩
  rw [equals, equals, hsymm]

theorem equals_eq_zero (h : ¬ a.payload.Alike b.payload) : a.equals b = number 0 :=
  ofBool_eq_zero (mt Payload.equals_iff_alike.mp h)

theorem differs_eq (a b : Value) : a.differs b = ofBool (!(a.equals b).isTrue) := by
  rw [equals, isTrue_ofBool, differs]

def opposite (v : Value) : Value := ofBool (!v.isTrue)

theorem isTrue_opposite (v : Value) : v.opposite.isTrue = !v.isTrue := isTrue_ofBool _

theorem isTrue_both (a b : Value) : (both a b).isTrue = (a.isTrue && b.isTrue) := by
  unfold both
  split
  · next h => rw [h, (Bool.and_eq_true_iff.mp h).2]
  · next h => rw [isTrue_ofBool, Bool.eq_false_iff.mpr h]

theorem isTrue_either (a b : Value) : (either a b).isTrue = (a.isTrue || b.isTrue) := by
  unfold either
  split
  · next ha => rw [ha, Bool.true_or]
  · next ha =>
    rw [Bool.eq_false_iff.mpr ha, Bool.false_or]
    split
    · rfl
    · next hb => rw [isTrue_ofBool, Bool.eq_false_iff.mpr hb]

theorem both_of_isTrue (h : (both a b).isTrue) : both a b = b := by
  rw [isTrue_both] at h
  rw [both, if_pos h]

theorem either_of_isTrue (h : (either a b).isTrue) : either a b = a ∨ either a b = b := by
  rw [isTrue_either, Bool.or_eq_true] at h
  unfold either
  split
  · exact .inl rfl
  · next ha => exact .inr (if_pos (h.resolve_left ha))

theorem either_ofBool (x y : Bool) : either (ofBool x) (ofBool y) = ofBool (x || y) := by
  unfold either
  simp only [isTrue_ofBool]
  cases x <;> cases y <;> rfl

theorem isRuntime_ofBool (x : Bool) : (ofBool x).IsRuntime :=
  isRuntime_unplaced (p := .number _) trivial

theorem isRuntime_both (hb : b.IsRuntime) : (both a b).IsRuntime := by
  unfold both
  split
  · exact hb
  · exact isRuntime_ofBool _

theorem isRuntime_either (ha : a.IsRuntime) (hb : b.IsRuntime) : (either a b).IsRuntime := by
  unfold either
  split
  · exact ha
  · split
    · exact hb
    · exact isRuntime_ofBool _

def HaveOrder (a b : Value) : Prop :=
  (a.kind = .number ∧ b.kind = .number) ∨ (a.kind = .text ∧ b.kind = .text)

theorem exists_number_of_kind (h : a.kind = .number) : ∃ x, a.payload = .number x := by
  obtain ⟨p, sp⟩ := a
  cases p with
  | number x => exact ⟨x, rfl⟩
  | _ => cases h

theorem IsRuntime.exists_text_of_kind (ha : a.IsRuntime) (h : a.kind = .text) :
    ∃ s, a.payload = .text s := by
  obtain ⟨p, sp⟩ := a
  cases p with
  | text s => exact ⟨s, rfl⟩
  | datum j => exact ha.payload.elim
  | _ => cases h

theorem HaveOrder.cases (h : HaveOrder a b) (ha : a.IsRuntime) (hb : b.IsRuntime) :
    (∃ x y, a.payload = .number x ∧ b.payload = .number y) ∨
      ∃ s t, a.payload = .text s ∧ b.payload = .text t := by
  rcases h with ⟨hka, hkb⟩ | ⟨hka, hkb⟩
  · obtain ⟨x, hx⟩ := exists_number_of_kind hka
    obtain ⟨y, hy⟩ := exists_number_of_kind hkb
    exact .inl ⟨x, y, hx, hy⟩
  · obtain ⟨s, hs⟩ := ha.exists_text_of_kind hka
    obtain ⟨t, ht⟩ := hb.exists_text_of_kind hkb
    exact .inr ⟨s, t, hs, ht⟩

section

variable (numbers : Float → Float → Bool) (texts : String → String → Bool)

theorem ordered_numbers {x y : Float} (hx : a.payload = .number x) (hy : b.payload = .number y) :
    ordered numbers texts a b = .ok (ofBool (numbers x y)) := by
  rw [ordered, hx, hy]

theorem ordered_texts {s t : String} (hs : a.payload = .text s) (ht : b.payload = .text t) :
    ordered numbers texts a b = .ok (ofBool (texts s t)) := by
  rw [ordered, hs, ht]

theorem ordered_of_haveOrder (h : HaveOrder a b) (ha : a.IsRuntime) (hb : b.IsRuntime) :
    ∃ x, ordered numbers texts a b = .ok (ofBool x) := by
  rcases h.cases ha hb with ⟨x, y, hx, hy⟩ | ⟨s, t, hs, ht⟩
  · exact ⟨_, ordered_numbers numbers texts hx hy⟩
  · exact ⟨_, ordered_texts numbers texts hs ht⟩

/-- A comparison is the turned one of the operands the other way round. -/
theorem ordered_swap (h : HaveOrder a b) (ha : a.IsRuntime) (hb : b.IsRuntime) :
    ordered numbers texts a b = ordered (fun x y => numbers y x) (fun s t => texts t s) b a := by
  rcases h.cases ha hb with ⟨x, y, hx, hy⟩ | ⟨s, t, hs, ht⟩
  · rw [ordered_numbers _ _ hx hy, ordered_numbers _ _ hy hx]
  · rw [ordered_texts _ _ hs ht, ordered_texts _ _ ht hs]

theorem ordered_of_not_haveOrder (h : ¬ HaveOrder a b) :
    ordered numbers texts a b = incomparable a b := by
  unfold ordered
  split
  · next hx hy =>
    refine absurd (.inl ?_) h
    rw [Value.kind, Value.kind, hx, hy]
    exact ⟨rfl, rfl⟩
  · next hs ht =>
    refine absurd (.inr ?_) h
    rw [Value.kind, Value.kind, hs, ht]
    exact ⟨rfl, rfl⟩
  · rfl

end

theorem exists_incomparable {α : Type} (ha : a.IsRuntime) (hb : b.IsRuntime) :
    ∃ s, s.IsKnown ∧ incomparable (α := α) a b =
      .error (.failure (Diagnostic.onSpan (.incomparable a.kind b.kind) s)) := by
  unfold incomparable refuseBetween
  dsimp only
  split
  · exact ⟨_, ha.span, rfl⟩
  · obtain ⟨s, hs, hknown⟩ := Span.exists_join ha.span.start hb.span.stop
    rw [hs]
    exact ⟨s, hknown, rfl⟩

/-- One value is at most another if it is less or they are equal. Where they have no order, both
sides refuse alike. -/
theorem operate_le (ha : a.IsRuntime) (hb : b.IsRuntime) :
    operate .le a b = (operate .lt a b).map fun less => either less (a.equals b) := by
  by_cases h : HaveOrder a b
  · rcases h.cases ha hb with ⟨x, y, hx, hy⟩ | ⟨s, t, hs, ht⟩
    · have hle : decide (x ≤ y) = (decide (x < y) || x == y) := by
        rw [Bool.eq_iff_iff, decide_eq_true_iff, Bool.or_eq_true, decide_eq_true_iff,
          Double.le_iff]
      simp only [operate, ordered_numbers _ _ hx hy, equals, hx, hy, Except.map, hle,
        Payload.equals, either_ofBool]
    · have hle : decide (s ≤ t) = (decide (s < t) || s == t) := by
        rw [Bool.eq_iff_iff, decide_eq_true_iff, Bool.or_eq_true, decide_eq_true_iff, beq_iff_eq,
          Std.le_iff_lt_or_eq]
      simp only [operate, ordered_texts _ _ hs ht, equals, hs, ht, Except.map, hle,
        Payload.equals, either_ofBool]
  · obtain ⟨s, -, hs⟩ := exists_incomparable (α := Value) ha hb
    rw [operate, operate, ordered_of_not_haveOrder _ _ h, ordered_of_not_haveOrder _ _ h, hs]
    rfl

end Value

namespace Operator

variable {o : Operator} {a b c : Value}

/-- Only the sum needs the machine. -/
theorem apply_eq (ho : o ≠ .add) (ha : a.IsRuntime) (hb : b.IsRuntime) :
    o.apply a b = Exec.ofExcept (a.operate o b) := by
  unfold apply
  split
  · exact absurd rfl ho
  · rw [ha.payload.isDatum, hb.payload.isDatum]
    rfl

/-- The laws of equality. -/
structure Equality (a b c : Value) : Prop where
  eq : Operator.eq.apply a b = pure (a.equals b)
  ne : Operator.ne.apply a b = pure (a.equals b).opposite
  comm : Operator.eq.apply a b = Operator.eq.apply b a
  holds_iff : (a.equals b).isTrue ↔ a.payload.Alike b.payload
  trans : (a.equals b).isTrue → (b.equals c).isTrue → (a.equals c).isTrue
  /-- Values of two kinds differ. -/
  apart : a.kind ≠ b.kind → a.equals b = .number 0
  /-- A list or a function is not even equal to itself. -/
  never : a.kind ∈ [Value.Kind.list, .function, .builtin] → a.equals b = .number 0

theorem equality (ha : a.IsRuntime) (hb : b.IsRuntime) : Equality a b c where
  eq := apply_eq (o := .eq) nofun ha hb
  ne := by
    rw [apply_eq (o := .ne) nofun ha hb, Value.operate, Value.differs_eq]
    rfl
  comm := by
    rw [apply_eq (o := .eq) nofun ha hb, apply_eq (o := .eq) nofun hb ha, Value.operate,
      Value.operate, Value.equals_comm]
  holds_iff := Value.isTrue_equals
  trans hab hbc := by
    rw [Value.isTrue_equals] at hab hbc ⊢
    exact hab.trans hbc
  apart h := Value.equals_eq_zero fun halike => h halike.kind_eq
  never h := by
    refine Value.equals_eq_zero fun halike => ?_
    have hmem := halike.kind_mem
    revert h hmem
    change a.kind ∈ _ → a.kind ∈ _ → False
    generalize a.kind = k
    cases k <;> decide

/-- The laws of truth and of the logical operators. -/
structure Logic (a b c : Value) : Prop where
  holds : Exec.holds a = pure a.isTrue
  and : Operator.and.apply a b = pure (a.both b)
  or : Operator.or.apply a b = pure (a.either b)
  not : a.negation = .ok a.opposite
  /-- What the operators give are such values again. -/
  closed : (a.both b).IsRuntime ∧ (a.either b).IsRuntime ∧ a.opposite.IsRuntime
  isTrue_and : (a.both b).isTrue = (a.isTrue && b.isTrue)
  isTrue_or : (a.either b).isTrue = (a.isTrue || b.isTrue)
  isTrue_not : a.opposite.isTrue = !a.isTrue
  and_comm : (a.both b).isTrue = (b.both a).isTrue
  or_comm : (a.either b).isTrue = (b.either a).isTrue
  and_assoc : ((a.both b).both c).isTrue = (a.both (b.both c)).isTrue
  or_assoc : ((a.either b).either c).isTrue = (a.either (b.either c)).isTrue
  not_and : (a.both b).opposite.isTrue = (a.opposite.either b.opposite).isTrue
  not_or : (a.either b).opposite.isTrue = (a.opposite.both b.opposite).isTrue
  /-- What holds is an operand itself, so of a list all elements are shared. -/
  operand_and : (a.both b).isTrue → a.both b = b
  operand_or : (a.either b).isTrue → a.either b = a ∨ a.either b = b

theorem logic (ha : a.IsRuntime) (hb : b.IsRuntime) : Logic a b c where
  holds := by
    rw [Exec.holds, ha.truth_eq]
    rfl
  and := apply_eq (o := .and) nofun ha hb
  or := apply_eq (o := .or) nofun ha hb
  not := by
    rw [Value.negation, ha.truth_eq]
    rfl
  closed := ⟨Value.isRuntime_both hb, Value.isRuntime_either ha hb, Value.isRuntime_ofBool _⟩
  isTrue_and := Value.isTrue_both a b
  isTrue_or := Value.isTrue_either a b
  isTrue_not := Value.isTrue_opposite a
  and_comm := by rw [Value.isTrue_both, Value.isTrue_both, Bool.and_comm]
  or_comm := by rw [Value.isTrue_either, Value.isTrue_either, Bool.or_comm]
  and_assoc := by simp only [Value.isTrue_both, Bool.and_assoc]
  or_assoc := by simp only [Value.isTrue_either, Bool.or_assoc]
  not_and := by
    simp only [Value.isTrue_opposite, Value.isTrue_both, Value.isTrue_either, Bool.not_and]
  not_or := by
    simp only [Value.isTrue_opposite, Value.isTrue_both, Value.isTrue_either, Bool.not_or]
  operand_and := Value.both_of_isTrue
  operand_or := Value.either_of_isTrue

def IsOrder (o : Operator) : Prop := o ∈ [lt, le, gt, ge]

/-- The operators that order compare numbers or texts, and differ in nothing else. -/
theorem IsOrder.exists_ordered (ho : o.IsOrder) :
    ∃ numbers texts, ∀ a b : Value, a.operate o b = Value.ordered numbers texts a b := by
  cases o with
  | lt | le | gt | ge => exact ⟨_, _, fun _ _ => rfl⟩
  | _ => simp [IsOrder] at ho

theorem IsOrder.ne_add (ho : o.IsOrder) : o ≠ .add := by
  rintro rfl
  simp [IsOrder] at ho

/-- The laws of the operators that order. -/
structure Order (a b : Value) : Prop where
  answers : a.HaveOrder b → ∀ o : Operator, o.IsOrder → ∃ x, o.apply a b = pure (.ofBool x)
  refuses : ¬ a.HaveOrder b → ∀ o : Operator, o.IsOrder → ∃ s, s.IsKnown ∧
    o.apply a b = Exec.fail (Diagnostic.onSpan (.incomparable a.kind b.kind) s)
  lt_gt : a.HaveOrder b → lt.apply a b = gt.apply b a
  le_ge : a.HaveOrder b → le.apply a b = ge.apply b a
  le : le.apply a b = do or.apply (← lt.apply a b) (← eq.apply a b)

theorem order (ha : a.IsRuntime) (hb : b.IsRuntime) : Order a b where
  answers h o ho := by
    obtain ⟨numbers, texts, hordered⟩ := ho.exists_ordered
    obtain ⟨x, hx⟩ := Value.ordered_of_haveOrder numbers texts h ha hb
    refine ⟨x, ?_⟩
    rw [apply_eq ho.ne_add ha hb, hordered, hx]
    rfl
  refuses h o ho := by
    obtain ⟨numbers, texts, hordered⟩ := ho.exists_ordered
    obtain ⟨s, hknown, hs⟩ := Value.exists_incomparable (α := Value) ha hb
    refine ⟨s, hknown, ?_⟩
    rw [apply_eq ho.ne_add ha hb, hordered, Value.ordered_of_not_haveOrder _ _ h, hs]
    rfl
  lt_gt h := by
    rw [apply_eq (o := .lt) nofun ha hb, apply_eq (o := .gt) nofun hb ha]
    exact congrArg _ (Value.ordered_swap _ _ h ha hb)
  le_ge h := by
    rw [apply_eq (o := .le) nofun ha hb, apply_eq (o := .ge) nofun hb ha]
    exact congrArg _ (Value.ordered_swap _ _ h ha hb)
  le := by
    rw [apply_eq (o := .le) nofun ha hb, apply_eq (o := .lt) nofun ha hb,
      apply_eq (o := .eq) nofun ha hb, Value.operate_le ha hb]
    cases hlt : a.operate .lt b with
    | error e => rfl
    | ok less =>
      have hless : less.IsRuntime := by
        have hanswers := Value.answers_operate (o := .lt) ha hb
        rw [hlt] at hanswers
        exact hanswers
      exact (apply_eq (o := .or) nofun hless (Value.isRuntime_ofBool _)).symm

/-- Equality, truth, the logical operators and order obey their laws. -/
structure Coherent (a b c : Value) : Prop where
  equality : Equality a b c
  logic : Logic a b c
  order : Order a b

/-- All values that programs compute with obey the laws of equality, of logic and of order. -/
theorem coherent_of_isRuntime (ha : a.IsRuntime) (hb : b.IsRuntime) : Coherent a b c :=
  ⟨equality ha hb, logic ha hb, order ha hb⟩

/-- What is no number, a text without characters, and a list. -/
theorem coherent_nan :
    let a := Value.number Double.nan
    let b := Value.text ""
    let c := Value.unplaced (.list 0)
    a.IsRuntime ∧ b.IsRuntime ∧ Coherent a b c := by
  intro a b c
  have ha : a.IsRuntime := Value.isRuntime_unplaced (p := .number _) trivial
  have hb : b.IsRuntime := Value.isRuntime_unplaced (p := .text _) trivial
  exact ⟨ha, hb, coherent_of_isRuntime ha hb⟩

end Operator

end Lumen
