import Lumen.Proofs.Operation

/-!
# How operators refuse

Applied to values that programs compute with, an operator gives such a value or a diagnostic that
has its place. In three cases it gives neither but a fault, and all are operations that the machine
refuses: the remainder of an infinite number, a text repeated more often than a machine word counts,
and a text that would get longer than a machine word counts.
-/

namespace Lumen

def Mark.IsKnown : Mark → Prop
  | .none | .exact _ => True
  | _ => False

structure Span.IsKnown (s : Span) : Prop where
  start : s.start.IsKnown
  stop : s.stop.IsKnown

theorem Span.isKnown_none : Span.none.IsKnown := ⟨trivial, trivial⟩

/-- Between known marks there is a known span. -/
theorem Span.exists_join {p q : Mark} (hp : p.IsKnown) (hq : q.IsKnown) :
    ∃ s, Span.join p q = .ok s ∧ s.IsKnown := by
  cases p with
  | none => exact ⟨_, rfl, trivial, hq⟩
  | exact p =>
    cases q with
    | none => exact ⟨_, rfl, trivial, trivial⟩
    | exact q => exact ⟨_, rfl, trivial, trivial⟩
    | odd q => exact hq.elim
    | other => exact hq.elim
  | odd p => exact hp.elim
  | other => exact hp.elim

namespace Double

theorem isNaN_of_isInf {x : Float} (h : x.isInf) : x.isNaN = false := by
  unfold Float.isInf Float.Model.isInf at h
  unfold Float.isNaN Float.Model.isNaN
  cases hx : x.toModel.unpack with
  | notANumber =>
    rw [hx] at h
    cases h
  | _ => rfl

theorem remainder?_eq_none {x y : Float} :
    remainder? x y = none ↔ x.isInf ∧ y.isNaN = false := by
  unfold remainder?
  cases hx : x.isInf with
  | false => cases x.isNaN <;> cases y.isNaN <;> cases y.isInf <;> simp
  | true =>
    rw [isNaN_of_isInf hx]
    cases y.isNaN <;> simp

end Double

def Payload.IsRuntime : Payload → Prop
  | .datum _ | .base => False
  | _ => True

theorem Payload.IsRuntime.isDatum {p : Payload} (h : p.IsRuntime) : p.isDatum = false := by
  cases p with
  | datum => exact h.elim
  | _ => rfl

/-- A value that programs compute with, wherever in a text it is placed. -/
structure Value.IsRuntime (v : Value) : Prop where
  payload : v.payload.IsRuntime
  span : v.span.IsKnown

theorem Value.isRuntime_unplaced {p : Payload} (h : p.IsRuntime) : (unplaced p).IsRuntime :=
  ⟨h, Span.isKnown_none⟩

theorem Value.IsRuntime.truth_eq {v : Value} (h : v.IsRuntime) : v.truth = .ok v.isTrue := by
  obtain ⟨p, sp⟩ := v
  cases p with
  | datum => exact h.payload.elim
  | _ => rfl

theorem Value.IsRuntime.copyTo_eq {v : Value} (h : v.IsRuntime) (sp : Span) :
    v.copyTo sp = .ok ⟨v.payload, sp⟩ := by
  obtain ⟨p, _⟩ := v
  cases p with
  | base => exact h.payload.elim
  | _ => rfl

/-- The diagnostic tells a known place, and is not about an operator that there is not. -/
structure Diagnostic.IsOrdinary (d : Diagnostic) : Prop where
  span : d.span.IsKnown
  complaint : ∀ symbol, d.complaint ≠ .unexpectedOperator symbol

namespace Operator

/-- An infinite number is to be divided by one that could divide others. -/
def LacksRemainder (o : Operator) (a b : Value) : Prop :=
  o = .mod ∧ ∃ x y, a.payload = .number x ∧ b.payload = .number y ∧ x.isInf ∧ y.isNaN = false ∧
    (y == 0) = false

/-- A text is to be repeated more often than a machine word counts. -/
def CountsTooFar (o : Operator) (a b : Value) : Prop :=
  o = .mul ∧ ∃ s y, a.payload = .text s ∧ b.payload = .number y ∧ y.isFinite ∧
    Value.isBeyondCount (Double.truncate y)

/-- A text is to be repeated, or joined to another one, beyond what a machine word counts. -/
inductive GrowsTooLong (a b : Value) : Operator → Growth → Prop where
  | repetition {s : String} {y : Float} : a.payload = .text s → b.payload = .number y →
      y.isFinite → Value.isBeyondCount (Double.truncate y) = false →
      Value.countLimit ≤ (s.length * (Double.truncate y).toNat : Nat) →
      GrowsTooLong a b .mul .repetition
  | concatenation {s t : String} : a.payload = .text s → b.payload = .text t →
      Value.countLimit ≤ (s.length + t.length : Nat) → GrowsTooLong a b .add .concatenation

/-- What an operator that has no value for its operands may stop with. -/
inductive Refuses (o : Operator) (a b : Value) : Stop → Prop where
  | diagnostic {d : Diagnostic} : d.heading = .runtime ∨ d.heading = .invalidSyntax →
    d.IsOrdinary → Refuses o a b (.failure d)
  | infiniteRemainder : o.LacksRemainder a b → Refuses o a b (.fault .infiniteRemainder)
  | repeatCount : o.CountsTooFar a b → Refuses o a b (.fault .repeatCount)
  | tooLong {growth : Growth} : GrowsTooLong a b o growth → Refuses o a b (.fault (.tooLong growth))

def Answers (o : Operator) (a b : Value) : Except Stop Value → Prop
  | .ok v => v.IsRuntime
  | .error e => Refuses o a b e

end Operator

namespace Value

open Operator (Answers Refuses LacksRemainder CountsTooFar GrowsTooLong)

variable {o : Operator} {a b v : Value}

theorem answers_number (x : Float) : Answers o a b (.ok (number x)) :=
  isRuntime_unplaced (p := .number x) trivial

theorem answers_text (s : String) : Answers o a b (.ok (text s)) :=
  isRuntime_unplaced (p := .text s) trivial

theorem answers_failure {c : Complaint} {s : Span} (hs : s.IsKnown)
    (hc : c.heading = .runtime ∨ c.heading = .invalidSyntax)
    (hne : ∀ symbol, c ≠ .unexpectedOperator symbol) :
    Answers o a b (.error (.failure (Diagnostic.onSpan c s))) :=
  .diagnostic hc ⟨hs, hne⟩

theorem answers_refuse {c : Complaint} (hv : v.IsRuntime)
    (hc : c.heading = .runtime ∨ c.heading = .invalidSyntax)
    (hne : ∀ symbol, c ≠ .unexpectedOperator symbol) : Answers o a b (refuse c v) :=
  answers_failure hv.span hc hne

theorem answers_illegal (hv : v.IsRuntime) (o' : Operator) : Answers o a b (illegal o' v) :=
  answers_refuse hv (.inr rfl) nofun

theorem answers_needNumber {f : Float → Except Stop Value} (hb : b.IsRuntime)
    (hf : ∀ y, b.payload = .number y → Answers o a b (f y)) :
    Answers o a b (b.needNumber >>= f) := by
  unfold needNumber
  split
  · next y hy => exact hf y hy
  · exact answers_refuse hb (.inl rfl) nofun

theorem answers_needDivisor {f : Float → Except Stop Value} (hb : b.IsRuntime)
    (hf : ∀ y, b.payload = .number y → (y == 0) = false → Answers o a b (f y)) :
    Answers o a b (b.needDivisor >>= f) := by
  rw [needDivisor, bind_assoc]
  refine answers_needNumber hb fun y hy => ?_
  split
  · exact answers_refuse hb (.inl rfl) nofun
  · next hzero => exact hf y hy (Bool.eq_false_iff.mpr hzero)

theorem answers_numberOperation {x : Float} (hx : a.payload = .number x) (hb : b.IsRuntime) :
    Answers o a b (numberOperation o x b) := by
  cases o with
  | add | sub | mul | pow => exact answers_needNumber hb fun y _ => answers_number _
  | div => exact answers_needDivisor hb fun y _ _ => answers_number _
  | mod =>
    refine answers_needDivisor hb fun y hy hzero => ?_
    cases hr : Double.remainder? x y with
    | some r => exact answers_number r
    | none =>
      obtain ⟨hinf, hnan⟩ := Double.remainder?_eq_none.mp hr
      exact .infiniteRemainder ⟨rfl, x, y, hx, hy, hinf, hnan, hzero⟩
  | _ => exact answers_illegal (isRuntime_unplaced (p := .number x) trivial) _

theorem answers_grown {growth : Growth} {size : Nat} {s : Unit → String}
    (h : countLimit ≤ size → GrowsTooLong a b o growth) :
    Answers o a b (grown growth size s) := by
  unfold grown
  split
  · next hsize => exact .tooLong (h hsize)
  · exact answers_text _

theorem answers_textOperation {s : String} (hs : a.payload = .text s) (ha : a.IsRuntime)
    (hb : b.IsRuntime) : Answers o a b (textOperation o a s b) := by
  cases o with
  | add =>
    unfold textOperation
    dsimp only
    split
    · next t ht => exact answers_grown fun hsize => .concatenation hs ht hsize
    · exact answers_refuse hb (.inl rfl) nofun
  | mul =>
    refine answers_needNumber hb fun y hy => ?_
    split
    · next hfinite =>
      unfold repeated
      split
      · next hcount => exact .repeatCount ⟨rfl, s, y, hs, hy, hfinite, hcount⟩
      · next hcount =>
        split
        · exact answers_text _
        · exact answers_grown fun hsize =>
            .repetition hs hy hfinite (Bool.eq_false_iff.mpr hcount) hsize
    · exact answers_refuse hb (.inl rfl) nofun
  | _ => exact answers_illegal ha _

theorem answers_arithmetic (ha : a.IsRuntime) (hb : b.IsRuntime) :
    Answers o a b (arithmetic o a b) := by
  unfold arithmetic
  split
  · next hx => exact answers_numberOperation hx hb
  · next hs => exact answers_textOperation hs ha hb
  · split
    · exact answers_refuse ha (.inr rfl) nofun
    · exact answers_illegal ha _
  · exact answers_illegal ha _

theorem answers_ordered (numbers : Float → Float → Bool) (texts : String → String → Bool)
    (ha : a.IsRuntime) (hb : b.IsRuntime) : Answers o a b (ordered numbers texts a b) := by
  unfold ordered
  split
  · exact answers_number _
  · exact answers_number _
  · unfold incomparable refuseBetween
    dsimp only
    split
    · exact answers_refuse ha (.inl rfl) nofun
    · obtain ⟨s, hs, hknown⟩ := Span.exists_join ha.span.start hb.span.stop
      rw [hs]
      exact answers_failure hknown (.inl rfl) nofun

theorem answers_operate (ha : a.IsRuntime) (hb : b.IsRuntime) :
    Answers o a b (operate o a b) := by
  cases o with
  | eq | ne => exact answers_number _
  | gt | ge | lt | le => exact answers_ordered _ _ ha hb
  | and =>
    unfold operate both
    dsimp only
    split
    · exact hb
    · exact answers_number _
  | or =>
    unfold operate either
    dsimp only
    split
    · exact ha
    · split
      · exact hb
      · exact answers_number _
  | _ => exact answers_arithmetic ha hb

end Value

namespace Operator

variable {o : Operator} {a b : Value} {m : Machine}

theorem answers_apply (ha : a.IsRuntime) (hb : b.IsRuntime) (m : Machine) :
    o.Answers a b ((o.apply a b).result m) := by
  unfold apply
  split
  · exact Value.isRuntime_unplaced (p := .list _) trivial
  · rw [ha.payload.isDatum, hb.payload.isDatum]
    exact Value.answers_operate ha hb

/-- Only joining two lists needs the machine. -/
theorem result_apply_of_isRuntime (ha : a.IsRuntime) (hb : b.IsRuntime)
    (hlist : ∀ l, b.payload ≠ .list l) : (o.apply a b).result m = a.operate o b := by
  unfold apply
  split
  · next l hl => exact absurd hl (hlist _)
  · rw [ha.payload.isDatum, hb.payload.isDatum]
    rfl

theorem LacksRemainder.result_eq (h : o.LacksRemainder a b) (ha : a.IsRuntime) (hb : b.IsRuntime) :
    (o.apply a b).result m = .error (.fault .infiniteRemainder) := by
  obtain ⟨rfl, x, y, hx, hy, hinf, hnan, hzero⟩ := h
  rw [result_apply_of_isRuntime ha hb (hy ▸ nofun)]
  change Value.arithmetic .mod a b = _
  rw [Value.arithmetic, hx]
  simp only [Value.numberOperation, Value.needDivisor, Value.needNumber, hy, bind, Except.bind,
    hzero, Bool.false_eq_true, if_false, Double.remainder?_eq_none.mpr ⟨hinf, hnan⟩]

theorem CountsTooFar.result_eq (h : o.CountsTooFar a b) (ha : a.IsRuntime) (hb : b.IsRuntime) :
    (o.apply a b).result m = .error (.fault .repeatCount) := by
  obtain ⟨rfl, s, y, hs, hy, hfinite, hcount⟩ := h
  rw [result_apply_of_isRuntime ha hb (hy ▸ nofun)]
  change Value.arithmetic .mul a b = _
  rw [Value.arithmetic, hs]
  simp only [Value.textOperation, Value.needNumber, hy, bind, Except.bind, hfinite, if_true,
    Value.repeated, hcount]

theorem GrowsTooLong.result_eq {growth : Growth} (h : GrowsTooLong a b o growth)
    (ha : a.IsRuntime) (hb : b.IsRuntime) :
    (o.apply a b).result m = .error (.fault (.tooLong growth)) := by
  cases h with
  | @repetition s y hs hy hfinite hcount hsize =>
    rw [result_apply_of_isRuntime ha hb (hy ▸ nofun)]
    change Value.arithmetic .mul a b = _
    have hne : s ≠ "" := by
      rintro rfl
      rw [String.length_empty, Nat.zero_mul] at hsize
      exact absurd hsize (by decide)
    rw [Value.arithmetic, hs]
    simp only [Value.textOperation, Value.needNumber, hy, bind, Except.bind, hfinite, if_true,
      Value.repeated, hcount, Bool.false_eq_true, if_false, if_neg hne, Value.grown, if_pos hsize]
  | @concatenation s t hs ht hsize =>
    rw [result_apply_of_isRuntime ha hb (ht ▸ nofun)]
    change Value.arithmetic .add a b = _
    rw [Value.arithmetic, hs]
    simp only [Value.textOperation, ht, Value.grown, if_pos hsize]

/-- Every operator gives values that programs compute with another such value or a diagnostic,
except for the three faults, which come of the operands that are named and of no others. A negation
always has a value. -/
theorem apply_refusals (ha : a.IsRuntime) (hb : b.IsRuntime) (m : Machine) :
    o.Answers a b ((o.apply a b).result m) ∧
    ((o.apply a b).result m = .error (.fault .infiniteRemainder) ↔ o.LacksRemainder a b) ∧
    ((o.apply a b).result m = .error (.fault .repeatCount) ↔ o.CountsTooFar a b) ∧
    (∀ growth, (o.apply a b).result m = .error (.fault (.tooLong growth)) ↔
      GrowsTooLong a b o growth) ∧
    ∃ v, a.negation = .ok v ∧ v.IsRuntime := by
  have hanswers := answers_apply (o := o) ha hb m
  refine ⟨hanswers, ⟨fun h => ?_, fun h => h.result_eq ha hb⟩,
    ⟨fun h => ?_, fun h => h.result_eq ha hb⟩,
    fun growth => ⟨fun h => ?_, fun h => h.result_eq ha hb⟩, ?_⟩
  · rw [h] at hanswers
    cases hanswers with
    | infiniteRemainder hlacks => exact hlacks
  · rw [h] at hanswers
    cases hanswers with
    | repeatCount hcounts => exact hcounts
  · rw [h] at hanswers
    cases hanswers with
    | tooLong hgrows => exact hgrows
  · rw [Value.negation, ha.truth_eq]
    exact ⟨_, rfl, Value.isRuntime_unplaced (p := .number _) trivial⟩

theorem lacksRemainder_infinity :
    mod.LacksRemainder (.number Double.infinity) (.number 2) :=
  ⟨rfl, _, _, rfl, rfl, by decide +kernel, by decide +kernel, by decide +kernel⟩

/-- The remainder of infinity by two. -/
theorem apply_refusals_infinity :
    let a := Value.number Double.infinity
    let b := Value.number 2
    let r := (mod.apply a b).result (Machine.initial "" 0)
    a.IsRuntime ∧ b.IsRuntime ∧ mod.LacksRemainder a b ∧ mod.Answers a b r ∧
      r = .error (.fault .infiniteRemainder) := by
  intro a b r
  have ha : a.IsRuntime := Value.isRuntime_unplaced (p := .number _) trivial
  have hb : b.IsRuntime := Value.isRuntime_unplaced (p := .number _) trivial
  obtain ⟨hanswers, hremainder, -⟩ := apply_refusals (o := mod) ha hb (Machine.initial "" 0)
  exact ⟨ha, hb, lacksRemainder_infinity, hanswers, hremainder.mpr lacksRemainder_infinity⟩

/-- Not every operator on two such values gives a value or a diagnostic. -/
theorem not_forall_apply :
    ¬ ∀ (o : Operator) (a b : Value) (m : Machine), a.IsRuntime → b.IsRuntime →
      (∃ v, (o.apply a b).result m = .ok v) ∨
        ∃ d, (o.apply a b).result m = .error (.failure d) := by
  intro h
  have ha : (Value.number Double.infinity).IsRuntime :=
    Value.isRuntime_unplaced (p := .number _) trivial
  have hb : (Value.number 2).IsRuntime := Value.isRuntime_unplaced (p := .number _) trivial
  have hfault := lacksRemainder_infinity.result_eq (m := Machine.initial "" 0) ha hb
  obtain ⟨v, hv⟩ | ⟨d, hd⟩ :=
    h mod (.number Double.infinity) (.number 2) (Machine.initial "" 0) ha hb
  · cases hfault.symm.trans hv
  · cases hfault.symm.trans hd

end Operator

end Lumen
