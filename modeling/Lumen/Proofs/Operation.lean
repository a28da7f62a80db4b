import Lumen.Builtin
import Lumen.Proofs.Exec

/-!
# What operators make

An operator gives one of its operands or a new plain value, or refuses without a signal. Joining two
lists is the one operation that needs the store, and is left out here.
-/

namespace Lumen

/-- Neither a list nor a function, and a value that can be copied. -/
def Payload.IsPlain : Payload → Prop
  | .list _ | .function _ | .base => False
  | _ => True

namespace Value

/-- A value without a place that is neither a list nor a function. -/
def IsNew (v : Value) : Prop := v.payload.IsPlain ∧ v.span = Span.none

theorem isNew_unplaced {p : Payload} (h : p.IsPlain) : (unplaced p).IsNew := ⟨h, rfl⟩

theorem isNew_number (x : Float) : (number x).IsNew := ⟨trivial, rfl⟩

theorem isNew_text (s : String) : (text s).IsNew := ⟨trivial, rfl⟩

theorem isNew_null : null.IsNew := ⟨trivial, rfl⟩

theorem isNew_ofBool (b : Bool) : (ofBool b).IsNew := isNew_number _

def MadeFrom (a b v : Value) : Prop := v = a ∨ v = b ∨ v.IsNew

theorem IsNew.madeFrom {v : Value} (a b : Value) (h : v.IsNew) : MadeFrom a b v := .inr (.inr h)

section

variable {a b v : Value} {o : Operator}

theorem gives_refuse {α : Type} {P : α → Prop} (c : Complaint) (v : Value) :
    Gives P (refuse c v) := Gives.failure _

theorem gives_needNumber (v : Value) : Gives (fun _ => True) v.needNumber := by
  unfold needNumber
  split
  · trivial
  · exact gives_refuse _ _

theorem gives_needDivisor (v : Value) : Gives (fun _ => True) v.needDivisor := by
  refine (gives_needNumber v).bind fun y _ => ?_
  split
  · exact gives_refuse _ _
  · trivial

theorem gives_refuseBetween {α : Type} {P : α → Prop} (c : Complaint) (a b : Value) :
    Gives P (refuseBetween c a b) := by
  unfold refuseBetween
  split
  · exact Gives.failure _
  · exact Gives.fault _

theorem gives_incomparable {α : Type} {P : α → Prop} (a b : Value) :
    Gives P (incomparable a b) := by
  unfold incomparable
  split
  · exact gives_refuse _ _
  · exact gives_refuseBetween _ _ _

theorem gives_numberOperation (o : Operator) (x : Float) (b : Value) :
    Gives IsNew (numberOperation o x b) := by
  cases o with
  | add | sub | mul | pow => exact (gives_needNumber b).bind fun y _ => isNew_number _
  | div => exact (gives_needDivisor b).bind fun y _ => isNew_number _
  | mod =>
    refine (gives_needDivisor b).bind fun y _ => ?_
    cases Double.remainder? x y with
    | some r => exact isNew_number r
    | none => exact Gives.fault _
  | _ => exact gives_refuse _ _

theorem gives_grown (growth : Growth) (size : Nat) (s : Unit → String) :
    Gives IsNew (grown growth size s) := by
  rcases grown_cases growth size s with h | h
  · exact h ▸ isNew_text _
  · exact h ▸ Gives.fault _

theorem gives_repeated (s : String) (count : Int) : Gives IsNew (repeated s count) := by
  unfold repeated
  split
  · exact Gives.fault _
  · split
    · exact isNew_text _
    · exact gives_grown _ _ _

theorem gives_textOperation (o : Operator) (a : Value) (s : String) (b : Value) :
    Gives IsNew (textOperation o a s b) := by
  cases o with
  | add =>
    unfold textOperation
    dsimp only
    split
    · exact gives_grown _ _ _
    · exact gives_refuse _ _
  | mul =>
    refine (gives_needNumber b).bind fun y _ => ?_
    split
    · exact gives_repeated _ _
    · exact gives_refuse _ _
  | _ => exact gives_refuse _ _

theorem gives_arithmetic (o : Operator) (a b : Value) : Gives IsNew (arithmetic o a b) := by
  unfold arithmetic
  split
  · exact gives_numberOperation _ _ _
  · exact gives_textOperation _ _ _ _
  · split
    · exact gives_refuse _ _
    · exact gives_refuse _ _
  · exact gives_refuse _ _

theorem gives_ordered (numbers : Float → Float → Bool) (texts : String → String → Bool)
    (a b : Value) : Gives IsNew (ordered numbers texts a b) := by
  unfold ordered
  split
  · exact isNew_ofBool _
  · exact isNew_ofBool _
  · exact gives_incomparable _ _

theorem madeFrom_both (a b : Value) : MadeFrom a b (both a b) := by
  unfold both
  split
  · exact .inr (.inl rfl)
  · exact (isNew_ofBool _).madeFrom a b

theorem madeFrom_either (a b : Value) : MadeFrom a b (either a b) := by
  unfold either
  split
  · exact .inl rfl
  · split
    · exact .inr (.inl rfl)
    · exact (isNew_ofBool _).madeFrom a b

theorem gives_operate (o : Operator) (a b : Value) : Gives (MadeFrom a b) (operate o a b) := by
  have hnew {r : Except Stop Value} (h : Gives IsNew r) : Gives (MadeFrom a b) r :=
    h.mono fun v hv => hv.madeFrom a b
  cases o with
  | eq | ne => exact (isNew_ofBool _).madeFrom a b
  | gt | ge | lt | le => exact hnew (gives_ordered _ _ _ _)
  | and => exact madeFrom_both a b
  | or => exact madeFrom_either a b
  | _ => exact hnew (gives_arithmetic _ _ _)

theorem gives_logical {r : Except Fault Value} (h : ∀ v, r = .ok v → MadeFrom a b v) :
    Gives (MadeFrom a b) (r.mapError Stop.fault) := (Gives.ofDocument r).mono h

theorem gives_data (r : Except Fault Json) :
    Gives (MadeFrom a b) ((r.mapError Stop.fault).map fun j => unplaced (.datum j)) :=
  (Gives.ofDocument r).map fun j _ => (isNew_unplaced (p := .datum j) trivial).madeFrom a b

theorem gives_operateData (o : Operator) (a b : Value) :
    Gives (MadeFrom a b) (operateData o a b) := by
  have hbool (x : Bool) : MadeFrom a b (ofBool x) := (isNew_ofBool x).madeFrom a b
  have horder (r : Except Fault Bool) :
      Gives (MadeFrom a b) ((r.mapError Stop.fault).map ofBool) :=
    (Gives.ofDocument r).map fun x _ => hbool x
  unfold operateData
  dsimp only
  split
  · apply gives_logical
    intro v hv
    cases ha : a.truth with
    | error f => simp [ha, bind, Except.bind] at hv
    | ok x =>
      cases hb : b.truth with
      | error f => cases x <;> simp_all [bind, Except.bind, pure, Except.pure]
      | ok y => cases x <;> cases y <;> simp_all [bind, Except.bind, pure, Except.pure, MadeFrom]
  · apply gives_logical
    intro v hv
    cases ha : a.truth with
    | error f => simp [ha, bind, Except.bind] at hv
    | ok x =>
      cases hb : b.truth with
      | error f => cases x <;> simp_all [bind, Except.bind, pure, Except.pure, MadeFrom]
      | ok y => cases x <;> cases y <;> simp_all [bind, Except.bind, pure, Except.pure, MadeFrom]
  · exact hbool _
  · exact hbool _
  · exact gives_data _
  · exact horder _
  · exact horder _
  · exact horder _
  · exact horder _
  · exact gives_refuse _ _
  · refine (gives_needNumber b).bind fun y _ => ?_
    split
    · exact gives_data _
    · exact gives_refuse _ _
  · exact gives_operate _ _ _

theorem gives_copyTo (v : Value) (s : Span) :
    Gives (fun w => w.payload = v.payload) (v.copyTo s) := by
  unfold copyTo
  split
  · exact Gives.fault _
  · rfl

theorem gives_checkIndex (length : Nat) (upper : Int) (index : Value) :
    Gives (fun _ => True) (checkIndex length upper index) := by
  unfold checkIndex
  split
  · split
    · dsimp only
      split
      · exact gives_refuse _ _
      · trivial
    · exact gives_refuse _ _
  · exact gives_refuse _ _

theorem gives_checkSlice (length : Nat) (index upTo : Value) :
    Gives (fun _ => True) (checkSlice length index upTo) := by
  refine (gives_checkIndex _ _ _).bind fun start _ => (gives_checkIndex _ _ _).bind fun stop _ => ?_
  split
  · exact gives_refuseBetween _ _ _
  · trivial

theorem isNew_of_negation {a v : Value} (h : a.negation = .ok v) : v.IsNew := by
  cases ha : a.truth with
  | error f => simp [negation, ha, bind, Except.bind] at h
  | ok x =>
    simp only [negation, ha, bind, Except.bind, pure, Except.pure, Except.ok.injEq] at h
    exact h ▸ isNew_ofBool _

end

end Value

namespace Builtin

open Value (IsNew isNew_text)

theorem gives_replaceIn (s old new : String) : Gives IsNew (replaceIn s old new) := by
  rcases replaceIn_cases s old new with h | h
  · exact h ▸ isNew_text _
  · exact h ▸ Gives.fault _

theorem gives_changeCase (map : String → String) (s : String) :
    Gives IsNew (changeCase map s) := by
  rcases changeCase_cases map s with h | h
  · exact h ▸ isNew_text _
  · exact h ▸ Gives.fault _

end Builtin

end Lumen
