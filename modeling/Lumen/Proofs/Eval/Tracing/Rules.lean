import Lumen.Proofs.Eval.Tracing

/-!
# The trace of evaluation

Each rule writes its messages at the level that they have, and looks at nothing else of the trace.
So evaluation is quiet if the evaluation of the parts is, and by induction on the depth it is.
-/

namespace Lumen.Eval

open Exec (Quiet quiet_pure quiet_throw quiet_fail quiet_ofExcept quiet_ofDocument quiet_store
  quiet_updateStore quiet_newList quiet_newScope quiet_text quiet_note quiet_noteValue quiet_holds
  quiet_access quiet_assign)

variable {α : Type} {d rounds room : Nat} {ev : Evaluator} {c : ScopeId}

theorem quiet_nameOf (t : Tree) : Quiet d (nameOf t) := quiet_ofDocument _

theorem quiet_failAt (complaint : Complaint) (n : Tree) : Quiet d (failAt complaint n : Exec α) :=
  (quiet_ofDocument _).bind fun _ => quiet_fail _

theorem quiet_placed (p : Payload) (n : Tree) : Quiet d (placed p n) :=
  (quiet_ofDocument _).bind fun _ => quiet_pure _

theorem quiet_resultAt (v : Value) (n : Tree) : Quiet d (resultAt v n) :=
  (quiet_ofDocument _).bind fun _ => (quiet_ofExcept _).bind fun _ => quiet_pure _

theorem quiet_goesOn {body : Exec (Option Value)} (h : Quiet d body) : Quiet d (goesOn body) := by
  refine h.attempt.bind fun r => ?_
  split
  · exact quiet_pure _
  · exact quiet_pure _
  · exact quiet_pure _
  · exact quiet_throw _

/-! ## Rules without parts -/

theorem quiet_numberLiteral (t n : Tree) : Quiet d (numberLiteral t n) :=
  (quiet_ofDocument _).bind fun _ => (quiet_ofDocument _).bind fun _ => quiet_placed _ _

theorem quiet_textLiteral (t n : Tree) : Quiet d (textLiteral t n) := by
  refine (quiet_ofDocument _).bind fun _ => ?_
  split
  · exact quiet_placed _ _
  · exact quiet_placed _ _

theorem quiet_lookup (t n : Tree) : Quiet d (lookup c t n) := by
  refine (quiet_nameOf _).bind fun _ => quiet_store.bind fun _ => ?_
  split
  · exact quiet_placed _ _
  · exact quiet_resultAt _ _

theorem quiet_signed (sign : Json) (a : Value) : Quiet d (signed sign a) := by
  unfold signed
  split
  · exact .ite (Operator.quiet_apply _ _ _) (.ite (quiet_ofDocument _) (quiet_pure _))
  · exact quiet_pure _

theorem quiet_bindFunction (name : Json) (v : Value) : Quiet d (bindFunction c name v) := by
  unfold bindFunction
  split
  · exact quiet_pure _
  · exact quiet_updateStore _
  · exact quiet_throw _

theorem quiet_function (t params body isExpression n : Tree) :
    Quiet d (function c t params body isExpression n) := by
  refine (quiet_ofDocument _).bind fun _ => (quiet_ofDocument _).bind fun _ => ?_
  refine (quiet_ofDocument _).bind fun _ => (quiet_bindFunction _ _).bind fun _ => ?_
  refine (quiet_ofDocument _).bind fun _ => (quiet_note ?_).bind fun _ => quiet_pure _
  simp only [String.append_assoc]
  exact levelOf_append (w := "define function ") (by decide) _

/-! ## Rules with parts -/

section

-- The evaluator of the parts is quiet on all of them, in every scope.
variable (h : ∀ t c, Quiet d (ev t c))
include h

theorem quiet_operand (t : Tree) : Quiet d (operand ev t c) := (h t c).bind fun _ => quiet_pure _

theorem quiet_operands (ts : List Tree) : Quiet d (operands ev c ts) := by
  induction ts with
  | nil => exact quiet_pure _
  | cons t ts ih => exact (quiet_operand h t).bind fun _ => ih.bind fun _ => quiet_pure _

theorem quiet_sequence (last : Option Value) (ts : List Tree) :
    Quiet d (sequence ev c last ts) := by
  induction ts generalizing last with
  | nil => exact quiet_pure _
  | cons t ts ih => exact (h t c).bind fun v => ih v

theorem quiet_block (statements : Tree) : Quiet d (block ev c statements) :=
  (quiet_ofDocument _).bind fun _ => quiet_sequence h _ _

theorem quiet_listLiteral (elements n : Tree) : Quiet d (listLiteral ev c elements n) :=
  (quiet_ofDocument _).bind fun _ => (quiet_operands h _).bind fun _ =>
    (quiet_newList _).bind fun _ => quiet_placed _ _

theorem quiet_binary (left op right n : Tree) : Quiet d (binary ev c left op right n) := by
  refine (quiet_operand h right).bind fun _ => (quiet_operand h left).bind fun _ => ?_
  refine (quiet_nameOf _).bind fun _ => ?_
  split
  · exact quiet_failAt _ _
  · exact (Operator.quiet_apply _ _ _).located.bind fun _ => quiet_resultAt _ _

theorem quiet_unary (op operand n : Tree) : Quiet d (unary ev c op operand n) :=
  (quiet_operand h operand).bind fun _ => (quiet_ofDocument _).bind fun _ =>
    (quiet_signed _ _).located.bind fun _ => quiet_resultAt _ _

theorem quiet_ternary (condition left right : Tree) :
    Quiet d (ternary ev c condition left right) :=
  (quiet_operand h condition).bind fun _ => (quiet_holds _).bind fun _ =>
    .ite (h left c) (h right c)

theorem quiet_assignName (t value : Tree) : Quiet d (assign room ev c t value) := by
  refine (quiet_operand h value).bind fun _ => (quiet_nameOf _).bind fun _ => ?_
  refine (quiet_updateStore _).bind fun _ => (quiet_noteValue fun text => ?_).bind fun _ => ?_
  · simp only [String.append_assoc]
    exact levelOf_append (w := "assign ") (by decide) _
  · exact quiet_pure _

theorem quiet_indexOperand (complaint : Complaint) (i n : Tree) :
    Quiet d (indexOperand ev c complaint i n) :=
  (quiet_operand h i).bind fun _ => .ite (quiet_pure _) (quiet_failAt _ _).located

theorem quiet_upToOperand (upTo n : Tree) : Quiet d (upToOperand ev c upTo n) :=
  .ite (quiet_pure _) ((quiet_indexOperand h _ _ _).bind fun _ => quiet_pure _)

theorem quiet_index (target i upTo n : Tree) : Quiet d (index ev c target i upTo n) := by
  refine (quiet_operand h target).bind fun _ => (quiet_indexOperand h _ i n).bind fun _ => ?_
  refine (quiet_upToOperand h upTo n).bind fun _ => ?_
  split
  · exact (quiet_access _ _ _).located.bind fun _ => quiet_pure _
  · exact (quiet_fail _).located

theorem quiet_assignIndex (t i value n : Tree) : Quiet d (assignIndex room ev c t i value n) := by
  refine (quiet_nameOf _).bind fun _ => quiet_store.bind fun _ => ?_
  split
  · refine (quiet_operand h i).bind fun _ => (quiet_operand h value).bind fun _ => ?_
    refine (quiet_failAt _ _).located.optionally ((quiet_assign _ _ _).located.bind fun _ => ?_)
    refine (quiet_text _ _ _).bind fun slot => (quiet_noteValue fun text => ?_).bind fun _ => ?_
    · simp only [String.append_assoc]
      exact levelOf_append (w := "assign ") (by decide) _
    · exact quiet_pure _
  · exact (quiet_failAt _ _).located

theorem quiet_cases (otherwise : Tree) (guarded : List Tree) :
    Quiet d (cases ev c otherwise guarded) := by
  induction guarded with
  | nil => exact .ite (quiet_pure _) ((quiet_note (by decide)).bind fun _ => h _ _)
  | cons g guarded ih =>
    refine (quiet_ofDocument _).bind fun condition => (quiet_operand h condition).bind fun _ => ?_
    refine (quiet_holds _).bind fun _ => .ite ?_ ih
    refine (quiet_ofDocument _).bind fun _ => (quiet_note ?_).bind fun _ => ?_
    · exact levelOf_append (w := "if: taking case at ") (by decide) _
    · exact (quiet_ofDocument _).bind fun _ => h _ _

theorem quiet_conditional (guarded otherwise : Tree) :
    Quiet d (conditional ev c guarded otherwise) :=
  (quiet_ofDocument _).bind fun _ => quiet_cases h _ _

theorem quiet_whileRounds (condition body : Tree) (fuel : Nat) :
    Quiet d (whileRounds ev c condition body fuel) := by
  induction fuel with
  | zero => exact quiet_throw _
  | succ fuel ih =>
    refine (quiet_operand h condition).bind fun _ => (quiet_holds _).bind fun _ => ?_
    exact .ite ((quiet_goesOn (h body c)).bind fun _ => .ite ih (quiet_pure _)) (quiet_pure _)

theorem quiet_bound (word : String) (n : Tree) : Quiet d (bound ev c word n) := by
  refine (quiet_operand h n).bind fun _ => ?_
  split
  · exact quiet_pure _
  · exact (quiet_failAt _ _).located

theorem quiet_stepOf (step n : Tree) : Quiet d (stepOf ev c step n) :=
  .ite (quiet_pure _) ((quiet_bound h _ _).bind fun _ =>
    .ite (quiet_failAt _ _).located (quiet_pure _))

theorem quiet_countRounds (name : Scalar) (last step : Float) (body : Tree) (fuel : Nat)
    (cursor : Float) : Quiet d (countRounds ev c name last step body fuel cursor) := by
  induction fuel generalizing cursor with
  | zero => exact quiet_throw _
  | succ fuel ih =>
    refine .ite ?_ (quiet_updateStore _)
    refine (quiet_updateStore _).bind fun _ => (quiet_note ?_).bind fun _ => ?_
    · simp only [String.append_assoc]
      exact levelOf_append (w := "for: ") (by decide) _
    · exact (quiet_goesOn (h body c)).bind fun _ => .ite (ih _) (quiet_pure _)

theorem quiet_forLoop (t first last step body n : Tree) :
    Quiet d (forLoop rounds ev c t first last step body n) := by
  refine (quiet_bound h _ _).bind fun _ => (quiet_bound h _ _).bind fun _ => ?_
  refine (quiet_stepOf h _ _).bind fun _ => (quiet_nameOf _).bind fun _ => ?_
  exact (quiet_countRounds h _ _ _ _ _ _).bind fun _ => quiet_pure _

theorem quiet_eachRounds (name : Scalar) (l : ListId) (body : Tree) (fuel i : Nat) :
    Quiet d (eachRounds room ev c name l body fuel i) := by
  induction fuel generalizing i with
  | zero => exact quiet_throw _
  | succ fuel ih =>
    refine quiet_store.bind fun _ => ?_
    split
    · exact quiet_pure _
    refine (quiet_updateStore _).bind fun _ => (quiet_noteValue fun text => ?_).bind fun _ => ?_
    · simp only [String.append_assoc]
      exact levelOf_append (w := "each: ") (by decide) _
    · exact (quiet_goesOn (h body c)).bind fun _ => .ite (ih _) (quiet_pure _)

theorem quiet_eachLoop (t iterable body n : Tree) :
    Quiet d (eachLoop rounds room ev c t iterable body n) := by
  refine (quiet_operand h iterable).bind fun _ => ?_
  split
  · refine (quiet_nameOf _).bind fun _ => quiet_store.bind fun _ => ?_
    refine (quiet_eachRounds h _ _ _ _ _).bind fun _ => (quiet_updateStore _).bind fun _ => ?_
    exact quiet_pure _
  · exact (quiet_failAt _ _).located

theorem quiet_callClosure (f : Closure) (place : Span) (args : List Value) :
    Quiet d (callClosure ev f place args) := by
  refine (quiet_fail _).optionally ((quiet_newScope _).bind fun inner => ?_)
  refine (quiet_updateStore _).bind fun _ => (h f.body inner).attempt.bind fun r => ?_
  split
  · exact quiet_pure _
  · exact quiet_pure _
  · exact quiet_pure _
  · exact quiet_pure _
  · exact quiet_throw _

theorem quiet_callValue (v : Value) (args : List Value) :
    Quiet d (callValue room ev v args) := by
  unfold callValue
  split
  · exact Builtin.quiet_call _ _ _ _
  · exact quiet_callClosure h _ _ _
  · split
    · exact quiet_access _ _ _
    · exact quiet_access _ _ _
    · exact quiet_fail _
  · exact quiet_fail _

theorem quiet_call (callee args n : Tree) : Quiet d (call room ev c callee args n) := by
  refine (quiet_operand h callee).bind fun _ => (quiet_ofDocument _).bind fun _ => ?_
  refine (quiet_operands h _).bind fun _ => (quiet_noteValue fun text => ?_).bind fun _ => ?_
  · simp only [String.append_assoc]
    exact levelOf_append (w := "call ") (by decide) _
  · exact (quiet_callValue h _ _).located.bind fun _ => quiet_resultAt _ _

theorem quiet_giveBack (value n : Tree) : Quiet d (giveBack ev c value n) := by
  have hvalue : Quiet d (do throw (.giveBack (← operand ev value c)) : Exec (Option Value)) :=
    (quiet_operand h value).bind fun _ => quiet_throw _
  exact .ite ((quiet_ofDocument _).bind fun _ => (quiet_throw _).bind fun _ => hvalue) hvalue

theorem quiet_step (n : Tree) (c : ScopeId) : Quiet d (step rounds room ev n c) := by
  unfold step
  split
  · exact quiet_numberLiteral _ _
  · exact quiet_textLiteral _ _
  · exact quiet_placed _ _
  · exact quiet_listLiteral h _ _
  · exact quiet_block h _
  · exact quiet_ternary h _ _ _
  · exact quiet_binary h _ _ _ _
  · exact quiet_unary h _ _ _
  · exact quiet_lookup _ _
  · exact quiet_assignName h _ _
  · exact quiet_index h _ _ _ _
  · exact quiet_assignIndex h _ _ _ _
  · exact quiet_conditional h _ _
  · exact quiet_forLoop h _ _ _ _ _ _
  · exact quiet_eachLoop h _ _ _ _
  · exact (quiet_whileRounds h _ _ _).bind fun _ => quiet_pure _
  · exact quiet_throw _
  · exact quiet_throw _
  · exact quiet_function _ _ _ _ _
  · exact quiet_call h _ _ _
  · exact quiet_giveBack h _ _
  · exact quiet_throw _
  · exact quiet_throw _
  · exact quiet_throw _

end

/-- Evaluation does not depend on how far the trace goes down. -/
theorem quiet_evaluate (d rounds room : Nat) (t : Tree) (c : ScopeId) :
    Quiet d (evaluate rounds room t c) := by
  induction room generalizing t c with
  | zero => exact quiet_throw _
  | succ room ih => exact quiet_step ih t c

end Lumen.Eval
