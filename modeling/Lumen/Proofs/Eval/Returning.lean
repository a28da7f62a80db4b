import Lumen.Proofs.Eval.Room

/-!
# Functions whose body is an expression

A function whose body is an expression gives back the expression's value. It is the same function
as one whose block returns the expression: whatever the expression does, by a value, a signal or a
failure, a call of either ends in the same way and leaves the same machine. Only the block nests two
levels deeper.
-/

namespace Lumen

/-- The function with a block that returns the body. What places the block and the statement have
does not matter. -/
def Closure.returning (f : Closure) (p q p' q' : Tree) : Closure where
  __ := f
  body := .node .block [.list [.node .giveBack [f.body, p, q]], p', q']
  isExpression := false

/-- What a call makes of the way the body ends. -/
def Closure.answer (f : Closure) : Except Stop (Option Value) → Exec Value
  | .ok v => return if f.isExpression then Value.orNull v else Value.null
  | .error (.giveBack v) => return v
  | .error .breakLoop | .error .continueLoop => return Value.null
  | .error e => throw e

namespace Exec

variable {α β : Type}

theorem attempt_throw (e : Stop) : attempt (throw e : Exec α) = pure (.error e) := rfl

theorem attempt_bind (x : Exec α) (f : α → Exec β) :
    attempt (x >>= f) = attempt x >>= fun
      | .ok a => attempt (f a)
      | .error e => pure (.error e) := by
  refine ExceptT.ext (StateT.ext fun m => ?_)
  simp only [attempt, ExceptT.run_bind, ExceptT.run_lift, StateT.run_bind, StateT.run_map,
    bind_map_left]
  rcases x.run.run m with ⟨r, m'⟩
  cases r <;> rfl

end Exec

namespace Eval

variable {ev : Evaluator} {f : Closure} {p q p' q' : Tree} {c : ScopeId} {place : Span}
  {args : List Value} {rounds room : Nat}

theorem callClosure_eq : callClosure ev f place args = (do
    if args.length ≠ f.params.length then
      Exec.fail
        (Diagnostic.onSpan (.argumentCount f.displayName f.params.length args.length) place)
    let inner ← Exec.newScope (callScope f)
    bindAll inner f.params args
    f.answer (← Exec.attempt (ev f.body inner))) := rfl

/-- The block ends with the value as a signal, or in the way that the body ends. -/
theorem evaluate_returning (hbody : f.body.isNull = false) :
    evaluate rounds (room + 2) (f.returning p q p' q').body c =
      evaluate rounds room f.body c >>= fun v => throw (.giveBack (Value.orNull v)) := by
  have hreturn (ev : Evaluator) (n : Tree) : giveBack ev c f.body n =
      ev f.body c >>= fun v => throw (.giveBack (Value.orNull v)) := by
    simp [giveBack, hbody, operand]
  rw [Closure.returning, evaluate, step, block, Tree.items, Exec.ofDocument_ok, pure_bind, sequence,
    evaluate, step, hreturn, bind_assoc]
  rfl

/-- Whatever way the body ends, it is answered as the block that returns it. -/
theorem answer_returning (hexpr : f.isExpression = true) (x : Exec (Option Value)) :
    (Exec.attempt (x >>= fun v => throw (.giveBack (Value.orNull v))) >>=
      (f.returning p q p' q').answer) = Exec.attempt x >>= f.answer := by
  rw [Exec.attempt_bind, bind_assoc]
  refine bind_congr fun r => ?_
  cases r with
  | ok v => simp [Exec.attempt_throw, Closure.answer, hexpr]
  | error e =>
    -- A signal of the body passes the block and is taken up by the call all the same.
    cases e with
    | _ => rfl

/-- A function whose body is an expression and the one that returns the expression answer every
call alike, two levels of nesting apart. At one level they do so unless the block is nested too
deep. -/
theorem callValue_returning (rounds room : Nat) (p q p' q' : Tree) (hexpr : f.isExpression = true)
    (hbody : f.body.isNull = false) (place : Span) (args : List Value) :
    let call (room : Nat) (f : Closure) :=
      callValue room (evaluate rounds room) ⟨.function f, place⟩ args
    let g := f.returning p q p' q'
    call (room + 2) g = call room f ∧
      ∀ m, (call room g).result m = .error .exhausted ∨
        (call room g).result m = (call room f).result m ∧
          (call room g).final m = (call room f).final m := by
  intro call g
  have hdeeper : call (room + 2) g = call room f := by
    refine (callClosure_eq (f := g)).trans (Eq.trans ?_ callClosure_eq.symm)
    simp only [g, evaluate_returning hbody, answer_returning hexpr]
    rfl
  refine ⟨hdeeper, fun m => ?_⟩
  rw [← hdeeper]
  refine (callValue_of_le rounds (Nat.le_add_right room 2) ⟨.function g, place⟩ args m).imp_right ?_
  exact fun ⟨hr, hm⟩ => ⟨hr.symm, hm.symm⟩

/-- A function that does nothing but break a loop that is not there. -/
theorem callValue_returning_break :
    let first : Position := ⟨"f", 1, 1, 0⟩
    let next : Position := ⟨"f", 1, 6, 5⟩
    let body := Tree.ofNode (.breakLoop ⟨.keyword, .text "break", first, next⟩)
    let f : Closure := ⟨.text "f", [], body, true, Store.root⟩
    let p := Tree.ofPosition first
    let q := Tree.ofPosition next
    let call (room : Nat) (f : Closure) :=
      callValue room (evaluate 8 room) ⟨.function f, Span.make first next⟩ []
    (f.isExpression = true ∧ f.body.isNull = false) ∧
      call 6 (f.returning p q p q) = call 4 f ∧
      (call 4 f).result (Machine.initial "" 0) = .ok Value.null := by
  intro first next body f p q call
  exact ⟨⟨rfl, rfl⟩, (callValue_returning 8 4 p q p q rfl rfl _ []).1, rfl⟩

end Eval

end Lumen
