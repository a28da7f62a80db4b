import Lumen.Node

/-!
# Programs at other places

A program is moved by moving every position in it. Erasing the positions moves them all to the same
place, so two programs that are equal after it differ in nothing but where they stand.
-/

namespace Lumen

variable {f g : Position → Position}

namespace Token

def move (f : Position → Position) (t : Token) : Token := ⟨t.kind, t.value, f t.start, f t.stop⟩

def erase (t : Token) : Token := t.move fun _ => default

@[simp] theorem move_kind (t : Token) : (t.move f).kind = t.kind := rfl

@[simp] theorem move_value (t : Token) : (t.move f).value = t.value := rfl

@[simp] theorem move_start (t : Token) : (t.move f).start = f t.start := rfl

@[simp] theorem move_stop (t : Token) : (t.move f).stop = f t.stop := rfl

@[simp] theorem move_is (t : Token) (k : TokenKind) (s : String) : (t.move f).is k s = t.is k s :=
  rfl

@[simp] theorem move_isNewline (t : Token) : (t.move f).isNewline = t.isNewline := rfl

@[simp] theorem move_comp_move : move g ∘ move f = move (g ∘ f) := rfl

@[simp] theorem erase_move (t : Token) : (t.move f).erase = t.erase := rfl

theorem erase_eq_erase_iff (t u : Token) :
    t.erase = u.erase ↔ t.kind = u.kind ∧ t.value = u.value := by
  simp [erase, move]

end Token

namespace Node

mutual

def move (f : Position → Position) : Node → Node
  | number t => number (t.move f)
  | text t => text (t.move f)
  | null t => null (t.move f)
  | list elements p q => list (moveAll f elements) (f p) (f q)
  | block statements p q => block (moveAll f statements) (f p) (f q)
  | ternary condition left right => ternary (condition.move f) (left.move f) (right.move f)
  | binary left op right => binary (left.move f) (op.move f) (right.move f)
  | unary op operand => unary (op.move f) (operand.move f)
  | lookup t => lookup (t.move f)
  | assign t value => assign (t.move f) (value.move f)
  | index target i upTo q => index (target.move f) (i.move f) (moveOption f upTo) (f q)
  | assignIndex t i value => assignIndex (t.move f) (i.move f) (value.move f)
  | conditional cases otherwise p q =>
    conditional (moveCases f cases) (moveOption f otherwise) (f p) (f q)
  | forLoop t first last step body p q =>
    forLoop (t.move f) (first.move f) (last.move f) (moveOption f step) (body.move f) (f p) (f q)
  | eachLoop t iterable body p q =>
    eachLoop (t.move f) (iterable.move f) (body.move f) (f p) (f q)
  | whileLoop condition body p q => whileLoop (condition.move f) (body.move f) (f p) (f q)
  | breakLoop t => breakLoop (t.move f)
  | continueLoop t => continueLoop (t.move f)
  | function name params body isExpression p q =>
    function (name.map (Token.move f)) (params.map (Token.move f)) (body.move f) isExpression
      (f p) (f q)
  | call callee args q => call (callee.move f) (moveAll f args) (f q)
  | giveBack value p q => giveBack (moveOption f value) (f p) (f q)

def moveAll (f : Position → Position) : List Node → List Node
  | [] => []
  | e :: es => e.move f :: moveAll f es

def moveOption (f : Position → Position) : Option Node → Option Node
  | none => none
  | some e => some (e.move f)

def moveCases (f : Position → Position) : List (Node × Node) → List (Node × Node)
  | [] => []
  | (condition, body) :: cases => (condition.move f, body.move f) :: moveCases f cases

end

def erase (e : Node) : Node := e.move fun _ => default

theorem moveAll_eq_map (f : Position → Position) (es : List Node) :
    moveAll f es = es.map (move f) := by
  induction es with
  | nil => rw [moveAll, List.map_nil]
  | cons e es ih => rw [moveAll, ih, List.map_cons]

theorem moveOption_eq_map (f : Position → Position) (e : Option Node) :
    moveOption f e = e.map (move f) := by
  cases e with
  | none => rw [moveOption, Option.map_none]
  | some e => rw [moveOption, Option.map_some]

theorem moveCases_eq_map (f : Position → Position) (cases : List (Node × Node)) :
    moveCases f cases = cases.map (Prod.map (move f) (move f)) := by
  induction cases with
  | nil => rw [moveCases, List.map_nil]
  | cons c cases ih =>
    obtain ⟨condition, body⟩ := c
    rw [moveCases, ih, List.map_cons, Prod.map]

@[simp] theorem move_start (e : Node) : (e.move f).start = f e.start := by
  fun_induction start e <;> simp_all [move, start]

@[simp] theorem move_stop (e : Node) : (e.move f).stop = f e.stop := by
  fun_induction stop e <;> simp_all [move, stop]

mutual

theorem move_move (e : Node) : (e.move f).move g = e.move (g ∘ f) := by
  cases e <;> simp [move, ← Token.move_comp_move, move_move, moveAll_moveAll,
    moveOption_moveOption, moveCases_moveCases]

theorem moveAll_moveAll (es : List Node) : moveAll g (moveAll f es) = moveAll (g ∘ f) es := by
  cases es <;> simp [moveAll, move_move, moveAll_moveAll]

theorem moveOption_moveOption (e : Option Node) :
    moveOption g (moveOption f e) = moveOption (g ∘ f) e := by
  cases e <;> simp [moveOption, move_move]

theorem moveCases_moveCases (cases : List (Node × Node)) :
    moveCases g (moveCases f cases) = moveCases (g ∘ f) cases := by
  cases cases <;> simp [moveCases, move_move, moveCases_moveCases]

end

/-- Where a program stands does not show once its positions are erased. -/
@[simp] theorem erase_move (e : Node) : (e.move f).erase = e.erase := move_move e

/-! ## Moving node by node -/

section

variable (a b c : Node) (es : List Node) (o : Option Node) (p q : Position)

@[simp] theorem move_list : (list es p q).move f = list (es.map (move f)) (f p) (f q) := by
  rw [move, moveAll_eq_map]

@[simp] theorem move_block : (block es p q).move f = block (es.map (move f)) (f p) (f q) := by
  rw [move, moveAll_eq_map]

@[simp] theorem move_index :
    (index a b o q).move f = index (a.move f) (b.move f) (o.map (move f)) (f q) := by
  rw [move, moveOption_eq_map]

@[simp] theorem move_conditional (cases : List (Node × Node)) :
    (conditional cases o p q).move f =
      conditional (cases.map (Prod.map (move f) (move f))) (o.map (move f)) (f p) (f q) := by
  rw [move, moveCases_eq_map, moveOption_eq_map]

@[simp] theorem move_forLoop (t : Token) :
    (forLoop t a b o c p q).move f =
      forLoop (t.move f) (a.move f) (b.move f) (o.map (move f)) (c.move f) (f p) (f q) := by
  rw [move, moveOption_eq_map]

@[simp] theorem move_call : (call a es q).move f = call (a.move f) (es.map (move f)) (f q) := by
  rw [move, moveAll_eq_map]

@[simp] theorem move_giveBack :
    (giveBack o p q).move f = giveBack (o.map (move f)) (f p) (f q) := by
  rw [move, moveOption_eq_map]

end

/-! ## Erasing node by node -/

section

variable (t op : Token) (a b c : Node) (es : List Node) (o : Option Node) (p q : Position)

@[simp] theorem erase_number : (number t).erase = number t.erase := rfl

@[simp] theorem erase_text : (text t).erase = text t.erase := rfl

@[simp] theorem erase_null : (null t).erase = null t.erase := rfl

@[simp] theorem erase_lookup : (lookup t).erase = lookup t.erase := rfl

@[simp] theorem erase_breakLoop : (breakLoop t).erase = breakLoop t.erase := rfl

@[simp] theorem erase_continueLoop : (continueLoop t).erase = continueLoop t.erase := rfl

@[simp] theorem erase_list : (list es p q).erase = list (es.map erase) default default :=
  move_list es p q

@[simp] theorem erase_block : (block es p q).erase = block (es.map erase) default default :=
  move_block es p q

@[simp] theorem erase_ternary : (ternary a b c).erase = ternary a.erase b.erase c.erase := rfl

@[simp] theorem erase_binary : (binary a op b).erase = binary a.erase op.erase b.erase := rfl

@[simp] theorem erase_unary : (unary op a).erase = unary op.erase a.erase := rfl

@[simp] theorem erase_assign : (assign t a).erase = assign t.erase a.erase := rfl

@[simp] theorem erase_index :
    (index a b o q).erase = index a.erase b.erase (o.map erase) default := move_index a b o q

@[simp] theorem erase_assignIndex :
    (assignIndex t a b).erase = assignIndex t.erase a.erase b.erase := rfl

@[simp] theorem erase_conditional (cases : List (Node × Node)) :
    (conditional cases o p q).erase =
      conditional (cases.map (Prod.map erase erase)) (o.map erase) default default :=
  move_conditional o p q cases

@[simp] theorem erase_forLoop :
    (forLoop t a b o c p q).erase =
      forLoop t.erase a.erase b.erase (o.map erase) c.erase default default :=
  move_forLoop a b c o p q t

@[simp] theorem erase_eachLoop :
    (eachLoop t a b p q).erase = eachLoop t.erase a.erase b.erase default default := rfl

@[simp] theorem erase_whileLoop :
    (whileLoop a b p q).erase = whileLoop a.erase b.erase default default := rfl

@[simp] theorem erase_function (name : Option Token) (params : List Token) (isExpression : Bool) :
    (function name params a isExpression p q).erase =
      function (name.map Token.erase) (params.map Token.erase) a.erase isExpression
        default default := rfl

@[simp] theorem erase_call : (call a es q).erase = call a.erase (es.map erase) default :=
  move_call a es q

@[simp] theorem erase_giveBack :
    (giveBack o p q).erase = giveBack (o.map erase) default default := move_giveBack o p q

end

end Node

end Lumen
