import Lumen.Eval
import Lumen.Proofs.Exec

/-!
# The order of operands

An expression of binary operators is evaluated as a row of moves that the expression alone decides.
All its leaves are among them, each once and from the right to the left, and an operator is applied
when both its operands are there. No move depends on a value, so none is left out before one stops,
and what is no leaf does nothing that a program could see.
-/

namespace Lumen

def Tree.operator? (t : Tree) : Option Operator :=
  match t.name with
  | .ok s => s.text?.bind Operator.ofSymbol?
  | .error _ => none

theorem Tree.exists_name {t : Tree} {o : Operator} (h : t.operator? = some o) :
    ∃ s, t.name = .ok s ∧ s.text?.bind Operator.ofSymbol? = some o := by
  unfold operator? at h
  split at h
  · next s hs => exact ⟨s, hs, h⟩
  · cases h

/-- The machine is left as it is, but that there may be one more list. -/
def Machine.OnlyListAdded (m m' : Machine) : Prop :=
  m' = m ∨ ∃ elements, m' = { m with store := m.store.addList elements }

theorem Exec.final_located {α : Type} {s : Except Fault Span} {x : Exec α} {m : Machine} :
    (located s x).final m = x.final m := by
  suffices h : (located s x).Ends m fun _ m' => m' = x.final m from h
  rw [located, ends_bind, ends_attempt]
  unfold Ends
  cases x.result m with
  | ok a => rfl
  | error e =>
    cases e with
    | failure d =>
      dsimp only
      split
      · cases s <;> rfl
      · rfl
    | _ => rfl

theorem Operator.onlyListAdded_apply (o : Operator) (a b : Value) (m : Machine) :
    m.OnlyListAdded ((o.apply a b).final m) := by
  unfold apply
  split
  · exact .inr ⟨_, rfl⟩
  · exact .inl rfl

namespace Eval

/-- An expression of binary operators. What its leaves are is left open. -/
inductive Expression where
  | leaf (t : Tree)
  | binary (left : Expression) (op : Tree) (o : Operator) (writes : op.operator? = some o)
      (right : Expression)

namespace Expression

def tree : Expression → Tree
  | leaf t => t
  | binary left op _ _ right => .node .binary [left.tree, op, right.tree]

def leaves : Expression → List Tree
  | leaf t => [t]
  | binary left _ _ _ right => left.leaves ++ right.leaves

end Expression

/-- What is done for an expression. -/
inductive Move where
  /-- An operator takes a level of nesting. -/
  | enter (depth : Nat)
  | leaf (depth : Nat) (t : Tree)
  /-- The node `n` applies its operator to the two values found last, the right one before the left
  one. -/
  | apply (o : Operator) (n : Tree)

def Move.leaf? : Move → Option Tree
  | leaf _ t => some t
  | _ => none

@[simp] theorem Move.leaf?_enter (depth : Nat) : (enter depth).leaf? = none := rfl

@[simp] theorem Move.leaf?_leaf (depth : Nat) (t : Tree) : (leaf depth t).leaf? = some t := rfl

@[simp] theorem Move.leaf?_apply (o : Operator) (n : Tree) : (apply o n).leaf? = none := rfl

namespace Expression

def moves : Expression → (depth : Nat) → List Move
  | leaf t, depth => [.leaf depth t]
  | binary left op o writes right, depth =>
    .enter depth :: (right.moves (depth + 1) ++ left.moves (depth + 1) ++
      [.apply o (binary left op o writes right).tree])

/-- Every leaf has its move, and they come from the right to the left. -/
theorem filterMap_leaf?_moves (e : Expression) (depth : Nat) :
    (e.moves depth).filterMap Move.leaf? = e.leaves.reverse := by
  induction e generalizing depth with
  | leaf t => rfl
  | binary left op o writes right ihl ihr =>
    rw [leaves, List.reverse_append, ← ihl (depth + 1), ← ihr (depth + 1)]
    simp [moves, List.filterMap_cons]

end Expression

section

variable (rounds room : Nat) (c : ScopeId)

/-- Makes a move on the values found so far, the last one first. -/
def Move.make : Move → List Value → Exec (List Value)
  | enter depth, vs => if depth < room then return vs else throw .exhausted
  | leaf depth t, vs => do
    let v ← operand (evaluate rounds (room - depth)) t c
    return v :: vs
  | apply o n, a :: b :: vs => do
    let v ← resultAt (← Exec.located n.span (o.apply a b)) n
    return Value.orNull v :: vs
  | apply _ _, vs => return vs

def makeAll : List Move → List Value → Exec (List Value)
  | [], vs => return vs
  | move :: rest, vs => do makeAll rest (← move.make rounds room c vs)

/-- How a row of moves goes from the values `vs` and the machine `m`: each is made on what the one
before has left, up to the first that stops. -/
inductive Course : List Move → List Value → Machine → Except Stop (List Value) → Machine → Prop
  | done {vs m} : Course [] vs m (.ok vs) m
  | goesOn {move rest vs vs' m r m'} : (move.make rounds room c vs).result m = .ok vs' →
      Course rest vs' ((move.make rounds room c vs).final m) r m' →
      Course (move :: rest) vs m r m'
  | stops {move rest vs m e} : (move.make rounds room c vs).result m = .error e →
      Course (move :: rest) vs m (.error e) ((move.make rounds room c vs).final m)

end

variable {rounds room : Nat} {c : ScopeId}

theorem course_makeAll (moves : List Move) (vs : List Value) (m : Machine) :
    Course rounds room c moves vs m ((makeAll rounds room c moves vs).result m)
      ((makeAll rounds room c moves vs).final m) := by
  induction moves generalizing vs m with
  | nil => exact .done
  | cons move rest ih =>
    rw [makeAll, Exec.result_bind, Exec.final_bind]
    cases h : (move.make rounds room c vs).result m with
    | ok vs' => exact .goesOn h (ih vs' _)
    | error e => exact .stops h

/-- An operator is applied as its move does it, once its operands have been found. -/
theorem operand_binary {left right op : Tree} {o : Operator} (writes : op.operator? = some o) :
    operand (evaluate rounds (room + 1)) (.node .binary [left, op, right]) c =
      operand (evaluate rounds room) right c >>= fun b =>
        operand (evaluate rounds room) left c >>= fun a => do
          let n := Tree.node .binary [left, op, right]
          return Value.orNull (← resultAt (← Exec.located n.span (o.apply a b)) n) := by
  obtain ⟨s, hname, hsymbol⟩ := Tree.exists_name writes
  rw [operand, evaluate, step, binary]
  simp only [bind_assoc, nameOf, hname, Exec.ofDocument_ok, pure_bind, hsymbol]

/-- An expression may be evaluated by its moves, whatever moves follow. -/
theorem makeAll_moves (e : Expression) (depth : Nat) (rest : List Move) (vs : List Value) :
    makeAll rounds room c (e.moves depth ++ rest) vs =
      operand (evaluate rounds (room - depth)) e.tree c >>= fun v =>
        makeAll rounds room c rest (v :: vs) := by
  induction e generalizing depth rest vs with
  | leaf t => simp [Expression.moves, Expression.tree, makeAll, Move.make]
  | binary left op o writes right ihl ihr =>
    rw [Expression.moves, List.cons_append, makeAll, Move.make]
    by_cases hdepth : depth < room
    · have hroom : room - depth = room - (depth + 1) + 1 := by omega
      rw [if_pos hdepth, pure_bind, List.append_assoc, List.append_assoc, ihr, hroom,
        Expression.tree, operand_binary writes]
      simp only [bind_assoc, ihl, List.singleton_append, makeAll, Move.make, pure_bind]
    · have hroom : room - depth = 0 := by omega
      rw [if_neg hdepth, hroom]
      rfl

/-- What evaluates no leaf leaves the machine as it is, whatever way it ends. -/
theorem Move.onlyListAdded_make {move : Move} (h : move.leaf? = none) (vs : List Value)
    (m : Machine) : m.OnlyListAdded ((move.make rounds room c vs).final m) := by
  cases move with
  | enter depth =>
    rw [make]
    split
    · exact .inl rfl
    · exact .inl rfl
  | leaf depth t => cases h
  | apply o n =>
    match vs with
    | [] | [_] => exact .inl rfl
    | a :: b :: vs =>
      have hresult (v : Value) (m' : Machine) :
          (do return Value.orNull (← resultAt v n) :: vs : Exec (List Value)).final m' = m' := by
        rw [resultAt]
        cases n.span with
        | ok s =>
          rw [Exec.ofDocument_ok, pure_bind]
          cases v.copyTo s <;> rfl
        | error f => rfl
      have happly := o.onlyListAdded_apply a b m
      rw [← Exec.final_located (s := n.span)] at happly
      rw [make, Exec.final_bind]
      split
      · rwa [hresult]
      · exact happly

/-- An expression is evaluated by its moves, from no values to its own, and stops with the first one
that stops. Each of its leaves has a move among them, from the right to the left, and no other move
does anything but make a new list. -/
theorem evaluate_expression (rounds room : Nat) (e : Expression) (c : ScopeId) (m : Machine) :
    let x := evaluate rounds room e.tree c
    (e.moves 0).filterMap Move.leaf? = e.leaves.reverse ∧
      Course rounds room c (e.moves 0) [] m ((x.result m).map fun v => [Value.orNull v])
        (x.final m) ∧
      ∀ move ∈ e.moves 0, move.leaf? = none → ∀ (vs : List Value) (m' : Machine),
        m'.OnlyListAdded ((move.make rounds room c vs).final m') := by
  intro x
  have hmoves : makeAll rounds room c (e.moves 0) [] = do return [Value.orNull (← x)] := by
    have h : makeAll rounds room c (e.moves 0 ++ []) [] = _ := makeAll_moves e 0 [] []
    rw [List.append_nil, operand, bind_assoc] at h
    exact h
  have hcourse : Course rounds room c (e.moves 0) [] m _ _ := course_makeAll (e.moves 0) [] m
  rw [hmoves, Exec.result_bind, Exec.final_bind] at hcourse
  refine ⟨e.filterMap_leaf?_moves 0, ?_, fun move _ h => Move.onlyListAdded_make h⟩
  cases hx : x.result m with
  | ok v =>
    rw [hx] at hcourse
    exact hcourse
  | error stop =>
    rw [hx] at hcourse
    exact hcourse

/-- Both operands of a logical operator have their moves. -/
example (a b op : Tree) (writes : op.operator? = some .and) :
    (Expression.binary (.leaf a) op .and writes (.leaf b)).moves 0 =
      [.enter 0, .leaf 1 b, .leaf 1 a, .apply .and (.node .binary [a, op, b])] := rfl

end Eval

end Lumen
