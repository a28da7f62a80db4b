import Lumen.Node
import Lumen.Tree.Reading

/-!
# The document of a program

A program as the tree that its document holds. Evaluation runs on that tree, so a program that was
written to a document and read back is the same program.
-/

namespace Lumen

namespace Tree

def ofPosition (p : Position) : Tree := position (Place.ofPosition p)

def ofToken (t : Token) : Tree :=
  token t.kind (.scalar t.value) (Place.ofPosition t.start) (Place.ofPosition t.stop)

mutual

def ofNode : Node → Tree
  | .number t => node .number [ofToken t]
  | .text t => node .text [ofToken t]
  | .null t => node .null [ofToken t]
  | .list elements p q => node .list [list (ofNodes elements), ofPosition p, ofPosition q]
  | .block statements p q => node .block [list (ofNodes statements), ofPosition p, ofPosition q]
  | .ternary condition left right =>
    node .ternary [ofNode condition, ofNode left, ofNode right]
  | .binary left op right => node .binary [ofNode left, ofToken op, ofNode right]
  | .unary op operand => node .unary [ofToken op, ofNode operand]
  | .lookup t => node .lookup [ofToken t]
  | .assign t value => node .assign [ofToken t, ofNode value]
  | .index target i upTo q =>
    node .index [ofNode target, ofNode i, ofOption upTo, ofPosition q]
  | .assignIndex t i value => node .assignIndex [ofToken t, ofNode i, ofNode value]
  | .conditional cases otherwise p q =>
    node .conditional [list (ofCases cases), ofOption otherwise, ofPosition p, ofPosition q]
  | .forLoop t first last step body p q =>
    node .forLoop
      [ofToken t, ofNode first, ofNode last, ofOption step, ofNode body, ofPosition p, ofPosition q]
  | .eachLoop t iterable body p q =>
    node .eachLoop [ofToken t, ofNode iterable, ofNode body, ofPosition p, ofPosition q]
  | .whileLoop condition body p q =>
    node .whileLoop [ofNode condition, ofNode body, ofPosition p, ofPosition q]
  | .breakLoop t => node .breakLoop [ofToken t]
  | .continueLoop t => node .continueLoop [ofToken t]
  | .function name params body isExpression p q =>
    node .function
      [(name.map ofToken).getD (scalar .null), list (params.map ofToken), ofNode body,
        scalar (.bool isExpression), ofPosition p, ofPosition q]
  | .call callee args q => node .call [ofNode callee, list (ofNodes args), ofPosition q]
  | .giveBack value p q => node .giveBack [ofOption value, ofPosition p, ofPosition q]

def ofNodes : List Node → List Tree
  | [] => []
  | n :: ns => ofNode n :: ofNodes ns

def ofOption : Option Node → Tree
  | none => scalar .null
  | some n => ofNode n

def ofCases : List (Node × Node) → List Tree
  | [] => []
  | (condition, body) :: cases =>
    node .guarded [ofNode condition, ofNode body] :: ofCases cases

end

theorem start_ofNode (n : Node) : (ofNode n).start = .ok (.exact n.start) := by
  fun_induction Node.start n <;> simp_all [ofNode, ofToken, ofPosition, start, firstStart, mark,
    Place.toMark_ofPosition]

theorem stop_ofNode (n : Node) : (ofNode n).stop = .ok (.exact n.stop) := by
  fun_induction Node.stop n <;> simp_all [ofNode, ofToken, ofPosition, stop, lastStop, mark,
    Place.toMark_ofPosition]

/-- The document tells every place of the program. -/
theorem span_ofNode (n : Node) : (ofNode n).span = .ok n.span := by
  simp only [span, start_ofNode, stop_ofNode]
  rfl

end Tree

end Lumen
