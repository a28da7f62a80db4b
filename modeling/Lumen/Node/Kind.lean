/-!
# The kinds of node

What a document calls each kind of node, and the fields that a node of the kind has there.
-/

namespace Lumen

inductive NodeKind where
  | number | text | null | list | block | ternary | binary | unary | lookup | assign | index
  | assignIndex
  /-- A condition and the body it guards, which is no node of its own. -/
  | guarded
  | conditional | forLoop | eachLoop | whileLoop | breakLoop | continueLoop | function | call
  | giveBack
deriving DecidableEq, Repr, Inhabited

namespace NodeKind

def all : List NodeKind :=
  [number, text, null, list, block, ternary, binary, unary, lookup, assign, index, assignIndex,
    guarded, conditional, forLoop, eachLoop, whileLoop, breakLoop, continueLoop, function, call,
    giveBack]

def name : NodeKind → String
  | number => "NumberLit"
  | text => "StringLit"
  | null => "NullLit"
  | list => "ListLit"
  | block => "Block"
  | ternary => "Ternary"
  | binary => "BinaryOp"
  | unary => "UnaryOp"
  | lookup => "VarAccess"
  | assign => "VarAssign"
  | index => "ElementAccess"
  | assignIndex => "ElementAssign"
  | guarded => "IfCase"
  | conditional => "If"
  | forLoop => "For"
  | eachLoop => "Each"
  | whileLoop => "While"
  | breakLoop => "Break"
  | continueLoop => "Continue"
  | function => "FunctionDef"
  | call => "FunctionCall"
  | giveBack => "Return"

def ofName? (s : String) : Option NodeKind := all.find? (·.name == s)

theorem ofName?_name (k : NodeKind) : ofName? k.name = some k := by cases k <;> decide

def fields : NodeKind → List String
  | number | text | null | breakLoop | continueLoop => ["token"]
  | list => ["elements", "pos_start", "pos_end"]
  | block => ["statements", "pos_start", "pos_end"]
  | ternary => ["condition", "left", "right"]
  | binary => ["left", "op", "right"]
  | unary => ["op", "operand"]
  | lookup => ["name"]
  | assign => ["name", "value"]
  | index => ["target", "index", "to_index", "pos_end"]
  | assignIndex => ["name", "index", "value"]
  | guarded => ["condition", "body"]
  | conditional => ["cases", "else_case", "pos_start", "pos_end"]
  | forLoop => ["var_name", "start", "end", "step", "body", "pos_start", "pos_end"]
  | eachLoop => ["item_name", "iterable", "body", "pos_start", "pos_end"]
  | whileLoop => ["condition", "body", "pos_start", "pos_end"]
  | function => ["name", "params", "body", "is_expression_body", "pos_start", "pos_end"]
  | call => ["callee", "args", "pos_end"]
  | giveBack => ["value", "pos_start", "pos_end"]

end NodeKind

end Lumen
