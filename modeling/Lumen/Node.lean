import Lumen.Node.Kind
import Lumen.Token

/-!
# Program nodes

The tree of a program. A node keeps the tokens it was made from, or the two ends of its text where
tokens do not tell them, so that everything can be reported at its place.
-/

namespace Lumen

inductive Node where
  | number (token : Token)
  | text (token : Token)
  | null (token : Token)
  | list (elements : List Node) (start stop : Position)
  | block (statements : List Node) (start stop : Position)
  | ternary (condition left right : Node)
  | binary (left : Node) (op : Token) (right : Node)
  | unary (op : Token) (operand : Node)
  | lookup (token : Token)
  | assign (name : Token) (value : Node)
  | index (target index : Node) (upTo : Option Node) (stop : Position)
  | assignIndex (name : Token) (index value : Node)
  | conditional (cases : List (Node × Node)) (otherwise : Option Node)
      (start stop : Position)
  | forLoop (name : Token) (first last : Node) (step : Option Node) (body : Node)
      (start stop : Position)
  | eachLoop (name : Token) (iterable body : Node) (start stop : Position)
  | whileLoop (condition body : Node) (start stop : Position)
  | breakLoop (token : Token)
  | continueLoop (token : Token)
  | function (name : Option Token) (params : List Token) (body : Node) (isExpression : Bool)
      (start stop : Position)
  | call (callee : Node) (args : List Node) (stop : Position)
  | giveBack (value : Option Node) (start stop : Position)
deriving Inhabited

namespace Node

def start : Node → Position
  | number t | text t | null t | lookup t | breakLoop t | continueLoop t => t.start
  | list _ p _ | block _ p _ | conditional _ _ p _ | forLoop _ _ _ _ _ p _ | eachLoop _ _ _ p _
  | whileLoop _ _ p _ | function _ _ _ _ p _ | giveBack _ p _ => p
  | ternary condition _ _ => condition.start
  | binary left _ _ => left.start
  | unary op _ => op.start
  | assign t _ | assignIndex t _ _ => t.start
  | index target _ _ _ => target.start
  | call callee _ _ => callee.start

def stop : Node → Position
  | number t | text t | null t | lookup t | breakLoop t | continueLoop t => t.stop
  | list _ _ p | block _ _ p | conditional _ _ _ p | forLoop _ _ _ _ _ _ p | eachLoop _ _ _ _ p
  | whileLoop _ _ _ p | function _ _ _ _ _ p | giveBack _ _ p | index _ _ _ p | call _ _ p => p
  | ternary _ _ right => right.stop
  | binary _ _ right => right.stop
  | unary _ operand => operand.stop
  | assign _ value => value.stop
  | assignIndex _ _ value => value.stop

def span (n : Node) : Span := ⟨.exact n.start, .exact n.stop⟩

def kind : Node → NodeKind
  | number _ => .number
  | text _ => .text
  | null _ => .null
  | list .. => .list
  | block .. => .block
  | ternary .. => .ternary
  | binary .. => .binary
  | unary .. => .unary
  | lookup _ => .lookup
  | assign .. => .assign
  | index .. => .index
  | assignIndex .. => .assignIndex
  | conditional .. => .conditional
  | forLoop .. => .forLoop
  | eachLoop .. => .eachLoop
  | whileLoop .. => .whileLoop
  | breakLoop _ => .breakLoop
  | continueLoop _ => .continueLoop
  | function .. => .function
  | call .. => .call
  | giveBack .. => .giveBack

mutual

/-- The node and all nodes in it, each before those in it, in the order of the text. -/
def preorder : Node → List Node
  | list elements p q => list elements p q :: preorderAll elements
  | block statements p q => block statements p q :: preorderAll statements
  | ternary condition left right =>
    ternary condition left right ::
      (condition.preorder ++ left.preorder ++ right.preorder)
  | binary left op right => binary left op right :: (left.preorder ++ right.preorder)
  | unary op operand => unary op operand :: operand.preorder
  | assign name value => assign name value :: value.preorder
  | index target i upTo p =>
    index target i upTo p :: (target.preorder ++ i.preorder ++ preorderOption upTo)
  | assignIndex name i value => assignIndex name i value :: (i.preorder ++ value.preorder)
  | conditional cases otherwise p q =>
    conditional cases otherwise p q :: (preorderCases cases ++ preorderOption otherwise)
  | forLoop name first last step body p q =>
    forLoop name first last step body p q ::
      (first.preorder ++ last.preorder ++ preorderOption step ++ body.preorder)
  | eachLoop name iterable body p q =>
    eachLoop name iterable body p q :: (iterable.preorder ++ body.preorder)
  | whileLoop condition body p q =>
    whileLoop condition body p q :: (condition.preorder ++ body.preorder)
  | function name params body isExpression p q =>
    function name params body isExpression p q :: body.preorder
  | call callee args p => call callee args p :: (callee.preorder ++ preorderAll args)
  | giveBack value p q => giveBack value p q :: preorderOption value
  | n => [n]

def preorderAll : List Node → List Node
  | [] => []
  | n :: ns => n.preorder ++ preorderAll ns

def preorderOption : Option Node → List Node
  | none => []
  | some n => n.preorder

def preorderCases : List (Node × Node) → List Node
  | [] => []
  | (condition, body) :: cases => condition.preorder ++ body.preorder ++ preorderCases cases

end

end Node

end Lumen
