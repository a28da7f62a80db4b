/-!
# Binary operators
-/

namespace Lumen

inductive Operator where
  | add | sub | mul | div | mod | pow
  | eq | ne | gt | ge | lt | le
  | and | or
deriving DecidableEq, Repr

namespace Operator

def symbol : Operator → String
  | add => "+" | sub => "-" | mul => "*" | div => "/" | mod => "%" | pow => "^"
  | eq => "==" | ne => "!=" | gt => ">" | ge => ">=" | lt => "<" | le => "<="
  | and => "and" | or => "or"

def all : List Operator := [add, sub, mul, div, mod, pow, eq, ne, gt, ge, lt, le, and, or]

def ofSymbol? (s : String) : Option Operator := all.find? (·.symbol == s)

theorem mem_all (o : Operator) : o ∈ all := by cases o <;> decide

theorem ofSymbol?_symbol (o : Operator) : ofSymbol? o.symbol = some o := by
  cases o <;> decide

end Operator

end Lumen
