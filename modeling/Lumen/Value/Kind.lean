/-!
# The kinds of value
-/

namespace Lumen.Value

inductive Kind where
  | number | text | list | null | function | builtin
  /-- The bare value, which no program makes and which has every capability's default. -/
  | base
deriving DecidableEq, Repr

def Kind.name : Kind → String
  | number => "number"
  | text => "string"
  | list => "list"
  | null => "null"
  | function => "function"
  | builtin => "builtin function"
  | base => "value"

end Lumen.Value
