/-!
# Line ends

A file may end its lines in three ways; a program sees one.
-/

namespace Lumen.Text

/-- Every carriage return, with the line feed behind it if there is one, becomes a line feed. -/
def unifyNewlines : List Char → List Char
  | [] => []
  | '\r' :: '\n' :: cs => '\n' :: unifyNewlines cs
  | '\r' :: cs => '\n' :: unifyNewlines cs
  | c :: cs => c :: unifyNewlines cs

def ofFile (s : String) : String := String.ofList (unifyNewlines s.toList)

end Lumen.Text
