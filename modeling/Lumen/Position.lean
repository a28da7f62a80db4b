/-!
# Positions

Where something stands in a source text. A position is a snapshot, so whatever holds one keeps the
place it was made for.
-/

namespace Lumen

/-- A place in a source text. Lines and columns count from one, the index counts the characters
before the place. -/
structure Position where
  file : String
  line : Int
  col : Int
  index : Int
deriving DecidableEq, Repr, Inhabited

namespace Position

/-- One step before the first character of a text. -/
def start (file : String) : Position := ⟨file, 1, 0, -1⟩

/-- The next place on the same line. -/
def next (p : Position) : Position := ⟨p.file, p.line, p.col + 1, p.index + 1⟩

def nextLine (p : Position) : Position := ⟨p.file, p.line + 1, 1, p.index + 1⟩

def past (p : Position) (c : Char) : Position := if c = '\n' then p.nextLine else p.next

def pastAll (p : Position) (cs : List Char) : Position := cs.foldl past p

def first (file : String) : Position := (start file).next

def describe (p : Position) : String :=
  p.file ++ ":" ++ toString p.line ++ ":" ++ toString p.col

@[simp] theorem pastAll_nil (p : Position) : p.pastAll [] = p := rfl

@[simp] theorem pastAll_cons (p : Position) (c : Char) (cs : List Char) :
    p.pastAll (c :: cs) = (p.past c).pastAll cs := rfl

theorem pastAll_append (p : Position) (xs ys : List Char) :
    p.pastAll (xs ++ ys) = (p.pastAll xs).pastAll ys := by
  simp [pastAll, List.foldl_append]

@[simp] theorem next_file (p : Position) : p.next.file = p.file := rfl

@[simp] theorem past_file (p : Position) (c : Char) : (p.past c).file = p.file := by
  unfold past; split <;> rfl

@[simp] theorem past_index (p : Position) (c : Char) : (p.past c).index = p.index + 1 := by
  unfold past; split <;> rfl

end Position

end Lumen
