import Lumen.Value

/-!
# The store

The scopes and the lists of a running program. Scopes form a tree through their parents, and a
name is looked up along the chain of parents; names are bound and unbound in one scope alone. A
list never changes its length.
-/

namespace Lumen

/-- The names of one scope, the last bound first. A source writes names as texts, a document may
hold any scalar; names of one key are the same. -/
abbrev Bindings := List (Scalar × Value)

namespace Bindings

def get? (name : Scalar) : Bindings → Option Value
  | [] => none
  | (k, v) :: rest => if k.key = name.key then some v else get? name rest

/-- Binds a name, where it stands if it is bound already. -/
def set (name : Scalar) (v : Value) : Bindings → Bindings
  | [] => [(name, v)]
  | (k, w) :: rest => if k.key = name.key then (k, v) :: rest else (k, w) :: set name v rest

def erase (name : Scalar) (b : Bindings) : Bindings := b.filter (·.1.key ≠ name.key)

theorem get?_set (b : Bindings) (name other : Scalar) (v : Value) :
    (b.set name v).get? other = if other.key = name.key then some v else b.get? other := by
  induction b with
  | nil => grind [set, get?]
  | cons p b ih => grind [set, get?]

theorem get?_erase (b : Bindings) (name other : Scalar) :
    (b.erase name).get? other = if other.key = name.key then none else b.get? other := by
  unfold erase
  induction b with
  | nil => simp [get?]
  | cons p b ih =>
    rw [List.filter_cons]
    grind [get?]

end Bindings

structure Scope where
  /-- What messages call the scope. -/
  name : String
  parent : Option ScopeId
  table : Bindings

namespace Scope

def describe (s : Scope) : String := "<context " ++ s.name ++ ">"

end Scope

structure Store where
  scopes : Array Scope
  lists : Array (Array Value)

namespace Store

def root : ScopeId := 0

def rootName : String := "<program>"

def bound? (s : Store) (c : ScopeId) (name : Scalar) : Option Value :=
  (s.scopes[c]?).bind (·.table.get? name)

/-- The binding of a name in the nearest scope that has it. A parent is older than its child. -/
def lookup (s : Store) (c : ScopeId) (name : Scalar) : Option Value :=
  match s.scopes[c]? with
  | none => none
  | some scope =>
    match scope.table.get? name with
    | some v => some v
    | none =>
      match scope.parent with
      | none => none
      | some p => if p < c then s.lookup p name else none
termination_by c

def updateTable (s : Store) (c : ScopeId) (f : Bindings → Bindings) : Store :=
  { s with scopes := s.scopes.modify c fun scope => { scope with table := f scope.table } }

def bind (s : Store) (c : ScopeId) (name : Scalar) (v : Value) : Store :=
  s.updateTable c (·.set name v)

def unbind (s : Store) (c : ScopeId) (name : Scalar) : Store :=
  s.updateTable c (·.erase name)

def addScope (s : Store) (scope : Scope) : Store := { s with scopes := s.scopes.push scope }

def nextScope (s : Store) : ScopeId := s.scopes.size

def elements (s : Store) (l : ListId) : Array Value := (s.lists[l]?).getD #[]

def addList (s : Store) (elements : Array Value) : Store :=
  { s with lists := s.lists.push elements }

def nextList (s : Store) : ListId := s.lists.size

def setElement (s : Store) (l : ListId) (i : Nat) (v : Value) : Store :=
  { s with lists := s.lists.modify l fun elements => elements.setIfInBounds i v }

def builtins : Bindings := Builtin.all.map fun b => (.text b.name, Value.unplaced (.builtin b))

def initial : Store := ⟨#[⟨rootName, none, builtins⟩], #[]⟩

/-- The root still holds the built-in function that it was made with. A copy of it has a place. -/
def isUntouched (v : Value) (name : Scalar) : Bool :=
  match v.payload with
  | .builtin b => name.isText b.name && v.span.start.isNone
  | _ => false

/-- What a program changed in the root scope: the names it bound, and the built-in functions it
unbound. -/
def changes (s : Store) : List (Scalar × Option Value) :=
  let table := ((s.scopes[root]?).map Scope.table).getD []
  let bound := table.filter fun (name, v) => !isUntouched v name
  let gone := Builtin.all.filter fun b => (table.get? (.text b.name)).isNone
  bound.map (fun (name, v) => (name, some v)) ++ gone.map fun b => (.text b.name, none)

theorem bound?_updateTable (s : Store) (c d : ScopeId) (f : Bindings → Bindings) (name : Scalar) :
    (s.updateTable c f).bound? d name =
      if d = c then (s.scopes[c]?).bind fun scope => (f scope.table).get? name
      else s.bound? d name := by
  by_cases h : d = c
  · subst h
    cases hs : s.scopes[d]? <;> simp [updateTable, bound?, Array.getElem?_modify, hs]
  · simp [updateTable, bound?, Array.getElem?_modify, h, Ne.symm h]

theorem bound?_bind (s : Store) (c d : ScopeId) (name other : Scalar) (v : Value)
    (h : c < s.scopes.size) :
    (s.bind c name v).bound? d other =
      if d = c ∧ other.key = name.key then some v else s.bound? d other := by
  by_cases hd : d = c
  · subst hd
    rw [bind, bound?_updateTable, Array.getElem?_eq_getElem h]
    simp only [Bindings.get?_set, bound?, Array.getElem?_eq_getElem h]
    by_cases ho : other.key = name.key <;> simp [ho]
  · simp [bind, bound?_updateTable, hd]

theorem bound?_unbind (s : Store) (c d : ScopeId) (name other : Scalar) :
    (s.unbind c name).bound? d other =
      if d = c ∧ other.key = name.key then none else s.bound? d other := by
  by_cases hd : d = c
  · subst hd
    rw [unbind, bound?_updateTable]
    simp only [Bindings.get?_erase, bound?]
    by_cases ho : other.key = name.key <;> simp [ho]
  · simp [unbind, bound?_updateTable, hd]

theorem elements_addList (s : Store) (elements : Array Value) (l : ListId) :
    (s.addList elements).elements l = if l = s.nextList then elements else s.elements l := by
  by_cases h : l = s.nextList
  · simp [addList, Store.elements, nextList, h]
  · have h' : l ≠ s.lists.size := h
    simp [addList, Store.elements, nextList, Array.getElem?_push, h']

theorem elements_setElement (s : Store) (l m : ListId) (i : Nat) (v : Value) :
    (s.setElement l i v).elements m =
      if m = l then (s.elements l).setIfInBounds i v else s.elements m := by
  by_cases h : m = l
  · subst h
    cases hs : s.lists[m]? <;> simp [setElement, elements, Array.getElem?_modify, hs]
  · simp [setElement, elements, Array.getElem?_modify, h, Ne.symm h]

/-- A list that has elements is one of the store. -/
theorem lt_size_of_elements {s : Store} {l : ListId} (h : 0 < (s.elements l).size) :
    l < s.lists.size := by
  refine Nat.lt_of_not_le fun hle => ?_
  rw [elements, Array.getElem?_eq_none hle] at h
  exact Nat.lt_irrefl 0 h

theorem elements_addList_of_pos {s : Store} (elements : Array Value) {l : ListId}
    (h : 0 < (s.elements l).size) : (s.addList elements).elements l = s.elements l := by
  have hne : l ≠ s.nextList := Nat.ne_of_lt (lt_size_of_elements h)
  rw [elements_addList, if_neg hne]

/-- A list keeps its length. -/
theorem size_elements_setElement (s : Store) (l m : ListId) (i : Nat) (v : Value) :
    ((s.setElement l i v).elements m).size = (s.elements m).size := by
  rw [elements_setElement]
  split
  · next h => rw [Array.size_setIfInBounds, h]
  · rfl

end Store

end Lumen
