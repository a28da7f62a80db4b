import Mathlib.Logic.Relation
import Lumen.Proofs.Eval.Frame
import Lumen.Proofs.Eval.Simulation.Rules
import Lumen.Tree.Node

/-!
# Lists change by assignment to their elements alone

No evaluation takes a list away or changes its length. Its slots stay as they are if nothing that
evaluation gets to assigns to an element: no part of the program, and no function that can be found
from the scope in which the program stands. What operators, calls of lists and built-in functions
make of a list is a new one.
-/

namespace Lumen

namespace Store

/-- The other store has the lists of the first one, with as many slots. -/
structure KeepsLengths (s s' : Store) : Prop where
  size_le : s.lists.size ≤ s'.lists.size
  size_eq : ∀ l < s.lists.size, (s'.elements l).size = (s.elements l).size

/-- The other store has the lists of the first one as they are. -/
structure KeepsLists (s s' : Store) : Prop where
  size_le : s.lists.size ≤ s'.lists.size
  unchanged : ∀ l < s.lists.size, s'.lists[l]? = s.lists[l]?

variable {s s' s₁ s₂ s₃ : Store}

namespace KeepsLengths

theorem refl (s : Store) : KeepsLengths s s := ⟨Nat.le_refl _, fun _ _ => rfl⟩

theorem trans (h₁ : KeepsLengths s₁ s₂) (h₂ : KeepsLengths s₂ s₃) : KeepsLengths s₁ s₃ := by
  refine ⟨Nat.le_trans h₁.size_le h₂.size_le, fun l hl => ?_⟩
  exact (h₂.size_eq l (Nat.lt_of_lt_of_le hl h₁.size_le)).trans (h₁.size_eq l hl)

/-- A list without slots need not be one of the store. -/
theorem size_elements (h : KeepsLengths s₁ s₂) {l : ListId} (hl : 0 < (s₁.elements l).size) :
    (s₂.elements l).size = (s₁.elements l).size := h.size_eq l (lt_size_of_elements hl)

theorem setElement (s : Store) (l : ListId) (i : Nat) (v : Value) :
    KeepsLengths s (s.setElement l i v) := by
  refine ⟨?_, fun k _ => size_elements_setElement s l k i v⟩
  simp only [Store.setElement, Array.size_modify, Nat.le_refl]

end KeepsLengths

namespace KeepsLists

theorem of_lists_eq (h : s'.lists = s.lists) : KeepsLists s s' :=
  ⟨Nat.le_of_eq (by rw [h]), fun _ _ => by rw [h]⟩

theorem refl (s : Store) : KeepsLists s s := of_lists_eq rfl

theorem trans (h₁ : KeepsLists s₁ s₂) (h₂ : KeepsLists s₂ s₃) : KeepsLists s₁ s₃ := by
  refine ⟨Nat.le_trans h₁.size_le h₂.size_le, fun l hl => ?_⟩
  exact (h₂.unchanged l (Nat.lt_of_lt_of_le hl h₁.size_le)).trans (h₁.unchanged l hl)

theorem updateTable (s : Store) (c : ScopeId) (f : Bindings → Bindings) :
    KeepsLists s (s.updateTable c f) := of_lists_eq rfl

theorem addList (s : Store) (elements : Array Value) : KeepsLists s (s.addList elements) := by
  refine ⟨?_, fun l hl => ?_⟩
  · rw [Store.addList, Array.size_push]
    exact Nat.le_succ _
  · rw [Store.addList, Array.getElem?_push, if_neg (Nat.ne_of_lt hl)]

theorem keepsLengths (h : KeepsLists s s') : KeepsLengths s s' :=
  ⟨h.size_le, fun l hl => by rw [elements, elements, h.unchanged l hl]⟩

end KeepsLists

namespace KeepsLengths

theorem updateTable (s : Store) (c : ScopeId) (f : Bindings → Bindings) :
    KeepsLengths s (s.updateTable c f) := (KeepsLists.updateTable s c f).keepsLengths

theorem bind (s : Store) (c : ScopeId) (name : Scalar) (v : Value) :
    KeepsLengths s (s.bind c name v) := updateTable s c _

theorem unbind (s : Store) (c : ScopeId) (name : Scalar) : KeepsLengths s (s.unbind c name) :=
  updateTable s c _

theorem addList (s : Store) (elements : Array Value) : KeepsLengths s (s.addList elements) :=
  (KeepsLists.addList s elements).keepsLengths

end KeepsLengths

/-- What a program may find in a store. -/
inductive Find where
  | scope (c : ScopeId)
  | value (v : Value)

/-- A program that stands in the scope `c` may get there. -/
inductive Reaches (s : Store) (c : ScopeId) : Find → Prop where
  | here : Reaches s c (.scope c)
  | parent {d p scope} : Reaches s c (.scope d) → s.scopes[d]? = some scope →
      scope.parent = some p → Reaches s c (.scope p)
  | bound {d scope entry} : Reaches s c (.scope d) → s.scopes[d]? = some scope →
      entry ∈ scope.table → Reaches s c (.value entry.2)
  | element {l sp v} : Reaches s c (.value ⟨.list l, sp⟩) → v ∈ s.elements l →
      Reaches s c (.value v)
  | closure {f sp} : Reaches s c (.value ⟨.function f, sp⟩) → Reaches s c (.scope f.scope)

end Store

namespace Eval

/-- No list is taken away and none changes its length. -/
def lengths : Invariant where
  Place := Unit
  loopBody := id
  functionBody := ()
  Part _ _ := True
  Open _ _ := True
  Fits _ _ := True
  Leads _ := Store.KeepsLengths
  Breaks _ := True
  Returns _ := True
  part_inner _ _ := trivial
  breaks_of_break _ := trivial
  breaks_of_continue _ := trivial
  returns_of_giveBack _ := trivial
  returns_of_loopBody _ := trivial
  fits_function _ _ := trivial
  part_of_fits _ := ⟨(), trivial⟩
  leads_refl _ := Store.KeepsLengths.refl
  leads_trans := Store.KeepsLengths.trans
  fits_mono _ _ := trivial
  open_mono _ _ := trivial
  leads_bind _ _ _ := Store.KeepsLengths.bind _ _ _ _
  leads_unbind _ _ := Store.KeepsLengths.unbind _ _ _
  leads_addList _ _ _ := Store.KeepsLengths.addList _ _
  leads_setElement _ _ _ _ _ _ := Store.KeepsLengths.setElement _ _ _ _
  open_call _ _ := trivial
  fits_call _ _ _ := trivial
  leads_call _ _ h := ⟨h.size_le, h.size_eq⟩

/-! ## Programs that assign to no element -/

/-- The part `u` may be evaluated when `t` is, or when a function that `t` makes is called. -/
def Within : Tree → Tree → Prop := Relation.ReflTransGen fun t u => ∃ w, Inner t w u

def AssignFree (t : Tree) : Prop := ∀ fields, ¬ Within t (.node .assignIndex fields)

theorem AssignFree.inner {t u : Tree} {w : Way} (h : AssignFree t) (hu : Inner t w u) :
    AssignFree u := fun fields hfields => h fields (.head ⟨w, hu⟩ hfields)

theorem assignFree_of_inner {t : Tree} (ht : ∀ fields, t ≠ .node .assignIndex fields)
    (h : ∀ w u, Inner t w u → AssignFree u) : AssignFree t := by
  intro fields hfields
  rcases hfields.cases_head with heq | ⟨u, ⟨w, hu⟩, hrest⟩
  · exact ht fields heq
  · exact h w u hu fields hrest

/-- No function that a program in the scope `c` may get to assigns to an element of a list. -/
def FunctionsAssignFree (s : Store) (c : ScopeId) : Prop :=
  ∀ f sp, s.Reaches c (.value ⟨.function f, sp⟩) → AssignFree f.body

/-- A run beside itself, from the store `s` and the scope `c` on: it gets to what was there to be
found and to what is new, and leaves the lists of `s` as they are. -/
def untouched (s : Store) (c : ScopeId) : Simulation where
  Marks := Eq
  Parts t t' := t = t' ∧ AssignFree t
  Reaches d := s.Reaches c (.scope d) ∨ s.scopes.size ≤ d
  ReachesList l := (∃ sp, s.Reaches c (.value ⟨.list l, sp⟩)) ∨ s.lists.size ≤ l
  Kept s' := s.scopes.size ≤ s'.scopes.size ∧ s.KeepsLists s'
  Logs _ _ := True
  excused := False
  marks_none := rfl
  isNone_eq := congrArg Mark.isNone
  isPlain_eq := congrArg Mark.isPlain
  join := by
    rintro p q _ _ rfl rfl
    exact readings_self fun _ _ => ⟨rfl, rfl⟩
  span := by
    rintro t _ ⟨rfl, _⟩
    exact readings_self fun _ _ => ⟨rfl, rfl⟩
  start := by
    rintro t _ ⟨rfl, _⟩
    exact readings_self fun _ _ => rfl
  matched := by
    rintro t _ ⟨rfl, ht⟩
    exact matched_self (fun _ => rfl) fun w u hu => ⟨rfl, ht.inner hu⟩
  logs_note _ _ _ := trivial
  logs_case _ _ := trivial
  reaches_nextScope h := .inr h.1
  reaches_nextList h := .inr h.2.size_le
  kept_updateTable d f h := by
    refine ⟨?_, h.2.trans (.updateTable _ d f)⟩
    rw [Store.updateTable, Array.size_modify]
    exact h.1
  kept_addScope scope h :=
    ⟨Nat.le_trans h.1 (Store.size_le_addScope _ scope), h.2.trans (.of_lists_eq rfl)⟩
  kept_addList elements h := ⟨h.1, h.2.trans (.addList _ elements)⟩
  kept_setElement l i v hparts _ := (hparts.2 _ .refl).elim

section

variable {s : Store} {c : ScopeId}

theorem values_untouched (hfree : FunctionsAssignFree s c) {v : Value}
    (hv : s.Reaches c (.value v)) : (untouched s c).Values v v := by
  obtain ⟨p, sp⟩ := v
  refine Simulation.values_self ⟨rfl, rfl⟩ ?_ ?_
  · rintro l rfl
    exact .inl ⟨sp, hv⟩
  · rintro f rfl
    exact ⟨⟨rfl, hfree f sp hv⟩, .inl hv.closure⟩

theorem stores_untouched (hfree : FunctionsAssignFree s c) : (untouched s c).Stores s s := by
  refine Simulation.stores_self (fun d scope hd hscope => ?_) (fun l a hl ha => ?_)
    ⟨Nat.le_refl _, .refl s⟩
  · rcases hd with hd | hd
    · exact ⟨rfl, rfl, fun p hp => .inl (hd.parent hscope hp),
        .refl fun entry hentry => values_untouched hfree (hd.bound hscope hentry)⟩
    · rw [Array.getElem?_eq_none hd] at hscope
      cases hscope
  · rcases hl with ⟨sp, hl⟩ | hl
    · refine .refl fun v hv => values_untouched hfree (hl.element ?_)
      rw [Store.elements, ha]
      exact hv
    · rw [Array.getElem?_eq_none hl] at ha
      cases ha

theorem machines_untouched {m : Machine} (hfree : FunctionsAssignFree m.store c) :
    (untouched m.store c).Machines m m := ⟨stores_untouched hfree, rfl, rfl, trivial⟩

end

end Eval

/-! ## Operators, lists and built-in functions -/

namespace Exec

variable {α β : Type}

def LeavesLists (x : Exec α) : Prop := ∀ m : Machine, m.store.KeepsLists (x.final m).store

theorem leaves_pure {a : α} : (pure a : Exec α).LeavesLists := fun m => .refl m.store

theorem leaves_throw {e : Stop} : (throw e : Exec α).LeavesLists := fun m => .refl m.store

theorem leaves_ofExcept {r : Except Stop α} : (ofExcept r).LeavesLists := fun m => .refl m.store

theorem leaves_fail {d : Diagnostic} : (fail d : Exec α).LeavesLists := leaves_throw

theorem leaves_store : store.LeavesLists := fun m => .refl m.store

theorem leaves_newList {elements : Array Value} : (newList elements).LeavesLists :=
  fun m => .addList m.store elements

theorem leaves_update {f : Machine → Machine} (h : ∀ m, (f m).store = m.store) :
    (update f).LeavesLists := fun m => .of_lists_eq (congrArg Store.lists (h m))

theorem leaves_updateStore {f : Store → Store} (h : ∀ s, (f s).lists = s.lists) :
    (updateStore f).LeavesLists := fun m => .of_lists_eq (h m.store)

theorem LeavesLists.bind {x : Exec α} {f : α → Exec β} (hx : x.LeavesLists)
    (hf : ∀ a, (f a).LeavesLists) : (x >>= f).LeavesLists := by
  intro m
  rw [final_bind]
  cases x.result m with
  | ok a => exact (hx m).trans (hf a _)
  | error e => exact hx m

theorem leaves_text {form : Form} {room : Nat} {v : Value} : (text form room v).LeavesLists := by
  unfold text
  refine leaves_store.bind fun s => ?_
  split
  · exact leaves_pure
  · exact leaves_throw

theorem leaves_texts {form : Form} {room : Nat} {args : List Value} :
    (args.mapM (text form room)).LeavesLists := by
  induction args with
  | nil => exact leaves_pure
  | cons v args ih =>
    rw [List.mapM_cons]
    exact leaves_text.bind fun s => ih.bind fun texts => leaves_pure

theorem leaves_access {l : ListId} {i : Value} {upTo : Option Value} :
    (access l i upTo).LeavesLists := by
  unfold access
  refine leaves_store.bind fun s => ?_
  dsimp only
  split
  · exact leaves_ofExcept.bind fun k => leaves_pure
  · exact leaves_ofExcept.bind fun range => leaves_newList

end Exec

theorem Operator.leaves_apply (o : Operator) (a b : Value) : (o.apply a b).LeavesLists := by
  unfold Operator.apply
  split
  · exact Exec.leaves_store.bind fun s => Exec.leaves_newList
  · exact Exec.leaves_ofExcept

namespace Builtin

open Exec

variable {room : Nat} {b : Builtin} {v : Value} {args : List Value}

theorem leaves_refuse {α : Type} {complaint : Complaint} :
    (refuse complaint : Exec α).LeavesLists := leaves_throw

theorem leaves_refuseAt {α : Type} {complaint : Complaint} :
    (refuseAt complaint v : Exec α).LeavesLists := leaves_throw

theorem leaves_needData : (b.needData v).LeavesLists := by
  unfold needData
  split
  · exact leaves_pure
  · exact leaves_refuseAt

theorem leaves_needText : (b.needText v).LeavesLists := by
  refine leaves_needData.bind fun j => ?_
  split
  · exact leaves_pure
  · exact leaves_throw

theorem leaves_needList : (b.needList v).LeavesLists := by
  unfold needList
  split
  · exact leaves_store.bind fun s => leaves_pure
  · exact leaves_refuseAt

theorem leaves_printValues {ending : String} : (printValues room args ending).LeavesLists :=
  leaves_texts.bind fun _ => leaves_update fun _ => rfl

theorem leaves_readLine {prompt : Json} : (readLine prompt).LeavesLists := by
  have hget : (get : Exec Machine).LeavesLists := fun m => .refl m.store
  have hread : (do
      let line := (← get).nextLine
      Exec.update Machine.dropLine
      return Value.text line : Exec Value).LeavesLists := by
    refine hget.bind fun now => LeavesLists.bind ?_ fun _ => leaves_pure
    exact leaves_update fun _ => rfl
  unfold readLine
  split
  · exact (leaves_update fun _ => rfl).bind fun _ => hread
  · exact leaves_throw.bind fun _ => hread

theorem leaves_replacement {argument : Nat} {j : Json} : (replacement argument j).LeavesLists := by
  unfold replacement
  split
  · exact leaves_pure
  · exact leaves_throw

theorem leaves_replaced {s old new : Value} : (replaced s old new).LeavesLists := by
  refine leaves_needData.bind fun s => leaves_needData.bind fun old => ?_
  refine leaves_needData.bind fun new => ?_
  split
  · exact leaves_replacement.bind fun old => leaves_replacement.bind fun new => leaves_ofExcept
  · exact leaves_throw

theorem leaves_exitCode : (exitCode args).LeavesLists := by
  unfold exitCode
  split
  · exact leaves_pure
  · split
    · split
      · exact leaves_pure
      · exact leaves_refuseAt
    · exact leaves_refuseAt
  · exact leaves_refuse

theorem leaves_len (room : Nat) : (run room len [v]).LeavesLists := by
  unfold run
  dsimp only
  split
  · exact leaves_store.bind fun s => leaves_pure
  · exact leaves_pure
  · split
    · exact leaves_pure
    · exact leaves_throw
  · exact leaves_refuseAt

theorem leaves_run : (run room b args).LeavesLists := by
  unfold run
  split
  · exact leaves_printValues.bind fun _ => leaves_pure
  · exact leaves_printValues.bind fun _ => leaves_pure
  · exact leaves_readLine
  · exact leaves_needData.bind fun j => leaves_readLine
  · exact leaves_refuse
  · exact leaves_len room
  · exact leaves_needText.bind fun s => leaves_pure
  · exact leaves_needText.bind fun s => leaves_ofExcept
  · exact leaves_needText.bind fun s => leaves_ofExcept
  · exact leaves_replaced
  · exact leaves_needList.bind fun elements => leaves_newList
  · exact leaves_refuse
  · exact leaves_needList.bind fun elements => leaves_newList
  · exact leaves_refuse
  · refine leaves_needList.bind fun elements => ?_
    split
    · exact leaves_refuseAt
    · exact leaves_newList
  · refine leaves_needList.bind fun elements => ?_
    split
    · exact leaves_refuseAt
    · exact leaves_newList
  · exact leaves_exitCode.bind fun code => leaves_throw
  · exact leaves_refuse

theorem leaves_call {place : Span} : (b.call room place args).LeavesLists := by
  unfold call
  split
  · split
    · exact leaves_run
    · exact leaves_fail
  · exact leaves_run

/-! ## Lists that are made again -/

def MakesList (x : Exec Value) (m : Machine) (elements : Array Value) : Prop :=
  x.Ends m fun r m' => r = .ok (Value.unplaced (.list m.store.nextList)) ∧
    m'.store = m.store.addList elements

/-- The action gives a list of these elements that was not there before. -/
def GivesNewList (x : Exec Value) (m : Machine) (elements : Array Value) : Prop :=
  x.Ends m fun r m' => ∃ l, r = .ok (Value.unplaced (.list l)) ∧ m.store.lists.size ≤ l ∧
    m'.store.elements l = elements

variable {m : Machine} {l : ListId} {place place' sp sp' : Span}

theorem MakesList.again {x : Exec Value} {f : Value → Exec Value} {a b : Array Value}
    (hx : MakesList x m a) (hf : ∀ l m', m'.store.elements l = a →
      MakesList (f (Value.unplaced (.list l))) m' b) : GivesNewList (x >>= f) m b := by
  rw [GivesNewList, ends_bind]
  refine Ends.mono hx fun r m₁ ⟨hr, hs₁⟩ => ?_
  have hfirst : m₁.store.elements m.store.nextList = a := by
    rw [hs₁, Store.elements_addList, if_pos rfl]
  rw [hr]
  refine Ends.mono (hf _ m₁ hfirst) fun r' m₂ ⟨hr', hs₂⟩ => ⟨_, hr', ?_, ?_⟩
  · rw [Store.nextList, hs₁, Store.addList, Array.size_push]
    exact Nat.le_succ _
  · rw [hs₂, Store.elements_addList, if_pos rfl]

theorem ends_needList {Q : Except Stop (Array Value) → Machine → Prop} :
    (b.needList ⟨.list l, sp⟩).Ends m Q ↔ Q (.ok (m.store.elements l)) m := Iff.rfl

theorem makesList_prepend : MakesList (prepend.call room place [⟨.list l, sp⟩, v]) m
    (#[v] ++ m.store.elements l) := ⟨rfl, rfl⟩

theorem makesList_append : MakesList (append.call room place [⟨.list l, sp⟩, v]) m
    ((m.store.elements l).push v) := by
  have happend : m.store.elements l ++ [v] = (m.store.elements l).push v :=
    Array.appendList_cons.trans Array.appendList_nil
  rw [← happend]
  exact ⟨rfl, rfl⟩

theorem makesList_shift (h : (m.store.elements l).isEmpty = false) :
    MakesList (shift.call room place [⟨.list l, sp⟩]) m
      ((m.store.elements l).extract 1 (m.store.elements l).size) := by
  have hrun : shift.call room place [⟨.list l, sp⟩] = (do
      let elements ← shift.needList ⟨.list l, sp⟩
      if elements.isEmpty then refuseAt (.emptyList shift.name) ⟨.list l, sp⟩
      else Exec.newList (elements.extract 1 elements.size)) := rfl
  rw [hrun, MakesList, ends_bind, ends_needList]
  dsimp only
  rw [h]
  exact ⟨rfl, rfl⟩

theorem makesList_pop (h : (m.store.elements l).isEmpty = false) :
    MakesList (pop.call room place [⟨.list l, sp⟩]) m (m.store.elements l).pop := by
  have hrun : pop.call room place [⟨.list l, sp⟩] = (do
      let elements ← pop.needList ⟨.list l, sp⟩
      if elements.isEmpty then refuseAt (.emptyList pop.name) ⟨.list l, sp⟩
      else Exec.newList elements.pop) := rfl
  rw [hrun, MakesList, ends_bind, ends_needList]
  dsimp only
  rw [h]
  exact ⟨rfl, rfl⟩

/-- The first element goes again. -/
theorem shift_prepend : GivesNewList (do
      let w ← prepend.call room place [⟨.list l, sp⟩, v]
      shift.call room place' [⟨w.payload, sp'⟩]) m (m.store.elements l) := by
  refine makesList_prepend.again fun k m' hk => ?_
  have hne : (m'.store.elements k).isEmpty = false := by simp [hk]
  have hshift : MakesList (shift.call room place' [⟨.list k, sp'⟩]) m' _ := makesList_shift hne
  rw [hk] at hshift
  have hrest : (#[v] ++ m.store.elements l).extract 1 (#[v] ++ m.store.elements l).size =
      m.store.elements l := by
    simp
  rw [hrest] at hshift
  exact hshift

/-- The last element goes again. -/
theorem pop_append : GivesNewList (do
      let w ← append.call room place [⟨.list l, sp⟩, v]
      pop.call room place' [⟨w.payload, sp'⟩]) m (m.store.elements l) := by
  refine makesList_append.again fun k m' hk => ?_
  have hne : (m'.store.elements k).isEmpty = false := by simp [hk]
  have hpop : MakesList (pop.call room place' [⟨.list k, sp'⟩]) m' _ := makesList_pop hne
  rw [hk, Array.pop_push] at hpop
  exact hpop

end Builtin

namespace Eval

open Exec

variable {c : ScopeId}

theorem leaves_ofDocument {α : Type} {r : Except Fault α} : (ofDocument r).LeavesLists :=
  leaves_ofExcept

theorem leaves_resultAt (v : Value) (n : Tree) : (resultAt v n).LeavesLists :=
  leaves_ofDocument.bind fun _ => leaves_ofExcept.bind fun _ => leaves_pure

theorem leaves_lookup (t n : Tree) : (lookup c t n).LeavesLists := by
  refine leaves_ofDocument.bind fun name => leaves_store.bind fun s => ?_
  split
  · exact leaves_ofDocument.bind fun _ => leaves_pure
  · exact leaves_resultAt _ n

theorem leaves_bindAll (params : List String) (args : List Value) :
    (bindAll c params args).LeavesLists := by
  refine leaves_updateStore fun s => ?_
  induction params.zip args generalizing s with
  | nil => rfl
  | cons entry entries ih => exact ih _

/-- Calling a value that is no function of the program. -/
theorem leaves_callValue {room : Nat} {ev : Evaluator} {v : Value} {args : List Value}
    (hv : ∀ f, v.payload ≠ .function f) : (callValue room ev v args).LeavesLists := by
  unfold callValue
  split
  · exact Builtin.leaves_call
  · next f hf => exact (hv f hf).elim
  · split
    · exact leaves_access
    · exact leaves_access
    · exact leaves_fail
  · exact leaves_fail

/-- Every evaluation leaves the lists that there were with their lengths, and with their elements
if neither the program nor a function that it may get to assigns to one. Operators, indices and
slices, calls of lists and built-in functions, reading a name, copying a result and binding
arguments never change a list, and what is taken off a list behind what was put on it gives a new
list of the same elements. -/
theorem evaluate_lists (rounds room : Nat) (m : Machine) :
    (∀ t c, let x := evaluate rounds room t c
      m.store.KeepsLengths (x.final m).store ∧
        (AssignFree t → FunctionsAssignFree m.store c → m.store.KeepsLists (x.final m).store)) ∧
    (∀ o a b, (Operator.apply o a b).LeavesLists) ∧
    (∀ l i upTo, (Exec.access l i upTo).LeavesLists) ∧
    (∀ v args, (∀ f, v.payload ≠ .function f) →
      (callValue room (evaluate rounds room) v args).LeavesLists) ∧
    (∀ c t n, (lookup c t n).LeavesLists) ∧
    (∀ v n, (resultAt v n).LeavesLists) ∧
    (∀ c params args, (bindAll c params args).LeavesLists) ∧
    ∀ l v sp sp' place place',
      Builtin.GivesNewList (do
        let w ← Builtin.prepend.call room place [⟨.list l, sp⟩, v]
        Builtin.shift.call room place' [⟨w.payload, sp'⟩]) m (m.store.elements l) ∧
      Builtin.GivesNewList (do
        let w ← Builtin.append.call room place [⟨.list l, sp⟩, v]
        Builtin.pop.call room place' [⟨w.payload, sp'⟩]) m (m.store.elements l) := by
  refine ⟨fun t c => ⟨?_, fun ht hfree => ?_⟩, Operator.leaves_apply, fun _ _ _ => leaves_access,
    fun _ _ => leaves_callValue, fun _ => leaves_lookup, leaves_resultAt, fun _ => leaves_bindAll,
    fun _ _ _ _ _ _ => ⟨Builtin.shift_prepend, Builtin.pop_append⟩⟩
  · have hholds : lengths.Holds c m.store := ⟨trivial, fun _ _ _ _ => trivial⟩
    have hkeeps := Invariant.evaluates lengths rounds room () t trivial c m hholds
    exact hkeeps.1
  · -- The run beside itself: a part that assigns to an element would be no part of `untouched`.
    have hrooms : (untouched m.store c).Rooms room room := .inl rfl
    have hev := (untouched m.store c).evaluates rounds hrooms t t ⟨rfl, ht⟩
    rcases hev.alike c (.inl .here) m m (machines_untouched hfree) with ⟨hfalse, _⟩ | ⟨_, hm⟩
    · exact hfalse.elim
    · exact hm.store.kept.2

/-- A list joined to itself. -/
theorem evaluate_lists_sum :
    let token (kind : TokenKind) (s : String) := Token.make kind (.text s) (.first "f") none
    let xs := Node.lookup (token .identifier "xs")
    let sum := Tree.ofNode (.binary xs (token .operator "+") xs)
    let scope : Scope := ⟨Store.rootName, none, [(.text "xs", Value.unplaced (.list 0))]⟩
    let m : Machine := { Machine.initial "" 0 with store := ⟨#[scope], #[#[Value.null]]⟩ }
    let v := Value.unplaced (.builtin .len)
    (AssignFree sum ∧ FunctionsAssignFree m.store Store.root ∧ ∀ f, v.payload ≠ .function f) ∧
      m.store.KeepsLists ((evaluate 4 4 sum Store.root).final m).store ∧
      (callValue 4 (evaluate 4 4) v []).LeavesLists := by
  intro token xs sum scope m v
  have hxs : AssignFree (Tree.ofNode xs) := assignFree_of_inner (fun _ => nofun) nofun
  have hsum : AssignFree sum := by
    change AssignFree (.node .binary [Tree.ofNode xs, _, Tree.ofNode xs])
    refine assignFree_of_inner (fun _ => nofun) fun w u hu => ?_
    cases hu with
    | binary hu =>
      rw [List.mem_pair, or_self] at hu
      exact hu ▸ hxs
  -- From the only scope nothing is found but that scope, its list and the null in it.
  have hplain (r : Store.Find) (hr : m.store.Reaches Store.root r) :
      match r with
      | .scope c => c = Store.root
      | .value v => ∀ f, v.payload ≠ .function f := by
    induction hr with
    | here => rfl
    | parent _ hscope hp ih =>
      rw [ih] at hscope
      obtain rfl := Option.some.inj hscope
      cases hp
    | bound _ hscope hentry ih =>
      rw [ih] at hscope
      obtain rfl := Option.some.inj hscope
      obtain rfl := List.mem_singleton.mp hentry
      exact nofun
    | @element l sp v _ hv _ =>
      cases l with
      | zero =>
        obtain rfl := Array.mem_singleton.mp hv
        exact nofun
      | succ l =>
        have hnone : m.store.elements (l + 1) = #[] := rfl
        rw [hnone] at hv
        exact (Array.not_mem_empty v hv).elim
    | closure _ ih => exact (ih _ rfl).elim
  have hfree : FunctionsAssignFree m.store Store.root :=
    fun f sp hf => (hplain _ hf f rfl).elim
  obtain ⟨heval, -, -, hcall, -⟩ := evaluate_lists 4 4 m
  exact ⟨⟨hsum, hfree, nofun⟩, (heval sum Store.root).2 hsum hfree, hcall v [] nofun⟩

end Eval

end Lumen
