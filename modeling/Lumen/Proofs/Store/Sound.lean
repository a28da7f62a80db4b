import Lumen.Proofs.Node.WellMade
import Lumen.Proofs.Operation.Refusals
import Lumen.Proofs.Store.Holds
import Lumen.Store.Display

/-!
# Sound stores

In a sound store all values are of the kinds that programs compute with: lists are lists of the
store, functions keep scopes of the store, and the bodies of functions are programs that a source
can write. Every change that evaluation makes to a store keeps it sound.
-/

namespace Lumen

/-- The store has the scopes and the lists of the other one, and maybe more. -/
structure Store.Extends (s s' : Store) : Prop where
  size_scopes : s.scopes.size ≤ s'.scopes.size
  size_lists : s.lists.size ≤ s'.lists.size

def Payload.IsSound (p : Payload) (s : Store) : Prop :=
  match p with
  | .list l => l < s.lists.size
  | .function f => f.scope < s.scopes.size ∧ ∃ e : Node, e.WellMade ∧ f.body = Tree.ofNode e
  | .datum _ | .base => False
  | _ => True

/-- A value that programs compute with, made for this store. -/
structure Value.IsSound (v : Value) (s : Store) : Prop where
  payload : v.payload.IsSound s
  span : v.span.IsKnown

structure Store.IsSound (s : Store) : Prop where
  values : ∀ v, s.Holds v → v.IsSound s
  /-- A parent is older than its child. -/
  parents : ∀ c p, (s.scopes[c]?).bind Scope.parent = some p → p < c

namespace Store

variable {s s' s'' : Store}

theorem Extends.refl (s : Store) : s.Extends s := ⟨Nat.le_refl _, Nat.le_refl _⟩

theorem Extends.trans (h : s.Extends s') (h' : s'.Extends s'') : s.Extends s'' :=
  ⟨Nat.le_trans h.size_scopes h'.size_scopes, Nat.le_trans h.size_lists h'.size_lists⟩

theorem extends_updateTable (s : Store) (c : ScopeId) (f : Bindings → Bindings) :
    s.Extends (s.updateTable c f) := ⟨by simp [updateTable], Nat.le_refl _⟩

theorem extends_addScope (s : Store) (scope : Scope) : s.Extends (s.addScope scope) :=
  ⟨by simp [addScope], Nat.le_refl _⟩

theorem extends_addList (s : Store) (elements : Array Value) : s.Extends (s.addList elements) :=
  ⟨Nat.le_refl _, by simp [addList]⟩

theorem extends_setElement (s : Store) (l : ListId) (i : Nat) (v : Value) :
    s.Extends (s.setElement l i v) := ⟨Nat.le_refl _, by simp [setElement]⟩

end Store

namespace Value

variable {s s' : Store} {v : Value} {p : Payload}

theorem IsSound.mono (h : v.IsSound s) (hs : s.Extends s') : v.IsSound s' := by
  obtain ⟨p, sp⟩ := v
  refine ⟨?_, h.span⟩
  have hp := h.payload
  cases p with
  | list l => exact Nat.lt_of_lt_of_le hp hs.size_lists
  | function f => exact ⟨Nat.lt_of_lt_of_le hp.1 hs.size_scopes, hp.2⟩
  | _ => exact hp

theorem IsSound.isRuntime (h : v.IsSound s) : v.IsRuntime := by
  obtain ⟨p, sp⟩ := v
  refine ⟨?_, h.span⟩
  have hp := h.payload
  cases p with
  | datum | base => exact hp.elim
  | _ => trivial

theorem IsSound.place (h : v.IsSound s) {sp : Span} (hsp : sp.IsKnown) :
    Value.IsSound ⟨v.payload, sp⟩ s := ⟨h.payload, hsp⟩

theorem isSound_unplaced (h : p.IsSound s) : (unplaced p).IsSound s := ⟨h, Span.isKnown_none⟩

theorem isSound_number (x : Float) : (number x).IsSound s :=
  isSound_unplaced (p := .number x) trivial

theorem isSound_text (t : String) : (text t).IsSound s := isSound_unplaced (p := .text t) trivial

theorem isSound_null : null.IsSound s := isSound_unplaced (p := .null) trivial

theorem IsNew.isSound (h : v.IsNew) (hv : v.IsRuntime) : v.IsSound s := by
  obtain ⟨p, sp⟩ := v
  refine ⟨?_, hv.span⟩
  have hplain := h.1
  have hp := hv.payload
  cases p with
  | list | function => exact hplain.elim
  | datum | base => exact hp.elim
  | _ => trivial

theorem isSound_orNull {o : Option Value} (h : ∀ w ∈ o, w.IsSound s) : (orNull o).IsSound s := by
  cases o with
  | none => exact isSound_null
  | some v => exact h v rfl

end Value

namespace Store

variable {s s' : Store} {c : ScopeId} {v : Value}

theorem IsSound.lookup (h : s.IsSound) {name : Scalar} (hv : s.lookup c name = some v) :
    v.IsSound s := h.values v (holds_of_lookup hv)

theorem IsSound.elements (h : s.IsSound) {l : ListId} (hv : v ∈ s.elements l) : v.IsSound s :=
  h.values v (holds_of_mem_elements hv)

theorem IsSound.getD (h : s.IsSound) (l : ListId) (i : Nat) :
    ((s.elements l).getD i Value.null).IsSound s := by
  unfold Array.getD
  split
  · exact h.elements (Array.getElem_mem _)
  · exact Value.isSound_null

theorem IsSound.next (h : s.IsSound) (hs : s.Extends s')
    (hv : ∀ w, s'.Holds w → w.IsSound s' ∨ s.Holds w)
    (hp : ∀ c p, (s'.scopes[c]?).bind Scope.parent = some p → p < c) : s'.IsSound := by
  refine ⟨fun w hw => ?_, hp⟩
  rcases hv w hw with hw | hw
  · exact hw
  · exact (h.values w hw).mono hs

theorem parent_updateTable (s : Store) (c d : ScopeId) (f : Bindings → Bindings) :
    ((s.updateTable c f).scopes[d]?).bind Scope.parent = (s.scopes[d]?).bind Scope.parent := by
  rw [updateTable, Array.getElem?_modify]
  split
  · cases s.scopes[d]? <;> rfl
  · rfl

theorem IsSound.bind (h : s.IsSound) (c : ScopeId) (name : Scalar) (hv : v.IsSound s) :
    (s.bind c name v).IsSound := by
  have hs : s.Extends (s.bind c name v) := extends_updateTable s c _
  refine h.next hs (fun w hw => ?_) fun d p hp => ?_
  · rcases holds_bind hw with rfl | hw
    · exact .inl (hv.mono hs)
    · exact .inr hw
  · rw [Store.bind, parent_updateTable] at hp
    exact h.parents d p hp

theorem IsSound.unbind (h : s.IsSound) (c : ScopeId) (name : Scalar) :
    (s.unbind c name).IsSound := by
  refine h.next (extends_updateTable s c _) (fun w hw => .inr (holds_unbind hw)) fun d p hp => ?_
  rw [Store.unbind, parent_updateTable] at hp
  exact h.parents d p hp

/-- A new scope below one that is there. -/
theorem IsSound.addScope (h : s.IsSound) (name : String) (hc : c < s.scopes.size) :
    (s.addScope ⟨name, some c, []⟩).IsSound := by
  refine h.next (extends_addScope s _) (fun w hw => .inr (holds_addScope hw)) fun d p hp => ?_
  rw [Store.addScope, Array.getElem?_push] at hp
  split at hp
  · next hd =>
    obtain rfl := Option.some.inj hp
    exact hd ▸ hc
  · exact h.parents d p hp

theorem IsSound.addList (h : s.IsSound) {elements : Array Value}
    (hv : ∀ v ∈ elements, v.IsSound s) : (s.addList elements).IsSound := by
  have hs := extends_addList s elements
  refine h.next hs (fun w hw => ?_) h.parents
  rcases holds_addList hw with hw | hw
  · exact .inl ((hv w hw).mono hs)
  · exact .inr hw

theorem IsSound.setElement (h : s.IsSound) (l : ListId) (i : Nat) (hv : v.IsSound s) :
    (s.setElement l i v).IsSound := by
  have hs := extends_setElement s l i v
  refine h.next hs (fun w hw => ?_) h.parents
  rcases holds_setElement hw with rfl | hw
  · exact .inl (hv.mono hs)
  · exact .inr hw

theorem isSound_initial : Store.initial.IsSound := by
  refine ⟨fun v hv => ?_, fun c p hp => ?_⟩
  · rcases hv with ⟨scope, hscope, entry, hentry, rfl⟩ | ⟨elements, helements, -⟩
    · obtain rfl := Array.mem_singleton.mp hscope
      obtain ⟨b, -, rfl⟩ := List.mem_map.mp hentry
      exact Value.isSound_unplaced (p := .builtin b) trivial
    · exact (Array.not_mem_empty _ helements).elim
  · cases c with
    | zero => cases hp
    | succ c => cases hp

/-- All that keeps a sound value from having a text is that it nests too deep. -/
theorem IsSound.obstacle?_eq (h : s.IsSound) {form : Form} {room : Nat} {o : Obstacle}
    (hv : v.IsSound s) (ho : s.obstacle? form room v = some o) : o = .tooDeep := by
  induction room generalizing v with
  | zero => exact (Option.some.inj ho).symm
  | succ room ih =>
    unfold obstacle? at ho
    split at ho
    · obtain ⟨w, hw, hwo⟩ := List.exists_of_findSome?_eq_some ho
      exact ih (h.elements (Array.mem_toList_iff.mp hw)) hwo
    · next j hj =>
      have hp := hv.payload
      rw [hj] at hp
      exact hp.elim
    · cases ho

end Store

end Lumen
