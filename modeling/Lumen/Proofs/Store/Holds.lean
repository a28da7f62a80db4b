import Lumen.Store

/-!
# The values of a store

A store holds the values that its scopes bind and those in the slots of its lists. What binding,
unbinding and the other changes add to them is one lemma for each change.
-/

namespace Lumen

namespace Bindings

theorem mem_set {b : Bindings} {name : Scalar} {v : Value} {entry : Scalar × Value}
    (h : entry ∈ b.set name v) : entry.2 = v ∨ entry ∈ b := by
  induction b with
  | nil =>
    rw [List.mem_singleton.mp h]
    exact .inl rfl
  | cons p b ih =>
    obtain ⟨k, w⟩ := p
    unfold set at h
    split at h
    · rcases List.mem_cons.mp h with rfl | h
      · exact .inl rfl
      · exact .inr (List.mem_cons_of_mem _ h)
    · rcases List.mem_cons.mp h with rfl | h
      · exact .inr List.mem_cons_self
      · exact (ih h).imp id (List.mem_cons_of_mem _)

theorem get?_mem {b : Bindings} {name : Scalar} {v : Value} (h : b.get? name = some v) :
    ∃ entry ∈ b, entry.2 = v := by
  induction b with
  | nil => cases h
  | cons p b ih =>
    obtain ⟨k, w⟩ := p
    unfold get? at h
    split at h
    · exact ⟨(k, w), List.mem_cons_self, Option.some.inj h⟩
    · obtain ⟨entry, hmem, he⟩ := ih h
      exact ⟨entry, List.mem_cons_of_mem _ hmem, he⟩

end Bindings

namespace Store

/-- The value is bound in a scope of the store or stands in a slot of one of its lists. -/
def Holds (s : Store) (v : Value) : Prop :=
  (∃ scope ∈ s.scopes, ∃ entry ∈ scope.table, entry.2 = v) ∨ ∃ elements ∈ s.lists, v ∈ elements

variable {s : Store} {v w : Value}

theorem holds_of_lookup {c : ScopeId} {name : Scalar} (h : s.lookup c name = some v) :
    s.Holds v := by
  fun_induction s.lookup c name with
  | case1 => cases h
  | case2 c scope hs w hw =>
    obtain ⟨entry, hmem, he⟩ := Bindings.get?_mem hw
    exact .inl ⟨scope, Array.mem_of_getElem? hs, entry, hmem, he.trans (Option.some.inj h)⟩
  | case3 => cases h
  | case4 c scope hs hnone p hp hlt ih => exact ih h
  | case5 => cases h

theorem holds_of_mem_elements {l : ListId} (h : v ∈ s.elements l) : s.Holds v := by
  unfold elements at h
  cases hl : s.lists[l]? with
  | none => simp [hl] at h
  | some elements =>
    rw [hl] at h
    exact .inr ⟨elements, Array.mem_of_getElem? hl, h⟩

theorem holds_updateTable {c : ScopeId} {f : Bindings → Bindings}
    (h : (s.updateTable c f).Holds w) :
    s.Holds w ∨ ∃ scope ∈ s.scopes, ∃ entry ∈ f scope.table, entry.2 = w := by
  rcases h with ⟨scope, hscope, hentry⟩ | h
  · obtain ⟨d, hd⟩ := Array.getElem?_of_mem hscope
    simp only [updateTable, Array.getElem?_modify] at hd
    split at hd
    · obtain ⟨old, hold, rfl⟩ := Option.map_eq_some_iff.mp hd
      exact .inr ⟨old, Array.mem_of_getElem? hold, hentry⟩
    · exact .inl (.inl ⟨scope, Array.mem_of_getElem? hd, hentry⟩)
  · exact .inl (.inr h)

theorem holds_bind {c : ScopeId} {name : Scalar} (h : (s.bind c name v).Holds w) :
    w = v ∨ s.Holds w := by
  rcases holds_updateTable h with h | ⟨scope, hscope, entry, hentry, rfl⟩
  · exact .inr h
  · rcases Bindings.mem_set hentry with h | h
    · exact .inl h
    · exact .inr (.inl ⟨scope, hscope, entry, h, rfl⟩)

theorem holds_unbind {c : ScopeId} {name : Scalar} (h : (s.unbind c name).Holds w) :
    s.Holds w := by
  rcases holds_updateTable h with h | ⟨scope, hscope, entry, hentry, rfl⟩
  · exact h
  · exact .inl ⟨scope, hscope, entry, (List.mem_filter.mp hentry).1, rfl⟩

/-- A new scope binds nothing yet. -/
theorem holds_addScope {name : String} {parent : Option ScopeId}
    (h : (s.addScope ⟨name, parent, []⟩).Holds w) : s.Holds w := by
  rcases h with ⟨scope, hscope, entry, hentry, rfl⟩ | h
  · rcases Array.mem_push.mp hscope with hscope | rfl
    · exact .inl ⟨scope, hscope, entry, hentry, rfl⟩
    · cases hentry
  · exact .inr h

theorem holds_addList {elements : Array Value} (h : (s.addList elements).Holds w) :
    w ∈ elements ∨ s.Holds w := by
  rcases h with h | ⟨old, hold, hw⟩
  · exact .inr (.inl h)
  · rcases Array.mem_push.mp hold with hold | rfl
    · exact .inr (.inr ⟨old, hold, hw⟩)
    · exact .inl hw

theorem holds_setElement {l : ListId} {i : Nat} (h : (s.setElement l i v).Holds w) :
    w = v ∨ s.Holds w := by
  rcases h with h | ⟨elements, helements, hw⟩
  · exact .inr (.inl h)
  · obtain ⟨k, hk⟩ := Array.getElem?_of_mem helements
    simp only [setElement, Array.getElem?_modify] at hk
    split at hk
    · obtain ⟨old, hold, rfl⟩ := Option.map_eq_some_iff.mp hk
      rcases Array.mem_or_eq_of_mem_setIfInBounds hw with hw | hw
      · exact .inr (.inr ⟨old, Array.mem_of_getElem? hold, hw⟩)
      · exact .inl hw
    · exact .inr (.inr ⟨elements, Array.mem_of_getElem? hk, hw⟩)

end Store

end Lumen
