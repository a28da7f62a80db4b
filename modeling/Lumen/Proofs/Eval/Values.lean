import Lumen.Proofs.Eval.Invariant

/-!
# What operators, lists and built-in functions keep

None of them reaches a scope or calls a function of the program, so all of them stay within every
invariant. What comes out is one of the values that went in, an element of a list, or new.
-/

namespace Lumen.Eval.Invariant

variable {J : Invariant} {α : Type} {p : J.Place} {c : ScopeId} {m : Machine}

theorem keeps_update {f : Machine → Machine} (h : J.Holds c m.store)
    (hf : (f m).store = m.store) : J.Keeps p c m (Exec.update f) fun _ _ => True :=
  keeps_same h ⟨hf, trivial⟩

theorem keeps_get (h : J.Holds c m.store) :
    J.Keeps p c m (get : Exec Machine) fun _ _ => True := keeps_same h ⟨rfl, trivial⟩

theorem keeps_condition {v : Value} (h : J.Holds c m.store) :
    J.Keeps p c m (Exec.holds v) fun _ _ => True := keeps_ofDocument h fun _ _ => trivial

/-! ## Operators and lists -/

theorem keeps_apply {o : Operator} {a b : Value} (h : J.Holds c m.store)
    (ha : J.Admits m.store a) (hb : J.Admits m.store b) :
    J.Keeps p c m (o.apply a b) J.Admits := by
  have hmade {r : Except Stop Value} (hr : Gives (Value.MadeFrom a b) r) :
      J.Keeps p c m (Exec.ofExcept r) J.Admits :=
    keeps_ofExcept h (hr.mono fun v hv => ha.madeFrom hb hv)
  unfold Operator.apply
  split
  · refine (keeps_store h).bind h fun s m' _ h' hs => ?_
    subst hs
    refine keeps_newList h' fun v hv => ?_
    rcases Array.mem_append.mp hv with hv | hv
    · exact h'.elements hv
    · exact h'.elements hv
  · split
    · exact hmade (Value.gives_operateData _ _ _)
    · exact hmade (Value.gives_operate _ _ _)

theorem admits_getD {s : Store} {l : ListId} {i : Nat} (h : J.Holds c s) :
    J.Admits s ((s.elements l).getD i Value.null) := by
  unfold Array.getD
  split
  · exact h.elements (Array.getElem_mem _)
  · exact admits_new Value.isNew_null

theorem keeps_access {l : ListId} {i : Value} {upTo : Option Value} (h : J.Holds c m.store) :
    J.Keeps p c m (Exec.access l i upTo) J.Admits := by
  unfold Exec.access
  refine (keeps_store h).bind h fun s m' _ h' hs => ?_
  subst hs
  dsimp only
  split
  · have hi := Value.gives_checkIndex (m'.store.elements l).size
      ((m'.store.elements l).size - 1) i
    refine (keeps_ofExcept (Q := fun _ _ => True) h' hi).bind h' fun k m'' hl h'' _ => ?_
    exact keeps_pure h'' ((admits_getD h').mono hl)
  · next j =>
    have hij := Value.gives_checkSlice (m'.store.elements l).size i j
    refine (keeps_ofExcept (Q := fun _ _ => True) h' hij).bind h' fun range m'' hl h'' _ => ?_
    refine keeps_newList h'' fun v hv => ?_
    obtain ⟨k, hk, rfl⟩ := Array.getElem_of_mem hv
    rw [Array.getElem_extract]
    exact (h'.elements (Array.getElem_mem _)).mono hl

theorem keeps_assignElement {fields : List Tree} {l : ListId} {i v : Value}
    (hp : J.Part p (.node .assignIndex fields)) (h : J.Holds c m.store)
    (hv : J.Admits m.store v) :
    J.Keeps p c m (Exec.assign l i v) fun _ _ => True := by
  unfold Exec.assign
  refine (keeps_store h).bind h fun s m' hl h' hs => ?_
  subst hs
  dsimp only
  have hi := Value.gives_checkIndex (m'.store.elements l).size ((m'.store.elements l).size - 1) i
  refine (keeps_ofExcept (Q := fun _ _ => True) h' hi).bind h' fun k m'' hl' h'' _ => ?_
  refine keeps_updateStore (J.leads_setElement c _ l k v hp) h'' fun w hw => ?_
  rcases Store.holds_setElement hw with rfl | hw
  · exact .inl ((hv.mono hl).mono hl')
  · exact .inr hw

/-! ## Built-in functions -/

theorem keeps_refuse {complaint : Complaint} {Q : Store → α → Prop} (h : J.Holds c m.store) :
    J.Keeps p c m (Builtin.refuse complaint) Q := keeps_fail h

theorem keeps_refuseAt {complaint : Complaint} {v : Value} {Q : Store → α → Prop}
    (h : J.Holds c m.store) : J.Keeps p c m (Builtin.refuseAt complaint v) Q := keeps_fail h

theorem keeps_new {v : Value} (h : J.Holds c m.store) (hv : v.IsNew) :
    J.Keeps p c m (pure v) J.Admits := keeps_pure h (admits_new hv)

theorem keeps_made {r : Except Stop Value} (h : J.Holds c m.store) (hr : Gives Value.IsNew r) :
    J.Keeps p c m (Exec.ofExcept r) J.Admits :=
  keeps_ofExcept h (hr.mono fun _ hv => admits_new hv)

theorem keeps_needData {b : Builtin} {v : Value} (h : J.Holds c m.store) :
    J.Keeps p c m (b.needData v) fun _ _ => True := by
  unfold Builtin.needData
  split
  · exact keeps_pure h trivial
  · exact keeps_refuseAt h

theorem keeps_needText {b : Builtin} {v : Value} (h : J.Holds c m.store) :
    J.Keeps p c m (b.needText v) fun _ _ => True := by
  refine (keeps_needData h).bind h fun j m' _ h' _ => ?_
  split
  · exact keeps_pure h' trivial
  · exact keeps_fault h'

theorem keeps_needList {b : Builtin} {v : Value} (h : J.Holds c m.store) :
    J.Keeps p c m (b.needList v) fun s elements => ∀ w ∈ elements, J.Admits s w := by
  unfold Builtin.needList
  split
  · refine (keeps_store h).bind h fun s m' _ h' hs => ?_
    subst hs
    exact keeps_pure h' fun w hw => h'.elements hw
  · exact keeps_refuseAt h

theorem keeps_texts {form : Form} {room : Nat} {args : List Value} (h : J.Holds c m.store) :
    J.Keeps p c m (args.mapM (Exec.text form room)) fun _ _ => True := by
  induction args generalizing m with
  | nil => exact keeps_pure h trivial
  | cons v args ih =>
    rw [List.mapM_cons]
    refine (keeps_text h).bind h fun s m' _ h' _ => ?_
    exact (ih h').bind h' fun texts m'' _ h'' _ => keeps_pure h'' trivial

theorem keeps_printValues {room : Nat} {args : List Value} {ending : String}
    (h : J.Holds c m.store) :
    J.Keeps p c m (Builtin.printValues room args ending) fun _ _ => True :=
  (keeps_texts h).bind h fun _ _ _ h' _ => keeps_update h' rfl

theorem keeps_readLine {prompt : Json} (h : J.Holds c m.store) :
    J.Keeps p c m (Builtin.readLine prompt) J.Admits := by
  unfold Builtin.readLine
  have hread {m : Machine} (h : J.Holds c m.store) : J.Keeps p c m (do
      let line := (← get).nextLine
      Exec.update Machine.dropLine
      return Value.text line) J.Admits := by
    refine (keeps_get h).bind h fun now m' _ h' _ => ?_
    exact (keeps_update h' rfl).bind h' fun _ m'' _ h'' _ => keeps_new h'' (Value.isNew_text _)
  split
  · exact (keeps_update h rfl).bind h fun _ m' _ h' _ => hread h'
  · exact (keeps_fault (Q := fun _ _ => True) h).bind h fun _ m' _ h' _ => hread h'

theorem keeps_replacement {argument : Nat} {j : Json} (h : J.Holds c m.store) :
    J.Keeps p c m (Builtin.replacement argument j) fun _ _ => True := by
  unfold Builtin.replacement
  split
  · exact keeps_pure h trivial
  · exact keeps_fault h

theorem keeps_replaced {s old new : Value} (h : J.Holds c m.store) :
    J.Keeps p c m (Builtin.replaced s old new) J.Admits := by
  refine (keeps_needData h).bind h fun s m₁ _ h₁ _ => ?_
  refine (keeps_needData h₁).bind h₁ fun old m₂ _ h₂ _ => ?_
  refine (keeps_needData h₂).bind h₂ fun new m₃ _ h₃ _ => ?_
  split
  · refine (keeps_replacement h₃).bind h₃ fun old m₄ _ h₄ _ => ?_
    refine (keeps_replacement h₄).bind h₄ fun new m₅ _ h₅ _ => ?_
    exact keeps_made h₅ (Builtin.gives_replaceIn _ _ _)
  · exact keeps_fault h₃

theorem keeps_exitCode {args : List Value} (h : J.Holds c m.store) :
    J.Keeps p c m (Builtin.exitCode args) fun _ _ => True := by
  unfold Builtin.exitCode
  split
  · exact keeps_pure h trivial
  · split
    · split
      · exact keeps_pure h trivial
      · exact keeps_refuseAt h
    · exact keeps_refuseAt h
  · exact keeps_refuse h

theorem keeps_len {v : Value} (h : J.Holds c m.store) :
    J.Keeps p c m (Builtin.run 0 .len [v]) J.Admits := by
  unfold Builtin.run
  dsimp only
  split
  · exact (keeps_store h).bind h fun s m' _ h' _ => keeps_new h' (Value.isNew_number _)
  · exact keeps_new h (Value.isNew_number _)
  · split
    · exact keeps_new h (Value.isNew_number _)
    · exact keeps_fault h
  · exact keeps_refuseAt h

theorem keeps_run {room : Nat} {b : Builtin} {args : List Value} (h : J.Holds c m.store)
    (hargs : ∀ v ∈ args, J.Admits m.store v) :
    J.Keeps p c m (b.run room args) J.Admits := by
  have hcase {x : Exec String} (map : String → String)
      (hx : J.Keeps p c m x fun _ _ => True) :
      J.Keeps p c m (do Exec.ofExcept (Builtin.changeCase map (← x))) J.Admits :=
    hx.bind h fun s m' _ h' _ => keeps_made h' (Builtin.gives_changeCase map s)
  unfold Builtin.run
  split
  · exact (keeps_printValues h).bind h fun _ m' _ h' _ => keeps_new h' Value.isNew_null
  · exact (keeps_printValues h).bind h fun _ m' _ h' _ => keeps_new h' Value.isNew_null
  · exact keeps_readLine h
  · exact (keeps_needData h).bind h fun j m' _ h' _ => keeps_readLine h'
  · exact keeps_refuse h
  · exact keeps_len h
  · exact (keeps_needText h).bind h fun s m' _ h' _ => keeps_new h' (Value.isNew_text _)
  · exact hcase Text.upper (keeps_needText h)
  · exact hcase Text.lower (keeps_needText h)
  · exact keeps_replaced h
  · next v w rest =>
    refine (keeps_needList h).bind h fun elements m' hl h' he => ?_
    refine keeps_newList h' fun u hu => ?_
    rw [← Array.mem_toList_iff, Array.toList_appendList] at hu
    rcases List.mem_append.mp hu with hu | hu
    · exact he u (Array.mem_toList_iff.mp hu)
    · exact (hargs u (List.mem_cons_of_mem _ hu)).mono hl
  · exact keeps_refuse h
  · next v w rest =>
    refine (keeps_needList h).bind h fun elements m' hl h' he => ?_
    refine keeps_newList h' fun u hu => ?_
    rcases Array.mem_append.mp hu with hu | hu
    · exact (hargs u (List.mem_cons_of_mem _ (List.mem_toArray.mp hu))).mono hl
    · exact he u hu
  · exact keeps_refuse h
  · refine (keeps_needList h).bind h fun elements m' _ h' he => ?_
    split
    · exact keeps_refuseAt h'
    · refine keeps_newList h' fun u hu => he u ?_
      obtain ⟨k, hk, rfl⟩ := Array.getElem_of_mem hu
      rw [Array.getElem_extract]
      exact Array.getElem_mem _
  · refine (keeps_needList h).bind h fun elements m' _ h' he => ?_
    split
    · exact keeps_refuseAt h'
    · refine keeps_newList h' fun u hu => he u ?_
      obtain ⟨k, hk, rfl⟩ := Array.getElem_of_mem hu
      rw [Array.getElem_pop]
      exact Array.getElem_mem _
  · exact (keeps_exitCode h).bind h fun code m' _ h' _ => keeps_throw h' trivial
  · exact keeps_refuse h

theorem keeps_builtin {room : Nat} {b : Builtin} {place : Span} {args : List Value}
    (h : J.Holds c m.store) (hargs : ∀ v ∈ args, J.Admits m.store v) :
    J.Keeps p c m (b.call room place args) J.Admits := by
  unfold Builtin.call
  split
  · split
    · exact keeps_run h hargs
    · exact keeps_fail h
  · exact keeps_run h hargs

end Lumen.Eval.Invariant
