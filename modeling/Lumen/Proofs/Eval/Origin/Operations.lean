import Lumen.Proofs.Eval.Origin
import Lumen.Proofs.Eval.Safety

/-!
# Operations stay where their operands are

Operators, lists and built-in functions blame their operands, or leave it to the node that meets the
failure to give it a place. Only an ordering of two kinds and a slice blame two operands at once.
-/

namespace Lumen

variable {K : Position → Position → Prop} {α β : Type}

def Refuses (D : Diagnostic → Prop) : Except Stop α → Prop
  | .error (.failure d) => D d
  | _ => True

theorem Refuses.bind {D : Diagnostic → Prop} {r : Except Stop β} {f : β → Except Stop α}
    (h : Refuses D r) (hf : ∀ b, Refuses D (f b)) : Refuses D (r >>= f) := by
  cases r with
  | ok b => exact hf b
  | error e => cases e <;> exact h

/-- What a document refuses is a fault. -/
theorem refuses_ofDocument {D : Diagnostic → Prop} (r : Except Fault α) :
    Refuses D (r.mapError Stop.fault) := by
  cases r <;> trivial

theorem refuses_map_ofDocument {D : Diagnostic → Prop} (r : Except Fault β) (f : β → α) :
    Refuses D ((r.mapError Stop.fault).map f) := by
  cases r <;> trivial

namespace Value

open Diagnostic (MayPointInto)

variable {a b v : Value} {o : Operator}

theorem refuses_refuse {c : Complaint} (hv : v.IsFrom K) :
    Refuses (MayPointInto K) (refuse c v : Except Stop α) :=
  Diagnostic.mayPointInto_onSpan hv.span

/-- Between the start of one value and the end of another, either of which may be missing. -/
theorem refuses_refuseBetween {c : Complaint} (hc : c.IsAboutTwo) (ha : a.IsFrom K)
    (hb : b.IsFrom K) : Refuses (MayPointInto K) (refuseBetween c a b : Except Stop α) := by
  unfold refuseBetween
  rcases ha.span with ha | ⟨p, q, ha, hpq⟩
  · rw [ha]
    exact .inl rfl
  · rcases hb.span with hb | ⟨p', q', hb, hpq'⟩
    · rw [ha, hb]
      exact .inr (.step hpq)
    · rw [ha, hb]
      exact .inr (.across hc hpq hpq')

theorem refuses_incomparable (ha : a.IsFrom K) (hb : b.IsFrom K) :
    Refuses (MayPointInto K) (incomparable a b : Except Stop α) := by
  unfold incomparable
  split
  · exact refuses_refuse ha
  · next hkind => exact refuses_refuseBetween hkind ha hb

theorem refuses_needNumber (hv : v.IsFrom K) : Refuses (MayPointInto K) v.needNumber := by
  unfold needNumber
  split
  · trivial
  · exact refuses_refuse hv

theorem refuses_needDivisor (hv : v.IsFrom K) : Refuses (MayPointInto K) v.needDivisor := by
  refine (refuses_needNumber hv).bind fun y => ?_
  split
  · exact refuses_refuse hv
  · trivial

theorem refuses_numberOperation (x : Float) (hb : b.IsFrom K) :
    Refuses (MayPointInto K) (numberOperation o x b) := by
  cases o with
  | add | sub | mul | pow => exact (refuses_needNumber hb).bind fun y => trivial
  | div => exact (refuses_needDivisor hb).bind fun y => trivial
  | mod =>
    refine (refuses_needDivisor hb).bind fun y => ?_
    cases Double.remainder? x y <;> trivial
  | _ => exact refuses_refuse (isFrom_number x)

theorem refuses_grown (growth : Growth) (size : Nat) (s : Unit → String) :
    Refuses (MayPointInto K) (grown growth size s) := by
  unfold grown
  split <;> trivial

theorem refuses_textOperation (s : String) (ha : a.IsFrom K) (hb : b.IsFrom K) :
    Refuses (MayPointInto K) (textOperation o a s b) := by
  cases o with
  | add =>
    unfold textOperation
    dsimp only
    split
    · exact refuses_grown _ _ _
    · exact refuses_refuse hb
  | mul =>
    refine (refuses_needNumber hb).bind fun y => ?_
    split
    · unfold repeated
      split
      · trivial
      · split
        · trivial
        · exact refuses_grown _ _ _
    · exact refuses_refuse hb
  | _ => exact refuses_refuse ha

theorem refuses_arithmetic (ha : a.IsFrom K) (hb : b.IsFrom K) :
    Refuses (MayPointInto K) (arithmetic o a b) := by
  unfold arithmetic
  split
  · exact refuses_numberOperation _ hb
  · exact refuses_textOperation _ ha hb
  · split
    · exact refuses_refuse ha
    · exact refuses_refuse ha
  · exact refuses_refuse ha

theorem refuses_ordered (numbers : Float → Float → Bool) (texts : String → String → Bool)
    (ha : a.IsFrom K) (hb : b.IsFrom K) :
    Refuses (MayPointInto K) (ordered numbers texts a b) := by
  unfold ordered
  split
  · trivial
  · trivial
  · exact refuses_incomparable ha hb

theorem refuses_operate (ha : a.IsFrom K) (hb : b.IsFrom K) :
    Refuses (MayPointInto K) (operate o a b) := by
  cases o with
  | eq | ne | and | or => trivial
  | gt | ge | lt | le => exact refuses_ordered _ _ ha hb
  | _ => exact refuses_arithmetic ha hb

theorem refuses_operateData (ha : a.IsFrom K) (hb : b.IsFrom K) :
    Refuses (MayPointInto K) (operateData o a b) := by
  unfold operateData
  dsimp only
  split
  · exact refuses_ofDocument _
  · exact refuses_ofDocument _
  · trivial
  · trivial
  · exact refuses_map_ofDocument _ _
  · exact refuses_map_ofDocument _ _
  · exact refuses_map_ofDocument _ _
  · exact refuses_map_ofDocument _ _
  · exact refuses_map_ofDocument _ _
  · exact refuses_refuse hb
  · refine (refuses_needNumber hb).bind fun y => ?_
    split
    · exact refuses_map_ofDocument _ _
    · exact refuses_refuse hb
  · exact refuses_operate ha hb

theorem refuses_checkIndex {length : Nat} {upper : Int} (hv : v.IsFrom K) :
    Refuses (MayPointInto K) (checkIndex length upper v) := by
  unfold checkIndex
  split
  · split
    · dsimp only
      split
      · exact refuses_refuse hv
      · trivial
    · exact refuses_refuse hv
  · exact refuses_refuse hv

theorem refuses_checkSlice {length : Nat} (ha : a.IsFrom K) (hb : b.IsFrom K) :
    Refuses (MayPointInto K) (checkSlice length a b) := by
  refine (refuses_checkIndex ha).bind fun start => (refuses_checkIndex hb).bind fun stop => ?_
  split
  · exact refuses_refuseBetween trivial ha hb
  · trivial

end Value

/-! ## Actions on values -/

namespace Exec

variable {D : Diagnostic → Prop} {a b i v : Value} {Q : α → Prop}

/-- A reading that gives what it should, and throws no signal. -/
theorem staysIn_reading {r : Except Stop α} (hr : Gives Q r) (hrefuses : Refuses D r) :
    StaysIn K D (ofExcept r) Q := by
  refine staysIn_ofExcept (fun a ha => ?_) fun e he => ?_
  · rw [ha] at hr
    exact hr
  · rw [he] at hr
    cases e with
    | giveBack => exact (hr trivial).elim
    | failure d =>
      rw [he] at hrefuses
      exact hrefuses
    | _ => trivial

theorem staysIn_apply {o : Operator} (ha : a.IsFrom K) (hb : b.IsFrom K) :
    StaysIn K (Diagnostic.MayPointInto K) (o.apply a b) (Value.IsFrom K) := by
  unfold Operator.apply
  split
  · refine staysIn_store fun s hs => staysIn_newList fun v hv => ?_
    rcases Array.mem_append.mp hv with hv | hv
    · exact hs.elements hv
    · exact hs.elements hv
  · refine staysIn_reading ?_ ?_
    · split
      · exact (Value.gives_operateData _ a b).mono fun v hv => ha.madeFrom hb hv
      · exact (Value.gives_operate _ a b).mono fun v hv => ha.madeFrom hb hv
    · split
      · exact Value.refuses_operateData ha hb
      · exact Value.refuses_operate ha hb

theorem staysIn_access {l : ListId} {upTo : Option Value} (hi : i.IsFrom K)
    (hj : ∀ j ∈ upTo, j.IsFrom K) :
    StaysIn K (Diagnostic.MayPointInto K) (access l i upTo) (Value.IsFrom K) := by
  refine staysIn_store fun s hs => ?_
  dsimp only
  split
  · refine (staysIn_reading (Value.gives_checkIndex _ _ i) (Value.refuses_checkIndex hi)).bind ?_
    exact fun k _ => staysIn_pure (hs.getD l k)
  · next j =>
    refine (staysIn_reading (Value.gives_checkSlice _ i j)
      (Value.refuses_checkSlice hi (hj j rfl))).bind ?_
    exact fun range _ => staysIn_newList fun v hv => hs.elements (mem_of_mem_extract hv)

theorem staysIn_assign {l : ListId} (hi : i.IsFrom K) (hv : v.IsFrom K) :
    StaysIn K (Diagnostic.MayPointInto K) (assign l i v) fun _ => True := by
  refine staysIn_store fun s _ => ?_
  refine (staysIn_reading (Value.gives_checkIndex _ _ i) (Value.refuses_checkIndex hi)).bind ?_
  exact fun k _ => staysIn_updateStore fun _ h => h.setElement l k hv

end Exec

/-! ## Built-in functions -/

namespace Builtin

open Exec (StaysIn staysIn_pure staysIn_throw staysIn_fail staysIn_store staysIn_get staysIn_update
  staysIn_text staysIn_newList staysIn_throw_bind)
open Diagnostic (MayPointInto mayPointInto_onSpan)

variable {room : Nat} {b : Builtin} {v : Value} {args : List Value} {Q : α → Prop}

/-- A call that is refused as a whole gets its place from the node that calls. -/
theorem staysIn_refuse {c : Complaint} : StaysIn K (MayPointInto K) (refuse c : Exec α) Q :=
  staysIn_fail (.inl rfl)

theorem staysIn_refuseAt {c : Complaint} (hv : v.IsFrom K) :
    StaysIn K (MayPointInto K) (refuseAt c v : Exec α) Q :=
  staysIn_fail (mayPointInto_onSpan hv.span)

theorem staysIn_needData (hv : v.IsFrom K) :
    StaysIn K (MayPointInto K) (b.needData v) fun _ => True := by
  unfold needData
  split
  · exact staysIn_pure trivial
  · exact staysIn_refuseAt hv

theorem staysIn_needText (hv : v.IsFrom K) :
    StaysIn K (MayPointInto K) (b.needText v) fun _ => True := by
  refine (staysIn_needData hv).bind fun j _ => ?_
  split
  · exact staysIn_pure trivial
  · exact staysIn_throw trivial

theorem staysIn_needList (hv : v.IsFrom K) :
    StaysIn K (MayPointInto K) (b.needList v) fun elements => ∀ w ∈ elements, w.IsFrom K := by
  unfold needList
  split
  · exact staysIn_store fun s hs => staysIn_pure fun w hw => hs.elements hw
  · exact staysIn_refuseAt hv

theorem staysIn_texts {form : Form} :
    StaysIn K (MayPointInto K) (args.mapM (Exec.text form room)) fun _ => True := by
  induction args with
  | nil => exact staysIn_pure trivial
  | cons v args ih =>
    rw [List.mapM_cons]
    exact staysIn_text.bind fun t _ => ih.bind fun texts _ => staysIn_pure trivial

theorem staysIn_printValues {ending : String} :
    StaysIn K (MayPointInto K) (printValues room args ending) fun _ => True :=
  staysIn_texts.bind fun _ _ => staysIn_update fun _ => rfl

theorem staysIn_readLine (prompt : Json) :
    StaysIn K (MayPointInto K) (readLine prompt) (Value.IsFrom K) := by
  unfold readLine
  split
  · have hprint (s : String) : ∀ m : Machine, (m.print s).store = m.store := fun _ => rfl
    have hdrop : ∀ m : Machine, m.dropLine.store = m.store := fun _ => rfl
    refine (staysIn_update (hprint _)).bind fun _ _ => staysIn_get fun m => ?_
    exact (staysIn_update hdrop).bind fun _ _ => staysIn_pure (Value.isFrom_text _)
  · exact staysIn_throw_bind trivial

theorem staysIn_replacement (argument : Nat) (j : Json) :
    StaysIn K (MayPointInto K) (replacement argument j) fun _ => True := by
  unfold replacement
  split
  · exact staysIn_pure trivial
  · exact staysIn_throw trivial

theorem staysIn_replaceIn (s old new : String) :
    StaysIn K (MayPointInto K) (Exec.ofExcept (replaceIn s old new)) (Value.IsFrom K) := by
  rcases replaceIn_cases s old new with h | h
  · exact h ▸ staysIn_pure (Value.isFrom_text _)
  · exact h ▸ staysIn_throw trivial

theorem staysIn_changeCase (map : String → String) (s : String) :
    StaysIn K (MayPointInto K) (Exec.ofExcept (changeCase map s)) (Value.IsFrom K) := by
  rcases changeCase_cases map s with h | h
  · exact h ▸ staysIn_pure (Value.isFrom_text _)
  · exact h ▸ staysIn_throw trivial

theorem staysIn_replaced {old new : Value} (hv : v.IsFrom K) (hold : old.IsFrom K)
    (hnew : new.IsFrom K) :
    StaysIn K (MayPointInto K) (replaced v old new) (Value.IsFrom K) := by
  refine (staysIn_needData hv).bind fun j _ => (staysIn_needData hold).bind fun j₁ _ => ?_
  refine (staysIn_needData hnew).bind fun j₂ _ => ?_
  split
  · refine (staysIn_replacement 1 j₁).bind fun t₁ _ => (staysIn_replacement 2 j₂).bind ?_
    exact fun t₂ _ => staysIn_replaceIn _ t₁ t₂
  · exact staysIn_throw trivial

theorem staysIn_exitCode (hargs : ∀ v ∈ args, v.IsFrom K) :
    StaysIn K (MayPointInto K) (exitCode args) fun _ => True := by
  unfold exitCode
  split
  · exact staysIn_pure trivial
  · have hv := hargs _ List.mem_cons_self
    split
    · split
      · exact staysIn_pure trivial
      · exact staysIn_refuseAt hv
    · exact staysIn_refuseAt hv
  · exact staysIn_refuse

theorem staysIn_len (room : Nat) (hv : v.IsFrom K) :
    StaysIn K (MayPointInto K) (run room len [v]) (Value.IsFrom K) := by
  unfold run
  dsimp only
  split
  · exact staysIn_store fun s _ => staysIn_pure (Value.isFrom_number _)
  · exact staysIn_pure (Value.isFrom_number _)
  · split
    · exact staysIn_pure (Value.isFrom_number _)
    · exact staysIn_throw trivial
  · exact staysIn_refuseAt hv

theorem staysIn_run (hargs : ∀ v ∈ args, v.IsFrom K) :
    StaysIn K (MayPointInto K) (b.run room args) (Value.IsFrom K) := by
  have hfirst {v : Value} {rest : List Value} (h : ∀ w ∈ v :: rest, w.IsFrom K) : v.IsFrom K :=
    h v List.mem_cons_self
  have hrest {v : Value} {rest : List Value} (h : ∀ w ∈ v :: rest, w.IsFrom K) :
      ∀ w ∈ rest, w.IsFrom K := (List.forall_mem_cons.mp h).2
  unfold run
  split
  · exact staysIn_printValues.bind fun _ _ => staysIn_pure Value.isFrom_null
  · exact staysIn_printValues.bind fun _ _ => staysIn_pure Value.isFrom_null
  · exact staysIn_readLine _
  · exact (staysIn_needData (hfirst hargs)).bind fun j _ => staysIn_readLine j
  · exact staysIn_refuse
  · exact staysIn_len room (hfirst hargs)
  · exact (staysIn_needText (hfirst hargs)).bind fun t _ => staysIn_pure (Value.isFrom_text _)
  · exact (staysIn_needText (hfirst hargs)).bind fun t _ => staysIn_changeCase Text.upper t
  · exact (staysIn_needText (hfirst hargs)).bind fun t _ => staysIn_changeCase Text.lower t
  · have hrest' := hrest hargs
    exact staysIn_replaced (hfirst hargs) (hfirst hrest') (hfirst (hrest hrest'))
  · refine (staysIn_needList (hfirst hargs)).bind fun elements he => staysIn_newList fun u hu => ?_
    rw [← Array.mem_toList_iff, Array.toList_appendList] at hu
    rcases List.mem_append.mp hu with hu | hu
    · exact he u (Array.mem_toList_iff.mp hu)
    · exact hrest hargs u hu
  · exact staysIn_refuse
  · refine (staysIn_needList (hfirst hargs)).bind fun elements he => staysIn_newList fun u hu => ?_
    rcases Array.mem_append.mp hu with hu | hu
    · exact hrest hargs u (List.mem_toArray.mp hu)
    · exact he u hu
  · exact staysIn_refuse
  · refine (staysIn_needList (hfirst hargs)).bind fun elements he => ?_
    split
    · exact staysIn_refuseAt (hfirst hargs)
    · exact staysIn_newList fun u hu => he u (mem_of_mem_extract hu)
  · refine (staysIn_needList (hfirst hargs)).bind fun elements he => ?_
    split
    · exact staysIn_refuseAt (hfirst hargs)
    · refine staysIn_newList fun u hu => he u ?_
      obtain ⟨k, hk, rfl⟩ := Array.getElem_of_mem hu
      rw [Array.getElem_pop]
      exact Array.getElem_mem _
  · exact (staysIn_exitCode hargs).bind fun code _ => staysIn_throw trivial
  · exact staysIn_refuse

/-- A wrong number of arguments is blamed on the function that is called. -/
theorem staysIn_call {place : Span} (hplace : place = Span.none ∨ place.LiesIn K)
    (hargs : ∀ v ∈ args, v.IsFrom K) :
    StaysIn K (MayPointInto K) (b.call room place args) (Value.IsFrom K) := by
  unfold call
  split
  · split
    · exact staysIn_run hargs
    · exact staysIn_fail (mayPointInto_onSpan hplace)
  · exact staysIn_run hargs

end Builtin

end Lumen
