import Lumen.Proofs.Eval.Simulation.Operations

/-!
# The rules of evaluation side by side

One lemma for each rule, about two evaluators that treat related parts alike. From these the steps
on related nodes are alike, and by induction on the depth so is evaluation.
-/

namespace Lumen.Eval.Simulation

variable {S : Simulation} {α β : Type} {c : ScopeId} {ev ev' : Evaluator}
  {rounds room room' : Nat}

/-- The evaluators treat the parts alike. -/
structure Evaluates (S : Simulation) (ev ev' : Evaluator) (t t' : Tree) : Prop where
  span : Readings (Spans S.Marks) t.span t'.span
  start : Readings S.Marks t.start t'.start
  alike : ∀ c, S.Reaches c → S.Alike (ev t c) (ev' t' c) (Option.Rel S.Values)

section

variable {t t' u u' : Tree} {n n' : Tree} {v v' : Value}

/-! ## Operands and sequences -/

theorem alike_operand (ht : S.Evaluates ev ev' t t') (hc : S.Reaches c) :
    S.Alike (operand ev t c) (operand ev' t' c) S.Values :=
  (ht.alike c hc).bind fun _ _ hv => alike_pure (Values.orNull hv)

theorem alike_operands {ts ts' : List Tree} (hts : List.Forall₂ (S.Evaluates ev ev') ts ts')
    (hc : S.Reaches c) :
    S.Alike (operands ev c ts) (operands ev' c ts') (List.Forall₂ S.Values) := by
  induction hts with
  | nil => exact alike_pure .nil
  | cons ht _ ih =>
    refine (alike_operand ht hc).bind fun v v' hv => ?_
    exact ih.bind fun vs vs' hvs => alike_pure (.cons hv hvs)

theorem alike_sequence {ts ts' : List Tree} {o o' : Option Value}
    (hts : List.Forall₂ (S.Evaluates ev ev') ts ts') (hc : S.Reaches c)
    (ho : Option.Rel S.Values o o') :
    S.Alike (sequence ev c o ts) (sequence ev' c o' ts') (Option.Rel S.Values) := by
  induction hts generalizing o o' with
  | nil => exact alike_pure ho
  | cons ht _ ih => exact (ht.alike c hc).bind fun v v' hv => ih hv

theorem alike_block
    (hts : Readings (List.Forall₂ (S.Evaluates ev ev')) t.items t'.items) (hc : S.Reaches c) :
    S.Alike (block ev c t) (block ev' c t') (Option.Rel S.Values) :=
  (alike_ofDocument hts).bind fun _ _ hts => alike_sequence hts hc .none

/-! ## Literals and results -/

theorem alike_nameOf (h : t.name = t'.name) : S.Alike (nameOf t) (nameOf t') Eq := alike_reading h

theorem alike_failAt {P : α → β → Prop} {complaint : Complaint}
    (h : Readings (Spans S.Marks) n.span n'.span) :
    S.Alike (failAt complaint n) (failAt complaint n') P :=
  (alike_ofDocument h).bind fun _ _ hs => alike_fail hs

theorem alike_placed {p p' : Payload} (hp : S.Payloads p p')
    (h : Readings (Spans S.Marks) n.span n'.span) :
    S.Alike (placed p n) (placed p' n') (Option.Rel S.Values) :=
  (alike_ofDocument h).bind fun _ _ hs => alike_pure (.some ⟨hp, hs⟩)

theorem alike_numberLiteral (ht : t.value = t'.value)
    (h : Readings (Spans S.Marks) n.span n'.span) :
    S.Alike (numberLiteral t n) (numberLiteral t' n') (Option.Rel S.Values) := by
  refine (alike_reading ht).bind ?_
  rintro j _ rfl
  refine (alike_reading rfl).bind ?_
  rintro x _ rfl
  exact alike_placed (.plain trivial) h

theorem alike_textLiteral (ht : t.value = t'.value)
    (h : Readings (Spans S.Marks) n.span n'.span) :
    S.Alike (textLiteral t n) (textLiteral t' n') (Option.Rel S.Values) := by
  refine (alike_reading ht).bind ?_
  rintro j _ rfl
  split
  · exact alike_placed (.plain trivial) h
  · exact alike_placed (.plain trivial) h

theorem alike_listLiteral
    (hts : Readings (List.Forall₂ (S.Evaluates ev ev')) t.items t'.items)
    (h : Readings (Spans S.Marks) n.span n'.span) (hc : S.Reaches c) :
    S.Alike (listLiteral ev c t n) (listLiteral ev' c t' n') (Option.Rel S.Values) := by
  refine (alike_ofDocument hts).bind fun ts ts' hts => ?_
  refine (alike_operands hts hc).bind fun vs vs' hvs => ?_
  refine (alike_newList (.of_forall₂ hvs)).bind fun v v' hv => ?_
  exact alike_placed hv.payload h

theorem alike_resultAt (hv : S.Values v v') (h : Readings (Spans S.Marks) n.span n'.span) :
    S.Alike (resultAt v n) (resultAt v' n') (Option.Rel S.Values) := by
  refine (alike_ofDocument h).bind fun s s' hs => ?_
  exact (alike_ofExcept (results_copyTo hv hs)).bind fun w w' hw => alike_pure (.some hw)

/-! ## Operators and names -/

theorem alike_binary {op op' : Tree} (ht : S.Evaluates ev ev' t t') (hop : op.name = op'.name)
    (hu : S.Evaluates ev ev' u u') (h : Readings (Spans S.Marks) n.span n'.span)
    (hc : S.Reaches c) :
    S.Alike (binary ev c t op u n) (binary ev' c t' op' u' n') (Option.Rel S.Values) := by
  refine (alike_operand hu hc).bind fun b b' hb => ?_
  refine (alike_operand ht hc).bind fun a a' ha => ?_
  refine (alike_nameOf hop).bind ?_
  rintro symbol _ rfl
  split
  · exact alike_failAt h
  · exact (alike_located h (alike_apply ha hb)).bind fun v v' hv => alike_resultAt hv h

theorem alike_signed {sign : Json} (hv : S.Values v v') :
    S.Alike (signed sign v) (signed sign v') S.Values := by
  unfold signed
  split
  · split
    · exact alike_apply hv (values_new (Value.isNew_number _))
    · split
      · unfold Value.negation
        rw [← hv.truth_eq]
        apply alike_ofDocument
        cases v.truth with
        | ok x => exact .ok (values_new (Value.isNew_ofBool _))
        | error f => exact .error
      · exact alike_pure hv
  · exact alike_pure hv

theorem alike_unary {op op' : Tree} (hop : op.value = op'.value) (ht : S.Evaluates ev ev' t t')
    (h : Readings (Spans S.Marks) n.span n'.span) (hc : S.Reaches c) :
    S.Alike (unary ev c op t n) (unary ev' c op' t' n') (Option.Rel S.Values) := by
  refine (alike_operand ht hc).bind fun a a' ha => ?_
  refine (alike_reading hop).bind ?_
  rintro sign _ rfl
  exact (alike_located h (alike_signed ha)).bind fun v v' hv => alike_resultAt hv h

theorem alike_ternary {w w' : Tree} (ht : S.Evaluates ev ev' t t')
    (hu : S.Evaluates ev ev' u u') (hw : S.Evaluates ev ev' w w') (hc : S.Reaches c) :
    S.Alike (ternary ev c t u w) (ternary ev' c t' u' w') (Option.Rel S.Values) := by
  refine (alike_operand ht hc).bind fun v v' hv => ?_
  refine (alike_holds hv).bind ?_
  rintro b _ rfl
  split
  · exact hu.alike c hc
  · exact hw.alike c hc

theorem alike_lookup (ht : t.name = t'.name) (h : Readings (Spans S.Marks) n.span n'.span)
    (hc : S.Reaches c) :
    S.Alike (lookup c t n) (lookup c t' n') (Option.Rel S.Values) := by
  refine (alike_nameOf ht).bind ?_
  rintro name _ rfl
  refine alike_store.bind fun s s' hs => ?_
  have hbound := hs.lookup hc name
  revert hbound
  generalize s.lookup c name = o, s'.lookup c name = o'
  intro hbound
  cases hbound with
  | none => exact alike_placed (.plain trivial) h
  | some hv => exact alike_resultAt hv h

theorem alike_assign (ht : t.name = t'.name) (hu : S.Evaluates ev ev' u u')
    (hr : S.Rooms room room') (hc : S.Reaches c) :
    S.Alike (assign room ev c t u) (assign room' ev' c t' u') (Option.Rel S.Values) := by
  refine (alike_operand hu hc).bind fun v v' hv => ?_
  refine (alike_nameOf ht).bind ?_
  rintro name _ rfl
  refine (alike_bindName hv).bind fun _ _ _ => ?_
  exact (alike_noteValue hv hr).bind fun _ _ _ => alike_pure (.some hv)

/-! ## Elements -/

theorem alike_indexOperand {complaint : Complaint} (hu : S.Evaluates ev ev' u u')
    (h : Readings (Spans S.Marks) n.span n'.span) (hc : S.Reaches c) :
    S.Alike (indexOperand ev c complaint u n) (indexOperand ev' c complaint u' n') S.Values := by
  refine (alike_operand hu hc).bind fun v v' hv => ?_
  rw [← hv.payload.isNumber_eq]
  split
  · exact alike_pure hv
  · exact alike_located h (alike_failAt hu.span)

theorem alike_upToOperand (hu : Optionals (S.Evaluates ev ev') u u')
    (h : Readings (Spans S.Marks) n.span n'.span) (hc : S.Reaches c) :
    S.Alike (upToOperand ev c u n) (upToOperand ev' c u' n') (Option.Rel S.Values) := by
  unfold upToOperand
  rw [← hu.isNull_eq]
  split
  · exact alike_pure .none
  · next hnull =>
    have hu := hu.part (Bool.eq_false_iff.mpr hnull)
    exact (alike_indexOperand hu h hc).bind fun v v' hv => alike_pure (.some hv)

theorem alike_index {w w' : Tree} (ht : S.Evaluates ev ev' t t') (hu : S.Evaluates ev ev' u u')
    (hw : Optionals (S.Evaluates ev ev') w w')
    (h : Readings (Spans S.Marks) n.span n'.span) (hc : S.Reaches c) :
    S.Alike (index ev c t u w n) (index ev' c t' u' w' n') (Option.Rel S.Values) := by
  refine (alike_operand ht hc).bind fun v v' hv => ?_
  refine (alike_indexOperand hu h hc).bind fun i i' hi => ?_
  refine (alike_upToOperand hw h hc).bind fun j j' hj => ?_
  have hrefused : S.Alike (α := Option Value) (β := Option Value)
      (Exec.located n.span (Exec.fail (Diagnostic.onSpan (.notIndexable v.kind) v.span)))
      (Exec.located n'.span (Exec.fail (Diagnostic.onSpan (.notIndexable v'.kind) v'.span)))
      (Option.Rel S.Values) := by
    rw [← hv.kind_eq]
    exact alike_located h (alike_fail hv.span)
  have hp := hv.payload
  revert hp
  generalize v.payload = p, v'.payload = p'
  intro hp
  cases hp with
  | list hl =>
    exact (alike_located h (alike_access hl hi hj)).bind fun w w' hw => alike_pure (.some hw)
  | plain hplain =>
    cases p with
    | list l => exact hplain.elim
    | _ => exact hrefused
  | _ => exact hrefused

theorem alike_assignAt {fields : List Tree} {m' : Tree} {l : ListId} {name : Scalar} {i i' : Value}
    (hparts : S.Parts (.node .assignIndex fields) m') (hl : S.ReachesList l) (hi : S.Values i i')
    (hv : S.Values v v') (h : Readings (Spans S.Marks) n.span n'.span) (hr : S.Rooms room room') :
    S.Alike (do
      Exec.located n.span (Exec.assign l i v)
      let slot ← Exec.text .written room i
      Exec.noteValue room 2 v fun text =>
        "assign " ++ name.display ++ "[" ++ slot ++ "] = " ++ text
      return some v)
      (do
      Exec.located n'.span (Exec.assign l i' v')
      let slot ← Exec.text .written room' i'
      Exec.noteValue room' 2 v' fun text =>
        "assign " ++ name.display ++ "[" ++ slot ++ "] = " ++ text
      return some v') (Option.Rel S.Values) := by
  refine (alike_located h (alike_assignElement hl hparts hi hv)).bind fun _ _ _ => ?_
  refine (alike_text hi hr).bind ?_
  rintro slot _ rfl
  exact (alike_noteValue hv hr).bind fun _ _ _ => alike_pure (.some hv)

theorem alike_assignIndex {fields : List Tree} {m' w w' : Tree}
    (hparts : S.Parts (.node .assignIndex fields) m') (ht : t.name = t'.name)
    (htspan : Readings (Spans S.Marks) t.span t'.span) (hu : S.Evaluates ev ev' u u')
    (hw : S.Evaluates ev ev' w w')
    (h : Readings (Spans S.Marks) n.span n'.span) (hr : S.Rooms room room') (hc : S.Reaches c) :
    S.Alike (assignIndex room ev c t u w n) (assignIndex room' ev' c t' u' w' n')
      (Option.Rel S.Values) := by
  refine (alike_nameOf ht).bind ?_
  rintro name _ rfl
  refine alike_store.bind fun s s' hs => ?_
  have hrefused : S.Alike (α := Option Value) (β := Option Value)
      (Exec.located n.span (failAt .notAssignable t))
      (Exec.located n'.span (failAt .notAssignable t')) (Option.Rel S.Values) :=
    alike_located h (alike_failAt htspan)
  have hbound := rel_map (hs.lookup hc name) fun v v' hv => Values.payload hv
  revert hbound
  generalize (s.lookup c name).map Value.payload = o, (s'.lookup c name).map Value.payload = o'
  intro hbound
  cases hbound with
  | none => exact hrefused
  | @some p p' hp =>
    cases hp with
    | @list l hl =>
      refine (alike_operand hu hc).bind fun i i' hi => ?_
      refine (alike_operand hw hc).bind fun v v' hv => ?_
      rw [← hi.payload.isNumber_eq]
      split
      · refine (alike_located (P := fun _ _ => True) h (alike_failAt hu.span)).bind fun _ _ _ => ?_
        exact alike_assignAt hparts hl hi hv h hr
      · exact alike_assignAt hparts hl hi hv h hr
    | plain hplain =>
      cases p with
      | list l => exact hplain.elim
      | _ => exact hrefused
    | _ => exact hrefused

/-! ## Conditionals and loops -/

theorem alike_noteCase {p p' : Mark} (h : S.Marks p p') :
    S.Alike (Exec.note 3 fun _ => "if: taking case at " ++ p.describe)
      (Exec.note 3 fun _ => "if: taking case at " ++ p'.describe) fun _ _ => True :=
  alike_noteBoth fun _ _ hl => S.logs_case hl h

theorem alike_cases {ts ts' : List Tree} (hts : List.Forall₂ (Guards (S.Evaluates ev ev')) ts ts')
    (hu : Optionals (S.Evaluates ev ev') u u') (hc : S.Reaches c) :
    S.Alike (cases ev c u ts) (cases ev' c u' ts') (Option.Rel S.Values) := by
  induction hts with
  | nil =>
    unfold cases
    rw [← hu.isNull_eq]
    split
    · exact alike_pure .none
    · next hnull =>
      have hu := hu.part (Bool.eq_false_iff.mpr hnull)
      exact (alike_note rfl).bind fun _ _ _ => hu.alike c hc
  | cons hg _ ih =>
    refine (alike_ofDocument hg.condition).bind fun t t' ht => ?_
    refine (alike_operand ht hc).bind fun v v' hv => ?_
    refine (alike_holds hv).bind ?_
    rintro b _ rfl
    split
    · refine (alike_ofDocument ht.start).bind fun p p' hp => ?_
      refine (alike_noteCase hp).bind fun _ _ _ => ?_
      exact (alike_ofDocument hg.body).bind fun w w' hw => hw.alike c hc
    · exact ih

theorem alike_conditional
    (hts : Readings (List.Forall₂ (Guards (S.Evaluates ev ev'))) t.items t'.items)
    (hu : Optionals (S.Evaluates ev ev') u u') (hc : S.Reaches c) :
    S.Alike (conditional ev c t u) (conditional ev' c t' u') (Option.Rel S.Values) :=
  (alike_ofDocument hts).bind fun _ _ hts => alike_cases hts hu hc

/-- A round takes up the signals of the loop; a value that is given back passes through. -/
theorem alike_goesOn {x x' : Exec (Option Value)} (h : S.Alike x x' (Option.Rel S.Values)) :
    S.Alike (goesOn x) (goesOn x') Eq := by
  refine h.attempt rfl fun r r' hr => ?_
  cases hr with
  | ok _ => exact alike_pure rfl
  | error he =>
    cases he with
    | continueLoop => exact alike_pure rfl
    | breakLoop => exact alike_pure rfl
    | giveBack hv => exact alike_throw (.giveBack hv)
    | failure hs => exact alike_throw (.failure hs)
    | exit => exact alike_throw .exit
    | fault => exact alike_throw .fault
    | exhausted => exact alike_throw .exhausted
    | endless => exact alike_throw .endless

theorem alike_whileRounds {fuel : Nat} (ht : S.Evaluates ev ev' t t')
    (hu : S.Evaluates ev ev' u u') (hc : S.Reaches c) :
    S.Alike (whileRounds ev c t u fuel) (whileRounds ev' c t' u' fuel) fun _ _ => True := by
  induction fuel with
  | zero => exact alike_throw .endless
  | succ fuel ih =>
    refine (alike_operand ht hc).bind fun v v' hv => ?_
    refine (alike_holds hv).bind ?_
    rintro b _ rfl
    split
    · refine (alike_goesOn (hu.alike c hc)).bind ?_
      rintro again _ rfl
      split
      · exact ih
      · exact alike_pure trivial
    · exact alike_pure trivial

theorem alike_bound {word : String} (ht : S.Evaluates ev ev' t t') (hc : S.Reaches c) :
    S.Alike (bound ev c word t) (bound ev' c word t') Eq := by
  refine (alike_operand ht hc).bind fun v v' hv => ?_
  have hrefused : S.Alike (α := Float) (β := Float)
      (Exec.located t.span (failAt (.boundNotNumber word) t))
      (Exec.located t'.span (failAt (.boundNotNumber word) t')) Eq :=
    alike_located ht.span (alike_failAt ht.span)
  have hp := hv.payload
  revert hp
  generalize v.payload = p, v'.payload = p'
  intro hp
  cases hp with
  | plain =>
    cases p with
    | number x => exact alike_pure rfl
    | _ => exact hrefused
  | _ => exact hrefused

theorem alike_stepOf (hu : Optionals (S.Evaluates ev ev') u u')
    (h : Readings (Spans S.Marks) n.span n'.span) (hc : S.Reaches c) :
    S.Alike (stepOf ev c u n) (stepOf ev' c u' n') Eq := by
  unfold stepOf
  rw [← hu.isNull_eq]
  split
  · exact alike_pure rfl
  · next hnull =>
    have hu := hu.part (Bool.eq_false_iff.mpr hnull)
    refine (alike_bound hu hc).bind ?_
    rintro x _ rfl
    split
    · exact alike_located h (alike_failAt hu.span)
    · exact alike_pure rfl

theorem alike_countRounds {name : Scalar} {last step cursor : Float} {fuel : Nat}
    (hu : S.Evaluates ev ev' u u') (hc : S.Reaches c) :
    S.Alike (countRounds ev c name last step u fuel cursor)
      (countRounds ev' c name last step u' fuel cursor) fun _ _ => True := by
  induction fuel generalizing cursor with
  | zero => exact alike_throw .endless
  | succ fuel ih =>
    unfold countRounds
    split
    · refine (alike_bindName (values_new (Value.isNew_number cursor))).bind fun _ _ _ => ?_
      refine (alike_note rfl).bind fun _ _ _ => ?_
      refine (alike_goesOn (hu.alike c hc)).bind ?_
      rintro again _ rfl
      split
      · exact ih
      · exact alike_pure trivial
    · exact alike_unbindName

theorem alike_forLoop {a a' b b' w w' : Tree} (ht : t.name = t'.name)
    (ha : S.Evaluates ev ev' a a') (hb : S.Evaluates ev ev' b b')
    (hw : Optionals (S.Evaluates ev ev') w w') (hu : S.Evaluates ev ev' u u')
    (h : Readings (Spans S.Marks) n.span n'.span) (hc : S.Reaches c) :
    S.Alike (forLoop rounds ev c t a b w u n) (forLoop rounds ev' c t' a' b' w' u' n')
      (Option.Rel S.Values) := by
  refine (alike_bound ha hc).bind ?_
  rintro cursor _ rfl
  refine (alike_bound hb hc).bind ?_
  rintro last _ rfl
  refine (alike_stepOf hw h hc).bind ?_
  rintro step _ rfl
  refine (alike_nameOf ht).bind ?_
  rintro name _ rfl
  exact (alike_countRounds hu hc).bind fun _ _ _ => alike_pure .none

theorem alike_eachRounds {name : Scalar} {l : ListId} {fuel i : Nat} (hl : S.ReachesList l)
    (hu : S.Evaluates ev ev' u u') (hr : S.Rooms room room') (hc : S.Reaches c) :
    S.Alike (eachRounds room ev c name l u fuel i) (eachRounds room' ev' c name l u' fuel i)
      fun _ _ => True := by
  induction fuel generalizing i with
  | zero => exact alike_throw .endless
  | succ fuel ih =>
    refine alike_store.bind fun s s' hs => ?_
    have hslot := hs.elements hl i
    revert hslot
    generalize (s.elements l)[i]? = o, (s'.elements l)[i]? = o'
    intro hslot
    cases hslot with
    | none => exact alike_pure trivial
    | some hv =>
      refine (alike_bindName hv).bind fun _ _ _ => ?_
      refine (alike_noteValue hv hr).bind fun _ _ _ => ?_
      refine (alike_goesOn (hu.alike c hc)).bind ?_
      rintro again _ rfl
      split
      · exact ih
      · exact alike_pure trivial

theorem alike_eachLoop {w w' : Tree} (ht : t.name = t'.name) (hw : S.Evaluates ev ev' w w')
    (hu : S.Evaluates ev ev' u u') (h : Readings (Spans S.Marks) n.span n'.span)
    (hr : S.Rooms room room') (hc : S.Reaches c) :
    S.Alike (eachLoop rounds room ev c t w u n) (eachLoop rounds room' ev' c t' w' u' n')
      (Option.Rel S.Values) := by
  refine (alike_operand hw hc).bind fun v v' hv => ?_
  have hrefused : S.Alike (α := Option Value) (β := Option Value)
      (Exec.located n.span (failAt .notIterable w))
      (Exec.located n'.span (failAt .notIterable w')) (Option.Rel S.Values) :=
    alike_located h (alike_failAt hw.span)
  have hp := hv.payload
  revert hp
  generalize v.payload = p, v'.payload = p'
  intro hp
  cases hp with
  | @list l hl =>
    refine (alike_nameOf ht).bind ?_
    rintro name _ rfl
    refine alike_store.bind fun s s' hs => ?_
    rw [← (hs.elements hl).size_eq]
    refine (alike_eachRounds hl hu hr hc).bind fun _ _ _ => ?_
    exact alike_unbindName.bind fun _ _ _ => alike_pure .none
  | plain hplain =>
    cases p with
    | list l => exact hplain.elim
    | _ => exact hrefused
  | _ => exact hrefused

/-! ## Functions and calls -/

theorem alike_bindFunction {name : Json} (hv : S.Values v v') :
    S.Alike (bindFunction c name v) (bindFunction c name v') fun _ _ => True := by
  unfold bindFunction
  split
  · exact alike_pure trivial
  · exact alike_bindName hv
  · exact alike_fault

theorem alike_function {params params' e e' : Tree} (ht : functionName t = functionName t')
    (hparams : (do (← params.items).mapM Tree.value) = (do (← params'.items).mapM Tree.value))
    (hu : S.Parts u u') (he : e.truthy = e'.truthy)
    (h : Readings (Spans S.Marks) n.span n'.span) (hc : S.Reaches c) :
    S.Alike (function c t params u e n) (function c t' params' u' e' n')
      (Option.Rel S.Values) := by
  refine (alike_reading ht).bind ?_
  rintro name _ rfl
  refine (alike_reading hparams).bind ?_
  rintro params _ rfl
  refine (alike_ofDocument h).bind fun s s' hs => ?_
  dsimp only
  rw [← he]
  have hv : S.Values ⟨.function ⟨name.scalar?.getD .null,
        (parameterNames 0 params).toOption.getD [], u, e.truthy, c⟩, s⟩
      ⟨.function ⟨name.scalar?.getD .null,
        (parameterNames 0 params).toOption.getD [], u', e.truthy, c⟩, s'⟩ :=
    ⟨.function hu hc, hs⟩
  refine (alike_bindFunction hv).bind fun _ _ _ => ?_
  refine (alike_reading rfl).bind ?_
  rintro names _ rfl
  exact (alike_note rfl).bind fun _ _ _ => alike_pure (.some hv)

theorem alike_bindAll {params : List String} {args args' : List Value}
    (hargs : List.Forall₂ S.Values args args') :
    S.Alike (bindAll c params args) (bindAll c params args') fun _ _ => True := by
  apply alike_updateStore
  intro s s' hs
  induction hargs generalizing params s s' with
  | nil => cases params <;> exact hs
  | cons hv _ ih =>
    cases params with
    | nil => exact hs
    | cons name params => exact ih _ _ (hs.bind hv)

/-- The signals of a function's body end at the call. -/
theorem alike_bodyOf {e : Bool} {x x' : Exec (Option Value)}
    (h : S.Alike x x' (Option.Rel S.Values)) :
    S.Alike (do
      match ← Exec.attempt x with
      | .ok v => return if e then Value.orNull v else Value.null
      | .error (.giveBack v) => return v
      | .error .breakLoop | .error .continueLoop => return Value.null
      | .error e => throw e)
      (do
      match ← Exec.attempt x' with
      | .ok v => return if e then Value.orNull v else Value.null
      | .error (.giveBack v) => return v
      | .error .breakLoop | .error .continueLoop => return Value.null
      | .error e => throw e) S.Values := by
  refine h.attempt rfl fun r r' hr => ?_
  cases hr with
  | ok hv =>
    apply alike_pure
    split
    · exact Values.orNull hv
    · exact values_null
  | error he =>
    cases he with
    | giveBack hv => exact alike_pure hv
    | breakLoop => exact alike_pure values_null
    | continueLoop => exact alike_pure values_null
    | failure hs => exact alike_throw (.failure hs)
    | exit => exact alike_throw .exit
    | fault => exact alike_throw .fault
    | exhausted => exact alike_throw .exhausted
    | endless => exact alike_throw .endless

theorem alike_callClosure {name : Scalar} {params : List String} {body body' : Tree} {e : Bool}
    {outer : ScopeId} {place place' : Span} {args args' : List Value}
    (hbody : S.Evaluates ev ev' body body') (houter : S.Reaches outer)
    (hplace : Spans S.Marks place place') (hargs : List.Forall₂ S.Values args args') :
    S.Alike (callClosure ev ⟨name, params, body, e, outer⟩ place args)
      (callClosure ev' ⟨name, params, body', e, outer⟩ place' args') S.Values := by
  have hscope (name : String) : S.Scopes ⟨name, some outer, []⟩ ⟨name, some outer, []⟩ :=
    ⟨rfl, rfl, fun p hp => Option.some.inj hp ▸ houter, .nil⟩
  have hcall : S.Alike (do
      let inner ← Exec.newScope ⟨Closure.displayName ⟨name, params, body, e, outer⟩, some outer, []⟩
      bindAll inner params args
      match ← Exec.attempt (ev body inner) with
      | .ok v => return if e then Value.orNull v else Value.null
      | .error (.giveBack v) => return v
      | .error .breakLoop | .error .continueLoop => return Value.null
      | .error e => throw e)
      (do
      let inner ← Exec.newScope ⟨Closure.displayName ⟨name, params, body', e, outer⟩, some outer, []⟩
      bindAll inner params args'
      match ← Exec.attempt (ev' body' inner) with
      | .ok v => return if e then Value.orNull v else Value.null
      | .error (.giveBack v) => return v
      | .error .breakLoop | .error .continueLoop => return Value.null
      | .error e => throw e) S.Values := by
    refine (alike_newScope (hscope _)).bind ?_
    rintro inner _ ⟨rfl, hinner⟩
    exact (alike_bindAll hargs).bind fun _ _ _ => alike_bodyOf (hbody.alike inner hinner)
  unfold callClosure
  dsimp only
  rw [← hargs.length_eq]
  split
  · exact alike_throw_bind (.failure hplace)
  · exact hcall

def EvaluatesAll (S : Simulation) (ev ev' : Evaluator) : Prop :=
  ∀ t t', S.Parts t t' → S.Evaluates ev ev' t t'

theorem alike_callValue {args args' : List Value} (hev : S.EvaluatesAll ev ev')
    (hv : S.Values v v') (hargs : List.Forall₂ S.Values args args') (hr : S.Rooms room room') :
    S.Alike (callValue room ev v args) (callValue room' ev' v' args') S.Values := by
  have hrefused : S.Alike (α := Value) (β := Value)
      (Exec.fail (Diagnostic.onSpan (.notCallable v.kind) v.span))
      (Exec.fail (Diagnostic.onSpan (.notCallable v'.kind) v'.span)) S.Values := by
    rw [← hv.kind_eq]
    exact alike_fail hv.span
  unfold callValue
  obtain ⟨p, sp⟩ := v
  obtain ⟨p', sp'⟩ := v'
  have hp := hv.payload
  have hspan := hv.span
  cases hp with
  | function hbody houter => exact alike_callClosure (hev _ _ hbody) houter hspan hargs
  | list hl =>
    rcases hargs with _ | ⟨hi, _ | ⟨hj, _ | ⟨hk, hrest⟩⟩⟩
    · exact alike_fail hspan
    · exact alike_access hl hi .none
    · exact alike_access hl hi (.some hj)
    · exact alike_fail hspan
  | plain hplain =>
    cases p with
    | list l => exact hplain.elim
    | builtin b => exact alike_builtin hspan hargs hr
    | function f => exact hplain.elim
    | _ => exact hrefused
  | base => exact hrefused

theorem alike_call (hev : S.EvaluatesAll ev ev') (ht : S.Evaluates ev ev' t t')
    (hargs : Readings (List.Forall₂ (S.Evaluates ev ev')) u.items u'.items)
    (h : Readings (Spans S.Marks) n.span n'.span) (hr : S.Rooms room room') (hc : S.Reaches c) :
    S.Alike (call room ev c t u n) (call room' ev' c t' u' n') (Option.Rel S.Values) := by
  refine (alike_operand ht hc).bind fun v v' hv => ?_
  refine (alike_ofDocument hargs).bind fun ts ts' hts => ?_
  refine (alike_operands hts hc).bind fun vs vs' hvs => ?_
  rw [← hvs.length_eq]
  refine (alike_noteValue hv hr).bind fun _ _ _ => ?_
  exact (alike_located h (alike_callValue hev hv hvs hr)).bind fun w w' hw => alike_resultAt hw h

theorem alike_giveBack (hu : Optionals (S.Evaluates ev ev') u u')
    (h : Readings (Spans S.Marks) n.span n'.span) (hc : S.Reaches c) :
    S.Alike (giveBack ev c u n) (giveBack ev' c u' n') (Option.Rel S.Values) := by
  unfold giveBack
  rw [← hu.isNull_eq]
  cases hnull : u.isNull with
  | true =>
    simp only [if_true]
    refine (alike_ofDocument h).bind fun s s' hs => ?_
    exact alike_throw_bind (.giveBack (values_plain trivial hs))
  | false =>
    simp only [Bool.false_eq_true, if_false]
    exact (alike_operand (hu.part hnull) hc).bind fun _ _ hv => alike_throw (.giveBack hv)

/-! ## Whole nodes -/

/-- The steps on two nodes are alike if the evaluators below them treat all parts alike. -/
theorem alike_step (hev : S.EvaluatesAll ev ev') (hr : S.Rooms room room') (ht : S.Parts t t')
    (hc : S.Reaches c) :
    S.Alike (step rounds room ev t c) (step rounds room' ev' t' c) (Option.Rel S.Values) := by
  have h := S.span ht
  have hall {ts ts' : Except Fault (List Tree)} (hts : Readings (List.Forall₂ S.Parts) ts ts') :
      Readings (List.Forall₂ (S.Evaluates ev ev')) ts ts' := hts.imp fun _ _ hts => hts.imp hev
  cases S.matched ht with
  | number hvalue => exact alike_numberLiteral hvalue h
  | text hvalue => exact alike_textLiteral hvalue h
  | null => exact alike_placed (.plain trivial) h
  | list hts => exact alike_listLiteral (hall hts) h hc
  | block hts => exact alike_block (hall hts) hc
  | ternary hcondition ha hb =>
    exact alike_ternary (hev _ _ hcondition) (hev _ _ ha) (hev _ _ hb) hc
  | binary ha hop hb => exact alike_binary (hev _ _ ha) hop (hev _ _ hb) h hc
  | unary hop ha => exact alike_unary hop (hev _ _ ha) h hc
  | lookup hname => exact alike_lookup hname h hc
  | assign hname hv => exact alike_assign hname (hev _ _ hv) hr hc
  | index ha hi hj => exact alike_index (hev _ _ ha) (hev _ _ hi) (hj.imp hev) h hc
  | assignIndex hname hspan hi hv =>
    exact alike_assignIndex ht hname hspan (hev _ _ hi) (hev _ _ hv) h hr hc
  | conditional hts ho =>
    have hcases := hts.imp fun _ _ hts => hts.imp fun _ _ hg => Guards.imp hg hev
    exact alike_conditional hcases (ho.imp hev) hc
  | forLoop hname ha hb hs hbody =>
    exact alike_forLoop hname (hev _ _ ha) (hev _ _ hb) (hs.imp hev) (hev _ _ hbody) h hc
  | eachLoop hname he hbody =>
    exact alike_eachLoop hname (hev _ _ he) (hev _ _ hbody) h hr hc
  | whileLoop hcondition hbody =>
    exact (alike_whileRounds (hev _ _ hcondition) (hev _ _ hbody) hc).bind fun _ _ _ =>
      alike_pure .none
  | breakLoop => exact alike_throw .breakLoop
  | continueLoop => exact alike_throw .continueLoop
  | function hname hparams hbody he => exact alike_function hname hparams hbody he h hc
  | call hcallee hargs => exact alike_call hev (hev _ _ hcallee) (hall hargs) h hr hc
  | giveBack hv => exact alike_giveBack (hv.imp hev) h hc
  | refused f hstep hstep' =>
    rw [hstep, hstep']
    exact alike_fault

end

/-- Evaluation treats corresponding parts alike, whatever room there is and however it ends. -/
theorem evaluates (S : Simulation) (rounds : Nat) {room room' : Nat} (hr : S.Rooms room room') :
    S.EvaluatesAll (evaluate rounds room) (evaluate rounds room') := by
  induction room generalizing room' with
  | zero =>
    intro t t' ht
    refine ⟨S.span ht, S.start ht, fun c hc => ?_⟩
    rcases hr with rfl | ⟨he, _⟩
    · exact alike_throw .exhausted
    · exact fun _ _ _ => .inl ⟨he, rfl⟩
  | succ room ih =>
    obtain ⟨k, rfl, hk⟩ := hr.pred
    exact fun t t' ht => ⟨S.span ht, S.start ht, fun c hc => alike_step (ih hk) hk ht hc⟩

end Lumen.Eval.Simulation
