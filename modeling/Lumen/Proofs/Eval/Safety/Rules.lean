import Lumen.Proofs.Eval.Safety
import Lumen.Proofs.Eval.Signals

/-!
# Evaluation is safe

One lemma for each rule, about an evaluator that is safe on the parts inside. The parts of a well
made node are well made, so evaluation is safe on all of them by induction on the depth. A body of a
function is well made as long as the store is sound.
-/

namespace Lumen.Eval

open Exec (Safe safe_pure safe_throw safe_throw_bind safe_fail safe_read safe_store safe_located
  safe_update safe_note safe_text safe_noteValue safe_updateStore safe_bindName safe_unbindName
  safe_newList safe_newScope safe_condition)

variable {rounds room : Nat} {ev : Evaluator} {c : ScopeId} {m : Machine}

def IsSoundAny (s : Store) (v : Option Value) : Prop := ∀ w ∈ v, w.IsSound s

def Safely (ev : Evaluator) (t : Tree) : Prop := ∀ c m, Safe c m (ev t c) IsSoundAny

theorem isSoundAny_none {s : Store} : IsSoundAny s none := fun _ hw => nomatch hw

theorem isSoundAny_some {s : Store} {v : Value} (h : v.IsSound s) : IsSoundAny s (some v) := by
  rintro _ ⟨⟩
  exact h

/-! ## Operands and sequences -/

section

variable {t n : Tree} {ts : List Tree} {token : Token} {v : Value} {p : Payload}

theorem safe_operand (ht : Safely ev t) :
    Safe c m (operand ev t c) fun s v => v.IsSound s :=
  (ht c m).bind fun _ _ _ hv => safe_pure (Value.isSound_orNull hv)

theorem safe_operands (hts : ∀ t ∈ ts, Safely ev t) :
    Safe c m (operands ev c ts) fun s vs => ∀ v ∈ vs, v.IsSound s := by
  induction ts generalizing m with
  | nil => exact safe_pure (List.forall_mem_nil _)
  | cons t ts ih =>
    obtain ⟨ht, hts⟩ := List.forall_mem_cons.mp hts
    refine (safe_operand ht).bind fun v m₁ _ hv => ?_
    refine (ih hts).bind fun vs m₂ hl hvs => safe_pure ?_
    exact List.forall_mem_cons.mpr ⟨hv.mono hl, hvs⟩

theorem safe_sequence {last : Option Value} (hts : ∀ t ∈ ts, Safely ev t)
    (hv : IsSoundAny m.store last) : Safe c m (sequence ev c last ts) IsSoundAny := by
  induction ts generalizing m last with
  | nil => exact safe_pure hv
  | cons t ts ih =>
    obtain ⟨ht, hts⟩ := List.forall_mem_cons.mp hts
    exact (ht c m).bind fun v m₁ _ hv => ih hts hv

theorem safe_block (hts : ∀ t ∈ ts, Safely ev t) : Safe c m (block ev c (.list ts)) IsSoundAny :=
  safe_read rfl (safe_sequence hts isSoundAny_none)

/-! ## Literals and results -/

theorem safe_failAt {α : Type} {complaint : Complaint} {Q : Store → α → Prop} (ht : t.IsPlaced)
    (hne : ∀ symbol, complaint ≠ .unexpectedOperator symbol) :
    Safe c m (failAt complaint t) Q := by
  obtain ⟨sp, hspan, hsp⟩ := ht
  exact safe_read hspan (safe_fail hsp hne)

theorem safe_placed (hn : n.IsPlaced) (hp : p.IsSound m.store) :
    Safe c m (placed p n) IsSoundAny := by
  obtain ⟨sp, hspan, hsp⟩ := hn
  exact safe_read hspan (safe_pure (isSoundAny_some ⟨hp, hsp⟩))

theorem safe_numberLiteral {x : Float} (hx : token.value = .float x) (hn : n.IsPlaced) :
    Safe c m (numberLiteral (Tree.ofToken token) n) IsSoundAny := by
  refine safe_read rfl (safe_read (b := x) ?_ (safe_placed (p := .number x) hn trivial))
  rw [hx]
  rfl

theorem safe_textLiteral {s : String} (hs : token.value = .text s) (hn : n.IsPlaced) :
    Safe c m (textLiteral (Tree.ofToken token) n) IsSoundAny := by
  refine safe_read (b := .text s) ?_ (safe_placed (p := .text s) hn trivial)
  rw [Tree.ofToken, Tree.value, hs]
  rfl

theorem safe_listLiteral (hts : ∀ t ∈ ts, Safely ev t) (hn : n.IsPlaced) :
    Safe c m (listLiteral ev c (.list ts) n) IsSoundAny := by
  refine safe_read rfl ((safe_operands hts).bind fun vs m₁ _ hvs => ?_)
  refine (safe_newList fun _ v hv => hvs v (List.mem_toArray.mp hv)).bind fun v m₂ _ hv => ?_
  exact safe_placed hn hv.payload

theorem safe_resultAt (hv : v.IsSound m.store) (hn : n.IsPlaced) :
    Safe c m (resultAt v n) IsSoundAny := by
  obtain ⟨sp, hspan, hsp⟩ := hn
  refine safe_read hspan ?_
  rw [hv.isRuntime.copyTo_eq sp]
  exact safe_pure (isSoundAny_some (hv.place hsp))

/-! ## Operators and names -/

theorem safe_binary {left right : Tree} {o : Operator} (hl : Safely ev left)
    (ho : token.value = .text o.symbol) (hr : Safely ev right) (hn : n.IsPlaced) :
    Safe c m (binary ev c left (Tree.ofToken token) right n) IsSoundAny := by
  refine (safe_operand hr).bind fun b m₁ _ hb => ?_
  refine (safe_operand hl).bind fun a m₂ hl₂ ha => ?_
  refine safe_read (b := .text o.symbol) (by rw [Tree.name, Tree.ofToken, Tree.value, ho]) ?_
  have hsymbol : (Scalar.text o.symbol).text?.bind Operator.ofSymbol? = some o :=
    Operator.ofSymbol?_symbol o
  rw [hsymbol]
  refine (safe_located hn (Exec.safe_apply ha (hb.mono hl₂))).bind fun v m₃ _ hv => ?_
  exact safe_resultAt hv hn

theorem safe_signed {sign : Json} (hv : v.IsSound m.store) :
    Safe c m (signed sign v) fun s w => w.IsSound s := by
  unfold signed
  split
  · split
    · exact Exec.safe_apply hv (Value.isSound_number _)
    · split
      · rw [Value.negation, hv.isRuntime.truth_eq]
        exact safe_pure (Value.isSound_number _)
      · exact safe_pure hv
  · exact safe_pure hv

theorem safe_unary (ht : Safely ev t) (hn : n.IsPlaced) :
    Safe c m (unary ev c (Tree.ofToken token) t n) IsSoundAny := by
  refine (safe_operand ht).bind fun a m₁ _ ha => safe_read rfl ?_
  exact (safe_located hn (safe_signed ha)).bind fun v m₂ _ hv => safe_resultAt hv hn

theorem safe_ternary {condition left right : Tree} (hc : Safely ev condition)
    (hl : Safely ev left) (hr : Safely ev right) :
    Safe c m (ternary ev c condition left right) IsSoundAny := by
  refine (safe_operand hc).bind fun v m₁ _ hv => safe_condition hv ?_
  split
  · exact hl c m₁
  · exact hr c m₁

theorem safe_lookup (hn : n.IsPlaced) :
    Safe c m (lookup c (Tree.ofToken token) n) IsSoundAny := by
  refine safe_read rfl (safe_store (Safe.of_ready fun h => ?_))
  split
  · exact safe_placed (p := .null) hn trivial
  · next v hv => exact safe_resultAt (h.sound.lookup hv) hn

theorem safe_assign (ht : Safely ev t) :
    Safe c m (assign room ev c (Tree.ofToken token) t) IsSoundAny := by
  refine (safe_operand ht).bind fun v m₁ _ hv => safe_read rfl ?_
  refine (safe_bindName hv).bind fun _ m₂ hl₂ _ => ?_
  refine (safe_noteValue (hv.mono hl₂)).bind fun _ m₃ hl₃ _ => ?_
  exact safe_pure (isSoundAny_some (hv.mono (hl₂.trans hl₃)))

/-! ## Elements -/

theorem safe_indexOperand (complaint : Complaint) (ht : Safely ev t) (hplaced : t.IsPlaced)
    (hne : ∀ symbol, complaint ≠ .unexpectedOperator symbol) (hn : n.IsPlaced) :
    Safe c m (indexOperand ev c complaint t n) fun s v => v.IsSound s := by
  refine (safe_operand ht).bind fun v m₁ _ hv => ?_
  split
  · exact safe_pure hv
  · exact safe_located hn (safe_failAt hplaced hne)

theorem safe_upToOperand {upTo : Tree} (hu : upTo.isNull = false → Safely ev upTo ∧ upTo.IsPlaced)
    (hn : n.IsPlaced) : Safe c m (upToOperand ev c upTo n) IsSoundAny := by
  unfold upToOperand
  split
  · exact safe_pure isSoundAny_none
  · next hnull =>
    obtain ⟨hu, hplaced⟩ := hu (Bool.eq_false_iff.mpr hnull)
    refine (safe_indexOperand .upToNotNumber hu hplaced nofun hn).bind fun v m₁ _ hv => ?_
    exact safe_pure (isSoundAny_some hv)

theorem safe_index {i upTo : Tree} (ht : Safely ev t) (hi : Safely ev i) (hplaced : i.IsPlaced)
    (hu : upTo.isNull = false → Safely ev upTo ∧ upTo.IsPlaced) (hn : n.IsPlaced) :
    Safe c m (index ev c t i upTo n) IsSoundAny := by
  refine (safe_operand ht).bind fun v m₁ _ hv => ?_
  refine (safe_indexOperand .indexNotNumber hi hplaced nofun hn).bind fun k m₂ hl₂ hk => ?_
  refine (safe_upToOperand hu hn).bind fun j m₃ hl₃ hj => ?_
  split
  · refine (safe_located hn (Exec.safe_access (hk.mono hl₃) hj)).bind fun w m₄ _ hw => ?_
    exact safe_pure (isSoundAny_some hw)
  · exact safe_located hn (safe_fail hv.span nofun)

theorem safe_assignIndex {i : Tree} (hi : Safely ev i) (hplaced : i.IsPlaced) (ht : Safely ev t)
    (hn : n.IsPlaced) :
    Safe c m (assignIndex room ev c (Tree.ofToken token) i t n) IsSoundAny := by
  refine safe_read rfl (safe_store ?_)
  split
  · refine (safe_operand hi).bind fun k m₁ _ hk => ?_
    refine (safe_operand ht).bind fun v m₂ hl₂ hv => ?_
    have hk₂ := hk.mono hl₂
    split
    · refine Safe.bind (P := fun _ _ => False) (safe_located hn (safe_failAt hplaced nofun)) ?_
      exact fun _ _ _ hfalse => hfalse.elim
    · refine (safe_located hn (Exec.safe_assignElement hk₂ hv)).bind fun _ m₃ hl₃ _ => ?_
      refine (safe_text (hk₂.mono hl₃)).bind fun slot m₄ hl₄ _ => ?_
      have hv₄ := hv.mono (hl₃.trans hl₄)
      refine (safe_noteValue hv₄).bind fun _ m₅ hl₅ _ => ?_
      exact safe_pure (isSoundAny_some (hv₄.mono hl₅))
  · exact safe_located hn (safe_failAt (Tree.isPlaced_ofToken token) nofun)

/-! ## Conditionals and loops -/

theorem safe_cases {otherwise : Tree} {cases : List (Node × Node)}
    (hcases : ∀ g ∈ cases, Safely ev (Tree.ofNode g.1) ∧ Safely ev (Tree.ofNode g.2))
    (ho : otherwise.isNull = false → Safely ev otherwise ∧ otherwise.IsPlaced) :
    Safe c m (Eval.cases ev c otherwise (Tree.ofCases cases)) IsSoundAny := by
  induction cases generalizing m with
  | nil =>
    rw [Tree.ofCases]
    unfold Eval.cases
    split
    · exact safe_pure isSoundAny_none
    · next hnull =>
      exact safe_note.bind fun _ m₁ _ _ => (ho (Bool.eq_false_iff.mpr hnull)).1 c m₁
  | cons g cases ih =>
    obtain ⟨⟨hcondition, hbody⟩, hcases⟩ := List.forall_mem_cons.mp hcases
    rw [Tree.ofCases]
    refine safe_read rfl ((safe_operand hcondition).bind fun v m₁ _ hv => safe_condition hv ?_)
    split
    · refine safe_read (Tree.start_ofNode _) (safe_note.bind fun _ m₂ _ _ => safe_read rfl ?_)
      exact hbody c m₂
    · exact ih hcases

/-- A round takes up the signals of the loop; a value that is given back passes through. -/
theorem safe_goesOn (ht : Safely ev t) : Safe c m (goesOn (ev t c)) fun _ _ => True := by
  unfold goesOn
  refine Safe.attempt (fun h => h.scope) (ht c m) (fun _ m₁ _ _ => safe_pure trivial)
    fun e m₁ _ he => ?_
  cases he with
  | breakLoop => exact safe_pure trivial
  | continueLoop => exact safe_pure trivial
  | giveBack hv => exact safe_throw (.giveBack hv)
  | failure hd => exact safe_throw (.failure hd)
  | _ => exact safe_throw (by constructor)

theorem safe_whileRounds {condition body : Tree} {fuel : Nat} (hc : Safely ev condition)
    (hb : Safely ev body) : Safe c m (whileRounds ev c condition body fuel) fun _ _ => True := by
  induction fuel generalizing m with
  | zero => exact safe_throw .endless
  | succ fuel ih =>
    refine (safe_operand hc).bind fun v m₁ _ hv => safe_condition hv ?_
    split
    · refine (safe_goesOn hb).bind fun again m₂ _ _ => ?_
      split
      · exact ih
      · exact safe_pure trivial
    · exact safe_pure trivial

theorem safe_bound (word : String) (ht : Safely ev t) (hplaced : t.IsPlaced) :
    Safe c m (bound ev c word t) fun _ _ => True := by
  refine (safe_operand ht).bind fun v m₁ _ _ => ?_
  split
  · exact safe_pure trivial
  · exact safe_located hplaced (safe_failAt hplaced nofun)

theorem safe_stepOf {step : Tree} (hs : step.isNull = false → Safely ev step ∧ step.IsPlaced)
    (hn : n.IsPlaced) : Safe c m (stepOf ev c step n) fun _ _ => True := by
  unfold stepOf
  split
  · exact safe_pure trivial
  · next hnull =>
    obtain ⟨hs, hplaced⟩ := hs (Bool.eq_false_iff.mpr hnull)
    refine (safe_bound "by" hs hplaced).bind fun x m₁ _ _ => ?_
    split
    · exact safe_located hn (safe_failAt hplaced nofun)
    · exact safe_pure trivial

theorem safe_countRounds {name : Scalar} {last step cursor : Float} {body : Tree} {fuel : Nat}
    (hb : Safely ev body) :
    Safe c m (countRounds ev c name last step body fuel cursor) fun _ _ => True := by
  induction fuel generalizing m cursor with
  | zero => exact safe_throw .endless
  | succ fuel ih =>
    unfold countRounds
    split
    · refine (safe_bindName (Value.isSound_number cursor)).bind fun _ m₁ _ _ => ?_
      refine safe_note.bind fun _ m₂ _ _ => (safe_goesOn hb).bind fun again m₃ _ _ => ?_
      split
      · exact ih
      · exact safe_pure trivial
    · exact safe_unbindName

theorem safe_forLoop {first last step body : Tree} (hf : Safely ev first)
    (hfirst : first.IsPlaced) (hl : Safely ev last) (hlast : last.IsPlaced)
    (hs : step.isNull = false → Safely ev step ∧ step.IsPlaced) (hb : Safely ev body)
    (hn : n.IsPlaced) :
    Safe c m (forLoop rounds ev c (Tree.ofToken token) first last step body n) IsSoundAny := by
  refine (safe_bound "=" hf hfirst).bind fun cursor m₁ _ _ => ?_
  refine (safe_bound ":" hl hlast).bind fun last m₂ _ _ => ?_
  refine (safe_stepOf hs hn).bind fun step m₃ _ _ => safe_read rfl ?_
  exact (safe_countRounds hb).bind fun _ m₄ _ _ => safe_pure isSoundAny_none

theorem safe_eachRounds {name : Scalar} {l : ListId} {body : Tree} {fuel i : Nat}
    (hb : Safely ev body) :
    Safe c m (eachRounds room ev c name l body fuel i) fun _ _ => True := by
  induction fuel generalizing m i with
  | zero => exact safe_throw .endless
  | succ fuel ih =>
    refine safe_store (Safe.of_ready fun h => ?_)
    split
    · exact safe_pure trivial
    · next v hv =>
      have hv := h.sound.elements (Array.mem_of_getElem? hv)
      refine (safe_bindName hv).bind fun _ m₁ hl₁ _ => ?_
      refine (safe_noteValue (hv.mono hl₁)).bind fun _ m₂ _ _ => ?_
      refine (safe_goesOn hb).bind fun again m₃ _ _ => ?_
      split
      · exact ih
      · exact safe_pure trivial

theorem safe_eachLoop {iterable body : Tree} (hi : Safely ev iterable)
    (hplaced : iterable.IsPlaced) (hb : Safely ev body) (hn : n.IsPlaced) :
    Safe c m (eachLoop rounds room ev c (Tree.ofToken token) iterable body n) IsSoundAny := by
  refine (safe_operand hi).bind fun v m₁ _ _ => ?_
  split
  · refine safe_read rfl (safe_store ((safe_eachRounds hb).bind fun _ m₂ _ _ => ?_))
    exact safe_unbindName.bind fun _ m₃ _ _ => safe_pure isSoundAny_none
  · exact safe_located hn (safe_failAt hplaced nofun)

end

/-! ## Functions and calls -/

section

variable {n : Tree} {name : Option Token} {params : List Token} {v : Value} {args : List Value}
  {f : Closure}

/-- A name of a program is a scalar. -/
theorem functionName_eq (name : Option Token) :
    ∃ s, functionName ((name.map Tree.ofToken).getD (.scalar .null)) = .ok (.scalar s) := by
  cases name with
  | none => exact ⟨.null, rfl⟩
  | some t => exact ⟨t.value, rfl⟩

theorem mapM_value (params : List Token) :
    (params.map Tree.ofToken).mapM Tree.value = .ok (params.map fun t => .scalar t.value) := by
  induction params with
  | nil => rfl
  | cons t params ih =>
    rw [List.map_cons, List.mapM_cons, ih]
    rfl

theorem exists_parameterNames (h : ∀ t ∈ params, ∃ s, t.value = .text s) (i : Nat) :
    ∃ names, parameterNames i (params.map fun t => .scalar t.value) = .ok names := by
  induction params generalizing i with
  | nil => exact ⟨[], rfl⟩
  | cons t params ih =>
    obtain ⟨⟨s, hs⟩, h⟩ := List.forall_mem_cons.mp h
    obtain ⟨names, hnames⟩ := ih h (i + 1)
    refine ⟨s :: names, ?_⟩
    rw [List.map_cons, hs, parameterNames, hnames]
    rfl

theorem safe_bindFunction {s : Scalar} (hv : v.IsSound m.store) :
    Safe c m (bindFunction c (.scalar s) v) fun _ _ => True := by
  cases s with
  | null => exact safe_pure trivial
  | _ => exact safe_bindName hv

theorem safe_function {e : Node} {isExpression : Tree}
    (hparams : ∀ t ∈ params, ∃ s, t.value = .text s) (he : e.WellMade) (hn : n.IsPlaced) :
    Safe c m (function c ((name.map Tree.ofToken).getD (.scalar .null))
      (.list (params.map Tree.ofToken)) (Tree.ofNode e) isExpression n) IsSoundAny := by
  obtain ⟨s, hname⟩ := functionName_eq name
  obtain ⟨names, hnames⟩ := exists_parameterNames hparams 0
  obtain ⟨sp, hspan, hsp⟩ := hn
  refine safe_read hname (safe_read (mapM_value params) (safe_read hspan ?_))
  rw [hnames]
  refine Safe.of_ready fun h => ?_
  have hv : Value.IsSound ⟨.function ⟨s, names, Tree.ofNode e, isExpression.truthy, c⟩, sp⟩ m.store :=
    ⟨⟨h.scope, e, he, rfl⟩, hsp⟩
  refine (safe_bindFunction hv).bind fun _ m₁ hl₁ _ => safe_read rfl ?_
  refine safe_note.bind fun _ m₂ hl₂ _ => ?_
  exact safe_pure (isSoundAny_some (hv.mono (hl₁.trans hl₂)))

/-- Binding parameters is binding names one after another. -/
theorem safe_bindAll {params : List String} (hargs : ∀ v ∈ args, v.IsSound m.store) {d : ScopeId} :
    Safe c m (bindAll d params args) fun _ _ => True := by
  have hfold (entries : List (String × Value)) (s : Store) (hs : s.IsSound)
      (hentries : ∀ entry ∈ entries, entry.2.IsSound s) :
      s.Extends (entries.foldl (fun s entry => s.bind d (.text entry.1) entry.2) s) ∧
        (entries.foldl (fun s entry => s.bind d (.text entry.1) entry.2) s).IsSound := by
    induction entries generalizing s with
    | nil => exact ⟨.refl s, hs⟩
    | cons entry entries ih =>
      obtain ⟨hv, hentries⟩ := List.forall_mem_cons.mp hentries
      have hl := s.extends_updateTable d (·.set (.text entry.1) entry.2)
      obtain ⟨hl', hs'⟩ := ih (s.bind d (.text entry.1) entry.2) (hs.bind d _ hv)
        fun entry hmem => (hentries entry hmem).mono hl
      exact ⟨hl.trans hl', hs'⟩
  refine safe_updateStore fun h => hfold (params.zip args) m.store h.sound fun entry hmem => ?_
  exact hargs _ (List.of_mem_zip hmem).2

/-- The signals of a function's body end at the call. -/
theorem safe_callClosure {place : Span} (hev : ∀ e : Node, e.WellMade → Safely ev (Tree.ofNode e))
    (hplace : place.IsKnown) (hf : (Payload.function f).IsSound m.store)
    (hargs : ∀ v ∈ args, v.IsSound m.store) :
    Safe c m (callClosure ev f place args) fun s v => v.IsSound s := by
  obtain ⟨hscope, e, he, hbody⟩ := hf
  unfold callClosure
  by_cases hlength : args.length ≠ f.params.length
  · simp only [if_pos hlength]
    exact safe_throw_bind (.failure ⟨hplace, nofun⟩)
  · simp only [if_neg hlength]
    refine (safe_newScope hscope).bind fun inner m₁ hl₁ hinner => ?_
    refine (safe_bindAll fun v hv => (hargs v hv).mono hl₁).bind fun _ m₂ hl₂ _ => ?_
    rw [hbody]
    -- The body runs in the new scope, which is in the store by now; the caller's scope is back after.
    refine Safe.attempt (fun _ => Nat.lt_of_lt_of_le hinner hl₂.size_scopes) (hev e he inner m₂)
      (fun v m₃ _ hv => safe_pure ?_) fun e m₃ _ he => ?_
    · split
      · exact Value.isSound_orNull hv
      · exact Value.isSound_null
    · cases he with
      | giveBack hv => exact safe_pure hv
      | breakLoop => exact safe_pure Value.isSound_null
      | continueLoop => exact safe_pure Value.isSound_null
      | failure hd => exact safe_throw (.failure hd)
      | _ => exact safe_throw (by constructor)

theorem safe_callValue (hev : ∀ e : Node, e.WellMade → Safely ev (Tree.ofNode e))
    (hv : v.IsSound m.store) (hargs : ∀ v ∈ args, v.IsSound m.store) :
    Safe c m (callValue room ev v args) fun s v => v.IsSound s := by
  obtain ⟨p, sp⟩ := v
  cases p with
  | builtin b => exact Builtin.safe_call hv.span hargs
  | function f => exact safe_callClosure hev hv.span hv.payload hargs
  | list l =>
    unfold callValue
    dsimp only
    split
    · exact Exec.safe_access (hargs _ List.mem_cons_self) isSoundAny_none
    · obtain ⟨hi, hargs⟩ := List.forall_mem_cons.mp hargs
      exact Exec.safe_access hi (isSoundAny_some (hargs _ List.mem_cons_self))
    · exact safe_fail hv.span nofun
  | _ => exact safe_fail hv.span nofun

theorem safe_call {callee : Tree} {ts : List Tree}
    (hev : ∀ e : Node, e.WellMade → Safely ev (Tree.ofNode e)) (hc : Safely ev callee)
    (hts : ∀ t ∈ ts, Safely ev t) (hn : n.IsPlaced) :
    Safe c m (call room ev c callee (.list ts) n) IsSoundAny := by
  refine (safe_operand hc).bind fun v m₁ _ hv => safe_read rfl ?_
  refine (safe_operands hts).bind fun vs m₂ hl₂ hvs => ?_
  have hv₂ := hv.mono hl₂
  refine (safe_noteValue hv₂).bind fun _ m₃ hl₃ _ => ?_
  have hcall : Safe c m₃ (callValue room ev v vs) fun s v => v.IsSound s :=
    safe_callValue hev (hv₂.mono hl₃) fun w hw => (hvs w hw).mono hl₃
  exact (safe_located hn hcall).bind fun w m₄ _ hw => safe_resultAt hw hn

theorem safe_giveBack {value : Tree} (hv : value.isNull = false → Safely ev value)
    (hn : n.IsPlaced) : Safe c m (giveBack ev c value n) IsSoundAny := by
  unfold giveBack
  cases hnull : value.isNull with
  | true =>
    obtain ⟨sp, hspan, hsp⟩ := hn
    exact safe_read hspan (safe_throw_bind (.giveBack (Value.isSound_null.place hsp)))
  | false =>
    exact (safe_operand (hv hnull)).bind fun v m₁ _ hv => safe_throw (.giveBack hv)

end

/-! ## Whole nodes -/

section

variable {es : List Node} {o : Option Node}

theorem safely_ofNodes (h : ∀ e ∈ es, Safely ev (Tree.ofNode e)) :
    ∀ t ∈ Tree.ofNodes es, Safely ev t := by
  intro t ht
  obtain ⟨e, he, rfl⟩ := Tree.mem_ofNodes ht
  exact h e he

theorem safely_ofOption (h : ∀ e ∈ o, Safely ev (Tree.ofNode e)) :
    (Tree.ofOption o).isNull = false → Safely ev (Tree.ofOption o) ∧ (Tree.ofOption o).IsPlaced := by
  intro hnull
  obtain ⟨e, rfl, he⟩ := Tree.eq_some_of_ofOption hnull
  rw [he]
  exact ⟨h e rfl, Tree.isPlaced_ofNode e⟩

/-- The step on a well made node is safe if the evaluator below it is. -/
theorem safely_step (hev : ∀ e : Node, e.WellMade → Safely ev (Tree.ofNode e)) {e : Node}
    (he : e.WellMade) : Safely (step rounds room ev) (Tree.ofNode e) := by
  have hn := Tree.isPlaced_ofNode e
  have hplaced := Tree.isPlaced_ofNode
  intro c m
  cases he with
  | number hx => exact safe_numberLiteral hx hn
  | text hs => exact safe_textLiteral hs hn
  | null => exact safe_placed (p := .null) hn trivial
  | list hes => exact safe_listLiteral (safely_ofNodes fun e he => hev e (hes e he)) hn
  | block hss => exact safe_block (safely_ofNodes fun e he => hev e (hss e he))
  | ternary hc ha hb => exact safe_ternary (hev _ hc) (hev _ ha) (hev _ hb)
  | binary o ha ho hb => exact safe_binary (hev _ ha) ho (hev _ hb) hn
  | unary he => exact safe_unary (hev _ he) hn
  | lookup => exact safe_lookup hn
  | assign he => exact safe_assign (hev _ he)
  | index he hi hj =>
    exact safe_index (hev _ he) (hev _ hi) (hplaced _) (safely_ofOption fun e he => hev e (hj e he)) hn
  | assignIndex hi he => exact safe_assignIndex (hev _ hi) (hplaced _) (hev _ he) hn
  | conditional hconditions hbodies hotherwise =>
    exact safe_read rfl (safe_cases
      (fun g hg => ⟨hev _ (hconditions g hg), hev _ (hbodies g hg)⟩)
      (safely_ofOption fun e he => hev e (hotherwise e he)))
  | forLoop ha hb hstep hbody =>
    exact safe_forLoop (hev _ ha) (hplaced _) (hev _ hb) (hplaced _)
      (safely_ofOption fun e he => hev e (hstep e he)) (hev _ hbody) hn
  | eachLoop he hbody => exact safe_eachLoop (hev _ he) (hplaced _) (hev _ hbody) hn
  | whileLoop hc hbody =>
    exact (safe_whileRounds (hev _ hc) (hev _ hbody)).bind fun _ m₁ _ _ => safe_pure isSoundAny_none
  | breakLoop => exact safe_throw .breakLoop
  | continueLoop => exact safe_throw .continueLoop
  | function hparams hbody => exact safe_function hparams hbody hn
  | call he hargs =>
    exact safe_call hev (hev _ he) (safely_ofNodes fun e he => hev e (hargs e he)) hn
  | giveBack hvalue =>
    exact safe_giveBack (fun hnull => (safely_ofOption (fun e he => hev e (hvalue e he)) hnull).1) hn

/-- The evaluation of well made nodes is safe, whatever room there is. -/
theorem safely_evaluate (rounds room : Nat) :
    ∀ e : Node, e.WellMade → Safely (evaluate rounds room) (Tree.ofNode e) := by
  induction room with
  | zero => exact fun e _ c m => safe_throw .exhausted
  | succ room ih => exact fun e he => safely_step ih he

end

end Lumen.Eval
