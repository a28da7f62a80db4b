import Lumen.Proofs.Eval.Origin.Operations
import Lumen.Proofs.Eval.Signals

/-!
# Evaluation stays in the nodes of programs

One lemma for each rule, about an evaluator that stays in `K` on the parts inside. What a rule
leaves without a place, the node that it is about places, and a body of a function comes from `K` as
long as the values of the store do. So evaluation stays in `K` on every node in `K`, by induction on
the depth.
-/

namespace Lumen.Eval

open Exec (StaysIn staysIn_pure staysIn_throw staysIn_throw_bind staysIn_fail staysIn_ofExcept
  staysIn_read staysIn_store staysIn_note staysIn_noteValue staysIn_text staysIn_updateStore
  staysIn_bindName staysIn_unbindName staysIn_newList staysIn_newScope staysIn_holds staysIn_located)
open Diagnostic (PointsInto MayPointInto pointsInto_onSpan mayPointInto_onSpan)

variable {K : Position → Position → Prop} {rounds room : Nat} {ev : Evaluator} {c : ScopeId}

def IsFromAny (K : Position → Position → Prop) (v : Option Value) : Prop := ∀ w ∈ v, w.IsFrom K

def Stays (K : Position → Position → Prop) (ev : Evaluator) (t : Tree) : Prop :=
  ∀ c, StaysIn K (PointsInto K) (ev t c) (IsFromAny K)

theorem isFromAny_none : IsFromAny K none := fun _ hw => nomatch hw

theorem isFromAny_some {v : Value} (h : v.IsFrom K) : IsFromAny K (some v) := by
  rintro _ ⟨⟩
  exact h

/-! ## Operands and sequences -/

section

variable {t n : Tree} {ts : List Tree} {v : Value} {p : Payload}

theorem staysIn_operand (ht : Stays K ev t) :
    StaysIn K (PointsInto K) (operand ev t c) (Value.IsFrom K) :=
  (ht c).bind fun _ hv => staysIn_pure (Value.isFrom_orNull hv)

theorem staysIn_operands (hts : ∀ t ∈ ts, Stays K ev t) :
    StaysIn K (PointsInto K) (operands ev c ts) fun vs => ∀ v ∈ vs, v.IsFrom K := by
  induction ts with
  | nil => exact staysIn_pure (List.forall_mem_nil _)
  | cons t ts ih =>
    obtain ⟨ht, hts⟩ := List.forall_mem_cons.mp hts
    refine (staysIn_operand ht).bind fun v hv => (ih hts).bind fun vs hvs => staysIn_pure ?_
    exact List.forall_mem_cons.mpr ⟨hv, hvs⟩

theorem staysIn_sequence {last : Option Value} (hts : ∀ t ∈ ts, Stays K ev t)
    (hv : IsFromAny K last) : StaysIn K (PointsInto K) (sequence ev c last ts) (IsFromAny K) := by
  induction ts generalizing last with
  | nil => exact staysIn_pure hv
  | cons t ts ih =>
    obtain ⟨ht, hts⟩ := List.forall_mem_cons.mp hts
    exact (ht c).bind fun v hv => ih hts hv

theorem staysIn_block (hts : ∀ t ∈ ts, Stays K ev t) :
    StaysIn K (PointsInto K) (block ev c (.list ts)) (IsFromAny K) := by
  refine staysIn_read ?_
  rintro _ ⟨⟩
  exact staysIn_sequence hts isFromAny_none

/-! ## Literals and results -/

theorem staysIn_failAt {α : Type} {Q : α → Prop} {complaint : Complaint} (ht : t.LiesIn K) :
    StaysIn K (PointsInto K) (failAt complaint t) Q :=
  staysIn_read fun s hs => staysIn_fail (pointsInto_onSpan (ht s hs))

/-- What fails at a part has a place, so that the node has none to give. -/
theorem staysIn_locatedAt {α : Type} {Q : α → Prop} {complaint : Complaint} (hn : n.LiesIn K)
    (ht : t.LiesIn K) :
    StaysIn K (PointsInto K) (Exec.located n.span (failAt complaint t)) Q :=
  staysIn_located hn ((staysIn_failAt ht).weaken fun _ => .inr)

theorem staysIn_placed (hn : n.LiesIn K) (hp : p.IsPlain) :
    StaysIn K (PointsInto K) (placed p n) (IsFromAny K) :=
  staysIn_read fun s hs => staysIn_pure (isFromAny_some (Value.isFrom_plain hp (hn s hs)))

theorem staysIn_numberLiteral (hn : n.LiesIn K) :
    StaysIn K (PointsInto K) (numberLiteral t n) (IsFromAny K) :=
  staysIn_read fun _ _ => staysIn_read fun x _ => staysIn_placed (p := .number x) hn trivial

theorem staysIn_textLiteral (hn : n.LiesIn K) :
    StaysIn K (PointsInto K) (textLiteral t n) (IsFromAny K) := by
  refine staysIn_read fun j _ => ?_
  split
  · exact staysIn_placed hn trivial
  · exact staysIn_placed hn trivial

theorem staysIn_resultAt (hv : v.IsFrom K) (hn : n.LiesIn K) :
    StaysIn K (PointsInto K) (resultAt v n) (IsFromAny K) := by
  refine staysIn_read fun s hs => ?_
  unfold Value.copyTo
  split
  · exact staysIn_throw_bind trivial
  · exact staysIn_pure (isFromAny_some (hv.place (hn s hs)))

theorem staysIn_listLiteral (hts : ∀ t ∈ ts, Stays K ev t) (hn : n.LiesIn K) :
    StaysIn K (PointsInto K) (listLiteral ev c (.list ts) n) (IsFromAny K) := by
  refine staysIn_read ?_
  rintro _ ⟨⟩
  refine (staysIn_operands hts).bind fun vs hvs => ?_
  refine (staysIn_newList fun v hv => hvs v (List.mem_toArray.mp hv)).bind fun v hv => ?_
  exact staysIn_read fun s hs => staysIn_pure (isFromAny_some (hv.place (hn s hs)))

/-! ## Operators and names -/

theorem staysIn_binary {left op right : Tree} (hl : Stays K ev left) (hr : Stays K ev right)
    (hn : n.LiesIn K) : StaysIn K (PointsInto K) (binary ev c left op right n) (IsFromAny K) := by
  refine (staysIn_operand hr).bind fun b hb => (staysIn_operand hl).bind fun a ha => ?_
  refine staysIn_read fun symbol _ => ?_
  split
  · exact staysIn_failAt hn
  · refine (staysIn_located hn (Exec.staysIn_apply ha hb)).bind fun v hv => ?_
    exact staysIn_resultAt hv hn

theorem staysIn_signed {sign : Json} (hv : v.IsFrom K) :
    StaysIn K (MayPointInto K) (signed sign v) (Value.IsFrom K) := by
  unfold signed
  split
  · split
    · exact Exec.staysIn_apply hv (Value.isFrom_number _)
    · split
      · refine staysIn_ofExcept (fun w hw => ?_) fun e he => ?_
        · cases hnegation : v.negation with
          | ok u =>
            rw [hnegation] at hw
            cases hw
            exact Value.isFrom_new (Value.isNew_of_negation hnegation)
          | error f => rw [hnegation] at hw; cases hw
        · cases hnegation : v.negation with
          | ok u => rw [hnegation] at he; cases he
          | error f => rw [hnegation] at he; cases he; trivial
      · exact staysIn_pure hv
  · exact staysIn_pure hv

theorem staysIn_unary {op : Tree} (ht : Stays K ev t) (hn : n.LiesIn K) :
    StaysIn K (PointsInto K) (unary ev c op t n) (IsFromAny K) := by
  refine (staysIn_operand ht).bind fun a ha => staysIn_read fun sign _ => ?_
  exact (staysIn_located hn (staysIn_signed ha)).bind fun v hv => staysIn_resultAt hv hn

theorem staysIn_ternary {condition left right : Tree} (hc : Stays K ev condition)
    (hl : Stays K ev left) (hr : Stays K ev right) :
    StaysIn K (PointsInto K) (ternary ev c condition left right) (IsFromAny K) := by
  refine (staysIn_operand hc).bind fun v _ => staysIn_holds fun b => ?_
  split
  · exact hl c
  · exact hr c

theorem staysIn_lookup (hn : n.LiesIn K) :
    StaysIn K (PointsInto K) (lookup c t n) (IsFromAny K) := by
  refine staysIn_read fun name _ => staysIn_store fun s hs => ?_
  split
  · exact staysIn_placed hn trivial
  · next v hv => exact staysIn_resultAt (hs.lookup hv) hn

theorem staysIn_assign {value : Tree} (ht : Stays K ev value) :
    StaysIn K (PointsInto K) (assign room ev c t value) (IsFromAny K) := by
  refine (staysIn_operand ht).bind fun v hv => staysIn_read fun name _ => ?_
  refine (staysIn_bindName hv).bind fun _ _ => staysIn_noteValue.bind fun _ _ => ?_
  exact staysIn_pure (isFromAny_some hv)

/-! ## Elements -/

theorem staysIn_indexOperand {complaint : Complaint} (ht : Stays K ev t) (hplace : t.LiesIn K)
    (hn : n.LiesIn K) :
    StaysIn K (PointsInto K) (indexOperand ev c complaint t n) (Value.IsFrom K) := by
  refine (staysIn_operand ht).bind fun v hv => ?_
  split
  · exact staysIn_pure hv
  · exact staysIn_locatedAt hn hplace

theorem staysIn_upToOperand {upTo : Tree}
    (hu : upTo.isNull = false → Stays K ev upTo ∧ upTo.LiesIn K) (hn : n.LiesIn K) :
    StaysIn K (PointsInto K) (upToOperand ev c upTo n) (IsFromAny K) := by
  unfold upToOperand
  split
  · exact staysIn_pure isFromAny_none
  · next hnull =>
    obtain ⟨hu, hplace⟩ := hu (Bool.eq_false_iff.mpr hnull)
    exact (staysIn_indexOperand hu hplace hn).bind fun v hv => staysIn_pure (isFromAny_some hv)

theorem staysIn_index {i upTo : Tree} (ht : Stays K ev t) (hi : Stays K ev i)
    (hplace : i.LiesIn K) (hu : upTo.isNull = false → Stays K ev upTo ∧ upTo.LiesIn K)
    (hn : n.LiesIn K) : StaysIn K (PointsInto K) (index ev c t i upTo n) (IsFromAny K) := by
  refine (staysIn_operand ht).bind fun v hv => ?_
  refine (staysIn_indexOperand hi hplace hn).bind fun i hi => ?_
  refine (staysIn_upToOperand hu hn).bind fun j hj => ?_
  split
  · refine (staysIn_located hn (Exec.staysIn_access hi hj)).bind fun w hw => ?_
    exact staysIn_pure (isFromAny_some hw)
  · exact staysIn_located hn (staysIn_fail (mayPointInto_onSpan hv.span))

theorem staysIn_assignIndex {i value : Tree} (ht : t.LiesIn K) (hi : Stays K ev i)
    (hplace : i.LiesIn K) (hv : Stays K ev value) (hn : n.LiesIn K) :
    StaysIn K (PointsInto K) (assignIndex room ev c t i value n) (IsFromAny K) := by
  refine staysIn_read fun name _ => staysIn_store fun s hs => ?_
  split
  · refine (staysIn_operand hi).bind fun index hindex => (staysIn_operand hv).bind fun v hv => ?_
    split
    · refine StaysIn.bind (P := fun _ => False) (staysIn_locatedAt hn hplace) ?_
      exact fun _ hfalse => hfalse.elim
    · refine (staysIn_located hn (Exec.staysIn_assign hindex hv)).bind fun _ _ => ?_
      refine staysIn_text.bind fun slot _ => staysIn_noteValue.bind fun _ _ => ?_
      exact staysIn_pure (isFromAny_some hv)
  · exact staysIn_locatedAt hn ht

/-! ## Conditionals and loops -/

theorem staysIn_cases {otherwise : Tree} {cases : List (Node × Node)}
    (hcases : ∀ g ∈ cases, Stays K ev (Tree.ofNode g.1) ∧ Stays K ev (Tree.ofNode g.2))
    (ho : otherwise.isNull = false → Stays K ev otherwise) :
    StaysIn K (PointsInto K) (Eval.cases ev c otherwise (Tree.ofCases cases)) (IsFromAny K) := by
  induction cases with
  | nil =>
    rw [Tree.ofCases]
    unfold Eval.cases
    split
    · exact staysIn_pure isFromAny_none
    · next hnull => exact staysIn_note.bind fun _ _ => ho (Bool.eq_false_iff.mpr hnull) c
  | cons g cases ih =>
    obtain ⟨⟨hcondition, hbody⟩, hcases⟩ := List.forall_mem_cons.mp hcases
    rw [Tree.ofCases]
    refine staysIn_read ?_
    rintro _ ⟨⟩
    refine (staysIn_operand hcondition).bind fun v _ => staysIn_holds fun b => ?_
    split
    · refine staysIn_read fun start _ => staysIn_note.bind fun _ _ => staysIn_read ?_
      rintro _ ⟨⟩
      exact hbody c
    · exact ih hcases

theorem staysIn_goesOn (ht : Stays K ev t) :
    StaysIn K (PointsInto K) (goesOn (ev t c)) fun _ => True := by
  refine (ht c).attempt (fun _ _ => staysIn_pure trivial) fun e he => ?_
  cases e with
  | continueLoop => exact staysIn_pure trivial
  | breakLoop => exact staysIn_pure trivial
  | _ => exact staysIn_throw he

theorem staysIn_whileRounds {condition body : Tree} {fuel : Nat} (hc : Stays K ev condition)
    (hb : Stays K ev body) :
    StaysIn K (PointsInto K) (whileRounds ev c condition body fuel) fun _ => True := by
  induction fuel with
  | zero => exact staysIn_throw trivial
  | succ fuel ih =>
    refine (staysIn_operand hc).bind fun v _ => staysIn_holds fun b => ?_
    split
    · refine (staysIn_goesOn hb).bind fun again _ => ?_
      split
      · exact ih
      · exact staysIn_pure trivial
    · exact staysIn_pure trivial

theorem staysIn_bound {word : String} (ht : Stays K ev t) (hplace : t.LiesIn K) :
    StaysIn K (PointsInto K) (bound ev c word t) fun _ => True := by
  refine (staysIn_operand ht).bind fun v _ => ?_
  split
  · exact staysIn_pure trivial
  · exact staysIn_locatedAt hplace hplace

theorem staysIn_stepOf {step : Tree} (hs : step.isNull = false → Stays K ev step ∧ step.LiesIn K)
    (hn : n.LiesIn K) : StaysIn K (PointsInto K) (stepOf ev c step n) fun _ => True := by
  unfold stepOf
  split
  · exact staysIn_pure trivial
  · next hnull =>
    obtain ⟨hs, hplace⟩ := hs (Bool.eq_false_iff.mpr hnull)
    refine (staysIn_bound hs hplace).bind fun x _ => ?_
    split
    · exact staysIn_locatedAt hn hplace
    · exact staysIn_pure trivial

theorem staysIn_countRounds {name : Scalar} {last step cursor : Float} {body : Tree} {fuel : Nat}
    (hb : Stays K ev body) :
    StaysIn K (PointsInto K) (countRounds ev c name last step body fuel cursor) fun _ => True := by
  induction fuel generalizing cursor with
  | zero => exact staysIn_throw trivial
  | succ fuel ih =>
    unfold countRounds
    split
    · refine (staysIn_bindName (Value.isFrom_number cursor)).bind fun _ _ => ?_
      refine staysIn_note.bind fun _ _ => (staysIn_goesOn hb).bind fun again _ => ?_
      split
      · exact ih
      · exact staysIn_pure trivial
    · exact staysIn_unbindName

theorem staysIn_forLoop {first last step body : Tree} (hf : Stays K ev first)
    (hfirst : first.LiesIn K) (hl : Stays K ev last) (hlast : last.LiesIn K)
    (hs : step.isNull = false → Stays K ev step ∧ step.LiesIn K) (hb : Stays K ev body)
    (hn : n.LiesIn K) :
    StaysIn K (PointsInto K) (forLoop rounds ev c t first last step body n) (IsFromAny K) := by
  refine (staysIn_bound hf hfirst).bind fun cursor _ => (staysIn_bound hl hlast).bind fun _ _ => ?_
  refine (staysIn_stepOf hs hn).bind fun step _ => staysIn_read fun name _ => ?_
  exact (staysIn_countRounds hb).bind fun _ _ => staysIn_pure isFromAny_none

theorem staysIn_eachRounds {name : Scalar} {l : ListId} {body : Tree} {fuel i : Nat}
    (hb : Stays K ev body) :
    StaysIn K (PointsInto K) (eachRounds room ev c name l body fuel i) fun _ => True := by
  induction fuel generalizing i with
  | zero => exact staysIn_throw trivial
  | succ fuel ih =>
    refine staysIn_store fun s hs => ?_
    split
    · exact staysIn_pure trivial
    · next v hv =>
      have hv := hs.elements (Array.mem_of_getElem? hv)
      refine (staysIn_bindName hv).bind fun _ _ => staysIn_noteValue.bind fun _ _ => ?_
      refine (staysIn_goesOn hb).bind fun again _ => ?_
      split
      · exact ih
      · exact staysIn_pure trivial

theorem staysIn_eachLoop {iterable body : Tree} (hi : Stays K ev iterable)
    (hplace : iterable.LiesIn K) (hb : Stays K ev body) (hn : n.LiesIn K) :
    StaysIn K (PointsInto K) (eachLoop rounds room ev c t iterable body n) (IsFromAny K) := by
  refine (staysIn_operand hi).bind fun v _ => ?_
  split
  · refine staysIn_read fun name _ => staysIn_store fun s _ => ?_
    refine (staysIn_eachRounds hb).bind fun _ _ => staysIn_unbindName.bind fun _ _ => ?_
    exact staysIn_pure isFromAny_none
  · exact staysIn_locatedAt hn hplace

end

/-! ## Functions and calls -/

section

variable {t n : Tree} {v : Value} {args : List Value} {f : Closure}

theorem staysIn_bindFunction {name : Json} (hv : v.IsFrom K) :
    StaysIn K (PointsInto K) (bindFunction c name v) fun _ => True := by
  unfold bindFunction
  split
  · exact staysIn_pure trivial
  · exact staysIn_bindName hv
  · exact staysIn_throw trivial

theorem staysIn_function {params isExpression : Tree} {e : Node} (he : e.LiesIn K)
    (hn : n.LiesIn K) :
    StaysIn K (PointsInto K) (function c t params (Tree.ofNode e) isExpression n)
      (IsFromAny K) := by
  refine staysIn_read fun name _ => staysIn_read fun params _ => staysIn_read fun s hs => ?_
  have hv {g : Closure} (hg : g.body = Tree.ofNode e) : Value.IsFrom K ⟨.function g, s⟩ := by
    refine ⟨.inr (hn s hs), ?_⟩
    rintro _ ⟨⟩
    exact ⟨e, hg, he⟩
  refine (staysIn_bindFunction (hv rfl)).bind fun _ _ => staysIn_read fun names _ => ?_
  exact staysIn_note.bind fun _ _ => staysIn_pure (isFromAny_some (hv rfl))

theorem staysIn_bindAll {params : List String} (hargs : ∀ v ∈ args, v.IsFrom K) :
    StaysIn K (MayPointInto K) (bindAll c params args) fun _ => True := by
  have hfold (entries : List (String × Value)) (s : Store) (hs : s.IsFrom K)
      (hentries : ∀ entry ∈ entries, entry.2.IsFrom K) :
      (entries.foldl (fun s entry => s.bind c (.text entry.1) entry.2) s).IsFrom K := by
    induction entries generalizing s with
    | nil => exact hs
    | cons entry entries ih =>
      obtain ⟨hv, hentries⟩ := List.forall_mem_cons.mp hentries
      exact ih (s.bind c (.text entry.1) entry.2) (hs.bind c _ hv) hentries
  refine staysIn_updateStore fun s hs => hfold (params.zip args) s hs fun entry hmem => ?_
  exact hargs _ (List.of_mem_zip hmem).2

/-- Failures of the body have their place already; the call itself gets the place of its node. -/
theorem staysIn_callClosure {place : Span}
    (hev : ∀ e : Node, e.LiesIn K → Stays K ev (Tree.ofNode e))
    (hplace : place = Span.none ∨ place.LiesIn K) (hf : ∃ e, f.body = Tree.ofNode e ∧ e.LiesIn K)
    (hargs : ∀ v ∈ args, v.IsFrom K) :
    StaysIn K (MayPointInto K) (callClosure ev f place args) (Value.IsFrom K) := by
  obtain ⟨e, hbody, he⟩ := hf
  unfold callClosure
  dsimp only
  split
  · exact staysIn_throw_bind (mayPointInto_onSpan hplace)
  · refine staysIn_newScope.bind fun inner _ => (staysIn_bindAll hargs).bind fun _ _ => ?_
    rw [hbody]
    refine (hev e he inner).attempt (fun v hv => staysIn_pure ?_) fun e he => ?_
    · split
      · exact Value.isFrom_orNull hv
      · exact Value.isFrom_null
    · cases e with
      | giveBack v => exact staysIn_pure he
      | breakLoop => exact staysIn_pure Value.isFrom_null
      | continueLoop => exact staysIn_pure Value.isFrom_null
      | failure d => exact staysIn_throw (.inr he)
      | _ => exact staysIn_throw trivial

theorem staysIn_callValue (hev : ∀ e : Node, e.LiesIn K → Stays K ev (Tree.ofNode e))
    (hv : v.IsFrom K) (hargs : ∀ v ∈ args, v.IsFrom K) :
    StaysIn K (MayPointInto K) (callValue room ev v args) (Value.IsFrom K) := by
  obtain ⟨p, s⟩ := v
  cases p with
  | builtin b => exact Builtin.staysIn_call hv.span hargs
  | function f => exact staysIn_callClosure hev hv.span (hv.body f rfl) hargs
  | list l =>
    unfold callValue
    dsimp only
    split
    · exact Exec.staysIn_access (hargs _ List.mem_cons_self) isFromAny_none
    · obtain ⟨hi, hargs⟩ := List.forall_mem_cons.mp hargs
      exact Exec.staysIn_access hi (isFromAny_some (hargs _ List.mem_cons_self))
    · exact staysIn_fail (mayPointInto_onSpan hv.span)
  | _ => exact staysIn_fail (mayPointInto_onSpan hv.span)

theorem staysIn_call {callee : Tree} {ts : List Tree}
    (hev : ∀ e : Node, e.LiesIn K → Stays K ev (Tree.ofNode e)) (hc : Stays K ev callee)
    (hts : ∀ t ∈ ts, Stays K ev t) (hn : n.LiesIn K) :
    StaysIn K (PointsInto K) (call room ev c callee (.list ts) n) (IsFromAny K) := by
  refine (staysIn_operand hc).bind fun v hv => staysIn_read ?_
  rintro _ ⟨⟩
  refine (staysIn_operands hts).bind fun args hargs => staysIn_noteValue.bind fun _ _ => ?_
  refine (staysIn_located hn (staysIn_callValue hev hv hargs)).bind fun w hw => ?_
  exact staysIn_resultAt hw hn

theorem staysIn_giveBack {value : Tree} (hv : value.isNull = false → Stays K ev value)
    (hn : n.LiesIn K) : StaysIn K (PointsInto K) (giveBack ev c value n) (IsFromAny K) := by
  unfold giveBack
  cases hnull : value.isNull with
  | true =>
    refine staysIn_read fun s hs => staysIn_throw_bind ?_
    exact Value.isFrom_null.place (hn s hs)
  | false => exact (staysIn_operand (hv hnull)).bind fun v hv => staysIn_throw hv

end

/-! ## Whole nodes -/

section

variable {es : List Node} {o : Option Node}

theorem stays_ofNodes (h : ∀ e ∈ es, Stays K ev (Tree.ofNode e)) :
    ∀ t ∈ Tree.ofNodes es, Stays K ev t := by
  intro t ht
  obtain ⟨e, he, rfl⟩ := Tree.mem_ofNodes ht
  exact h e he

theorem stays_ofOption (hev : ∀ e : Node, e.LiesIn K → Stays K ev (Tree.ofNode e))
    (h : ∀ e ∈ o, e.LiesIn K) :
    (Tree.ofOption o).isNull = false → Stays K ev (Tree.ofOption o) ∧ (Tree.ofOption o).LiesIn K := by
  intro hnull
  obtain ⟨e, rfl, he⟩ := Tree.eq_some_of_ofOption hnull
  rw [he]
  exact ⟨hev e (h e rfl), Tree.liesIn_ofNode (h e rfl)⟩

/-- The step stays in `K` on a node in `K` if the evaluator below it does. -/
theorem stays_step (hev : ∀ e : Node, e.LiesIn K → Stays K ev (Tree.ofNode e)) {e : Node}
    (he : e.LiesIn K) : Stays K (step rounds room ev) (Tree.ofNode e) := by
  have hn := Tree.liesIn_ofNode he
  intro c
  cases he with
  | number => exact staysIn_numberLiteral hn
  | text => exact staysIn_textLiteral hn
  | null => exact staysIn_placed (p := .null) hn trivial
  | list _ hes => exact staysIn_listLiteral (stays_ofNodes fun e he => hev e (hes e he)) hn
  | block _ hss => exact staysIn_block (stays_ofNodes fun e he => hev e (hss e he))
  | ternary _ hc ha hb => exact staysIn_ternary (hev _ hc) (hev _ ha) (hev _ hb)
  | binary _ ha hb => exact staysIn_binary (hev _ ha) (hev _ hb) hn
  | unary _ he => exact staysIn_unary (hev _ he) hn
  | lookup => exact staysIn_lookup hn
  | assign _ he => exact staysIn_assign (hev _ he)
  | index _ he hi hj =>
    exact staysIn_index (hev _ he) (hev _ hi) (Tree.liesIn_ofNode hi) (stays_ofOption hev hj) hn
  | assignIndex _ ht hi he =>
    exact staysIn_assignIndex (Tree.liesIn_ofToken ht) (hev _ hi) (Tree.liesIn_ofNode hi)
      (hev _ he) hn
  | conditional _ hconditions hbodies hotherwise =>
    refine staysIn_read ?_
    rintro _ ⟨⟩
    exact staysIn_cases (fun g hg => ⟨hev _ (hconditions g hg), hev _ (hbodies g hg)⟩)
      fun hnull => (stays_ofOption hev hotherwise hnull).1
  | forLoop _ ha hb hstep hbody =>
    exact staysIn_forLoop (hev _ ha) (Tree.liesIn_ofNode ha) (hev _ hb) (Tree.liesIn_ofNode hb)
      (stays_ofOption hev hstep) (hev _ hbody) hn
  | eachLoop _ he hbody =>
    exact staysIn_eachLoop (hev _ he) (Tree.liesIn_ofNode he) (hev _ hbody) hn
  | whileLoop _ hc hbody =>
    exact (staysIn_whileRounds (hev _ hc) (hev _ hbody)).bind fun _ _ => staysIn_pure isFromAny_none
  | breakLoop => exact staysIn_throw trivial
  | continueLoop => exact staysIn_throw trivial
  | function _ hbody => exact staysIn_function hbody hn
  | call _ he hargs =>
    exact staysIn_call hev (hev _ he) (stays_ofNodes fun e he => hev e (hargs e he)) hn
  | giveBack _ hvalue =>
    exact staysIn_giveBack (fun hnull => (stays_ofOption hev hvalue hnull).1) hn

/-- Evaluation stays in `K` on the nodes in `K`, whatever room there is. -/
theorem stays_evaluate (rounds room : Nat) :
    ∀ e : Node, e.LiesIn K → Stays K (evaluate rounds room) (Tree.ofNode e) := by
  induction room with
  | zero => exact fun e _ c => staysIn_throw trivial
  | succ room ih => exact fun e he => stays_step ih he

end

end Lumen.Eval
