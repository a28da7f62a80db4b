import Lumen.Proofs.Eval.Values

/-!
# The rules of evaluation keep every invariant

One lemma for each rule, about an evaluator that keeps the invariant on the parts inside. From
these the step keeps it on the whole node, and by induction on the depth so does evaluation.
-/

namespace Lumen.Eval.Invariant

variable {J : Invariant} {p : J.Place} {c : ScopeId} {m : Machine} {ev : Evaluator}
  {rounds room : Nat}

def AdmitsAny (J : Invariant) (s : Store) (v : Option Value) : Prop :=
  ∀ w, v = some w → J.Admits s w

def Evaluates (J : Invariant) (p : J.Place) (ev : Evaluator) (t : Tree) : Prop :=
  ∀ c m, J.Holds c m.store → J.Keeps p c m (ev t c) J.AdmitsAny

theorem admitsAny_some {s : Store} {v : Value} (h : J.Admits s v) : J.AdmitsAny s (some v) := by
  intro w hw
  exact Option.some.inj hw ▸ h

theorem admitsAny_none {s : Store} : J.AdmitsAny s none := fun _ hw => nomatch hw

/-! ## Operands and sequences -/

theorem keeps_operand {t : Tree} (ht : J.Evaluates p ev t) (h : J.Holds c m.store) :
    J.Keeps p c m (operand ev t c) J.Admits :=
  (ht c m h).bind h fun _ _ _ h' hv => keeps_pure h' (admits_orNull hv)

theorem keeps_operands {ts : List Tree} (hts : ∀ t ∈ ts, J.Evaluates p ev t)
    (h : J.Holds c m.store) :
    J.Keeps p c m (operands ev c ts) fun s vs => ∀ v ∈ vs, J.Admits s v := by
  induction ts generalizing m with
  | nil => exact keeps_pure h fun v hv => nomatch hv
  | cons t ts ih =>
    have ht := hts t List.mem_cons_self
    refine (keeps_operand ht h).bind h fun v m' _ h' hv => ?_
    have hrest := ih (fun u hu => hts u (List.mem_cons_of_mem _ hu)) h'
    refine hrest.bind h' fun vs m'' hl h'' hvs => keeps_pure h'' ?_
    intro w hw
    rcases List.mem_cons.mp hw with rfl | hw
    · exact hv.mono hl
    · exact hvs w hw

theorem keeps_sequence {ts : List Tree} {last : Option Value}
    (hts : ∀ t ∈ ts, J.Evaluates p ev t) (h : J.Holds c m.store) (hv : J.AdmitsAny m.store last) :
    J.Keeps p c m (sequence ev c last ts) J.AdmitsAny := by
  induction ts generalizing m last with
  | nil => exact keeps_pure h hv
  | cons t ts ih =>
    refine (hts t List.mem_cons_self c m h).bind h fun v m' _ h' hv' => ?_
    exact ih (fun u hu => hts u (List.mem_cons_of_mem _ hu)) h' hv'

theorem keeps_block {statements : Tree}
    (hts : ∀ ts, statements.items = .ok ts → ∀ t ∈ ts, J.Evaluates p ev t)
    (h : J.Holds c m.store) :
    J.Keeps p c m (block ev c statements) J.AdmitsAny := by
  have hitems : J.Keeps p c m (Exec.ofDocument statements.items)
      fun _ ts => statements.items = .ok ts := keeps_ofDocument h fun ts hts => hts
  exact hitems.bind h fun ts m' _ h' he => keeps_sequence (hts ts he) h' admitsAny_none

/-! ## Literals and results -/

theorem keeps_document {α : Type} {x : Except Fault α} (h : J.Holds c m.store) :
    J.Keeps p c m (Exec.ofDocument x) fun _ a => x = .ok a := keeps_ofDocument h fun _ ha => ha

theorem keeps_nameOf {t : Tree} (h : J.Holds c m.store) :
    J.Keeps p c m (nameOf t) fun _ _ => True := keeps_ofDocument h fun _ _ => trivial

theorem keeps_failAt {α : Type} {complaint : Complaint} {n : Tree} {Q : Store → α → Prop}
    (h : J.Holds c m.store) : J.Keeps p c m (failAt complaint n) Q :=
  (keeps_document h).bind h fun _ _ _ h' _ => keeps_fail h'

theorem keeps_placed {payload : Payload} {n : Tree} (h : J.Holds c m.store)
    (hv : J.Admits m.store (Value.unplaced payload)) :
    J.Keeps p c m (placed payload n) J.AdmitsAny :=
  (keeps_document h).bind h fun sp _ hl h' _ =>
    keeps_pure h' (admitsAny_some ((hv.mono hl).place sp))

theorem keeps_numberLiteral {t n : Tree} (h : J.Holds c m.store) :
    J.Keeps p c m (numberLiteral t n) J.AdmitsAny := by
  refine (keeps_document h).bind h fun j m₁ _ h₁ _ => ?_
  refine (keeps_document h₁).bind h₁ fun x m₂ _ h₂ _ => ?_
  exact keeps_placed h₂ (admits_plain trivial)

theorem keeps_textLiteral {t n : Tree} (h : J.Holds c m.store) :
    J.Keeps p c m (textLiteral t n) J.AdmitsAny := by
  refine (keeps_document h).bind h fun j m' _ h' _ => ?_
  split
  · exact keeps_placed h' (admits_plain trivial)
  · exact keeps_placed h' (admits_plain trivial)

theorem keeps_listLiteral {elements n : Tree}
    (hts : ∀ ts, elements.items = .ok ts → ∀ t ∈ ts, J.Evaluates p ev t)
    (h : J.Holds c m.store) :
    J.Keeps p c m (listLiteral ev c elements n) J.AdmitsAny := by
  refine (keeps_document h).bind h fun ts m₁ _ h₁ he => ?_
  refine (keeps_operands (hts ts he) h₁).bind h₁ fun vs m₂ _ h₂ hvs => ?_
  have hlist := keeps_newList (p := p) h₂ fun v hv => hvs v (List.mem_toArray.mp hv)
  exact hlist.bind h₂ fun v m₃ _ h₃ hv => keeps_placed h₃ hv

theorem keeps_resultAt {v : Value} {n : Tree} (h : J.Holds c m.store)
    (hv : J.Admits m.store v) : J.Keeps p c m (resultAt v n) J.AdmitsAny := by
  refine (keeps_document h).bind h fun sp m₁ hl h₁ _ => ?_
  have hcopy : J.Keeps p c m₁ (Exec.ofExcept (v.copyTo sp)) fun _ w => w.payload = v.payload :=
    keeps_ofExcept h₁ (Value.gives_copyTo v sp)
  refine hcopy.bind h₁ fun w m₂ hl' h₂ hw => keeps_pure h₂ (admitsAny_some fun f hf => ?_)
  exact (hv.mono hl).mono hl' f (hw.symm.trans hf)

/-! ## Operators and names -/

theorem keeps_binary {left op right n : Tree} (hl : J.Evaluates p ev left)
    (hr : J.Evaluates p ev right) (h : J.Holds c m.store) :
    J.Keeps p c m (binary ev c left op right n) J.AdmitsAny := by
  refine (keeps_operand hr h).bind h fun b m₁ _ h₁ hb => ?_
  refine (keeps_operand hl h₁).bind h₁ fun a m₂ hl₂ h₂ ha => ?_
  refine (keeps_nameOf h₂).bind h₂ fun symbol m₃ hl₃ h₃ _ => ?_
  split
  · exact keeps_failAt h₃
  · refine Keeps.bind (P := J.Admits) (keeps_located ?_ h₃) h₃ fun v m₄ _ h₄ hv => ?_
    · exact keeps_apply h₃ (ha.mono hl₃) ((hb.mono hl₂).mono hl₃)
    · exact keeps_resultAt h₄ hv

theorem keeps_signed {sign : Json} {a : Value} (h : J.Holds c m.store)
    (ha : J.Admits m.store a) : J.Keeps p c m (signed sign a) J.Admits := by
  unfold signed
  split
  · split
    · exact keeps_apply h ha (admits_new (Value.isNew_number _))
    · split
      · exact keeps_ofDocument h fun v hv => admits_new (Value.isNew_of_negation hv)
      · exact keeps_pure h ha
  · exact keeps_pure h ha

theorem keeps_unary {op t n : Tree} (ht : J.Evaluates p ev t) (h : J.Holds c m.store) :
    J.Keeps p c m (unary ev c op t n) J.AdmitsAny := by
  refine (keeps_operand ht h).bind h fun a m₁ _ h₁ ha => ?_
  refine (keeps_document h₁).bind h₁ fun sign m₂ hl h₂ _ => ?_
  refine (keeps_located (keeps_signed h₂ (ha.mono hl)) h₂).bind h₂ fun v m₃ _ h₃ hv => ?_
  exact keeps_resultAt h₃ hv

theorem keeps_ternary {condition left right : Tree} (hc : J.Evaluates p ev condition)
    (hl : J.Evaluates p ev left) (hr : J.Evaluates p ev right) (h : J.Holds c m.store) :
    J.Keeps p c m (ternary ev c condition left right) J.AdmitsAny := by
  refine (keeps_operand hc h).bind h fun v m₁ _ h₁ _ => ?_
  refine (keeps_condition h₁).bind h₁ fun b m₂ _ h₂ _ => ?_
  split
  · exact hl c m₂ h₂
  · exact hr c m₂ h₂

theorem keeps_lookup {t n : Tree} (h : J.Holds c m.store) :
    J.Keeps p c m (lookup c t n) J.AdmitsAny := by
  refine (keeps_nameOf h).bind h fun name m₁ _ h₁ _ => ?_
  refine (keeps_store h₁).bind h₁ fun s m₂ _ h₂ hs => ?_
  split
  · exact keeps_placed h₂ (admits_plain trivial)
  · next v hv =>
    subst hs
    exact keeps_resultAt h₂ (h₂.sound v (Store.holds_of_lookup hv))

theorem keeps_assign {t value : Tree} (hv : J.Evaluates p ev value) (h : J.Holds c m.store) :
    J.Keeps p c m (assign room ev c t value) J.AdmitsAny := by
  refine (keeps_operand hv h).bind h fun v m₁ _ h₁ hv => ?_
  refine (keeps_nameOf h₁).bind h₁ fun name m₂ hl₂ h₂ _ => ?_
  have hv₂ := hv.mono hl₂
  refine (keeps_bindName h₂ hv₂).bind h₂ fun _ m₃ hl₃ h₃ _ => ?_
  refine (keeps_noteValue h₃).bind h₃ fun _ m₄ hl₄ h₄ _ => ?_
  exact keeps_pure h₄ (admitsAny_some ((hv₂.mono hl₃).mono hl₄))

/-! ## Elements -/

theorem keeps_indexOperand {complaint : Complaint} {i n : Tree} (hi : J.Evaluates p ev i)
    (h : J.Holds c m.store) :
    J.Keeps p c m (indexOperand ev c complaint i n) J.Admits := by
  refine (keeps_operand hi h).bind h fun v m₁ _ h₁ hv => ?_
  split
  · exact keeps_pure h₁ hv
  · exact keeps_located (keeps_failAt h₁) h₁

theorem keeps_upToOperand {upTo n : Tree} (hu : upTo.isNull = false → J.Evaluates p ev upTo)
    (h : J.Holds c m.store) :
    J.Keeps p c m (upToOperand ev c upTo n) fun _ _ => True := by
  unfold upToOperand
  split
  · exact keeps_pure h trivial
  · next hnull =>
    have hu := hu (Bool.eq_false_iff.mpr hnull)
    exact (keeps_indexOperand hu h).bind h fun v m' _ h' _ => keeps_pure h' trivial

theorem keeps_index {target i upTo n : Tree} (ht : J.Evaluates p ev target)
    (hi : J.Evaluates p ev i) (hu : upTo.isNull = false → J.Evaluates p ev upTo)
    (h : J.Holds c m.store) :
    J.Keeps p c m (index ev c target i upTo n) J.AdmitsAny := by
  refine (keeps_operand ht h).bind h fun t m₁ _ h₁ _ => ?_
  refine (keeps_indexOperand hi h₁).bind h₁ fun i m₂ _ h₂ _ => ?_
  refine (keeps_upToOperand hu h₂).bind h₂ fun j m₃ _ h₃ _ => ?_
  split
  · refine (keeps_located (keeps_access h₃) h₃).bind h₃ fun v m₄ _ h₄ hv => ?_
    exact keeps_pure h₄ (admitsAny_some hv)
  · exact keeps_located (keeps_fail h₃) h₃

theorem keeps_assignAt {fields : List Tree} {l : ListId} {name : Scalar} {index v : Value}
    {n : Tree} (hp : J.Part p (.node .assignIndex fields)) (h : J.Holds c m.store)
    (hv : J.Admits m.store v) :
    J.Keeps p c m (do
      Exec.located n.span (Exec.assign l index v)
      let slot ← Exec.text .written room index
      Exec.noteValue room 2 v fun text =>
        "assign " ++ name.display ++ "[" ++ slot ++ "] = " ++ text
      return some v) J.AdmitsAny := by
  refine (keeps_located (keeps_assignElement hp h hv) h).bind h fun _ m₁ hl₁ h₁ _ => ?_
  refine (keeps_text h₁).bind h₁ fun slot m₂ hl₂ h₂ _ => ?_
  refine (keeps_noteValue h₂).bind h₂ fun _ m₃ hl₃ h₃ _ => ?_
  exact keeps_pure h₃ (admitsAny_some (((hv.mono hl₁).mono hl₂).mono hl₃))

theorem keeps_assignIndex {fields : List Tree} {t i value n : Tree}
    (hp : J.Part p (.node .assignIndex fields)) (hi : J.Evaluates p ev i)
    (hv : J.Evaluates p ev value) (h : J.Holds c m.store) :
    J.Keeps p c m (assignIndex room ev c t i value n) J.AdmitsAny := by
  refine (keeps_nameOf h).bind h fun name m₁ _ h₁ _ => ?_
  refine (keeps_store h₁).bind h₁ fun s m₂ _ h₂ _ => ?_
  split
  · refine (keeps_operand hi h₂).bind h₂ fun index m₃ _ h₃ _ => ?_
    refine (keeps_operand hv h₃).bind h₃ fun v m₄ _ h₄ hv => ?_
    split
    · refine Keeps.bind (P := fun _ _ => True) (keeps_located (keeps_failAt h₄) h₄) h₄ ?_
      exact fun _ m₅ hl h₅ _ => keeps_assignAt hp h₅ (hv.mono hl)
    · exact keeps_assignAt hp h₄ hv
  · exact keeps_located (keeps_failAt h₂) h₂

/-! ## Conditionals and loops -/

theorem keeps_cases {otherwise : Tree} {ts : List Tree}
    (hts : ∀ g ∈ ts, ∀ u, g.condition = .ok u ∨ g.body = .ok u → J.Evaluates p ev u)
    (ho : otherwise.isNull = false → J.Evaluates p ev otherwise) (h : J.Holds c m.store) :
    J.Keeps p c m (cases ev c otherwise ts) J.AdmitsAny := by
  induction ts generalizing m with
  | nil =>
    unfold cases
    split
    · exact keeps_pure h admitsAny_none
    · next hnull =>
      refine (keeps_note h).bind h fun _ m' _ h' _ => ?_
      exact ho (Bool.eq_false_iff.mpr hnull) c m' h'
  | cons g ts ih =>
    have hg := hts g List.mem_cons_self
    refine (keeps_document h).bind h fun condition m₁ _ h₁ he => ?_
    refine (keeps_operand (hg condition (.inl he)) h₁).bind h₁ fun v m₂ _ h₂ _ => ?_
    refine (keeps_condition h₂).bind h₂ fun b m₃ _ h₃ _ => ?_
    split
    · refine (keeps_document h₃).bind h₃ fun start m₄ _ h₄ _ => ?_
      refine (keeps_note h₄).bind h₄ fun _ m₅ _ h₅ _ => ?_
      refine (keeps_document h₅).bind h₅ fun body m₆ _ h₆ he => ?_
      exact hg body (.inr he) c m₆ h₆
    · exact ih (fun g hmem => hts g (List.mem_cons_of_mem _ hmem)) h₃

theorem keeps_conditional {guarded otherwise : Tree}
    (hts : ∀ ts, guarded.items = .ok ts → ∀ g ∈ ts, ∀ u, g.condition = .ok u ∨ g.body = .ok u →
      J.Evaluates p ev u)
    (ho : otherwise.isNull = false → J.Evaluates p ev otherwise) (h : J.Holds c m.store) :
    J.Keeps p c m (conditional ev c guarded otherwise) J.AdmitsAny :=
  (keeps_document h).bind h fun ts _ _ h' he => keeps_cases (hts ts he) ho h'

/-- A round takes up the signals of the loop; a value that is given back passes through. -/
theorem keeps_goesOn {body : Tree} (hb : J.Evaluates (J.loopBody p) ev body)
    (h : J.Holds c m.store) :
    J.Keeps p c m (goesOn (ev body c)) fun _ _ => True := by
  unfold goesOn
  refine (hb c m h).attempt h (fun _ m' _ h' _ => keeps_pure h' trivial) fun e m' _ h' he => ?_
  cases e with
  | giveBack v => exact keeps_throw h' ⟨J.returns_of_loopBody he.1, he.2⟩
  | breakLoop => exact keeps_pure h' trivial
  | continueLoop => exact keeps_pure h' trivial
  | _ => exact keeps_throw h' trivial

theorem keeps_whileRounds {condition body : Tree} {fuel : Nat} (hc : J.Evaluates p ev condition)
    (hb : J.Evaluates (J.loopBody p) ev body) (h : J.Holds c m.store) :
    J.Keeps p c m (whileRounds ev c condition body fuel) fun _ _ => True := by
  induction fuel generalizing m with
  | zero => exact keeps_throw h trivial
  | succ fuel ih =>
    refine (keeps_operand hc h).bind h fun v m₁ _ h₁ _ => ?_
    refine (keeps_condition h₁).bind h₁ fun b m₂ _ h₂ _ => ?_
    split
    · refine (keeps_goesOn hb h₂).bind h₂ fun again m₃ _ h₃ _ => ?_
      split
      · exact ih h₃
      · exact keeps_pure h₃ trivial
    · exact keeps_pure h₂ trivial

theorem keeps_bound {word : String} {t : Tree} (ht : J.Evaluates p ev t)
    (h : J.Holds c m.store) :
    J.Keeps p c m (bound ev c word t) fun _ _ => True := by
  refine (keeps_operand ht h).bind h fun v m' _ h' _ => ?_
  split
  · exact keeps_pure h' trivial
  · exact keeps_located (keeps_failAt h') h'

theorem keeps_stepOf {step n : Tree} (hs : step.isNull = false → J.Evaluates p ev step)
    (h : J.Holds c m.store) :
    J.Keeps p c m (stepOf ev c step n) fun _ _ => True := by
  unfold stepOf
  split
  · exact keeps_pure h trivial
  · next hnull =>
    refine (keeps_bound (hs (Bool.eq_false_iff.mpr hnull)) h).bind h fun x m' _ h' _ => ?_
    split
    · exact keeps_located (keeps_failAt h') h'
    · exact keeps_pure h' trivial

theorem keeps_countRounds {name : Scalar} {last step cursor : Float} {body : Tree} {fuel : Nat}
    (hb : J.Evaluates (J.loopBody p) ev body) (h : J.Holds c m.store) :
    J.Keeps p c m (countRounds ev c name last step body fuel cursor) fun _ _ => True := by
  induction fuel generalizing m cursor with
  | zero => exact keeps_throw h trivial
  | succ fuel ih =>
    unfold countRounds
    split
    · have hcursor := admits_new (J := J) (s := m.store) (Value.isNew_number cursor)
      refine (keeps_bindName h hcursor).bind h fun _ m₁ _ h₁ _ => ?_
      refine (keeps_note h₁).bind h₁ fun _ m₂ _ h₂ _ => ?_
      refine (keeps_goesOn hb h₂).bind h₂ fun again m₃ _ h₃ _ => ?_
      split
      · exact ih h₃
      · exact keeps_pure h₃ trivial
    · exact keeps_unbindName h

theorem keeps_forLoop {t first last step body n : Tree} (hf : J.Evaluates p ev first)
    (hl : J.Evaluates p ev last) (hs : step.isNull = false → J.Evaluates p ev step)
    (hb : J.Evaluates (J.loopBody p) ev body) (h : J.Holds c m.store) :
    J.Keeps p c m (forLoop rounds ev c t first last step body n) J.AdmitsAny := by
  refine (keeps_bound hf h).bind h fun cursor m₁ _ h₁ _ => ?_
  refine (keeps_bound hl h₁).bind h₁ fun last m₂ _ h₂ _ => ?_
  refine (keeps_stepOf hs h₂).bind h₂ fun step m₃ _ h₃ _ => ?_
  refine (keeps_nameOf h₃).bind h₃ fun name m₄ _ h₄ _ => ?_
  refine (keeps_countRounds hb h₄).bind h₄ fun _ m₅ _ h₅ _ => ?_
  exact keeps_pure h₅ admitsAny_none

theorem keeps_eachRounds {name : Scalar} {l : ListId} {body : Tree} {fuel i : Nat}
    (hb : J.Evaluates (J.loopBody p) ev body) (h : J.Holds c m.store) :
    J.Keeps p c m (eachRounds room ev c name l body fuel i) fun _ _ => True := by
  induction fuel generalizing m i with
  | zero => exact keeps_throw h trivial
  | succ fuel ih =>
    refine (keeps_store h).bind h fun s m₁ _ h₁ hs => ?_
    subst hs
    split
    · exact keeps_pure h₁ trivial
    · next v hv =>
      have hv := h₁.elements (Array.mem_of_getElem? hv)
      refine (keeps_bindName h₁ hv).bind h₁ fun _ m₂ _ h₂ _ => ?_
      refine (keeps_noteValue h₂).bind h₂ fun _ m₃ _ h₃ _ => ?_
      refine (keeps_goesOn hb h₃).bind h₃ fun again m₄ _ h₄ _ => ?_
      split
      · exact ih h₄
      · exact keeps_pure h₄ trivial

theorem keeps_eachLoop {t iterable body n : Tree} (hi : J.Evaluates p ev iterable)
    (hb : J.Evaluates (J.loopBody p) ev body) (h : J.Holds c m.store) :
    J.Keeps p c m (eachLoop rounds room ev c t iterable body n) J.AdmitsAny := by
  refine (keeps_operand hi h).bind h fun v m₁ _ h₁ _ => ?_
  split
  · refine (keeps_nameOf h₁).bind h₁ fun name m₂ _ h₂ _ => ?_
    refine (keeps_store h₂).bind h₂ fun s m₃ _ h₃ _ => ?_
    refine (keeps_eachRounds hb h₃).bind h₃ fun _ m₄ _ h₄ _ => ?_
    refine (keeps_unbindName h₄).bind h₄ fun _ m₅ _ h₅ _ => ?_
    exact keeps_pure h₅ admitsAny_none
  · exact keeps_located (keeps_failAt h₁) h₁

/-! ## Functions and calls -/

theorem keeps_bindFunction {name : Json} {v : Value} (h : J.Holds c m.store)
    (hv : J.Admits m.store v) :
    J.Keeps p c m (bindFunction c name v) fun _ _ => True := by
  unfold bindFunction
  split
  · exact keeps_pure h trivial
  · exact keeps_bindName h hv
  · exact keeps_fault h

theorem keeps_function {t params body isExpression n : Tree} (hb : J.Part J.functionBody body)
    (h : J.Holds c m.store) :
    J.Keeps p c m (function c t params body isExpression n) J.AdmitsAny := by
  refine (keeps_document h).bind h fun name m₁ _ h₁ _ => ?_
  refine (keeps_document h₁).bind h₁ fun params m₂ _ h₂ _ => ?_
  refine (keeps_document h₂).bind h₂ fun s m₃ _ h₃ _ => ?_
  dsimp only
  have hv : J.Admits m₃.store ⟨.function ⟨name.scalar?.getD .null,
      (parameterNames 0 params).toOption.getD [], body, isExpression.truthy, c⟩, s⟩ := by
    intro f hf
    cases hf
    exact J.fits_function h₃.isOpen hb
  refine (keeps_bindFunction h₃ hv).bind h₃ fun _ m₄ hl₄ h₄ _ => ?_
  refine (keeps_document h₄).bind h₄ fun names m₅ hl₅ h₅ _ => ?_
  refine (keeps_note h₅).bind h₅ fun _ m₆ hl₆ h₆ _ => ?_
  exact keeps_pure h₆ (admitsAny_some (((hv.mono hl₄).mono hl₅).mono hl₆))

/-- Binding parameters is binding names one after another. -/
theorem keeps_bindAll {params : List String} {args : List Value} (h : J.Holds c m.store)
    (hargs : ∀ v ∈ args, J.Admits m.store v) :
    J.Keeps p c m (bindAll c params args) fun _ _ => True := by
  have hfold (entries : List (String × Value)) (s : Store) (hs : J.Holds c s)
      (hentries : ∀ entry ∈ entries, J.Admits s entry.2) :
      J.Leads c s (entries.foldl (fun s entry => s.bind c (.text entry.1) entry.2) s) ∧
        J.Sound (entries.foldl (fun s entry => s.bind c (.text entry.1) entry.2) s) := by
    induction entries generalizing s with
    | nil => exact ⟨J.leads_refl c s, hs.sound⟩
    | cons entry entries ih =>
      obtain ⟨name, v⟩ := entry
      have hv := hentries _ List.mem_cons_self
      have hl := J.leads_bind (.text name) v hs.isOpen
      have hsound : J.Sound (s.bind c (.text name) v) := by
        intro w hw
        rcases Store.holds_bind hw with rfl | hw
        · exact hv.mono hl
        · exact (hs.sound w hw).mono hl
      have hrest := ih _ (hs.next hl hsound) fun entry hmem =>
        (hentries entry (List.mem_cons_of_mem _ hmem)).mono hl
      exact ⟨J.leads_trans hl hrest.1, hrest.2⟩
  have hzip := hfold (params.zip args) m.store h fun entry hmem =>
    hargs _ (List.of_mem_zip hmem).2
  exact ⟨hzip.1, hzip.2, trivial⟩

/-- What runs in a new scope for a call is seen by the caller as running in its own. -/
theorem keeps_newScope {f : Closure} {x : ScopeId → Exec Value} (h : J.Holds c m.store)
    (hf : J.Fits m.store f)
    (hx : ∀ m', m'.store = m.store.addScope (callScope f) →
      J.Holds m.store.nextScope m'.store → J.Keeps p m.store.nextScope m' (x m.store.nextScope)
        J.Admits) :
    J.Keeps p c m (Exec.newScope (callScope f) >>= x) J.Admits := by
  have hsound : J.Sound (m.store.addScope (callScope f)) := by
    intro v hv g hg
    exact J.fits_call h.isOpen hf (h.sound v (Store.holds_addScope hv) g hg)
  obtain ⟨hl, hs, hr⟩ := hx { m with store := m.store.addScope (callScope f) } rfl
    ⟨J.open_call h.isOpen hf, hsound⟩
  exact ⟨J.leads_call h.isOpen hf hl, hs, hr⟩

/-- The signals of a function's body end at the call. -/
theorem keeps_bodyOf {f : Closure} (hev : ∀ p t, J.Part p t → J.Evaluates p ev t)
    (h : J.Holds c m.store) {p' : J.Place} (hbody : J.Part p' f.body) :
    J.Keeps p c m (do
      match ← Exec.attempt (ev f.body c) with
      | .ok v => return if f.isExpression then Value.orNull v else Value.null
      | .error (.giveBack v) => return v
      | .error .breakLoop | .error .continueLoop => return Value.null
      | .error e => throw e) J.Admits := by
  refine (hev p' f.body hbody c m h).attempt h (fun v m' _ h' hv => ?_) fun e m' _ h' he => ?_
  · apply keeps_pure h'
    split
    · exact admits_orNull hv
    · exact admits_new Value.isNew_null
  · cases e with
    | giveBack v => exact keeps_pure h' he.2
    | breakLoop => exact keeps_new h' Value.isNew_null
    | continueLoop => exact keeps_new h' Value.isNew_null
    | _ => exact keeps_throw h' trivial

theorem keeps_callClosure {f : Closure} {place : Span} {args : List Value}
    (hev : ∀ p t, J.Part p t → J.Evaluates p ev t) (h : J.Holds c m.store)
    (hf : J.Fits m.store f) (hargs : ∀ v ∈ args, J.Admits m.store v) :
    J.Keeps p c m (callClosure ev f place args) J.Admits := by
  unfold callClosure
  by_cases hlength : args.length ≠ f.params.length
  · simp only [if_pos hlength]
    exact keeps_throw_bind h trivial
  · simp only [if_neg hlength]
    refine keeps_newScope h hf fun m₁ hm h₁ => ?_
    have hargs₁ : ∀ v ∈ args, J.Admits m₁.store v := by
      intro v hv g hg
      rw [hm]
      exact J.fits_call h.isOpen hf (hargs v hv g hg)
    refine (keeps_bindAll h₁ hargs₁).bind h₁ fun _ m₂ _ h₂ _ => ?_
    obtain ⟨p', hbody⟩ := J.part_of_fits hf
    exact keeps_bodyOf hev h₂ hbody

theorem keeps_callValue {v : Value} {args : List Value}
    (hev : ∀ p t, J.Part p t → J.Evaluates p ev t) (h : J.Holds c m.store)
    (hv : J.Admits m.store v) (hargs : ∀ v ∈ args, J.Admits m.store v) :
    J.Keeps p c m (callValue room ev v args) J.Admits := by
  unfold callValue
  split
  · exact keeps_builtin h hargs
  · next f hf => exact keeps_callClosure hev h (hv f hf) hargs
  · split
    · exact keeps_access h
    · exact keeps_access h
    · exact keeps_fail h
  · exact keeps_fail h

theorem keeps_call {callee args n : Tree} (hev : ∀ p t, J.Part p t → J.Evaluates p ev t)
    (hc : J.Evaluates p ev callee)
    (hargs : ∀ ts, args.items = .ok ts → ∀ t ∈ ts, J.Evaluates p ev t)
    (h : J.Holds c m.store) :
    J.Keeps p c m (call room ev c callee args n) J.AdmitsAny := by
  refine (keeps_operand hc h).bind h fun v m₁ _ h₁ hv => ?_
  refine (keeps_document h₁).bind h₁ fun ts m₂ hl₂ h₂ he => ?_
  refine (keeps_operands (hargs ts he) h₂).bind h₂ fun vs m₃ hl₃ h₃ hvs => ?_
  refine (keeps_noteValue h₃).bind h₃ fun _ m₄ hl₄ h₄ _ => ?_
  have hv₄ := ((hv.mono hl₂).mono hl₃).mono hl₄
  have hcall : J.Keeps p c m₄ (callValue room ev v vs) J.Admits :=
    keeps_callValue hev h₄ hv₄ fun w hw => (hvs w hw).mono hl₄
  exact (keeps_located hcall h₄).bind h₄ fun w m₅ _ h₅ hw => keeps_resultAt h₅ hw

theorem keeps_giveBack {value n : Tree} (hp : J.Returns p)
    (hv : value.isNull = false → J.Evaluates p ev value) (h : J.Holds c m.store) :
    J.Keeps p c m (giveBack ev c value n) J.AdmitsAny := by
  unfold giveBack
  cases hnull : value.isNull with
  | true =>
    simp only [if_true]
    refine (keeps_document h).bind h fun s m' _ h' _ => ?_
    exact keeps_throw_bind h' ⟨hp, admits_new (v := Value.null) Value.isNew_null⟩
  | false =>
    simp only [Bool.false_eq_true, if_false]
    exact (keeps_operand (hv hnull) h).bind h fun v m' _ h' hv => keeps_throw h' ⟨hp, hv⟩

/-! ## Whole nodes -/

/-- The step on a node keeps the invariant if the evaluator below it does. -/
theorem evaluates_step (hev : ∀ p t, J.Part p t → J.Evaluates p ev t) {t : Tree}
    (ht : J.Part p t) : J.Evaluates p (step rounds room ev) t := by
  have hinner {w : Way} {u : Tree} (hu : Inner t w u) :
      J.Evaluates (w.select p (J.loopBody p) J.functionBody) ev u := hev _ _ (J.part_inner ht hu)
  intro c m h
  unfold step
  split
  · exact keeps_numberLiteral h
  · exact keeps_textLiteral h
  · exact keeps_placed h (admits_plain trivial)
  · exact keeps_listLiteral (fun ts hts u hu => hinner (.element hts hu)) h
  · exact keeps_block (fun ts hts u hu => hinner (.statement hts hu)) h
  · refine keeps_ternary ?_ ?_ ?_ h
    · exact hinner (.ternary (by simp))
    · exact hinner (.ternary (by simp))
    · exact hinner (.ternary (by simp))
  · refine keeps_binary ?_ ?_ h
    · exact hinner (.binary (by simp))
    · exact hinner (.binary (by simp))
  · exact keeps_unary (hinner .unary) h
  · exact keeps_lookup h
  · exact keeps_assign (hinner .assign) h
  · refine keeps_index ?_ ?_ (fun hnull => hinner (.upTo hnull)) h
    · exact hinner (.index (by simp))
    · exact hinner (.index (by simp))
  · refine keeps_assignIndex ht ?_ ?_ h
    · exact hinner (.assignIndex (by simp))
    · exact hinner (.assignIndex (by simp))
  · refine keeps_conditional ?_ (fun hnull => hinner (.otherwise hnull)) h
    intro ts hts g hg u hu
    rcases hu with hu | hu
    · exact hinner (.condition hts hg hu)
    · exact hinner (.guarded hts hg hu)
  · refine keeps_forLoop ?_ ?_ (fun hnull => hinner (.forStep hnull)) (hinner .forBody) h
    · exact hinner (.forHeader (by simp))
    · exact hinner (.forHeader (by simp))
  · exact keeps_eachLoop (hinner .eachHeader) (hinner .eachBody) h
  · refine (keeps_whileRounds (hinner .whileHeader) (hinner .whileBody) h).bind h ?_
    exact fun _ m' _ h' _ => keeps_pure h' admitsAny_none
  · exact keeps_throw h (J.breaks_of_break ht)
  · exact keeps_throw h (J.breaks_of_continue ht)
  · exact keeps_function (J.part_inner ht .function) h
  · exact keeps_call hev (hinner .callee) (fun ts hts u hu => hinner (.argument hts hu)) h
  · exact keeps_giveBack (J.returns_of_giveBack ht) (fun hnull => hinner (.giveBack hnull)) h
  · exact keeps_fault h
  · exact keeps_fault h
  · exact keeps_fault h

/-- Evaluation keeps every invariant, whatever room there is and however it ends. -/
theorem evaluates (J : Invariant) (rounds room : Nat) :
    ∀ p t, J.Part p t → J.Evaluates p (evaluate rounds room) t := by
  induction room with
  | zero => exact fun p t _ c m h => keeps_throw h trivial
  | succ room ih => exact fun p t ht => evaluates_step ih ht

end Lumen.Eval.Invariant
