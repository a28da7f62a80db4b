import Mathlib
import Lumen.Proofs.Grammar.Tails
import Lumen.Proofs.Parser.Ensures

/-!
# The parser accepts nothing but the grammar

Whatever a rule of the parser takes derives from its phrase, greedily, and the node that it returns
is the tree of the derivation. One lemma for each rule, about any rules for nested phrases that are
sound; the rules up to a depth are so by induction.
-/

namespace Lumen.Parser

open Grammar (Newlines Derives Phrase Level Tail Yield)

/-- What a sound parser of a phrase ensures of the node that it returns. -/
def Reads (φ : Phrase) (n : Nesting) (ts : List Token) (e : Node) (rest : List Token) : Prop :=
  Derives .greedy φ n ts rest (.node e)

/-- What is returned for nested phrases derives from them. -/
structure Sound (rules : Rules) : Prop where
  expression : ∀ n ts, Ensures (rules.expression n) ts (Reads .expression n ts)
  unary : ∀ n ts, Ensures (rules.unary n) ts (Reads .unary n ts)

theorem ends_of_starts {τ : Tail} {ts : List Token} (h : τ.starts ts = false) :
    Grammar.Reading.greedy.Ends τ ts := fun _ => h

section

variable {eof : Token} {rules : Rules} {n : Nesting} {ts : List Token}

/-! ## Expressions -/

theorem ensures_bracketed (hrules : Sound rules) :
    Ensures (bracketed rules n) ts fun e rest => ∃ ts₁ ts₂, Newlines ts ts₁ ∧
      Reads .expression n ts₁ e ts₂ ∧ Newlines ts₂ rest := by
  refine Ensures.bind (ensures_skipNewlines fun ts₁ h₁ => ?_)
  refine Ensures.bind ((hrules.expression n ts₁).mono fun e ts₂ he => ?_)
  refine Ensures.bind (ensures_skipNewlines fun rest h₂ => ?_)
  exact Ensures.pure ⟨ts₁, ts₂, h₁, he, h₂⟩

theorem ensures_moreArguments (heof : eof.kind = .eof) (hrules : Sound rules) (fuel : List Token)
    (hfuel : ts.length ≤ fuel.length) :
    Ensures (moreArguments eof rules n fuel) ts fun es rest =>
      Derives .greedy .moreArguments n ts rest (.nodes es) := by
  induction fuel generalizing ts with
  | nil => exact Ensures.pure .lastArgument
  | cons _ fuel ih =>
    refine ensures_ifSees heof (by decide) ?_ fun _ => Ensures.pure .lastArgument
    rintro t us rfl ht
    refine Ensures.bind (ensures_advance ?_)
    refine Ensures.bind ((ensures_bracketed hrules).mono ?_)
    rintro e ts₃ ⟨ts₁, ts₂, h₁, he, h₂⟩
    have hlength : ts₃.length ≤ fuel.length := by
      have h₁ := h₁.length_le
      have he := he.length.1
      have h₂ := h₂.length_le
      simp only [List.length_cons] at hfuel
      omega
    refine Ensures.bind ((ih hlength).mono fun es rest hes => ?_)
    exact Ensures.pure (.moreArguments ht h₁ he h₂ hes)

theorem ensures_arguments {close : String} (heof : eof.kind = .eof) (hrules : Sound rules) :
    Ensures (arguments eof rules n close) ts fun es rest =>
      Derives .greedy .arguments n ts rest (.nodes es) := by
  refine Ensures.bind (ensures_skipNewlines fun ts₀ h₀ => ?_)
  refine ensures_ifSees heof (by decide) ?_ fun _ => ?_
  · rintro t us rfl _
    exact Ensures.pure (.noArguments h₀)
  · refine Ensures.bind ((ensures_bracketed hrules).mono ?_)
    rintro e ts₃ ⟨ts₁, ts₂, h₁, he, h₂⟩
    refine Ensures.bind (ensures_get ?_)
    refine Ensures.bind ((ensures_moreArguments heof hrules ts₃ (Nat.le_refl _)).mono ?_)
    exact fun es rest hes => Ensures.pure (.arguments (h₀.trans h₁) he h₂ hes)

theorem ensures_suffixes (heof : eof.kind = .eof) (hrules : Sound rules) (fuel : List Token)
    (hfuel : ts.length ≤ fuel.length) (a : Node) :
    Ensures (postfixes eof rules n fuel a) ts (Reads (.suffixes a) n ts) := by
  induction fuel generalizing ts a with
  | nil =>
    obtain rfl := List.length_eq_zero_iff.mp (Nat.le_zero.mp hfuel)
    exact Ensures.pure (.endSuffixes (ends_of_starts rfl))
  | cons _ fuel ih =>
    refine ensures_ifSees heof (by decide) ?_ fun hround =>
      ensures_ifSees heof (by decide) ?_ fun hsquare => ?_
    · rintro t us rfl ht
      refine Ensures.bind (ensures_advance ?_)
      refine Ensures.bind ((ensures_arguments heof hrules).mono fun args ts₁ hargs => ?_)
      refine Ensures.bind (ensures_consume heof (by decide) ?_)
      rintro u us rfl hu
      have hlength : us.length ≤ fuel.length := by
        have hargs := hargs.length.1
        simp only [List.length_cons] at hfuel hargs
        omega
      exact (ih hlength _).mono fun e rest he => .call ht hargs hu he
    · rintro t us rfl ht
      refine Ensures.bind (ensures_advance ?_)
      refine Ensures.bind ((ensures_bracketed hrules).mono ?_)
      rintro i ts₃ ⟨ts₁, ts₂, h₁, hi, h₂⟩
      have hlength₃ : ts₃.length ≤ fuel.length := by
        have h₁ := h₁.length_le
        have hi := hi.length.1
        have h₂ := h₂.length_le
        simp only [List.length_cons] at hfuel
        omega
      refine ensures_ifSees heof (by decide) ?_ fun _ => ?_
      · rintro v vs rfl hv
        refine Ensures.bind (ensures_advance ?_)
        refine Ensures.bind ((ensures_bracketed hrules).mono ?_)
        rintro j ts₆ ⟨ts₄, ts₅, h₄, hj, h₅⟩
        refine Ensures.bind (ensures_consume heof (by decide) ?_)
        rintro u us rfl hu
        have hlength : us.length ≤ fuel.length := by
          have h₄ := h₄.length_le
          have hj := hj.length.1
          have h₅ := h₅.length_le
          simp only [List.length_cons] at hlength₃ h₅
          omega
        exact (ih hlength _).mono fun e rest he => .slice ht h₁ hi h₂ hv h₄ hj h₅ hu he
      · refine Ensures.bind (ensures_consume heof (by decide) ?_)
        rintro u us rfl hu
        have hlength : us.length ≤ fuel.length := Nat.le_of_succ_le hlength₃
        exact (ih hlength _).mono fun e rest he => .index ht h₁ hi h₂ hu he
    · refine Ensures.pure (.endSuffixes (ends_of_starts ?_))
      cases ts with
      | nil => rfl
      | cons t us =>
        rw [List.headD_cons] at hround hsquare
        simp [Tail.starts, hround, hsquare]

theorem ensures_chain {ℓ : Level} {operand : Parser Node} (heof : eof.kind = .eof)
    (hoperand : ∀ ts, Ensures operand ts (Reads ℓ.operand n ts)) (fuel : List Token)
    (hfuel : ts.length ≤ fuel.length) (a : Node) :
    Ensures (chain eof operand ℓ.operators fuel a) ts (Reads (.chain ℓ a) n ts) := by
  induction fuel generalizing ts a with
  | nil =>
    obtain rfl := List.length_eq_zero_iff.mp (Nat.le_zero.mp hfuel)
    exact Ensures.pure (.endChain (ends_of_starts rfl))
  | cons _ fuel ih =>
    refine Ensures.bind (ensures_peek ?_)
    cases ts with
    | nil =>
      have hnot : isOperatorOf ℓ.operators (([] : List Token).headD eof) = false := by
        rw [List.headD_nil, Bool.eq_false_iff]
        intro hj
        cases heof.symm.trans (@Grammar.kind_of_joins ℓ _ hj)
      rw [if_neg (Bool.eq_false_iff.mp hnot)]
      exact Ensures.pure (.endChain (ends_of_starts rfl))
    | cons t us =>
      split
      · next ht =>
        refine Ensures.bind (ensures_advance ?_)
        refine Ensures.bind ((hoperand us).mono fun b ts₁ hb => ?_)
        have hlength : ts₁.length ≤ fuel.length := by
          have hb := hb.length.1
          simp only [List.length_cons] at hfuel
          omega
        exact (ih hlength _).mono fun e rest he => .chain ht hb he
      · next ht => exact Ensures.pure (.endChain (ends_of_starts (Bool.eq_false_iff.mpr ht)))

theorem ensures_level (ℓ : Level) {operand : Parser Node} (heof : eof.kind = .eof)
    (hoperand : ∀ ts, Ensures operand ts (Reads ℓ.operand n ts)) (ts : List Token) :
    Ensures (do
      let first ← operand
      chain eof operand ℓ.operators (← get) first) ts (Reads (.level ℓ) n ts) := by
  refine Ensures.bind ((hoperand ts).mono fun a ts₁ ha => ?_)
  refine Ensures.bind (ensures_get ?_)
  exact (ensures_chain heof hoperand ts₁ (Nat.le_refl _) a).mono fun e rest he => .level ha he

def operatorsFrom : Level → List (List String)
  | .logical => levels
  | .equality => levels.drop 1
  | .relational => levels.drop 2
  | .additive => levels.drop 3
  | .multiplicative => levels.drop 4
  | .power => levels.drop 5

/-- The levels of the parser are those of the grammar. -/
theorem ensures_binary (heof : eof.kind = .eof) (hrules : Sound rules) (ℓ : Level)
    (ts : List Token) :
    Ensures (binary eof rules n (operatorsFrom ℓ)) ts (Reads (.level ℓ) n ts) := by
  have hpower := ensures_level .power heof (hrules.unary n)
  have hmultiplicative := ensures_level .multiplicative heof hpower
  have hadditive := ensures_level .additive heof hmultiplicative
  have hrelational := ensures_level .relational heof hadditive
  have hequality := ensures_level .equality heof hrelational
  have hlogical := ensures_level .logical heof hequality
  cases ℓ with
  | logical => exact hlogical ts
  | equality => exact hequality ts
  | relational => exact hrelational ts
  | additive => exact hadditive ts
  | multiplicative => exact hmultiplicative ts
  | power => exact hpower ts

theorem ensures_ternary (heof : eof.kind = .eof) (hrules : Sound rules) :
    Ensures (ternary eof rules n) ts (Reads .ternary n ts) := by
  refine Ensures.bind ((ensures_binary heof hrules .logical ts).mono fun c ts₁ hc => ?_)
  refine ensures_ifSees heof (by decide) ?_ fun hnot => ?_
  · rintro t us rfl ht
    refine Ensures.bind (ensures_advance ?_)
    refine Ensures.bind ((hrules.expression n us).mono fun a ts₂ ha => ?_)
    refine Ensures.bind (ensures_consume heof (by decide) ?_)
    rintro u vs rfl hu
    refine Ensures.bind ((hrules.expression n vs).mono fun b rest hb => ?_)
    exact Ensures.pure (.condition hc (.choice ht ha hu hb))
  · refine Ensures.pure (.condition hc (.noChoice (ends_of_starts ?_)))
    cases ts₁ with
    | nil => rfl
    | cons t us => exact hnot

theorem ensures_expression (heof : eof.kind = .eof) (hrules : Sound rules) :
    Ensures (Parser.expression eof rules n) ts (Reads .expression n ts) := by
  have hternary (ts : List Token) : Ensures (ternary eof rules n) ts (Reads .expression n ts) :=
    (ensures_ternary heof hrules).mono fun e rest he => .ternary he
  refine Ensures.bind (ensures_get ?_)
  split
  · next t u us =>
    split
    · next h =>
      rw [Bool.and_eq_true, beq_iff_eq] at h
      refine Ensures.bind (ensures_set ?_)
      refine Ensures.bind ((hrules.expression n us).mono fun e rest he => ?_)
      exact Ensures.pure (.assign h.1 h.2 he)
    · split
      · next h =>
        rw [Bool.and_eq_true, Bool.and_eq_true, beq_iff_eq] at h
        refine Ensures.bind (ensures_set ?_)
        refine Ensures.bind ((ensures_bracketed hrules).mono ?_)
        rintro i ts₃ ⟨ts₁, ts₂, h₁, hi, h₂⟩
        refine Ensures.bind (ensures_consume heof (by decide) ?_)
        rintro v vs rfl hv
        refine Ensures.bind (ensures_consume heof (by decide) ?_)
        rintro w ws rfl hw
        refine Ensures.bind ((hrules.expression n ws).mono fun e rest he => ?_)
        exact Ensures.pure (.assignIndex h.1.1 h.1.2 h₁ hi h₂ hv hw he)
      · exact hternary _
  · exact hternary _

/-! ## Statements -/

theorem ensures_giveBack (hrules : Sound rules) {t : Token} (ht : t.is .keyword "return")
    (hn : n.inFunction) :
    Ensures (do
      if ← endsReturn eof then return .giveBack none t.start t.stop
      let value ← rules.expression n
      return .giveBack (some value) t.start value.stop) ts (Reads .statement n (t :: ts)) := by
  refine Ensures.bind (Ensures.bind (ensures_peek ?_))
  refine Ensures.pure ?_
  split
  · next h =>
    refine Ensures.pure (.giveBackNothing ht hn (.inr ?_))
    cases ts with
    | nil => rfl
    | cons u us => exact h
  · refine Ensures.bind ((hrules.expression n ts).mono fun e rest he => ?_)
    exact Ensures.pure (.giveBack ht hn he)

theorem ensures_statement (heof : eof.kind = .eof) (hrules : Sound rules) :
    Ensures (statement eof rules n) ts (Reads .statement n ts) := by
  have hexpression (ts : List Token) :
      Ensures (rules.expression n) ts (Reads .statement n ts) :=
    (hrules.expression n ts).mono fun e rest he => .evaluate he
  refine Ensures.bind (ensures_peek ?_)
  cases ts with
  | nil =>
    have hnot (s : String) : (([] : List Token).headD eof).is .keyword s = false :=
      Token.is_of_kind heof (by decide) s
    simp only [hnot, Bool.false_eq_true, if_false]
    exact hexpression []
  | cons t us =>
    simp only [List.headD_cons]
    split
    · next ht =>
      split
      · exact Ensures.bind ensures_refuse
      · next hn =>
        refine Ensures.bind (ensures_advance ?_)
        exact ensures_giveBack hrules ht (by simpa using hn)
    · split
      · next ht =>
        split
        · exact Ensures.bind ensures_refuse
        · next hn =>
          refine Ensures.bind (ensures_advance ?_)
          exact Ensures.pure (.breakLoop ht (by simpa using hn))
      · split
        · next ht =>
          split
          · exact Ensures.bind ensures_refuse
          · next hn =>
            refine Ensures.bind (ensures_advance ?_)
            exact Ensures.pure (.continueLoop ht (by simpa using hn))
        · exact hexpression _

def atClose (eof : Token) (close : Option String) (ts : List Token) : Bool :=
  match close with
  | some s => (ts.headD eof).is .paren s
  | none => (ts.headD eof).kind == .eof

def closes (eof : Token) (close : Option String) (ts : List Token) : Bool :=
  atClose eof close ts || (ts.headD eof).kind == .eof

theorem ensures_closed {close : Option String} {P : Bool → List Token → Prop}
    (h : P (atClose eof close ts) ts) :
    Ensures (match close with
      | some s => sees eof .paren s
      | none => seesKind eof .eof) ts P := by
  cases close with
  | some s => exact ensures_sees h
  | none => exact ensures_seesKind h

/-- A statement and the statements behind the newlines that follow it. -/
theorem statements_of_newlines {ts₁ ts₂ rest : List Token} {s : Node} {ss : List Node}
    (hs : Derives .greedy .statement n ts ts₁ (.node s)) (h : Newlines ts₁ ts₂)
    (hss : Derives .greedy .statements n ts₂ rest (.nodes ss)) (hend : ts₂ = ts₁ → ss = []) :
    ∃ ts', Derives .greedy .statements n ts ts' (.nodes (s :: ss)) ∧ Newlines ts' rest := by
  cases hss with
  | noStatements => exact ⟨ts₁, .statements hs .lastStatement, h⟩
  | statements hs' hmore =>
    cases h with
    | nil => cases hend rfl
    | cons ht h => exact ⟨rest, .statements hs (.moreStatements ht h hs' hmore), .nil⟩

theorem ensures_statements (heof : eof.kind = .eof) (hrules : Sound rules) {close : Option String}
    (fuel : List Token) (hfuel : ts.length ≤ fuel.length) :
    Ensures (statements eof (statement eof rules n) close fuel) ts fun ss rest =>
      (∃ ts₁, Derives .greedy .statements n ts ts₁ (.nodes ss) ∧ Newlines ts₁ rest) ∧
        closes eof close rest ∧ (closes eof close ts → ss = []) := by
  induction fuel generalizing ts with
  | nil =>
    obtain rfl := List.length_eq_zero_iff.mp (Nat.le_zero.mp hfuel)
    exact Ensures.pure ⟨⟨[], .noStatements, .nil⟩, by simp [closes, heof], fun _ => rfl⟩
  | cons _ fuel ih =>
    refine Ensures.bind (ensures_closed ?_)
    refine Ensures.bind (ensures_seesKind ?_)
    split
    · next hclose => exact Ensures.pure ⟨⟨ts, .noStatements, .nil⟩, hclose, fun _ => rfl⟩
    · next hclose =>
      refine Ensures.bind ((ensures_statement heof hrules).mono fun s ts₁ hs => ?_)
      refine Ensures.bind (ensures_seesKind ?_)
      refine Ensures.bind (ensures_closed ?_)
      split
      · next hbehind =>
        refine Ensures.bind (ensures_dropNewlines ?_)
        have hnewlines := newlines_dropWhile ts₁
        have hlength : (ts₁.dropWhile Token.isNewline).length ≤ fuel.length := by
          have hs := hs.length.2 rfl
          have hnewlines := hnewlines.length_le
          simp only [List.length_cons] at hfuel
          omega
        refine Ensures.bind ((ih hlength).mono ?_)
        rintro ss rest ⟨⟨ts₃, hss, h₃⟩, hclosed, hnone⟩
        have hend (he : ts₁.dropWhile Token.isNewline = ts₁) : ss = [] := by
          rcases Bool.or_eq_true_iff.mp hbehind with hnewline | hat
          · cases ts₁ with
            | nil => cases heof.symm.trans (eq_of_beq hnewline)
            | cons t us =>
              have ht : t.isNewline := hnewline
              rw [List.dropWhile_cons_of_pos ht] at he
              have hle := (newlines_dropWhile us).length_le
              rw [he, List.length_cons] at hle
              omega
          · apply hnone
            rw [he, closes, hat, Bool.true_or]
        obtain ⟨ts', hall, h'⟩ := statements_of_newlines hs hnewlines hss hend
        refine Ensures.pure ⟨⟨ts', hall, h'.trans h₃⟩, hclosed, fun hc => ?_⟩
        exact (hclose hc).elim
      · exact Ensures.bind ensures_refuse

theorem ensures_statementList (heof : eof.kind = .eof) (hrules : Sound rules)
    {close : Option String} :
    Ensures (statementList eof rules n close) ts fun ss rest => ∃ ts₁ ts₂, Newlines ts ts₁ ∧
      Derives .greedy .statements n ts₁ ts₂ (.nodes ss) ∧ Newlines ts₂ rest ∧
        closes eof close rest := by
  refine Ensures.bind (ensures_skipNewlines fun ts₁ h₁ => ?_)
  refine Ensures.bind (ensures_get ?_)
  refine (ensures_statements heof hrules ts₁ (Nat.le_refl _)).mono ?_
  rintro ss rest ⟨⟨ts₂, hs, h₂⟩, hclose, -⟩
  exact ⟨ts₁, ts₂, h₁, hs, h₂, hclose⟩

theorem ensures_block (heof : eof.kind = .eof) (hrules : Sound rules) :
    Ensures (block eof rules n) ts (Reads .block n ts) := by
  refine Ensures.bind (ensures_consume heof (by decide) ?_)
  rintro t us rfl ht
  refine Ensures.bind ((ensures_statementList heof hrules).mono ?_)
  rintro ss ts₃ ⟨ts₁, ts₂, h₁, hs, h₂, -⟩
  refine Ensures.bind (ensures_consume heof (by decide) ?_)
  rintro u rest rfl hu
  exact Ensures.pure (.block ht h₁ hs h₂ hu)

theorem ensures_body (heof : eof.kind = .eof) (hrules : Sound rules) :
    Ensures (body eof rules n) ts (Reads .body n ts) := by
  refine ensures_ifSees heof (by decide) ?_ fun _ => ensures_ifSees heof (by decide) ?_ fun _ =>
    ensures_refuse
  · rintro t us rfl _
    exact (ensures_block heof hrules).mono fun b rest hb => .blockBody hb
  · rintro t us rfl ht
    refine Ensures.bind (ensures_advance ?_)
    exact (ensures_statement heof hrules).mono fun s rest hs => .statementBody ht hs

/-! ## Phrases that stand for themselves -/

theorem ensures_clauses (heof : eof.kind = .eof) (hrules : Sound rules) (fuel : List Token)
    (hfuel : ts.length ≤ fuel.length) :
    Ensures (moreCases eof rules n fuel) ts fun cs rest =>
      Derives .greedy .clauses n ts rest (.clauses cs.1 cs.2) := by
  induction fuel generalizing ts with
  | nil =>
    obtain rfl := List.length_eq_zero_iff.mp (Nat.le_zero.mp hfuel)
    exact Ensures.pure (.endClauses (ends_of_starts rfl))
  | cons _ fuel ih =>
    refine Ensures.bind (ensures_get ?_)
    cases hts : ts.dropWhile Token.isNewline with
    | nil =>
      have hnot (s : String) : (([] : List Token).headD eof).is .keyword s = false :=
        Token.is_of_kind heof (by decide) s
      simp only [hnot, Bool.false_eq_true, if_false]
      exact Ensures.pure (.endClauses (ends_of_starts (by simp [Tail.starts, hts])))
    | cons t us =>
      have hnewlines := newlines_dropWhile ts
      rw [hts] at hnewlines
      have hus : us.length ≤ fuel.length := by
        have hnewlines := hnewlines.length_le
        simp only [List.length_cons] at hfuel hnewlines
        omega
      refine Ensures.ite (fun ht => ?_) fun helif => Ensures.ite (fun ht => ?_) fun helse => ?_
      · refine Ensures.bind (ensures_dropNewlines ?_)
        rw [hts]
        refine Ensures.bind (ensures_advance ?_)
        refine Ensures.bind ((hrules.expression n us).mono fun c ts₁ hc => ?_)
        refine Ensures.bind ((ensures_body heof hrules).mono fun b ts₂ hb => ?_)
        have hlength : ts₂.length ≤ fuel.length := by
          have hc := hc.length.1
          have hb := hb.length.1
          omega
        refine Ensures.bind ((ih hlength).mono fun cs rest hcs => ?_)
        exact Ensures.pure (.elseIf hnewlines ht hc hb hcs)
      · refine Ensures.bind (ensures_dropNewlines ?_)
        rw [hts]
        refine Ensures.bind (ensures_advance ?_)
        refine Ensures.bind ((ensures_body heof hrules).mono fun b rest hb => ?_)
        exact Ensures.pure (.otherwise hnewlines ht hb)
      · refine Ensures.pure (.endClauses (ends_of_starts ?_))
        rw [List.headD_cons] at helif helse
        simp [Tail.starts, hts, helif, helse]

theorem ensures_conditional (heof : eof.kind = .eof) (hrules : Sound rules) :
    Ensures (conditional eof rules n) ts (Reads .primary n ts) := by
  refine Ensures.bind (ensures_consume heof (by decide) ?_)
  rintro t us rfl ht
  refine Ensures.bind ((hrules.expression n us).mono fun c ts₁ hc => ?_)
  refine Ensures.bind ((ensures_body heof hrules).mono fun b ts₂ hb => ?_)
  refine Ensures.bind (ensures_get ?_)
  refine Ensures.bind ((ensures_clauses heof hrules ts₂ (Nat.le_refl _)).mono ?_)
  exact fun cs rest hcs => Ensures.pure (.conditional ht hc hb hcs)

theorem ensures_forBody (heof : eof.kind = .eof) (hrules : Sound rules) {t name u v : Token}
    {us vs ts₂ : List Token} {a b : Node} {step : Option Node} (ht : t.is .keyword "for")
    (hname : name.kind = .identifier) (hu : u.is .operator "=")
    (ha : Derives .greedy .expression n us (v :: vs) (.node a))
    (hv : v.is .operator ":" ∨ v.is .keyword "to")
    (hb : Derives .greedy .expression n vs ts₂ (.node b))
    (hstep : Derives .greedy .step n ts₂ ts (.optional step)) :
    Ensures (do
      let body ← body eof rules n.loopBody
      return .forLoop name a b step body t.start body.stop) ts
      (Reads .primary n (t :: name :: u :: us)) := by
  refine Ensures.bind ((ensures_body heof hrules).mono fun body rest hbody => ?_)
  exact Ensures.pure (.forLoop ht hname hu ha hv hb hstep hbody)

theorem ensures_forLast (heof : eof.kind = .eof) (hrules : Sound rules) {t name u v : Token}
    {us : List Token} {a : Node} (ht : t.is .keyword "for") (hname : name.kind = .identifier)
    (hu : u.is .operator "=") (ha : Derives .greedy .expression n us (v :: ts) (.node a))
    (hv : v.is .operator ":" ∨ v.is .keyword "to") :
    Ensures (do
      let last ← rules.expression n
      let mut step := none
      if ← sees eof .keyword "by" then
        let _ ← advance eof
        step := some (← rules.expression n)
      let body ← body eof rules n.loopBody
      return .forLoop name a last step body t.start body.stop) ts
      (Reads .primary n (t :: name :: u :: us)) := by
  refine Ensures.bind ((hrules.expression n ts).mono fun b ts₂ hb => ?_)
  refine ensures_ifSees heof (by decide) ?_ fun _ => ?_
  · rintro w ws rfl hw
    refine Ensures.bind (ensures_advance ?_)
    refine Ensures.bind ((hrules.expression n ws).mono fun step ts₃ hstep => ?_)
    exact ensures_forBody heof hrules ht hname hu ha hv hb (.step hw hstep)
  · exact ensures_forBody heof hrules ht hname hu ha hv hb .noStep

theorem ensures_forLoop (heof : eof.kind = .eof) (hrules : Sound rules) :
    Ensures (forLoop eof rules n) ts (Reads .primary n ts) := by
  refine Ensures.bind (ensures_consume heof (by decide) ?_)
  rintro t us rfl ht
  refine Ensures.bind (ensures_consumeIdentifier heof ?_)
  rintro name us rfl hname
  refine Ensures.bind (ensures_consume heof (by decide) ?_)
  rintro u us rfl hu
  refine Ensures.bind ((hrules.expression n us).mono fun a ts₁ ha => ?_)
  refine Ensures.bind (ensures_sees (Ensures.bind (ensures_sees ?_)))
  cases ts₁ with
  | nil =>
    have hcolon : (([] : List Token).headD eof).is .operator ":" = false :=
      Token.is_of_kind heof (by decide) _
    have hto : (([] : List Token).headD eof).is .keyword "to" = false :=
      Token.is_of_kind heof (by decide) _
    rw [hcolon, hto]
    exact Ensures.bind ensures_refuse
  | cons v vs =>
    refine Ensures.ite (fun hv => ?_) fun _ => Ensures.bind ensures_refuse
    refine Ensures.bind (ensures_advance ?_)
    exact ensures_forLast heof hrules ht hname hu ha (Bool.or_eq_true_iff.mp hv)

theorem ensures_eachLoop (heof : eof.kind = .eof) (hrules : Sound rules) :
    Ensures (eachLoop eof rules n) ts (Reads .primary n ts) := by
  refine Ensures.bind (ensures_consume heof (by decide) ?_)
  rintro t us rfl ht
  refine Ensures.bind (ensures_consumeIdentifier heof ?_)
  rintro name us rfl hname
  refine Ensures.bind (ensures_consume heof (by decide) ?_)
  rintro u us rfl hu
  refine Ensures.bind ((hrules.expression n us).mono fun e ts₁ he => ?_)
  refine Ensures.bind ((ensures_body heof hrules).mono fun b rest hb => ?_)
  exact Ensures.pure (.eachLoop ht hname hu he hb)

theorem ensures_whileLoop (heof : eof.kind = .eof) (hrules : Sound rules) :
    Ensures (whileLoop eof rules n) ts (Reads .primary n ts) := by
  refine Ensures.bind (ensures_consume heof (by decide) ?_)
  rintro t us rfl ht
  refine Ensures.bind ((hrules.expression n us).mono fun c ts₁ hc => ?_)
  refine Ensures.bind ((ensures_body heof hrules).mono fun b rest hb => ?_)
  exact Ensures.pure (.whileLoop ht hc hb)

theorem ensures_moreParameters (heof : eof.kind = .eof) (fuel : List Token)
    (hfuel : ts.length ≤ fuel.length) :
    Ensures (moreParameters eof fuel) ts fun params rest =>
      Grammar.MoreParameters ts rest params := by
  induction fuel generalizing ts with
  | nil => exact Ensures.pure .nil
  | cons _ fuel ih =>
    refine ensures_ifSees heof (by decide) ?_ fun _ => Ensures.pure .nil
    rintro t us rfl ht
    refine Ensures.bind (ensures_advance ?_)
    refine Ensures.bind (ensures_skipNewlines fun ts₁ h₁ => ?_)
    refine Ensures.bind (ensures_consumeIdentifier heof ?_)
    rintro name ts₂ rfl hname
    refine Ensures.bind (ensures_skipNewlines fun ts₃ h₃ => ?_)
    have hlength : ts₃.length ≤ fuel.length := by
      have h₁ := h₁.length_le
      have h₃ := h₃.length_le
      simp only [List.length_cons] at hfuel h₁
      omega
    refine Ensures.bind ((ih hlength).mono fun params rest hparams => ?_)
    exact Ensures.pure (.cons ht h₁ hname h₃ hparams)

theorem ensures_parameters (heof : eof.kind = .eof) :
    Ensures (parameters eof) ts fun params rest => ∃ t us v, ts = t :: us ∧ t.is .paren "(" ∧
      Grammar.Parameters us (v :: rest) params ∧ v.is .paren ")" := by
  refine Ensures.bind (ensures_consume heof (by decide) ?_)
  rintro t us rfl ht
  refine Ensures.bind (ensures_skipNewlines fun ts₁ h₁ => ?_)
  have hclose {ts₂ params : List Token} (hparams : Grammar.Parameters us ts₂ params) :
      Ensures (do
        let _ ← consume eof .paren ")"
        return params) ts₂ fun params rest => ∃ t' us' v, t :: us = t' :: us' ∧
          t'.is .paren "(" ∧ Grammar.Parameters us' (v :: rest) params ∧ v.is .paren ")" := by
    refine Ensures.bind (ensures_consume heof (by decide) ?_)
    rintro v rest rfl hv
    exact Ensures.pure ⟨t, us, v, rfl, ht, hparams, hv⟩
  refine Ensures.bind (ensures_sees ?_)
  refine Ensures.ite (fun _ => ?_) fun _ => hclose (.nil h₁)
  refine Ensures.bind (ensures_consumeIdentifier heof ?_)
  rintro name ts₂ rfl hname
  refine Ensures.bind (ensures_skipNewlines fun ts₃ h₃ => ?_)
  refine Ensures.bind (ensures_get ?_)
  refine Ensures.bind ((ensures_moreParameters heof ts₃ (Nat.le_refl _)).mono ?_)
  exact fun params ts₄ hmore => hclose (.cons h₁ hname h₃ hmore)

theorem ensures_functionBody (heof : eof.kind = .eof) (hrules : Sound rules) {t : Token}
    {us : List Token} {name : Option Token} (ht : t.is .keyword "func")
    (hname : Grammar.Named us ts name) :
    Ensures (do
      let params ← parameters eof
      if ← sees eof .operator ":" then
        let _ ← advance eof
        let body ← rules.expression .functionBody
        return .function name params body true t.start body.stop
      else if ← sees eof .paren Token.openBrace then
        let body ← block eof rules .functionBody
        return .function name params body false t.start body.stop
      else refuse eof (.expected "'\x7b' or ':'")) ts (Reads .primary n (t :: us)) := by
  refine Ensures.bind ((ensures_parameters heof).mono ?_)
  rintro params rest ⟨u, ts₁, v, rfl, hu, hparams, hv⟩
  refine ensures_ifSees heof (by decide) ?_ fun _ => ensures_ifSees heof (by decide) ?_ fun _ =>
    ensures_refuse
  · rintro w ws rfl hw
    refine Ensures.bind (ensures_advance ?_)
    refine Ensures.bind ((hrules.expression .functionBody ws).mono fun body rest hbody => ?_)
    exact Ensures.pure (.functionExpression ht hname hu hparams hv hw hbody)
  · rintro w ws rfl _
    refine Ensures.bind ((ensures_block heof hrules).mono fun body rest hbody => ?_)
    exact Ensures.pure (.functionBlock ht hname hu hparams hv hbody)

theorem ensures_function (heof : eof.kind = .eof) (hrules : Sound rules) :
    Ensures (function eof rules) ts (Reads .primary n ts) := by
  refine Ensures.bind (ensures_consume heof (by decide) ?_)
  rintro t us rfl ht
  refine Ensures.bind (ensures_seesKind ?_)
  cases us with
  | nil =>
    rw [List.headD_nil, heof]
    exact ensures_functionBody heof hrules ht .none
  | cons name us =>
    refine Ensures.ite (fun hname => ?_) fun _ => ensures_functionBody heof hrules ht .none
    refine Ensures.bind (ensures_advance ?_)
    exact ensures_functionBody heof hrules ht (.some (eq_of_beq hname))

theorem ensures_primary (heof : eof.kind = .eof) (hrules : Sound rules) :
    Ensures (primary eof rules n) ts (Reads .primary n ts) := by
  refine Ensures.bind (ensures_peek ?_)
  cases ts with
  | nil =>
    have hnot (k : TokenKind) (s : String) (hk : k ≠ .eof) :
        (([] : List Token).headD eof).is k s = false := Token.is_of_kind heof (Ne.symm hk) s
    have hkind : (([] : List Token).headD eof).kind = .eof := heof
    simp only [hkind, hnot .keyword _ (by decide), hnot .paren _ (by decide)]
    exact ensures_refuse
  | cons t us =>
    rw [List.headD_cons]
    refine Ensures.ite (fun ht => ?_) fun _ => ?_
    · exact Ensures.bind (ensures_advance (Ensures.pure (.number (eq_of_beq ht))))
    refine Ensures.ite (fun ht => ?_) fun _ => ?_
    · exact Ensures.bind (ensures_advance (Ensures.pure (.text (eq_of_beq ht))))
    refine Ensures.ite (fun ht => ?_) fun _ => ?_
    · exact Ensures.bind (ensures_advance (Ensures.pure (.lookup (eq_of_beq ht))))
    refine Ensures.ite (fun ht => ?_) fun _ => ?_
    · exact Ensures.bind (ensures_advance (Ensures.pure (.null ht)))
    refine Ensures.ite (fun _ => ensures_conditional heof hrules) fun _ => ?_
    refine Ensures.ite (fun _ => ensures_forLoop heof hrules) fun _ => ?_
    refine Ensures.ite (fun _ => ensures_eachLoop heof hrules) fun _ => ?_
    refine Ensures.ite (fun _ => ensures_whileLoop heof hrules) fun _ => ?_
    refine Ensures.ite (fun _ => ensures_function heof hrules) fun _ => ?_
    refine Ensures.ite (fun ht => ?_) fun _ => ?_
    · refine Ensures.bind (ensures_advance ?_)
      refine Ensures.bind ((ensures_bracketed hrules).mono ?_)
      rintro e ts₃ ⟨ts₁, ts₂, h₁, he, h₂⟩
      refine Ensures.bind (ensures_consume heof (by decide) ?_)
      rintro u rest rfl hu
      exact Ensures.pure (.parentheses ht h₁ he h₂ hu)
    refine Ensures.ite (fun ht => ?_) fun _ => ?_
    · refine Ensures.bind (ensures_advance ?_)
      refine Ensures.bind ((ensures_arguments heof hrules).mono fun es ts₁ hes => ?_)
      refine Ensures.bind (ensures_consume heof (by decide) ?_)
      rintro u rest rfl hu
      exact Ensures.pure (.list ht hes hu)
    exact Ensures.ite (fun _ => ensures_refuse) fun _ => ensures_refuse

theorem ensures_unary (heof : eof.kind = .eof) (hrules : Sound rules) :
    Ensures (Parser.unary eof rules n) ts (Reads .unary n ts) := by
  have hsuffixed (ts : List Token) : Ensures (do
      let node ← primary eof rules n
      postfixes eof rules n (← get) node) ts (Reads .unary n ts) := by
    refine Ensures.bind ((ensures_primary heof hrules).mono fun a ts₁ ha => ?_)
    refine Ensures.bind (ensures_get ?_)
    refine (ensures_suffixes heof hrules ts₁ (Nat.le_refl _) a).mono fun e rest he => ?_
    exact .unsigned (.target ha he)
  refine Ensures.bind (ensures_peek ?_)
  cases ts with
  | nil =>
    refine Ensures.ite (fun hsign => ?_) fun _ => hsuffixed []
    cases heof.symm.trans (Grammar.kind_of_isSign hsign)
  | cons t us =>
    refine Ensures.ite (fun ht => ?_) fun _ => hsuffixed (t :: us)
    refine Ensures.bind (ensures_advance ?_)
    refine Ensures.bind ((hrules.unary n us).mono fun e rest he => ?_)
    exact Ensures.pure (.sign ht he)

end

/-! ## Programs -/

variable {eof : Token}

/-- The rules are sound up to every depth. -/
theorem sound_upTo (heof : eof.kind = .eof) (depth : Nat) : Sound (Rules.upTo eof depth) := by
  induction depth with
  | zero => exact ⟨fun _ _ => ensures_giveUp, fun _ _ => ensures_giveUp⟩
  | succ depth ih =>
    exact ⟨fun _ _ => ensures_expression heof ih, fun _ _ => ensures_unary heof ih⟩

/-- The statements of a program go on up to the end of the text. -/
theorem ensures_wholeProgram {depth : Nat} {s : TokenStream} (heof : s.eof.kind = .eof)
    (htokens : ∀ t ∈ s.tokens, t.kind ≠ .eof) :
    Ensures (program s.eof (Rules.upTo s.eof depth)) s.tokens fun block rest =>
      rest = [] ∧ Grammar.Program .greedy s block := by
  refine Ensures.bind (ensures_peek ?_)
  refine Ensures.bind ((ensures_statementList heof (sound_upTo heof depth)).mono ?_)
  rintro ss rest ⟨ts₁, ts₂, h₁, hs, h₂, hclose⟩
  have hrest : rest = [] := by
    cases rest with
    | nil => rfl
    | cons t us =>
      have hmem : t ∈ s.tokens := h₁.mem (hs.mem (h₂.mem List.mem_cons_self))
      rw [closes, atClose, Bool.or_self] at hclose
      exact (htokens t hmem (eq_of_beq hclose)).elim
  subst hrest
  exact Ensures.pure ⟨rfl, .mk h₁ hs h₂⟩

theorem ensures_program {depth : Nat} {s : TokenStream} (heof : s.eof.kind = .eof)
    (htokens : ∀ t ∈ s.tokens, t.kind ≠ .eof) :
    Ensures (program s.eof (Rules.upTo s.eof depth)) s.tokens fun block _ =>
      Grammar.Program .greedy s block :=
  (ensures_wholeProgram heof htokens).mono fun _ _ h => h.2

theorem run_of_ofTokens {depth : Nat} {s : TokenStream} {block : Node}
    (h : Node.ofTokens depth s = .ok block) :
    ∃ rest, (program s.eof (Rules.upTo s.eof depth)).run s.tokens = .ok (block, rest) := by
  unfold Node.ofTokens at h
  split at h
  · next node rest hrun =>
    obtain rfl := Except.ok.inj h
    exact ⟨rest, hrun⟩
  · cases h
  · cases h

/-- The tokens that are parsed as a program are one, all of them, and the block is its tree. -/
theorem program_of_ofTokens {depth : Nat} {s : TokenStream} {block : Node}
    (heof : s.eof.kind = .eof) (htokens : ∀ t ∈ s.tokens, t.kind ≠ .eof)
    (h : Node.ofTokens depth s = .ok block) : Grammar.Program .greedy s block := by
  obtain ⟨rest, hrun⟩ := run_of_ofTokens h
  exact ensures_program heof htokens _ _ hrun

/-- A conditional whose `else` stands behind a newline. -/
theorem program_of_ofTokens_conditional :
    let p : Position := ⟨"f", 1, 1, 0⟩
    let word (kind : TokenKind) (s : String) : Token := ⟨kind, .text s, p, p⟩
    let name (s : String) := word .identifier s
    let s : TokenStream := ⟨[word .keyword "if", name "a", word .operator ":", name "b",
      ⟨.newline, .null, p, p⟩, word .keyword "else", word .operator ":", name "c"],
      ⟨.eof, .null, p, p⟩⟩
    let block := Node.block [.conditional [(.lookup (name "a"), .lookup (name "b"))]
      (some (.lookup (name "c"))) p p] p p
    s.eof.kind = .eof ∧ (∀ t ∈ s.tokens, t.kind ≠ .eof) ∧ Node.ofTokens 8 s = .ok block ∧
      Grammar.Program .greedy s block := by
  intro p word name s block
  have htokens : ∀ t ∈ s.tokens, t.kind ≠ .eof := by decide
  have hparsed : Node.ofTokens 8 s = .ok block := by cbv
  exact ⟨rfl, htokens, hparsed, program_of_ofTokens rfl htokens hparsed⟩

end Lumen.Parser
