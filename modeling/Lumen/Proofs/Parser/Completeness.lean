import Lumen.Proofs.Grammar.Greedy
import Lumen.Proofs.Parser.Runs
import Lumen.Proofs.Parser.Soundness

/-!
# The parser accepts the whole grammar

A rule of the parser takes the tokens of a greedy derivation of its phrase and returns the tree of
the derivation, unless an assignment sign follows, which would make a part of the phrase the target
of an assignment. One lemma for each rule, given that the rules for nested phrases do so for fewer
tokens. A phrase of `k` tokens needs a depth of at most twice `k`.
-/

namespace Lumen.Parser

open Grammar (Newlines Derives Phrase Level Tail Yield Barrier Reading)

/-- The parser takes the tokens of every phrase that has fewer than `k` of them before the end. -/
def Takes (deep : Prop) (k : Nat) (x : Nesting → Parser Node) (φ : Phrase) : Prop :=
  ∀ ⦃n ts rest e⦄, ts.length < k → Derives .greedy φ n ts rest (.node e) →
    assigned rest = false → Runs deep (x n) ts e rest

theorem Takes.mono {deep deep' : Prop} {k : Nat} {x : Nesting → Parser Node} {φ : Phrase}
    (h : Takes deep k x φ) (himp : deep → deep') : Takes deep' k x φ :=
  fun _ _ _ _ hlength he hrest => (h hlength he hrest).mono himp

section

variable {eof : Token} {rules : Rules} {n : Nesting} {k : Nat} {deep : Prop}
variable {t u : Token} {ts ts₁ ts₂ mid rest : List Token}

/-! ## Expressions -/

theorem runs_bracketed (hrules : Takes deep k rules.expression .expression) {e : Node}
    (hlength : ts.length < k) (h₁ : Newlines ts ts₁)
    (he : Derives .greedy .expression n ts₁ ts₂ (.node e)) (h₂ : Newlines ts₂ rest)
    (hbreaks : breaks rest = false) (hassigned : assigned rest = false) :
    Runs deep (bracketed rules n) ts e rest := by
  have hlength₁ : ts₁.length < k := Nat.lt_of_le_of_lt h₁.length_le hlength
  apply Runs.bind (runs_skipNewlines h₁ (breaks_of_derives he (by decide)))
  apply Runs.bind (hrules hlength₁ he (assigned_of_newlines h₂ hassigned))
  exact Runs.bind (runs_skipNewlines h₂ hbreaks) Runs.pure

/-- Behind an argument there is a comma or the closing bracket. -/
theorem behind_argument {close : String} {y : Yield} (hu : u.is .paren close)
    (h : Derives .greedy .moreArguments n ts (u :: rest) y) :
    breaks ts = false ∧ assigned ts = false := by
  cases h with
  | lastArgument => exact ⟨breaks_of_is hu (by decide), assigned_of_is hu (by simp)⟩
  | moreArguments ht _ _ _ _ => exact ⟨breaks_of_is ht (by decide), assigned_of_is ht (by simp)⟩

theorem runs_moreArguments (hrules : Takes deep k rules.expression .expression) {close : String}
    (hu : u.is .paren close) (hclose : close ≠ ",") {es : List Node} (fuel : List Token)
    (hfuel : ts.length ≤ fuel.length) (hlength : ts.length ≤ k)
    (h : Derives .greedy .moreArguments n ts (u :: rest) (.nodes es)) :
    Runs deep (moreArguments eof rules n fuel) ts es (u :: rest) := by
  induction fuel generalizing ts es with
  | nil =>
    have hle := h.length.1
    simp only [List.length_cons, List.length_nil] at hle hfuel
    omega
  | cons _ fuel ih =>
    cases h with
    | lastArgument =>
      have hcomma : u.is .paren "," = false := by simp [Token.is_of_is hu, hclose]
      exact runs_unseen hcomma Runs.pure
    | moreArguments ht h₁ he h₂ hes =>
      obtain ⟨hbreaks, hassigned⟩ := behind_argument hu hes
      have hle₁ := h₁.length_le
      have hle := he.length.1
      have hle₂ := h₂.length_le
      simp only [List.length_cons] at hfuel hlength
      apply runs_seen ht
      apply Runs.bind runs_advance
      apply Runs.bind (runs_bracketed hrules (by omega) h₁ he h₂ hbreaks hassigned)
      exact Runs.bind (ih (by omega) (by omega) hes) Runs.pure

theorem runs_arguments (hrules : Takes deep k rules.expression .expression) {close : String}
    (hu : u.is .paren close) (hclose : close ∈ [")", "]"]) {es : List Node}
    (hlength : ts.length < k) (h : Derives .greedy .arguments n ts (u :: rest) (.nodes es)) :
    Runs deep (arguments eof rules n close) ts es (u :: rest) := by
  have hcomma : close ≠ "," := by
    rintro rfl
    simp at hclose
  cases h with
  | noArguments h =>
    apply Runs.bind (runs_skipNewlines h (breaks_of_is hu (by decide)))
    exact runs_seen hu Runs.pure
  | @arguments _ _ _ ts₁ ts₂ ts₃ _ e es h₁ he h₂ hes =>
    obtain ⟨hbreaks, hassigned⟩ := behind_argument hu hes
    have hle₁ := h₁.length_le
    have hle := he.length.1
    have hle₂ := h₂.length_le
    have hopen : (ts₁.headD eof).is .paren close = false := by
      obtain ⟨v, vs, rfl, hv⟩ := he.opens (by decide)
      apply hv.not_is _ _ (by decide)
      simp only [List.mem_cons, List.not_mem_nil, or_false] at hclose
      rcases hclose with rfl | rfl <;> decide
    apply Runs.bind (runs_skipNewlines h₁ (breaks_of_derives he (by decide)))
    apply runs_unseen hopen
    apply Runs.bind (runs_bracketed hrules (by omega) .nil he h₂ hbreaks hassigned)
    apply Runs.bind runs_get
    exact Runs.bind (runs_moreArguments hrules hu hcomma ts₃ (Nat.le_refl _) (by omega) hes)
      Runs.pure

theorem runs_suffixes (heof : eof.kind = .eof) (hrules : Takes deep k rules.expression .expression)
    {a e : Node} (fuel : List Token) (hfuel : ts.length ≤ fuel.length) (hlength : ts.length ≤ k)
    (h : Derives .greedy (.suffixes a) n ts rest (.node e)) :
    Runs deep (postfixes eof rules n fuel a) ts e rest := by
  induction fuel generalizing ts a with
  | nil =>
    obtain rfl := List.length_eq_zero_iff.mp (Nat.le_zero.mp hfuel)
    cases h with
    | endSuffixes _ => exact Runs.pure
  | cons _ fuel ih =>
    cases h with
    | endSuffixes hends =>
      have hstarts := hends rfl
      have hparen : TokenKind.paren ≠ .eof := by decide
      have hnot (s : String) (hs : s = "(" ∨ s = "[") : (rest.headD eof).is .paren s = false := by
        rw [headD_is heof hparen]
        cases rest with
        | nil => rfl
        | cons t us => rcases hs with rfl | rfl <;> simp_all [Tail.starts]
      exact runs_unseen (hnot _ (.inl rfl)) (runs_unseen (hnot _ (.inr rfl)) Runs.pure)
    | call ht hargs hu h =>
      have hle := hargs.length.1
      simp only [List.length_cons] at hfuel hlength hle
      apply runs_seen ht
      apply Runs.bind runs_advance
      apply Runs.bind (runs_arguments hrules hu (by decide) (by omega) hargs)
      apply Runs.bind (runs_consume hu)
      exact ih (by omega) (by omega) h
    | index ht h₁ hi h₂ hu h =>
      have hle₁ := h₁.length_le
      have hle := hi.length.1
      have hle₂ := h₂.length_le
      simp only [List.length_cons] at hfuel hlength hle₂
      apply runs_unseen (by simp [Token.is_of_is ht])
      apply runs_seen ht
      apply Runs.bind runs_advance
      apply Runs.bind
        (runs_bracketed hrules (by omega) h₁ hi h₂ (breaks_of_is hu (by decide))
          (assigned_of_is hu (by simp)))
      apply runs_unseen (by simp [Token.is_of_is hu])
      apply Runs.bind (runs_consume hu)
      exact ih (by omega) (by omega) h
    | slice ht h₁ hi h₂ hv h₃ hj h₄ hu h =>
      have hle₁ := h₁.length_le
      have hle := hi.length.1
      have hle₂ := h₂.length_le
      have hle₃ := h₃.length_le
      have hle' := hj.length.1
      have hle₄ := h₄.length_le
      simp only [List.length_cons] at hfuel hlength hle₂ hle₄
      apply runs_unseen (by simp [Token.is_of_is ht])
      apply runs_seen ht
      apply Runs.bind runs_advance
      apply Runs.bind
        (runs_bracketed hrules (by omega) h₁ hi h₂ (breaks_of_is hv (by decide))
          (assigned_of_is hv (by simp)))
      apply runs_seen hv
      apply Runs.bind runs_advance
      apply Runs.bind
        (runs_bracketed hrules (by omega) h₃ hj h₄ (breaks_of_is hu (by decide))
          (assigned_of_is hu (by simp)))
      apply Runs.bind (runs_consume hu)
      exact ih (by omega) (by omega) h

theorem assigned_of_tail (τ : Tail) (left : Node) {y : Yield}
    (h : Derives .greedy (τ.phrase left) n ts rest y) (hrest : assigned rest = false) :
    assigned ts = false := by
  rcases h.eq_or_starts τ left with rfl | hstarts
  · exact hrest
  · exact assigned_of_starts hstarts

theorem runs_chain (heof : eof.kind = .eof) {ℓ : Level} {operand : Nesting → Parser Node}
    (hoperand : Takes deep k operand ℓ.operand) {a e : Node} (fuel : List Token)
    (hfuel : ts.length ≤ fuel.length) (hlength : ts.length < k)
    (h : Derives .greedy (.chain ℓ a) n ts rest (.node e)) (hrest : assigned rest = false) :
    Runs deep (chain eof (operand n) ℓ.operators fuel a) ts e rest := by
  induction fuel generalizing ts a with
  | nil =>
    obtain rfl := List.length_eq_zero_iff.mp (Nat.le_zero.mp hfuel)
    cases h with
    | endChain _ => exact Runs.pure
  | cons _ fuel ih =>
    apply Runs.bind runs_peek
    cases h with
    | endChain hends =>
      apply Runs.ite_neg _ Runs.pure
      cases rest with
      | nil =>
        intro hjoins
        cases heof.symm.trans (@Grammar.kind_of_joins ℓ _ hjoins)
      | cons t us => exact Bool.eq_false_iff.mp (hends rfl)
    | chain ht hb h =>
      have hle := hb.length.1
      simp only [List.length_cons] at hfuel hlength
      apply Runs.ite_pos ht
      apply Runs.bind runs_advance
      apply Runs.bind (hoperand (by omega) hb (assigned_of_tail (.chain ℓ) _ h hrest))
      exact ih (by omega) (by omega) h

theorem takes_level (heof : eof.kind = .eof) (ℓ : Level) {operand : Nesting → Parser Node}
    (hoperand : Takes deep k operand ℓ.operand) :
    Takes deep k (fun n => do
      let first ← operand n
      chain eof (operand n) ℓ.operators (← get) first) (.level ℓ) := by
  intro n ts rest e hlength h hrest
  cases h with
  | @level _ _ _ _ ts₁ _ _ _ ha h =>
    have hle := ha.length.1
    apply Runs.bind (hoperand hlength ha (assigned_of_tail (.chain ℓ) _ h hrest))
    apply Runs.bind runs_get
    exact runs_chain heof hoperand ts₁ (Nat.le_refl _) (by omega) h hrest

theorem takes_binary (heof : eof.kind = .eof) (hunary : Takes deep k rules.unary .unary) :
    Takes deep k (fun n => binary eof rules n levels) (.level .logical) := by
  have hpower := takes_level heof .power hunary
  have hmultiplicative := takes_level heof .multiplicative hpower
  have hadditive := takes_level heof .additive hmultiplicative
  have hrelational := takes_level heof .relational hadditive
  have hequality := takes_level heof .equality hrelational
  exact takes_level heof .logical hequality

theorem takes_ternary (heof : eof.kind = .eof) (hunary : Takes deep (k + 1) rules.unary .unary)
    (hrules : Takes deep k rules.expression .expression) :
    Takes deep (k + 1) (ternary eof rules) .ternary := by
  intro n ts rest e hlength h hrest
  cases h with
  | condition hc hchoice =>
    have hlt := hc.length.2 rfl
    apply Runs.bind
      (takes_binary heof hunary hlength hc (assigned_of_tail .choice _ hchoice hrest))
    cases hchoice with
    | noChoice hends =>
      apply runs_unseen _ Runs.pure
      rw [headD_is heof (by decide)]
      exact hends rfl
    | choice ht ha hu hb =>
      have hle := ha.length.1
      simp only [List.length_cons] at hlt hle
      apply runs_seen ht
      apply Runs.bind runs_advance
      apply Runs.bind (hrules (by omega) ha (assigned_of_is hu (by simp)))
      apply Runs.bind (runs_consume hu)
      exact Runs.bind (hrules (by omega) hb hrest) Runs.pure

/-! ## Lookahead -/

def startsOperand : Phrase → Bool
  | .ternary | .level _ | .unary | .suffixed => true
  | _ => false

/-- What starts with a name is the name and what stands behind it. -/
theorem suffixes_of_name {r : Reading} {φ : Phrase} {y : Yield} (h : Derives r φ n ts rest y)
    (hφ : startsOperand φ) (hts : ts = t :: mid) (ht : t.kind = .identifier) :
    ∃ a ts₁ y', Derives r (.suffixes a) n mid ts₁ y' ∧ (Barrier ts₁ → ts₁ = rest) := by
  induction h with
  | condition _ hchoice ih _ =>
    obtain ⟨a, ts₁, y', h, hend⟩ := ih rfl hts
    refine ⟨a, ts₁, y', h, fun hb => ?_⟩
    obtain rfl := hend hb
    exact hchoice.eq_of_barrier .choice _ hb
  | @level _ _ ℓ _ _ _ _ _ _ hchain ih _ =>
    have hoperand : startsOperand ℓ.operand := by cases ℓ <;> rfl
    obtain ⟨a, ts₁, y', h, hend⟩ := ih hoperand hts
    refine ⟨a, ts₁, y', h, fun hb => ?_⟩
    obtain rfl := hend hb
    exact hchain.eq_of_barrier (.chain ℓ) _ hb
  | sign hsign _ _ =>
    obtain ⟨rfl, -⟩ := List.cons.inj hts
    cases ht.symm.trans (Grammar.kind_of_isSign hsign)
  | unsigned _ ih => exact ih rfl hts
  | @target _ _ _ ts₁ rest a e hprimary h _ _ =>
    subst hts
    have hnot {kind : TokenKind} {s : String} (hkind : kind ≠ .identifier)
        (hk : t.is kind s) : False := hkind ((Token.kind_of_is hk).symm.trans ht)
    cases hprimary with
    | lookup _ => exact ⟨_, _, _, h, fun _ => rfl⟩
    | number hk | text hk => cases ht.symm.trans hk
    | null hk | parentheses hk | list hk | conditional hk | forLoop hk | eachLoop hk
    | whileLoop hk | functionBlock hk | functionExpression hk =>
      exact (hnot (by decide) hk).elim
  | _ => cases hφ

/-- The calls and index reads of a phrase end before an assignment sign, and so does the phrase. -/
theorem not_assigned_behind {a : Node} {y : Yield}
    (h : Derives .greedy (.suffixes a) n ts mid y) (hend : Barrier mid → mid = rest)
    (hrest : assigned rest = false) : assigned ts = false := by
  rw [Bool.eq_false_iff]
  intro hassigned
  have hbarrier := barrier_of_assigned hassigned
  obtain rfl := h.eq_of_barrier .suffixes _ hbarrier
  obtain rfl := hend hbarrier
  exact Bool.false_ne_true (hrest.symm.trans hassigned)

/-- What is derived without an assignment does not look like one. -/
theorem not_assigns {y : Yield} (h : Derives .greedy .ternary n (t :: u :: ts) rest y)
    (ht : t.kind = .identifier) (hrest : assigned rest = false) :
    u.is .operator "=" = false ∧ (u.is .paren "[" → assignsBehind 0 (u :: ts) = false) := by
  obtain ⟨a, ts₁, y', hsuffixes, hend⟩ := suffixes_of_name h rfl rfl ht
  refine ⟨not_assigned_behind hsuffixes hend hrest, fun hu => ?_⟩
  have hbehind : assignsBehind 0 (u :: ts) = assignsBehind 1 ts :=
    Grammar.assignsBehind_opening (by simp [Token.isOpening, hu])
  rw [hbehind]
  cases hsuffixes with
  | endSuffixes hends => cases (Tail.starts_suffixes (.inr hu)).symm.trans (hends rfl)
  | call ht _ _ _ =>
    rw [Token.is_of_is hu] at ht
    cases ht
  | index _ h₁ hi h₂ hv h =>
    rw [h₁.balanced 1 Nat.one_pos, hi.balanced 1 Nat.one_pos, h₂.balanced 1 Nat.one_pos,
      Grammar.assignsBehind_last (by simp [Token.isClosing, hv])]
    exact not_assigned_behind h hend hrest
  | slice _ h₁ hi h₂ hv h₃ hj h₄ hw h =>
    have hcolon := Token.kind_of_is hv
    rw [h₁.balanced 1 Nat.one_pos, hi.balanced 1 Nat.one_pos, h₂.balanced 1 Nat.one_pos,
      Grammar.assignsBehind_of_kind (by simp [hcolon]), h₃.balanced 1 Nat.one_pos,
      hj.balanced 1 Nat.one_pos, h₄.balanced 1 Nat.one_pos,
      Grammar.assignsBehind_last (by simp [Token.isClosing, hw])]
    exact not_assigned_behind h hend hrest

theorem takes_expression (heof : eof.kind = .eof) (hunary : Takes deep (k + 1) rules.unary .unary)
    (hrules : Takes deep k rules.expression .expression) :
    Takes deep (k + 1) (Parser.expression eof rules) .expression := by
  intro n ts rest e hlength h hrest
  apply Runs.bind runs_get
  cases h with
  | assign ht hu h =>
    simp only [List.length_cons] at hlength
    apply Runs.ite_pos (by simp [ht, hu])
    apply Runs.bind runs_set
    exact Runs.bind (hrules (by omega) h hrest) Runs.pure
  | @assignIndex _ _ _ u us _ _ _ _ _ _ _ _ ht hu h₁ hi h₂ hv hw h =>
    have hle₁ := h₁.length_le
    have hle := hi.length.1
    have hle₂ := h₂.length_le
    simp only [List.length_cons] at hlength hle₂
    have hassigns : assignsBehind 0 (u :: us) = true := by
      rw [Grammar.assignsBehind_opening (by simp [Token.isOpening, hu]), h₁.balanced 1 Nat.one_pos,
        hi.balanced 1 Nat.one_pos, h₂.balanced 1 Nat.one_pos,
        Grammar.assignsBehind_last (by simp [Token.isClosing, hv])]
      exact hw
    apply Runs.ite_neg (by simp [Token.is_of_is hu])
    apply Runs.ite_pos (by simp [ht, hu, hassigns])
    apply Runs.bind runs_set
    apply Runs.bind
      (runs_bracketed hrules (by omega) h₁ hi h₂ (breaks_of_is hv (by decide))
        (assigned_of_is hv (by simp)))
    apply Runs.bind (runs_consume hv)
    apply Runs.bind (runs_consume hw)
    exact Runs.bind (hrules (by omega) h hrest) Runs.pure
  | ternary h =>
    have hternary := takes_ternary heof hunary hrules hlength h hrest
    cases ts with
    | nil => exact hternary
    | cons t ts =>
      cases ts with
      | nil => exact hternary
      | cons u ts =>
        by_cases ht : t.kind = .identifier
        · obtain ⟨hequals, hsquare⟩ := not_assigns h ht hrest
          apply Runs.ite_neg (by simp [hequals])
          apply Runs.ite_neg _ hternary
          intro hc
          simp only [Bool.and_eq_true] at hc
          exact Bool.false_ne_true ((hsquare hc.1.2).symm.trans hc.2)
        · apply Runs.ite_neg (by simp [ht])
          exact Runs.ite_neg (by simp [ht]) hternary

/-! ## Statements -/

theorem runs_endsReturn (heof : eof.kind = .eof) :
    Runs deep (endsReturn eof) ts (Grammar.endsStatement ts) ts := by
  apply Runs.bind runs_peek
  cases ts with
  | nil =>
    have hend : (([] : List Token).headD eof).kind = .eof := heof
    simp only [hend, beq_self_eq_true, Bool.or_true, Bool.true_or]
    exact Runs.pure
  | cons t ts => exact Runs.pure

theorem takes_statement (heof : eof.kind = .eof)
    (hrules : Takes deep k rules.expression .expression) :
    Takes deep k (statement eof rules) .statement := by
  intro n ts rest e hlength h hrest
  apply Runs.bind runs_peek
  cases h with
  | giveBackNothing ht hfunction hreturns =>
    apply Runs.ite_pos ht
    apply Runs.ite_neg (by simp [hfunction])
    apply Runs.bind runs_advance
    apply Runs.bind (runs_endsReturn heof)
    exact Runs.ite_pos (hreturns.resolve_left (by decide)) Runs.pure
  | giveBack ht hfunction h =>
    simp only [List.length_cons] at hlength
    obtain ⟨u, us, rfl, hu⟩ := h.opens (by decide)
    apply Runs.ite_pos ht
    apply Runs.ite_neg (by simp [hfunction])
    apply Runs.bind runs_advance
    have hends : Grammar.endsStatement (u :: us) = false := by
      simp [Grammar.endsStatement, hu.not_isNewline, hu.kind_ne (.inr rfl),
        hu.not_is .paren Token.closeBrace (by decide) (by decide),
        hu.not_is .keyword "elif" (by decide) (by decide),
        hu.not_is .keyword "else" (by decide) (by decide)]
    apply Runs.bind (runs_endsReturn heof)
    apply Runs.ite_neg (Bool.eq_false_iff.mp hends)
    exact Runs.bind (hrules (by omega) h hrest) Runs.pure
  | breakLoop ht hloop =>
    apply Runs.ite_neg (by simp [Token.is_of_is ht])
    apply Runs.ite_pos ht
    apply Runs.ite_neg (by simp [hloop])
    exact Runs.bind runs_advance Runs.pure
  | continueLoop ht hloop =>
    apply Runs.ite_neg (by simp [Token.is_of_is ht])
    apply Runs.ite_neg (by simp [Token.is_of_is ht])
    apply Runs.ite_pos ht
    apply Runs.ite_neg (by simp [hloop])
    exact Runs.bind runs_advance Runs.pure
  | evaluate h =>
    obtain ⟨t, us, rfl, ht⟩ := h.opens (by decide)
    apply Runs.ite_neg (by simp [ht.not_is .keyword "return" (by decide) (by decide)])
    apply Runs.ite_neg (by simp [ht.not_is .keyword "break" (by decide) (by decide)])
    apply Runs.ite_neg (by simp [ht.not_is .keyword "continue" (by decide) (by decide)])
    exact hrules hlength h hrest

theorem runs_closed {close : Option String} :
    Runs deep (match close with
      | some s => sees eof .paren s
      | none => seesKind eof .eof) ts (atClose eof close ts) ts := by
  cases close with
  | some s => exact runs_sees
  | none => exact runs_seesKind

theorem of_atClose {close : Option String} (h : atClose eof close ts) :
    breaks ts = false ∧ assigned ts = false := by
  cases ts with
  | nil => exact ⟨rfl, rfl⟩
  | cons t us =>
    cases close with
    | none =>
      have hkind : t.kind = .eof := eq_of_beq h
      exact ⟨Token.isNewline_of_kind hkind, Token.is_of_kind hkind (by decide) _⟩
    | some s =>
      have ht : t.is .paren s := h
      exact ⟨breaks_of_is ht (by decide), assigned_of_is ht (by simp)⟩

/-- No statement starts where a list of statements ends. -/
theorem not_closes {close : Option String} (hclose : close = none ∨ close = some Token.closeBrace)
    (ht : Phrase.statement.Opens t) : closes eof close (t :: ts) = false := by
  have hkind : (t.kind == .eof) = false := beq_false_of_ne (ht.kind_ne (.inr rfl))
  rcases hclose with rfl | rfl
  · exact Bool.or_eq_false_iff.mpr ⟨hkind, hkind⟩
  · exact Bool.or_eq_false_iff.mpr ⟨ht.not_is _ _ (by decide) (by decide), hkind⟩

/-- Behind a statement the list ends, or there are newlines and the list goes on behind them. -/
theorem behind_statement {close : Option String} {ss : List Node} (hclosed : atClose eof close rest)
    (h : Derives .greedy .moreStatements n ts mid (.nodes ss)) (hmid : Newlines mid rest) :
    ((ts.headD eof).kind == .newline || atClose eof close ts) = true ∧ assigned ts = false ∧
      ∃ ts₁ mid', Newlines ts ts₁ ∧ breaks ts₁ = false ∧
        Derives .greedy .statements n ts₁ mid' (.nodes ss) ∧ Newlines mid' rest := by
  obtain ⟨hbreaks, hassigned⟩ := of_atClose hclosed
  cases h with
  | lastStatement =>
    refine ⟨?_, assigned_of_newlines hmid hassigned, rest, rest, hmid, hbreaks, .noStatements, .nil⟩
    cases hmid with
    | nil => simp [hclosed]
    | cons ht _ => simp [Grammar.kind_of_isNewline ht]
  | moreStatements ht hnewlines hs hss =>
    have hkind := Grammar.kind_of_isNewline ht
    exact ⟨by simp [hkind], Token.is_of_kind hkind (by decide) _, _, mid, .cons ht hnewlines,
      breaks_of_derives hs (by decide), .statements hs hss, hmid⟩

theorem runs_statements (heof : eof.kind = .eof) (hrules : Takes deep k rules.expression .expression)
    {close : Option String} (hclose : close = none ∨ close = some Token.closeBrace)
    (hclosed : atClose eof close rest) {ss : List Node} (fuel : List Token)
    (hfuel : ts.length ≤ fuel.length) (hlength : ts.length < k) (hbreaks : breaks ts = false)
    (h : Derives .greedy .statements n ts mid (.nodes ss)) (hmid : Newlines mid rest) :
    Runs deep (statements eof (statement eof rules n) close fuel) ts ss rest := by
  induction fuel generalizing ts mid ss with
  | nil =>
    obtain rfl := List.length_eq_zero_iff.mp (Nat.le_zero.mp hfuel)
    cases h with
    | noStatements =>
      cases hmid
      exact Runs.pure
    | statements hs _ => exact (Nat.not_lt_zero _ (hs.length.2 rfl)).elim
  | cons _ fuel ih =>
    apply Runs.bind runs_closed
    apply Runs.bind runs_seesKind
    cases h with
    | noStatements =>
      cases hmid with
      | nil => exact Runs.ite_pos (by simp [hclosed]) Runs.pure
      | cons ht _ => cases hbreaks.symm.trans ht
    | @statements _ _ _ us _ s ss hs hmore =>
      obtain ⟨hbehind, hassigned, ts₁, mid', hnewlines, hbreaks₁, hss, hmid'⟩ :=
        behind_statement hclosed hmore hmid
      have hlt := hs.length.2 rfl
      have hle := hnewlines.length_le
      simp only [List.length_cons] at hfuel
      obtain ⟨t, ts, rfl, ht⟩ := hs.opens (by decide)
      apply Runs.ite_neg (Bool.eq_false_iff.mp (not_closes hclose ht))
      apply Runs.bind (takes_statement heof hrules hlength hs hassigned)
      apply Runs.bind runs_seesKind
      apply Runs.bind runs_closed
      apply Runs.ite_pos hbehind
      apply Runs.bind (runs_skipNewlines hnewlines hbreaks₁)
      exact Runs.bind (ih (by omega) (by omega) hbreaks₁ hss hmid') Runs.pure

theorem runs_statementList (heof : eof.kind = .eof)
    (hrules : Takes deep k rules.expression .expression) {close : Option String}
    (hclose : close = none ∨ close = some Token.closeBrace) (hclosed : atClose eof close rest)
    {ss : List Node} (hlength : ts.length < k) (h₁ : Newlines ts ts₁)
    (h : Derives .greedy .statements n ts₁ ts₂ (.nodes ss)) (h₂ : Newlines ts₂ rest) :
    Runs deep (statementList eof rules n close) ts ss rest := by
  have hstart : ∃ us us', Newlines ts us ∧ breaks us = false ∧
      Derives .greedy .statements n us us' (.nodes ss) ∧ Newlines us' rest := by
    cases h with
    | noStatements => exact ⟨rest, rest, h₁.trans h₂, (of_atClose hclosed).1, .noStatements, .nil⟩
    | statements hs hss =>
      exact ⟨ts₁, ts₂, h₁, breaks_of_derives hs (by decide), .statements hs hss, h₂⟩
  obtain ⟨us, us', hnewlines, hbreaks, hs, hus'⟩ := hstart
  have hle := hnewlines.length_le
  apply Runs.bind (runs_skipNewlines hnewlines hbreaks)
  apply Runs.bind runs_get
  exact runs_statements heof hrules hclose hclosed us (Nat.le_refl _) (by omega) hbreaks hs hus'

theorem takes_block (heof : eof.kind = .eof)
    (hrules : Takes deep k rules.expression .expression) :
    Takes deep k (block eof rules) .block := by
  intro n ts rest e hlength h hrest
  cases h with
  | @block _ _ _ _ _ _ u _ _ ht h₁ hs h₂ hu =>
    have hclosed : atClose eof (some Token.closeBrace) (u :: rest) := hu
    simp only [List.length_cons] at hlength
    apply Runs.bind (runs_consume ht)
    apply Runs.bind (runs_statementList heof hrules (.inr rfl) hclosed (by omega) h₁ hs h₂)
    exact Runs.bind (runs_consume hu) Runs.pure

theorem takes_body (heof : eof.kind = .eof) (hrules : Takes deep k rules.expression .expression) :
    Takes deep k (body eof rules) .body := by
  intro n ts rest e hlength h hrest
  cases h with
  | blockBody h =>
    have hblock := takes_block heof hrules hlength h hrest
    cases h with
    | block ht _ _ _ _ => exact runs_seen ht hblock
  | statementBody ht h =>
    simp only [List.length_cons] at hlength
    apply runs_unseen (by simp [Token.is_of_is ht])
    apply runs_seen ht
    apply Runs.bind runs_advance
    exact takes_statement heof hrules (by omega) h hrest

/-! ## Phrases that stand for themselves -/

theorem assigned_of_body {y : Yield} (h : Derives .greedy .body n ts rest y) :
    assigned ts = false := by
  cases h with
  | blockBody h =>
    cases h with
    | block ht _ _ _ _ => exact assigned_of_is ht (by simp)
  | statementBody ht _ => exact assigned_of_is ht (by simp)

theorem assigned_of_step {y : Yield} (h : Derives .greedy .step n ts rest y)
    (hrest : assigned rest = false) : assigned ts = false := by
  cases h with
  | noStep => exact hrest
  | step ht _ => exact assigned_of_is ht (by simp)

theorem runs_clauses (heof : eof.kind = .eof) (hrules : Takes deep k rules.expression .expression)
    {cs : List (Node × Node)} {otherwise : Option Node} (fuel : List Token)
    (hfuel : ts.length ≤ fuel.length) (hlength : ts.length < k)
    (h : Derives .greedy .clauses n ts rest (.clauses cs otherwise))
    (hrest : assigned rest = false) :
    Runs deep (moreCases eof rules n fuel) ts (cs, otherwise) rest := by
  induction fuel generalizing ts cs otherwise with
  | nil =>
    obtain rfl := List.length_eq_zero_iff.mp (Nat.le_zero.mp hfuel)
    cases h with
    | endClauses _ => exact Runs.pure
    | elseIf hnewlines _ _ _ _ => cases hnewlines
    | otherwise hnewlines _ _ => cases hnewlines
  | cons _ fuel ih =>
    apply Runs.bind runs_get
    have hnext {t : Token} {us : List Token} (h : Newlines ts (t :: us))
        (hbreaks : breaks (t :: us) = false) : (ts.dropWhile Token.isNewline).headD eof = t := by
      rw [h.dropWhile, dropWhile_of_breaks hbreaks]
      rfl
    cases h with
    | endClauses hends =>
      have hnot (s : String) (hs : s = "elif" ∨ s = "else") :
          ((rest.dropWhile Token.isNewline).headD eof).is .keyword s = false := by
        rw [headD_is heof (by decide)]
        have hstarts := hends rfl
        rw [Tail.starts] at hstarts
        cases hts : rest.dropWhile Token.isNewline with
        | nil => rfl
        | cons t us => rcases hs with rfl | rfl <;> simp_all
      apply Runs.ite_neg (Bool.eq_false_iff.mp (hnot _ (.inl rfl)))
      exact Runs.ite_neg (Bool.eq_false_iff.mp (hnot _ (.inr rfl))) Runs.pure
    | elseIf hnewlines ht hc hb h =>
      have hle := hnewlines.length_le
      have hle₁ := hc.length.1
      have hle₂ := hb.length.1
      simp only [List.length_cons] at hfuel hle
      rw [hnext hnewlines (breaks_of_is ht (by decide))]
      apply Runs.ite_pos ht
      apply Runs.bind (runs_skipNewlines hnewlines (breaks_of_is ht (by decide)))
      apply Runs.bind runs_advance
      apply Runs.bind (hrules (by omega) hc (assigned_of_body hb))
      apply Runs.bind
        (takes_body heof hrules (by omega) hb (assigned_of_tail .clauses (.lookup eof) h hrest))
      exact Runs.bind (ih (by omega) (by omega) h) Runs.pure
    | otherwise hnewlines ht hb =>
      have hle := hnewlines.length_le
      simp only [List.length_cons] at hle
      rw [hnext hnewlines (breaks_of_is ht (by decide))]
      apply Runs.ite_neg (by simp [Token.is_of_is ht])
      apply Runs.ite_pos ht
      apply Runs.bind (runs_skipNewlines hnewlines (breaks_of_is ht (by decide)))
      apply Runs.bind runs_advance
      exact Runs.bind (takes_body heof hrules (by omega) hb hrest) Runs.pure

theorem runs_conditional (heof : eof.kind = .eof)
    (hrules : Takes deep k rules.expression .expression) {c b : Node} {cs : List (Node × Node)}
    {otherwise : Option Node} (hlength : ts.length < k) (ht : t.is .keyword "if")
    (hc : Derives .greedy .expression n ts ts₁ (.node c))
    (hb : Derives .greedy .body n ts₁ ts₂ (.node b))
    (hclauses : Derives .greedy .clauses n ts₂ rest (.clauses cs otherwise))
    (hrest : assigned rest = false) :
    Runs deep (conditional eof rules n) (t :: ts) (.conditional ((c, b) :: cs) otherwise t.start
      (Grammar.lastBody b cs otherwise).stop) rest := by
  have hle₁ := hc.length.1
  have hle₂ := hb.length.1
  apply Runs.bind (runs_consume ht)
  apply Runs.bind (hrules hlength hc (assigned_of_body hb))
  apply Runs.bind (takes_body heof hrules (by omega) hb
    (assigned_of_tail .clauses (.lookup eof) hclauses hrest))
  apply Runs.bind runs_get
  exact Runs.bind
    (runs_clauses heof hrules ts₂ (Nat.le_refl _) (by omega) hclauses hrest) Runs.pure

theorem runs_forLoop (heof : eof.kind = .eof) (hrules : Takes deep k rules.expression .expression)
    {name v : Token} {ts₃ : List Token} {a b body : Node} {step : Option Node}
    (hlength : ts.length < k) (ht : t.is .keyword "for") (hname : name.kind = .identifier)
    (hu : u.is .operator "=") (ha : Derives .greedy .expression n ts (v :: ts₁) (.node a))
    (hv : v.is .operator ":" ∨ v.is .keyword "to")
    (hb : Derives .greedy .expression n ts₁ ts₂ (.node b))
    (hstep : Derives .greedy .step n ts₂ ts₃ (.optional step))
    (hbody : Derives .greedy .body n.loopBody ts₃ rest (.node body))
    (hrest : assigned rest = false) :
    Runs deep (forLoop eof rules n) (t :: name :: u :: ts)
      (.forLoop name a b step body t.start body.stop) rest := by
  have hle := ha.length.1
  have hle₁ := hb.length.1
  have hle₂ := hstep.length.1
  simp only [List.length_cons] at hle
  have hassigned : assigned (v :: ts₁) = false := by
    rcases hv with hv | hv <;> exact assigned_of_is hv (by simp)
  have hbodyAssigned := assigned_of_body hbody
  have hbodyRuns := takes_body heof hrules (by omega) hbody hrest
  apply Runs.bind (runs_consume ht)
  apply Runs.bind (runs_consumeIdentifier hname)
  apply Runs.bind (runs_consume hu)
  apply Runs.bind (hrules hlength ha hassigned)
  apply Runs.bind runs_sees
  apply Runs.bind runs_sees
  apply Runs.ite_pos (Bool.or_eq_true_iff.mpr hv)
  apply Runs.bind runs_advance
  apply Runs.bind (hrules (by omega) hb (assigned_of_step hstep hbodyAssigned))
  cases hstep with
  | noStep =>
    have hby : (ts₂.headD eof).is .keyword "by" = false := by
      rw [headD_is heof (by decide)]
      cases hbody with
      | blockBody hblock =>
        cases hblock with
        | block hbrace _ _ _ _ => simp [Token.is_of_is hbrace]
      | statementBody hcolon _ => simp [Token.is_of_is hcolon]
    apply runs_unseen hby
    exact Runs.bind hbodyRuns Runs.pure
  | step hw hstep =>
    simp only [List.length_cons] at hle₁
    apply runs_seen hw
    apply Runs.bind runs_advance
    apply Runs.bind (hrules (by omega) hstep hbodyAssigned)
    exact Runs.bind hbodyRuns Runs.pure

theorem runs_eachLoop (heof : eof.kind = .eof) (hrules : Takes deep k rules.expression .expression)
    {name : Token} {e body : Node} (hlength : ts.length < k) (ht : t.is .keyword "each")
    (hname : name.kind = .identifier) (hu : u.is .keyword "in")
    (he : Derives .greedy .expression n ts ts₁ (.node e))
    (hbody : Derives .greedy .body n.loopBody ts₁ rest (.node body))
    (hrest : assigned rest = false) :
    Runs deep (eachLoop eof rules n) (t :: name :: u :: ts)
      (.eachLoop name e body t.start body.stop) rest := by
  have hle := he.length.1
  apply Runs.bind (runs_consume ht)
  apply Runs.bind (runs_consumeIdentifier hname)
  apply Runs.bind (runs_consume hu)
  apply Runs.bind (hrules hlength he (assigned_of_body hbody))
  exact Runs.bind (takes_body heof hrules (by omega) hbody hrest) Runs.pure

theorem runs_whileLoop (heof : eof.kind = .eof) (hrules : Takes deep k rules.expression .expression)
    {c body : Node} (hlength : ts.length < k) (ht : t.is .keyword "while")
    (hc : Derives .greedy .expression n ts ts₁ (.node c))
    (hbody : Derives .greedy .body n.loopBody ts₁ rest (.node body))
    (hrest : assigned rest = false) :
    Runs deep (whileLoop eof rules n) (t :: ts) (.whileLoop c body t.start body.stop) rest := by
  have hle := hc.length.1
  apply Runs.bind (runs_consume ht)
  apply Runs.bind (hrules hlength hc (assigned_of_body hbody))
  exact Runs.bind (takes_body heof hrules (by omega) hbody hrest) Runs.pure

/-- Behind a parameter there is a comma or the closing bracket. -/
theorem breaks_of_moreParameters {params : List Token} (hu : u.is .paren ")")
    (h : Grammar.MoreParameters ts (u :: rest) params) : breaks ts = false := by
  cases h with
  | nil => exact breaks_of_is hu (by decide)
  | cons ht _ _ _ _ => exact breaks_of_is ht (by decide)

theorem breaks_of_identifier (ht : t.kind = .identifier) : breaks (t :: ts) = false :=
  Token.isNewline_of_kind ht

theorem runs_moreParameters (hu : u.is .paren ")") {params : List Token} (fuel : List Token)
    (hfuel : ts.length ≤ fuel.length) (h : Grammar.MoreParameters ts (u :: rest) params) :
    Runs deep (moreParameters eof fuel) ts params (u :: rest) := by
  induction fuel generalizing ts params with
  | nil =>
    have hle := h.length_le
    simp only [List.length_cons, List.length_nil] at hle hfuel
    omega
  | cons _ fuel ih =>
    cases h with
    | nil => exact runs_unseen (by simp [Token.is_of_is hu]) Runs.pure
    | cons ht h₁ hname h₂ h =>
      have hle₁ := h₁.length_le
      have hle₂ := h₂.length_le
      simp only [List.length_cons] at hfuel hle₁
      apply runs_seen ht
      apply Runs.bind runs_advance
      apply Runs.bind (runs_skipNewlines h₁ (breaks_of_identifier hname))
      apply Runs.bind (runs_consumeIdentifier hname)
      apply Runs.bind (runs_skipNewlines h₂ (breaks_of_moreParameters hu h))
      exact Runs.bind (ih (by omega) h) Runs.pure

theorem runs_parameters (ht : t.is .paren "(") (hu : u.is .paren ")") {params : List Token}
    (h : Grammar.Parameters ts (u :: rest) params) :
    Runs deep (parameters eof) (t :: ts) params rest := by
  apply Runs.bind (runs_consume ht)
  cases h with
  | nil h =>
    apply Runs.bind (runs_skipNewlines h (breaks_of_is hu (by decide)))
    apply Runs.bind runs_sees
    apply Runs.ite_neg (by simp [hu])
    exact Runs.bind (runs_consume hu) Runs.pure
  | @cons name _ _ ts₂ _ params h₁ hname h₂ h =>
    apply Runs.bind (runs_skipNewlines h₁ (breaks_of_identifier hname))
    apply Runs.bind runs_sees
    apply Runs.ite_pos (by simp [Token.is_of_kind hname])
    apply Runs.bind (runs_consumeIdentifier hname)
    apply Runs.bind (runs_skipNewlines h₂ (breaks_of_moreParameters hu h))
    apply Runs.bind runs_get
    apply Runs.bind (runs_moreParameters hu ts₂ (Nat.le_refl _) h)
    exact Runs.bind (runs_consume hu) Runs.pure

/-- A function whose name, if it has one, is left behind. -/
theorem runs_function {name : Option Token} {e : Node} (ht : t.is .keyword "func")
    (hname : Grammar.Named ts (u :: ts₁) name) (hu : u.is .paren "(")
    (h : Runs deep (do
      let params ← parameters eof
      if ← sees eof .operator ":" then
        let _ ← advance eof
        let body ← rules.expression .functionBody
        return .function name params body true t.start body.stop
      else if ← sees eof .paren Token.openBrace then
        let body ← block eof rules .functionBody
        return .function name params body false t.start body.stop
      else refuse eof (.expected "'\x7b' or ':'")) (u :: ts₁) e rest) :
    Runs deep (function eof rules) (t :: ts) e rest := by
  apply Runs.bind (runs_consume ht)
  apply Runs.bind runs_seesKind
  cases hname with
  | none =>
    have hkind := Token.kind_of_is hu
    exact Runs.ite_neg (by simp [hkind]) h
  | some hname =>
    apply Runs.ite_pos (by simp [hname])
    exact Runs.bind runs_advance h

theorem runs_functionExpression (hrules : Takes deep k rules.expression .expression)
    {name : Option Token} {params : List Token} {v w : Token} {body : Node} (hlength : ts.length < k)
    (ht : t.is .keyword "func") (hname : Grammar.Named ts (u :: ts₁) name) (hu : u.is .paren "(")
    (hparams : Grammar.Parameters ts₁ (v :: w :: ts₂) params) (hv : v.is .paren ")")
    (hw : w.is .operator ":")
    (hbody : Derives .greedy .expression .functionBody ts₂ rest (.node body))
    (hrest : assigned rest = false) :
    Runs deep (function eof rules) (t :: ts) (.function name params body true t.start body.stop)
      rest := by
  have hle := hname.length_le
  have hle₁ := hparams.length_le
  simp only [List.length_cons] at hle hle₁
  apply runs_function ht hname hu
  apply Runs.bind (runs_parameters hu hv hparams)
  apply runs_seen hw
  apply Runs.bind runs_advance
  exact Runs.bind (hrules (by omega) hbody hrest) Runs.pure

theorem runs_functionBlock (heof : eof.kind = .eof)
    (hrules : Takes deep k rules.expression .expression) {name : Option Token}
    {params : List Token} {v : Token} {body : Node} (hlength : ts.length < k)
    (ht : t.is .keyword "func") (hname : Grammar.Named ts (u :: ts₁) name) (hu : u.is .paren "(")
    (hparams : Grammar.Parameters ts₁ (v :: ts₂) params) (hv : v.is .paren ")")
    (hbody : Derives .greedy .block .functionBody ts₂ rest (.node body))
    (hrest : assigned rest = false) :
    Runs deep (function eof rules) (t :: ts) (.function name params body false t.start body.stop)
      rest := by
  have hle := hname.length_le
  have hle₁ := hparams.length_le
  simp only [List.length_cons] at hle hle₁
  have hblock := takes_block heof hrules (by omega) hbody hrest
  apply runs_function ht hname hu
  apply Runs.bind (runs_parameters hu hv hparams)
  cases hbody with
  | block hbrace _ _ _ _ =>
    apply runs_unseen (by simp [Token.is_of_is hbrace])
    apply runs_seen hbrace
    exact Runs.bind hblock Runs.pure

theorem takes_primary (heof : eof.kind = .eof)
    (hrules : Takes deep k rules.expression .expression) :
    Takes deep (k + 1) (primary eof rules) .primary := by
  intro n ts rest e hlength h hrest
  apply Runs.bind runs_peek
  cases h with
  | number ht =>
    apply Runs.ite_pos (by simp [ht])
    exact Runs.bind runs_advance Runs.pure
  | text ht =>
    apply Runs.ite_neg (by simp [ht])
    apply Runs.ite_pos (by simp [ht])
    exact Runs.bind runs_advance Runs.pure
  | lookup ht =>
    iterate 2 apply Runs.ite_neg (by simp [ht])
    apply Runs.ite_pos (by simp [ht])
    exact Runs.bind runs_advance Runs.pure
  | null ht =>
    iterate 3 apply Runs.ite_neg (by simp [Token.kind_of_is ht])
    apply Runs.ite_pos ht
    exact Runs.bind runs_advance Runs.pure
  | conditional ht hc hb hclauses =>
    iterate 4 apply Runs.ite_neg (by simp [Token.kind_of_is ht, Token.is_of_is ht])
    apply Runs.ite_pos ht
    exact runs_conditional heof hrules (Nat.lt_of_succ_lt_succ hlength) ht hc hb hclauses hrest
  | forLoop ht hname hu ha hv hb hstep hbody =>
    simp only [List.length_cons] at hlength
    iterate 5 apply Runs.ite_neg (by simp [Token.kind_of_is ht, Token.is_of_is ht])
    apply Runs.ite_pos ht
    exact runs_forLoop heof hrules (by omega) ht hname hu ha hv hb hstep hbody hrest
  | eachLoop ht hname hu he hbody =>
    simp only [List.length_cons] at hlength
    iterate 6 apply Runs.ite_neg (by simp [Token.kind_of_is ht, Token.is_of_is ht])
    apply Runs.ite_pos ht
    exact runs_eachLoop heof hrules (by omega) ht hname hu he hbody hrest
  | whileLoop ht hc hbody =>
    iterate 7 apply Runs.ite_neg (by simp [Token.kind_of_is ht, Token.is_of_is ht])
    apply Runs.ite_pos ht
    exact runs_whileLoop heof hrules (Nat.lt_of_succ_lt_succ hlength) ht hc hbody hrest
  | functionBlock ht hname hu hparams hv hbody =>
    iterate 8 apply Runs.ite_neg (by simp [Token.kind_of_is ht, Token.is_of_is ht])
    apply Runs.ite_pos ht
    exact runs_functionBlock heof hrules (Nat.lt_of_succ_lt_succ hlength) ht hname hu hparams hv
      hbody hrest
  | functionExpression ht hname hu hparams hv hw hbody =>
    iterate 8 apply Runs.ite_neg (by simp [Token.kind_of_is ht, Token.is_of_is ht])
    apply Runs.ite_pos ht
    exact runs_functionExpression hrules (Nat.lt_of_succ_lt_succ hlength) ht hname hu hparams hv hw
      hbody hrest
  | parentheses ht h₁ h h₂ hu =>
    iterate 9 apply Runs.ite_neg (by simp [Token.kind_of_is ht, Token.is_of_is ht])
    apply Runs.ite_pos ht
    apply Runs.bind runs_advance
    apply Runs.bind (runs_bracketed hrules (Nat.lt_of_succ_lt_succ hlength) h₁ h h₂
      (breaks_of_is hu (by decide)) (assigned_of_is hu (by simp)))
    exact Runs.bind (runs_consume hu) Runs.pure
  | list ht h hu =>
    iterate 10 apply Runs.ite_neg (by simp [Token.kind_of_is ht, Token.is_of_is ht])
    apply Runs.ite_pos ht
    apply Runs.bind runs_advance
    apply Runs.bind (runs_arguments hrules hu (by decide) (Nat.lt_of_succ_lt_succ hlength) h)
    exact Runs.bind (runs_consume hu) Runs.pure

theorem takes_unary (heof : eof.kind = .eof) (hunary : Takes deep k rules.unary .unary)
    (hrules : Takes deep k rules.expression .expression) :
    Takes deep (k + 1) (Parser.unary eof rules) .unary := by
  intro n ts rest e hlength h hrest
  apply Runs.bind runs_peek
  cases h with
  | sign ht h =>
    apply Runs.ite_pos ht
    apply Runs.bind runs_advance
    exact Runs.bind (hunary (Nat.lt_of_succ_lt_succ hlength) h hrest) Runs.pure
  | unsigned h =>
    cases h with
    | @target _ _ _ ts₁ _ a _ ha h =>
      have hlt := ha.length.2 rfl
      have hprimary := takes_primary heof hrules hlength ha (assigned_of_tail .suffixes a h hrest)
      obtain ⟨t, us, rfl, ht⟩ := ha.opens (by decide)
      have hsign : Grammar.isSign t = false := by
        simp [Grammar.isSign, ht.not_is .operator "-" (by decide) (by decide),
          ht.not_is .operator "+" (by decide) (by decide),
          ht.not_is .operator "not" (by decide) (by decide)]
      apply Runs.ite_neg (Bool.eq_false_iff.mp hsign)
      apply Runs.bind hprimary
      apply Runs.bind runs_get
      exact runs_suffixes heof hrules ts₁ (Nat.le_refl _) (by omega) h

end

/-! ## Programs -/

variable {eof : Token}

/-- A phrase is nested at most twice as deep as it has tokens. -/
theorem takes_upTo (heof : eof.kind = .eof) (depth : Nat) (k : Nat) :
    Takes (depth + 2 < 2 * k) k (Rules.upTo eof depth).expression .expression ∧
      Takes (depth + 3 < 2 * k) k (Rules.upTo eof depth).unary .unary := by
  induction depth generalizing k with
  | zero =>
    constructor
    · intro n ts rest e hlength h _
      have hlt := h.length.2 rfl
      exact Runs.giveUp (by omega)
    · intro n ts rest e hlength h _
      have hlt := h.length.2 rfl
      exact Runs.giveUp (by omega)
  | succ depth ih =>
    cases k with
    | zero =>
      constructor
      · exact fun _ _ _ _ hlength => (Nat.not_lt_zero _ hlength).elim
      · exact fun _ _ _ _ hlength => (Nat.not_lt_zero _ hlength).elim
    | succ k =>
      obtain ⟨hexpression, hunary⟩ := ih k
      have hunary' := (ih (k + 1)).2
      constructor
      · exact takes_expression heof (hunary'.mono (by omega)) (hexpression.mono (by omega))
      · exact takes_unary heof (hunary.mono (by omega)) (hexpression.mono (by omega))

/-- The parser takes all tokens of a program, unless they are nested too deep. -/
theorem runs_program (depth : Nat) {s : TokenStream} {block : Node} (heof : s.eof.kind = .eof)
    (h : Grammar.Program .greedy s block) :
    Runs (depth < 2 * s.tokens.length) (program s.eof (Rules.upTo s.eof depth)) s.tokens block
      [] := by
  cases h with
  | mk h₁ hs h₂ =>
    have hrules : Takes (depth < 2 * s.tokens.length) (s.tokens.length + 1)
        (Rules.upTo s.eof depth).expression .expression :=
      (takes_upTo heof depth (s.tokens.length + 1)).1.mono (by omega)
    have hclosed : atClose s.eof none [] := by simp [atClose, heof]
    apply Runs.bind runs_peek
    have hlist := runs_statementList heof hrules (.inl rfl) hclosed
      (Nat.lt_succ_self _) h₁ hs h₂
    exact Runs.bind hlist Runs.pure

theorem ofTokens_of_runs {depth : Nat} {s : TokenStream} {block : Node} {deep : Prop}
    (h : Runs deep (program s.eof (Rules.upTo s.eof depth)) s.tokens block []) :
    Node.ofTokens depth s = .ok block ∨
      deep ∧ Node.TooDeep (Node.ofTokens depth s) := by
  rcases h with h | ⟨hdeep, span, h⟩
  · exact .inl (by rw [Node.ofTokens, h])
  · exact .inr ⟨hdeep, span, by rw [Node.ofTokens, h]⟩

/-- With depth enough the parser returns the trees of greedy derivations, and no others. -/
theorem ofTokens_eq_ok_iff {depth : Nat} {s : TokenStream} {block : Node}
    (heof : s.eof.kind = .eof) (htokens : ∀ t ∈ s.tokens, t.kind ≠ .eof)
    (hdepth : 2 * s.tokens.length ≤ depth) :
    Node.ofTokens depth s = .ok block ↔ Grammar.Program .greedy s block := by
  constructor
  · intro h
    obtain ⟨rest, hrun⟩ := run_of_ofTokens h
    exact ensures_program heof htokens _ _ hrun
  · intro h
    rcases ofTokens_of_runs (runs_program depth heof h) with h | ⟨hdeep, _⟩
    · exact h
    · omega

/-- What is refused for another reason than its depth is refused at all depths. -/
theorem ofTokens_ne_ok {depth : Nat} {s : TokenStream} {d : Diagnostic}
    (heof : s.eof.kind = .eof) (htokens : ∀ t ∈ s.tokens, t.kind ≠ .eof)
    (hdepth : 2 * s.tokens.length ≤ depth) (h : Node.ofTokens depth s = .error d) (depth' : Nat)
    (block : Node) : Node.ofTokens depth' s ≠ .ok block := by
  intro hparsed
  obtain ⟨rest, hrun⟩ := run_of_ofTokens hparsed
  have hprogram := ensures_program heof htokens _ _ hrun
  cases h.symm.trans ((ofTokens_eq_ok_iff heof htokens hdepth).mpr hprogram)

/-- The tokens of a program that is read naturally are parsed, unless they are nested too deep. -/
theorem ofTokens_of_program {s : TokenStream} {block : Node} (heof : s.eof.kind = .eof)
    (h : Grammar.Program .natural s block) (depth : Nat) :
    (∃ block', Node.ofTokens depth s = .ok block') ∨
      depth < 2 * s.tokens.length ∧
        Node.TooDeep (Node.ofTokens depth s) := by
  obtain ⟨block', h⟩ := h.greedy
  rcases ofTokens_of_runs (runs_program depth heof h) with h | h
  · exact .inl ⟨block', h⟩
  · exact .inr h

/-- A loop that stops at once. -/
theorem ofTokens_of_program_loop :
    let p : Position := ⟨"f", 1, 1, 0⟩
    let word (kind : TokenKind) (s : String) : Token := ⟨kind, .text s, p, p⟩
    let a := word .identifier "a"
    let stop := word .keyword "break"
    let s : TokenStream := ⟨[word .keyword "while", a, word .operator ":", stop],
      ⟨.eof, .null, p, p⟩⟩
    let block := Node.block [.whileLoop (.lookup a) (.breakLoop stop) p p] p p
    s.eof.kind = .eof ∧ Grammar.Program .natural s block ∧
      ((∃ block', Node.ofTokens 4 s = .ok block') ∨ 4 < 2 * s.tokens.length ∧
        Node.TooDeep (Node.ofTokens 4 s)) := by
  intro p word a stop s block
  have hr : Reading.natural ≠ .greedy := by decide
  have hbody : Derives .natural .body ⟨true, false⟩ [word .operator ":", stop] []
      (.node (.breakLoop stop)) := .statementBody (by decide) (.breakLoop (by decide) rfl)
  have hloop : Derives .natural .primary .program s.tokens []
      (.node (.whileLoop (.lookup a) (.breakLoop stop) p p)) :=
    .whileLoop (by decide) ((Derives.lookup rfl).expression_of_primary hr) hbody
  have hprogram : Grammar.Program .natural s block :=
    .mk .nil (.statements (.evaluate (hloop.expression_of_primary hr)) .lastStatement) .nil
  exact ⟨rfl, hprogram, ofTokens_of_program rfl hprogram 4⟩

/-- Two programs without newlines that are refused at every depth. In the first one the expression
of a function in a loop ends before a further operand, which stops the loop. In the second one a
`return` without a value stands before a closing bracket. -/
theorem free_programs_refused :
    let p : Position := ⟨"f", 1, 1, 0⟩
    let word (kind : TokenKind) (s : String) : Token := ⟨kind, .text s, p, p⟩
    let eof : Token := ⟨.eof, .null, p, p⟩
    let loop : TokenStream := ⟨[word .keyword "while", word .identifier "a", word .operator ":",
      word .keyword "func", word .paren "(", word .paren ")", word .operator ":",
      word .identifier "x", word .operator "+", word .keyword "if", word .identifier "b",
      word .operator ":", word .keyword "break"], eof⟩
    let function : TokenStream := ⟨[word .keyword "func", word .paren "(", word .paren ")",
      word .operator ":", word .paren "(", word .keyword "if", word .identifier "x",
      word .operator ":", word .keyword "return", word .paren ")"], eof⟩
    let refused (s : TokenStream) : Prop :=
      (∀ t ∈ s.tokens, t.isNewline = false) ∧ (∃ block, Grammar.Program .free s block) ∧
        ∀ depth block, Node.ofTokens depth s ≠ .ok block
    refused loop ∧ refused function := by
  intro p word eof loop function refused
  have hloop : Node.ofTokens 26 loop = .error
      (Diagnostic.onSpan (.outsideLoop "break") (word .keyword "break").span) := by cbv
  have hfunction : Node.ofTokens 20 function = .error
      (Diagnostic.onSpan (.unexpectedToken ")") (word .paren ")").span) := by
    clear hloop refused loop
    cbv
  have hr : Reading.free ≠ .greedy := by decide
  have hname {n : Nesting} {s : String} {rest : List Token} :
      Derives .free .expression n (word .identifier s :: rest) rest
        (.node (.lookup (word .identifier s))) := (Derives.lookup rfl).expression_of_primary hr
  have hif {n : Nesting} {s : String} {t : Token} {rest : List Token} {e : Node}
      (h : Derives .free .statement n (t :: rest) rest (.node e)) :
      Derives .free .primary n (word .keyword "if" :: word .identifier s :: word .operator ":" ::
        t :: rest) rest (.node (.conditional [(.lookup (word .identifier s), e)] none p e.stop)) :=
    .conditional (by decide) hname (.statementBody (by decide) h) (.endClauses (Reading.ends hr _ _))
  have hstatements {n : Nesting} {ts rest : List Token} {e : Node}
      (h : Derives .free .primary n ts rest (.node e)) :
      Derives .free .statements n ts rest (.nodes [e]) :=
    .statements (.evaluate (h.expression_of_primary hr)) .lastStatement
  constructor
  · refine ⟨by decide, ?_, ofTokens_ne_ok rfl (by decide) (by decide) hloop⟩
    have hbody : Derives .free .primary ⟨true, false⟩ (loop.tokens.drop 3)
        (loop.tokens.drop 8) (.node (.function none [] (.lookup (word .identifier "x")) true p p)) :=
      .functionExpression (by decide) .none (by decide) (.nil .nil) (by decide) (by decide) hname
    have hconditional : Derives .free .primary ⟨true, false⟩ (loop.tokens.drop 9) [] (.node _) :=
      hif (.breakLoop (by decide) rfl)
    have hsum : Derives .free (.level .additive) ⟨true, false⟩ (loop.tokens.drop 3) [] (.node _) :=
      .level (hbody.level_of_primary hr .multiplicative)
        (.chain (by decide) (hconditional.level_of_primary hr .multiplicative)
          (.endChain (Reading.ends hr _ _)))
    have hlogical := Derives.level_of_operand hr .logical
      (Derives.level_of_operand hr .equality (Derives.level_of_operand hr .relational hsum))
    exact ⟨_, .mk .nil (hstatements (.whileLoop (by decide) hname
      (.statementBody (by decide) (.evaluate (hlogical.expression_of_level hr))))) .nil⟩
  · refine ⟨by decide, ?_, ofTokens_ne_ok rfl (by decide) (by decide) hfunction⟩
    have hreturn : Derives .free .primary .functionBody (function.tokens.drop 5)
        (function.tokens.drop 9) (.node _) := hif (.giveBackNothing (by decide) rfl (.inl rfl))
    have hparentheses : Derives .free .primary .functionBody (function.tokens.drop 4) []
        (.node _) :=
      .parentheses (by decide) .nil (hreturn.expression_of_primary hr) .nil (by decide)
    exact ⟨_, .mk .nil (hstatements (.functionExpression (by decide) .none (by decide) (.nil .nil)
      (by decide) (by decide) (hparentheses.expression_of_primary hr))) .nil⟩

end Lumen.Parser
