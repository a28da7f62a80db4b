import Lumen.Proofs.Node.Confined
import Lumen.Proofs.Token.Tiling

/-!
# Nodes that sources make

A node is well made if its tokens hold what evaluation takes them to hold: number tokens a double,
text tokens and parameters a text, and the tokens between two operands a binary operator. The lexer
makes only tokens that hold what their kind says, so the program of a source is well made.
-/

namespace Lumen

theorem Scalar.eq_of_isText {a : Scalar} {s : String} (h : a.isText s) : a = .text s := by
  cases a with
  | text t => exact congrArg text (eq_of_beq h)
  | _ => cases h

/-- The token holds what its kind says. -/
structure Token.WellMade (t : Token) : Prop where
  number : t.kind = .number → ∃ x, t.value = .float x
  text : t.kind = .text → ∃ s, t.value = .text s
  identifier : t.kind = .identifier → ∃ s, t.value = .text s

inductive Node.WellMade : Node → Prop where
  | number {t x} : t.value = .float x → WellMade (.number t)
  | text {t s} : t.value = .text s → WellMade (.text t)
  | null {t} : WellMade (.null t)
  | list {es p q} : (∀ e ∈ es, WellMade e) → WellMade (.list es p q)
  | block {ss p q} : (∀ s ∈ ss, WellMade s) → WellMade (.block ss p q)
  | ternary {c a b} : WellMade c → WellMade a → WellMade b → WellMade (.ternary c a b)
  | binary {a op b} (o : Operator) : WellMade a → op.value = .text o.symbol → WellMade b →
      WellMade (.binary a op b)
  | unary {op e} : WellMade e → WellMade (.unary op e)
  | lookup {t} : WellMade (.lookup t)
  | assign {t e} : WellMade e → WellMade (.assign t e)
  | index {e i j q} : WellMade e → WellMade i → (∀ f ∈ j, WellMade f) → WellMade (.index e i j q)
  | assignIndex {t i e} : WellMade i → WellMade e → WellMade (.assignIndex t i e)
  | conditional {cases otherwise p q} : (∀ g ∈ cases, WellMade g.1) → (∀ g ∈ cases, WellMade g.2) →
      (∀ e ∈ otherwise, WellMade e) → WellMade (.conditional cases otherwise p q)
  | forLoop {t a b step body p q} : WellMade a → WellMade b → (∀ e ∈ step, WellMade e) →
      WellMade body → WellMade (.forLoop t a b step body p q)
  | eachLoop {t e body p q} : WellMade e → WellMade body → WellMade (.eachLoop t e body p q)
  | whileLoop {c body p q} : WellMade c → WellMade body → WellMade (.whileLoop c body p q)
  | breakLoop {t} : WellMade (.breakLoop t)
  | continueLoop {t} : WellMade (.continueLoop t)
  | function {name params body isExpression p q} : (∀ t ∈ params, ∃ s, t.value = .text s) →
      WellMade body → WellMade (.function name params body isExpression p q)
  | call {e args q} : WellMade e → (∀ f ∈ args, WellMade f) → WellMade (.call e args q)
  | giveBack {value p q} : (∀ e ∈ value, WellMade e) → WellMade (.giveBack value p q)

/-! ## What derives from the grammar -/

namespace Grammar

def Yield.WellMade : Yield → Prop
  | .node e => e.WellMade
  | .nodes es => ∀ e ∈ es, Node.WellMade e
  | .optional value => ∀ e ∈ value, Node.WellMade e
  | .clauses cases otherwise =>
    (∀ g ∈ cases, Node.WellMade g.1 ∧ Node.WellMade g.2) ∧ ∀ e ∈ otherwise, Node.WellMade e

def Phrase.WellMade : Phrase → Prop
  | .chain _ e | .choice e | .suffixes e => e.WellMade
  | _ => True

theorem Level.wellMade_operand (ℓ : Level) : ℓ.operand.WellMade := by
  cases ℓ <;> trivial

theorem Level.exists_operator (ℓ : Level) : ∀ s ∈ ℓ.operators, ∃ o ∈ Operator.all, o.symbol = s := by
  cases ℓ <;> decide

/-- What joins the operands of a level is a binary operator. -/
theorem exists_operator_of_joins {ℓ : Level} {t : Token} (h : ℓ.joins t) :
    ∃ o : Operator, t.value = .text o.symbol := by
  obtain ⟨s, hs, ht⟩ := List.any_eq_true.mp h
  obtain ⟨o, -, rfl⟩ := ℓ.exists_operator s hs
  refine ⟨o, ?_⟩
  rw [Token.is, Bool.and_eq_true] at ht
  exact Scalar.eq_of_isText ht.2

section

variable {P : Token → Prop} {r : Reading} {φ : Phrase} {n : Parser.Nesting}
  {ts rest params : List Token} {y : Yield}

theorem Newlines.forall_mem (h : Newlines ts rest) (hts : ∀ t ∈ ts, P t) : ∀ t ∈ rest, P t :=
  fun t ht => hts t (h.mem ht)

theorem Parameters.forall_mem (h : Parameters ts rest params) (hts : ∀ t ∈ ts, P t) :
    ∀ t ∈ rest, P t := fun t ht => hts t (h.mem ht)

theorem Named.forall_mem {name : Option Token} (h : Named ts rest name) (hts : ∀ t ∈ ts, P t) :
    ∀ t ∈ rest, P t := fun t ht => hts t (h.mem ht)

theorem Derives.forall_mem (h : Derives r φ n ts rest y) (hts : ∀ t ∈ ts, P t) :
    ∀ t ∈ rest, P t := fun t ht => hts t (h.mem ht)

theorem forall_mem_tail {t : Token} (hts : ∀ u ∈ t :: ts, P u) : ∀ u ∈ ts, P u :=
  (List.forall_mem_cons.mp hts).2

theorem MoreParameters.texts (h : MoreParameters ts rest params) (hts : ∀ t ∈ ts, t.WellMade) :
    ∀ t ∈ params, ∃ s, t.value = .text s := by
  induction h with
  | nil => exact List.forall_mem_nil _
  | cons _ h₁ hkind h₂ _ ih =>
    have hts₁ := h₁.forall_mem (forall_mem_tail hts)
    refine List.forall_mem_cons.mpr ⟨?_, ih (h₂.forall_mem (forall_mem_tail hts₁))⟩
    exact (hts₁ _ List.mem_cons_self).identifier hkind

theorem Parameters.texts (h : Parameters ts rest params) (hts : ∀ t ∈ ts, t.WellMade) :
    ∀ t ∈ params, ∃ s, t.value = .text s := by
  cases h with
  | nil => exact List.forall_mem_nil _
  | cons h₁ hkind h₂ h =>
    have hts₁ := h₁.forall_mem hts
    refine List.forall_mem_cons.mpr ⟨?_, h.texts (h₂.forall_mem (forall_mem_tail hts₁))⟩
    exact (hts₁ _ List.mem_cons_self).identifier hkind

/-- What derives from well made tokens is well made. -/
theorem Derives.wellMade (h : Derives r φ n ts rest y) (hφ : φ.WellMade)
    (hts : ∀ t ∈ ts, t.WellMade) : y.WellMade := by
  -- `hφ` is what the loops over operands and suffixes need: they carry the node built so far.
  have none : ∀ e ∈ (none : Option Node), e.WellMade := fun _ he => nomatch he
  have some {e : Node} (h : e.WellMade) : ∀ f ∈ some e, f.WellMade := by
    rintro _ ⟨⟩
    exact h
  have cons {e : Node} {es : List Node} (h : e.WellMade) (hes : ∀ f ∈ es, f.WellMade) :
      ∀ f ∈ e :: es, f.WellMade := List.forall_mem_cons.mpr ⟨h, hes⟩
  have tail {t : Token} {us : List Token} (h : ∀ u ∈ t :: us, u.WellMade) :
      ∀ u ∈ us, u.WellMade := forall_mem_tail h
  induction h with
  | noStatements | lastStatement | noArguments | lastArgument => exact List.forall_mem_nil _
  | statements h₁ _ ih₁ ih₂ => exact cons (ih₁ trivial hts) (ih₂ trivial (h₁.forall_mem hts))
  | moreStatements _ h₁ h₂ _ ih₁ ih₂ =>
    have hts₁ := h₁.forall_mem (tail hts)
    exact cons (ih₁ trivial hts₁) (ih₂ trivial (h₂.forall_mem hts₁))
  | arguments h₁ h₂ h₃ _ ih₁ ih₂ =>
    have hts₁ := h₁.forall_mem hts
    exact cons (ih₁ trivial hts₁) (ih₂ trivial (h₃.forall_mem (h₂.forall_mem hts₁)))
  | moreArguments _ h₁ h₂ h₃ _ ih₁ ih₂ =>
    have hts₁ := h₁.forall_mem (tail hts)
    exact cons (ih₁ trivial hts₁) (ih₂ trivial (h₃.forall_mem (h₂.forall_mem hts₁)))
  | block _ h₁ _ _ _ ih => exact .block (ih trivial (h₁.forall_mem (tail hts)))
  | blockBody _ ih | evaluate _ ih | ternary _ ih | unsigned _ ih => exact ih trivial hts
  | statementBody _ _ ih => exact ih trivial (tail hts)
  | giveBackNothing => exact .giveBack none
  | giveBack _ _ _ ih => exact .giveBack (some (ih trivial (tail hts)))
  | breakLoop => exact .breakLoop
  | continueLoop => exact .continueLoop
  | assign _ _ _ ih => exact .assign (ih trivial (tail (tail hts)))
  | assignIndex _ _ h₁ h₂ h₃ _ _ _ ih₁ ih₂ =>
    have hts₁ := h₁.forall_mem (tail (tail hts))
    have hts₃ := h₃.forall_mem (h₂.forall_mem hts₁)
    exact .assignIndex (ih₁ trivial hts₁) (ih₂ trivial (tail (tail hts₃)))
  | condition h₁ _ ih₁ ih₂ => exact ih₂ (ih₁ trivial hts) (h₁.forall_mem hts)
  | noChoice _ | endChain _ | endSuffixes _ => exact hφ
  | choice _ h₁ _ _ ih₁ ih₂ =>
    have hts₁ := h₁.forall_mem (tail hts)
    exact .ternary hφ (ih₁ trivial (tail hts)) (ih₂ trivial (tail hts₁))
  | level h₁ _ ih₁ ih₂ => exact ih₂ (ih₁ (Level.wellMade_operand _) hts) (h₁.forall_mem hts)
  | chain hjoins h₁ _ ih₁ ih₂ =>
    obtain ⟨o, ho⟩ := exists_operator_of_joins hjoins
    have hright := ih₁ (Level.wellMade_operand _) (tail hts)
    exact ih₂ (.binary o hφ ho hright) (h₁.forall_mem (tail hts))
  | sign _ _ ih => exact .unary (ih trivial (tail hts))
  | target h₁ _ ih₁ ih₂ => exact ih₂ (ih₁ trivial hts) (h₁.forall_mem hts)
  | call _ h₁ _ _ ih₁ ih₂ =>
    exact ih₂ (.call hφ (ih₁ trivial (tail hts))) (tail (h₁.forall_mem (tail hts)))
  | index _ h₁ h₂ h₃ _ _ ih₁ ih₂ =>
    have hts₁ := h₁.forall_mem (tail hts)
    have hts₃ := h₃.forall_mem (h₂.forall_mem hts₁)
    exact ih₂ (.index hφ (ih₁ trivial hts₁) none) (tail hts₃)
  | slice _ h₁ h₂ h₃ _ h₄ h₅ h₆ _ _ ih₁ ih₂ ih₃ =>
    have hts₁ := h₁.forall_mem (tail hts)
    have hts₄ := h₄.forall_mem (tail (h₃.forall_mem (h₂.forall_mem hts₁)))
    have hts₆ := h₆.forall_mem (h₅.forall_mem hts₄)
    exact ih₃ (.index hφ (ih₁ trivial hts₁) (some (ih₂ trivial hts₄))) (tail hts₆)
  | number hkind =>
    obtain ⟨x, hx⟩ := (hts _ List.mem_cons_self).number hkind
    exact .number hx
  | text hkind =>
    obtain ⟨s, hs⟩ := (hts _ List.mem_cons_self).text hkind
    exact .text hs
  | null => exact .null
  | lookup => exact .lookup
  | parentheses _ h₁ _ _ _ ih => exact ih trivial (h₁.forall_mem (tail hts))
  | list _ _ _ ih => exact .list (ih trivial (tail hts))
  | conditional _ h₁ h₂ _ ih₁ ih₂ ih₃ =>
    have hts₁ := h₁.forall_mem (tail hts)
    obtain ⟨hcases, hotherwise⟩ := ih₃ trivial (h₂.forall_mem hts₁)
    have hc := ih₁ trivial (tail hts)
    have hb := ih₂ trivial hts₁
    exact .conditional (List.forall_mem_cons.mpr ⟨hc, fun g hg => (hcases g hg).1⟩)
      (List.forall_mem_cons.mpr ⟨hb, fun g hg => (hcases g hg).2⟩) hotherwise
  | endClauses => exact ⟨List.forall_mem_nil _, none⟩
  | elseIf h₁ _ h₂ h₃ _ ih₁ ih₂ ih₃ =>
    have hts₁ := tail (h₁.forall_mem hts)
    have hts₂ := h₂.forall_mem hts₁
    obtain ⟨hcases, hotherwise⟩ := ih₃ trivial (h₃.forall_mem hts₂)
    exact ⟨List.forall_mem_cons.mpr ⟨⟨ih₁ trivial hts₁, ih₂ trivial hts₂⟩, hcases⟩, hotherwise⟩
  | otherwise h₁ _ _ ih =>
    exact ⟨List.forall_mem_nil _, some (ih trivial (tail (h₁.forall_mem hts)))⟩
  | forLoop _ _ _ h₁ _ h₂ h₃ _ ih₁ ih₂ ih₃ ih₄ =>
    have hts₀ := tail (tail (tail hts))
    have hts₁ := tail (h₁.forall_mem hts₀)
    have hts₂ := h₂.forall_mem hts₁
    exact .forLoop (ih₁ trivial hts₀) (ih₂ trivial hts₁) (ih₃ trivial hts₂)
      (ih₄ trivial (h₃.forall_mem hts₂))
  | noStep => exact none
  | step _ _ ih => exact some (ih trivial (tail hts))
  | eachLoop _ _ _ h₁ _ ih₁ ih₂ =>
    have hts₀ := tail (tail (tail hts))
    exact .eachLoop (ih₁ trivial hts₀) (ih₂ trivial (h₁.forall_mem hts₀))
  | whileLoop _ h₁ _ ih₁ ih₂ =>
    exact .whileLoop (ih₁ trivial (tail hts)) (ih₂ trivial (h₁.forall_mem (tail hts)))
  | functionBlock _ h₁ _ h₂ _ _ ih =>
    have hts₁ := tail (h₁.forall_mem (tail hts))
    exact .function (h₂.texts hts₁) (ih trivial (tail (h₂.forall_mem hts₁)))
  | functionExpression _ h₁ _ h₂ _ _ _ ih =>
    have hts₁ := tail (h₁.forall_mem (tail hts))
    exact .function (h₂.texts hts₁) (ih trivial (tail (tail (h₂.forall_mem hts₁))))

end

end Grammar

/-! ## What sources make -/

theorem Lexeme.nameKind_ne_number (s : String) : nameKind s ≠ .number := by
  unfold nameKind
  split
  · nofun
  · split <;> nofun

theorem Token.wellMade_of_spells {f : Lexeme.Form} {cs : List Char} {t : Token}
    (h : Lexeme.Spells f cs t.kind t.value) : t.WellMade := by
  obtain ⟨kind, value, p, q⟩ := t
  cases h with
  | newline => exact ⟨nofun, nofun, nofun⟩
  | number => exact ⟨fun _ => ⟨_, rfl⟩, nofun, nofun⟩
  | name =>
    exact ⟨fun h => (Lexeme.nameKind_ne_number _ h).elim, fun _ => ⟨_, rfl⟩, fun _ => ⟨_, rfl⟩⟩
  | quoted => exact ⟨nofun, fun _ => ⟨_, rfl⟩, nofun⟩
  | paren => exact ⟨nofun, nofun, nofun⟩
  | operator => exact ⟨nofun, nofun, nofun⟩

theorem TokenStream.wellMade_ofSource {source file : String} {s : TokenStream}
    (h : TokenStream.ofSource source file = .ok s) : ∀ t ∈ s.tokens, t.WellMade := by
  have htiles := scan_tiles (Position.first file) source.toList rfl rfl (Nat.zero_le _)
  unfold TokenStream.ofSource at h
  cases hscan : scan (Position.first file) source.toList with
  | error d => rw [hscan] at h; cases h
  | ok r =>
    rw [hscan] at h htiles
    obtain rfl := Except.ok.inj h
    intro t ht
    obtain ⟨i, j, f, -, -, -, -, -, hspells, -⟩ := htiles.2.tokens t ht
    exact Token.wellMade_of_spells hspells

theorem Node.wellMade_ofSource {limits : Limits} {source file : String} {program : Node}
    (h : Node.ofSource limits source file = .ok program) : program.WellMade := by
  unfold Node.ofSource at h
  cases hs : TokenStream.ofSource source file with
  | error d => rw [hs] at h; cases h
  | ok s =>
    rw [hs] at h
    have heof := TokenStream.kind_eof_ofSource hs
    obtain ⟨rest, hrun⟩ := Parser.run_of_ofTokens h
    have hprogram : Parser.Ensures (Parser.program s.eof (Parser.Rules.upTo s.eof limits.nesting))
        s.tokens fun block _ => block.WellMade := by
      refine Parser.Ensures.bind (Parser.ensures_peek ?_)
      have hrules := Parser.sound_upTo heof limits.nesting
      refine Parser.Ensures.bind ((Parser.ensures_statementList heof hrules).mono ?_)
      rintro ss rest ⟨ts₁, ts₂, hnew, hss, -⟩
      have hts := hnew.forall_mem (TokenStream.wellMade_ofSource hs)
      exact Parser.Ensures.pure (.block (hss.wellMade trivial hts))
    exact hprogram _ _ hrun

end Lumen
