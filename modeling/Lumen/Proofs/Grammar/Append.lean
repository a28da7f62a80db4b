import Lumen.Proofs.Grammar.Move

/-!
# Programs one after another

A newline that no tail goes on behind ends everything before it, so what stands behind a greedily
read phrase may be followed by such a newline and anything else. The statements of two programs with
a newline between them make one program.
-/

namespace Lumen.Grammar

/-- A newline comes first, and nothing that stands before it goes on behind it. -/
structure Separates (us : List Token) : Prop where
  isNewline : us.head?.any Token.isNewline
  barrier : Barrier us

variable {ts rest us : List Token}

theorem Separates.starts_append (h : Separates us) {τ : Tail} (hts : τ.starts ts = false) :
    τ.starts (ts ++ us) = false := by
  cases ts with
  | nil => exact h.barrier τ
  | cons t ts =>
    cases τ with
    | clauses =>
      rw [Tail.starts] at hts ⊢
      rw [List.dropWhile_append]
      split
      · exact h.barrier .clauses
      · next hne =>
        cases hdrop : (t :: ts).dropWhile Token.isNewline with
        | nil =>
          rw [hdrop] at hne
          exact (hne rfl).elim
        | cons u vs =>
          rw [hdrop] at hts
          exact hts
    | _ => exact hts

theorem Separates.ends (h : Separates us) {r : Reading} {τ : Tail} (hts : r.Ends τ ts) :
    r.Ends τ (ts ++ us) := fun hr => h.starts_append (hts hr)

theorem Separates.returns (h : Separates us) {r : Reading} (hts : r.Returns ts) :
    r.Returns (ts ++ us) := by
  refine hts.imp id fun hts => ?_
  cases ts with
  | cons t ts => exact hts
  | nil =>
    cases us with
    | nil => rfl
    | cons u us =>
      have hu : u.isNewline := h.isNewline
      simp [endsStatement, hu]

theorem Newlines.append (h : Newlines ts rest) (us : List Token) :
    Newlines (ts ++ us) (rest ++ us) := by
  induction h with
  | nil => exact .nil
  | cons ht _ ih => exact .cons ht ih

theorem MoreParameters.append {params : List Token} (h : MoreParameters ts rest params)
    (us : List Token) : MoreParameters (ts ++ us) (rest ++ us) params := by
  induction h with
  | nil => exact .nil
  | cons ht h₁ hname h₂ _ ih => exact .cons ht (h₁.append us) hname (h₂.append us) ih

theorem Parameters.append {params : List Token} (h : Parameters ts rest params)
    (us : List Token) : Parameters (ts ++ us) (rest ++ us) params := by
  cases h with
  | nil h => exact .nil (h.append us)
  | cons h₁ ht h₂ hmore => exact .cons (h₁.append us) ht (h₂.append us) (hmore.append us)

theorem Named.append {name : Option Token} (h : Named ts rest name) (us : List Token) :
    Named (ts ++ us) (rest ++ us) name := by
  cases h with
  | none => exact .none
  | some ht => exact .some ht

/-- A phrase is read as it is without what is separated from it. -/
theorem Derives.append {r : Reading} {φ : Phrase} {n : Parser.Nesting} {y : Yield}
    (h : Derives r φ n ts rest y) (hus : Separates us) :
    Derives r φ n (ts ++ us) (rest ++ us) y := by
  -- Only the end of a tail and a `return` without a value depend on what follows.
  induction h with
  | noStatements => exact .noStatements
  | statements _ _ ihs ihss => exact .statements ihs ihss
  | lastStatement => exact .lastStatement
  | moreStatements ht h₁ _ _ ihs ihss => exact .moreStatements ht (h₁.append us) ihs ihss
  | block ht h₁ _ h₂ hu ih => exact .block ht (h₁.append us) ih (h₂.append us) hu
  | blockBody _ ih => exact .blockBody ih
  | statementBody ht _ ih => exact .statementBody ht ih
  | giveBackNothing ht hn hreturns => exact .giveBackNothing ht hn (hus.returns hreturns)
  | giveBack ht hn _ ih => exact .giveBack ht hn ih
  | breakLoop ht hn => exact .breakLoop ht hn
  | continueLoop ht hn => exact .continueLoop ht hn
  | evaluate _ ih => exact .evaluate ih
  | assign ht hu _ ih => exact .assign ht hu ih
  | assignIndex ht hu h₁ _ h₂ hv hw _ ihi ihe =>
    exact .assignIndex ht hu (h₁.append us) ihi (h₂.append us) hv hw ihe
  | ternary _ ih => exact .ternary ih
  | condition _ _ ihc ih => exact .condition ihc ih
  | noChoice hends => exact .noChoice (hus.ends hends)
  | choice ht _ hu _ iha ihb => exact .choice ht iha hu ihb
  | level _ _ iha ih => exact .level iha ih
  | endChain hends => exact .endChain (hus.ends hends)
  | chain ht _ _ ihb ih => exact .chain ht ihb ih
  | sign ht _ ih => exact .sign ht ih
  | unsigned _ ih => exact .unsigned ih
  | target _ _ iha ih => exact .target iha ih
  | endSuffixes hends => exact .endSuffixes (hus.ends hends)
  | call ht _ hu _ ihargs ih => exact .call ht ihargs hu ih
  | index ht h₁ _ h₂ hu _ ihi ih =>
    exact .index ht (h₁.append us) ihi (h₂.append us) hu ih
  | slice ht h₁ _ h₂ hv h₃ _ h₄ hu _ ihi ihj ih =>
    exact .slice ht (h₁.append us) ihi (h₂.append us) hv (h₃.append us) ihj (h₄.append us) hu ih
  | noArguments h => exact .noArguments (h.append us)
  | arguments h₁ _ h₂ _ ihe ih => exact .arguments (h₁.append us) ihe (h₂.append us) ih
  | lastArgument => exact .lastArgument
  | moreArguments ht h₁ _ h₂ _ ihe ih =>
    exact .moreArguments ht (h₁.append us) ihe (h₂.append us) ih
  | number ht => exact .number ht
  | text ht => exact .text ht
  | null ht => exact .null ht
  | lookup ht => exact .lookup ht
  | parentheses ht h₁ _ h₂ hu ih => exact .parentheses ht (h₁.append us) ih (h₂.append us) hu
  | list ht _ hu ih => exact .list ht ih hu
  | conditional ht _ _ _ ihc ihb ih => exact .conditional ht ihc ihb ih
  | endClauses hends => exact .endClauses (hus.ends hends)
  | elseIf h₁ ht _ _ _ ihc ihb ih => exact .elseIf (h₁.append us) ht ihc ihb ih
  | otherwise h₁ ht _ ih => exact .otherwise (h₁.append us) ht ih
  | forLoop ht hname hu _ hv _ _ _ iha ihb ihstep ih =>
    exact .forLoop ht hname hu iha hv ihb ihstep ih
  | noStep => exact .noStep
  | step ht _ ih => exact .step ht ih
  | eachLoop ht hname hu _ _ ihe ih => exact .eachLoop ht hname hu ihe ih
  | whileLoop ht _ _ ihc ih => exact .whileLoop ht ihc ih
  | functionBlock ht hname hu hparams hv _ ih =>
    exact .functionBlock ht (hname.append us) hu (hparams.append us) hv ih
  | functionExpression ht hname hu hparams hv hw _ ih =>
    exact .functionExpression ht (hname.append us) hu (hparams.append us) hv hw ih

/-! ## Statements of programs -/

variable {r : Reading} {n : Parser.Nesting} {ss ss' : List Node} {u : Token}

/-- The tokens are statements with newlines between and around them. -/
def Statements (r : Reading) (n : Parser.Nesting) (ts : List Token) (ss : List Node) : Prop :=
  ∃ ts₁ ts₂, Newlines ts ts₁ ∧ Derives r .statements n ts₁ ts₂ (.nodes ss) ∧ Newlines ts₂ []

theorem Program.statements {s : TokenStream} {block : Node} (h : Program r s block) :
    ∃ ss, Statements r .program s.tokens ss ∧
      block = .block ss (s.tokens.headD s.eof).start s.eof.stop := by
  cases h with
  | mk h₁ h h₂ => exact ⟨_, ⟨_, _, h₁, h, h₂⟩, rfl⟩

theorem Statements.program {s : TokenStream} (h : Statements r .program s.tokens ss) :
    Program r s (.block ss (s.tokens.headD s.eof).start s.eof.stop) := by
  obtain ⟨ts₁, ts₂, h₁, h, h₂⟩ := h
  exact .mk h₁ h h₂

theorem Statements.move {f : Position → Position} (h : Statements r n ts ss) :
    Statements r n (moved f ts) (ss.map (Node.move f)) := by
  obtain ⟨ts₁, ts₂, h₁, h, h₂⟩ := h
  exact ⟨_, _, h₁.move, h.move, h₂.move⟩

theorem Derives.moreStatements_append (h : Derives r .moreStatements n ts rest (.nodes ss))
    (h' : Derives r .moreStatements n rest us (.nodes ss')) :
    Derives r .moreStatements n ts us (.nodes (ss ++ ss')) := by
  induction ss generalizing ts with
  | nil =>
    cases h with
    | lastStatement => exact h'
  | cons s ss ih =>
    cases h with
    | moreStatements ht h₁ hs hss => exact .moreStatements ht h₁ hs (ih hss)

/-- No statement goes on behind a newline with statements behind it. -/
theorem Statements.separates (h : Statements r n ts ss) (hu : u.isNewline) :
    Separates (u :: ts) := by
  refine ⟨hu, ?_⟩
  obtain ⟨ts₁, ts₂, h₁, h, h₂⟩ := h
  cases h with
  | noStatements => exact (Newlines.cons hu (h₁.trans h₂)).barrier barrier_nil
  | statements hs _ =>
    obtain ⟨v, vs, rfl, hv⟩ := hs.opens (by decide)
    exact barrier_of_opens hu h₁ hv (by decide)

/-- Behind a statement newlines and statements may follow. -/
theorem Statements.more (h : Statements r n ts ss) (hu : u.isNewline)
    (hrest : Newlines rest (u :: ts)) :
    ∃ us, Derives r .moreStatements n rest us (.nodes ss) ∧ Newlines us [] := by
  obtain ⟨ts₁, ts₂, h₁, h, h₂⟩ := h
  cases h with
  | noStatements => exact ⟨rest, .lastStatement, hrest.trans (.cons hu (h₁.trans h₂))⟩
  | statements hs hss =>
    cases hrest with
    | nil => exact ⟨ts₂, .moreStatements hu h₁ hs hss, h₂⟩
    | cons ht hrest =>
      exact ⟨ts₂, .moreStatements ht (hrest.trans (.cons hu h₁)) hs hss, h₂⟩

theorem Statements.append (h : Statements r n ts ss) (h' : Statements r n us ss')
    (hu : u.isNewline) : Statements r n (ts ++ u :: us) (ss ++ ss') := by
  have hseparates := h'.separates hu
  obtain ⟨ts₁, ts₂, h₁, h, h₂⟩ := h
  have h₂ : Newlines (ts₂ ++ u :: us) (u :: us) := h₂.append (u :: us)
  cases h with
  | noStatements =>
    obtain ⟨us₁, us₂, h₁', h', h₂'⟩ := h'
    exact ⟨us₁, us₂, ((h₁.append _).trans h₂).trans (.cons hu h₁'), h', h₂'⟩
  | statements hs hss =>
    obtain ⟨vs, hmore, hvs⟩ := h'.more hu h₂
    have hss := (hss.append hseparates).moreStatements_append hmore
    exact ⟨_, vs, h₁.append _, .statements (hs.append hseparates) hss, hvs⟩

end Lumen.Grammar
