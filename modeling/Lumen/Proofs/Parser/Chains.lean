import Lumen.Proofs.Parser.Completeness

/-!
# Chains of operators

Operands with binary operators between them read as one tree only if an operator never stands below
a tighter one, and on its right never below one of its own level. The parser finds that tree. It
goes through a chain in a loop, so the length of a chain needs no nesting; the signs before an
operand do.
-/

namespace Lumen

namespace Grammar

def Level.tightness : Level → Nat
  | logical => 0
  | equality => 1
  | relational => 2
  | additive => 3
  | multiplicative => 4
  | power => 5

theorem Level.tightness_le (ℓ : Level) : ℓ.tightness ≤ 5 := by cases ℓ <;> decide

theorem Level.tightness_injective {ℓ ℓ' : Level} (h : ℓ.tightness = ℓ'.tightness) : ℓ = ℓ' := by
  revert h
  cases ℓ <;> cases ℓ' <;> decide

/-- A literal or a name with any number of signs before it. -/
inductive Operand : List Token → Prop where
  | word {t} : isLiteral t ∨ t.is .keyword "null" → Operand [t]
  | sign {t ts} : isSign t → Operand ts → Operand (t :: ts)

/-- Operands with binary operators between them. -/
inductive Chain : List Token → Prop where
  | operand {ts} : Operand ts → Chain ts
  | link {ts op us} {ℓ : Level} : Chain ts → ℓ.joins op → Operand us → Chain (ts ++ op :: us)

end Grammar

namespace Node

open Grammar (Level Operand Chain Phrase Tail isSign isLiteral)

/-- The words of an expression without brackets, in the order of the text. -/
def reading : Node → List Token
  | number t | text t | null t | lookup t => [t]
  | unary op e => op :: e.reading
  | binary a op b => a.reading ++ op :: b.reading
  | _ => []

def signs : Node → Nat
  | unary _ e => e.signs + 1
  | binary a _ b => max a.signs b.signs
  | _ => 0

/-- The tree of a literal or a name with signs before it. -/
inductive IsOperand : Node → Prop where
  | number {t} : t.kind = .number → IsOperand (.number t)
  | text {t} : t.kind = .text → IsOperand (.text t)
  | null {t} : t.is .keyword "null" → IsOperand (.null t)
  | lookup {t} : t.kind = .identifier → IsOperand (.lookup t)
  | sign {t e} : isSign t → IsOperand e → IsOperand (.unary t e)

/-- An operand, or an operator that binds at least as tightly as `k`; so do the operators on its
left bind as it does or tighter, and those on its right tighter. -/
inductive Layered : Nat → Node → Prop where
  | operand {k e} : IsOperand e → Layered k e
  | binary {k a op b} {ℓ : Level} : ℓ.joins op → k ≤ ℓ.tightness → Layered ℓ.tightness a →
      Layered (ℓ.tightness + 1) b → Layered k (.binary a op b)

section

variable {e a b x : Node} {op : Token} {ts : List Token} {ℓ : Level} {k : Nat}

/-! ## Every chain has a tree -/

theorem exists_operand (h : Operand ts) : ∃ e, IsOperand e ∧ e.reading = ts := by
  induction h with
  | @word t ht =>
    simp only [isLiteral, Bool.or_eq_true, beq_iff_eq] at ht
    rcases ht with ((ht | ht) | ht) | ht
    · exact ⟨_, .number ht, rfl⟩
    · exact ⟨_, .text ht, rfl⟩
    · exact ⟨_, .lookup ht, rfl⟩
    · exact ⟨_, .null ht, rfl⟩
  | @sign t ts ht _ ih =>
    obtain ⟨e, he, rfl⟩ := ih
    exact ⟨.unary t e, .sign ht he, rfl⟩

/-- A further operand goes below the operators on the right that bind less tightly. -/
theorem Layered.link (he : Layered k e) (hop : ℓ.joins op) (hk : k ≤ ℓ.tightness)
    (hx : IsOperand x) : ∃ e', Layered k e' ∧ e'.reading = e.reading ++ op :: x.reading := by
  induction he with
  | @operand k e he => exact ⟨.binary e op x, .binary hop hk (.operand he) (.operand hx), rfl⟩
  | @binary k a op' b ℓ' hop' hk' ha hb _ ihb =>
    by_cases hℓ : ℓ.tightness ≤ ℓ'.tightness
    · have hleft : Layered ℓ.tightness (.binary a op' b) := .binary hop' hℓ ha hb
      exact ⟨.binary (.binary a op' b) op x, .binary hop hk hleft (.operand hx), rfl⟩
    · obtain ⟨b', hb', hreading⟩ := ihb (by omega)
      refine ⟨.binary a op' b', .binary hop' hk' ha hb', ?_⟩
      rw [reading, hreading, reading, List.append_assoc, List.cons_append]

theorem exists_layered (h : Chain ts) : ∃ e, Layered 0 e ∧ e.reading = ts := by
  induction h with
  | operand h =>
    obtain ⟨e, he, hreading⟩ := exists_operand h
    exact ⟨e, .operand he, hreading⟩
  | link _ hop hus ih =>
    obtain ⟨e, he, rfl⟩ := ih
    obtain ⟨x, hx, rfl⟩ := exists_operand hus
    exact he.link hop (Nat.zero_le _) hx

/-- No operator binds tighter than those of the last level. -/
theorem Layered.isOperand (h : Layered k e) (hk : 5 < k) : IsOperand e := by
  cases h with
  | operand h => exact h
  | @binary _ _ _ _ ℓ _ hℓ _ _ =>
    have hle := ℓ.tightness_le
    omega

/-- The words of a tree start like an operand. -/
theorem Layered.opens (h : Layered k e) : ∃ t ts, e.reading = t :: ts ∧ Phrase.unary.Opens t := by
  induction h with
  | operand h =>
    cases h with
    | number ht | text ht | lookup ht => exact ⟨_, _, rfl, .inl (by simp [isLiteral, ht])⟩
    | null ht => exact ⟨_, _, rfl, Phrase.opens_of_is ht (by decide)⟩
    | sign ht _ =>
      refine ⟨_, _, rfl, ?_⟩
      obtain ⟨s, hs, ht⟩ := List.any_eq_true.mp ht
      simp only [List.mem_cons, List.not_mem_nil, or_false] at hs
      rcases hs with rfl | rfl | rfl <;> exact Phrase.opens_of_is ht (by decide)
  | binary _ _ _ _ ih _ =>
    obtain ⟨t, ts, hreading, ht⟩ := ih
    exact ⟨t, _, by rw [reading, hreading, List.cons_append], ht⟩

/-- Behind a name at the front there can only be an operator. -/
theorem Layered.joins_second {t u : Token} (h : Layered k e) (hreading : e.reading = t :: u :: ts)
    (ht : t.kind = .identifier) : ∃ ℓ : Level, ℓ.joins u := by
  induction h generalizing ts with
  | operand h =>
    cases h with
    | sign hsign _ =>
      obtain ⟨rfl, -⟩ := List.cons.inj hreading
      cases ht.symm.trans (Grammar.kind_of_isSign hsign)
    | _ => cases hreading
  | @binary _ a op _ ℓ hop _ ha _ ih _ =>
    rw [reading] at hreading
    obtain ⟨v, vs, hv, -⟩ := ha.opens
    rw [hv] at hreading ih
    cases vs with
    | nil =>
      obtain ⟨-, hreading⟩ := List.cons.inj hreading
      obtain ⟨rfl, -⟩ := List.cons.inj hreading
      exact ⟨ℓ, hop⟩
    | cons w ws =>
      obtain ⟨hv, hreading⟩ := List.cons.inj hreading
      obtain ⟨hw, -⟩ := List.cons.inj hreading
      exact ih (by rw [hv, hw])

end

end Node

namespace Parser

open Grammar (Level Phrase Tail)
open Node (IsOperand Layered)

variable {eof : Token} {rules : Rules} {n : Nesting} {deep : Prop} {e x : Node} {k bound : Nat}
  {us rest : List Token}

/-- What is read at the tightness `k` or tighter ends before the tokens. -/
structure Ends (k : Nat) (ts : List Token) : Prop where
  suffixes : Tail.suffixes.starts ts = false
  chain : ∀ ℓ : Level, k ≤ ℓ.tightness → (Tail.chain ℓ).starts ts = false

theorem Ends.mono {k' : Nat} (h : Ends k us) (hk : k ≤ k') : Ends k' us :=
  ⟨h.suffixes, fun ℓ hℓ => h.chain ℓ (Nat.le_trans hk hℓ)⟩

theorem ends_nil (k : Nat) : Ends k [] := ⟨rfl, fun _ _ => rfl⟩

/-- Before an operator everything ends that binds tighter. -/
theorem ends_of_joins {ℓ : Level} {op : Token} (hop : ℓ.joins op) :
    Ends (ℓ.tightness + 1) (op :: us) := by
  have hstarts : (Tail.chain ℓ).starts (op :: us) := Tail.starts_chain hop
  refine ⟨?_, fun ℓ' hℓ' => ?_⟩
  · rw [Bool.eq_false_iff]
    exact fun h => Tail.noConfusion (Tail.eq_of_starts h hstarts)
  · rw [Bool.eq_false_iff]
    intro h
    cases Tail.eq_of_starts h hstarts
    omega

/-! ## Operands -/

theorem runs_noSuffixes (heof : eof.kind = .eof) (hrest : Tail.suffixes.starts rest = false)
    (fuel : List Token) (a : Node) : Runs deep (postfixes eof rules n fuel a) rest a rest := by
  have hnot (s : String) (hs : s = "(" ∨ s = "[") : (rest.headD eof).is .paren s = false := by
    rw [headD_is heof (by decide)]
    cases rest with
    | nil => rfl
    | cons t us => rcases hs with rfl | rfl <;> simp_all [Tail.starts]
  cases fuel with
  | nil => exact Runs.pure
  | cons _ fuel => exact runs_unseen (hnot _ (.inl rfl)) (runs_unseen (hnot _ (.inr rfl)) Runs.pure)

/-- A phrase of one word with nothing behind it. -/
theorem runs_word (heof : eof.kind = .eof) {t : Token} (hsign : Grammar.isSign t = false)
    (h : Runs deep (primary eof rules n) (t :: rest) e rest)
    (hrest : Tail.suffixes.starts rest = false) :
    Runs deep (Parser.unary eof rules n) (t :: rest) e rest := by
  apply Runs.bind runs_peek
  apply Runs.ite_neg (Bool.eq_false_iff.mp hsign)
  apply Runs.bind h
  apply Runs.bind runs_get
  exact runs_noSuffixes heof hrest rest e

theorem not_isSign_of_kind {t : Token} (h : t.kind ≠ .operator) : Grammar.isSign t = false := by
  rw [Bool.eq_false_iff]
  exact fun hsign => h (Grammar.kind_of_isSign hsign)

/-- An operand nests as deep as it has signs. -/
theorem runs_operand (heof : eof.kind = .eof) (h : IsOperand e)
    (hrest : Tail.suffixes.starts rest = false) (depth : Nat) :
    Runs (depth ≤ e.signs) ((Rules.upTo eof depth).unary n) (e.reading ++ rest) e rest := by
  induction h generalizing depth with
  | number ht =>
    cases depth with
    | zero => exact Runs.giveUp (Nat.zero_le _)
    | succ depth =>
      apply runs_word heof (not_isSign_of_kind (by simp [ht])) _ hrest
      apply Runs.bind runs_peek
      apply Runs.ite_pos (by simp [ht])
      exact Runs.bind runs_advance Runs.pure
  | text ht =>
    cases depth with
    | zero => exact Runs.giveUp (Nat.zero_le _)
    | succ depth =>
      apply runs_word heof (not_isSign_of_kind (by simp [ht])) _ hrest
      apply Runs.bind runs_peek
      apply Runs.ite_neg (by simp [ht])
      apply Runs.ite_pos (by simp [ht])
      exact Runs.bind runs_advance Runs.pure
  | lookup ht =>
    cases depth with
    | zero => exact Runs.giveUp (Nat.zero_le _)
    | succ depth =>
      apply runs_word heof (not_isSign_of_kind (by simp [ht])) _ hrest
      apply Runs.bind runs_peek
      iterate 2 apply Runs.ite_neg (by simp [ht])
      apply Runs.ite_pos (by simp [ht])
      exact Runs.bind runs_advance Runs.pure
  | null ht =>
    cases depth with
    | zero => exact Runs.giveUp (Nat.zero_le _)
    | succ depth =>
      have hkind := Token.kind_of_is ht
      apply runs_word heof (not_isSign_of_kind (by simp [hkind])) _ hrest
      apply Runs.bind runs_peek
      iterate 3 apply Runs.ite_neg (by simp [hkind])
      apply Runs.ite_pos ht
      exact Runs.bind runs_advance Runs.pure
  | sign ht _ ih =>
    cases depth with
    | zero => exact Runs.giveUp (Nat.zero_le _)
    | succ depth =>
      apply Runs.bind runs_peek
      apply Runs.ite_pos ht
      apply Runs.bind runs_advance
      exact Runs.bind ((ih depth).mono Nat.succ_le_succ) Runs.pure

/-! ## Levels -/

/-- The parser reads the trees of the tightness `k` that have no more than `bound` signs before an
operand. -/
def ReadsLayer (deep : Prop) (bound k : Nat) (x : Parser Node) : Prop :=
  ∀ ⦃e rest⦄, Layered k e → e.signs ≤ bound → Ends k rest → Runs deep x (e.reading ++ rest) e rest

/-- A level reads the operands on the left of its operators and goes on in the loop. -/
theorem runs_level_left {ℓ : Level} {operand : Parser Node} {left result : Node}
    (hoperand : ReadsLayer deep bound (ℓ.tightness + 1) operand) (h : Layered k left)
    (hk : k = ℓ.tightness) (hsigns : left.signs ≤ bound) (hus : Ends (ℓ.tightness + 1) us)
    (hloop : ∀ fuel : List Token, us.length ≤ fuel.length →
      Runs deep (chain eof operand ℓ.operators fuel left) us result rest) :
    Runs deep (do
      let first ← operand
      chain eof operand ℓ.operators (← get) first) (left.reading ++ us) result rest := by
  -- The induction is on what the loop has put together.
  induction h generalizing us with
  | operand h =>
    apply Runs.bind (hoperand (.operand h) hsigns hus)
    exact Runs.bind runs_get (hloop us (Nat.le_refl _))
  | @binary k a op b ℓ' hop hℓ' ha hb iha _ =>
    subst hk
    rcases Nat.lt_or_eq_of_le hℓ' with hlt | heq
    · apply Runs.bind (hoperand (.binary hop hlt ha hb) hsigns hus)
      exact Runs.bind runs_get (hloop us (Nat.le_refl _))
    · obtain rfl := Level.tightness_injective heq
      have ha' : a.signs ≤ bound := Nat.le_trans (Nat.le_max_left _ _) hsigns
      have hb' : b.signs ≤ bound := Nat.le_trans (Nat.le_max_right _ _) hsigns
      rw [Node.reading, List.append_assoc, List.cons_append]
      apply iha rfl ha' (ends_of_joins hop)
      intro fuel hfuel
      cases fuel with
      | nil => cases hfuel
      | cons _ fuel =>
        apply Runs.bind runs_peek
        apply Runs.ite_pos hop
        apply Runs.bind runs_advance
        apply Runs.bind (hoperand hb hb' hus)
        apply hloop fuel
        simp only [List.length_cons, List.length_append] at hfuel
        omega

theorem readsLayer_level (heof : eof.kind = .eof) (ℓ : Level) {operand : Parser Node}
    (hoperand : ReadsLayer deep bound (ℓ.tightness + 1) operand) :
    ReadsLayer deep bound ℓ.tightness (do
      let first ← operand
      chain eof operand ℓ.operators (← get) first) := by
  intro e rest h hsigns hrest
  apply runs_level_left hoperand h rfl hsigns (hrest.mono (Nat.le_succ _))
  intro fuel _
  cases fuel with
  | nil => exact Runs.pure
  | cons _ fuel =>
    apply Runs.bind runs_peek
    apply Runs.ite_neg _ Runs.pure
    cases rest with
    | nil => exact fun hjoins => by cases heof.symm.trans (@Grammar.kind_of_joins ℓ _ hjoins)
    | cons t ts => exact Bool.eq_false_iff.mp (hrest.chain ℓ (Nat.le_refl _))

theorem readsLayer_binary (heof : eof.kind = .eof) (depth bound : Nat) :
    ReadsLayer (depth ≤ bound) bound 0 (binary eof (Rules.upTo eof depth) n levels) := by
  have hunary : ReadsLayer (depth ≤ bound) bound 6 ((Rules.upTo eof depth).unary n) := by
    intro e rest h hsigns hrest
    have hoperand := h.isOperand (Nat.lt_succ_self 5)
    exact (runs_operand heof hoperand hrest.suffixes depth).mono fun hle => Nat.le_trans hle hsigns
  have hpower := readsLayer_level heof .power hunary
  have hmultiplicative := readsLayer_level heof .multiplicative hpower
  have hadditive := readsLayer_level heof .additive hmultiplicative
  have hrelational := readsLayer_level heof .relational hadditive
  have hequality := readsLayer_level heof .equality hrelational
  exact readsLayer_level heof .logical hequality

/-! ## Programs -/

/-- A chain at the end of a text is no assignment. -/
theorem runs_chainExpression (heof : eof.kind = .eof) (h : Layered 0 e) (depth : Nat) :
    Runs (depth < e.signs + 2) ((Rules.upTo eof depth).expression n) e.reading e [] := by
  cases depth with
  | zero => exact Runs.giveUp (Nat.succ_pos _)
  | succ depth =>
    have hternary : Runs (depth + 1 < e.signs + 2) (ternary eof (Rules.upTo eof depth) n) e.reading
        e [] := by
      have hbinary := readsLayer_binary (n := n) heof depth e.signs h (Nat.le_refl _) (ends_nil 0)
      rw [List.append_nil] at hbinary
      have hend : (([] : List Token).headD eof).is .operator "?" = false :=
        Token.is_of_kind heof (by decide) _
      apply Runs.bind (hbinary.mono (by omega))
      exact runs_unseen hend Runs.pure
    apply Runs.bind runs_get
    have hsecond {t u : Token} {ts : List Token} (hreading : e.reading = t :: u :: ts)
        (ht : t.kind = .identifier) : u.is .operator "=" = false ∧ u.is .paren "[" = false := by
      obtain ⟨ℓ, hu⟩ := h.joins_second hreading ht
      refine ⟨?_, Token.is_of_kind (Grammar.kind_of_joins hu) (by decide) _⟩
      rw [Bool.eq_false_iff]
      exact fun hequals => Bool.eq_false_iff.mp (ℓ.not_joins_sign hequals (by decide)) hu
    split
    · next t u ts hreading =>
      by_cases ht : t.kind = .identifier
      · obtain ⟨hequals, hsquare⟩ := hsecond hreading ht
        apply Runs.ite_neg (by simp [hequals])
        exact Runs.ite_neg (by simp [hsquare]) (hreading ▸ hternary)
      · apply Runs.ite_neg (by simp [ht])
        exact Runs.ite_neg (by simp [ht]) (hreading ▸ hternary)
    · exact hternary

theorem runs_chainProgram {s : TokenStream} (heof : s.eof.kind = .eof) (h : Layered 0 e)
    (hreading : e.reading = s.tokens) (depth : Nat) :
    Runs (depth < e.signs + 2) (program s.eof (Rules.upTo s.eof depth)) s.tokens
      (.block [e] (s.tokens.headD s.eof).start s.eof.stop) [] := by
  obtain ⟨t, ts, hts, ht⟩ := h.opens
  rw [hreading] at hts
  have hexpression := runs_chainExpression (n := .program) heof h depth
  rw [hreading, hts] at hexpression
  have hkind : (t.kind == .eof) = false := beq_false_of_ne (ht.kind_ne (.inr rfl))
  have hbreaks : breaks (t :: ts) = false := ht.not_isNewline
  have hstatement : Runs (depth < e.signs + 2)
      (statement s.eof (Rules.upTo s.eof depth) .program) (t :: ts) e [] := by
    apply Runs.bind runs_peek
    apply Runs.ite_neg (by simp [ht.not_is .keyword "return" (by decide) (by decide)])
    apply Runs.ite_neg (by simp [ht.not_is .keyword "break" (by decide) (by decide)])
    apply Runs.ite_neg (by simp [ht.not_is .keyword "continue" (by decide) (by decide)])
    exact hexpression
  rw [hts]
  apply Runs.bind runs_peek
  refine Runs.bind (a := [e]) ?_ Runs.pure
  apply Runs.bind (runs_skipNewlines .nil hbreaks)
  apply Runs.bind runs_get
  apply Runs.bind runs_seesKind
  apply Runs.bind runs_seesKind
  apply Runs.ite_neg (by simp [hkind])
  apply Runs.bind hstatement
  apply Runs.bind runs_seesKind
  apply Runs.bind runs_seesKind
  apply Runs.ite_pos (by simp [heof])
  apply Runs.bind (runs_skipNewlines .nil rfl)
  refine Runs.bind (a := []) ?_ Runs.pure
  cases ts with
  | nil => exact Runs.pure
  | cons _ _ =>
    apply Runs.bind runs_seesKind
    apply Runs.bind runs_seesKind
    exact Runs.ite_pos (by simp [heof]) Runs.pure

theorem ofTokens_of_layered {s : TokenStream} (heof : s.eof.kind = .eof) (h : Layered 0 e)
    (hreading : e.reading = s.tokens) (depth : Nat) :
    Node.ofTokens depth s = .ok (.block [e] (s.tokens.headD s.eof).start s.eof.stop) ∨
      depth < e.signs + 2 ∧
        Node.TooDeep (Node.ofTokens depth s) :=
  ofTokens_of_runs (runs_chainProgram heof h hreading depth)

/-- A chain of any length is parsed as the one tree that reads like it and is layered, unless the
signs before one operand nest too deep. -/
theorem ofTokens_chain {s : TokenStream} (heof : s.eof.kind = .eof)
    (h : Grammar.Chain s.tokens) :
    ∃ e, Layered 0 e ∧ e.reading = s.tokens ∧
      (∀ e', Layered 0 e' → e'.reading = s.tokens → e' = e) ∧
      ∀ depth,
        Node.ofTokens depth s = .ok (.block [e] (s.tokens.headD s.eof).start s.eof.stop) ∨
          depth < e.signs + 2 ∧
            Node.TooDeep (Node.ofTokens depth s) := by
  obtain ⟨e, he, hreading⟩ := Node.exists_layered h
  refine ⟨e, he, hreading, fun e' he' hreading' => ?_, ofTokens_of_layered heof he hreading⟩
  -- The parser returns both trees where neither nests too deep.
  let depth := max (e.signs + 2) (e'.signs + 2)
  have hparsed := (ofTokens_of_layered heof he hreading depth).resolve_right
    fun h => Nat.not_lt.mpr (Nat.le_max_left _ _) h.1
  have hparsed' := (ofTokens_of_layered heof he' hreading' depth).resolve_right
    fun h => Nat.not_lt.mpr (Nat.le_max_right _ _) h.1
  have hblock := Except.ok.inj (hparsed'.symm.trans hparsed)
  injection hblock with hstatements
  exact (List.cons.inj hstatements).1

/-- In `a - -b ^ c` the signed name is the first operand of the power. -/
theorem ofTokens_chain_power :
    let p : Position := ⟨"f", 1, 1, 0⟩
    let word (kind : TokenKind) (s : String) : Token := ⟨kind, .text s, p, p⟩
    let name (s : String) := word .identifier s
    let minus := word .operator "-"
    let power := word .operator "^"
    let s : TokenStream := ⟨[name "a", minus, minus, name "b", power, name "c"], ⟨.eof, .null, p, p⟩⟩
    let e : Node := .binary (.lookup (name "a")) minus
      (.binary (.unary minus (.lookup (name "b"))) power (.lookup (name "c")))
    s.eof.kind = .eof ∧ Grammar.Chain s.tokens ∧ Layered 0 e ∧ e.reading = s.tokens ∧
      ∀ depth, Node.ofTokens depth s = .ok (.block [e] p p) ∨
        depth < 3 ∧ Node.TooDeep (Node.ofTokens depth s) := by
  intro p word name minus power s e
  have hname (t : String) : Grammar.Operand [name t] := .word (.inl rfl)
  have hchain : Grammar.Chain s.tokens :=
    .link (ℓ := .power) (.link (ℓ := .additive) (.operand (hname "a")) (by decide)
      (.sign (by decide) (hname "b"))) (by decide) (hname "c")
  have hlayered : Layered 0 e := by
    have hpower : Layered 4 (.binary (.unary minus (.lookup (name "b"))) power
        (.lookup (name "c"))) :=
      .binary (ℓ := .power) (by decide) (by decide) (.operand (.sign (by decide) (.lookup rfl)))
        (.operand (.lookup rfl))
    exact .binary (ℓ := .additive) (by decide) (by decide) (.operand (.lookup rfl)) hpower
  obtain ⟨e', he', hreading', hunique, hparsed⟩ := ofTokens_chain (s := s) rfl hchain
  obtain rfl := hunique e hlayered rfl
  exact ⟨rfl, hchain, hlayered, rfl, hparsed⟩

end Parser

end Lumen
