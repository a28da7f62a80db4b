import Lumen.Proofs.Grammar.Prefixes
import Lumen.Proofs.Parser.Completeness

/-!
# Rules that stop at the first token that does not fit

A rule that refuses a token has taken tokens that begin its phrase, and what a rule takes is
complete. This is put together as the rules are: first for single tokens, and then with one lemma
for each rule for expressions.
-/

namespace Lumen.Parser

open Grammar
open Relation (Comp)

/-- What a parser takes is complete, and if it refuses a token, those before it are begun. -/
def Stops {α : Type} (eof : Token) (L : Pass) (ts : List Token) :
    Except Failure (α × List Token) → Prop
  | .ok (_, rest) => Done L ts rest
  | .error (.refused d) => ∃ left, d.span = (left.headD eof).span ∧ Begun L ts left
  | .error (.tooDeep _) => True

def Viable {α : Type} (eof : Token) (x : Parser α) (ts : List Token) (L : Pass) : Prop :=
  Stops eof L ts (x.run ts)

variable {α β : Type} {eof t : Token} {ts us : List Token} {L L' L₁ L₂ : Pass}

theorem Stops.map {us : List Token} {r : Except Failure (α × List Token)} (h : Stops eof L ts r)
    (hdone : ∀ rest, Done L ts rest → Done L' us rest)
    (hbegun : ∀ left, Begun L ts left → Begun L' us left) : Stops eof L' us r := by
  cases r with
  | ok r => exact hdone _ h
  | error e =>
    cases e with
    | tooDeep => trivial
    | refused d =>
      obtain ⟨left, hd, h⟩ := h
      exact ⟨left, hd, hbegun left h⟩

theorem Stops.mono {r : Except Failure (α × List Token)} (h : Stops eof L ts r)
    (himp : ∀ us vs, L us vs → L' us vs) : Stops eof L' ts r :=
  h.map (fun _ h => h.mono himp) fun _ h => h.mono himp

theorem Stops.took {r : Except Failure (α × List Token)} (h : Stops eof L ts r)
    (ht : t.isNewline = false) : Stops eof (Took t L) (t :: ts) r :=
  h.map (fun _ h => h.took ht) fun _ h => h.took ht

namespace Viable

variable {x y : Parser α}

theorem mono (h : Viable eof x ts L) (himp : ∀ us vs, L us vs → L' us vs) :
    Viable eof x ts L' := Stops.mono h himp

theorem pure {a : α} (h : Done L ts ts) : Viable eof (Pure.pure a : Parser α) ts L := h

theorem giveUp : Viable eof (Parser.giveUp eof : Parser α) ts L := trivial

/-- A part of a rule and the rest of it. -/
theorem bind {x : Parser β} {f : β → Parser α} (hx : Viable eof x ts L₁) (hready : Ready L₂)
    (hf : ∀ b mid, L₁ ts mid → Viable eof (f b) mid L₂) :
    Viable eof (x >>= f) ts (Comp L₁ L₂) := by
  unfold Viable at hx ⊢
  rw [StateT.run_bind]
  cases hr : x.run ts with
  | ok r =>
    rw [hr] at hx
    have hx : Done L₁ ts r.2 := hx
    exact Stops.map (hf r.1 r.2 hx.leads) (fun _ h => hx.comp h) fun _ h => hx.begun_comp h
  | error e =>
    rw [hr] at hx
    cases e with
    | tooDeep => trivial
    | refused d =>
      obtain ⟨left, hd, h⟩ := hx
      exact ⟨left, hd, h.comp_left hready⟩

/-- What is left to do only makes the result. -/
theorem last {x : Parser β} {f : β → α} (hx : Viable eof x ts L) :
    Viable eof (x >>= fun b => Pure.pure (f b)) ts L := by
  unfold Viable at hx ⊢
  rw [StateT.run_bind]
  cases hr : x.run ts with
  | ok r =>
    rw [hr] at hx
    exact hx
  | error e =>
    rw [hr] at hx
    cases e <;> exact hx

theorem ite {c : Prop} [Decidable c] (hx : c → Viable eof x ts L) (hy : ¬ c → Viable eof y ts L) :
    Viable eof (if c then x else y) ts L := by
  split
  · next h => exact hx h
  · next h => exact hy h

end Viable

/-! ## Single tokens -/

section

variable {kind : TokenKind} {s : String}

/-- What goes on behind a part of a rule that cannot fail. -/
theorem Stops.run {x : Parser β} {f : β → Parser α} {b : β} {vs : List Token}
    (hx : Runs False x us b vs) (h : Stops eof L ts ((f b).run vs)) :
    Stops eof L ts ((x >>= f).run us) := by
  have hx : x.run us = .ok (b, vs) := hx.resolve_right fun h => h.1
  rw [StateT.run_bind, hx]
  exact h

/-- A look at the tokens takes none of them. -/
theorem viable_look {x : Parser β} {f : β → Parser α} {b : β} (hx : Runs False x ts b ts)
    (h : Viable eof (f b) ts L) : Viable eof (x >>= f) ts L := Stops.run hx h

/-- A token that has been seen is taken. -/
theorem viable_take {x : Parser β} {f : β → Parser α} {b : β} (hx : Runs False x (t :: us) b us)
    (ht : t.isNewline = false) (h : Viable eof (f b) us L) :
    Viable eof (x >>= f) (t :: us) (Took t L) :=
  Stops.run hx (Stops.took h ht)

/-- A phrase of a single token. -/
theorem viable_single {f : Token → α} (ht : t.isNewline = false) (hL : ∀ us, L (t :: us) us) :
    Viable eof (advance eof >>= fun u => Pure.pure (f u)) (t :: us) L := by
  have hrest : Viable eof (Pure.pure (f t)) us Eq := Viable.pure (done_nothing (fun _ => rfl) us)
  refine (viable_take runs_advance ht hrest).mono ?_
  rintro _ us ⟨_, rfl, rfl⟩
  exact hL _

theorem viable_set {f : PUnit → Parser α} {t u : Token} (ht : t.isNewline = false)
    (hu : u.isNewline = false) (h : Viable eof (f ⟨⟩) us L) :
    Viable eof (set us >>= f) (t :: u :: us) (Took t (Took u L)) :=
  Stops.took (Stops.took h hu) ht

theorem viable_refuse {c : Complaint} (h : Ready L) :
    Viable eof (refuse eof c : Parser α) ts L := ⟨ts, rfl, h.begun ts⟩

theorem viable_refused {c : Complaint} {f : β → Parser α} (h : Ready L) :
    Viable eof (refuse eof c >>= f) ts L := ⟨ts, rfl, h.begun ts⟩

theorem viable_ifSees {x y : Parser α} (heof : eof.kind = .eof) (hkind : kind ≠ .eof)
    (hx : ∀ t us, ts = t :: us → t.is kind s → Viable eof x (t :: us) L)
    (hy : (ts.headD eof).is kind s = false → Viable eof y ts L) :
    Viable eof (do if ← sees eof kind s then x else y) ts L := by
  apply viable_look runs_sees
  cases ts with
  | nil =>
    have hne : (([] : List Token).headD eof).is kind s = false :=
      Token.is_of_kind heof (Ne.symm hkind) s
    rw [hne]
    exact hy hne
  | cons t us =>
    rw [List.headD_cons]
    cases ht : t.is kind s with
    | true => exact hx t us rfl ht
    | false => exact hy ht

theorem viable_skipNewlines {f : PUnit → Parser α}
    (h : Viable eof (f ⟨⟩) (ts.dropWhile Token.isNewline) L) :
    Viable eof (skipNewlines >>= f) ts (Comp Newlines L) := by
  have hnewlines := (newlines_dropWhile ts).done
  exact Stops.map h (fun _ h => hnewlines.comp h) fun _ h => hnewlines.begun_comp h

theorem not_isNewline_of_is (ht : t.is kind s) (hkind : kind ≠ .newline) :
    t.isNewline = false := by
  rw [Token.isNewline_of_kind (Token.kind_of_is ht), decide_eq_false hkind]

/-- A word that has been seen is taken. -/
theorem viable_advance {f : Token → Parser α} (ht : t.is kind s) (hkind : kind ≠ .newline)
    (h : Viable eof (f t) us L) : Viable eof (advance eof >>= f) (t :: us) (Took t L) :=
  viable_take runs_advance (not_isNewline_of_is ht hkind) h

theorem viable_consumed {f : Token → Parser α} (ht : t.is kind s) (hkind : kind ≠ .newline)
    (h : Viable eof (f t) us L) : Viable eof (consume eof kind s >>= f) (t :: us) (Took t L) :=
  viable_take (runs_consume ht) (not_isNewline_of_is ht hkind) h

theorem Took.word (h : Took t L ts us) (ht : t.is kind s) : Comp (OneWord kind s) L ts us := by
  obtain ⟨vs, rfl, h⟩ := h
  exact ⟨vs, ⟨t, ht, rfl⟩, h⟩

theorem done_took_nothing (ht : t.isNewline = false) : Done (Took t Eq) (t :: us) us :=
  Done.took (done_nothing (fun _ => rfl) us) ht

theorem viable_consume (heof : eof.kind = .eof) (hready : Ready (OneWord kind s))
    (hkind : kind ≠ .eof) (hnewline : kind ≠ .newline) :
    Viable eof (consume eof kind s) ts (OneWord kind s) := by
  refine viable_ifSees heof hkind ?_ fun _ => viable_refuse hready
  rintro t us rfl ht
  refine (done_took_nothing (not_isNewline_of_is ht hnewline)).mono ?_
  rintro _ rest ⟨_, rfl, rfl⟩
  exact ⟨t, ht, rfl⟩

theorem viable_word (heof : eof.kind = .eof) (hw : (kind, s) ∈ barrierWords) :
    Viable eof (consume eof kind s) ts (OneWord kind s) := by
  have hkinds : ∀ word ∈ barrierWords, word.1 ≠ .eof ∧ word.1 ≠ .newline := by decide
  exact viable_consume heof (ready_word hw) (hkinds _ hw).1 (hkinds _ hw).2

theorem run_consume_refused (ht : (ts.headD eof).is kind s = false) :
    (consume eof kind s).run ts = .error (.refused (Diagnostic.onSpan
      (.expected ("'" ++ s ++ "'")) (ts.headD eof).span)) := by
  change (if (ts.headD eof).is kind s then advance eof else refuse eof _).run ts = _
  rw [ht]
  rfl

theorem viable_consumeIdentifier {what : String} (heof : eof.kind = .eof) :
    Viable eof (consumeIdentifier eof what) ts OneName := by
  apply viable_look runs_seesKind
  cases ts with
  | nil =>
    rw [List.headD_nil, heof]
    exact viable_refuse ready_name
  | cons t us =>
    refine Viable.ite (fun ht => ?_) fun _ => viable_refuse ready_name
    have ht : t.kind = .identifier := eq_of_beq ht
    refine (done_took_nothing (Token.isNewline_of_kind ht)).mono ?_
    rintro _ rest ⟨_, rfl, rfl⟩
    exact ⟨t, ht, rfl⟩

end

/-! ## Expressions -/

/-- The rules for nested phrases stop at the first token that does not fit. -/
structure Rules.Viable (eof : Token) (rules : Rules) : Prop where
  expression : ∀ n ts, Parser.Viable eof (rules.expression n) ts (Leads .expression n)
  unary : ∀ n ts, Parser.Viable eof (rules.unary n) ts (Leads .unary n)

def Bracketed (n : Nesting) : Pass := Comp Newlines (Comp (Leads .expression n) Newlines)

section

variable {rules : Rules} {n : Nesting} (heof : eof.kind = .eof) (hrules : rules.Viable eof)

theorem Bracketed.length (h : Bracketed n ts us) : us.length < ts.length := by
  obtain ⟨ts₁, h₁, ts₂, he, h₂⟩ := h
  obtain ⟨e, he⟩ := he.node rfl
  have h₁ := h₁.length_le
  have he := he.length.2 rfl
  have h₂ := h₂.length_le
  omega

theorem Bracketed.derives (h : Bracketed n ts us) : ∃ ts₁ e ts₂, Newlines ts ts₁ ∧
    Derives .greedy .expression n ts₁ ts₂ (.node e) ∧ Newlines ts₂ us := by
  obtain ⟨ts₁, h₁, ts₂, he, h₂⟩ := h
  obtain ⟨e, he⟩ := he.node rfl
  exact ⟨ts₁, e, ts₂, h₁, he, h₂⟩

include hrules

theorem viable_bracketed (ts : List Token) : Viable eof (bracketed rules n) ts (Bracketed n) := by
  apply viable_skipNewlines
  refine Viable.bind (hrules.expression n _) ready_newlines fun e mid _ => ?_
  exact (newlines_dropWhile mid).done

include heof

theorem viable_moreArguments (fuel : List Token) (hfuel : ts.length ≤ fuel.length) :
    Viable eof (moreArguments eof rules n fuel) ts (Leads .moreArguments n) := by
  have hlast (us : List Token) : Leads .moreArguments n us us := ⟨_, .lastArgument⟩
  induction fuel generalizing ts with
  | nil => exact Viable.pure (done_nothing hlast ts)
  | cons _ fuel ih =>
    refine viable_ifSees heof (by decide) ?_ fun _ => Viable.pure (done_nothing hlast ts)
    rintro t us rfl ht
    refine (viable_advance ht (by decide)
      (Viable.bind (viable_bracketed hrules us) (ready_nothing hlast) fun e mid he => ?_)).mono ?_
    · have hlength := he.length
      simp only [List.length_cons] at hfuel
      exact (ih (by omega)).last
    · rintro _ rest ⟨us, rfl, mid, he, hes⟩
      obtain ⟨us₁, e, us₂, h₁, he, h₂⟩ := he.derives
      obtain ⟨es, hes⟩ := hes.nodes rfl
      exact ⟨_, .moreArguments ht h₁ he h₂ hes⟩

theorem viable_arguments {close : String} (ts : List Token) :
    Viable eof (arguments eof rules n close) ts (Leads .arguments n) := by
  have hready : Ready (Leads .moreArguments n) := ready_nothing fun _ => ⟨_, .lastArgument⟩
  refine (viable_skipNewlines (L := Leads .arguments n) ?_).mono ?_
  · refine viable_ifSees heof (by decide) (fun _ us _ _ => ?_) fun _ => ?_
    · exact Viable.pure (done_nothing (fun _ => ⟨_, .noArguments .nil⟩) _)
    · refine (Viable.bind (viable_bracketed hrules _) hready fun e mid _ => viable_look runs_get
        (viable_moreArguments heof hrules mid (Nat.le_refl _)).last).mono ?_
      rintro us rest ⟨mid, he, hes⟩
      obtain ⟨us₁, e, us₂, h₁, he, h₂⟩ := he.derives
      obtain ⟨es, hes⟩ := hes.nodes rfl
      exact ⟨_, .arguments h₁ he h₂ hes⟩
  · rintro us rest ⟨mid, h₁, h⟩
    obtain ⟨es, h⟩ := h.nodes rfl
    cases h with
    | noArguments h₂ => exact ⟨_, .noArguments (h₁.trans h₂)⟩
    | arguments h₂ he h₃ hes => exact ⟨_, .arguments (h₁.trans h₂) he h₃ hes⟩

def IndexEnd (n : Nesting) : Pass := fun ts rest =>
  Comp (OneWord .paren "]") (Tail.suffixes.Goes n) ts rest ∨
    Comp (OneWord .operator ":")
      (Comp (Bracketed n) (Comp (OneWord .paren "]") (Tail.suffixes.Goes n))) ts rest

omit heof hrules in
theorem IndexEnd.goes {t : Token} (ht : t.is .paren "[")
    (h : Comp (Bracketed n) (IndexEnd n) ts us) : Tail.suffixes.Goes n (t :: ts) us := by
  obtain ⟨mid, hfirst, h⟩ := h
  obtain ⟨ts₁, i, ts₂, h₁, hi, h₂⟩ := hfirst.derives
  intro a
  rcases h with ⟨_, ⟨u, hu, rfl⟩, h⟩ | ⟨_, ⟨v, hv, rfl⟩, _, hj, _, ⟨u, hu, rfl⟩, h⟩
  · obtain ⟨e, h⟩ := (h (.index a i none u.stop)).node rfl
    exact ⟨_, .index ht h₁ hi h₂ hu h⟩
  · obtain ⟨ts₃, j, ts₄, h₃, hj, h₄⟩ := hj.derives
    obtain ⟨e, h⟩ := (h (.index a i (some j) u.stop)).node rfl
    exact ⟨_, .slice ht h₁ hi h₂ hv h₃ hj h₄ hu h⟩

theorem viable_postfixes (fuel : List Token) (hfuel : ts.length ≤ fuel.length) (a : Node) :
    Viable eof (postfixes eof rules n fuel a) ts (Tail.suffixes.Goes n) := by
  have hgoes : Ready (Tail.suffixes.Goes n) := Tail.ready_goes _ n
  induction fuel generalizing ts a with
  | nil =>
    obtain rfl := List.length_eq_zero_iff.mp (Nat.le_zero.mp hfuel)
    exact Viable.pure (Tail.done_goes rfl n)
  | cons _ fuel ih =>
    refine viable_ifSees heof (by decide) ?_ fun hround =>
      viable_ifSees heof (by decide) ?_ fun hsquare => Viable.pure (Tail.done_goes ?_ n)
    · rintro t us rfl ht
      refine (viable_advance ht (by decide) (Viable.bind (viable_arguments heof hrules us)
        ((ready_word (by decide)).comp hgoes) fun args mid hargs =>
          Viable.bind (viable_word heof (by decide)) hgoes fun u rest hu => ih ?_ _)).mono ?_
      · obtain ⟨args, hargs⟩ := hargs.nodes rfl
        have hargs := hargs.length.1
        obtain ⟨u, -, rfl⟩ := hu
        simp only [List.length_cons] at hfuel hargs
        omega
      · rintro _ rest ⟨us, rfl, _, hargs, _, ⟨u, hu, rfl⟩, h⟩ a
        obtain ⟨args, hargs⟩ := hargs.nodes rfl
        obtain ⟨e, h⟩ := (h (.call a args u.stop)).node rfl
        exact ⟨_, .call ht hargs hu h⟩
    · rintro t us rfl ht
      have hend : Ready (IndexEnd n) := ((ready_word (by decide)).comp hgoes).mono fun _ _ => .inl
      have hclosing {us : List Token} {f : Token → Node} (hus : us.length ≤ fuel.length + 1) :
          Viable eof (do
            let closing ← consume eof .paren "]"
            postfixes eof rules n fuel (f closing)) us
            (Comp (OneWord .paren "]") (Tail.suffixes.Goes n)) := by
        refine Viable.bind (viable_word heof (by decide)) hgoes ?_
        rintro u rest ⟨v, -, rfl⟩
        exact ih (Nat.le_of_succ_le_succ hus) _
      refine (viable_advance ht (by decide) (Viable.bind
        (viable_bracketed hrules us) hend fun i mid hi => ?_)).mono ?_
      · have hi := hi.length
        simp only [List.length_cons] at hfuel
        refine viable_ifSees heof (by decide) ?_ fun _ => ?_
        · rintro v vs rfl hv
          refine (viable_advance hv (by decide) (Viable.bind
            (viable_bracketed hrules vs) ((ready_word (by decide)).comp hgoes) fun j mid hj =>
            hclosing ?_)).mono fun _ _ h => .inr (Took.word h hv)
          have hj := hj.length
          simp only [List.length_cons] at hi
          omega
        · exact (hclosing (by omega)).mono fun _ _ => .inl
      · rintro _ rest ⟨us, rfl, h⟩
        exact IndexEnd.goes ht h
    · cases ts with
      | nil => rfl
      | cons t us =>
        rw [List.headD_cons] at hround hsquare
        simp [Tail.starts, hround, hsquare]

omit hrules

theorem viable_chain {ℓ : Level} {operand : Parser Node}
    (hoperand : ∀ ts, Viable eof operand ts (Leads ℓ.operand n)) (fuel : List Token)
    (hfuel : ts.length ≤ fuel.length) (a : Node) :
    Viable eof (chain eof operand ℓ.operators fuel a) ts ((Tail.chain ℓ).Goes n) := by
  induction fuel generalizing ts a with
  | nil =>
    obtain rfl := List.length_eq_zero_iff.mp (Nat.le_zero.mp hfuel)
    exact Viable.pure (Tail.done_goes rfl n)
  | cons _ fuel ih =>
    apply viable_look runs_peek
    cases ts with
    | nil =>
      have hnot : isOperatorOf ℓ.operators (([] : List Token).headD eof) = false := by
        rw [List.headD_nil, Bool.eq_false_iff]
        intro hj
        cases heof.symm.trans (@Grammar.kind_of_joins ℓ _ hj)
      rw [if_neg (Bool.eq_false_iff.mp hnot)]
      exact Viable.pure (Tail.done_goes rfl n)
    | cons t us =>
      refine Viable.ite (fun ht => ?_) fun ht => ?_
      swap
      · have hends : (Tail.chain ℓ).starts (t :: us) = false := Bool.eq_false_iff.mpr ht
        exact Viable.pure (Tail.done_goes hends n)
      have hnewline : t.isNewline = false :=
        Token.isNewline_of_kind (@Grammar.kind_of_joins ℓ _ ht)
      refine (viable_take runs_advance hnewline (Viable.bind (hoperand us) (Tail.ready_goes _ n)
        fun b mid hb => ih ?_ _)).mono ?_
      · obtain ⟨b, hb⟩ := hb.node ℓ.shape_operand
        have hb := hb.length.1
        simp only [List.length_cons] at hfuel
        omega
      · rintro _ rest ⟨us, rfl, mid, hb, h⟩ a
        obtain ⟨b, hb⟩ := hb.node ℓ.shape_operand
        obtain ⟨e, h⟩ := (h (.binary a t b)).node rfl
        exact ⟨_, .chain ht hb h⟩

theorem viable_level (ℓ : Level) {operand : Parser Node}
    (hoperand : ∀ ts, Viable eof operand ts (Leads ℓ.operand n)) (ts : List Token) :
    Viable eof (do
      let first ← operand
      chain eof operand ℓ.operators (← get) first) ts (Leads (.level ℓ) n) := by
  refine (Viable.bind (hoperand ts) (Tail.ready_goes _ n) fun a mid _ => viable_look runs_get
    (viable_chain heof hoperand mid (Nat.le_refl _) a)).mono ?_
  rintro us rest ⟨mid, ha, h⟩
  obtain ⟨a, ha⟩ := ha.node ℓ.shape_operand
  obtain ⟨e, h⟩ := (h a).node rfl
  exact ⟨_, .level ha h⟩

include hrules

theorem viable_binary (ts : List Token) :
    Viable eof (binary eof rules n levels) ts (Leads (.level .logical) n) := by
  have hpower := viable_level heof .power (hrules.unary n)
  have hmultiplicative := viable_level heof .multiplicative hpower
  have hadditive := viable_level heof .additive hmultiplicative
  have hrelational := viable_level heof .relational hadditive
  have hequality := viable_level heof .equality hrelational
  exact viable_level heof .logical hequality ts

theorem viable_ternary (ts : List Token) :
    Viable eof (ternary eof rules n) ts (Leads .ternary n) := by
  refine (Viable.bind (viable_binary heof hrules ts) (Tail.choice.ready_goes n)
    fun c mid _ => ?_).mono ?_
  · refine viable_ifSees heof (by decide) ?_ fun hnot => Viable.pure (Tail.done_goes ?_ n)
    · rintro t us rfl ht
      have hexpression := ready_expression n
      refine (viable_advance ht (by decide) (Viable.bind
        (hrules.expression n us) ((ready_word (by decide)).comp hexpression) fun a mid _ =>
          Viable.bind (viable_word heof (by decide)) hexpression fun _ mid _ =>
            (hrules.expression n mid).last)).mono ?_
      rintro _ rest ⟨us, rfl, _, ha, _, ⟨u, hu, rfl⟩, hb⟩ c
      obtain ⟨a, ha⟩ := ha.node rfl
      obtain ⟨b, hb⟩ := hb.node rfl
      exact ⟨_, .choice ht ha hu hb⟩
    · cases mid with
      | nil => rfl
      | cons t us => exact hnot
  · rintro us rest ⟨mid, hc, h⟩
    obtain ⟨c, hc⟩ := hc.node rfl
    obtain ⟨e, h⟩ := (h c).node rfl
    exact ⟨_, .condition hc h⟩

theorem viable_expression (ts : List Token) :
    Viable eof (Parser.expression eof rules n) ts (Leads .expression n) := by
  have hexpression := ready_expression n
  have hternary (ts : List Token) : Viable eof (ternary eof rules n) ts (Leads .expression n) := by
    refine (viable_ternary heof hrules ts).mono fun us vs h => ?_
    obtain ⟨e, h⟩ := h.node rfl
    exact ⟨_, .ternary h⟩
  apply viable_look runs_get
  split
  · next t u us =>
    refine Viable.ite (fun h => ?_) fun _ => Viable.ite (fun h => ?_) fun _ => hternary _
    · rw [Bool.and_eq_true, beq_iff_eq] at h
      refine (viable_set (Token.isNewline_of_kind h.1) (not_isNewline_of_is h.2 (by decide))
        (hrules.expression n us).last).mono ?_
      rintro _ rest ⟨_, rfl, us, rfl, he⟩
      obtain ⟨e, he⟩ := he.node rfl
      exact ⟨_, .assign h.1 h.2 he⟩
    · rw [Bool.and_eq_true, Bool.and_eq_true, beq_iff_eq] at h
      have hequals : Ready (Comp (OneWord .operator "=") (Leads .expression n)) :=
        (ready_word (by decide)).comp hexpression
      refine (viable_set (Token.isNewline_of_kind h.1.1) (not_isNewline_of_is h.1.2 (by decide))
        (Viable.bind (viable_bracketed hrules us) ((ready_word (by decide)).comp hequals)
          fun i mid _ => Viable.bind (viable_word heof (by decide)) hequals fun _ mid _ =>
            Viable.bind (viable_word heof (by decide)) hexpression fun _ mid _ =>
              (hrules.expression n mid).last)).mono ?_
      rintro _ rest ⟨_, rfl, us, rfl, _, hi, _, ⟨v, hv, rfl⟩, _, ⟨w, hw, rfl⟩, he⟩
      obtain ⟨us₁, i, us₂, h₁, hi, h₂⟩ := hi.derives
      obtain ⟨e, he⟩ := he.node rfl
      exact ⟨_, .assignIndex h.1.1 h.1.2 h₁ hi h₂ hv hw he⟩
  · exact hternary _

end

end Lumen.Parser
