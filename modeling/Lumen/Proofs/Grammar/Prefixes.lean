import Mathlib.Logic.Relation
import Lumen.Proofs.Grammar.Greedy

/-!
# Tokens that begin a phrase

Some tokens begin a phrase if the phrase leads over them and over a few tokens more. What is begun
behind a phrase that is complete has been begun with that phrase, and so has what a later part of a
phrase begins. A phrase that ended where a tail could go on is not complete any more if other tokens
are put behind it; therefore what is put behind a begun phrase carries on no tail, unless the phrase
has taken a token that shields the phrases before it.
-/

namespace Lumen.Grammar

open Lumen.Parser (Nesting)
open Relation (Comp)

/-- What leads from some tokens to those behind it. -/
abbrev Pass := List Token → List Token → Prop

/-- What has ended before the tokens `p` does not go on if `vs` stand behind them. -/
def Guarded (p vs : List Token) : Prop := Barrier (p ++ vs) ∨ ∃ t ∈ p, t.isNewline = false

def Endless (c : List Token) : Prop := ∀ t ∈ c, t.kind ≠ .eof

/-- The tokens before `left` begin what leads over them: it leads over them and over some more
tokens, whatever stands behind these that carries on no tail. -/
def Begun (L : Pass) (ts left : List Token) : Prop :=
  ∃ p c, ts = p ++ left ∧ Endless c ∧
    ∀ us, Barrier us → Guarded p (c ++ us) ∧ L (p ++ (c ++ us)) us

/-- Some tokens are enough for it, and they carry on nothing that stands before them. -/
def Ready (L : Pass) : Prop :=
  ∃ c, Endless c ∧ ∀ us, Barrier us → Barrier (c ++ us) ∧ L (c ++ us) us

/-- It leads up to `rest`, and it does so too if only the first tokens of `rest` are kept. -/
structure Done (L : Pass) (ts rest : List Token) : Prop where
  leads : L ts rest
  begun : Begun L ts rest
  kept : ∃ q, ts = q ++ rest ∧ ∀ p left vs, rest = p ++ left → p ≠ [] → Guarded p vs →
    L (q ++ (p ++ vs)) (p ++ vs)

def Took (t : Token) (L : Pass) : Pass := fun ts rest => ∃ us, ts = t :: us ∧ L us rest

def OneWord (k : TokenKind) (s : String) : Pass := fun ts rest => ∃ t, t.is k s ∧ ts = t :: rest

def OneName : Pass := fun ts rest => ∃ t, t.kind = .identifier ∧ ts = t :: rest

def Tail.Goes (τ : Tail) (n : Nesting) : Pass :=
  fun ts rest => ∀ left, Leads (τ.phrase left) n ts rest

section

variable {L L' L₁ L₂ : Pass} {p q ts us vs mid rest left : List Token} {t : Token} {τ : Tail}

theorem endless_nil : Endless [] := List.forall_mem_nil _

theorem Endless.append {c c' : List Token} (h : Endless c) (h' : Endless c') : Endless (c ++ c') :=
  List.forall_mem_append.mpr ⟨h, h'⟩

/-! ## What stands behind -/

theorem newlines_append (hq : ∀ t ∈ q, t.isNewline) (us : List Token) : Newlines (q ++ us) us := by
  induction q with
  | nil => exact .nil
  | cons t q ih =>
    obtain ⟨ht, hq⟩ := List.forall_mem_cons.mp hq
    exact .cons ht (ih hq)

theorem Newlines.exists_append (h : Newlines ts rest) :
    ∃ q, ts = q ++ rest ∧ ∀ t ∈ q, t.isNewline := by
  induction h with
  | nil => exact ⟨[], rfl, List.forall_mem_nil _⟩
  | @cons t ts rest ht _ ih =>
    obtain ⟨q, rfl, hq⟩ := ih
    exact ⟨t :: q, rfl, List.forall_mem_cons.mpr ⟨ht, hq⟩⟩

theorem guarded_of_mem (ht : t ∈ p) (hnewline : t.isNewline = false) : Guarded p vs :=
  .inr ⟨t, ht, hnewline⟩

theorem Guarded.append_left (h : Guarded p vs) (q : List Token) : Guarded (q ++ p) vs := by
  rcases h with h | ⟨t, ht, hnewline⟩
  · by_cases hq : ∃ t ∈ q, t.isNewline = false
    · obtain ⟨t, ht, hnewline⟩ := hq
      exact guarded_of_mem (List.mem_append_left _ ht) hnewline
    · have hq : ∀ t ∈ q, t.isNewline :=
        fun t ht => Bool.of_not_eq_false fun hnewline => hq ⟨t, ht, hnewline⟩
      rw [Guarded, List.append_assoc]
      exact .inl ((newlines_append hq _).barrier h)
  · exact guarded_of_mem (List.mem_append_right _ ht) hnewline

/-- A tail that cannot go on before the tokens that are kept still cannot. -/
theorem Guarded.starts (h : Guarded p vs) (hp : p ≠ []) (hτ : τ.starts (p ++ left) = false) :
    τ.starts (p ++ vs) = false := by
  rcases h with h | ⟨u, hu, hnewline⟩
  · exact h τ
  · induction p with
    | nil => cases hu
    | cons t p ih =>
      cases τ with
      | clauses =>
        cases ht : t.isNewline with
        | false =>
          rw [List.cons_append, starts_clauses_cons ht] at hτ ⊢
          exact hτ
        | true =>
          have hdrop (us : List Token) : Tail.clauses.starts (t :: us) = Tail.clauses.starts us :=
            (Newlines.cons ht .nil).starts_clauses
          rw [List.cons_append, hdrop] at hτ ⊢
          rcases List.mem_cons.mp hu with rfl | hu
          · exact (Bool.false_ne_true (hnewline.symm.trans ht)).elim
          · exact ih (List.ne_nil_of_mem hu) hτ hu
      | _ => exact hτ

theorem barrier_of_kind (hk : t.kind = .identifier ∨ t.kind = .keyword)
    (helif : t.is .keyword "elif" = false) (helse : t.is .keyword "else" = false) :
    Barrier (t :: ts) := by
  have hnot (k : TokenKind) (h : k ≠ .identifier ∧ k ≠ .keyword) (s : String) :
      t.is k s = false := by
    rcases hk with hk | hk
    · exact Token.is_of_kind hk h.1.symm s
    · exact Token.is_of_kind hk h.2.symm s
  refine barrier_of_not_accepts fun τ => ?_
  cases τ with
  | chain ℓ =>
    intro hj
    rw [Tail.Accepts] at hj
    have := kind_of_joins hj
    rcases hk with hk | hk <;> cases hk.symm.trans this
  | choice => simp [Tail.Accepts, hnot .operator (by decide)]
  | suffixes => simp [Tail.Accepts, hnot .paren (by decide)]
  | clauses =>
    have hnewline : t.isNewline = false := by
      rcases hk with hk | hk <;> exact Token.isNewline_of_kind hk
    simp [Tail.Accepts, hnewline, helif, helse]

/-! ## Complete and begun -/

theorem Begun.mono (h : Begun L ts left) (himp : ∀ us vs, L us vs → L' us vs) :
    Begun L' ts left := by
  obtain ⟨p, c, rfl, hc, h⟩ := h
  exact ⟨p, c, rfl, hc, fun us hus => ⟨(h us hus).1, himp _ _ (h us hus).2⟩⟩

theorem Done.mono (h : Done L ts rest) (himp : ∀ us vs, L us vs → L' us vs) : Done L' ts rest := by
  obtain ⟨q, rfl, hkept⟩ := h.kept
  exact ⟨himp _ _ h.leads, h.begun.mono himp, q, rfl,
    fun p left vs hrest hp hvs => himp _ _ (hkept p left vs hrest hp hvs)⟩

theorem Ready.mono (h : Ready L) (himp : ∀ us vs, L us vs → L' us vs) : Ready L' := by
  obtain ⟨c, hc, h⟩ := h
  exact ⟨c, hc, fun us hus => ⟨(h us hus).1, himp _ _ (h us hus).2⟩⟩

theorem Ready.begun (h : Ready L) (ts : List Token) : Begun L ts ts := by
  obtain ⟨c, hc, h⟩ := h
  exact ⟨[], c, rfl, hc, fun us hus => ⟨.inl (h us hus).1, (h us hus).2⟩⟩

theorem Ready.comp (h₁ : Ready L₁) (h₂ : Ready L₂) : Ready (Comp L₁ L₂) := by
  obtain ⟨c₁, hc₁, h₁⟩ := h₁
  obtain ⟨c₂, hc₂, h₂⟩ := h₂
  refine ⟨c₁ ++ c₂, hc₁.append hc₂, fun us hus => ?_⟩
  obtain ⟨hbarrier, hleads⟩ := h₂ us hus
  obtain ⟨hbarrier', hleads'⟩ := h₁ _ hbarrier
  rw [List.append_assoc]
  exact ⟨hbarrier', _, hleads', hleads⟩

/-- What is begun in the first part is completed by all of that part and the second one. -/
theorem Begun.comp_left (h : Begun L₁ ts left) (h₂ : Ready L₂) : Begun (Comp L₁ L₂) ts left := by
  obtain ⟨p, c₁, rfl, hc₁, h⟩ := h
  obtain ⟨c₂, hc₂, h₂⟩ := h₂
  refine ⟨p, c₁ ++ c₂, rfl, hc₁.append hc₂, fun us hus => ?_⟩
  obtain ⟨hbarrier, hleads⟩ := h₂ us hus
  obtain ⟨hguarded, hleads'⟩ := h _ hbarrier
  rw [List.append_assoc]
  exact ⟨hguarded, _, hleads', hleads⟩

/-- What is begun behind a complete first part. -/
theorem Done.begun_comp (h : Done L₁ ts mid) (h₂ : Begun L₂ mid left) :
    Begun (Comp L₁ L₂) ts left := by
  obtain ⟨p, c, rfl, hc, h₂⟩ := h₂
  by_cases hp : p = []
  · subst hp
    -- Nothing of the second part is there, so the first part may need more tokens itself.
    obtain ⟨p, c₁, rfl, hc₁, h₁⟩ := h.begun
    refine ⟨p, c₁ ++ c, rfl, hc₁.append hc, fun us hus => ?_⟩
    obtain ⟨hguarded, hleads⟩ := h₂ us hus
    have hbarrier : Barrier (c ++ us) := hguarded.resolve_right fun ⟨_, ht, _⟩ => nomatch ht
    obtain ⟨hguarded₁, hleads₁⟩ := h₁ _ hbarrier
    rw [List.append_assoc]
    exact ⟨hguarded₁, _, hleads₁, hleads⟩
  · obtain ⟨q, rfl, hkept⟩ := h.kept
    refine ⟨q ++ p, c, (List.append_assoc q p left).symm, hc, fun us hus => ?_⟩
    obtain ⟨hguarded, hleads⟩ := h₂ us hus
    refine ⟨hguarded.append_left q, _, ?_, hleads⟩
    rw [List.append_assoc]
    exact hkept p left _ rfl hp hguarded

theorem Done.comp (h₁ : Done L₁ ts mid) (h₂ : Done L₂ mid rest) : Done (Comp L₁ L₂) ts rest := by
  refine ⟨⟨mid, h₁.leads, h₂.leads⟩, h₁.begun_comp h₂.begun, ?_⟩
  obtain ⟨q₁, rfl, hkept₁⟩ := h₁.kept
  obtain ⟨q₂, rfl, hkept₂⟩ := h₂.kept
  refine ⟨q₁ ++ q₂, (List.append_assoc q₁ q₂ rest).symm, fun p left vs hrest hp hvs => ?_⟩
  refine ⟨q₂ ++ (p ++ vs), ?_, hkept₂ p left vs hrest hp hvs⟩
  have hp' : q₂ ++ p ≠ [] := List.append_ne_nil_of_right_ne_nil q₂ hp
  have hleads := hkept₁ (q₂ ++ p) left vs (by rw [hrest, List.append_assoc]) hp'
    (hvs.append_left q₂)
  rw [List.append_assoc] at hleads ⊢
  exact hleads

/-! ## Tokens -/

/-- What leads nowhere is always complete. -/
theorem done_nothing (h : ∀ us, L us us) (ts : List Token) : Done L ts ts :=
  ⟨h ts, ⟨[], [], rfl, endless_nil, fun us hus => ⟨.inl hus, h us⟩⟩, [], rfl,
    fun _ _ _ _ _ _ => h _⟩

theorem ready_nothing (h : ∀ us, L us us) : Ready L :=
  ⟨[], endless_nil, fun us hus => ⟨hus, h us⟩⟩

/-- A tail is complete where it could not go on. -/
theorem Tail.done_goes (h : τ.starts ts = false) (n : Nesting) : Done (τ.Goes n) ts ts := by
  have hends {us : List Token} (hus : τ.starts us = false) : τ.Goes n us us :=
    fun left => Tail.leads_of_not_starts hus n left
  refine ⟨hends h, ⟨[], [], rfl, endless_nil, fun us hus => ⟨.inl hus, hends (hus τ)⟩⟩, [], rfl, ?_⟩
  rintro p left vs rfl hp hvs
  exact hends (hvs.starts hp h)

theorem Tail.ready_goes (τ : Tail) (n : Nesting) : Ready (τ.Goes n) :=
  ⟨[], endless_nil, fun _ hus => ⟨hus, fun left => Tail.leads_of_not_starts (hus τ) n left⟩⟩

theorem Begun.took (h : Begun L ts left) (ht : t.isNewline = false) :
    Begun (Took t L) (t :: ts) left := by
  obtain ⟨p, c, rfl, hc, h⟩ := h
  refine ⟨t :: p, c, rfl, hc, fun us hus => ⟨guarded_of_mem List.mem_cons_self ht, ?_⟩⟩
  exact ⟨_, rfl, (h us hus).2⟩

theorem Done.took (h : Done L ts rest) (ht : t.isNewline = false) :
    Done (Took t L) (t :: ts) rest := by
  obtain ⟨q, rfl, hkept⟩ := h.kept
  refine ⟨⟨_, rfl, h.leads⟩, h.begun.took ht, t :: q, rfl, fun p left vs hrest hp hvs => ?_⟩
  exact ⟨_, rfl, hkept p left vs hrest hp hvs⟩

/-- The newlines that a phrase skips. -/
theorem Newlines.done (h : Newlines ts rest) : Done Newlines ts rest := by
  obtain ⟨q, rfl, hq⟩ := h.exists_append
  refine ⟨h, ⟨q, [], rfl, endless_nil, fun us hus => ⟨.inl ?_, newlines_append hq us⟩⟩, q, rfl, ?_⟩
  · exact (newlines_append hq us).barrier hus
  · exact fun p _ vs _ _ _ => newlines_append hq (p ++ vs)

theorem ready_newlines : Ready Newlines := ready_nothing fun _ => .nil

def filler (k : TokenKind) (s : String) : Token := ⟨k, .text s, default, default⟩

theorem filler_is (k : TokenKind) (s : String) : (filler k s).is k s := by
  simp [filler, Token.is, Scalar.isText]

theorem Endless.filler {k : TokenKind} {c : List Token} (hc : Endless c) (hk : k ≠ .eof)
    (s : String) : Endless (filler k s :: c) := List.forall_mem_cons.mpr ⟨hk, hc⟩

/-- What leads over one word that carries on no tail is ready. -/
theorem ready_of_filler {k : TokenKind} {s : String} (hk : k ≠ .eof)
    (h : ∀ us, Barrier us → Barrier (filler k s :: us) ∧ L (filler k s :: us) us) : Ready L :=
  ⟨[filler k s], endless_nil.filler hk s, h⟩

theorem ready_word {k : TokenKind} {s : String} (hw : (k, s) ∈ barrierWords) :
    Ready (OneWord k s) := by
  have hkinds : ∀ word ∈ barrierWords, word.1 ≠ .eof := by decide
  exact ready_of_filler (hkinds _ hw) fun _ _ =>
    ⟨barrier_of_is (filler_is k s) hw, _, filler_is k s, rfl⟩

theorem ready_name : Ready OneName :=
  ⟨[filler .identifier "x"], endless_nil.filler (by decide) "x", fun _ _ =>
    ⟨barrier_of_kind (.inl rfl) (by decide) (by decide), _, rfl, rfl⟩⟩

end

/-! ## Phrases that are ready -/

section

variable (n : Nesting)

/-- One word is a phrase that stands for itself, and so are the phrases around it. -/
theorem leads_null {us : List Token} (hus : Barrier us) :
    ∃ e, Derives .greedy .unary n (filler .keyword "null" :: us) us (.node e) :=
  ⟨_, (Derives.null (filler_is _ _)).unary_of_primary (ends_of_quiet hus.quiet (by simp))⟩

/-- What leads over one word that is an expression is ready. -/
theorem ready_of_null {L : Pass} (h : ∀ us, Barrier us → L (filler .keyword "null" :: us) us) :
    Ready L :=
  ready_of_filler (by decide) fun us hus =>
    ⟨barrier_of_kind (.inr rfl) (by decide) (by decide), h us hus⟩

theorem ready_primary : Ready (Leads .primary n) :=
  ready_of_null fun _ _ => ⟨_, .null (filler_is _ _)⟩

theorem ready_expression : Ready (Leads .expression n) := by
  refine ready_of_null fun us hus => ?_
  obtain ⟨e, h⟩ := leads_null n hus
  exact ⟨_, h.expression_of_unary hus.quiet⟩

theorem ready_statement : Ready (Leads .statement n) := by
  refine (ready_expression n).mono fun us vs h => ?_
  obtain ⟨e, h⟩ := h.node rfl
  exact ⟨_, .evaluate h⟩

theorem ready_block : Ready (Leads .block n) := by
  refine ⟨[filler .paren Token.openBrace, filler .paren Token.closeBrace],
    (endless_nil.filler (by decide) _).filler (by decide) _, fun us _ => ?_⟩
  have hblock : Derives .greedy .block n (filler .paren Token.openBrace ::
      filler .paren Token.closeBrace :: us) us _ :=
    .block (filler_is _ _) .nil .noStatements .nil (filler_is _ _)
  exact ⟨barrier_of_is (filler_is _ _) (by decide), _, hblock⟩

theorem ready_body : Ready (Leads .body n) := by
  refine (ready_block n).mono fun us vs h => ?_
  obtain ⟨b, h⟩ := h.node rfl
  exact ⟨_, .blockBody h⟩

end

end Lumen.Grammar
