import Lumen.Proofs.Parser.Viable

/-!
# The first token that does not fit

The parser refuses a text at the first token that does not fit: the tokens before it begin a
program, so that some others could be put behind them that make one. The rules for statements and
for the phrases that stand for themselves stop there as those for expressions do; the rules up to a
depth are so by induction.
-/

namespace Lumen.Parser

open Grammar
open Relation (Comp)

variable {α : Type} {eof t : Token} {ts us : List Token} {L : Pass}

section

variable {rules : Rules} {n : Nesting} (heof : eof.kind = .eof) (hrules : rules.Viable eof)

/-! ## Statements -/

def Returned (n : Nesting) : Pass := fun ts rest =>
  ts = rest ∧ endsStatement rest ∨ Leads .expression n ts rest

theorem done_returned (h : endsStatement ts) : Done (Returned n) ts ts := by
  -- With other tokens behind it, the statement may have to be given a value.
  refine ⟨.inl ⟨rfl, h⟩, (Ready.mono (ready_expression n) fun _ _ => .inr).begun ts, [], rfl, ?_⟩
  rintro p left vs rfl hp _
  cases p with
  | nil => exact (hp rfl).elim
  | cons t p => exact .inl ⟨rfl, h⟩

include heof hrules

theorem viable_giveBack {p q : Position} (ts : List Token) :
    Viable (α := Node) eof (do
      if ← endsReturn eof then return .giveBack none p q
      let value ← rules.expression n
      return .giveBack (some value) p value.stop) ts (Returned n) := by
  apply viable_look (runs_endsReturn heof)
  refine Viable.ite (fun h => Viable.pure (done_returned h)) fun _ => ?_
  exact ((hrules.expression n ts).mono fun _ _ => .inr).last

theorem viable_statement (ts : List Token) :
    Viable eof (statement eof rules n) ts (Leads .statement n) := by
  have hready := ready_statement n
  have hexpression (ts : List Token) :
      Viable eof (rules.expression n) ts (Leads .statement n) := by
    refine (hrules.expression n ts).mono fun us vs h => ?_
    obtain ⟨e, h⟩ := h.node rfl
    exact ⟨_, .evaluate h⟩
  apply viable_look runs_peek
  cases ts with
  | nil =>
    have hnot (s : String) : (([] : List Token).headD eof).is .keyword s = false :=
      Token.is_of_kind heof (by decide) s
    simp only [hnot, Bool.false_eq_true, if_false]
    exact hexpression []
  | cons t us =>
    simp only [List.headD_cons]
    have hnewline {s : String} (ht : t.is .keyword s) := not_isNewline_of_is ht (by decide)
    refine Viable.ite (fun ht => Viable.ite (fun _ => viable_refused hready) fun hn => ?_) fun _ =>
      Viable.ite (fun ht => Viable.ite (fun _ => viable_refused hready) fun hn => ?_) fun _ =>
      Viable.ite (fun ht => Viable.ite (fun _ => viable_refused hready) fun hn => ?_) fun _ =>
      hexpression _
    · refine (viable_take runs_advance (hnewline ht) (viable_giveBack heof hrules us)).mono ?_
      have hn : n.inFunction := by simpa using hn
      rintro _ rest ⟨us, rfl, ⟨rfl, hends⟩ | he⟩
      · exact ⟨_, .giveBackNothing ht hn (.inr hends)⟩
      · obtain ⟨e, he⟩ := he.node rfl
        exact ⟨_, .giveBack ht hn he⟩
    · exact viable_single (hnewline ht) fun _ => ⟨_, .breakLoop ht (by simpa using hn)⟩
    · exact viable_single (hnewline ht) fun _ => ⟨_, .continueLoop ht (by simpa using hn)⟩

def Listed (n : Nesting) : Pass := Comp (Leads .statements n) Newlines

def Following (n : Nesting) : Pass := Comp (Leads .moreStatements n) Newlines

def Broken : Pass := fun ts rest => ∃ t us, ts = t :: us ∧ t.isNewline ∧ Newlines us rest

omit heof hrules

theorem listed_nothing (ts : List Token) : Listed n ts ts := ⟨ts, ⟨_, .noStatements⟩, .nil⟩

theorem following_nothing (ts : List Token) : Following n ts ts := ⟨ts, ⟨_, .lastStatement⟩, .nil⟩

theorem following_of_broken (h : Comp Broken (Listed n) ts us) : Following n ts us := by
  obtain ⟨_, ⟨t, vs, rfl, ht, hvs⟩, mid, hss, hmid⟩ := h
  obtain ⟨ss, hss⟩ := hss.nodes rfl
  cases hss with
  | noStatements => exact ⟨_, ⟨_, .lastStatement⟩, .cons ht (hvs.trans hmid)⟩
  | statements hs hss => exact ⟨mid, ⟨_, .moreStatements ht hvs hs hss⟩, hmid⟩

theorem done_broken (ht : t.isNewline) (h : Newlines ts us) : Done Broken (t :: ts) us := by
  obtain ⟨q, rfl, hq⟩ := h.exists_append
  have hbroken (vs : List Token) : Broken (t :: (q ++ vs)) vs :=
    ⟨t, _, rfl, ht, newlines_append hq vs⟩
  refine ⟨hbroken us, ⟨t :: q, [], rfl, endless_nil, fun vs hvs => ⟨.inl ?_, hbroken vs⟩⟩, t :: q,
    rfl, ?_⟩
  · exact (Newlines.cons ht (newlines_append hq vs)).barrier hvs
  · exact fun p _ vs _ _ _ => hbroken (p ++ vs)

theorem viable_breaks {f : PUnit → Parser α} (ht : t.isNewline)
    (h : Viable eof (f ⟨⟩) (us.dropWhile Token.isNewline) L) :
    Viable eof (skipNewlines >>= f) (t :: us) (Comp Broken L) := by
  have hbroken := done_broken ht (newlines_dropWhile us)
  have hdrop : (t :: us).dropWhile Token.isNewline = us.dropWhile Token.isNewline :=
    List.dropWhile_cons_of_pos ht
  change Stops eof (Comp Broken L) (t :: us) ((f ⟨⟩).run ((t :: us).dropWhile Token.isNewline))
  rw [hdrop]
  exact Stops.map h (fun _ h => hbroken.comp h) fun _ h => hbroken.begun_comp h

/-- Before the bracket that closes them there are no more statements. -/
theorem viable_noStatements {close : Option String} {statement : Parser Node}
    (hclose : atClose eof close ts) (hL : ∀ us, L us us) (fuel : List Token) :
    Viable eof (statements eof statement close fuel) ts L := by
  cases fuel with
  | nil => exact Viable.pure (done_nothing hL ts)
  | cons _ fuel =>
    apply viable_look runs_closed
    apply viable_look runs_seesKind
    rw [hclose, Bool.true_or]
    exact Viable.pure (done_nothing hL ts)

include heof hrules

theorem viable_statements {close : Option String} (fuel : List Token)
    (hfuel : ts.length ≤ fuel.length) :
    Viable eof (statements eof (statement eof rules n) close fuel) ts (Listed n) := by
  have hnothing {us : List Token} : Done (Listed n) us us := done_nothing listed_nothing us
  have hready : Ready (Following n) := ready_nothing following_nothing
  induction fuel generalizing ts with
  | nil => exact Viable.pure hnothing
  | cons _ fuel ih =>
    apply viable_look runs_closed
    apply viable_look runs_seesKind
    refine Viable.ite (fun _ => Viable.pure hnothing) fun _ => ?_
    refine (Viable.bind (viable_statement heof hrules ts) hready fun s mid hs => ?_).mono ?_
    · apply viable_look runs_seesKind
      apply viable_look runs_closed
      refine Viable.ite (fun hbehind => ?_) fun _ => viable_refused hready
      have hlength : mid.length ≤ fuel.length := by
        obtain ⟨s, hs⟩ := hs.node rfl
        have hs := hs.length.2 rfl
        simp only [List.length_cons] at hfuel
        omega
      cases hclose : atClose eof close mid with
      | true =>
        refine (viable_skipNewlines (L := Eq) ?_).mono ?_
        · rw [dropWhile_of_breaks (of_atClose hclose).1]
          exact (viable_noStatements hclose (fun _ => rfl) fuel).last
        · rintro us _ ⟨mid, hmid, rfl⟩
          exact ⟨us, ⟨_, .lastStatement⟩, hmid⟩
      | false =>
        rw [hclose, Bool.or_false] at hbehind
        cases mid with
        | nil => cases heof.symm.trans (eq_of_beq hbehind)
        | cons u vs =>
          refine (viable_breaks hbehind (ih ?_).last).mono fun _ _ => following_of_broken
          have hvs := (newlines_dropWhile vs).length_le
          simp only [List.length_cons] at hlength
          omega
    · rintro us rest ⟨mid, hs, mid', hss, hrest⟩
      obtain ⟨s, hs⟩ := hs.node rfl
      obtain ⟨ss, hss⟩ := hss.nodes rfl
      exact ⟨mid', ⟨_, .statements hs hss⟩, hrest⟩

theorem viable_statementList {close : Option String} (ts : List Token) :
    Viable eof (statementList eof rules n close) ts (Comp Newlines (Listed n)) :=
  viable_skipNewlines (viable_look runs_get (viable_statements heof hrules _ (Nat.le_refl _)))

theorem viable_block (ts : List Token) : Viable eof (block eof rules n) ts (Leads .block n) := by
  have hclosing : Ready (OneWord .paren Token.closeBrace) := ready_word (by decide)
  have hlist : Ready (Comp Newlines (Listed n)) :=
    ready_newlines.comp (ready_nothing listed_nothing)
  refine (Viable.bind (viable_word heof (by decide))
    (hlist.comp hclosing) fun t us _ => Viable.bind (viable_statementList heof hrules us) hclosing
      fun ss mid _ => (viable_word heof (by decide)).last).mono ?_
  rintro _ rest ⟨_, ⟨t, ht, rfl⟩, _, ⟨_, h₁, _, hss, h₂⟩, u, hu, rfl⟩
  obtain ⟨ss, hss⟩ := hss.nodes rfl
  exact ⟨_, .block ht h₁ hss h₂ hu⟩

theorem viable_body (ts : List Token) : Viable eof (body eof rules n) ts (Leads .body n) := by
  refine viable_ifSees heof (by decide) ?_ fun _ => viable_ifSees heof (by decide) ?_ fun _ =>
    viable_refuse (ready_body n)
  · rintro t us rfl _
    refine (viable_block heof hrules _).mono fun us vs h => ?_
    obtain ⟨b, h⟩ := h.node rfl
    exact ⟨_, .blockBody h⟩
  · rintro t us rfl ht
    refine (viable_advance ht (by decide)
      (viable_statement heof hrules us)).mono ?_
    rintro _ rest ⟨us, rfl, hs⟩
    obtain ⟨s, hs⟩ := hs.node rfl
    exact ⟨_, .statementBody ht hs⟩

/-! ## Phrases that stand for themselves -/

theorem viable_moreCases (fuel : List Token) (hfuel : ts.length ≤ fuel.length) :
    Viable eof (moreCases eof rules n fuel) ts (Tail.clauses.Goes n) := by
  have hbody := ready_body n
  have hgoes := Tail.clauses.ready_goes n
  induction fuel generalizing ts with
  | nil =>
    obtain rfl := List.length_eq_zero_iff.mp (Nat.le_zero.mp hfuel)
    exact Viable.pure (Tail.done_goes rfl n)
  | cons _ fuel ih =>
    apply viable_look runs_get
    cases hts : ts.dropWhile Token.isNewline with
    | nil =>
      have hnot (s : String) : (([] : List Token).headD eof).is .keyword s = false :=
        Token.is_of_kind heof (by decide) s
      simp only [hnot, Bool.false_eq_true, if_false]
      exact Viable.pure (Tail.done_goes (by simp [Tail.starts, hts]) n)
    | cons t us =>
      have hus : us.length ≤ fuel.length := by
        have hnewlines := (newlines_dropWhile ts).length_le
        rw [hts] at hnewlines
        simp only [List.length_cons] at hfuel hnewlines
        omega
      refine Viable.ite (fun ht => ?_) fun helif => Viable.ite (fun ht => ?_) fun helse => ?_
      · have ht : t.is .keyword "elif" := ht
        refine (viable_skipNewlines (L := Took t (Comp (Leads .expression n)
          (Comp (Leads .body n) (Tail.clauses.Goes n)))) ?_).mono ?_
        · rw [hts]
          refine viable_advance ht (by decide) (Viable.bind
            (hrules.expression n us) (hbody.comp hgoes) fun c mid hc => Viable.bind
              (viable_body heof hrules mid) hgoes fun b mid' hb => (ih ?_).last)
          obtain ⟨c, hc⟩ := hc.node rfl
          obtain ⟨b, hb⟩ := hb.node rfl
          have hc := hc.length.1
          have hb := hb.length.1
          omega
        · rintro _ rest ⟨_, hnewlines, us, rfl, mid, hc, mid', hb, h⟩ left
          obtain ⟨c, hc⟩ := hc.node rfl
          obtain ⟨b, hb⟩ := hb.node rfl
          obtain ⟨cases, otherwise, h⟩ := Leads.clauses (h left)
          exact ⟨_, .elseIf hnewlines ht hc hb h⟩
      · have ht : t.is .keyword "else" := ht
        refine (viable_skipNewlines (L := Took t (Leads .body n)) ?_).mono ?_
        · rw [hts]
          exact viable_advance ht (by decide)
            (viable_body heof hrules us).last
        · rintro _ rest ⟨_, hnewlines, us, rfl, hb⟩ left
          obtain ⟨b, hb⟩ := hb.node rfl
          exact ⟨_, .otherwise hnewlines ht hb⟩
      · refine Viable.pure (Tail.done_goes ?_ n)
        rw [List.headD_cons] at helif helse
        simp [Tail.starts, hts, helif, helse]

theorem viable_conditional (ht : t.is .keyword "if") (us : List Token) :
    Viable eof (conditional eof rules n) (t :: us) (Leads .primary n) := by
  have hgoes := Tail.clauses.ready_goes n
  refine (viable_consumed ht (by decide) (Viable.bind
    (hrules.expression n us) ((ready_body n).comp hgoes) fun c mid _ => Viable.bind
      (viable_body heof hrules mid) hgoes fun b mid _ => viable_look runs_get
        (viable_moreCases heof hrules mid (Nat.le_refl _)).last)).mono ?_
  rintro _ rest ⟨us, rfl, _, hc, _, hb, h⟩
  obtain ⟨c, hc⟩ := hc.node rfl
  obtain ⟨b, hb⟩ := hb.node rfl
  obtain ⟨cases, otherwise, h⟩ := Leads.clauses (h default)
  exact ⟨_, .conditional ht hc hb h⟩

def Divider : Pass := fun ts rest =>
  ∃ v, (v.is .operator ":" ∨ v.is .keyword "to") ∧ ts = v :: rest

theorem viable_forBody {f : Option Node → Node → Node} (ts : List Token) :
    Viable eof (do
      let mut step := none
      if ← sees eof .keyword "by" then
        let _ ← advance eof
        step := some (← rules.expression n)
      let body ← body eof rules n.loopBody
      return f step body) ts (Comp (Leads .step n) (Leads .body n.loopBody)) := by
  refine viable_ifSees heof (by decide) ?_ fun _ => ?_
  · rintro t us rfl ht
    refine (viable_advance ht (by decide) (Viable.bind
      (hrules.expression n us) (ready_body n.loopBody) fun step mid _ =>
        (viable_body heof hrules mid).last)).mono ?_
    rintro _ rest ⟨us, rfl, mid, he, hb⟩
    obtain ⟨e, he⟩ := he.node rfl
    exact ⟨mid, ⟨_, .step ht he⟩, hb⟩
  · exact (viable_body heof hrules ts).last.mono fun us _ hb => ⟨us, ⟨_, .noStep⟩, hb⟩

def Counted (n : Nesting) : Pass :=
  Comp Divider (Comp (Leads .expression n) (Comp (Leads .step n) (Leads .body n.loopBody)))

omit heof hrules in
theorem ready_counted (n : Nesting) : Ready (Counted n) := by
  have hdivider : Ready Divider := by
    have hcolon : Ready (OneWord .operator ":") := ready_word (by decide)
    exact hcolon.mono fun _ _ ⟨v, hv, h⟩ => ⟨v, .inl hv, h⟩
  exact hdivider.comp ((ready_expression n).comp
    ((ready_nothing fun _ => ⟨_, .noStep⟩).comp (ready_body n.loopBody)))

theorem viable_divided {v : Token} {f : Node → Option Node → Node → Node}
    (hv : v.is .operator ":" ∨ v.is .keyword "to") (vs : List Token) :
    Viable eof (do
      let _ ← advance eof
      let last ← rules.expression n
      let mut step := none
      if ← sees eof .keyword "by" then
        let _ ← advance eof
        step := some (← rules.expression n)
      let body ← body eof rules n.loopBody
      return f last step body) (v :: vs) (Counted n) := by
  have hbody : Ready (Comp (Leads .step n) (Leads .body n.loopBody)) :=
    (ready_nothing fun _ => ⟨_, .noStep⟩).comp (ready_body n.loopBody)
  have hnewline : v.isNewline = false := by
    rcases hv with hv | hv <;> exact not_isNewline_of_is hv (by decide)
  refine (viable_take runs_advance hnewline (Viable.bind (hrules.expression n vs) hbody
    fun b mid _ => viable_forBody heof hrules mid)).mono ?_
  rintro _ rest ⟨vs, rfl, h⟩
  exact ⟨vs, ⟨v, hv, rfl⟩, h⟩

theorem viable_counted {f : Node → Option Node → Node → Node} (ts : List Token) :
    Viable eof (do
      if (← sees eof .operator ":") || (← sees eof .keyword "to") then
        let _ ← advance eof
      else refuse eof (.expected "':' or 'to'")
      let last ← rules.expression n
      let mut step := none
      if ← sees eof .keyword "by" then
        let _ ← advance eof
        step := some (← rules.expression n)
      let body ← body eof rules n.loopBody
      return f last step body) ts (Counted n) := by
  refine viable_look runs_sees (viable_look runs_sees ?_)
  cases ts with
  | nil =>
    have hcolon : (([] : List Token).headD eof).is .operator ":" = false :=
      Token.is_of_kind heof (by decide) _
    have hto : (([] : List Token).headD eof).is .keyword "to" = false :=
      Token.is_of_kind heof (by decide) _
    simp only [hcolon, hto]
    exact viable_refused (ready_counted n)
  | cons v vs =>
    refine Viable.ite (fun hv => ?_) fun _ => viable_refused (ready_counted n)
    exact viable_divided heof hrules (Bool.or_eq_true_iff.mp hv) vs

theorem viable_forLoop (ht : t.is .keyword "for") (us : List Token) :
    Viable eof (forLoop eof rules n) (t :: us) (Leads .primary n) := by
  have hfirst : Ready (Comp (Leads .expression n) (Counted n)) :=
    (ready_expression n).comp (ready_counted n)
  refine (viable_consumed ht (by decide) (Viable.bind (viable_consumeIdentifier heof)
    ((ready_word (by decide)).comp hfirst) fun name mid _ => Viable.bind
      (viable_word heof (by decide)) hfirst fun _ mid _ => Viable.bind (hrules.expression n mid)
        (ready_counted n) fun a mid _ => viable_counted (f := fun b step body =>
          .forLoop name a b step body t.start body.stop) heof hrules mid)).mono ?_
  rintro _ rest ⟨_, rfl, _, ⟨name, hname, rfl⟩, _, ⟨u, hu, rfl⟩, _, ha, _, ⟨v, hv, rfl⟩, _, hb, _,
    hstep, hbody⟩
  obtain ⟨a, ha⟩ := ha.node rfl
  obtain ⟨b, hb⟩ := hb.node rfl
  obtain ⟨step, hstep⟩ := hstep.step
  obtain ⟨body, hbody⟩ := hbody.node rfl
  exact ⟨_, .forLoop ht hname hu ha hv hb hstep hbody⟩

theorem viable_eachLoop (ht : t.is .keyword "each") (us : List Token) :
    Viable eof (eachLoop eof rules n) (t :: us) (Leads .primary n) := by
  have hbody := ready_body n.loopBody
  have hiterable : Ready (Comp (Leads .expression n) (Leads .body n.loopBody)) :=
    (ready_expression n).comp hbody
  have hin : Ready (OneWord .keyword "in") := ready_of_filler (by decide) fun _ _ =>
    ⟨barrier_of_kind (.inr rfl) (by decide) (by decide), _, filler_is _ _, rfl⟩
  refine (viable_consumed ht (by decide) (Viable.bind
    (viable_consumeIdentifier heof) (hin.comp hiterable) fun name mid _ => Viable.bind
      (viable_consume heof hin (by decide) (by decide)) hiterable fun _ mid _ => Viable.bind
        (hrules.expression n mid) hbody fun e mid _ => (viable_body heof hrules mid).last)).mono ?_
  rintro _ rest ⟨_, rfl, _, ⟨name, hname, rfl⟩, _, ⟨u, hu, rfl⟩, _, he, hbody⟩
  obtain ⟨e, he⟩ := he.node rfl
  obtain ⟨body, hbody⟩ := hbody.node rfl
  exact ⟨_, .eachLoop ht hname hu he hbody⟩

theorem viable_whileLoop (ht : t.is .keyword "while") (us : List Token) :
    Viable eof (whileLoop eof rules n) (t :: us) (Leads .primary n) := by
  refine (viable_consumed ht (by decide) (Viable.bind
    (hrules.expression n us) (ready_body n.loopBody) fun c mid _ =>
      (viable_body heof hrules mid).last)).mono ?_
  rintro _ rest ⟨_, rfl, _, hc, hbody⟩
  obtain ⟨c, hc⟩ := hc.node rfl
  obtain ⟨body, hbody⟩ := hbody.node rfl
  exact ⟨_, .whileLoop ht hc hbody⟩

/-! ## Functions -/

def MoreNames : Pass := fun ts rest => ∃ params, MoreParameters ts rest params

def Head : Pass := fun ts rest =>
  ∃ params v, v.is .paren ")" ∧ Parameters ts (v :: rest) params

def Tailed : Pass := fun ts rest =>
  Comp (OneWord .operator ":") (Leads .expression .functionBody) ts rest ∨
    Leads .block .functionBody ts rest

omit hrules in
theorem viable_moreParameters (fuel : List Token) (hfuel : ts.length ≤ fuel.length) :
    Viable eof (moreParameters eof fuel) ts MoreNames := by
  have hnothing (us : List Token) : MoreNames us us := ⟨_, .nil⟩
  have hmore : Ready (Comp Newlines MoreNames) := ready_newlines.comp (ready_nothing hnothing)
  induction fuel generalizing ts with
  | nil => exact Viable.pure (done_nothing hnothing ts)
  | cons _ fuel ih =>
    refine viable_ifSees heof (by decide) ?_ fun _ => Viable.pure (done_nothing hnothing ts)
    rintro t us rfl ht
    refine (viable_advance ht (by decide) (viable_skipNewlines
      (Viable.bind (viable_consumeIdentifier heof) hmore fun name mid hmid =>
        viable_skipNewlines (ih ?_).last))).mono ?_
    · obtain ⟨name, -, hmid⟩ := hmid
      have hus := (newlines_dropWhile us).length_le
      have hmid' := (newlines_dropWhile mid).length_le
      rw [hmid] at hus
      simp only [List.length_cons] at hfuel hus
      omega
    · rintro _ rest ⟨us, rfl, _, h₁, _, ⟨name, hname, rfl⟩, _, h₂, params, h⟩
      exact ⟨_, .cons ht h₁ hname h₂ h⟩

omit hrules in
theorem viable_parameters (ht : t.is .paren "(") (us : List Token) :
    Viable eof (parameters eof) (t :: us) (Took t Head) := by
  have hclosing : Ready (OneWord .paren ")") := ready_word (by decide)
  have hmore : Ready (Comp Newlines (Comp MoreNames (OneWord .paren ")"))) :=
    ready_newlines.comp ((ready_nothing fun _ => ⟨_, .nil⟩).comp hclosing)
  have hclose {mid params : List Token} : Viable eof (do
      let _ ← consume eof .paren ")"
      return params) mid (OneWord .paren ")") :=
    (viable_word heof (by decide)).last
  refine viable_consumed ht (by decide)
    ((viable_skipNewlines (L := Head) (viable_look runs_sees ?_)).mono ?_)
  · refine Viable.ite (fun _ => ?_) fun _ => ?_
    · refine (Viable.bind (viable_consumeIdentifier heof) hmore fun name mid _ =>
        viable_skipNewlines (viable_look runs_get (Viable.bind
          (viable_moreParameters heof _ (Nat.le_refl _)) hclosing fun _ _ _ => hclose))).mono ?_
      rintro _ rest ⟨_, ⟨name, hname, rfl⟩, _, h₁, _, ⟨params, h⟩, v, hv, rfl⟩
      exact ⟨_, v, hv, .cons .nil hname h₁ h⟩
    · refine hclose.mono ?_
      rintro _ rest ⟨v, hv, rfl⟩
      exact ⟨_, v, hv, .nil .nil⟩
  · rintro ts rest ⟨mid, h₁, params, v, hv, h⟩
    cases h with
    | nil h => exact ⟨_, v, hv, .nil (h₁.trans h)⟩
    | cons h hname h₂ hmore => exact ⟨_, v, hv, .cons (h₁.trans h) hname h₂ hmore⟩

def Signature : Pass := Comp (OneWord .paren "(") (Comp Head Tailed)

omit heof hrules in
theorem ready_tailed : Ready Tailed := (ready_block .functionBody).mono fun _ _ => .inr

omit heof hrules in
/-- A function that has only been named is one with brackets and a body behind the name. -/
theorem begun_signature (ht : t.isNewline = false) (us : List Token) :
    Begun (Took t Signature) (t :: us) us := by
  obtain ⟨c, hc, h⟩ := ready_tailed
  refine ⟨[t], filler .paren "(" :: filler .paren ")" :: c, rfl,
    (hc.filler (by decide) ")").filler (by decide) "(", fun vs hvs => ?_⟩
  exact ⟨guarded_of_mem List.mem_cons_self ht, _, rfl, _, ⟨_, filler_is _ _, rfl⟩, c ++ vs,
    ⟨[], _, filler_is _ _, .nil .nil⟩, (h vs hvs).2⟩

theorem viable_signature {f : List Token → Bool → Node → Node} (ht : t.is .paren "(")
    (us : List Token) :
    Viable eof (do
      let params ← parameters eof
      if ← sees eof .operator ":" then
        let _ ← advance eof
        let body ← rules.expression .functionBody
        return f params true body
      else if ← sees eof .paren Token.openBrace then
        let body ← block eof rules .functionBody
        return f params false body
      else refuse eof (.expected "'\x7b' or ':'")) (t :: us) Signature := by
  refine (Viable.bind (viable_parameters heof ht us) ready_tailed fun params mid _ => ?_).mono ?_
  · refine viable_ifSees heof (by decide) ?_ fun _ => viable_ifSees heof (by decide) ?_ fun _ =>
      viable_refuse ready_tailed
    · rintro u vs rfl hu
      exact (viable_advance hu (by decide)
        (hrules.expression .functionBody vs).last).mono fun _ _ h => .inl (Took.word h hu)
    · rintro u vs rfl _
      exact (viable_block heof hrules _).last.mono fun _ _ => .inr
  · rintro _ rest ⟨mid, ⟨us, rfl, hhead⟩, htailed⟩
    exact ⟨us, ⟨t, ht, rfl⟩, mid, hhead, htailed⟩

/-- Where there is no bracket, the word or the name before it is the last token that fits. -/
theorem stops_signature {f : List Token → Bool → Node → Node} (ht : t.isNewline = false)
    (us : List Token) :
    Stops eof (Took t Signature) (t :: us) ((do
      let params ← parameters eof
      if ← sees eof .operator ":" then
        let _ ← advance eof
        let body ← rules.expression .functionBody
        return f params true body
      else if ← sees eof .paren Token.openBrace then
        let body ← block eof rules .functionBody
        return f params false body
      else refuse eof (.expected "'\x7b' or ':'") : Parser Node).run us) := by
  cases hopen : (us.headD eof).is .paren "(" with
  | true =>
    cases us with
    | nil => cases heof.symm.trans (Token.kind_of_is hopen)
    | cons u vs => exact Stops.took (viable_signature heof hrules hopen vs) ht
  | false =>
    have hparameters : (parameters eof).run us = .error (.refused (Diagnostic.onSpan
        (.expected ("'" ++ "(" ++ "'")) (us.headD eof).span)) := by
      rw [parameters, StateT.run_bind, run_consume_refused hopen]
      rfl
    rw [StateT.run_bind, hparameters]
    exact ⟨us, rfl, begun_signature ht us⟩

theorem viable_function (ht : t.is .keyword "func") (us : List Token) :
    Viable eof (function eof rules) (t :: us) (Leads .primary n) := by
  have hfunction {name : Option Token} {us vs rest : List Token} (hname : Named us vs name)
      (h : Signature vs rest) : Leads .primary n (t :: us) rest := by
    obtain ⟨_, ⟨u, hu, rfl⟩, _, ⟨params, v, hv, hparams⟩, h⟩ := h
    rcases h with ⟨_, ⟨w, hw, rfl⟩, hbody⟩ | hbody
    · obtain ⟨body, hbody⟩ := hbody.node rfl
      exact ⟨_, .functionExpression ht hname hu hparams hv hw hbody⟩
    · obtain ⟨body, hbody⟩ := hbody.node rfl
      exact ⟨_, .functionBlock ht hname hu hparams hv hbody⟩
  have hword : t.isNewline = false := not_isNewline_of_is ht (by decide)
  have hunnamed (us : List Token) :=
    (stops_signature (f := fun params short body => .function none params body short t.start
      body.stop) heof hrules hword us).mono fun _ _ ⟨_, hus, h⟩ => hus ▸ hfunction .none h
  refine Stops.run (runs_consume ht) (Stops.run runs_seesKind ?_)
  cases us with
  | nil =>
    rw [List.headD_nil, heof]
    exact hunnamed []
  | cons name us =>
    cases hname : name.kind == .identifier with
    | false =>
      rw [List.headD_cons, hname]
      exact hunnamed (name :: us)
    | true =>
      have hkind : name.kind = .identifier := eq_of_beq hname
      rw [List.headD_cons, hname]
      refine Stops.run runs_advance ((Stops.took (stops_signature (f := fun params short body =>
        .function (some name) params body short t.start body.stop) heof hrules
          (Token.isNewline_of_kind hkind) us) hword).mono ?_)
      rintro _ rest ⟨_, rfl, us, rfl, h⟩
      exact hfunction (.some hkind) h

theorem viable_primary (ts : List Token) :
    Viable eof (primary eof rules n) ts (Leads .primary n) := by
  have hready := ready_primary n
  apply viable_look runs_peek
  cases ts with
  | nil =>
    have hnot (k : TokenKind) (s : String) (hk : k ≠ .eof) :
        (([] : List Token).headD eof).is k s = false := Token.is_of_kind heof (Ne.symm hk) s
    have hkind : (([] : List Token).headD eof).kind = .eof := heof
    simp only [hkind, hnot .keyword _ (by decide), hnot .paren _ (by decide)]
    exact viable_refuse hready
  | cons t us =>
    rw [List.headD_cons]
    have hclosing : Ready (OneWord .paren ")") := ready_word (by decide)
    have hkind {k : TokenKind} (ht : t.kind == k) : t.isNewline = decide (k = .newline) :=
      Token.isNewline_of_kind (eq_of_beq ht)
    refine Viable.ite (fun ht => ?_) fun _ => ?_
    · exact viable_single (hkind ht) fun _ => ⟨_, .number (eq_of_beq ht)⟩
    refine Viable.ite (fun ht => ?_) fun _ => ?_
    · exact viable_single (hkind ht) fun _ => ⟨_, .text (eq_of_beq ht)⟩
    refine Viable.ite (fun ht => ?_) fun _ => ?_
    · exact viable_single (hkind ht) fun _ => ⟨_, .lookup (eq_of_beq ht)⟩
    refine Viable.ite (fun ht => ?_) fun _ => ?_
    · exact viable_single (not_isNewline_of_is ht (by decide)) fun _ => ⟨_, .null ht⟩
    refine Viable.ite (fun ht => viable_conditional heof hrules ht us) fun _ => ?_
    refine Viable.ite (fun ht => viable_forLoop heof hrules ht us) fun _ => ?_
    refine Viable.ite (fun ht => viable_eachLoop heof hrules ht us) fun _ => ?_
    refine Viable.ite (fun ht => viable_whileLoop heof hrules ht us) fun _ => ?_
    refine Viable.ite (fun ht => viable_function heof hrules ht us) fun _ => ?_
    refine Viable.ite (fun ht => ?_) fun _ => ?_
    · refine (viable_advance ht (by decide) (Viable.bind
        (viable_bracketed hrules us) hclosing fun e mid _ =>
          (viable_word heof (by decide)).last)).mono ?_
      rintro _ rest ⟨_, rfl, _, he, u, hu, rfl⟩
      obtain ⟨us₁, e, us₂, h₁, he, h₂⟩ := he.derives
      exact ⟨_, .parentheses ht h₁ he h₂ hu⟩
    refine Viable.ite (fun ht => ?_) fun _ => ?_
    · have hclosing : Ready (OneWord .paren "]") := ready_word (by decide)
      refine (viable_advance ht (by decide) (Viable.bind
        (viable_arguments heof hrules us) hclosing fun es mid _ =>
          (viable_word heof (by decide)).last)).mono ?_
      rintro _ rest ⟨_, rfl, _, hes, u, hu, rfl⟩
      obtain ⟨es, hes⟩ := hes.nodes rfl
      exact ⟨_, .list ht hes hu⟩
    exact Viable.ite (fun _ => viable_refuse hready) fun _ => viable_refuse hready

theorem viable_unary (ts : List Token) :
    Viable eof (Parser.unary eof rules n) ts (Leads .unary n) := by
  have hsuffixed (ts : List Token) : Viable eof (do
      let node ← primary eof rules n
      postfixes eof rules n (← get) node) ts (Leads .unary n) := by
    refine (Viable.bind (viable_primary heof hrules ts) (Tail.suffixes.ready_goes n) fun a mid _ =>
      viable_look runs_get (viable_postfixes heof hrules mid (Nat.le_refl _) a)).mono ?_
    rintro us rest ⟨mid, ha, h⟩
    obtain ⟨a, ha⟩ := ha.node rfl
    obtain ⟨e, h⟩ := (h a).node rfl
    exact ⟨_, .unsigned (.target ha h)⟩
  apply viable_look runs_peek
  cases ts with
  | nil =>
    refine Viable.ite (fun hsign => ?_) fun _ => hsuffixed []
    cases heof.symm.trans (Grammar.kind_of_isSign hsign)
  | cons t us =>
    refine Viable.ite (fun ht => ?_) fun _ => hsuffixed (t :: us)
    have hnewline : t.isNewline = false := Token.isNewline_of_kind (Grammar.kind_of_isSign ht)
    refine (viable_take runs_advance hnewline (hrules.unary n us).last).mono ?_
    rintro _ rest ⟨_, rfl, he⟩
    obtain ⟨e, he⟩ := he.node rfl
    exact ⟨_, .sign ht he⟩

end

/-! ## Programs -/

/-- The rules stop at the first token that does not fit, up to every depth. -/
theorem viable_upTo (heof : eof.kind = .eof) (depth : Nat) : (Rules.upTo eof depth).Viable eof := by
  induction depth with
  | zero => exact ⟨fun _ _ => Viable.giveUp, fun _ _ => Viable.giveUp⟩
  | succ depth ih =>
    exact ⟨fun _ => viable_expression heof ih, fun _ => viable_unary heof ih⟩

theorem viable_program {depth : Nat} (heof : eof.kind = .eof) (ts : List Token) :
    Viable eof (program eof (Rules.upTo eof depth)) ts (Comp Newlines (Listed .program)) :=
  viable_look runs_peek (viable_statementList heof (viable_upTo heof depth) ts).last

theorem program_of_leads {s : TokenStream} (h : Comp Newlines (Listed .program) s.tokens []) :
    ∃ block, Grammar.Program .greedy s block := by
  obtain ⟨ts, h₁, rest, hss, h₂⟩ := h
  obtain ⟨ss, hss⟩ := hss.nodes rfl
  exact ⟨_, .mk h₁ hss h₂⟩

/-- A text that is no program is refused at one of its tokens, or at its end, and the tokens before
that one are the first tokens of a program. -/
theorem ofTokens_refused {depth : Nat} {s : TokenStream} {d : Diagnostic}
    (heof : s.eof.kind = .eof) (h : Node.ofTokens depth s = .error d)
    (hd : d.complaint ≠ .nestingExceeded) :
    ∃ k t c block, (s.tokens ++ [s.eof])[k]? = some t ∧ d.span = t.span ∧ Endless c ∧
      ∀ depth', Node.ofTokens depth' ⟨s.tokens.take k ++ c, s.eof⟩ = .ok block ∨
        depth' < 2 * (s.tokens.take k ++ c).length ∧
          Node.TooDeep (Node.ofTokens depth' ⟨s.tokens.take k ++ c, s.eof⟩) := by
  have hstops : Stops s.eof _ s.tokens ((program s.eof (Rules.upTo s.eof depth)).run s.tokens) :=
    viable_program heof s.tokens
  unfold Node.ofTokens at h
  cases hrun : (program s.eof (Rules.upTo s.eof depth)).run s.tokens with
  | ok r => simp [hrun] at h
  | error e =>
    rw [hrun] at h hstops
    cases e with
    | tooDeep span => exact (hd (congrArg Diagnostic.complaint (Except.error.inj h).symm)).elim
    | refused d' =>
      obtain rfl : d' = d := Except.error.inj h
      obtain ⟨left, hspan, p, c, hsplit, hc, hbegun⟩ := hstops
      obtain ⟨block, hprogram⟩ := program_of_leads (s := ⟨s.tokens.take p.length ++ c, s.eof⟩) (by
        have hleads := (hbegun [] barrier_nil).2
        simpa [hsplit] using hleads)
      refine ⟨p.length, left.headD s.eof, c, block, ?_, hspan, hc, fun depth' =>
        ofTokens_of_runs (runs_program depth' heof hprogram)⟩
      rw [hsplit]
      cases left <;> simp

/-- A call without a comma between its arguments is refused at the second one. -/
theorem ofTokens_refused_call :
    let p : Position := ⟨"f", 1, 1, 0⟩
    let word (kind : TokenKind) (s : String) : Token := ⟨kind, .text s, p, p⟩
    let b := word .identifier "b"
    let s : TokenStream := ⟨[word .identifier "f", word .paren "(", word .identifier "a", b,
      word .paren ")"], ⟨.eof, .null, p, p⟩⟩
    let d := Diagnostic.onSpan (.expected "')'") b.span
    s.eof.kind = .eof ∧ Node.ofTokens 10 s = .error d ∧
      d.complaint ≠ .nestingExceeded ∧
      ∃ k t c block, (s.tokens ++ [s.eof])[k]? = some t ∧ d.span = t.span ∧ Endless c ∧
        ∀ depth', Node.ofTokens depth' ⟨s.tokens.take k ++ c, s.eof⟩ = .ok block ∨
          depth' < 2 * (s.tokens.take k ++ c).length ∧
            Node.TooDeep (Node.ofTokens depth' ⟨s.tokens.take k ++ c, s.eof⟩) := by
  intro p word b s d
  have hrefused : Node.ofTokens 10 s = .error d := by cbv
  have hd : d.complaint ≠ .nestingExceeded := fun h => by cases h
  exact ⟨rfl, hrefused, hd, ofTokens_refused rfl hrefused hd⟩

end Lumen.Parser
