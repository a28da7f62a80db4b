import Lumen.Proofs.Decimal.Whole
import Lumen.Proofs.Eval.Room
import Lumen.Proofs.Literal.Program

/-!
# What is shown can be written

The text that shows a literal is a program whose value is that literal, on every machine. Evaluation
makes the lists anew and leaves all others as they are. Nothing is lost in numbers: the digits of a
whole double are read as that double, and its sign is a negation that is exact.
-/

namespace Lumen

namespace Eval

open Exec (ofDocument_ok located_pure)

variable {rounds room : Nat} {c : ScopeId} {m : Machine} {l : Literal} {t u : Token} {x : Float}

theorem placed_ofNode (p : Payload) (e : Node) :
    placed p (Tree.ofNode e) = pure (some ⟨p, e.span⟩) := by
  rw [placed, Tree.span_ofNode, ofDocument_ok, pure_bind]

/-! ## Literals without parts -/

theorem evaluate_null : evaluate rounds (room + 1) (Tree.ofNode (.null t)) c =
    pure (some ⟨.null, (Node.null t).span⟩) := by
  have hstep : evaluate rounds (room + 1) (Tree.ofNode (.null t)) c =
      placed .null (Tree.ofNode (.null t)) := by
    rw [Tree.ofNode]
    rfl
  rw [hstep, placed_ofNode]

theorem evaluate_text {s : String} (ht : t.value = .text s) :
    evaluate rounds (room + 1) (Tree.ofNode (.text t)) c =
      pure (some ⟨.text s, (Node.text t).span⟩) := by
  have hstep : evaluate rounds (room + 1) (Tree.ofNode (.text t)) c =
      textLiteral (Tree.ofToken t) (Tree.ofNode (.text t)) := by
    rw [Tree.ofNode]
    rfl
  have hvalue : (Tree.ofToken t).value = .ok (.scalar (.text s)) := by
    rw [← ht]
    rfl
  rw [hstep, textLiteral, hvalue, ofDocument_ok, pure_bind]
  exact placed_ofNode (.text s) _

theorem evaluate_number (ht : t.value = .float x) :
    evaluate rounds (room + 1) (Tree.ofNode (.number t)) c =
      pure (some ⟨.number x, (Node.number t).span⟩) := by
  have hstep : evaluate rounds (room + 1) (Tree.ofNode (.number t)) c =
      numberLiteral (Tree.ofToken t) (Tree.ofNode (.number t)) := by
    rw [Tree.ofNode]
    rfl
  have hvalue : (Tree.ofToken t).value = .ok (.scalar (.float x)) := by
    rw [← ht]
    rfl
  rw [hstep, numberLiteral, hvalue, ofDocument_ok, pure_bind, numberOf, ofDocument_ok, pure_bind]
  exact placed_ofNode (.number x) _

/-- A minus sign multiplies with minus one. -/
theorem evaluate_negative (ht : t.value = .text "-") (hu : u.value = .float x) :
    evaluate rounds (room + 2) (Tree.ofNode (.unary t (.number u))) c =
      pure (some ⟨.number (x * -1), (Node.unary t (.number u)).span⟩) := by
  have hstep : evaluate rounds (room + 2) (Tree.ofNode (.unary t (.number u))) c =
      unary (evaluate rounds (room + 1)) c (Tree.ofToken t) (Tree.ofNode (.number u))
        (Tree.ofNode (.unary t (.number u))) := by
    rw [Tree.ofNode]
    rfl
  have hvalue : (Tree.ofToken t).value = .ok (.scalar (.text "-")) := by
    rw [← ht]
    rfl
  have hsigned (v : Value) (hv : v.payload = .number x) :
      signed (.scalar (.text "-")) v = pure (Value.number (x * -1)) := by
    obtain ⟨p, sp⟩ := v
    cases hv
    rfl
  rw [hstep, unary, operand, evaluate_number hu, pure_bind, pure_bind, hvalue, ofDocument_ok,
    pure_bind, hsigned _ rfl, located_pure, pure_bind, resultAt, Tree.span_ofNode, ofDocument_ok,
    pure_bind]
  rfl

/-! ## Literals built anew -/

def Builds (x : Exec (Option Value)) (m : Machine) (l : Literal) : Prop :=
  x.Ends m fun r m' => ∃ v, r = .ok (some v) ∧ m'.store.Shows l v ∧ m.store.KeepsLists m'.store

theorem builds_pure {v : Value} (h : m.store.Shows l v) : Builds (pure (some v)) m l :=
  ⟨v, rfl, h, .refl _⟩

/-- The double that the digits are read as is the number, and so is its negation for a negative
one. -/
theorem shows_integer {s : Store} {w : Whole} {sp : Span} :
    (∀ n, w.value = .ofNat n →
      s.Shows (.number w) ⟨.number (Float.ofScientific n true 0), sp⟩) ∧
    ∀ n, w.value = .negSucc n →
      s.Shows (.number w) ⟨.number (Float.ofScientific (n + 1) true 0 * -1), sp⟩ := by
  obtain ⟨x, hx, hvalue⟩ := w.isDouble
  obtain ⟨⟨hread, hnumber⟩, hnegated, hnegative⟩ :=
    Double.whole_of_digits (Double.isFinite_of_isWhole hx)
  rw [hvalue] at hread hnumber hnegated hnegative
  refine ⟨fun n hn => ?_, fun n hn => ?_⟩
  · rw [hn] at hread hnumber
    exact .number hread (hnumber.trans hn.symm)
  · rw [hn] at hnegated hnegative
    exact .number hnegated (hnegative.trans hn.symm)

section

variable {ev : Evaluator} {es : List Node} {ls : List Literal} {p q : Position}

theorem ends_operand {n : Tree} (h : Builds (ev n c) m l) :
    (operand ev n c).Ends m fun r m' =>
      ∃ v, r = .ok v ∧ m'.store.Shows l v ∧ m.store.KeepsLists m'.store := by
  rw [operand, Exec.ends_bind]
  refine h.mono ?_
  rintro _ m' ⟨v, rfl, hv, hkeeps⟩
  exact ⟨v, rfl, hv, hkeeps⟩

theorem ends_operands
    (hes : List.Forall₂ (fun l e => ∀ m, Builds (ev (Tree.ofNode e) c) m l) ls es) (m : Machine) :
    (operands ev c (Tree.ofNodes es)).Ends m fun r m' =>
      ∃ vs, r = .ok vs ∧ List.Forall₂ m'.store.Shows ls vs ∧ m.store.KeepsLists m'.store := by
  induction hes generalizing m with
  | nil => exact ⟨[], rfl, .nil, .refl _⟩
  | cons h _ ih =>
    rw [Tree.ofNodes, operands, Exec.ends_bind]
    refine (ends_operand (h m)).mono ?_
    rintro _ m₁ ⟨v, rfl, hv, hkeeps⟩
    dsimp only
    rw [Exec.ends_bind]
    refine (ih m₁).mono ?_
    rintro _ m₂ ⟨vs, rfl, hvs, hkeeps'⟩
    exact ⟨v :: vs, rfl, .cons (hv.keeps hkeeps') hvs, hkeeps.trans hkeeps'⟩

/-- A list is a new one of the elements that have been built. -/
theorem builds_listLiteral
    (hes : List.Forall₂ (fun l e => ∀ m, Builds (ev (Tree.ofNode e) c) m l) ls es) (m : Machine) :
    Builds (listLiteral ev c (.list (Tree.ofNodes es)) (Tree.ofNode (.list es p q))) m
      (.list ls) := by
  rw [Builds, listLiteral, Tree.items, ofDocument_ok, pure_bind, Exec.ends_bind]
  refine (ends_operands hes m).mono ?_
  rintro _ m' ⟨vs, rfl, hvs, hkeeps⟩
  have hgrown := Store.KeepsLists.addList m'.store vs.toArray
  dsimp only
  rw [Exec.ends_bind, Exec.ends_newList]
  dsimp only
  rw [placed_ofNode]
  have hnew : (m'.store.addList vs.toArray).lists[m'.store.nextList]? = some vs.toArray :=
    Array.getElem?_push_size
  exact ⟨_, rfl, .list hnew (hvs.imp fun _ _ h => h.keeps hgrown), hkeeps.trans hgrown⟩

end

/-- The node that a literal is written by has it as its value. -/
theorem builds_of_writtenBy {e : Node} (h : l.WrittenBy e) (hroom : l.depth ≤ room) (m : Machine) :
    Builds (evaluate rounds (room + 2) (Tree.ofNode e) c) m l := by
  induction l generalizing e room m with
  | null =>
    cases h
    rw [evaluate_null]
    exact builds_pure .null
  | text s =>
    cases h with
    | text ht =>
      rw [evaluate_text (Prod.mk.inj ht).2]
      exact builds_pure .text
  | number w =>
    cases h with
    | natural hw ht =>
      rw [evaluate_number (Prod.mk.inj ht).2]
      exact builds_pure (shows_integer.1 _ hw)
    | negative hw ht hu =>
      rw [evaluate_negative (Prod.mk.inj ht).2 (Prod.mk.inj hu).2]
      exact builds_pure (shows_integer.2 _ hw)
  | list ls ih =>
    cases h with
    | @list _ es p q hes =>
      have hstep : evaluate rounds (room + 2) (Tree.ofNode (.list es p q)) c =
          listLiteral (evaluate rounds (room + 1)) c (.list (Tree.ofNodes es))
            (Tree.ofNode (.list es p q)) := by
        rw [Tree.ofNode]
        rfl
      rw [hstep]
      refine builds_listLiteral (Literal.forall₂_of_elements hes fun l hl e he m => ?_) m
      have hdepth := Nat.lt_of_lt_of_le (Literal.depth_lt_of_mem hl) hroom
      obtain ⟨room, rfl⟩ := Nat.exists_eq_succ_of_ne_zero (Nat.ne_zero_of_lt hdepth)
      exact ih l hl he (Nat.le_of_lt_succ hdepth) m

/-- A single statement is performed by evaluating it. -/
theorem perform_singleton (rounds room : Nat) (e : Node) :
    perform rounds room none [e] = evaluate rounds room (Tree.ofNode e) Store.root := by
  simp [perform, Tree.ofNodes, sequence]

end Eval

/-! ## Running the text -/

namespace Machine

variable {limits : Limits} {l : Literal}

theorem run_of_writtenBy {e : Node} {p q : Position} (h : l.WrittenBy e)
    (hstack : l.depth + 3 ≤ limits.stack) (m : Machine) :
    ∃ v, (m.run limits (Tree.ofNode (.block [e] p q))).1 = .value (some v) ∧
      (m.run limits (Tree.ofNode (.block [e] p q))).2.store.Shows l v := by
  obtain ⟨room, hroom⟩ := Nat.exists_eq_add_of_le' (Nat.le_trans (Nat.le_add_left 3 _) hstack)
  have hdepth : l.depth ≤ room := by omega
  have hbuilds : Eval.Builds (evaluate limits.rounds (room + 2) (Tree.ofNode e) Store.root)
      (Eval.announced m) l := Eval.builds_of_writtenBy h hdepth _
  rw [Eval.run_block hroom, Eval.perform_singleton]
  obtain ⟨v, hr, hv, -⟩ := hbuilds
  refine ⟨v, ?_, hv⟩
  dsimp only
  rw [hr]
  rfl

/-- The text of a literal is a program with that value, where there is room. -/
theorem runSource_source (l : Literal) (limits : Limits) (file : String) (m : Machine)
    (hnesting : 2 * l.source.length ≤ limits.nesting) (hstack : l.depth + 3 ≤ limits.stack) :
    ∃ v, (m.runSource limits l.source file).1 = .value (some v) ∧
      (m.runSource limits l.source file).2.store.Shows l v := by
  rcases l.ofSource_source limits file with ⟨e, p, q, he, hprogram⟩ | ⟨hdeep, -⟩
  · rw [Eval.runSource_eq hprogram]
    exact run_of_writtenBy he hstack m
  · omega

/-- A run that is not short of room ends as a run with more of it. -/
theorem runSource_of_isTooDeep {limits : Limits} {file : String} {m : Machine}
    (h : (m.runSource limits l.source file).1.isTooDeep = false) :
    ∃ v, (m.runSource limits l.source file).1 = .value (some v) ∧
      (m.runSource limits l.source file).2.store.Shows l v := by
  let limits' : Limits := ⟨max limits.nesting (2 * l.source.length),
    max limits.stack (l.depth + 3), limits.rounds⟩
  have hwithin : limits.Within limits' := ⟨le_max_left .., le_max_left .., rfl⟩
  rw [← runSource_of_within hwithin h]
  exact runSource_source l limits' file m (le_max_right ..) (le_max_right ..)

end Machine

/-- The text that shows a value which is a literal, and what that text is when it is run. A value
has no other text, whatever room there is for showing it. A run of the text that is not short of
room ends with a value that has the same text or none in the same room, on any machine, and room for
as much nesting as the text has characters and the value has lists is enough. If the value is a
text, the text that shows it is one token, which holds it. -/
theorem Machine.runSource_shown {s : Store} {l : Literal} {v : Value} (h : s.Shows l v) :
    ∃ text, (∀ room, s.text? .written room v =
        if l.depth < room then .ok text else .error .tooDeep) ∧
      (∀ (limits : Limits) (file : String) (m : Machine),
        let r := m.runSource limits text file
        (r.1.isTooDeep → limits.nesting < 2 * text.length ∨ limits.stack < l.depth + 3) ∧
        (r.1.isTooDeep = false → ∃ v', r.1 = .value (some v') ∧ r.2.store.Shows l v' ∧
          ∀ room, r.2.store.text? .written room v' = s.text? .written room v)) ∧
      ∀ t, v.payload = .text t → ∀ file,
        let stop := (Position.first file).pastAll text.toList
        TokenStream.ofSource text file = .ok ⟨[Token.make .text (.text t) (.first file) (some stop)],
          Token.make .eof .null stop none⟩ := by
  refine ⟨l.source, h.text?_eq, fun limits file m => ⟨fun hdeep => ?_, fun hroom => ?_⟩,
    fun t ht file => ?_⟩
  · by_contra henough
    rw [not_or, Nat.not_lt, Nat.not_lt] at henough
    obtain ⟨w, hw, -⟩ := runSource_source l limits file m henough.1 henough.2
    rw [hw] at hdeep
    cases hdeep
  · obtain ⟨w, hw, hshows⟩ := runSource_of_isTooDeep hroom
    refine ⟨w, hw, hshows, fun room => ?_⟩
    rw [hshows.text?_eq, h.text?_eq]
  · cases h with
    | text =>
      cases ht
      have hsource : (Literal.text t).source = writtenText t := String.ofList_toList
      rw [hsource]
      exact Literal.ofSource_writtenText t file
    | _ => cases ht

/-- A list of a negative number, a text with all that is escaped and a line end, and a list. -/
theorem Machine.runSource_shown_nested :
    let elements := #[Value.number (-3), Value.text "\"\\\n'", Value.unplaced (.list 1)]
    let s : Store := ⟨#[], #[elements, #[Value.null]]⟩
    let v := Value.unplaced (.list 0)
    let text := "[-3, \"\\\"\\\\\n'\", [null]]"
    let r := (Machine.initial "" 0).runSource .standard text "f"
    (∃ l, s.Shows l v) ∧ s.text? .written 3 v = .ok text ∧
      ∃ v', r.1 = .value (some v') ∧ r.2.store.text? .written 3 v' = .ok text := by
  intro elements s v text r
  have hnumber : Double.isWhole (-3) ∧ Double.truncate (-3) = -3 := by decide +kernel
  have hshows : s.Shows (.list [.number ⟨-3, -3, hnumber⟩, .text "\"\\\n'", .list [.null]]) v :=
    .list rfl (.cons (.number hnumber.1 hnumber.2) (.cons .text
      (.cons (.list rfl (.cons .null .nil)) .nil)))
  obtain ⟨text', htext, hrun, -⟩ := runSource_shown hshows
  have hshown : (s.text? .written 3 v).toOption = some text := by decide +kernel
  rw [htext 3] at hshown
  obtain rfl : text' = text := Option.some.inj hshown
  obtain ⟨hdeep, hvalue⟩ := hrun .standard "f" (Machine.initial "" 0)
  have henough : ¬ (450 < 2 * text.length ∨ 450 < 2 + 3) := by decide
  obtain ⟨v', hv', -, hsame⟩ := hvalue (Bool.eq_false_iff.mpr (mt hdeep henough))
  exact ⟨⟨_, hshows⟩, htext 3, v', hv', (hsame 3).trans (htext 3)⟩

end Lumen
