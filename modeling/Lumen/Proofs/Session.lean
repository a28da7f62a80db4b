import Lumen.Proofs.Eval.Places
import Lumen.Proofs.Eval.Signals
import Lumen.Proofs.Grammar.Append
import Lumen.Proofs.Parser.Completeness
import Lumen.Proofs.Token.Scan

/-!
# Sessions

Running two source texts one after another on a machine is running one text that has both with a
line end between them. The statements of that text are those of the two, for neither the lexer nor
the parser goes on behind the line end, and statements leave nothing for the next ones but the
machine and, for the last one, the value.
-/

namespace Lumen

open Grammar (Statements)
open TokenStream (Scans scans_of_scan)

/-! ## Sources -/

namespace Node

def statements : Node → List Node
  | block statements _ _ => statements
  | _ => []

variable {limits : Limits} {source file : String} {program : Node} {ts : List Token}
  {ss : List Node} {q : Position}

theorem ofSource_eq (h : Scans (.first file) source.toList ts q) :
    ofSource limits source file =
      ofTokens limits.nesting ⟨ts, Token.make .eof .null q none⟩ := by
  rw [ofSource, TokenStream.ofSource, h.scan_eq]
  rfl

theorem statements_of_ofSource (h : ofSource limits source file = .ok program) :
    ∃ ts q ss p p', Scans (.first file) source.toList ts q ∧
      Statements .greedy .program ts ss ∧ program = .block ss p p' := by
  cases hscan : TokenStream.scan (.first file) source.toList with
  | error d =>
    rw [ofSource, TokenStream.ofSource, hscan] at h
    cases h
  | ok r =>
    obtain ⟨ts, q⟩ := r
    have hs := scans_of_scan hscan
    rw [ofSource_eq hs] at h
    obtain ⟨rest, hrun⟩ := Parser.run_of_ofTokens h
    have hprogram := Parser.ensures_program rfl hs.kind_ne_eof _ _ hrun
    obtain ⟨ss, hss, rfl⟩ := hprogram.statements
    exact ⟨ts, q, ss, _, _, hs, hss, rfl⟩

theorem ofSource_of_statements (h : Scans (.first file) source.toList ts q)
    (hss : Statements .greedy .program ts ss) :
    (∃ p p', ofSource limits source file = .ok (.block ss p p')) ∨
      TooDeep (ofSource limits source file) := by
  rw [ofSource_eq h]
  have hprogram := Statements.program (s := ⟨ts, Token.make .eof .null q none⟩) hss
  rcases Parser.ofTokens_of_runs (Parser.runs_program limits.nesting rfl hprogram) with h | h
  · exact .inl ⟨_, _, h⟩
  · exact .inr h.2

/-- The program that two texts write together, unless it is nested too deep. -/
theorem ofSource_append {s₁ s₂ f₁ f₂ : String} {ss₁ ss₂ : List Node} {p₁ p₂ q₁ q₂ : Position}
    (h₁ : ofSource limits s₁ f₁ = .ok (.block ss₁ p₁ q₁))
    (h₂ : ofSource limits s₂ f₂ = .ok (.block ss₂ p₂ q₂))
    (hroom : ¬ TooDeep (ofSource limits (s₁ ++ "\n" ++ s₂) file)) :
    ∃ ss ss' p p', ofSource limits (s₁ ++ "\n" ++ s₂) file = .ok (.block (ss ++ ss') p p') ∧
      ss₁.map erase = ss.map erase ∧ ss₂.map erase = ss'.map erase := by
  obtain ⟨ts₁, r₁, _, _, _, hs₁, hss₁, heq⟩ := statements_of_ofSource h₁
  cases heq
  obtain ⟨ts₂, r₂, _, _, _, hs₂, hss₂, heq⟩ := statements_of_ofSource h₂
  cases heq
  obtain ⟨g, g', r, hs⟩ := hs₁.append hs₂ file
  have htoList : (s₁ ++ "\n" ++ s₂).toList = s₁.toList ++ '\n' :: s₂.toList := by simp
  rw [← htoList] at hs
  have hss := (hss₁.move (f := g)).append (hss₂.move (f := g'))
    (u := Token.make .newline .null (g r₁) none) rfl
  have herase (f : Position → Position) (ss : List Node) :
      ss.map erase = (ss.map (move f)).map erase := by simp
  rcases ofSource_of_statements hs hss with ⟨p, p', h⟩ | h
  · exact ⟨_, _, p, p', h, herase g _, herase g' _⟩
  · exact (hroom h).elim

end Node

/-! ## Statements one after another -/

namespace Eval

variable {rounds room : Nat} {last last' : Option Value} {ss ss' : List Node} {p q : Position}

/-- What the statements of a program do behind a statement with the value `last`. -/
def perform (rounds room : Nat) (last : Option Value) (ss : List Node) : Exec (Option Value) :=
  sequence (evaluate rounds room) Store.root last (Tree.ofNodes ss)

theorem perform_append : perform rounds room last (ss ++ ss') =
    perform rounds room last ss >>= fun last => perform rounds room last ss' := by
  induction ss generalizing last with
  | nil => simp [perform, Tree.ofNodes, sequence]
  | cons s ss ih =>
    simp only [perform] at ih
    simp [perform, Tree.ofNodes, sequence, ih]

theorem perform_nil : perform rounds room last [] = pure last := by
  rw [perform, Tree.ofNodes, sequence]

theorem perform_cons (s : Node) : perform rounds room last (s :: ss) =
    perform rounds room last' (s :: ss) := by
  rw [perform, perform, Tree.ofNodes, sequence, sequence]

theorem alike_perform (h : ss.map Node.erase = ss'.map Node.erase)
    (hlast : Option.Rel untraced.Values last last') :
    untraced.Alike (perform rounds room last ss) (perform rounds room last' ss')
      (Option.Rel untraced.Values) :=
  have hev := untraced.evaluates rounds (.inl rfl)
  Simulation.alike_sequence ((Tree.alike_ofNodes h).imp hev) trivial hlast

theorem evaluate_block : evaluate rounds (room + 1) (Tree.ofNode (.block ss p q)) Store.root =
    perform rounds room none ss := by
  rw [Tree.ofNode]
  rfl

end Eval

/-! ## Ends of runs -/

namespace Outcome

variable {s : Except Fault Span} {r : Except Stop (Option Value)}

theorem ofDiagnostic_ne_value (d : Diagnostic) (v : Option Value) : ofDiagnostic d ≠ value v := by
  unfold ofDiagnostic
  split <;> exact nofun

theorem ofDiagnostic_ne_exit (d : Diagnostic) (code : Int) : ofDiagnostic d ≠ exit code := by
  unfold ofDiagnostic
  split <;> exact nofun

theorem eq_ok_of_value {v : Option Value} (hr : ∀ e, r = .error e → ¬ e.IsSignal)
    (h : ofResult s r = value v) : r = .ok v := by
  cases r with
  | ok w =>
    cases h
    rfl
  | error e =>
    have hsignal := hr e rfl
    cases e with
    | giveBack | breakLoop | continueLoop => exact (hsignal trivial).elim
    | failure d => exact (ofDiagnostic_ne_value d v h).elim
    | exhausted =>
      cases s with
      | ok s => exact (ofDiagnostic_ne_value _ v h).elim
      | error f => cases h
    | _ => cases h

theorem eq_exit_of_exit {code : Int} (h : ofResult s r = exit code) : r = .error (.exit code) := by
  cases r with
  | ok w => cases h
  | error e =>
    cases e with
    | exit code =>
      cases h
      rfl
    | failure d => exact (ofDiagnostic_ne_exit d code h).elim
    | exhausted =>
      cases s with
      | ok s => exact (ofDiagnostic_ne_exit _ code h).elim
      | error f => cases h
    | _ => cases h

end Outcome

namespace Eval

variable {limits : Limits} {m m' : Machine} {room : Nat}

def announced (m : Machine) : Machine :=
  m.note 1 fun _ =>
    "run " ++ NodeKind.block.name ++ " in " ++ (Scope.mk Store.rootName none []).describe

theorem announced_left (h : untraced.Machines m m') : untraced.Machines (announced m) m' :=
  ⟨by rw [announced, Machine.note_store]; exact h.store,
    (Machine.note_input ..).trans h.input_eq, (Machine.note_output ..).trans h.output_eq, trivial⟩

theorem announced_both (h : untraced.Machines m m') :
    untraced.Machines (announced m) (announced m') := h.note fun _ => trivial

section

variable {ss : List Node} {p q : Position}

theorem run_block (hstack : limits.stack = room + 1) :
    m.run limits (Tree.ofNode (.block ss p q)) =
      (Outcome.ofResult (.ok (Node.block ss p q).span)
        ((perform limits.rounds room none ss).result (announced m)),
        (perform limits.rounds room none ss).final (announced m)) := by
  have htype : (Tree.ofNode (.block ss p q)).typeName = NodeKind.block.name := by
    rw [Tree.ofNode]
    rfl
  rw [Simulation.run_eq, hstack, evaluate_block, Tree.span_ofNode, htype]
  rfl

theorem run_block_zero (hstack : limits.stack = 0) :
    (m.run limits (Tree.ofNode (.block ss p q))).1 =
      .failure (Diagnostic.onSpan .recursionExceeded (Node.block ss p q).span) := by
  rw [Simulation.run_eq, hstack, Tree.span_ofNode]
  rfl

end

section

variable {ss₁ ss₂ ss₁' ss₂' : List Node} {p₁ p₂ p q₁ q₂ q : Position}

theorem Simulation.Alike.untraced {α β : Type} {x : Exec α} {x' : Exec β} {Q : α → β → Prop}
    (h : untraced.Alike x x' Q) (hm : untraced.Machines m m') :
    untraced.Results Q (x.result m) (x'.result m') ∧
      untraced.Machines (x.final m) (x'.final m') :=
  (h m m' hm).resolve_left fun hexcused => hexcused.1

/-- A block that follows the value `v`, beside its statements that go on behind a value like `v`. -/
theorem run_block_after {v v' : Option Value} (hstack : limits.stack = room + 1)
    (h : ss₂.map Node.erase = ss₂'.map Node.erase) (hv : Option.Rel untraced.Values v v')
    (hm : untraced.Machines m m') :
    let r := m.run limits (Tree.ofNode (.block ss₂ p₂ q₂))
    let x := perform limits.rounds room v' ss₂'
    untraced.Machines r.2 (x.final m') ∧
      untraced.Outcomes (if ss₂.isEmpty then .value v else r.1)
        (Outcome.ofResult (.ok (Node.block ss₂' p q).span) (x.result m')) := by
  have halike : untraced.Alike (perform limits.rounds room v ss₂)
      (perform limits.rounds room v' ss₂') (Option.Rel untraced.Values) := alike_perform h hv
  obtain ⟨hresults, hfinal⟩ := halike.untraced (announced_left hm)
  have hspan : Readings (Spans untraced.Marks) (.ok (Node.block ss₂ p₂ q₂).span)
      (.ok (Node.block ss₂' p q).span) := .ok ⟨.exact, .exact⟩
  have houtcomes := Simulation.outcomes_ofResult hresults hspan
  dsimp only
  rw [run_block hstack]
  -- A block without statements has no value of its own, so the last value is still `v`.
  cases ss₂ with
  | nil =>
    rw [perform_nil] at houtcomes hfinal
    exact ⟨by rw [perform_nil]; exact hfinal, houtcomes⟩
  | cons s ss =>
    rw [perform_cons s] at houtcomes hfinal
    exact ⟨hfinal, houtcomes⟩

/-- Running a block and then another one is running the block that has the statements of both. -/
theorem run_blocks (limits : Limits) (m : Machine)
    (hconfined : (Node.block ss₁ p₁ q₁).Confined .program)
    (h₁ : ss₁.map Node.erase = ss₁'.map Node.erase)
    (h₂ : ss₂.map Node.erase = ss₂'.map Node.erase) :
    let r₁ := m.run limits (Tree.ofNode (.block ss₁ p₁ q₁))
    let r₂ := r₁.2.run limits (Tree.ofNode (.block ss₂ p₂ q₂))
    let r := m.run limits (Tree.ofNode (.block (ss₁' ++ ss₂') p q))
    (∀ v, r₁.1 = .value v → untraced.Machines r₂.2 r.2 ∧
      untraced.Outcomes (if ss₂.isEmpty then .value v else r₂.1) r.1) ∧
    ∀ code, r₁.1 = .exit code → r.1 = .exit code ∧ untraced.Machines r₁.2 r.2 := by
  cases hstack : limits.stack with
  | zero =>
    intro r₁ r₂ r
    have hfailure : r₁.1 = .failure _ := run_block_zero hstack
    constructor
    · intro v hv
      cases hfailure.symm.trans hv
    · intro code hcode
      cases hfailure.symm.trans hcode
  | succ room =>
    have halike : untraced.Alike (perform limits.rounds room none ss₁)
        (perform limits.rounds room none ss₁') (Option.Rel untraced.Values) :=
      alike_perform h₁ .none
    obtain ⟨hresults, hm⟩ := halike.untraced (announced_both (machines_untraced m))
    have hsignal (e : Stop)
        (he : (perform limits.rounds room none ss₁).result (announced m) = .error e) :
        ¬ e.IsSignal := by
      rw [← evaluate_block] at he
      exact not_isSignal_of_permits (permits_of_evaluate hconfined he)
    intro r₁ r₂ r
    have hr₁ : r₁ = (_, _) := run_block hstack
    have hr : r = (_, _) := run_block hstack
    rw [perform_append, Exec.result_bind, Exec.final_bind] at hr
    generalize (perform limits.rounds room none ss₁').result (announced m) = y at hresults hr
    constructor
    · intro v hv
      rw [hr₁] at hv
      dsimp only at hv
      rw [Outcome.eq_ok_of_value hsignal hv] at hresults
      cases hresults with
      | ok hvalue =>
        -- The second block starts on the machine that the first one left, and the rest of the joined
        -- block on one that differs from it in places and traces alone.
        have hr₂ : r₂ = r₁.2.run limits _ := rfl
        rw [hr₁] at hr₂
        rw [hr, hr₂]
        exact run_block_after hstack h₂ hvalue hm
    · intro code hcode
      rw [hr₁] at hcode
      dsimp only at hcode
      rw [Outcome.eq_exit_of_exit hcode] at hresults
      cases hresults with
      | error he =>
        cases he
        rw [hr, hr₁]
        exact ⟨rfl, hm⟩

end

/-! ## Sessions -/

theorem runSource_eq {source file : String} {program : Node}
    (h : Node.ofSource limits source file = .ok program) :
    m.runSource limits source file = m.run limits (Tree.ofNode program) := by
  rw [Machine.runSource, h]

/-- If the first of two texts ends with a value, then running the second one behind it and running
both as one text leave machines that differ in places and traces alone, and end in the same way. The
value is that of the first text if the second one has no statements. If the first text exits, then
so does the whole. -/
theorem runSource_append {s₁ s₂ f₁ f₂ : String} {p₁ p₂ : Node} (limits : Limits) (m : Machine)
    (file : String) (h₁ : Node.ofSource limits s₁ f₁ = .ok p₁)
    (h₂ : Node.ofSource limits s₂ f₂ = .ok p₂)
    (hroom : ¬ Node.TooDeep (Node.ofSource limits (s₁ ++ "\n" ++ s₂) file)) :
    let r₁ := m.runSource limits s₁ f₁
    let r₂ := r₁.2.runSource limits s₂ f₂
    let r := m.runSource limits (s₁ ++ "\n" ++ s₂) file
    (∀ v, r₁.1 = .value v → untraced.Machines r₂.2 r.2 ∧
      untraced.Outcomes (if p₂.statements.isEmpty then .value v else r₂.1) r.1) ∧
    ∀ code, r₁.1 = .exit code → r.1 = .exit code ∧ untraced.Machines r₁.2 r.2 := by
  obtain ⟨-, -, ss₁, p₁, q₁, -, -, rfl⟩ := Node.statements_of_ofSource h₁
  obtain ⟨-, -, ss₂, p₂, q₂, -, -, rfl⟩ := Node.statements_of_ofSource h₂
  obtain ⟨ss, ss', p, q, h, hss, hss'⟩ := Node.ofSource_append h₁ h₂ hroom
  intro r₁ r₂ r
  have hr₁ : r₁ = _ := runSource_eq h₁
  have hr₂ : r₂ = _ := runSource_eq h₂
  have hr : r = _ := runSource_eq h
  rw [hr₁] at hr₂
  rw [hr₁, hr₂, hr]
  exact run_blocks limits m (Node.confined_ofSource h₁) hss hss'

/-- A text that ends in a comment, and one that exits. -/
theorem runSource_append_samples :
    let limits : Limits := ⟨8, 4, 4⟩
    let m := Machine.initial "" 1
    let word (kind : TokenKind) (s : String) (i j : Int) : Token :=
      ⟨kind, .text s, ⟨"f", 1, i, i - 1⟩, ⟨"f", 1, j, j - 1⟩⟩
    let block (s : Node) (i : Int) : Node :=
      .block [s] ⟨"f", 1, 1, 0⟩ ⟨"f", 1, i, i - 1⟩
    let assigning := block (.assign (word .identifier "a" 1 2) (.text (word .text "" 3 5))) 7
    let exiting := block (.call (.lookup (word .identifier "exit" 1 5)) [] ⟨"f", 1, 7, 6⟩) 8
    let naming := block (.lookup (word .identifier "a" 1 2)) 3
    let v := some (Value.mk (.text "") (word .text "" 3 5).span)
    let together (s : String) := Node.ofSource limits (s ++ "\n" ++ "a") "g"
    (Node.ofSource limits "a=''#" "f" = .ok assigning ∧
      Node.ofSource limits "a" "f" = .ok naming ∧
      ¬ Node.TooDeep (together "a=''#") ∧
      (m.runSource limits "a=''#" "f").1 = .value v ∧
      untraced.Outcomes ((m.runSource limits "a=''#" "f").2.runSource limits "a" "f").1
        (m.runSource limits ("a=''#" ++ "\n" ++ "a") "g").1) ∧
    Node.ofSource limits "exit()" "f" = .ok exiting ∧
      ¬ Node.TooDeep (together "exit()") ∧
      (m.runSource limits "exit()" "f").1 = .exit 0 ∧
      (m.runSource limits ("exit()" ++ "\n" ++ "a") "g").1 = .exit 0 := by
  intro limits m word block assigning exiting naming v together
  have hparses {x : Except Diagnostic Node} (h : x.toBool = true) : ¬ Node.TooDeep x := by
    rintro ⟨span, rfl⟩
    cases h
  have hnaming : Node.ofSource limits "a" "f" = .ok naming := by cbv
  have hassigning : Node.ofSource limits "a=''#" "f" = .ok assigning := by cbv
  have hexiting : Node.ofSource limits "exit()" "f" = .ok exiting := by cbv
  have hvalue : (m.runSource limits "a=''#" "f").1 = .value v := by cbv
  have hexit : (m.runSource limits "exit()" "f").1 = .exit 0 := by cbv
  have hassigned : (Node.ofSource limits ("a=''#" ++ "\n" ++ "a") "g").toBool = true := by cbv
  have hexited : (Node.ofSource limits ("exit()" ++ "\n" ++ "a") "g").toBool = true := by cbv
  have hroom := hparses hassigned
  have hroom' := hparses hexited
  refine ⟨⟨hassigning, hnaming, hroom, hvalue, ?_⟩, hexiting, hroom', hexit, ?_⟩
  · exact ((runSource_append limits m "g" hassigning hnaming hroom).1 v hvalue).2
  · exact ((runSource_append limits m "g" hexiting hnaming hroom').2 0 hexit).1

end Eval

end Lumen
