import Lumen.Proofs.Eval.Rules
import Lumen.Proofs.Node.Confined

/-!
# Signals stay where the parser allows them

A signal leaves the evaluation of a node only where the nesting allows the statement that sends it,
and it never leaves a call. This is an invariant whose parts are the documents of confined nodes; a
function may have any body, since its call takes up all the signals of the body.
-/

namespace Lumen

open Lumen.Parser (Nesting)

namespace Tree

theorem mem_ofNodes {es : List Node} {t : Tree} (h : t ∈ ofNodes es) : ∃ e ∈ es, t = ofNode e := by
  induction es with
  | nil => rw [ofNodes] at h; cases h
  | cons e es ih =>
    rw [ofNodes] at h
    rcases List.mem_cons.mp h with rfl | h
    · exact ⟨e, List.mem_cons_self, rfl⟩
    · obtain ⟨f, hf, he⟩ := ih h
      exact ⟨f, List.mem_cons_of_mem _ hf, he⟩

theorem mem_ofCases {cases : List (Node × Node)} {t : Tree} (h : t ∈ ofCases cases) :
    ∃ g ∈ cases, t = node .guarded [ofNode g.1, ofNode g.2] := by
  induction cases with
  | nil => rw [ofCases] at h; cases h
  | cons g cases ih =>
    obtain ⟨c, b⟩ := g
    rw [ofCases] at h
    rcases List.mem_cons.mp h with rfl | h
    · exact ⟨(c, b), List.mem_cons_self, rfl⟩
    · obtain ⟨f, hf, he⟩ := ih h
      exact ⟨f, List.mem_cons_of_mem _ hf, he⟩

theorem eq_some_of_ofOption {e : Option Node} (h : (ofOption e).isNull = false) :
    ∃ f, e = some f ∧ ofOption e = ofNode f := by
  cases e with
  | none => rw [ofOption] at h; cases h
  | some f => exact ⟨f, rfl, by rw [ofOption]⟩

end Tree

namespace Eval

/-- The part is the document of a node that is confined as the nesting says. Where there is no
nesting it may be anything. -/
def IsConfined : Option Nesting → Tree → Prop
  | none, _ => True
  | some n, t => ∃ e : Node, t = Tree.ofNode e ∧ e.Confined n

theorem isConfined_ofNode {n : Nesting} {e : Node} (h : e.Confined n) :
    IsConfined (some n) (Tree.ofNode e) := ⟨e, rfl, h⟩

theorem isConfined_mem {n : Nesting} {es : List Node} {ts : List Tree} {u : Tree}
    (h : ∀ e ∈ es, Node.Confined n e) (hts : (Tree.list (Tree.ofNodes es)).items = .ok ts)
    (hu : u ∈ ts) : IsConfined (some n) u := by
  obtain rfl := Except.ok.inj hts
  obtain ⟨e, he, rfl⟩ := Tree.mem_ofNodes hu
  exact isConfined_ofNode (h e he)

theorem isConfined_ofOption {n : Nesting} {o : Option Node} (h : ∀ e ∈ o, Node.Confined n e)
    (hnull : (Tree.ofOption o).isNull = false) : IsConfined (some n) (Tree.ofOption o) := by
  obtain ⟨f, rfl, he⟩ := Tree.eq_some_of_ofOption hnull
  exact ⟨f, he, h f rfl⟩

theorem isConfined_pair {n : Nesting} {e f : Node} {u : Tree} (he : e.Confined n)
    (hf : f.Confined n) (hu : u ∈ [Tree.ofNode e, Tree.ofNode f]) : IsConfined (some n) u := by
  rcases List.mem_cons.mp hu with rfl | hu
  · exact isConfined_ofNode he
  · obtain rfl := List.mem_singleton.mp hu
    exact isConfined_ofNode hf

/-- The parts of a confined node are confined. -/
theorem isConfined_inner {n : Nesting} {e : Node} {w : Way} {u : Tree} (h : e.Confined n)
    (hu : Inner (Tree.ofNode e) w u) :
    IsConfined (w.select (some n) (some n.loopBody) none) u := by
  cases h with
  | number | text | null | lookup | breakLoop _ | continueLoop _ =>
    rw [Tree.ofNode] at hu
    cases hu
  | list hes =>
    rw [Tree.ofNode] at hu
    cases hu with
    | element hts hmem => exact isConfined_mem hes hts hmem
  | block hss =>
    rw [Tree.ofNode] at hu
    cases hu with
    | statement hts hmem => exact isConfined_mem hss hts hmem
  | ternary hc ha hb =>
    rw [Tree.ofNode] at hu
    cases hu with
    | ternary hmem =>
      rcases List.mem_cons.mp hmem with rfl | hmem
      · exact isConfined_ofNode hc
      · exact isConfined_pair ha hb hmem
  | binary ha hb =>
    rw [Tree.ofNode] at hu
    cases hu with
    | binary hmem => exact isConfined_pair ha hb hmem
  | unary he =>
    rw [Tree.ofNode] at hu
    cases hu with
    | unary => exact isConfined_ofNode he
  | assign he =>
    rw [Tree.ofNode] at hu
    cases hu with
    | assign => exact isConfined_ofNode he
  | index he hi hj =>
    rw [Tree.ofNode] at hu
    cases hu with
    | index hmem => exact isConfined_pair he hi hmem
    | upTo hnull => exact isConfined_ofOption hj hnull
  | assignIndex hi he =>
    rw [Tree.ofNode] at hu
    cases hu with
    | assignIndex hmem => exact isConfined_pair hi he hmem
  | conditional hconditions hbodies hotherwise =>
    rw [Tree.ofNode] at hu
    cases hu with
    | condition hts hmem hg =>
      obtain rfl := Except.ok.inj hts
      obtain ⟨g, hg', rfl⟩ := Tree.mem_ofCases hmem
      obtain rfl := Except.ok.inj hg
      exact isConfined_ofNode (hconditions g hg')
    | guarded hts hmem hg =>
      obtain rfl := Except.ok.inj hts
      obtain ⟨g, hg', rfl⟩ := Tree.mem_ofCases hmem
      obtain rfl := Except.ok.inj hg
      exact isConfined_ofNode (hbodies g hg')
    | otherwise hnull => exact isConfined_ofOption hotherwise hnull
  | forLoop ha hb hstep hbody =>
    rw [Tree.ofNode] at hu
    cases hu with
    | forHeader hmem => exact isConfined_pair ha hb hmem
    | forStep hnull => exact isConfined_ofOption hstep hnull
    | forBody => exact isConfined_ofNode hbody
  | eachLoop he hbody =>
    rw [Tree.ofNode] at hu
    cases hu with
    | eachHeader => exact isConfined_ofNode he
    | eachBody => exact isConfined_ofNode hbody
  | whileLoop hc hbody =>
    rw [Tree.ofNode] at hu
    cases hu with
    | whileHeader => exact isConfined_ofNode hc
    | whileBody => exact isConfined_ofNode hbody
  | function =>
    rw [Tree.ofNode] at hu
    cases hu with
    | function => trivial
  | call he hargs =>
    rw [Tree.ofNode] at hu
    cases hu with
    | callee => exact isConfined_ofNode he
    | argument hts hmem => exact isConfined_mem hargs hts hmem
  | giveBack _ hvalue =>
    rw [Tree.ofNode] at hu
    cases hu with
    | giveBack hnull => exact isConfined_ofOption hvalue hnull

def allowsBreak : Option Nesting → Prop
  | none => True
  | some n => n.inLoop

def allowsReturn : Option Nesting → Prop
  | none => True
  | some n => n.inFunction

def confinement : Invariant where
  Place := Option Nesting
  loopBody := Option.map Nesting.loopBody
  functionBody := none
  Part := IsConfined
  Open _ _ := True
  Fits _ _ := True
  Leads _ _ _ := True
  Breaks := allowsBreak
  Returns := allowsReturn
  part_inner {p t w u} h hu := by
    cases p with
    | none => cases w <;> trivial
    | some n =>
      obtain ⟨e, rfl, he⟩ := h
      exact isConfined_inner he hu
  breaks_of_break {p fields} h := by
    cases p with
    | none => trivial
    | some n =>
      obtain ⟨e, he, hc⟩ := h
      cases hc with
      | breakLoop hn => exact hn
      | _ => rw [Tree.ofNode] at he; cases he
  breaks_of_continue {p fields} h := by
    cases p with
    | none => trivial
    | some n =>
      obtain ⟨e, he, hc⟩ := h
      cases hc with
      | continueLoop hn => exact hn
      | _ => rw [Tree.ofNode] at he; cases he
  returns_of_giveBack {p fields} h := by
    cases p with
    | none => trivial
    | some n =>
      obtain ⟨e, he, hc⟩ := h
      cases hc with
      | giveBack hn _ => exact hn
      | _ => rw [Tree.ofNode] at he; cases he
  returns_of_loopBody {p} h := by
    cases p with
    | none => trivial
    | some n => exact h
  fits_function _ _ := trivial
  part_of_fits _ := ⟨none, trivial⟩
  leads_refl _ _ := trivial
  leads_trans _ _ := trivial
  fits_mono _ _ := trivial
  open_mono _ _ := trivial
  leads_bind _ _ _ := trivial
  leads_unbind _ _ := trivial
  leads_addList _ _ _ := trivial
  leads_setElement _ _ _ _ _ _ := trivial
  open_call _ _ := trivial
  fits_call _ _ _ := trivial
  leads_call _ _ _ := trivial

variable {rounds room : Nat} {c : ScopeId} {m : Machine} {e : Stop}

theorem permits_of_evaluate {n : Nesting} {node : Node} (h : node.Confined n)
    (hresult : (evaluate rounds room (Tree.ofNode node) c).result m = .error e) :
    confinement.Permits (some n) m.store e := by
  have hholds : confinement.Holds c m.store := ⟨trivial, fun _ _ _ _ => trivial⟩
  obtain ⟨-, -, hr⟩ :=
    confinement.evaluates rounds room (some n) _ (isConfined_ofNode h) c m hholds
  rw [hresult] at hr
  cases e with
  | giveBack v => exact ⟨hr.1, fun _ _ => trivial⟩
  | breakLoop => exact hr
  | continueLoop => exact hr
  | _ => trivial

theorem not_break_of_permits {n : Nesting} {s : Store} (h : confinement.Permits (some n) s e)
    (hn : n.inLoop = false) : e ≠ .breakLoop ∧ e ≠ .continueLoop := by
  constructor
  · rintro rfl
    exact Bool.false_ne_true (hn.symm.trans h)
  · rintro rfl
    exact Bool.false_ne_true (hn.symm.trans h)

theorem not_giveBack_of_permits {n : Nesting} {s : Store} (h : confinement.Permits (some n) s e)
    (hn : n.inFunction = false) (v : Value) : e ≠ .giveBack v := by
  rintro rfl
  exact Bool.false_ne_true (hn.symm.trans h.1)

/-- No signal passes where there is neither a loop nor a function. -/
theorem not_isSignal_of_permits {s : Store} (h : confinement.Permits (some .program) s e) :
    ¬ e.IsSignal := by
  cases e with
  | giveBack v => exact fun _ => not_giveBack_of_permits h rfl v rfl
  | breakLoop => exact fun _ => (not_break_of_permits h rfl).1 rfl
  | continueLoop => exact fun _ => (not_break_of_permits h rfl).2 rfl
  | _ => exact id

theorem not_isSignal_of_callValue {v : Value} {args : List Value}
    (h : (callValue room (evaluate rounds room) v args).result m = .error e) : ¬ e.IsSignal := by
  have hholds : confinement.Holds Store.root m.store := ⟨trivial, fun _ _ _ _ => trivial⟩
  have hadmits (w : Value) : confinement.Admits m.store w := fun _ _ => trivial
  have hcall : confinement.Keeps (some .program) Store.root m
      (callValue room (evaluate rounds room) v args) confinement.Admits :=
    Invariant.keeps_callValue (confinement.evaluates rounds room) hholds (hadmits v)
      fun w _ => hadmits w
  obtain ⟨-, -, hr⟩ := hcall
  rw [h] at hr
  exact not_isSignal_of_permits hr

/-- No signal leaves a parsed program, whatever has run on the machine before. What any rule of the
parser accepts outside of loops sends no loop signal, and what it accepts outside of functions gives
nothing back. No signal leaves a call, whatever the body is. -/
theorem signals_confined :
    (∀ (limits : Limits) (source file : String) (program : Node) (m : Machine) (e : Stop),
      Node.ofSource limits source file = .ok program →
      (evaluate limits.rounds limits.stack (Tree.ofNode program) Store.root).result m = .error e →
      ¬ e.IsSignal) ∧
    (∀ (rule : Parser.NodeRule) (eof : Token) (depth : Nat) (n : Nesting) (ts rest : List Token)
      (node : Node), eof.kind = .eof →
      (rule.parse eof (Parser.Rules.upTo eof depth) n).run ts = .ok (node, rest) →
      ∀ (rounds room : Nat) (c : ScopeId) (m : Machine) (e : Stop),
        (evaluate rounds room (Tree.ofNode node) c).result m = .error e →
        (n.inLoop = false → e ≠ .breakLoop ∧ e ≠ .continueLoop) ∧
          (n.inFunction = false → ∀ v, e ≠ .giveBack v)) ∧
    ∀ (rounds room : Nat) (v : Value) (args : List Value) (m : Machine) (e : Stop),
      (callValue room (evaluate rounds room) v args).result m = .error e → ¬ e.IsSignal := by
  refine ⟨fun limits source file program m e hprogram he => ?_, ?_, ?_⟩
  · exact not_isSignal_of_permits (permits_of_evaluate (Node.confined_ofSource hprogram) he)
  · intro rule eof depth n ts rest node heof hrun rounds room c m e he
    have hconfined : node.Confined n :=
      Parser.ensures_confined heof (Parser.sound_upTo heof depth) rule _ _ hrun
    have hpermits := permits_of_evaluate hconfined he
    exact ⟨not_break_of_permits hpermits, not_giveBack_of_permits hpermits⟩
  · exact fun rounds room v args m e he => not_isSignal_of_callValue he

/-- A program that calls null, a `break` that is accepted in a loop, and a call of null. -/
theorem signals_confined_samples :
    let t : Token := ⟨.identifier, .text "a", ⟨"f", 1, 1, 0⟩, ⟨"f", 1, 2, 1⟩⟩
    let program := Node.block [.call (.lookup t) [] ⟨"f", 1, 4, 3⟩] ⟨"f", 1, 1, 0⟩ ⟨"f", 1, 5, 4⟩
    let d := Diagnostic.onSpan (.notCallable .null) t.span
    let u : Token := ⟨.keyword, .text "break", ⟨"f", 1, 1, 0⟩, ⟨"f", 1, 6, 5⟩⟩
    let eof : Token := ⟨.eof, .null, ⟨"f", 1, 6, 5⟩, ⟨"f", 1, 7, 6⟩⟩
    (Node.ofSource ⟨8, 4, 4⟩ "a()" "f" = .ok program ∧
      (evaluate 4 4 (Tree.ofNode program) Store.root).result (Machine.initial "" 0) =
        .error (.failure d) ∧ ¬ (Stop.failure d).IsSignal) ∧
    ((Parser.NodeRule.statement.parse eof (Parser.Rules.upTo eof 1) ⟨true, false⟩).run [u] =
        .ok (.breakLoop u, []) ∧
      (evaluate 4 4 (Tree.ofNode (.breakLoop u)) Store.root).result (Machine.initial "" 0) =
        .error .breakLoop ∧ ∀ v, Stop.breakLoop ≠ .giveBack v) ∧
    (callValue 4 (evaluate 4 4) ⟨.null, t.span⟩ []).result (Machine.initial "" 0) =
      .error (.failure d) ∧ ¬ (Stop.failure d).IsSignal := by
  intro t program d u eof
  have hparsed : Node.ofSource ⟨8, 4, 4⟩ "a()" "f" = .ok program := by cbv
  have hrun : (evaluate 4 4 (Tree.ofNode program) Store.root).result (Machine.initial "" 0) =
      .error (.failure d) := by cbv
  have hbreak : (Parser.NodeRule.statement.parse eof (Parser.Rules.upTo eof 1) ⟨true, false⟩).run
      [u] = .ok (.breakLoop u, []) := by cbv
  have hloop : (evaluate 4 4 (Tree.ofNode (.breakLoop u)) Store.root).result
      (Machine.initial "" 0) = .error .breakLoop := by cbv
  have hcall : (callValue 4 (evaluate 4 4) ⟨.null, t.span⟩ []).result (Machine.initial "" 0) =
      .error (.failure d) := by cbv
  refine ⟨⟨hparsed, hrun, ?_⟩, ⟨hbreak, hloop, ?_⟩, hcall, ?_⟩
  · exact signals_confined.1 ⟨8, 4, 4⟩ "a()" "f" program _ _ hparsed hrun
  · exact (signals_confined.2.1 .statement eof 1 _ [u] [] _ rfl hbreak 4 4 _ _ _ hloop).2 rfl
  · exact signals_confined.2.2 4 4 ⟨.null, t.span⟩ [] _ _ hcall

end Eval

end Lumen
