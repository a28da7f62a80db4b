import Lumen.Proofs.Eval.Frame
import Lumen.Proofs.Store.Chain

/-!
# Runs keep the scopes in a tree

A call makes a scope below the one that the function keeps, and a function keeps the scope in which
it is defined. Nothing else changes a parent. So whatever source texts and documents have been run,
and however the runs have ended, the parents of every scope lead to the root, those of the scopes
that functions keep among them.
-/

namespace Lumen

def Outcome.function? : Outcome → Option Closure
  | .value (some ⟨.function f, _⟩) => some f
  | _ => none

/-- Running source texts and documents one after another leads to the machine. A document is run as
a program, or it is evaluated in one of the scopes. The outcomes are those of the runs, the last one
first. -/
inductive Machine.Session : Machine → List Outcome → Prop where
  | initial (input : String) (verbosity : Nat) : Session (.initial input verbosity) []
  | runSource {m : Machine} {outcomes : List Outcome} (limits : Limits) (source file : String) :
      Session m outcomes → Session (m.runSource limits source file).2
        ((m.runSource limits source file).1 :: outcomes)
  | run {m : Machine} {outcomes : List Outcome} (limits : Limits) (program : Tree) :
      Session m outcomes → Session (m.run limits program).2 ((m.run limits program).1 :: outcomes)
  | evaluate {m : Machine} {outcomes : List Outcome} (rounds room : Nat) (t : Tree) {c : ScopeId} :
      c < m.store.scopes.size → Session m outcomes → Session ((evaluate rounds room t c).final m)
        (Outcome.ofResult t.span ((evaluate rounds room t c).result m) :: outcomes)
  /-- Between two runs texts may be printed and lines read. -/
  | aside {m m' : Machine} {outcomes : List Outcome} : m'.store = m.store → Session m outcomes →
      Session m' outcomes

namespace Store

/-- The scopes form a tree, and the functions that the store holds keep scopes of it. -/
structure IsScoped (s : Store) : Prop where
  isTree : s.IsTree
  scope_lt : ∀ f, s.HoldsFunction f → f.scope < s.scopes.size

/-- The other store has the scopes of the first one, and they stay a tree. -/
structure KeepsTree (s s' : Store) : Prop where
  size_le : s.scopes.size ≤ s'.scopes.size
  isTree : s.IsTree → s'.IsTree

variable {s s' s'' : Store} {f : Closure}

theorem KeepsTree.trans (h : s.KeepsTree s') (h' : s'.KeepsTree s'') : s.KeepsTree s'' :=
  ⟨Nat.le_trans h.size_le h'.size_le, fun ht => h'.isTree (h.isTree ht)⟩

theorem keepsTree_of_scopes_eq (h : s'.scopes = s.scopes) : s.KeepsTree s' :=
  ⟨Nat.le_of_eq (congrArg Array.size h.symm), fun ht => ht.congr h⟩

theorem keepsTree_updateTable (s : Store) (c : ScopeId) (f : Bindings → Bindings) :
    s.KeepsTree (s.updateTable c f) :=
  ⟨(extends_updateTable s c f).size_scopes, fun ht => ht.updateTable c f⟩

theorem keepsTree_call (hf : f.scope < s.scopes.size) :
    s.KeepsTree (s.addScope (Eval.callScope f)) :=
  ⟨s.size_le_addScope _, fun ht => ht.addScope f.displayName [] hf⟩

theorem lt_size_addScope (s : Store) (scope : Scope) :
    s.nextScope < (s.addScope scope).scopes.size :=
  Nat.lt_of_lt_of_eq (Nat.lt_succ_self _) (Array.size_push _).symm

theorem isScoped_initial : Store.initial.IsScoped := by
  refine ⟨isTree_initial, fun f ⟨v, hv, hf⟩ => ?_⟩
  have hsound := (isSound_initial.values v hv).payload
  rw [hf] at hsound
  exact hsound.1

end Store

namespace Eval

/-- Evaluation starts in scopes of the store, and the functions that it meets keep such scopes. -/
def scoping : Invariant where
  Place := Unit
  loopBody := id
  functionBody := ()
  Part _ _ := True
  Open s c := c < s.scopes.size
  Fits s f := f.scope < s.scopes.size
  Leads _ := Store.KeepsTree
  Breaks _ := True
  Returns _ := True
  part_inner _ _ := trivial
  breaks_of_break _ := trivial
  breaks_of_continue _ := trivial
  returns_of_giveBack _ := trivial
  returns_of_loopBody _ := trivial
  fits_function h _ := h
  part_of_fits _ := ⟨(), trivial⟩
  leads_refl _ _ := Store.keepsTree_of_scopes_eq rfl
  leads_trans := Store.KeepsTree.trans
  fits_mono hl h := Nat.lt_of_lt_of_le h hl.size_le
  open_mono hl h := Nat.lt_of_lt_of_le h hl.size_le
  leads_bind _ _ _ := Store.keepsTree_updateTable _ _ _
  leads_unbind _ _ := Store.keepsTree_updateTable _ _ _
  leads_addList _ _ _ := Store.keepsTree_of_scopes_eq rfl
  leads_setElement _ _ _ _ _ _ := Store.keepsTree_of_scopes_eq rfl
  open_call _ _ := Store.lt_size_addScope _ _
  fits_call _ _ h := Nat.lt_of_lt_of_le h (Store.size_le_addScope _ _)
  leads_call _ hf h := (Store.keepsTree_call hf).trans h

variable {m : Machine} {c : ScopeId} {f : Closure}

/-- Evaluation in a scope of the store leaves a tree of scopes, and all functions that it leaves
keep scopes of that tree. -/
theorem isScoped_evaluate (rounds room : Nat) (t : Tree) (h : m.store.IsScoped)
    (hc : c < m.store.scopes.size) :
    let x := evaluate rounds room t c
    m.store.KeepsTree (x.final m).store ∧ (x.final m).store.IsScoped ∧
      ∀ f, Meets (x.result m) (x.final m).store f → f.scope < (x.final m).store.scopes.size := by
  have hholds : scoping.Holds c m.store := ⟨hc, fun v hv f hf => h.scope_lt f ⟨v, hv, hf⟩⟩
  have hkeeps := scoping.evaluates rounds room () t trivial c m hholds
  have hmeets := fun f => fits_of_meets (f := f) hkeeps
  exact ⟨hkeeps.1, ⟨hkeeps.1.isTree h.isTree, fun f hf => hmeets f (.inl hf)⟩, hmeets⟩

theorem meets_of_function? {span : Except Fault Span} {r : Except Stop (Option Value)}
    (h : (Outcome.ofResult span r).function? = some f) (s : Store) : Meets r s f := by
  have hvalue {v : Option Value} (hv : (Outcome.value v).function? = some f) :
      ∃ w, v = some w ∧ w.payload = .function f := by
    unfold Outcome.function? at hv
    split at hv
    · next heq =>
      cases heq
      cases hv
      exact ⟨_, rfl, rfl⟩
    · cases hv
  have hdiagnostic (d : Diagnostic) : (Outcome.ofDiagnostic d).function? = none := by
    unfold Outcome.ofDiagnostic
    split <;> rfl
  refine .inr ?_
  cases r with
  | ok v => exact hvalue h
  | error e =>
    cases e with
    | giveBack v => exact hvalue h
    | failure d => cases (hdiagnostic d).symm.trans h
    | exhausted =>
      cases span with
      | ok s => cases (hdiagnostic _).symm.trans h
      | error f => cases h
    | _ => cases h

end Eval

namespace Machine

variable {m : Machine} {outcomes : List Outcome}

/-- The store is scoped, and the functions that the runs so far have given keep scopes of it. -/
def IsScoped (m : Machine) (outcomes : List Outcome) : Prop :=
  m.store.IsScoped ∧
    ∀ o ∈ outcomes, ∀ f, o.function? = some f → f.scope < m.store.scopes.size

theorem IsScoped.evaluate (h : m.IsScoped outcomes) (rounds room : Nat) (t : Tree) {c : ScopeId}
    (hc : c < m.store.scopes.size) : ((evaluate rounds room t c).final m).IsScoped
      (Outcome.ofResult t.span ((evaluate rounds room t c).result m) :: outcomes) := by
  obtain ⟨hkeeps, hfinal, hmeets⟩ := Eval.isScoped_evaluate rounds room t h.1 hc
  refine ⟨hfinal, List.forall_mem_cons.mpr ⟨fun f hf => ?_, fun o ho f hf => ?_⟩⟩
  · exact hmeets f (Eval.meets_of_function? hf _)
  · exact Nat.lt_of_lt_of_le (h.2 o ho f hf) hkeeps.size_le

theorem IsScoped.run (h : m.IsScoped outcomes) (limits : Limits) (program : Tree) :
    (m.run limits program).2.IsScoped ((m.run limits program).1 :: outcomes) := by
  let announced := m.note 1 fun _ =>
    "run " ++ program.typeName ++ " in " ++ (Scope.mk Store.rootName none []).describe
  have hscoped : announced.IsScoped outcomes := by
    rw [IsScoped, note_store]
    exact h
  obtain ⟨table, hroot⟩ := hscoped.1.isTree.base
  exact hscoped.evaluate limits.rounds limits.stack program (Array.getElem?_eq_some_iff.mp hroot).1

theorem Session.isScoped (h : m.Session outcomes) : m.IsScoped outcomes := by
  induction h with
  | initial => exact ⟨Store.isScoped_initial, List.forall_mem_nil _⟩
  | @runSource m outcomes limits source file _ ih =>
    unfold Machine.runSource
    cases Node.ofSource limits source file with
    | error d => exact ⟨ih.1, List.forall_mem_cons.mpr ⟨nofun, ih.2⟩⟩
    | ok program => exact ih.run limits (Tree.ofNode program)
  | run limits program _ ih => exact ih.run limits program
  | evaluate rounds room t hc _ ih => exact ih.evaluate rounds room t hc
  | aside hstore _ ih =>
    rw [IsScoped, hstore]
    exact ih

/-- Whatever source texts and documents have been run, and however the runs have ended, the parents
of every scope lead to the root, and so do those of the scope that a function keeps which is bound
in a scope, stands in a list or is what a run has given. No scope is met twice on the way. A name is
looked up on it from the nearest scope on, and unbinding a name uncovers its next binding. The root
is the scope that has started with the built-in functions. -/
theorem session_rooted (hm : m.Session outcomes) :
    (∀ c < m.store.scopes.size, ∃ chain, m.store.Rooted c chain) ∧
    (∀ f, (m.store.HoldsFunction f ∨ ∃ o ∈ outcomes, o.function? = some f) →
      ∃ chain, m.store.Rooted f.scope chain) ∧
    (∃ table, m.store.scopes[Store.root]? = some ⟨Store.rootName, none, table⟩) ∧
    Store.initial.scopes[Store.root]? = some ⟨Store.rootName, none, Store.builtins⟩ := by
  obtain ⟨⟨htree, hheld⟩, hgiven⟩ := hm.isScoped
  refine ⟨fun c hc => htree.exists_rooted hc, fun f hf => htree.exists_rooted ?_, htree.base, rfl⟩
  rcases hf with hf | ⟨o, ho, hf⟩
  · exact hheld f hf
  · exact hgiven o ho f hf

/-- A call gives a function that keeps the scope of the call. There the parameter hides a built-in
function, until it is unbound. -/
theorem session_rooted_call :
    let limits : Limits := ⟨8, 8, 1⟩
    let r := (Machine.initial "" 0).runSource limits "func a(len):func():len" "f"
    let r' := r.2.runSource limits "a('')" "f"
    let s := r'.2.store
    r'.2.Session [r'.1, r.1] ∧ r'.1.function?.map Closure.scope = some 1 ∧ s.Rooted 1 [1, 0] ∧
      (s.unbind 1 (.text "len")).lookup 1 (.text "len") =
        some (Value.unplaced (.builtin .len)) := by
  intro limits r r' s
  have hm : r'.2.Session [r'.1, r.1] := .runSource limits _ _ (.runSource limits _ _ (.initial "" 0))
  have hrun : r'.1.function?.map Closure.scope = some 1 ∧ 0 < s.scopes.size ∧
      s.parent? 1 = some 0 ∧ s.parent? 0 = none ∧
      s.bound? 0 (.text "len") = some (Value.unplaced (.builtin .len)) := by
    unfold s r' r
    cbv
  obtain ⟨hf, hsize, hparent, hroot, hlen⟩ := hrun
  obtain ⟨f, hgiven, hscope⟩ := Option.map_eq_some_iff.mp hf
  obtain ⟨chain, hrooted⟩ := (session_rooted hm).2.1 f (.inr ⟨r'.1, List.mem_cons_self, hgiven⟩)
  rw [hscope] at hrooted
  obtain rfl := hrooted.unique [1, 0] (.link hparent (.last hsize hroot))
  refine ⟨hm, hf, hrooted, ?_⟩
  rw [(hrooted.uncovered [] 1 [0] (.text "len") rfl (List.forall_mem_nil _)).2,
    List.findSome?_cons, hlen]

end Machine

end Lumen
