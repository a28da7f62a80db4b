import Lumen.Proofs.Eval.Origin.Rules

/-!
# Failures are located in the sources that were run

The sources that have been run on a machine, one after another, say where its values come from: from
nodes between their tokens. So a run that fails points at a token of one of them, which need not be
the last one, since lists and functions take their places along.
-/

namespace Lumen

variable {K : Position → Position → Prop} {sources : List (String × String)} {p q : Position}
  {d : Diagnostic} {m : Machine} {source file : String}

def Token.IsOf (sources : List (String × String)) (file : String) (t : Token) : Prop :=
  ∃ source, (source, file) ∈ sources ∧
    ∃ s, TokenStream.ofSource source file = .ok s ∧ t ∈ s.toList

def Position.IsStart (sources : List (String × String)) (p : Position) : Prop :=
  ∃ t : Token, t.IsOf sources p.file ∧ t.start = p

def Position.IsStop (sources : List (String × String)) (p : Position) : Prop :=
  ∃ t : Token, t.IsOf sources p.file ∧ t.stop = p

/-- From a token of one of the sources to one behind it. -/
def Token.BetweenAny (sources : List (String × String)) (p q : Position) : Prop :=
  ∃ source ∈ sources, ∃ s, TokenStream.ofSource source.1 source.2 = .ok s ∧ Between s.toList p q

/-- The sources, the last one first, have been run one after another and led to the machine. -/
inductive Machine.Ran : List (String × String) → Machine → Prop where
  | initial (input : String) (verbosity : Nat) : Ran [] (.initial input verbosity)
  | runSource {sources : List (String × String)} {m : Machine} (limits : Limits)
      (source file : String) : Ran sources m →
      Ran ((source, file) :: sources) (m.runSource limits source file).2

namespace Token

theorem BetweenAny.cons (h : BetweenAny sources p q) (source : String × String) :
    BetweenAny (source :: sources) p q := by
  obtain ⟨entry, hmem, h⟩ := h
  exact ⟨entry, List.mem_cons_of_mem _ hmem, h⟩

theorem BetweenAny.start (h : BetweenAny sources p q) : p.IsStart sources := by
  obtain ⟨entry, hmem, s, hs, hpq⟩ := h
  obtain ⟨t, ht, rfl⟩ := hpq.start
  rw [Position.IsStart, (TokenStream.file_ofSource hs t ht).1]
  exact ⟨t, ⟨entry.1, hmem, s, hs, ht⟩, rfl⟩

theorem BetweenAny.stop (h : BetweenAny sources p q) : q.IsStop sources := by
  obtain ⟨entry, hmem, s, hs, hpq⟩ := h
  obtain ⟨t, ht, rfl⟩ := hpq.stop
  rw [Position.IsStop, (TokenStream.file_ofSource hs t ht).2]
  exact ⟨t, ⟨entry.1, hmem, s, hs, ht⟩, rfl⟩

/-- The nodes of a source's program lie between its tokens, whatever other sources there are. -/
theorem liesIn_betweenAny {limits : Limits} {program : Node}
    (h : Node.ofSource limits source file = .ok program) :
    program.LiesIn (BetweenAny ((source, file) :: sources)) := by
  obtain ⟨s, hs, hprogram⟩ := Node.liesIn_ofSource h
  exact hprogram.mono fun p q hpq => ⟨(source, file), List.mem_cons_self, s, hs, hpq⟩

end Token

/-- A failure that points between tokens of the sources starts at one of these tokens, and stops at
one or a step behind its start. -/
theorem Diagnostic.PointsInto.located (h : d.PointsInto (Token.BetweenAny sources)) :
    ∃ p q, d.span = ⟨.exact p, .exact q⟩ ∧ p.IsStart sources ∧
      (q.IsStop sources ∨ q = p.next) := by
  cases h with
  | within hpq => exact ⟨_, _, rfl, hpq.start, .inl hpq.stop⟩
  | step hpq => exact ⟨_, _, rfl, hpq.start, .inr rfl⟩
  | across _ hpq hpq' => exact ⟨_, _, rfl, hpq.start, .inl hpq'.stop⟩

/-- How the run of a node in `K` ends. A failure has its place already, and when there is no room
left the whole program is to blame. -/
theorem Outcome.pointsInto_ofResult {t : Tree} (ht : t.LiesIn K) {r : Except Stop (Option Value)}
    (hr : ∀ e, r = .error e → e.IsFrom K (Diagnostic.PointsInto K))
    (hd : ofResult t.span r = .failure d) : d.PointsInto K := by
  have hdiagnostic {d' : Diagnostic} (h : ofDiagnostic d' = .failure d) : d' = d := by
    unfold ofDiagnostic at h
    split at h
    · exact Outcome.failure.inj h
    · cases h
  cases r with
  | ok v => cases hd
  | error e =>
    cases e with
    | failure d' =>
      obtain rfl := hdiagnostic hd
      exact hr _ rfl
    | exhausted =>
      cases hspan : t.span with
      | error f => rw [hspan] at hd; cases hd
      | ok s =>
        rw [hspan] at hd
        obtain rfl := hdiagnostic hd
        exact Diagnostic.pointsInto_onSpan (ht s hspan)
    | _ => cases hd

namespace Machine

/-- The run of a program in `K` keeps the store's values from `K`, and what it fails with points
into `K`. -/
theorem run_pointsInto (limits : Limits) {program : Node} (hm : m.store.IsFrom K)
    (hp : program.LiesIn K) :
    let r := m.run limits (Tree.ofNode program)
    r.2.store.IsFrom K ∧ ∀ d, r.1 = .failure d → d.PointsInto K := by
  have hstays := Eval.stays_evaluate limits.rounds limits.stack program hp Store.root
    (m.note 1 fun _ => "run " ++ (Tree.ofNode program).typeName ++ " in " ++
      (Scope.mk Store.rootName none []).describe)
  rw [note_store] at hstays
  obtain ⟨hstore, hr⟩ := hstays hm
  refine ⟨hstore, fun d hd => ?_⟩
  refine Outcome.pointsInto_ofResult (Tree.liesIn_ofNode hp) (fun e he => ?_) hd
  change Exec.result _ _ = _ at he
  rw [he] at hr
  exact hr

theorem Ran.isFrom (hm : m.Ran sources) : m.store.IsFrom (Token.BetweenAny sources) := by
  induction hm with
  | initial => exact Store.isFrom_initial
  | @runSource sources m limits source file _ ih =>
    have hstore := ih.mono fun p q h => h.cons (source, file)
    unfold Machine.runSource
    cases hp : Node.ofSource limits source file with
    | error d => exact hstore
    | ok program => exact (run_pointsInto limits hstore (Token.liesIn_betweenAny hp)).1

/-- Whatever sources have been run before, a program that fails is refused from the start of a token
of one of the sources run so far, in that source's file, up to the end of one or a step further. -/
theorem runSource_located (hm : m.Ran sources) {limits : Limits} {program : Node}
    (hp : Node.ofSource limits source file = .ok program)
    (hd : (m.runSource limits source file).1 = .failure d) :
    ∃ p q, d.span = ⟨.exact p, .exact q⟩ ∧ p.IsStart ((source, file) :: sources) ∧
      (q.IsStop ((source, file) :: sources) ∨ q = p.next) := by
  have hstore := hm.isFrom.mono fun p q h => h.cons (source, file)
  unfold Machine.runSource at hd
  rw [hp] at hd
  exact ((run_pointsInto limits hstore (Token.liesIn_betweenAny hp)).2 d hd).located

/-- A function of one text fails when another text calls it, and points into the first. -/
theorem runSource_located_call :
    let limits : Limits := ⟨8, 8, 1⟩
    let m := ((Machine.initial "" 0).runSource limits "func a():null()" "f").2
    let sources := [("a()", "g"), ("func a():null()", "f")]
    let d := Diagnostic.onSpan (.notCallable .null)
      ⟨.exact ⟨"f", 1, 10, 9⟩, .exact ⟨"f", 1, 14, 13⟩⟩
    m.Ran [("func a():null()", "f")] ∧ (Node.ofSource limits "a()" "g").isOk = true ∧
      (m.runSource limits "a()" "g").1 = .failure d ∧
      ∃ p q, d.span = ⟨.exact p, .exact q⟩ ∧ p.IsStart sources ∧
        (q.IsStop sources ∨ q = p.next) := by
  intro limits m sources d
  have hm : m.Ran [("func a():null()", "f")] := .runSource limits _ _ (.initial "" 0)
  have hok : (Node.ofSource limits "a()" "g").isOk = true := by cbv
  have hd : (((Machine.initial "" 0).runSource limits "func a():null()" "f").2.runSource limits
      "a()" "g").1 = .failure d := by cbv
  cases hp : Node.ofSource limits "a()" "g" with
  | error e => rw [hp] at hok; cases hok
  | ok program => exact ⟨hm, rfl, hd, runSource_located hm hp hd⟩

end Machine

end Lumen
