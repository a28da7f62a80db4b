import Lumen.Proofs.Eval.Room
import Lumen.Proofs.Eval.Tracing.Rules

/-!
# The trace of a session

Nothing of a session but its trace depends on how far the trace goes down, and each trace is the
part of a longer one that has the levels down to its own.
-/

namespace Lumen.Machine

variable {limits : Limits} {d d' : Nat}

theorem quieten_initial (input : String) (h : d ≤ d') :
    (initial input d').quieten d = initial input d := by
  simp only [quieten, initial, Nat.min_eq_right h, Array.filter_empty]

/-- At level zero there are no messages. -/
theorem trace_quieten_zero (m : Machine) : (m.quieten 0).trace = #[] := by
  apply Array.filter_eq_empty_iff.mpr
  intro message _ hlevel
  have hle := of_decide_eq_true hlevel
  exact Nat.not_succ_le_zero 0 (Nat.le_trans (one_le_levelOf message) hle)

theorem run_quieten (d : Nat) (limits : Limits) (t : Tree) (m : Machine) :
    (m.quieten d).run limits t = ((m.run limits t).1, (m.run limits t).2.quieten d) := by
  have hnote (context : String) (m : Machine) :
      (m.quieten d).note 1 (fun _ => "run " ++ t.typeName ++ " in " ++ context) =
        (m.note 1 fun _ => "run " ++ t.typeName ++ " in " ++ context).quieten d := by
    refine (quieten_note ?_ m).symm
    simp only [String.append_assoc]
    exact levelOf_append (w := "run ") (by decide) _
  rw [Eval.Simulation.run_eq, Eval.Simulation.run_eq]
  dsimp only
  rw [hnote]
  obtain ⟨hr, hm⟩ := Eval.quiet_evaluate d limits.rounds limits.stack t Store.root
    (m.note 1 fun _ => "run " ++ t.typeName ++ " in " ++ (Scope.mk Store.rootName none []).describe)
  rw [hr, hm]

theorem runSource_quieten (d : Nat) (limits : Limits) (source file : String) (m : Machine) :
    (m.quieten d).runSource limits source file =
      ((m.runSource limits source file).1, (m.runSource limits source file).2.quieten d) := by
  unfold runSource
  split
  · rfl
  · exact run_quieten d limits _ m

theorem runAll_quieten (d : Nat) (limits : Limits) (sources : List (String × String))
    (m : Machine) :
    (m.quieten d).runAll limits sources =
      (m.runAll limits sources).map fun r => (r.1, r.2.quieten d) := by
  induction sources generalizing m with
  | nil => rfl
  | cons source rest ih =>
    obtain ⟨source, file⟩ := source
    rw [runAll, runAll, runSource_quieten, List.map_cons, ih]

/-- A step ends as another one does and leaves the same machine, but for a trace that has just those
messages of the other one's that go down to level `d`; at level zero there are none. -/
structure TracesLess (d : Nat) (r r' : Outcome × Machine) : Prop where
  outcome_eq : r.1 = r'.1
  store_eq : r.2.store = r'.2.store
  output_eq : r.2.output = r'.2.output
  input_eq : r.2.input = r'.2.input
  trace_eq : r.2.trace = r'.2.trace.filter fun message => levelOf message ≤ d
  trace_zero : d = 0 → r.2.trace = #[]

theorem tracesLess_quieten (d : Nat) (r : Outcome × Machine) :
    TracesLess d (r.1, r.2.quieten d) r := by
  refine ⟨rfl, rfl, rfl, rfl, rfl, ?_⟩
  rintro rfl
  exact trace_quieten_zero r.2

/-- Two sessions that differ in nothing but how far their traces go down end each step in the same
way, and the shorter trace is the part of the longer one that goes down to its level. -/
theorem runAll_traced (limits : Limits) (sources : List (String × String)) (input : String)
    (h : d ≤ d') :
    List.Forall₂ (TracesLess d) ((initial input d).runAll limits sources)
      ((initial input d').runAll limits sources) := by
  rw [← quieten_initial input h, runAll_quieten, List.forall₂_map_left_iff, List.forall₂_same]
  exact fun r _ => tracesLess_quieten d r

/-- An assignment shows at the second level, and not at the first. -/
theorem runAll_traced_assign :
    let session (d : Nat) := (initial "" d).runAll ⟨4, 4, 1⟩ [("a=''", "f")]
    1 ≤ 2 ∧ List.Forall₂ (TracesLess 1) (session 1) (session 2) ∧
      (session 1).map (·.2.trace.size) = [1] ∧ (session 2).map (·.2.trace.size) = [2] := by
  intro session
  have h : 1 ≤ 2 := by decide
  have hshort : (session 1).map (·.2.trace.size) = [1] := by cbv
  have hlong : (session 2).map (·.2.trace.size) = [2] := by cbv
  exact ⟨h, runAll_traced ⟨4, 4, 1⟩ [("a=''", "f")] "" h, hshort, hlong⟩

end Lumen.Machine
