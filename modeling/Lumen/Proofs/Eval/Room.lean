import Mathlib
import Lumen.Proofs.Eval.Simulation.Run
import Lumen.Proofs.Parser.Nesting

/-!
# More room

A run that has enough room does not depend on how much it has. Running out ends the whole run, and
so does nesting a source too deep: no rule makes a value or another failure of it. So where no step
of a session is short of room, all steps stay the same with more of it.
-/

namespace Lumen

/-- The same, with as much room or more. -/
structure Limits.Within (limits limits' : Limits) : Prop where
  nesting : limits.nesting ≤ limits'.nesting
  stack : limits.stack ≤ limits'.stack
  rounds : limits.rounds = limits'.rounds

def Outcome.isTooDeep : Outcome → Bool
  | .failure ⟨.nestingExceeded, _⟩ | .failure ⟨.recursionExceeded, _⟩ | .exhausted => true
  | _ => false

def Machine.runAll (limits : Limits) : List (String × String) → Machine → List (Outcome × Machine)
  | [], _ => []
  | (source, file) :: rest, m =>
    let r := m.runSource limits source file
    r :: r.2.runAll limits rest

theorem eq_of_rel {α : Type} {R : α → α → Prop} {o o' : Option α} (h : Option.Rel R o o')
    (heq : ∀ a b, R a b → a = b) : o = o' := by
  cases h with
  | some h => rw [heq _ _ h]
  | none => rfl

theorem Aligned.eq {α : Type} {R : α → α → Prop} {a b : Array α} (h : Aligned R a b)
    (heq : ∀ x y, R x y → x = y) : a = b :=
  Array.ext_getElem? fun i => eq_of_rel (h i) heq

theorem Bindings.Aligned.eq {R : Value → Value → Prop} {b b' : Bindings} (h : b.Aligned R b')
    (heq : ∀ v w, R v w → v = w) : b = b' := by
  induction h with
  | nil => rfl
  | cons hentry _ ih => rw [Prod.ext hentry.1 (heq _ _ hentry.2), ih]

namespace Eval

theorem join_eq {p q p' q' : Mark} (h : p = p') (h' : q = q') :
    Readings (Spans Eq) (Span.join p q) (Span.join p' q') := by
  rw [h, h']
  exact readings_self fun _ _ => ⟨rfl, rfl⟩

/-- Runs that are the same, but for a first one that may be short of room. -/
def roomier : Simulation where
  Marks := Eq
  Parts := Eq
  Reaches _ := True
  ReachesList _ := True
  Kept _ := True
  Logs := Eq
  excused := True
  marks_none := rfl
  isNone_eq h := congrArg Mark.isNone h
  isPlain_eq h := congrArg Mark.isPlain h
  join := @join_eq
  span h := by
    subst h
    exact readings_self fun _ _ => ⟨rfl, rfl⟩
  start h := by
    subst h
    exact readings_self fun _ _ => rfl
  matched h := by
    subst h
    exact matched_self (fun _ => rfl) fun _ _ _ => rfl
  logs_note _ _ h := by rw [h]
  logs_case h h' := by rw [h, h']
  reaches_nextScope _ := trivial
  reaches_nextList _ := trivial
  kept_updateTable _ _ _ := trivial
  kept_addScope _ _ := trivial
  kept_addList _ _ := trivial
  kept_setElement _ _ _ _ _ := trivial

section

variable {v v' : Value} {s s' : Store} {m m' : Machine} {sp sp' : Span}

theorem Spans.eq (h : Spans Eq sp sp') : sp = sp' := by
  obtain ⟨p, q⟩ := sp
  obtain ⟨p', q'⟩ := sp'
  obtain ⟨rfl, rfl⟩ := h
  rfl

theorem values_eq (h : roomier.Values v v') : v = v' := by
  obtain ⟨p, sp⟩ := v
  obtain ⟨p', sp'⟩ := v'
  obtain ⟨hp, hsp⟩ := h
  obtain rfl := hsp.eq
  cases hp with
  | function hbody _ =>
    obtain rfl := hbody
    rfl
  | _ => rfl

theorem stops_eq {e e' : Stop} (h : roomier.Stops e e') : e = e' := by
  cases h with
  | giveBack hv => rw [values_eq hv]
  | failure hs => rw [hs.eq]
  | _ => rfl

theorem results_eq {α : Type} {P : α → α → Prop} {r r' : Except Stop α}
    (h : roomier.Results P r r') (heq : ∀ a b, P a b → a = b) : r = r' := by
  cases h with
  | ok hv => rw [heq _ _ hv]
  | error he => rw [stops_eq he]

theorem scopes_eq {scope scope' : Scope} (h : roomier.Scopes scope scope') : scope = scope' := by
  obtain ⟨name, parent, table⟩ := scope
  obtain ⟨name', parent', table'⟩ := scope'
  obtain ⟨rfl, rfl, -, htable⟩ := h
  obtain rfl : table = table' := Bindings.Aligned.eq htable fun _ _ => values_eq
  rfl

theorem stores_eq (h : roomier.Stores s s') : s = s' := by
  obtain ⟨scopes, lists⟩ := s
  obtain ⟨scopes', lists'⟩ := s'
  have hscopes : Aligned roomier.Scopes scopes scopes' := fun c => h.scopes c trivial
  have hlists : Aligned (Aligned roomier.Values) lists lists' := fun l => h.lists l trivial
  rw [hscopes.eq fun _ _ => scopes_eq, hlists.eq fun _ _ ha => ha.eq fun _ _ => values_eq]

theorem machines_eq (h : roomier.Machines m m') : m = m' := by
  obtain ⟨s, input, output, trace, verbosity⟩ := m
  obtain ⟨s', input', output', trace', verbosity'⟩ := m'
  obtain ⟨hs, rfl, rfl, hlog⟩ := h
  obtain rfl := stores_eq hs
  cases hlog
  rfl

theorem values_roomier (v : Value) : roomier.Values v v :=
  Simulation.values_self ⟨rfl, rfl⟩ (fun _ _ => trivial) fun _ _ => ⟨rfl, trivial⟩

theorem machines_roomier (m : Machine) : roomier.Machines m m := by
  refine ⟨Simulation.stores_self (fun c scope _ _ => ?_) (fun l a _ _ => ?_) trivial, rfl, rfl, rfl⟩
  · exact ⟨rfl, rfl, fun _ _ => trivial, .refl fun _ _ => values_roomier _⟩
  · exact .refl fun _ _ => values_roomier _

/-- The simulation relates equal machines alone, so the second action may be read off it. -/
theorem eq_of_alike {α : Type} {P : α → α → Prop} {x x' : Exec α} (h : roomier.Alike x x' P)
    (heq : ∀ a b, P a b → a = b) (m : Machine) : x.result m = .error .exhausted ∨
      x'.result m = x.result m ∧ x'.final m = x.final m := by
  refine (h m m (machines_roomier m)).imp And.right fun ⟨hr, hm⟩ => ?_
  exact ⟨(results_eq hr heq).symm, (machines_eq hm).symm⟩

end

/-- Evaluation that is not short of room ends in the same way where there is more. -/
theorem evaluate_of_le (rounds : Nat) {room room' : Nat} (hle : room ≤ room') (t : Tree)
    (c : ScopeId) (m : Machine) :
    (evaluate rounds room t c).result m = .error .exhausted ∨
      (evaluate rounds room' t c).result m = (evaluate rounds room t c).result m ∧
        (evaluate rounds room' t c).final m = (evaluate rounds room t c).final m := by
  have hrooms : roomier.Rooms room room' := .inr ⟨trivial, hle⟩
  have halike := (roomier.evaluates rounds hrooms t t rfl).alike c trivial
  exact eq_of_alike halike (fun _ _ h => eq_of_rel h fun _ _ => values_eq) m

/-- So do operands. -/
theorem operands_of_le (rounds : Nat) {room room' : Nat} (hle : room ≤ room') (ts : List Tree)
    (c : ScopeId) (m : Machine) :
    (operands (evaluate rounds room) c ts).result m = .error .exhausted ∨
      (operands (evaluate rounds room') c ts).result m =
          (operands (evaluate rounds room) c ts).result m ∧
        (operands (evaluate rounds room') c ts).final m =
          (operands (evaluate rounds room) c ts).final m := by
  have hrooms : roomier.Rooms room room' := .inr ⟨trivial, hle⟩
  have hts := List.forall₂_same.mpr fun t (_ : t ∈ ts) => roomier.evaluates rounds hrooms t t rfl
  refine eq_of_alike (Simulation.alike_operands hts trivial) (fun vs vs' h => ?_) m
  exact List.forall₂_eq_eq_eq ▸ h.imp fun _ _ => values_eq

/-- So does a call. -/
theorem callValue_of_le (rounds : Nat) {room room' : Nat} (hle : room ≤ room') (v : Value)
    (args : List Value) (m : Machine) :
    (callValue room (evaluate rounds room) v args).result m = .error .exhausted ∨
      (callValue room' (evaluate rounds room') v args).result m =
          (callValue room (evaluate rounds room) v args).result m ∧
        (callValue room' (evaluate rounds room') v args).final m =
          (callValue room (evaluate rounds room) v args).final m := by
  have hrooms : roomier.Rooms room room' := .inr ⟨trivial, hle⟩
  have hargs : List.Forall₂ roomier.Values args args :=
    List.forall₂_same.mpr fun v _ => values_roomier v
  exact eq_of_alike (Simulation.alike_callValue (roomier.evaluates rounds hrooms)
    (values_roomier v) hargs hrooms) (fun _ _ => values_eq) m

end Eval

namespace Machine

variable {limits limits' : Limits}

/-- A program that was short of room says so. -/
theorem isTooDeep_ofResult (program : Node) :
    (Outcome.ofResult (Tree.ofNode program).span (.error .exhausted)).isTooDeep := by
  rw [Tree.span_ofNode]
  rfl

theorem run_of_within (hle : limits.Within limits') (program : Node) (m : Machine)
    (h : (m.run limits (Tree.ofNode program)).1.isTooDeep = false) :
    m.run limits' (Tree.ofNode program) = m.run limits (Tree.ofNode program) := by
  rw [Eval.Simulation.run_eq] at h
  rw [Eval.Simulation.run_eq, Eval.Simulation.run_eq, ← hle.rounds]
  dsimp only at h ⊢
  rcases Eval.evaluate_of_le limits.rounds hle.stack (Tree.ofNode program) Store.root _ with
    hr | ⟨hr, hm⟩
  · rw [hr] at h
    cases h.symm.trans (isTooDeep_ofResult program)
  · rw [hr, hm]

theorem runSource_of_within (hle : limits.Within limits') {source file : String} {m : Machine}
    (h : (m.runSource limits source file).1.isTooDeep = false) :
    m.runSource limits' source file = m.runSource limits source file := by
  have hsource : Node.ofSource limits' source file = Node.ofSource limits source file := by
    refine Node.ofSource_of_le hle.nesting fun ⟨_, hdeep⟩ => ?_
    rw [runSource, hdeep] at h
    cases h
  unfold runSource at h ⊢
  rw [hsource]
  cases hprogram : Node.ofSource limits source file with
  | error d => rfl
  | ok program =>
    rw [hprogram] at h
    exact run_of_within hle program m h

/-- Where no step of a session is short of room, each step ends in the same way and leaves the same
machine with more of it. -/
theorem runAll_of_within (hle : limits.Within limits') (sources : List (String × String))
    (m : Machine) (h : ∀ r ∈ m.runAll limits sources, r.1.isTooDeep = false) :
    m.runAll limits' sources = m.runAll limits sources := by
  induction sources generalizing m with
  | nil => rfl
  | cons source rest ih =>
    obtain ⟨source, file⟩ := source
    obtain ⟨hfirst, hrest⟩ := List.forall_mem_cons.mp h
    have hsame := runSource_of_within hle hfirst
    rw [runAll, runAll, hsame, ih _ hrest]

/-- A name that is bound by one text and read by the next one, with room to spare. -/
theorem runAll_of_within_binding :
    let limits : Limits := ⟨4, 4, 1⟩
    let limits' : Limits := ⟨450, 450, 1⟩
    let sources := [("a=''", "f"), ("a", "f")]
    let m := Machine.initial "" 0
    (limits.Within limits' ∧ ∀ r ∈ m.runAll limits sources, r.1.isTooDeep = false) ∧
      m.runAll limits' sources = m.runAll limits sources := by
  intro limits limits' sources m
  have hle : limits.Within limits' := ⟨by decide, by decide, rfl⟩
  have hroom : (m.runAll limits sources).all (!·.1.isTooDeep) = true := by cbv
  have h (r : Outcome × Machine) (hr : r ∈ m.runAll limits sources) : r.1.isTooDeep = false := by
    simpa using List.all_eq_true.mp hroom r hr
  exact ⟨⟨hle, h⟩, runAll_of_within hle sources m h⟩

end Machine

end Lumen
