import Lumen.Proofs.Eval.Simulation.Run
import Lumen.Proofs.Node.Move

/-!
# Places do not matter

Two programs that differ in nothing but their positions behave alike, from machines that differ in
nothing but the places of their values and of the bodies of their functions.
-/

namespace Lumen

/-- Two marks that may be told apart by nothing but the position that they show. -/
inductive Mark.Alike : Mark → Mark → Prop where
  | refl {p} : Mark.Alike p p
  | exact {p q} : Mark.Alike (.exact p) (.exact q)

namespace Tree

/-- The same part of a document, or the documents of two nodes that differ in their positions. -/
inductive Alike : Tree → Tree → Prop where
  | refl {t} : Alike t t
  | ofNode {n n' : Node} : n.erase = n'.erase → Alike (ofNode n) (ofNode n')

section

variable {t t' : Token} {n n' : Node} {es es' : List Node} {o o' : Option Node}
  {cases cases' : List (Node × Node)}

theorem value_ofToken (h : t.erase = t'.erase) : (ofToken t).value = (ofToken t').value := by
  rw [ofToken, ofToken, value, value, ((Token.erase_eq_erase_iff t t').mp h).2]

theorem name_ofToken (h : t.erase = t'.erase) : (ofToken t).name = (ofToken t').name := by
  rw [name, name, value_ofToken h]

theorem alike_ofNodes (h : es.map Node.erase = es'.map Node.erase) :
    List.Forall₂ Alike (ofNodes es) (ofNodes es') := by
  induction es generalizing es' with
  | nil =>
    obtain rfl := List.map_eq_nil_iff.mp h.symm
    exact .nil
  | cons e es ih =>
    obtain ⟨e', es', rfl, he, hes⟩ := List.map_eq_cons_iff.mp h.symm
    exact .cons (.ofNode he.symm) (ih hes.symm)

theorem isNull_ofNode (n : Node) : (ofNode n).isNull = false := by cases n <;> rfl

theorem optionals_ofOption (h : o.map Node.erase = o'.map Node.erase) :
    Eval.Optionals Alike (ofOption o) (ofOption o') := by
  cases o with
  | none =>
    obtain rfl := Option.map_eq_none_iff.mp h.symm
    exact ⟨rfl, fun _ => .refl⟩
  | some e =>
    obtain ⟨e', rfl, he⟩ := Option.map_eq_some_iff.mp h.symm
    exact ⟨by rw [ofOption, ofOption, isNull_ofNode, isNull_ofNode], fun _ => .ofNode he.symm⟩

theorem guards_ofCases
    (h : cases.map (Prod.map Node.erase Node.erase) = cases'.map (Prod.map Node.erase Node.erase)) :
    List.Forall₂ (Eval.Guards Alike) (ofCases cases) (ofCases cases') := by
  induction cases generalizing cases' with
  | nil =>
    obtain rfl := List.map_eq_nil_iff.mp h.symm
    exact .nil
  | cons g cases ih =>
    obtain ⟨⟨c', b'⟩, cases', rfl, hg, hcases⟩ := List.map_eq_cons_iff.mp h.symm
    obtain ⟨c, b⟩ := g
    obtain ⟨hc, hb⟩ := Prod.mk.inj hg
    exact .cons ⟨.ok (.ofNode hc.symm), .ok (.ofNode hb.symm)⟩ (ih hcases.symm)

theorem functionName_ofToken {name name' : Option Token}
    (h : name.map Token.erase = name'.map Token.erase) :
    Eval.functionName ((name.map ofToken).getD (scalar .null)) =
      Eval.functionName ((name'.map ofToken).getD (scalar .null)) := by
  cases name with
  | none =>
    obtain rfl := Option.map_eq_none_iff.mp h.symm
    rfl
  | some t =>
    obtain ⟨t', rfl, ht⟩ := Option.map_eq_some_iff.mp h.symm
    exact value_ofToken ht.symm

theorem values_ofTokens {params params' : List Token}
    (h : params.map Token.erase = params'.map Token.erase) :
    (params.map ofToken).mapM Tree.value = (params'.map ofToken).mapM Tree.value := by
  induction params generalizing params' with
  | nil =>
    obtain rfl := List.map_eq_nil_iff.mp h.symm
    rfl
  | cons t params ih =>
    obtain ⟨t', params', rfl, ht, hparams⟩ := List.map_eq_cons_iff.mp h.symm
    rw [List.map_cons, List.map_cons, List.mapM_cons, List.mapM_cons, value_ofToken ht.symm,
      ih hparams.symm]

theorem kind_eq_of_erase (h : n.erase = n'.erase) : n.kind = n'.kind := by
  have hkind (n : Node) : n.erase.kind = n.kind := by cases n <;> rfl
  rw [← hkind n, h, hkind]

theorem spans_ofToken (t t' : Token) :
    Eval.Readings (Eval.Spans Mark.Alike) (ofToken t).span (ofToken t').span :=
  .ok ⟨.exact, .exact⟩

/-- One step of evaluation does not tell the documents apart. -/
theorem matched_ofNode (h : n.erase = n'.erase) :
    Eval.Matched Mark.Alike Alike (ofNode n) (ofNode n') := by
  have hkind := kind_eq_of_erase h
  -- Nodes of two kinds are ruled out, so that each constructor meets itself alone.
  cases n with
  | number t =>
    cases n' with
    | number t' =>
      exact .number (value_ofToken (by simpa using h))
    | _ => cases hkind
  | text t =>
    cases n' with
    | text t' =>
      exact .text (value_ofToken (by simpa using h))
    | _ => cases hkind
  | null t =>
    cases n' with
    | null t' =>
      exact .null
    | _ => cases hkind
  | list es _ _ =>
    cases n' with
    | list es' _ _ =>
      exact .list (.ok (alike_ofNodes (by simpa using h)))
    | _ => cases hkind
  | block es _ _ =>
    cases n' with
    | block es' _ _ =>
      exact .block (.ok (alike_ofNodes (by simpa using h)))
    | _ => cases hkind
  | ternary c a b =>
    cases n' with
    | ternary c' a' b' =>
      simp only [Node.erase_ternary, Node.ternary.injEq] at h
      exact .ternary (.ofNode h.1) (.ofNode h.2.1) (.ofNode h.2.2)
    | _ => cases hkind
  | binary a op b =>
    cases n' with
    | binary a' op' b' =>
      simp only [Node.erase_binary, Node.binary.injEq] at h
      exact .binary (.ofNode h.1) (name_ofToken h.2.1) (.ofNode h.2.2)
    | _ => cases hkind
  | unary op a =>
    cases n' with
    | unary op' a' =>
      simp only [Node.erase_unary, Node.unary.injEq] at h
      exact .unary (value_ofToken h.1) (.ofNode h.2)
    | _ => cases hkind
  | lookup t =>
    cases n' with
    | lookup t' =>
      exact .lookup (name_ofToken (by simpa using h))
    | _ => cases hkind
  | assign t a =>
    cases n' with
    | assign t' a' =>
      simp only [Node.erase_assign, Node.assign.injEq] at h
      exact .assign (name_ofToken h.1) (.ofNode h.2)
    | _ => cases hkind
  | index a b o _ =>
    cases n' with
    | index a' b' o' _ =>
      simp only [Node.erase_index, Node.index.injEq] at h
      exact .index (.ofNode h.1) (.ofNode h.2.1) (optionals_ofOption h.2.2.1)
    | _ => cases hkind
  | assignIndex t a b =>
    cases n' with
    | assignIndex t' a' b' =>
      simp only [Node.erase_assignIndex, Node.assignIndex.injEq] at h
      exact .assignIndex (name_ofToken h.1) (spans_ofToken t t') (.ofNode h.2.1) (.ofNode h.2.2)
    | _ => cases hkind
  | conditional cases o _ _ =>
    cases n' with
    | conditional cases' o' _ _ =>
      simp only [Node.erase_conditional, Node.conditional.injEq] at h
      exact .conditional (.ok (guards_ofCases h.1)) (optionals_ofOption h.2.1)
    | _ => cases hkind
  | forLoop t a b o body _ _ =>
    cases n' with
    | forLoop t' a' b' o' body' _ _ =>
      simp only [Node.erase_forLoop, Node.forLoop.injEq] at h
      exact .forLoop (name_ofToken h.1) (.ofNode h.2.1) (.ofNode h.2.2.1)
        (optionals_ofOption h.2.2.2.1) (.ofNode h.2.2.2.2.1)
    | _ => cases hkind
  | eachLoop t a body _ _ =>
    cases n' with
    | eachLoop t' a' body' _ _ =>
      simp only [Node.erase_eachLoop, Node.eachLoop.injEq] at h
      exact .eachLoop (name_ofToken h.1) (.ofNode h.2.1) (.ofNode h.2.2.1)
    | _ => cases hkind
  | whileLoop c body _ _ =>
    cases n' with
    | whileLoop c' body' _ _ =>
      simp only [Node.erase_whileLoop, Node.whileLoop.injEq] at h
      exact .whileLoop (.ofNode h.1) (.ofNode h.2.1)
    | _ => cases hkind
  | breakLoop t =>
    cases n' with
    | breakLoop t' =>
      exact .breakLoop
    | _ => cases hkind
  | continueLoop t =>
    cases n' with
    | continueLoop t' =>
      exact .continueLoop
    | _ => cases hkind
  | function name params body e _ _ =>
    cases n' with
    | function name' params' body' e' _ _ =>
      simp only [Node.erase_function, Node.function.injEq] at h
      obtain ⟨hname, hparams, hbody, rfl, _⟩ := h
      exact .function (functionName_ofToken hname) (values_ofTokens hparams) (.ofNode hbody) rfl
    | _ => cases hkind
  | call e es _ =>
    cases n' with
    | call e' es' _ =>
      simp only [Node.erase_call, Node.call.injEq] at h
      exact .call (.ofNode h.1) (.ok (alike_ofNodes h.2.1))
    | _ => cases hkind
  | giveBack o _ _ =>
    cases n' with
    | giveBack o' _ _ =>
      simp only [Node.erase_giveBack, Node.giveBack.injEq] at h
      exact .giveBack (optionals_ofOption h.1)
    | _ => cases hkind

end

end Tree

namespace Eval

theorem spans_refl (s : Span) : Spans Mark.Alike s s := ⟨.refl, .refl⟩

/-- The span between two marks is there or not, whatever positions they show. -/
theorem join_alike {p p' q q' : Mark} (hp : p.Alike p') (hq : q.Alike q') :
    Readings (Spans Mark.Alike) (Span.join p q) (Span.join p' q') := by
  cases hp with
  | exact =>
    cases hq with
    | exact => exact .ok ⟨.exact, .exact⟩
    | refl =>
      cases q with
      | none => exact .ok ⟨.exact, .exact⟩
      | _ => exact .ok ⟨.exact, .refl⟩
  | refl =>
    cases hq with
    | refl => exact readings_self fun s _ => spans_refl s
    | exact => cases p <;> exact .ok ⟨.refl, .exact⟩

/-- Two lines of a trace that may show different places. -/
inductive LineAlike : String → String → Prop where
  | refl {s} : LineAlike s s
  | taken (p p' : Mark) : LineAlike ("if: taking case at " ++ p.describe)
      ("if: taking case at " ++ p'.describe)

/-- Two traces that go down to the same level, and do not differ unless this is the third one. -/
structure LogsAlike (verbosity : Nat) (l l' : Log) : Prop where
  left : l.verbosity = verbosity
  right : l'.verbosity = verbosity
  lines : Aligned LineAlike l.lines l'.lines
  below : verbosity < 3 → l.lines = l'.lines

theorem LogsAlike.note {verbosity level : Nat} {s s' : String} {l l' : Log}
    (h : LogsAlike verbosity l l') (hs : LineAlike s s') (hlevel : level < 3 → s = s') :
    LogsAlike verbosity (l.note level s) (l'.note level s') := by
  unfold Log.note
  rw [h.left, h.right]
  split
  · next hle =>
    refine ⟨rfl, rfl, h.lines.push hs, fun hv => ?_⟩
    rw [h.below hv, hlevel (Nat.lt_of_le_of_lt hle hv)]
  · exact h

/-- How two logs may correspond if no message but the one about a case shows a place. -/
structure Logging where
  Logs : Log → Log → Prop
  note : ∀ {l l'} level message, Logs l l' → Logs (l.note level message) (l'.note level message)
  taken : ∀ {l l'} (p p' : Mark), Logs l l' →
    Logs (l.note 3 ("if: taking case at " ++ p.describe))
      (l'.note 3 ("if: taking case at " ++ p'.describe))

/-- Runs that differ in nothing but positions, with logs that correspond. -/
def placesUpTo (logging : Logging) : Simulation where
  Marks := Mark.Alike
  Parts := Tree.Alike
  Reaches _ := True
  ReachesList _ := True
  Kept _ := True
  Logs := logging.Logs
  excused := False
  marks_none := .refl
  isNone_eq h := by cases h <;> rfl
  isPlain_eq h := by cases h <;> rfl
  join := join_alike
  span h := by
    cases h with
    | refl => exact readings_self fun s _ => spans_refl s
    | @ofNode n n' h =>
      rw [Tree.span_ofNode, Tree.span_ofNode]
      exact .ok ⟨.exact, .exact⟩
  start h := by
    cases h with
    | refl => exact readings_self fun p _ => .refl
    | @ofNode n n' h =>
      rw [Tree.start_ofNode, Tree.start_ofNode]
      exact .ok .exact
  matched h := by
    cases h with
    | refl => exact matched_self (fun _ => .refl) fun _ _ _ => .refl
    | ofNode h => exact Tree.matched_ofNode h
  logs_note := logging.note
  logs_case h _ := logging.taken _ _ h
  reaches_nextScope _ := trivial
  reaches_nextList _ := trivial
  kept_updateTable _ _ _ := trivial
  kept_addScope _ _ := trivial
  kept_addList _ _ := trivial
  kept_setElement _ _ _ _ _ := trivial

def places (verbosity : Nat) : Simulation :=
  placesUpTo {
    Logs := LogsAlike verbosity
    note := fun _ _ h => h.note .refl fun _ => rfl
    taken := fun _ _ h => h.note (.taken _ _) fun h => (Nat.lt_irrefl 3 h).elim }

def untraced : Simulation :=
  placesUpTo ⟨fun _ _ => True, fun _ _ _ => trivial, fun _ _ _ => trivial⟩

section

variable {logging : Logging}

theorem values_placesUpTo (v : Value) : (placesUpTo logging).Values v v :=
  Simulation.values_self (spans_refl v.span) (fun _ _ => trivial) fun _ _ => ⟨.refl, trivial⟩

theorem stores_placesUpTo (s : Store) : (placesUpTo logging).Stores s s := by
  refine Simulation.stores_self (fun c scope _ _ => ?_) (fun l a _ _ => ?_) trivial
  · exact ⟨rfl, rfl, fun _ _ => trivial, .refl fun _ _ => values_placesUpTo _⟩
  · exact .refl fun _ _ => values_placesUpTo _

end

/-- Every machine differs from itself in places alone. -/
theorem machines_places (m : Machine) : (places m.verbosity).Machines m m :=
  ⟨stores_placesUpTo m.store, rfl, rfl, rfl, rfl, .refl fun _ _ => .refl, fun _ => rfl⟩

theorem machines_untraced (m : Machine) : untraced.Machines m m :=
  ⟨stores_placesUpTo m.store, rfl, rfl, trivial⟩

end Eval

end Lumen
