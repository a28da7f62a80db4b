import Lumen.Proofs.Eval.Invariant
import Lumen.Proofs.Store.Aligned

/-!
# Two runs side by side

A simulation says which marks, which parts of documents and which logs correspond in two runs.
Values then correspond if they are the same but for their spans and the bodies of functions, and
stores if they hold corresponding values. `Alike` says of two actions that from corresponding
machines they end in the same way, with corresponding results and machines. The rules of evaluation
are proved to keep every simulation in `Proofs.Eval.Simulation.Rules`.

A simulation may leave out scopes and lists that neither run gets to, ask something of the first
store all along, and excuse a first run that is short of room.
-/

namespace Lumen

/-- What a machine has traced, and how far it traces. -/
structure Log where
  verbosity : Nat
  lines : Array String

namespace Log

def note (l : Log) (level : Nat) (message : String) : Log :=
  if level ≤ l.verbosity then ⟨l.verbosity, l.lines.push message⟩ else l

end Log

namespace Machine

def log (m : Machine) : Log := ⟨m.verbosity, m.trace⟩

theorem log_note (m : Machine) (level : Nat) (message : Unit → String) :
    (m.note level message).log = m.log.note level (message ()) := by
  unfold note Log.note log
  split <;> rfl

theorem note_input (m : Machine) (level : Nat) (message : Unit → String) :
    (m.note level message).input = m.input := by
  unfold note
  split <;> rfl

theorem note_output (m : Machine) (level : Nat) (message : Unit → String) :
    (m.note level message).output = m.output := by
  unfold note
  split <;> rfl

end Machine

namespace Eval

/-- Both readings fail alike, or give related results. -/
inductive Readings {α β : Type} (R : α → β → Prop) : Except Fault α → Except Fault β → Prop where
  | ok {a b} : R a b → Readings R (.ok a) (.ok b)
  | error {f} : Readings R (.error f) (.error f)

theorem Readings.imp {α β : Type} {R T : α → β → Prop} {x : Except Fault α} {y : Except Fault β}
    (h : Readings R x y) (himp : ∀ a b, R a b → T a b) : Readings T x y := by
  cases h with
  | ok h => exact .ok (himp _ _ h)
  | error => exact .error

structure Spans (R : Mark → Mark → Prop) (s s' : Span) : Prop where
  start : R s.start s'.start
  stop : R s.stop s'.stop

/-- Two fields that are left out alike. -/
structure Optionals (R : Tree → Tree → Prop) (t t' : Tree) : Prop where
  isNull_eq : t.isNull = t'.isNull
  part : t.isNull = false → R t t'

/-- Two cases of a conditional. -/
structure Guards (R : Tree → Tree → Prop) (g g' : Tree) : Prop where
  condition : Readings R g.condition g'.condition
  body : Readings R g.body g'.body

section

variable {R T : Tree → Tree → Prop} {t t' : Tree}

theorem Optionals.imp (h : Optionals R t t') (himp : ∀ u u', R u u' → T u u') : Optionals T t t' :=
  ⟨h.isNull_eq, fun hnull => himp _ _ (h.part hnull)⟩

theorem Guards.imp (h : Guards R t t') (himp : ∀ u u', R u u' → T u u') : Guards T t t' :=
  ⟨h.condition.imp himp, h.body.imp himp⟩

end

/-- One step of evaluation reads the same of two nodes, but for related parts and spans. -/
inductive Matched (Marks : Mark → Mark → Prop) (Parts : Tree → Tree → Prop) : Tree → Tree → Prop where
  | number {t t'} : t.value = t'.value → Matched Marks Parts (.node .number [t]) (.node .number [t'])
  | text {t t'} : t.value = t'.value → Matched Marks Parts (.node .text [t]) (.node .text [t'])
  | null {fields fields'} : Matched Marks Parts (.node .null fields) (.node .null fields')
  | list {elements p q elements' p' q'} :
      Readings (List.Forall₂ Parts) elements.items elements'.items →
      Matched Marks Parts (.node .list [elements, p, q]) (.node .list [elements', p', q'])
  | block {statements p q statements' p' q'} :
      Readings (List.Forall₂ Parts) statements.items statements'.items →
      Matched Marks Parts (.node .block [statements, p, q]) (.node .block [statements', p', q'])
  | ternary {c a b c' a' b'} : Parts c c' → Parts a a' → Parts b b' →
      Matched Marks Parts (.node .ternary [c, a, b]) (.node .ternary [c', a', b'])
  | binary {a op b a' op' b'} : Parts a a' → op.name = op'.name → Parts b b' →
      Matched Marks Parts (.node .binary [a, op, b]) (.node .binary [a', op', b'])
  | unary {op a op' a'} : op.value = op'.value → Parts a a' →
      Matched Marks Parts (.node .unary [op, a]) (.node .unary [op', a'])
  | lookup {t t'} : t.name = t'.name → Matched Marks Parts (.node .lookup [t]) (.node .lookup [t'])
  | assign {t v t' v'} : t.name = t'.name → Parts v v' →
      Matched Marks Parts (.node .assign [t, v]) (.node .assign [t', v'])
  | index {a i j q a' i' j' q'} : Parts a a' → Parts i i' → Optionals Parts j j' →
      Matched Marks Parts (.node .index [a, i, j, q]) (.node .index [a', i', j', q'])
  | assignIndex {t i v t' i' v'} : t.name = t'.name → Readings (Spans Marks) t.span t'.span →
      Parts i i' → Parts v v' →
      Matched Marks Parts (.node .assignIndex [t, i, v]) (.node .assignIndex [t', i', v'])
  | conditional {guarded o p q guarded' o' p' q'} :
      Readings (List.Forall₂ (Guards Parts)) guarded.items guarded'.items → Optionals Parts o o' →
      Matched Marks Parts (.node .conditional [guarded, o, p, q])
        (.node .conditional [guarded', o', p', q'])
  | forLoop {t a b s body p q t' a' b' s' body' p' q'} : t.name = t'.name → Parts a a' →
      Parts b b' → Optionals Parts s s' → Parts body body' →
      Matched Marks Parts (.node .forLoop [t, a, b, s, body, p, q])
        (.node .forLoop [t', a', b', s', body', p', q'])
  | eachLoop {t e body p q t' e' body' p' q'} : t.name = t'.name → Parts e e' → Parts body body' →
      Matched Marks Parts (.node .eachLoop [t, e, body, p, q])
        (.node .eachLoop [t', e', body', p', q'])
  | whileLoop {c body p q c' body' p' q'} : Parts c c' → Parts body body' →
      Matched Marks Parts (.node .whileLoop [c, body, p, q]) (.node .whileLoop [c', body', p', q'])
  | breakLoop {fields fields'} :
      Matched Marks Parts (.node .breakLoop fields) (.node .breakLoop fields')
  | continueLoop {fields fields'} :
      Matched Marks Parts (.node .continueLoop fields) (.node .continueLoop fields')
  | function {t params body e p q t' params' body' e' p' q'} : functionName t = functionName t' →
      (do (← params.items).mapM Tree.value) = (do (← params'.items).mapM Tree.value) →
      Parts body body' → e.truthy = e'.truthy →
      Matched Marks Parts (.node .function [t, params, body, e, p, q])
        (.node .function [t', params', body', e', p', q'])
  | call {callee args q callee' args' q'} : Parts callee callee' →
      Readings (List.Forall₂ Parts) args.items args'.items →
      Matched Marks Parts (.node .call [callee, args, q]) (.node .call [callee', args', q'])
  | giveBack {v p q v' p' q'} : Optionals Parts v v' →
      Matched Marks Parts (.node .giveBack [v, p, q]) (.node .giveBack [v', p', q'])
  /-- What cannot be evaluated. -/
  | refused {t t'} (f : Fault) : (∀ rounds room ev c, step rounds room ev t c = throw (.fault f)) →
      (∀ rounds room ev c, step rounds room ev t' c = throw (.fault f)) → Matched Marks Parts t t'

theorem readings_self {α : Type} {R : α → α → Prop} {x : Except Fault α}
    (h : ∀ a, x = .ok a → R a a) : Readings R x x := by
  cases x with
  | ok a => exact .ok (h a rfl)
  | error f => exact .error

/-- A node matches itself if the parts in it correspond to themselves. -/
theorem matched_self {Marks : Mark → Mark → Prop} {Parts : Tree → Tree → Prop} {t : Tree}
    (hm : ∀ p, Marks p p) (hp : ∀ w u, Inner t w u → Parts u u) : Matched Marks Parts t t := by
  have hall {R : Tree → Tree → Prop} {x : Except Fault (List Tree)}
      (h : ∀ ts, x = .ok ts → ∀ u ∈ ts, R u u) : Readings (List.Forall₂ R) x x :=
    readings_self fun ts hts => List.forall₂_same.mpr (h ts hts)
  fun_cases step 0 0 (fun _ _ => throw .endless) t 0 with
  | case1 => exact .number rfl
  | case2 => exact .text rfl
  | case3 => exact .null
  | case4 => exact .list (hall fun ts hts u hu => hp _ _ (.element hts hu))
  | case5 => exact .block (hall fun ts hts u hu => hp _ _ (.statement hts hu))
  | case6 =>
    refine .ternary (hp _ _ (.ternary ?_)) (hp _ _ (.ternary ?_)) (hp _ _ (.ternary ?_)) <;> simp
  | case7 => refine .binary (hp _ _ (.binary ?_)) rfl (hp _ _ (.binary ?_)) <;> simp
  | case8 => exact .unary rfl (hp _ _ .unary)
  | case9 => exact .lookup rfl
  | case10 => exact .assign rfl (hp _ _ .assign)
  | case11 =>
    refine .index (hp _ _ (.index ?_)) (hp _ _ (.index ?_)) ⟨rfl, fun h => hp _ _ (.upTo h)⟩ <;> simp
  | case12 =>
    refine .assignIndex rfl (readings_self fun s _ => ⟨hm _, hm _⟩) (hp _ _ (.assignIndex ?_))
      (hp _ _ (.assignIndex ?_)) <;> simp
  | case13 =>
    refine .conditional (hall fun ts hts g hg => ?_) ⟨rfl, fun h => hp _ _ (.otherwise h)⟩
    exact ⟨readings_self fun u hu => hp _ _ (.condition hts hg hu),
      readings_self fun u hu => hp _ _ (.guarded hts hg hu)⟩
  | case14 =>
    refine .forLoop rfl (hp _ _ (.forHeader ?_)) (hp _ _ (.forHeader ?_))
      ⟨rfl, fun h => hp _ _ (.forStep h)⟩ (hp _ _ .forBody) <;> simp
  | case15 => exact .eachLoop rfl (hp _ _ .eachHeader) (hp _ _ .eachBody)
  | case16 => exact .whileLoop (hp _ _ .whileHeader) (hp _ _ .whileBody)
  | case17 => exact .breakLoop
  | case18 => exact .continueLoop
  | case19 => exact .function rfl rfl (hp _ _ .function) rfl
  | case20 => exact .call (hp _ _ .callee) (hall fun ts hts u hu => hp _ _ (.argument hts hu))
  | case21 => exact .giveBack ⟨rfl, fun h => hp _ _ (.giveBack h)⟩
  | case22 => exact .refused _ (fun _ _ _ _ => rfl) fun _ _ _ _ => rfl
  | case23 k fields =>
    have hstep (rounds room : Nat) (ev : Evaluator) (c : ScopeId) :
        step rounds room ev (.node k fields) c = throw (.fault .malformed) := by
      simp only [step, *]
    exact .refused _ hstep hstep
  | case24 =>
    have hnode : ∀ k fields, t ≠ .node k fields := ‹_›
    cases t with
    | node k fields => exact (hnode k fields rfl).elim
    | _ => exact .refused _ (fun _ _ _ _ => rfl) fun _ _ _ _ => rfl

structure Simulation where
  Marks : Mark → Mark → Prop
  /-- Parts of documents that may be evaluated side by side. -/
  Parts : Tree → Tree → Prop
  /-- The scopes that evaluation may get to. -/
  Reaches : ScopeId → Prop
  /-- The lists that evaluation may get to. -/
  ReachesList : ListId → Prop
  /-- What holds of the store of the first run all along. -/
  Kept : Store → Prop
  Logs : Log → Log → Prop
  /-- The first run may be short of room where the second one is not. -/
  excused : Prop
  marks_none : Marks .none .none
  isNone_eq : ∀ {p p'}, Marks p p' → p.isNone = p'.isNone
  isPlain_eq : ∀ {p p'}, Marks p p' → p.isPlain = p'.isPlain
  join : ∀ {p q p' q'}, Marks p p' → Marks q q' →
    Readings (Spans Marks) (Span.join p q) (Span.join p' q')
  span : ∀ {t t'}, Parts t t' → Readings (Spans Marks) t.span t'.span
  start : ∀ {t t'}, Parts t t' → Readings Marks t.start t'.start
  matched : ∀ {t t'}, Parts t t' → Matched Marks Parts t t'
  logs_note : ∀ {l l'} level message, Logs l l' →
    Logs (l.note level message) (l'.note level message)
  /-- The only message that shows a place. -/
  logs_case : ∀ {l l' p p'}, Logs l l' → Marks p p' →
    Logs (l.note 3 ("if: taking case at " ++ p.describe))
      (l'.note 3 ("if: taking case at " ++ p'.describe))
  reaches_nextScope : ∀ {s}, Kept s → Reaches s.nextScope
  reaches_nextList : ∀ {s}, Kept s → ReachesList s.nextList
  kept_updateTable : ∀ {s} c f, Kept s → Kept (s.updateTable c f)
  kept_addScope : ∀ {s} scope, Kept s → Kept (s.addScope scope)
  kept_addList : ∀ {s} elements, Kept s → Kept (s.addList elements)
  kept_setElement : ∀ {s fields t'} l i v, Parts (.node .assignIndex fields) t' → Kept s →
    Kept (s.setElement l i v)

namespace Simulation

/-! ## Values, stores and machines -/

section

variable (S : Simulation)

inductive Payloads : Payload → Payload → Prop where
  | plain {p} : p.IsPlain → Payloads p p
  | base : Payloads .base .base
  | list {l} : S.ReachesList l → Payloads (.list l) (.list l)
  | function {name params body body' isExpression c} : S.Parts body body' → S.Reaches c →
      Payloads (.function ⟨name, params, body, isExpression, c⟩)
        (.function ⟨name, params, body', isExpression, c⟩)

structure Values (v v' : Value) : Prop where
  payload : S.Payloads v.payload v'.payload
  span : Spans S.Marks v.span v'.span

inductive Stops : Stop → Stop → Prop where
  | giveBack {v v'} : S.Values v v' → Stops (.giveBack v) (.giveBack v')
  | breakLoop : Stops .breakLoop .breakLoop
  | continueLoop : Stops .continueLoop .continueLoop
  | failure {c s s'} : Spans S.Marks s s' → Stops (.failure ⟨c, s⟩) (.failure ⟨c, s'⟩)
  | exit {code} : Stops (.exit code) (.exit code)
  | fault {f} : Stops (.fault f) (.fault f)
  | exhausted : Stops .exhausted .exhausted
  | endless : Stops .endless .endless

inductive Results {α β : Type} (Q : α → β → Prop) : Except Stop α → Except Stop β → Prop where
  | ok {a b} : Q a b → Results Q (.ok a) (.ok b)
  | error {e e'} : S.Stops e e' → Results Q (.error e) (.error e')

structure Scopes (scope scope' : Scope) : Prop where
  name_eq : scope.name = scope'.name
  parent_eq : scope.parent = scope'.parent
  parent : ∀ p, scope.parent = some p → S.Reaches p
  table : Bindings.Aligned S.Values scope.table scope'.table

structure Stores (s s' : Store) : Prop where
  size_scopes : s.scopes.size = s'.scopes.size
  size_lists : s.lists.size = s'.lists.size
  scopes : ∀ c, S.Reaches c → Option.Rel S.Scopes s.scopes[c]? s'.scopes[c]?
  lists : ∀ l, S.ReachesList l → Option.Rel (Aligned S.Values) s.lists[l]? s'.lists[l]?
  kept : S.Kept s

structure Machines (m m' : Machine) : Prop where
  store : S.Stores m.store m'.store
  input_eq : m.input = m'.input
  output_eq : m.output = m'.output
  log : S.Logs m.log m'.log

def Rooms (r r' : Nat) : Prop := r = r' ∨ S.excused ∧ r ≤ r'

/-- The two actions end in the same way, with results that `Q` relates. -/
def Alike {α β : Type} (x : Exec α) (x' : Exec β) (Q : α → β → Prop) : Prop :=
  ∀ m m', S.Machines m m' → S.excused ∧ x.result m = .error .exhausted ∨
    S.Results Q (x.result m) (x'.result m') ∧ S.Machines (x.final m) (x'.final m')

end

variable {S : Simulation} {α β γ δ : Type}

section

variable {v v' w w' : Value} {p : Payload} {sp sp' : Span}

theorem spans_none : Spans S.Marks Span.none Span.none := ⟨S.marks_none, S.marks_none⟩

theorem values_plain (hp : p.IsPlain) (h : Spans S.Marks sp sp') : S.Values ⟨p, sp⟩ ⟨p, sp'⟩ :=
  ⟨.plain hp, h⟩

theorem values_new (h : v.IsNew) : S.Values v v := by
  obtain ⟨p, sp⟩ := v
  obtain ⟨hp, rfl⟩ := h
  exact values_plain hp spans_none

theorem values_null : S.Values Value.null Value.null := values_new Value.isNew_null

/-- A value corresponds to itself if its list or its function does. -/
theorem values_self (hspan : Spans S.Marks v.span v.span)
    (hlist : ∀ l, v.payload = .list l → S.ReachesList l)
    (hfunction : ∀ f, v.payload = .function f → S.Parts f.body f.body ∧ S.Reaches f.scope) :
    S.Values v v := by
  obtain ⟨p, sp⟩ := v
  refine ⟨?_, hspan⟩
  cases p with
  | list l => exact .list (hlist l rfl)
  | function f => exact .function (hfunction f rfl).1 (hfunction f rfl).2
  | base => exact .base
  | _ => exact .plain trivial

theorem Values.place (h : S.Values v v') (hs : Spans S.Marks sp sp') :
    S.Values ⟨v.payload, sp⟩ ⟨v'.payload, sp'⟩ := ⟨h.payload, hs⟩

theorem Values.orNull {o o' : Option Value} (h : Option.Rel S.Values o o') :
    S.Values (Value.orNull o) (Value.orNull o') := rel_getD h values_null

theorem Payloads.kind_eq {p p' : Payload} (h : S.Payloads p p') : p.kind = p'.kind := by
  cases h <;> rfl

theorem Values.kind_eq (h : S.Values v v') : v.kind = v'.kind := h.payload.kind_eq

end

/-! ## Results -/

section

variable {P : α → β → Prop} {Q : γ → δ → Prop}

theorem Readings.mapError {x : Except Fault α} {y : Except Fault β} (h : Readings P x y) :
    S.Results P (x.mapError Stop.fault) (y.mapError Stop.fault) := by
  cases h with
  | ok h => exact .ok h
  | error => exact .error .fault

theorem Results.bind {r : Except Stop α} {r' : Except Stop β} {f : α → Except Stop γ}
    {f' : β → Except Stop δ} (h : S.Results P r r') (hf : ∀ a b, P a b → S.Results Q (f a) (f' b)) :
    S.Results Q (r >>= f) (r' >>= f') := by
  cases h with
  | ok h => exact hf _ _ h
  | error h => exact .error h

theorem results_fault {f : Fault} : S.Results P (.error (.fault f)) (.error (.fault f)) :=
  .error .fault

end

/-! ## Actions -/

section

variable {x : Exec α} {x' : Exec β} {f : α → Exec γ} {f' : β → Exec δ} {P : α → β → Prop}
  {Q : γ → δ → Prop}

theorem alike_pure {a : α} {b : β} (h : P a b) : S.Alike (pure a) (pure b) P :=
  fun _ _ hm => .inr ⟨.ok h, hm⟩

theorem alike_throw {e e' : Stop} (h : S.Stops e e') : S.Alike (throw e) (throw e') P :=
  fun _ _ hm => .inr ⟨.error h, hm⟩

theorem alike_fault {f : Fault} : S.Alike (throw (.fault f)) (throw (.fault f)) P :=
  alike_throw .fault

theorem alike_ofExcept {r : Except Stop α} {r' : Except Stop β} (h : S.Results P r r') :
    S.Alike (Exec.ofExcept r) (Exec.ofExcept r') P := fun _ _ hm => .inr ⟨h, hm⟩

theorem alike_ofDocument {r : Except Fault α} {r' : Except Fault β} (h : Readings P r r') :
    S.Alike (Exec.ofDocument r) (Exec.ofDocument r') P := alike_ofExcept (Readings.mapError h)

theorem alike_reading {r r' : Except Fault α} (h : r = r') :
    S.Alike (Exec.ofDocument r) (Exec.ofDocument r') Eq := by
  subst h
  exact alike_ofDocument (readings_self fun _ _ => rfl)

theorem Alike.bind (hx : S.Alike x x' P) (hf : ∀ a b, P a b → S.Alike (f a) (f' b) Q) :
    S.Alike (x >>= f) (x' >>= f') Q := by
  intro m m' hm
  rw [Exec.result_bind, Exec.result_bind, Exec.final_bind, Exec.final_bind]
  rcases hx m m' hm with ⟨he, hr⟩ | ⟨hr, hm'⟩
  · rw [hr]
    exact .inl ⟨he, rfl⟩
  · revert hr
    generalize x.result m = r, x'.result m' = r'
    intro hr
    cases hr with
    | ok hab => exact hf _ _ hab _ _ hm'
    | error he => exact .inr ⟨.error he, hm'⟩

/-- What would follow the ends of both does not matter. -/
theorem alike_throw_bind {e e' : Stop} (h : S.Stops e e') :
    S.Alike ((throw e : Exec α) >>= f) ((throw e' : Exec β) >>= f') Q :=
  (alike_throw (P := fun _ _ => False) h).bind fun _ _ hfalse => hfalse.elim

/-- Actions whose way to end is looked at. What is short of room has to stay so. -/
theorem Alike.attempt {f : Except Stop α → Exec γ} {f' : Except Stop β → Exec δ}
    (hx : S.Alike x x' P) (hexhausted : f (.error .exhausted) = throw .exhausted)
    (hf : ∀ r r', S.Results P r r' → S.Alike (f r) (f' r') Q) :
    S.Alike (Exec.attempt x >>= f) (Exec.attempt x' >>= f') Q := by
  intro m m' hm
  have hattempt {α γ : Type} {x : Exec α} {f : Except Stop α → Exec γ} {m : Machine} :
      (Exec.attempt x >>= f).result m = (f (x.result m)).result (x.final m) ∧
        (Exec.attempt x >>= f).final m = (f (x.result m)).final (x.final m) := by
    rw [Exec.result_bind, Exec.final_bind]
    exact ⟨rfl, rfl⟩
  rw [hattempt.1, hattempt.1, hattempt.2, hattempt.2]
  rcases hx m m' hm with ⟨he, hr⟩ | ⟨hr, hm'⟩
  · rw [hr, hexhausted]
    exact .inl ⟨he, rfl⟩
  · exact hf _ _ hr _ _ hm'

theorem alike_fail {c : Complaint} {s s' : Span} (h : Spans S.Marks s s') :
    S.Alike (Exec.fail (Diagnostic.onSpan c s)) (Exec.fail (Diagnostic.onSpan c s')) P :=
  alike_throw (.failure h)

theorem alike_located {s s' : Except Fault Span} (hs : Readings (Spans S.Marks) s s')
    (hx : S.Alike x x' P) : S.Alike (Exec.located s x) (Exec.located s' x') P := by
  refine hx.attempt rfl fun r r' hr => ?_
  cases hr with
  | ok h => exact alike_pure h
  | error he =>
    cases he with
    | @failure c sp sp' h =>
      have hplaced : Diagnostic.isUnplaced ⟨c, sp⟩ = Diagnostic.isUnplaced ⟨c, sp'⟩ :=
        S.isNone_eq h.start
      dsimp only
      rw [← hplaced]
      split
      · exact (alike_ofDocument hs).bind fun _ _ h => alike_fail h
      · exact alike_fail h
    | giveBack h => exact alike_throw (.giveBack h)
    | breakLoop => exact alike_throw .breakLoop
    | continueLoop => exact alike_throw .continueLoop
    | exit => exact alike_throw .exit
    | fault => exact alike_throw .fault
    | exhausted => exact alike_throw .exhausted
    | endless => exact alike_throw .endless

theorem alike_store : S.Alike Exec.store Exec.store S.Stores :=
  fun _ _ hm => .inr ⟨.ok hm.store, hm⟩

theorem alike_updateStore {f f' : Store → Store}
    (h : ∀ s s', S.Stores s s' → S.Stores (f s) (f' s')) :
    S.Alike (Exec.updateStore f) (Exec.updateStore f') fun _ _ => True :=
  fun _ _ hm => .inr ⟨.ok trivial, { hm with store := h _ _ hm.store }⟩

theorem Machines.note {m m' : Machine} {level : Nat} {message message' : Unit → String}
    (hm : S.Machines m m') (h : S.Logs m.log m'.log →
      S.Logs (m.log.note level (message ())) (m'.log.note level (message' ()))) :
    S.Machines (m.note level message) (m'.note level message') := by
  refine ⟨?_, ?_, ?_, ?_⟩
  · rw [Machine.note_store, Machine.note_store]
    exact hm.store
  · rw [Machine.note_input, Machine.note_input, hm.input_eq]
  · rw [Machine.note_output, Machine.note_output, hm.output_eq]
  · rw [Machine.log_note, Machine.log_note]
    exact h hm.log

theorem alike_noteBoth {level : Nat} {message message' : Unit → String}
    (h : ∀ l l', S.Logs l l' →
      S.Logs (l.note level (message ())) (l'.note level (message' ()))) :
    S.Alike (Exec.note level message) (Exec.note level message') fun _ _ => True :=
  fun _ _ hm => .inr ⟨.ok trivial, hm.note (h _ _)⟩

theorem alike_note {level : Nat} {message message' : Unit → String} (h : message () = message' ()) :
    S.Alike (Exec.note level message) (Exec.note level message') fun _ _ => True := by
  apply alike_noteBoth
  intro l l' hl
  rw [← h]
  exact S.logs_note level _ hl

end

/-! ## Scopes and lists -/

section

variable {s s' : Store} {c : ScopeId} {l : ListId} {v v' : Value} {name : Scalar}

/-- A store corresponds to itself if the scopes and lists that evaluation gets to do. -/
theorem stores_self
    (hscopes : ∀ c scope, S.Reaches c → s.scopes[c]? = some scope → S.Scopes scope scope)
    (hlists : ∀ l a, S.ReachesList l → s.lists[l]? = some a → Aligned S.Values a a)
    (hkept : S.Kept s) : S.Stores s s := by
  refine ⟨rfl, rfl, fun c hc => ?_, fun l hl => ?_, hkept⟩
  · cases hscope : s.scopes[c]? with
    | none => exact .none
    | some scope => exact .some (hscopes c scope hc hscope)
  · cases ha : s.lists[l]? with
    | none => exact .none
    | some a => exact .some (hlists l a hl ha)

theorem Stores.lookup (h : S.Stores s s') (hc : S.Reaches c) (name : Scalar) :
    Option.Rel S.Values (s.lookup c name) (s'.lookup c name) := by
  -- A parent is followed only to an older scope, so the induction is on the scope.
  induction c using Nat.strongRecOn with
  | ind c ih =>
    have hscope := h.scopes c hc
    unfold Store.lookup
    revert hscope
    generalize s.scopes[c]? = o, s'.scopes[c]? = o'
    intro hscope
    cases hscope with
    | none => exact .none
    | @some scope scope' hscope =>
      have hbound := hscope.table.get? name
      dsimp only
      revert hbound
      generalize scope.table.get? name = b, scope'.table.get? name = b'
      intro hbound
      cases hbound with
      | some hv => exact .some hv
      | none =>
        dsimp only
        rw [← hscope.parent_eq]
        cases hp : scope.parent with
        | none => exact .none
        | some p =>
          dsimp only
          split
          · next hlt => exact ih p hlt (hscope.parent p hp)
          · exact .none

theorem Stores.elements (h : S.Stores s s') (hl : S.ReachesList l) :
    Aligned S.Values (s.elements l) (s'.elements l) :=
  rel_getD (h.lists l hl) fun _ => .none

theorem Stores.updateTable {f f' : Bindings → Bindings} (h : S.Stores s s')
    (hf : ∀ b b', Bindings.Aligned S.Values b b' → Bindings.Aligned S.Values (f b) (f' b')) :
    S.Stores (s.updateTable c f) (s'.updateTable c f') := by
  refine ⟨?_, h.size_lists, fun d hd => ?_, h.lists, S.kept_updateTable c f h.kept⟩
  · simp only [Store.updateTable, Array.size_modify, h.size_scopes]
  · simp only [Store.updateTable, Array.getElem?_modify]
    split
    · refine rel_map (h.scopes d hd) fun scope scope' hscope => ?_
      exact ⟨hscope.name_eq, hscope.parent_eq, hscope.parent, hf _ _ hscope.table⟩
    · exact h.scopes d hd

theorem Stores.bind (h : S.Stores s s') (hv : S.Values v v') :
    S.Stores (s.bind c name v) (s'.bind c name v') :=
  h.updateTable fun _ _ hb => hb.set hv name

theorem Stores.unbind (h : S.Stores s s') : S.Stores (s.unbind c name) (s'.unbind c name) :=
  h.updateTable fun _ _ hb => hb.erase name

theorem alike_bindName (hv : S.Values v v') :
    S.Alike (Exec.updateStore (·.bind c name v)) (Exec.updateStore (·.bind c name v'))
      fun _ _ => True := alike_updateStore fun _ _ h => h.bind hv

theorem alike_unbindName : S.Alike (Exec.updateStore (·.unbind c name))
    (Exec.updateStore (·.unbind c name)) fun _ _ => True := alike_updateStore fun _ _ h => h.unbind

theorem Stores.addScope {scope scope' : Scope} (h : S.Stores s s')
    (hscope : S.Scopes scope scope') : S.Stores (s.addScope scope) (s'.addScope scope') := by
  refine ⟨?_, h.size_lists, fun d hd => ?_, h.lists, S.kept_addScope scope h.kept⟩
  · simp only [Store.addScope, Array.size_push, h.size_scopes]
  · simp only [Store.addScope, Array.getElem?_push, h.size_scopes]
    split
    · exact .some hscope
    · exact h.scopes d hd

theorem Stores.addList {a a' : Array Value} (h : S.Stores s s') (ha : Aligned S.Values a a') :
    S.Stores (s.addList a) (s'.addList a') := by
  refine ⟨h.size_scopes, ?_, h.scopes, fun l hl => ?_, S.kept_addList a h.kept⟩
  · simp only [Store.addList, Array.size_push, h.size_lists]
  · simp only [Store.addList, Array.getElem?_push, h.size_lists]
    split
    · exact .some ha
    · exact h.lists l hl

theorem Stores.setElement {fields : List Tree} {t' : Tree} (h : S.Stores s s')
    (hparts : S.Parts (.node .assignIndex fields) t') (hv : S.Values v v') (i : Nat) :
    S.Stores (s.setElement l i v) (s'.setElement l i v') := by
  refine ⟨h.size_scopes, ?_, h.scopes, fun k hk => ?_, S.kept_setElement l i v hparts h.kept⟩
  · simp only [Store.setElement, Array.size_modify, h.size_lists]
  · simp only [Store.setElement, Array.getElem?_modify]
    split
    · exact rel_map (h.lists k hk) fun a a' ha => ha.setIfInBounds hv i
    · exact h.lists k hk

theorem alike_newList {a a' : Array Value} (ha : Aligned S.Values a a') :
    S.Alike (Exec.newList a) (Exec.newList a') S.Values := by
  intro m m' hm
  refine .inr ⟨.ok ?_, { hm with store := hm.store.addList ha }⟩
  have hnext : m'.store.nextList = m.store.nextList := hm.store.size_lists.symm
  rw [hnext]
  exact ⟨.list (S.reaches_nextList hm.store.kept), spans_none⟩

theorem alike_newScope {scope scope' : Scope} (hscope : S.Scopes scope scope') :
    S.Alike (Exec.newScope scope) (Exec.newScope scope') fun c c' => c = c' ∧ S.Reaches c := by
  intro m m' hm
  refine .inr ⟨.ok ⟨hm.store.size_scopes, ?_⟩, { hm with store := hm.store.addScope hscope }⟩
  exact S.reaches_nextScope hm.store.kept

end

/-! ## Texts -/

theorem Rooms.pred {r r' : Nat} (h : S.Rooms (r + 1) r') : ∃ k, r' = k + 1 ∧ S.Rooms r k := by
  rcases h with rfl | ⟨he, hle⟩
  · exact ⟨r, rfl, .inl rfl⟩
  · obtain ⟨k, rfl⟩ : ∃ k, r' = k + 1 := ⟨r' - 1, by omega⟩
    exact ⟨k, rfl, .inr ⟨he, by omega⟩⟩

section

variable {s s' : Store} {form : Form} {r r' : Nat} {v v' : Value}

def Obstacles (S : Simulation) (o o' : Option Obstacle) : Prop :=
  S.excused ∧ o = some .tooDeep ∨ o' = o

theorem obstacles_findSome {vs vs' : List Value} {f f' : Value → Option Obstacle}
    (h : List.Forall₂ (fun v v' => S.Obstacles (f v) (f' v')) vs vs') :
    S.Obstacles (vs.findSome? f) (vs'.findSome? f') := by
  induction h with
  | nil => exact .inr rfl
  | @cons v v' vs vs' hv _ ih =>
    rw [List.findSome?_cons, List.findSome?_cons]
    rcases hv with ⟨he, hv⟩ | hv
    · rw [hv]
      exact .inl ⟨he, rfl⟩
    · rw [hv]
      cases f v with
      | none => exact ih
      | some o => exact .inr rfl

theorem Stores.obstacle? (h : S.Stores s s') (form : Form) (hv : S.Values v v')
    (hr : S.Rooms r r') : S.Obstacles (s.obstacle? form r v) (s'.obstacle? form r' v') := by
  induction r generalizing r' v v' with
  | zero =>
    rcases hr with rfl | ⟨he, _⟩
    · exact .inr rfl
    · exact .inl ⟨he, rfl⟩
  | succ r ih =>
    obtain ⟨k, rfl, hk⟩ := hr.pred
    obtain ⟨p, sp⟩ := v
    obtain ⟨p', sp'⟩ := v'
    obtain ⟨hp, _⟩ := hv
    unfold Store.obstacle?
    cases hp with
    | list hl =>
      apply obstacles_findSome
      exact (h.elements hl).toList.imp fun w w' hw => ih hw hk
    | plain hp =>
      cases p with
      | list l => exact hp.elim
      | _ => exact .inr rfl
    | _ => exact .inr rfl

theorem map_eq_map {vs vs' : List Value} {f f' : Value → String} {g : Value → Option Obstacle}
    (h : List.Forall₂ (fun v v' => g v = none → f v = f' v') vs vs')
    (hg : vs.findSome? g = none) : vs.map f = vs'.map f' := by
  induction h with
  | nil => rfl
  | @cons v v' vs vs' hv _ ih =>
    rw [List.findSome?_cons] at hg
    cases hgv : g v with
    | none =>
      rw [hgv] at hg
      rw [List.map_cons, List.map_cons, hv hgv, ih hg]
    | some o =>
      rw [hgv] at hg
      cases hg

theorem Stores.textWithin (h : S.Stores s s') (hv : S.Values v v') (hr : S.Rooms r r')
    (hnone : s.obstacle? form r v = none) : s.textWithin form r v = s'.textWithin form r' v' := by
  induction r generalizing r' v v' with
  | zero => cases hnone
  | succ r ih =>
    obtain ⟨k, rfl, hk⟩ := hr.pred
    obtain ⟨p, sp⟩ := v
    obtain ⟨p', sp'⟩ := v'
    obtain ⟨hp, _⟩ := hv
    unfold Store.obstacle? at hnone
    unfold Store.textWithin
    cases hp with
    | list hl =>
      have helements := (h.elements hl).toList.imp fun w w' hw => ih hw hk
      dsimp only
      rw [map_eq_map helements hnone]
    | plain hp =>
      cases p with
      | list l => exact hp.elim
      | _ => rfl
    | _ => rfl

theorem stops_ofObstacle (o : Obstacle) : S.Stops (.ofObstacle o) (.ofObstacle o) := by
  cases o with
  | tooDeep => exact .exhausted
  | fault f => exact .fault

theorem Stores.text?_eq (h : S.Stores s s') (hexcused : ¬ S.excused) (hv : S.Values v v') :
    s.text? form r v = s'.text? form r v' := by
  have hr : S.Rooms r r := .inl rfl
  unfold Store.text?
  rcases h.obstacle? form hv hr with ⟨he, _⟩ | ho
  · exact (hexcused he).elim
  · rw [ho]
    cases hnone : s.obstacle? form r v with
    | none => exact congrArg Except.ok (h.textWithin hv hr hnone)
    | some o => rfl

theorem alike_text (hv : S.Values v v') (hr : S.Rooms r r') :
    S.Alike (Exec.text form r v) (Exec.text form r' v') Eq := by
  refine alike_store.bind fun s s' h => ?_
  unfold Store.text?
  rcases h.obstacle? form hv hr with ⟨he, ho⟩ | ho
  · rw [ho]
    exact fun _ _ _ => .inl ⟨he, rfl⟩
  · rw [ho]
    cases hnone : s.obstacle? form r v with
    | none => exact alike_pure (h.textWithin hv hr hnone)
    | some o => exact alike_throw (stops_ofObstacle o)

theorem alike_noteValue {level : Nat} {message : String → String} (hv : S.Values v v')
    (hr : S.Rooms r r') :
    S.Alike (Exec.noteValue r level v message) (Exec.noteValue r' level v' message)
      fun _ _ => True := by
  refine alike_store.bind fun s s' h => ?_
  rcases h.obstacle? .written hv hr with ⟨he, ho⟩ | ho
  · rw [ho]
    exact fun _ _ _ => .inl ⟨he, rfl⟩
  · rw [ho]
    cases hnone : s.obstacle? .written r v with
    | none => exact alike_note (by rw [h.textWithin hv hr hnone])
    | some o => exact alike_throw (stops_ofObstacle o)

end

end Simulation

end Eval

end Lumen
