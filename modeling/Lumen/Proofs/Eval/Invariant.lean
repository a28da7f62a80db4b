import Lumen.Eval
import Lumen.Proofs.Operation
import Lumen.Proofs.Store.Holds

/-!
# What evaluation keeps

An invariant says which parts of a document, which scopes and which functions evaluation meets, how
it may change a store, and which signals may leave a part. Its laws speak of single changes to a
store; `Keeps` says of an action that it stays within the invariant, whatever way it ends. The rules
of evaluation are proved to keep every invariant in `Proofs.Eval.Rules`, so that a property of whole
evaluations only takes an invariant.
-/

namespace Lumen.Eval

/-- How a part stands in the part around it. -/
inductive Way where
  | here
  | loopBody
  | functionBody

def Way.select {α : Type} (here loopBody functionBody : α) : Way → α
  | .here => here
  | .loopBody => loopBody
  | .functionBody => functionBody

/-- The part `u` of `t` may be evaluated when `t` is, or when the function that `t` makes is
called. -/
inductive Inner : Tree → Way → Tree → Prop where
  | element {elements p q u ts} : elements.items = .ok ts → u ∈ ts →
      Inner (.node .list [elements, p, q]) .here u
  | statement {statements p q u ts} : statements.items = .ok ts → u ∈ ts →
      Inner (.node .block [statements, p, q]) .here u
  | ternary {condition left right u} : u ∈ [condition, left, right] →
      Inner (.node .ternary [condition, left, right]) .here u
  | binary {left op right u} : u ∈ [left, right] →
      Inner (.node .binary [left, op, right]) .here u
  | unary {op u} : Inner (.node .unary [op, u]) .here u
  | assign {t u} : Inner (.node .assign [t, u]) .here u
  | index {target i upTo q u} : u ∈ [target, i] →
      Inner (.node .index [target, i, upTo, q]) .here u
  | upTo {target i u q} : u.isNull = false → Inner (.node .index [target, i, u, q]) .here u
  | assignIndex {t i value u} : u ∈ [i, value] →
      Inner (.node .assignIndex [t, i, value]) .here u
  | condition {guarded otherwise p q ts g u} : guarded.items = .ok ts → g ∈ ts →
      g.condition = .ok u → Inner (.node .conditional [guarded, otherwise, p, q]) .here u
  | guarded {guarded otherwise p q ts g u} : guarded.items = .ok ts → g ∈ ts →
      g.body = .ok u → Inner (.node .conditional [guarded, otherwise, p, q]) .here u
  | otherwise {guarded u p q} : u.isNull = false →
      Inner (.node .conditional [guarded, u, p, q]) .here u
  | forHeader {t first last step body p q u} : u ∈ [first, last] →
      Inner (.node .forLoop [t, first, last, step, body, p, q]) .here u
  | forStep {t first last u body p q} : u.isNull = false →
      Inner (.node .forLoop [t, first, last, u, body, p, q]) .here u
  | forBody {t first last step u p q} :
      Inner (.node .forLoop [t, first, last, step, u, p, q]) .loopBody u
  | eachHeader {t u body p q} : Inner (.node .eachLoop [t, u, body, p, q]) .here u
  | eachBody {t iterable u p q} : Inner (.node .eachLoop [t, iterable, u, p, q]) .loopBody u
  | whileHeader {u body p q} : Inner (.node .whileLoop [u, body, p, q]) .here u
  | whileBody {condition u p q} : Inner (.node .whileLoop [condition, u, p, q]) .loopBody u
  | function {t params u e p q} :
      Inner (.node .function [t, params, u, e, p, q]) .functionBody u
  | callee {u args q} : Inner (.node .call [u, args, q]) .here u
  | argument {callee args q u ts} : args.items = .ok ts → u ∈ ts →
      Inner (.node .call [callee, args, q]) .here u
  | giveBack {u p q} : u.isNull = false → Inner (.node .giveBack [u, p, q]) .here u

def callScope (f : Closure) : Lumen.Scope := ⟨f.displayName, some f.scope, []⟩

structure Invariant where
  /-- What surrounds a part of a document. -/
  Place : Type
  loopBody : Place → Place
  functionBody : Place
  /-- The parts that may be evaluated at a place. -/
  Part : Place → Tree → Prop
  /-- The scopes in which parts are evaluated. -/
  Open : Store → ScopeId → Prop
  /-- The functions that are met. -/
  Fits : Store → Closure → Prop
  /-- What evaluation in a scope may make of a store. -/
  Leads : ScopeId → Store → Store → Prop
  /-- A loop signal may leave a part at the place. -/
  Breaks : Place → Prop
  /-- A value may be given back through a part at the place. -/
  Returns : Place → Prop
  part_inner : ∀ {p t w u}, Part p t → Inner t w u →
    Part (w.select p (loopBody p) functionBody) u
  breaks_of_break : ∀ {p fields}, Part p (.node .breakLoop fields) → Breaks p
  breaks_of_continue : ∀ {p fields}, Part p (.node .continueLoop fields) → Breaks p
  returns_of_giveBack : ∀ {p fields}, Part p (.node .giveBack fields) → Returns p
  returns_of_loopBody : ∀ {p}, Returns (loopBody p) → Returns p
  fits_function : ∀ {s c name params body e}, Open s c → Part functionBody body →
    Fits s ⟨name, params, body, e, c⟩
  part_of_fits : ∀ {s f}, Fits s f → ∃ p, Part p f.body
  leads_refl : ∀ c s, Leads c s s
  leads_trans : ∀ {c s₁ s₂ s₃}, Leads c s₁ s₂ → Leads c s₂ s₃ → Leads c s₁ s₃
  fits_mono : ∀ {c s₁ s₂ f}, Leads c s₁ s₂ → Fits s₁ f → Fits s₂ f
  open_mono : ∀ {c s₁ s₂}, Leads c s₁ s₂ → Open s₁ c → Open s₂ c
  leads_bind : ∀ {c s} name v, Open s c → Leads c s (s.bind c name v)
  leads_unbind : ∀ {c s} name, Open s c → Leads c s (s.unbind c name)
  leads_addList : ∀ c s elements, Leads c s (s.addList elements)
  leads_setElement : ∀ {p fields} c s l i v, Part p (.node .assignIndex fields) →
    Leads c s (s.setElement l i v)
  open_call : ∀ {c s f}, Open s c → Fits s f → Open (s.addScope (callScope f)) s.nextScope
  fits_call : ∀ {c s f g}, Open s c → Fits s f → Fits s g → Fits (s.addScope (callScope f)) g
  leads_call : ∀ {c s s' f}, Open s c → Fits s f →
    Leads s.nextScope (s.addScope (callScope f)) s' → Leads c s s'

namespace Invariant

variable {J : Invariant} {α β : Type} {p : J.Place} {c : ScopeId} {m : Machine}

def Admits (J : Invariant) (s : Store) (v : Value) : Prop :=
  ∀ f, v.payload = .function f → J.Fits s f

def Sound (J : Invariant) (s : Store) : Prop := ∀ v, s.Holds v → J.Admits s v

def Permits (J : Invariant) (p : J.Place) (s : Store) : Stop → Prop
  | .giveBack v => J.Returns p ∧ J.Admits s v
  | .breakLoop | .continueLoop => J.Breaks p
  | _ => True

/-- The invariant holds where evaluation in the scope starts. -/
structure Holds (J : Invariant) (c : ScopeId) (s : Store) : Prop where
  isOpen : J.Open s c
  sound : J.Sound s

/-- The action leads from a machine to another one as the invariant allows, gives a result of which
`Q` holds, and stops only in ways that the place permits. -/
def Keeps (J : Invariant) (p : J.Place) (c : ScopeId) (m : Machine) (x : Exec α)
    (Q : Store → α → Prop) : Prop :=
  x.Ends m fun r m' => J.Leads c m.store m'.store ∧ J.Sound m'.store ∧
    match r with
    | .ok a => Q m'.store a
    | .error e => J.Permits p m'.store e

theorem Admits.mono {s s' : Store} {v : Value} (h : J.Admits s v) (hl : J.Leads c s s') :
    J.Admits s' v := fun f hf => J.fits_mono hl (h f hf)

theorem admits_plain {s : Store} {v : Value} (h : v.payload.IsPlain) : J.Admits s v := by
  intro f hf
  rw [hf] at h
  exact h.elim

theorem admits_new {s : Store} {v : Value} (h : v.IsNew) : J.Admits s v := admits_plain h.1

theorem admits_list {s : Store} {l : ListId} {sp : Span} : J.Admits s ⟨.list l, sp⟩ :=
  fun _ hf => nomatch hf

theorem Admits.place {s : Store} {v : Value} (h : J.Admits s v) (sp : Span) :
    J.Admits s ⟨v.payload, sp⟩ := h

theorem Admits.madeFrom {s : Store} {a b v : Value} (ha : J.Admits s a) (hb : J.Admits s b)
    (h : Value.MadeFrom a b v) : J.Admits s v := by
  rcases h with rfl | rfl | h
  · exact ha
  · exact hb
  · exact admits_new h

theorem admits_orNull {s : Store} {v : Option Value} (h : ∀ w, v = some w → J.Admits s w) :
    J.Admits s (Value.orNull v) := by
  cases v with
  | none => exact admits_new Value.isNew_null
  | some v => exact h v rfl

theorem permits_of_not_isSignal {s : Store} {e : Stop} (h : ¬ e.IsSignal) : J.Permits p s e := by
  cases e with
  | giveBack v => exact (h trivial).elim
  | breakLoop => exact (h trivial).elim
  | continueLoop => exact (h trivial).elim
  | _ => trivial

theorem Holds.next {s s' : Store} (h : J.Holds c s) (hl : J.Leads c s s') (hs : J.Sound s') :
    J.Holds c s' := ⟨J.open_mono hl h.isOpen, hs⟩

theorem Holds.elements {s : Store} (h : J.Holds c s) {l : ListId} {v : Value}
    (hv : v ∈ s.elements l) : J.Admits s v := h.sound v (Store.holds_of_mem_elements hv)

/-! ## Actions -/

theorem keeps_same {x : Exec α} {Q : Store → α → Prop} (h : J.Holds c m.store)
    (hx : x.Ends m fun r m' => m'.store = m.store ∧ Gives (Q m.store) r) :
    J.Keeps p c m x Q := by
  refine hx.mono fun r m' hr => ?_
  obtain ⟨hs, hr⟩ := hr
  rw [hs]
  refine ⟨J.leads_refl c _, h.sound, ?_⟩
  cases r with
  | ok a => exact hr
  | error e => exact permits_of_not_isSignal hr

theorem keeps_pure {Q : Store → α → Prop} {a : α} (h : J.Holds c m.store) (ha : Q m.store a) :
    J.Keeps p c m (pure a) Q := ⟨J.leads_refl c _, h.sound, ha⟩

theorem keeps_throw {Q : Store → α → Prop} {e : Stop} (h : J.Holds c m.store)
    (he : J.Permits p m.store e) : J.Keeps p c m (throw e) Q := ⟨J.leads_refl c _, h.sound, he⟩

/-- The step that follows an action starts where the action led. -/
theorem Keeps.bind {x : Exec β} {f : β → Exec α} {P : Store → β → Prop} {Q : Store → α → Prop}
    (hx : J.Keeps p c m x P) (h : J.Holds c m.store)
    (hf : ∀ b m', J.Leads c m.store m'.store → J.Holds c m'.store → P m'.store b →
      J.Keeps p c m' (f b) Q) : J.Keeps p c m (x >>= f) Q := by
  unfold Keeps
  rw [Exec.ends_bind]
  refine Exec.Ends.mono hx fun r m' ⟨hl, hs, hr⟩ => ?_
  cases r with
  | ok b =>
    refine Exec.Ends.mono (hf b m' hl (h.next hl hs) hr) fun r' m'' ⟨hl', hs', hr'⟩ => ?_
    exact ⟨J.leads_trans hl hl', hs', hr'⟩
  | error e => exact ⟨hl, hs, hr⟩

/-- An action whose way to end is looked at. -/
theorem Keeps.attempt {x : Exec β} {f : Except Stop β → Exec α} {P : Store → β → Prop}
    {Q : Store → α → Prop} {p' : J.Place} (hx : J.Keeps p' c m x P) (h : J.Holds c m.store)
    (hok : ∀ b m', J.Leads c m.store m'.store → J.Holds c m'.store → P m'.store b →
      J.Keeps p c m' (f (.ok b)) Q)
    (herr : ∀ e m', J.Leads c m.store m'.store → J.Holds c m'.store → J.Permits p' m'.store e →
      J.Keeps p c m' (f (.error e)) Q) : J.Keeps p c m (Exec.attempt x >>= f) Q := by
  unfold Keeps
  rw [Exec.ends_bind, Exec.ends_attempt]
  refine Exec.Ends.mono hx fun r m' ⟨hl, hs, hr⟩ => ?_
  have hnext : J.Keeps p c m' (f r) Q := by
    cases r with
    | ok b => exact hok b m' hl (h.next hl hs) hr
    | error e => exact herr e m' hl (h.next hl hs) hr
  refine Exec.Ends.mono hnext fun r' m'' ⟨hl', hs', hr'⟩ => ?_
  exact ⟨J.leads_trans hl hl', hs', hr'⟩

theorem keeps_ofExcept {x : Except Stop α} {Q : Store → α → Prop} (h : J.Holds c m.store)
    (hx : Gives (Q m.store) x) : J.Keeps p c m (Exec.ofExcept x) Q := keeps_same h ⟨rfl, hx⟩

theorem keeps_ofDocument {x : Except Fault α} {Q : Store → α → Prop} (h : J.Holds c m.store)
    (hx : ∀ a, x = .ok a → Q m.store a) : J.Keeps p c m (Exec.ofDocument x) Q :=
  keeps_ofExcept h ((Gives.ofDocument x).mono hx)

theorem keeps_fail {d : Diagnostic} {Q : Store → α → Prop} (h : J.Holds c m.store) :
    J.Keeps p c m (Exec.fail d) Q := keeps_throw h trivial

theorem keeps_fault {f : Fault} {Q : Store → α → Prop} (h : J.Holds c m.store) :
    J.Keeps p c m (throw (.fault f) : Exec α) Q := keeps_throw h trivial

/-- What would follow a failure does not matter. -/
theorem keeps_throw_bind {f : β → Exec α} {e : Stop} {Q : Store → α → Prop}
    (h : J.Holds c m.store) (he : J.Permits p m.store e) :
    J.Keeps p c m ((throw e : Exec β) >>= f) Q :=
  (keeps_throw (Q := fun _ _ => False) h he).bind h fun _ _ _ _ hb => hb.elim

theorem keeps_located {s : Except Fault Span} {x : Exec α} {Q : Store → α → Prop}
    (hx : J.Keeps p c m x Q) (h : J.Holds c m.store) : J.Keeps p c m (Exec.located s x) Q := by
  unfold Exec.located
  refine hx.attempt h (fun a m' _ h' ha => keeps_pure h' ha) fun e m' _ h' he => ?_
  cases e with
  | failure d =>
    dsimp only
    split
    · exact (keeps_ofDocument (Q := fun _ _ => True) h' fun _ _ => trivial).bind h'
        fun _ _ _ h'' _ => keeps_fail h''
    · exact keeps_fail h'
  | _ => exact keeps_throw h' he

theorem keeps_note {level : Nat} {message : Unit → String} (h : J.Holds c m.store) :
    J.Keeps p c m (Exec.note level message) fun _ _ => True :=
  keeps_same h ⟨Machine.note_store _ _ _, trivial⟩

theorem keeps_noteValue {room level : Nat} {v : Value} {message : String → String}
    (h : J.Holds c m.store) :
    J.Keeps p c m (Exec.noteValue room level v message) fun _ _ => True := by
  apply keeps_same h
  apply Exec.ends_noteValue
  · exact fun message => ⟨Machine.note_store _ _ _, trivial⟩
  · exact fun o => ⟨rfl, Stop.not_isSignal_ofObstacle o⟩

theorem keeps_text {form : Form} {room : Nat} {v : Value} (h : J.Holds c m.store) :
    J.Keeps p c m (Exec.text form room v) fun _ _ => True := by
  apply keeps_same h
  apply Exec.ends_text
  · exact fun s => ⟨rfl, trivial⟩
  · exact fun o => ⟨rfl, Stop.not_isSignal_ofObstacle o⟩

theorem keeps_store (h : J.Holds c m.store) :
    J.Keeps p c m Exec.store fun s t => t = s := keeps_same h ⟨rfl, rfl⟩

/-- A change of the store that the invariant allows and that brings no new values but good ones. -/
theorem keeps_updateStore {f : Store → Store} (hl : J.Leads c m.store (f m.store))
    (h : J.Holds c m.store)
    (hv : ∀ w, (f m.store).Holds w → J.Admits m.store w ∨ m.store.Holds w) :
    J.Keeps p c m (Exec.updateStore f) fun _ _ => True := by
  refine ⟨hl, fun w hw => ?_, trivial⟩
  rcases hv w hw with hw | hw
  · exact hw.mono hl
  · exact (h.sound w hw).mono hl

theorem keeps_bindName {name : Scalar} {v : Value} (h : J.Holds c m.store)
    (hv : J.Admits m.store v) :
    J.Keeps p c m (Exec.updateStore (·.bind c name v)) fun _ _ => True := by
  refine keeps_updateStore (J.leads_bind name v h.isOpen) h fun w hw => ?_
  rcases Store.holds_bind hw with rfl | hw
  · exact .inl hv
  · exact .inr hw

theorem keeps_unbindName {name : Scalar} (h : J.Holds c m.store) :
    J.Keeps p c m (Exec.updateStore (·.unbind c name)) fun _ _ => True :=
  keeps_updateStore (J.leads_unbind name h.isOpen) h fun _ hw => .inr (Store.holds_unbind hw)

theorem keeps_newList {elements : Array Value} (h : J.Holds c m.store)
    (hv : ∀ v ∈ elements, J.Admits m.store v) :
    J.Keeps p c m (Exec.newList elements) fun s v => J.Admits s v := by
  have hl := J.leads_addList c m.store elements
  refine ⟨hl, fun w hw => ?_, admits_list⟩
  rcases Store.holds_addList hw with hw | hw
  · exact (hv w hw).mono hl
  · exact (h.sound w hw).mono hl

end Invariant

end Lumen.Eval
