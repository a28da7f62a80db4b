import Lumen.Builtin
import Lumen.Eval
import Lumen.Proofs.Node.Extent
import Lumen.Proofs.Operation
import Lumen.Proofs.Store.Holds

/-!
# Where values and failures come from

The spans that values carry come from the nodes of programs, or values carry none. An action stays
in `K` if, from a store whose values come from `K`, it leads to such a store, and neither gives nor
throws a value that does not. What it fails with then points into `K` as well, or at nothing yet.
-/

namespace Lumen

variable {K : Position → Position → Prop}

def Span.LiesIn (K : Position → Position → Prop) (s : Span) : Prop :=
  ∃ p q, s = ⟨.exact p, .exact q⟩ ∧ K p q

/-- All that evaluation can tell of the part's span lies in `K`. -/
def Tree.LiesIn (K : Position → Position → Prop) (t : Tree) : Prop :=
  ∀ s, t.span = .ok s → s.LiesIn K

theorem Tree.liesIn_ofNode {e : Node} (h : e.LiesIn K) : (Tree.ofNode e).LiesIn K := by
  intro s hs
  cases (Tree.span_ofNode e).symm.trans hs
  exact ⟨e.start, e.stop, rfl, h.extent⟩

theorem Tree.liesIn_ofToken {t : Token} (h : K t.start t.stop) : (Tree.ofToken t).LiesIn K := by
  rintro s ⟨⟩
  exact ⟨t.start, t.stop, rfl, h⟩

/-- The value has no place or one in `K`, and if it is a function, so have the nodes of its body. -/
structure Value.IsFrom (K : Position → Position → Prop) (v : Value) : Prop where
  span : v.span = Span.none ∨ v.span.LiesIn K
  body : ∀ f, v.payload = .function f → ∃ e, f.body = Tree.ofNode e ∧ e.LiesIn K

def Complaint.IsAboutTwo : Complaint → Prop
  | .incomparable left right => left ≠ right
  | .invalidSlice .. => True
  | _ => False

/-- The failure points at one span of `K`, at the step behind the start of one, or, if it is about
two values, from the start of one span to the end of another. -/
inductive Diagnostic.PointsInto (K : Position → Position → Prop) : Diagnostic → Prop where
  | within {c p q} : K p q → PointsInto K ⟨c, ⟨.exact p, .exact q⟩⟩
  | step {c p q} : K p q → PointsInto K ⟨c, ⟨.exact p, .exact p.next⟩⟩
  | across {c p q p' q'} : c.IsAboutTwo → K p q → K p' q' →
      PointsInto K ⟨c, ⟨.exact p, .exact q'⟩⟩

/-- The failure points into `K`, or the node that meets it has still to place it. -/
def Diagnostic.MayPointInto (K : Position → Position → Prop) (d : Diagnostic) : Prop :=
  d.isUnplaced ∨ d.PointsInto K

theorem Diagnostic.pointsInto_onSpan {c : Complaint} {s : Span} (h : s.LiesIn K) :
    (onSpan c s).PointsInto K := by
  obtain ⟨p, q, rfl, hK⟩ := h
  exact .within hK

theorem Diagnostic.mayPointInto_onSpan {c : Complaint} {s : Span}
    (h : s = Span.none ∨ s.LiesIn K) : (onSpan c s).MayPointInto K := by
  rcases h with rfl | h
  · exact .inl rfl
  · exact .inr (pointsInto_onSpan h)

namespace Value

variable {a b v : Value} {s : Span}

theorem isFrom_new (h : v.IsNew) : v.IsFrom K := by
  refine ⟨.inl h.2, fun f hf => ?_⟩
  have hplain := h.1
  rw [hf] at hplain
  exact hplain.elim

theorem isFrom_null : null.IsFrom K := isFrom_new isNew_null

theorem isFrom_number (x : Float) : (number x).IsFrom K := isFrom_new (isNew_number x)

theorem isFrom_text (t : String) : (text t).IsFrom K := isFrom_new (isNew_text t)

theorem isFrom_list (l : ListId) : (unplaced (.list l)).IsFrom K := ⟨.inl rfl, nofun⟩

theorem isFrom_plain {p : Payload} (hp : p.IsPlain) (hs : s.LiesIn K) :
    IsFrom K ⟨p, s⟩ := ⟨.inr hs, (isFrom_new (K := K) (isNew_unplaced hp)).body⟩

theorem IsFrom.place (h : v.IsFrom K) (hs : s.LiesIn K) : IsFrom K ⟨v.payload, s⟩ :=
  ⟨.inr hs, h.body⟩

theorem IsFrom.madeFrom (ha : a.IsFrom K) (hb : b.IsFrom K) (h : MadeFrom a b v) :
    v.IsFrom K := by
  rcases h with rfl | rfl | h
  · exact ha
  · exact hb
  · exact isFrom_new h

theorem isFrom_orNull {v : Option Value} (h : ∀ w ∈ v, w.IsFrom K) : (orNull v).IsFrom K := by
  cases v with
  | none => exact isFrom_null
  | some w => exact h w rfl

theorem IsFrom.mono {K' : Position → Position → Prop} (h : v.IsFrom K)
    (himp : ∀ p q, K p q → K' p q) : v.IsFrom K' := by
  refine ⟨h.span.imp_right ?_, fun f hf => ?_⟩
  · rintro ⟨p, q, hspan, hpq⟩
    exact ⟨p, q, hspan, himp p q hpq⟩
  · obtain ⟨e, hbody, he⟩ := h.body f hf
    exact ⟨e, hbody, he.mono himp⟩

end Value

/-! ## Stores -/

def Store.IsFrom (K : Position → Position → Prop) (s : Store) : Prop :=
  ∀ v, s.Holds v → v.IsFrom K

namespace Store.IsFrom

variable {s : Store} {v : Value}

theorem mono {K' : Position → Position → Prop} (h : s.IsFrom K)
    (himp : ∀ p q, K p q → K' p q) : s.IsFrom K' := fun v hv => (h v hv).mono himp

theorem lookup (h : s.IsFrom K) {c : ScopeId} {name : Scalar} (hv : s.lookup c name = some v) :
    v.IsFrom K := h v (holds_of_lookup hv)

theorem elements (h : s.IsFrom K) {l : ListId} (hv : v ∈ s.elements l) : v.IsFrom K :=
  h v (holds_of_mem_elements hv)

theorem getD (h : s.IsFrom K) (l : ListId) (i : Nat) :
    ((s.elements l).getD i Value.null).IsFrom K := by
  rw [Array.getD_eq_getD_getElem?]
  cases hi : (s.elements l)[i]? with
  | none => exact Value.isFrom_null
  | some v => exact h.elements (Array.mem_of_getElem? hi)

theorem bind (h : s.IsFrom K) (c : ScopeId) (name : Scalar) (hv : v.IsFrom K) :
    (s.bind c name v).IsFrom K := by
  intro w hw
  rcases holds_bind hw with rfl | hw
  · exact hv
  · exact h w hw

theorem unbind (h : s.IsFrom K) (c : ScopeId) (name : Scalar) : (s.unbind c name).IsFrom K :=
  fun w hw => h w (holds_unbind hw)

theorem addScope (h : s.IsFrom K) (name : String) (parent : Option ScopeId) :
    (s.addScope ⟨name, parent, []⟩).IsFrom K := fun w hw => h w (holds_addScope hw)

theorem addList (h : s.IsFrom K) {elements : Array Value} (hvs : ∀ v ∈ elements, v.IsFrom K) :
    (s.addList elements).IsFrom K := fun w hw => (holds_addList hw).elim (hvs w) (h w)

theorem setElement (h : s.IsFrom K) (l : ListId) (i : Nat) (hv : v.IsFrom K) :
    (s.setElement l i v).IsFrom K := by
  intro w hw
  rcases holds_setElement hw with rfl | hw
  · exact hv
  · exact h w hw

end Store.IsFrom

theorem Store.isFrom_initial : Store.initial.IsFrom K := by
  rintro v (⟨scope, hscope, entry, hentry, rfl⟩ | ⟨elements, helements, -⟩)
  · obtain rfl : scope = ⟨rootName, none, builtins⟩ := by simpa [initial] using hscope
    obtain ⟨b, -, rfl⟩ := List.mem_map.mp hentry
    exact Value.isFrom_new (Value.isNew_unplaced trivial)
  · simp [initial] at helements

/-! ## Actions -/

def Stop.IsFrom (K : Position → Position → Prop) (D : Diagnostic → Prop) : Stop → Prop
  | .giveBack v => v.IsFrom K
  | .failure d => D d
  | _ => True

namespace Exec

variable {D : Diagnostic → Prop} {α β : Type} {P : β → Prop} {Q : α → Prop}

/-- The action keeps the store's values from `K`. It gives a result of which `Q` holds, or throws
what comes from `K`. -/
def StaysIn (K : Position → Position → Prop) (D : Diagnostic → Prop) (x : Exec α)
    (Q : α → Prop) : Prop :=
  ∀ m, m.store.IsFrom K → x.Ends m fun r m' => m'.store.IsFrom K ∧
    match r with
    | .ok a => Q a
    | .error e => e.IsFrom K D

/-- Failures may be told less of. -/
theorem StaysIn.weaken {D' : Diagnostic → Prop} {x : Exec α} (h : StaysIn K D x Q)
    (himp : ∀ d, D d → D' d) : StaysIn K D' x Q := by
  refine fun m hm => (h m hm).mono fun r m' ⟨hm', hr⟩ => ⟨hm', ?_⟩
  cases r with
  | ok a => exact hr
  | error e =>
    cases e with
    | failure d => exact himp d hr
    | _ => exact hr

theorem StaysIn.bind {x : Exec β} {f : β → Exec α} (hx : StaysIn K D x P)
    (hf : ∀ b, P b → StaysIn K D (f b) Q) : StaysIn K D (x >>= f) Q := by
  intro m hm
  rw [ends_bind]
  refine (hx m hm).mono fun r m' ⟨hm', hr⟩ => ?_
  cases r with
  | ok b => exact hf b hr m' hm'
  | error e => exact ⟨hm', hr⟩

/-- An action whose way to end is looked at. -/
theorem StaysIn.attempt {D' : Diagnostic → Prop} {x : Exec β} {f : Except Stop β → Exec α}
    (hx : StaysIn K D' x P) (hok : ∀ b, P b → StaysIn K D (f (.ok b)) Q)
    (herr : ∀ e, e.IsFrom K D' → StaysIn K D (f (.error e)) Q) :
    StaysIn K D (Exec.attempt x >>= f) Q := by
  intro m hm
  rw [ends_bind, ends_attempt]
  refine (hx m hm).mono fun r m' ⟨hm', hr⟩ => ?_
  cases r with
  | ok b => exact hok b hr m' hm'
  | error e => exact herr e hr m' hm'

theorem staysIn_pure {a : α} (h : Q a) : StaysIn K D (pure a) Q := fun _ hm => ⟨hm, h⟩

theorem staysIn_throw {e : Stop} (h : e.IsFrom K D) : StaysIn K D (throw e : Exec α) Q :=
  fun _ hm => ⟨hm, h⟩

/-- What would follow does not matter. -/
theorem staysIn_throw_bind {e : Stop} {f : β → Exec α} (h : e.IsFrom K D) :
    StaysIn K D ((throw e : Exec β) >>= f) Q :=
  (staysIn_throw (Q := fun _ => False) h).bind fun _ hb => hb.elim

theorem staysIn_fail {d : Diagnostic} (h : D d) : StaysIn K D (fail d : Exec α) Q :=
  staysIn_throw h

theorem staysIn_ofExcept {r : Except Stop α} (hok : ∀ a, r = .ok a → Q a)
    (herr : ∀ e, r = .error e → e.IsFrom K D) : StaysIn K D (ofExcept r) Q := by
  intro m hm
  cases r with
  | ok a => exact ⟨hm, hok a rfl⟩
  | error e => exact ⟨hm, herr e rfl⟩

/-- What cannot be read is a fault. -/
theorem staysIn_read {x : Except Fault β} {f : β → Exec α}
    (hf : ∀ b, x = .ok b → StaysIn K D (f b) Q) : StaysIn K D (ofDocument x >>= f) Q := by
  cases x with
  | ok b => exact hf b rfl
  | error e => exact staysIn_throw_bind trivial

theorem staysIn_store {f : Store → Exec α}
    (hf : ∀ s : Store, s.IsFrom K → StaysIn K D (f s) Q) : StaysIn K D (store >>= f) Q :=
  fun m hm => hf m.store hm m hm

theorem staysIn_get {f : Machine → Exec α} (hf : ∀ m, StaysIn K D (f m) Q) :
    StaysIn K D ((get : Exec Machine) >>= f) Q := fun m hm => hf m m hm

theorem staysIn_update {f : Machine → Machine} (hf : ∀ m, (f m).store = m.store) :
    StaysIn K D (update f) fun _ => True := by
  intro m hm
  refine ⟨?_, trivial⟩
  change (f m).store.IsFrom K
  rwa [hf]

theorem staysIn_updateStore {f : Store → Store} (hf : ∀ s, s.IsFrom K → (f s).IsFrom K) :
    StaysIn K D (updateStore f) fun _ => True := fun m hm => ⟨hf m.store hm, trivial⟩

theorem staysIn_note {level : Nat} {message : Unit → String} :
    StaysIn K D (note level message) fun _ => True :=
  staysIn_update fun m => m.note_store level message

theorem isFrom_ofObstacle (o : Obstacle) : (Stop.ofObstacle o).IsFrom K D := by
  cases o <;> trivial

theorem staysIn_text {form : Form} {room : Nat} {v : Value} :
    StaysIn K D (text form room v) fun _ => True :=
  fun _ hm => ends_text (fun _ => ⟨hm, trivial⟩) fun o => ⟨hm, isFrom_ofObstacle o⟩

theorem staysIn_noteValue {room level : Nat} {v : Value} {message : String → String} :
    StaysIn K D (noteValue room level v message) fun _ => True := by
  refine fun m hm => ends_noteValue (fun message => ⟨?_, trivial⟩) fun o =>
    ⟨hm, isFrom_ofObstacle o⟩
  rwa [Machine.note_store]

theorem staysIn_bindName {c : ScopeId} {name : Scalar} {v : Value} (hv : v.IsFrom K) :
    StaysIn K D (updateStore (·.bind c name v)) fun _ => True :=
  staysIn_updateStore fun _ h => h.bind c name hv

theorem staysIn_unbindName {c : ScopeId} {name : Scalar} :
    StaysIn K D (updateStore (·.unbind c name)) fun _ => True :=
  staysIn_updateStore fun _ h => h.unbind c name

theorem staysIn_newList {elements : Array Value} (h : ∀ v ∈ elements, v.IsFrom K) :
    StaysIn K D (newList elements) (Value.IsFrom K) :=
  fun _ hm => ⟨hm.addList h, Value.isFrom_list _⟩

theorem staysIn_newScope {name : String} {parent : Option ScopeId} :
    StaysIn K D (newScope ⟨name, parent, []⟩) fun _ => True :=
  fun _ hm => ⟨hm.addScope name parent, trivial⟩

theorem staysIn_holds {v : Value} {f : Bool → Exec α} (hf : ∀ b, StaysIn K D (f b) Q) :
    StaysIn K D (holds v >>= f) Q := staysIn_read fun b _ => hf b

/-- A node in `K` gives its place to what has none. -/
theorem staysIn_located {n : Tree} {x : Exec α} (hn : n.LiesIn K)
    (hx : StaysIn K (Diagnostic.MayPointInto K) x Q) :
    StaysIn K (Diagnostic.PointsInto K) (located n.span x) Q := by
  refine hx.attempt (fun a ha => staysIn_pure ha) fun e he => ?_
  cases e with
  | failure d =>
    dsimp only
    split
    · exact staysIn_read fun s hs => staysIn_fail (Diagnostic.pointsInto_onSpan (hn s hs))
    · next hplaced => exact staysIn_fail (he.resolve_left hplaced)
  | _ => exact staysIn_throw he

end Exec

end Lumen
