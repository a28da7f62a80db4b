import Lumen.Proofs.Store.Sound

/-!
# Actions that are safe

A safe action leads from a sound store to a sound store, whatever way it ends, and ends with nothing
but what programs may end with: of the faults only those of arithmetic and of texts that get too
long, and no diagnostic without a known place. Operators, lists and built-in functions are safe on
sound values.
-/

namespace Lumen

/-- What the evaluation of a sound program may stop with. -/
inductive Stop.IsSound : Stop → Store → Prop where
  | giveBack {v s} : v.IsSound s → IsSound (.giveBack v) s
  | breakLoop {s} : IsSound .breakLoop s
  | continueLoop {s} : IsSound .continueLoop s
  | failure {d s} : d.IsOrdinary → IsSound (.failure d) s
  | exit {code s} : IsSound (.exit code) s
  | infiniteRemainder {s} : IsSound (.fault .infiniteRemainder) s
  | repeatCount {s} : IsSound (.fault .repeatCount) s
  | tooLong {growth s} : IsSound (.fault (.tooLong growth)) s
  | exhausted {s} : IsSound .exhausted s
  | endless {s} : IsSound .endless s

def Tree.IsPlaced (t : Tree) : Prop := ∃ sp, t.span = .ok sp ∧ sp.IsKnown

theorem Tree.isPlaced_ofNode (e : Node) : (Tree.ofNode e).IsPlaced :=
  ⟨e.span, Tree.span_ofNode e, trivial, trivial⟩

theorem Tree.isPlaced_ofToken (t : Token) : (Tree.ofToken t).IsPlaced :=
  ⟨t.span, rfl, trivial, trivial⟩

namespace Exec

variable {α β : Type}

/-- The result is one of which `Q` holds, or one that programs may stop with. -/
def Fine (s : Store) (Q : α → Prop) : Except Stop α → Prop
  | .ok a => Q a
  | .error e => e.IsSound s

/-- The scope is one of the store, and the store is sound. -/
structure Ready (c : ScopeId) (s : Store) : Prop where
  scope : c < s.scopes.size
  sound : s.IsSound

/-- From a sound store the action leads to a sound one that extends it, with a result that is
fine. -/
def Safe (c : ScopeId) (m : Machine) (x : Exec α) (Q : Store → α → Prop) : Prop :=
  Ready c m.store → x.Ends m fun r m' =>
    m.store.Extends m'.store ∧ m'.store.IsSound ∧ Fine m'.store (Q m'.store) r

theorem Fine.mono {s : Store} {P Q : α → Prop} {r : Except Stop α} (h : Fine s P r)
    (himp : ∀ a, P a → Q a) : Fine s Q r := by
  cases r with
  | ok a => exact himp a h
  | error e => exact h

theorem Fine.bind {s : Store} {P : β → Prop} {Q : α → Prop} {r : Except Stop β}
    {f : β → Except Stop α} (h : Fine s P r) (hf : ∀ b, P b → Fine s Q (f b)) :
    Fine s Q (r >>= f) := by
  cases r with
  | ok b => exact hf b h
  | error e => exact h

section

variable {c : ScopeId} {m : Machine} {P : Store → β → Prop} {Q : Store → α → Prop}

theorem Ready.next {s s' : Store} (h : Ready c s) (hl : s.Extends s') (hs : s'.IsSound) :
    Ready c s' := ⟨Nat.lt_of_lt_of_le h.scope hl.size_scopes, hs⟩

theorem Safe.of_ready {x : Exec α} (h : Ready c m.store → Safe c m x Q) : Safe c m x Q :=
  fun hready => h hready hready

theorem Safe.bind {x : Exec β} {f : β → Exec α} (hx : Safe c m x P)
    (hf : ∀ b m', m.store.Extends m'.store → P m'.store b → Safe c m' (f b) Q) :
    Safe c m (x >>= f) Q := by
  intro h
  rw [ends_bind]
  refine (hx h).mono fun r m' ⟨hl, hs, hr⟩ => ?_
  cases r with
  | ok b =>
    refine (hf b m' hl hr (h.next hl hs)).mono fun r' m'' ⟨hl', hs', hr'⟩ => ?_
    exact ⟨hl.trans hl', hs', hr'⟩
  | error e => exact ⟨hl, hs, hr⟩

/-- An action whose way to end is looked at. It may be one in another scope. -/
theorem Safe.attempt {d : ScopeId} {x : Exec β} {f : Except Stop β → Exec α}
    (hd : Ready c m.store → d < m.store.scopes.size) (hx : Safe d m x P)
    (hok : ∀ b m', m.store.Extends m'.store → P m'.store b → Safe c m' (f (.ok b)) Q)
    (herr : ∀ e m', m.store.Extends m'.store → e.IsSound m'.store →
      Safe c m' (f (.error e)) Q) : Safe c m (Exec.attempt x >>= f) Q := by
  intro h
  rw [ends_bind, ends_attempt]
  refine (hx ⟨hd h, h.sound⟩).mono fun r m' ⟨hl, hs, hr⟩ => ?_
  have hnext : Safe c m' (f r) Q := by
    cases r with
    | ok b => exact hok b m' hl hr
    | error e => exact herr e m' hl hr
  refine (hnext (h.next hl hs)).mono fun r' m'' ⟨hl', hs', hr'⟩ => ?_
  exact ⟨hl.trans hl', hs', hr'⟩

/-- An action that leaves the store as it is. -/
theorem safe_same {x : Exec α}
    (hx : Ready c m.store → x.Ends m fun r m' =>
      m'.store = m.store ∧ Fine m.store (Q m.store) r) : Safe c m x Q := by
  refine fun h => (hx h).mono fun r m' ⟨hs, hr⟩ => ?_
  rw [hs]
  exact ⟨.refl _, h.sound, hr⟩

theorem safe_ofExcept {r : Except Stop α} (h : Fine m.store (Q m.store) r) :
    Safe c m (ofExcept r) Q := safe_same fun _ => ⟨rfl, h⟩

theorem safe_pure {a : α} (h : Q m.store a) : Safe c m (pure a) Q := safe_same fun _ => ⟨rfl, h⟩

theorem safe_throw {e : Stop} (h : e.IsSound m.store) : Safe c m (throw e : Exec α) Q :=
  safe_same fun _ => ⟨rfl, h⟩

/-- What would follow does not matter. -/
theorem safe_throw_bind {e : Stop} {f : β → Exec α} (h : e.IsSound m.store) :
    Safe c m ((throw e : Exec β) >>= f) Q :=
  (safe_throw (Q := fun _ _ => False) h).bind fun _ _ _ hb => hb.elim

theorem safe_fail {complaint : Complaint} {sp : Span} (hsp : sp.IsKnown)
    (hne : ∀ symbol, complaint ≠ .unexpectedOperator symbol) :
    Safe c m (fail (Diagnostic.onSpan complaint sp) : Exec α) Q :=
  safe_throw (.failure ⟨hsp, hne⟩)

/-- Reading a part that is as it should be. -/
theorem safe_read {x : Except Fault β} {b : β} {f : β → Exec α} (hx : x = .ok b)
    (hf : Safe c m (f b) Q) : Safe c m (ofDocument x >>= f) Q := hx ▸ hf

theorem safe_store {f : Store → Exec α} (hf : Safe c m (f m.store) Q) :
    Safe c m (Exec.store >>= f) Q := hf

theorem safe_get {f : Machine → Exec α} (hf : Safe c m (f m) Q) :
    Safe c m ((get : Exec Machine) >>= f) Q := hf

theorem safe_located {n : Tree} {x : Exec α} (hn : n.IsPlaced) (hx : Safe c m x Q) :
    Safe c m (located n.span x) Q := by
  unfold located
  refine Safe.attempt (fun h => h.scope) hx (fun a m' _ ha => safe_pure ha) fun e m' _ he => ?_
  cases he with
  | failure hd =>
    dsimp only
    split
    · obtain ⟨sp, hspan, hsp⟩ := hn
      exact safe_read hspan (safe_fail hsp hd.complaint)
    · exact safe_throw (.failure hd)
  | giveBack hv => exact safe_throw (.giveBack hv)
  | _ => exact safe_throw (by constructor)

end

section

variable {c : ScopeId} {m : Machine} {v : Value}

theorem safe_update {f : Machine → Machine} (hf : (f m).store = m.store) :
    Safe c m (update f) fun _ _ => True := safe_same fun _ => ⟨hf, trivial⟩

theorem safe_note {level : Nat} {message : Unit → String} :
    Safe c m (note level message) fun _ _ => True := safe_update (Machine.note_store m _ _)

/-- A sound value has a text unless it nests too deep. -/
theorem safe_text {form : Form} {room : Nat} (hv : v.IsSound m.store) :
    Safe c m (text form room v) fun _ _ => True := by
  refine safe_same fun h => ?_
  rw [text, ends_bind, ends_store]
  dsimp only [Store.text?]
  cases ho : m.store.obstacle? form room v with
  | none => exact ⟨rfl, trivial⟩
  | some o =>
    obtain rfl := h.sound.obstacle?_eq hv ho
    exact ⟨rfl, .exhausted⟩

theorem safe_noteValue {room level : Nat} {message : String → String} (hv : v.IsSound m.store) :
    Safe c m (noteValue room level v message) fun _ _ => True := by
  refine safe_same fun h => ?_
  rw [noteValue, ends_bind, ends_store]
  dsimp only
  split
  · exact ⟨Machine.note_store m level fun _ => message (m.store.textWithin .written room v), trivial⟩
  · next o ho =>
    obtain rfl := h.sound.obstacle?_eq hv ho
    exact ⟨rfl, .exhausted⟩

theorem safe_updateStore {f : Store → Store}
    (hf : Ready c m.store → m.store.Extends (f m.store) ∧ (f m.store).IsSound) :
    Safe c m (updateStore f) fun _ _ => True :=
  fun h => ⟨(hf h).1, (hf h).2, trivial⟩

theorem safe_bindName {name : Scalar} (hv : v.IsSound m.store) :
    Safe c m (updateStore (·.bind c name v)) fun _ _ => True :=
  safe_updateStore fun h => ⟨m.store.extends_updateTable c _, h.sound.bind c name hv⟩

theorem safe_unbindName {name : Scalar} :
    Safe c m (updateStore (·.unbind c name)) fun _ _ => True :=
  safe_updateStore fun h => ⟨m.store.extends_updateTable c _, h.sound.unbind c name⟩

theorem safe_newList {elements : Array Value}
    (h : Ready c m.store → ∀ v ∈ elements, v.IsSound m.store) :
    Safe c m (newList elements) fun s v => v.IsSound s := by
  intro hready
  refine ⟨m.store.extends_addList _, hready.sound.addList (h hready), ?_⟩
  refine Value.isSound_unplaced (p := .list m.store.nextList) ?_
  exact Nat.lt_of_lt_of_eq (Nat.lt_succ_self _) (Array.size_push _).symm

theorem safe_newScope {name : String} {d : ScopeId} (hd : d < m.store.scopes.size) :
    Safe c m (newScope ⟨name, some d, []⟩) fun s e => e < s.scopes.size := by
  refine fun h => ⟨m.store.extends_addScope _, h.sound.addScope name hd, ?_⟩
  exact Nat.lt_of_lt_of_eq (Nat.lt_succ_self _) (Array.size_push _).symm

theorem safe_condition {f : Bool → Exec α} {Q : Store → α → Prop} (hv : v.IsSound m.store)
    (hf : Safe c m (f v.isTrue) Q) : Safe c m (holds v >>= f) Q :=
  safe_read hv.isRuntime.truth_eq hf

end

end Exec

/-! ## Operators and lists -/

open Exec (Fine Safe safe_pure safe_throw safe_fail safe_store safe_get safe_update safe_text
  safe_newList safe_ofExcept)

theorem mem_of_mem_extract {α : Type} {xs : Array α} {x : α} {start stop : Nat}
    (h : x ∈ xs.extract start stop) : x ∈ xs := by
  obtain ⟨k, hk, rfl⟩ := Array.getElem_of_mem h
  rw [Array.getElem_extract]
  exact Array.getElem_mem _

namespace Value

variable {s : Store} {a b i j v : Value} {α : Type} {Q : α → Prop}

theorem fine_refuse {complaint : Complaint} (hv : v.IsSound s)
    (hne : ∀ symbol, complaint ≠ .unexpectedOperator symbol) :
    Fine s Q (refuse complaint v : Except Stop α) := .failure ⟨hv.span, hne⟩

theorem fine_operate {o : Operator} (ha : a.IsSound s) (hb : b.IsSound s) :
    Fine s (fun v => v.IsSound s) (operate o a b) := by
  -- That the result is of a runtime kind does not say that its list or scope is in the store; a list
  -- or a function is never new, but one of the operands.
  have hanswers := answers_operate (o := o) ha.isRuntime hb.isRuntime
  have hgives := gives_operate o a b
  cases hr : operate o a b with
  | ok v =>
    rw [hr] at hanswers hgives
    rcases hgives with rfl | rfl | hnew
    · exact ha
    · exact hb
    · exact hnew.isSound hanswers
  | error e =>
    rw [hr] at hanswers
    cases hanswers with
    | diagnostic _ hd => exact .failure hd
    | infiniteRemainder _ => exact .infiniteRemainder
    | repeatCount _ => exact .repeatCount
    | tooLong _ => exact .tooLong

/-- An index that is not refused is not beyond the limit. -/
theorem fine_checkIndex {length : Nat} {upper : Int} (hi : i.IsSound s) :
    Fine s (fun k : Nat => (k : Int) ≤ upper) (checkIndex length upper i) := by
  unfold checkIndex
  split
  · next x _ =>
    split
    · dsimp only
      split
      · exact fine_refuse hi nofun
      · next hin =>
        change ((Double.truncate x).toNat : Int) ≤ upper
        omega
    · exact fine_refuse hi nofun
  · exact fine_refuse hi nofun

/-- The ends of a slice that is not refused are in their order, and in the list. -/
theorem fine_checkSlice {length : Nat} (hi : i.IsSound s) (hj : j.IsSound s) :
    Fine s (fun range => range.1 ≤ range.2 ∧ range.2 ≤ length) (checkSlice length i j) := by
  refine (fine_checkIndex hi).bind fun start _ => (fine_checkIndex hj).bind fun stop hstop => ?_
  split
  · unfold refuseBetween
    obtain ⟨sp, hjoin, hsp⟩ := Span.exists_join hi.span.start hj.span.stop
    rw [hjoin]
    exact .failure ⟨hsp, nofun⟩
  · next hle => exact ⟨Nat.le_of_not_lt hle, by omega⟩

end Value

namespace Exec

variable {c : ScopeId} {m : Machine} {a b i v : Value}

theorem safe_apply {o : Operator} (ha : a.IsSound m.store) (hb : b.IsSound m.store) :
    Safe c m (o.apply a b) fun s v => v.IsSound s := by
  unfold Operator.apply
  split
  · refine safe_store (safe_newList fun h v hv => ?_)
    rcases Array.mem_append.mp hv with hv | hv
    · exact h.sound.elements hv
    · exact h.sound.elements hv
  · rw [ha.isRuntime.payload.isDatum, hb.isRuntime.payload.isDatum]
    exact safe_ofExcept (Value.fine_operate ha hb)

theorem safe_access {l : ListId} {upTo : Option Value} (hi : i.IsSound m.store)
    (hj : ∀ j ∈ upTo, j.IsSound m.store) :
    Safe c m (access l i upTo) fun s v => v.IsSound s := by
  refine Safe.of_ready fun h => ?_
  unfold access
  refine safe_store ?_
  dsimp only
  split
  · refine (safe_ofExcept (Q := fun _ _ => True) ?_).bind fun k m' hl _ => ?_
    · exact (Value.fine_checkIndex hi).mono fun _ _ => trivial
    · exact safe_pure ((h.sound.getD l k).mono hl)
  · next j =>
    refine (safe_ofExcept (Q := fun _ _ => True) ?_).bind fun range m' hl _ => ?_
    · exact (Value.fine_checkSlice hi (hj j rfl)).mono fun _ _ => trivial
    · exact safe_newList fun _ v hv => (h.sound.elements (mem_of_mem_extract hv)).mono hl

theorem safe_assignElement {l : ListId} (hi : i.IsSound m.store) (hv : v.IsSound m.store) :
    Safe c m (assign l i v) fun _ _ => True := by
  unfold assign
  refine safe_store ?_
  refine (safe_ofExcept (Q := fun _ _ => True) ?_).bind fun k m' hl _ => ?_
  · exact (Value.fine_checkIndex hi).mono fun _ _ => trivial
  · exact safe_updateStore fun h =>
      ⟨m'.store.extends_setElement l k v, h.sound.setElement l k (hv.mono hl)⟩

end Exec

/-! ## Built-in functions -/

namespace Builtin

variable {α : Type} {c : ScopeId} {m : Machine} {room : Nat} {b : Builtin} {v : Value}
  {args : List Value} {Q : Store → α → Prop}

theorem safe_refuse {complaint : Complaint}
    (hne : ∀ symbol, complaint ≠ .unexpectedOperator symbol) :
    Safe c m (refuse complaint : Exec α) Q := safe_fail Span.isKnown_none hne

theorem safe_refuseAt {complaint : Complaint} (hv : v.IsSound m.store)
    (hne : ∀ symbol, complaint ≠ .unexpectedOperator symbol) :
    Safe c m (refuseAt complaint v : Exec α) Q := safe_fail hv.span hne

theorem safe_needData (hv : v.IsSound m.store) :
    Safe c m (b.needData v) fun _ j => ∃ t, j = .text t := by
  obtain ⟨p, sp⟩ := v
  have hp := hv.payload
  cases p with
  | text t => exact safe_pure ⟨t, rfl⟩
  | datum => exact hp.elim
  | _ => exact safe_refuseAt hv nofun

theorem safe_needText (hv : v.IsSound m.store) : Safe c m (b.needText v) fun _ _ => True := by
  refine (safe_needData hv).bind fun j m' _ hj => ?_
  obtain ⟨t, rfl⟩ := hj
  exact safe_pure trivial

theorem safe_needList (hv : v.IsSound m.store) :
    Safe c m (b.needList v) fun s elements => ∀ w ∈ elements, w.IsSound s := by
  unfold needList
  split
  · exact safe_store (Safe.of_ready fun h => safe_pure fun w hw => h.sound.elements hw)
  · exact safe_refuseAt hv nofun

theorem safe_texts {form : Form} (hargs : ∀ v ∈ args, v.IsSound m.store) :
    Safe c m (args.mapM (Exec.text form room)) fun _ _ => True := by
  induction args generalizing m with
  | nil => exact safe_pure trivial
  | cons v args ih =>
    rw [List.mapM_cons]
    obtain ⟨hv, hargs⟩ := List.forall_mem_cons.mp hargs
    refine (safe_text hv).bind fun t m' hl _ => ?_
    exact (ih fun w hw => (hargs w hw).mono hl).bind fun texts m'' _ _ => safe_pure trivial

theorem safe_printValues {ending : String} (hargs : ∀ v ∈ args, v.IsSound m.store) :
    Safe c m (printValues room args ending) fun _ _ => True :=
  (safe_texts hargs).bind fun _ _ _ _ => safe_update rfl

theorem safe_readLine (prompt : String) :
    Safe c m (readLine (.text prompt)) fun s v => v.IsSound s := by
  refine (safe_update rfl).bind fun _ m₁ _ _ => safe_get ?_
  exact (safe_update rfl).bind fun _ m₂ _ _ => safe_pure (Value.isSound_text _)

theorem fine_replaceIn (s : Store) (text old new : String) :
    Fine s (fun w => w.IsSound s) (replaceIn text old new) := by
  rcases replaceIn_cases text old new with h | h
  · exact h ▸ Value.isSound_text _
  · exact h ▸ .tooLong

theorem fine_changeCase (s : Store) (map : String → String) (text : String) :
    Fine s (fun w => w.IsSound s) (changeCase map text) := by
  rcases changeCase_cases map text with h | h
  · exact h ▸ Value.isSound_text _
  · exact h ▸ .tooLong

theorem safe_replaced {old new : Value} (hv : v.IsSound m.store) (hold : old.IsSound m.store)
    (hnew : new.IsSound m.store) : Safe c m (replaced v old new) fun s v => v.IsSound s := by
  refine (safe_needData hv).bind fun j m₁ hl₁ hj => ?_
  refine (safe_needData (hold.mono hl₁)).bind fun j₁ m₂ hl₂ hj₁ => ?_
  refine (safe_needData (hnew.mono (hl₁.trans hl₂))).bind fun j₂ m₃ _ hj₂ => ?_
  obtain ⟨t, rfl⟩ := hj
  obtain ⟨t₁, rfl⟩ := hj₁
  obtain ⟨t₂, rfl⟩ := hj₂
  exact safe_ofExcept (fine_replaceIn _ t t₁ t₂)

theorem safe_exitCode (hargs : ∀ v ∈ args, v.IsSound m.store) :
    Safe c m (exitCode args) fun _ _ => True := by
  unfold exitCode
  split
  · exact safe_pure trivial
  · have hv := hargs _ List.mem_cons_self
    split
    · split
      · exact safe_pure trivial
      · exact safe_refuseAt hv nofun
    · exact safe_refuseAt hv nofun
  · exact safe_refuse nofun

theorem safe_len (room : Nat) (hv : v.IsSound m.store) :
    Safe c m (run room len [v]) fun s v => v.IsSound s := by
  obtain ⟨p, sp⟩ := v
  have hp := hv.payload
  cases p with
  | list => exact safe_store (safe_pure (Value.isSound_number _))
  | text => exact safe_pure (Value.isSound_number _)
  | datum => exact hp.elim
  | _ => exact safe_refuseAt hv nofun

theorem safe_run (hargs : ∀ v ∈ args, v.IsSound m.store) :
    Safe c m (b.run room args) fun s v => v.IsSound s := by
  have hcase {x : Exec String} (map : String → String) (hx : Safe c m x fun _ _ => True) :
      Safe c m (do Exec.ofExcept (changeCase map (← x))) fun s v => v.IsSound s :=
    hx.bind fun t m' _ _ => safe_ofExcept (fine_changeCase _ map t)
  have hfirst {v : Value} {rest : List Value} (h : ∀ w ∈ v :: rest, w.IsSound m.store) :
      v.IsSound m.store := h v List.mem_cons_self
  have hrest {v : Value} {rest : List Value} (h : ∀ w ∈ v :: rest, w.IsSound m.store) :
      ∀ w ∈ rest, w.IsSound m.store := (List.forall_mem_cons.mp h).2
  unfold run
  split
  · exact (safe_printValues hargs).bind fun _ m' _ _ => safe_pure Value.isSound_null
  · exact (safe_printValues hargs).bind fun _ m' _ _ => safe_pure Value.isSound_null
  · exact safe_readLine _
  · refine (safe_needData (hfirst hargs)).bind fun j m' _ hj => ?_
    obtain ⟨t, rfl⟩ := hj
    exact safe_readLine t
  · exact safe_refuse nofun
  · exact safe_len room (hfirst hargs)
  · exact (safe_needText (hfirst hargs)).bind fun t m' _ _ => safe_pure (Value.isSound_text _)
  · exact hcase Text.upper (safe_needText (hfirst hargs))
  · exact hcase Text.lower (safe_needText (hfirst hargs))
  · have hrest' := hrest hargs
    exact safe_replaced (hfirst hargs) (hfirst hrest') (hfirst (hrest hrest'))
  · next v w rest =>
    refine (safe_needList (hfirst hargs)).bind fun elements m' hl he => safe_newList fun _ u hu => ?_
    rw [← Array.mem_toList_iff, Array.toList_appendList] at hu
    rcases List.mem_append.mp hu with hu | hu
    · exact he u (Array.mem_toList_iff.mp hu)
    · exact (hrest hargs u hu).mono hl
  · exact safe_refuse nofun
  · next v w rest =>
    refine (safe_needList (hfirst hargs)).bind fun elements m' hl he => safe_newList fun _ u hu => ?_
    rcases Array.mem_append.mp hu with hu | hu
    · exact (hrest hargs u (List.mem_toArray.mp hu)).mono hl
    · exact he u hu
  · exact safe_refuse nofun
  · next v =>
    refine (safe_needList (hfirst hargs)).bind fun elements m' hl he => ?_
    split
    · exact safe_refuseAt ((hfirst hargs).mono hl) nofun
    · exact safe_newList fun _ u hu => he u (mem_of_mem_extract hu)
  · next v =>
    refine (safe_needList (hfirst hargs)).bind fun elements m' hl he => ?_
    split
    · exact safe_refuseAt ((hfirst hargs).mono hl) nofun
    · refine safe_newList fun _ u hu => he u ?_
      obtain ⟨k, hk, rfl⟩ := Array.getElem_of_mem hu
      rw [Array.getElem_pop]
      exact Array.getElem_mem _
  · exact (safe_exitCode hargs).bind fun code m' _ _ => safe_throw .exit
  · exact safe_refuse nofun

theorem safe_call {place : Span} (hplace : place.IsKnown) (hargs : ∀ v ∈ args, v.IsSound m.store) :
    Safe c m (b.call room place args) fun s v => v.IsSound s := by
  unfold call
  split
  · split
    · exact safe_run hargs
    · exact safe_fail hplace nofun
  · exact safe_run hargs

end Builtin

end Lumen
