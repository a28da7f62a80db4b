import Lumen.Proofs.Eval.Shape
import Lumen.Proofs.Operation.Access

/-!
# Assignment to an element of a list

The list is the one that the name stands for before the operands are evaluated. The assignment
either refuses, and then the operands have done all that was done, or it changes the one slot that
the index selects. It asks for the text of the value behind that, for the trace and whether there is
a trace or not, so a value without a text makes it fail with the slot already changed.
-/

namespace Lumen

namespace Store

/-- The second store is the first one with the value in slot `p` of the list `l`. -/
structure Puts (s : Store) (l : ListId) (p : Nat) (v : Value) (s' : Store) : Prop where
  slot : (s'.elements l)[p]? = some v
  other_slots : ∀ k, k ≠ p → (s'.elements l)[k]? = (s.elements l)[k]?
  size : (s'.elements l).size = (s.elements l).size
  other_lists : ∀ k, k ≠ l → s'.lists[k]? = s.lists[k]?
  number : s'.lists.size = s.lists.size
  scopes : s'.scopes = s.scopes

theorem puts_setElement {s : Store} {l : ListId} {p : Nat} {v : Value}
    (hp : p < (s.elements l).size) : s.Puts l p v (s.setElement l p v) where
  slot := by
    rw [elements_setElement, if_pos rfl, Array.getElem?_setIfInBounds_self_of_lt hp]
  other_slots k hk := by
    rw [elements_setElement, if_pos rfl, Array.getElem?_setIfInBounds_ne (Ne.symm hk)]
  size := size_elements_setElement ..
  other_lists k hk := by
    rw [setElement, Array.getElem?_modify, if_neg (Ne.symm hk)]
  number := by
    rw [setElement, Array.size_modify]
  scopes := rfl

theorem obstacle?_number {s : Store} {form : Form} {room : Nat} {v : Value} {x : Float}
    (hv : v.payload = .number x) (hroom : 0 < room) : s.obstacle? form room v = none := by
  cases room with
  | zero => exact absurd hroom (Nat.lt_irrefl 0)
  | succ room => rw [obstacle?, hv]

/-- A list that holds itself has no text. -/
theorem exists_obstacle_of_mem {s : Store} {l : ListId} {v : Value} (form : Form) (room : Nat)
    (hv : v.payload = .list l) (hmem : v ∈ s.elements l) :
    ∃ o, s.obstacle? form room v = some o := by
  induction room with
  | zero => exact ⟨_, rfl⟩
  | succ room ih =>
    obtain ⟨o, ho⟩ := ih
    rw [obstacle?, hv]
    exact Option.isSome_iff_exists.mp
      (List.findSome?_isSome_iff.mpr ⟨v, Array.mem_toList_iff.mpr hmem, ho ▸ rfl⟩)

end Store

namespace Eval

/-- The machine that the operands of an assignment leave, the index in front of the value. -/
def afterOperands (ev : Evaluator) (c : ScopeId) (i value : Tree) (m : Machine) : Machine :=
  (ev value c).final ((ev i c).final m)

/-- The operands of an assignment evaluate, to an index and to the value. -/
structure OperandsYield (ev : Evaluator) (c : ScopeId) (i value : Tree) (m : Machine)
    (index v : Value) : Prop where
  index : ∃ a, (ev i c).result m = .ok a ∧ Value.orNull a = index
  value : ∃ b, (ev value c).result ((ev i c).final m) = .ok b ∧ Value.orNull b = v

/-- Why an assignment to an element is not made: the name, which is looked up first, stands for no
list, an operand stops, or the index is refused. Nothing but the operands has been done then. -/
inductive AssignmentStops (ev : Evaluator) (c : ScopeId) (name : Scalar) (i value : Tree)
    (m : Machine) : Stop → Machine → Prop
  | noList {e : Stop} : (∀ l, (m.store.lookup c name).map Value.payload ≠ some (.list l)) →
      e.IsRefusal → AssignmentStops ev c name i value m e m
  | noIndex {l : ListId} {e : Stop} :
      (m.store.lookup c name).map Value.payload = some (.list l) →
      (ev i c).result m = .error e →
      AssignmentStops ev c name i value m e ((ev i c).final m)
  | noValue {l : ListId} {a : Option Value} {e : Stop} :
      (m.store.lookup c name).map Value.payload = some (.list l) →
      (ev i c).result m = .ok a → (ev value c).result ((ev i c).final m) = .error e →
      AssignmentStops ev c name i value m e (afterOperands ev c i value m)
  | noSlot {l : ListId} {index v : Value} {e : Stop} :
      (m.store.lookup c name).map Value.payload = some (.list l) →
      OperandsYield ev c i value m index v →
      (∀ p, ¬ index.Selects ((afterOperands ev c i value m).store.elements l).size p) →
      e.IsRefusal → AssignmentStops ev c name i value m e (afterOperands ev c i value m)

/-- The assignment is made on the machine that the operands have left: the slot is all that changes
but for the trace. The result depends on whether the value has a text then. -/
structure AssignmentPuts (room : Nat) (after : Machine) (l : ListId) (p : Nat) (v : Value)
    (r : Except Stop (Option Value)) (m' : Machine) : Prop where
  final : { m' with trace := after.trace } = { after with store := after.store.setElement l p v }
  result : r = match (after.store.setElement l p v).obstacle? .written room v with
    | none => .ok (some v)
    | some o => .error (.ofObstacle o)

inductive AssignmentEnds (ev : Evaluator) (room : Nat) (c : ScopeId) (name : Scalar)
    (i value : Tree) (m : Machine) : Except Stop (Option Value) → Machine → Prop
  | stops {e : Stop} {m' : Machine} : AssignmentStops ev c name i value m e m' →
      AssignmentEnds ev room c name i value m (.error e) m'
  | puts {l : ListId} {index v : Value} {p : Nat} {r : Except Stop (Option Value)} {m' : Machine} :
      (m.store.lookup c name).map Value.payload = some (.list l) →
      OperandsYield ev c i value m index v →
      index.Selects ((afterOperands ev c i value m).store.elements l).size p →
      AssignmentPuts room (afterOperands ev c i value m) l p v r m' →
      AssignmentEnds ev room c name i value m r m'

variable {ev : Evaluator} {rounds room : Nat} {c : ScopeId} {t i value n : Tree} {name : Scalar}
  {l : ListId} {m : Machine}

/-- What an assignment does behind its operands. -/
theorem ends_putElement {index v : Value}
    (hl : (m.store.lookup c name).map Value.payload = some (.list l))
    (hyield : OperandsYield ev c i value m index v) (hroom : 0 < room) :
    (do
      if !index.payload.isNumber then Exec.located n.span (failAt .indexNotNumber i)
      Exec.located n.span (Exec.assign l index v)
      let slot ← Exec.text .written room index
      Exec.noteValue room 2 v fun text =>
        "assign " ++ name.display ++ "[" ++ slot ++ "] = " ++ text
      return some v : Exec (Option Value)).Ends (afterOperands ev c i value m)
      (AssignmentEnds ev room c name i value m) := by
  split
  · next hnumber =>
    rw [Exec.ends_bind]
    refine ends_locatedAt fun e he => .stops (.noSlot hl hyield ?_ he)
    rintro p ⟨⟨x, hx, -⟩, -⟩
    rw [hx] at hnumber
    exact Bool.false_ne_true hnumber
  rw [Exec.ends_bind]
  refine Exec.ends_located (Exec.ends_assign (fun p hp => ?_) fun hnone d => ?_)
  · dsimp only
    obtain ⟨x, hx, -⟩ := hp.number
    rw [Exec.ends_bind]
    refine Exec.ends_text_of_none ?_ fun slot => ?_
    · exact Store.obstacle?_number hx hroom
    dsimp only
    rw [Exec.ends_bind]
    refine Exec.ends_noteValue_cases (fun h message => ?_) fun o h => ?_
    · refine .puts hl hyield hp ⟨Machine.note_untraced .., ?_⟩
      dsimp only at h
      rw [h]
      rfl
    · refine .puts hl hyield hp ⟨rfl, ?_⟩
      dsimp only at h
      rw [h]
  · exact ⟨trivial, fun e he => .stops (.noSlot hl hyield hnone he)⟩

theorem ends_assignIndex (hname : t.name = .ok name)
    (hroom : ∀ a, (ev i c).result m = .ok a → 0 < room) :
    (assignIndex room ev c t i value n).Ends m (AssignmentEnds ev room c name i value m) := by
  rw [assignIndex, Exec.ends_bind]
  refine ends_nameOf hname ?_
  dsimp only
  rw [Exec.ends_bind, Exec.ends_store]
  dsimp only
  split
  · next l hl =>
    rw [Exec.ends_bind]
    refine ends_operand_cases (fun e he => .stops (.noIndex hl he)) fun a ha => ?_
    dsimp only
    rw [Exec.ends_bind]
    refine ends_operand_cases (fun e he => .stops (.noValue hl ha he)) fun b hb => ?_
    dsimp only
    have hyield : OperandsYield ev c i value m (Value.orNull a) (Value.orNull b) :=
      ⟨⟨a, ha, rfl⟩, ⟨b, hb, rfl⟩⟩
    exact ends_putElement hl hyield (hroom a ha)
  · next hnone =>
    exact ends_locatedAt fun e he => .stops (.noList hnone he)

/-! ## Evaluation -/

section

theorem OperandsYield.unique {index v index' v' : Value} (h : OperandsYield ev c i value m index v)
    (h' : OperandsYield ev c i value m index' v') : index = index' ∧ v = v' := by
  obtain ⟨⟨a, ha, rfl⟩, ⟨b, hb, rfl⟩⟩ := h
  obtain ⟨⟨a', ha', rfl⟩, ⟨b', hb', rfl⟩⟩ := h'
  obtain rfl : a = a' := Except.ok.inj (ha.symm.trans ha')
  obtain rfl : b = b' := Except.ok.inj (hb.symm.trans hb')
  exact ⟨rfl, rfl⟩

theorem keepsShape_afterOperands (rounds room : Nat) (c : ScopeId) (i value : Tree) (m : Machine) :
    m.store.KeepsShape (afterOperands (evaluate rounds room) c i value m).store :=
  (keepsShape_evaluate rounds room i c m).trans (keepsShape_evaluate rounds room value c _)

theorem ends_evaluate_assignIndex (hname : t.name = .ok name) :
    (evaluate rounds (room + 1) (.node .assignIndex [t, i, value]) c).Ends m
      (AssignmentEnds (evaluate rounds room) room c name i value m) := by
  refine ends_assignIndex hname fun a ha => ?_
  cases room with
  | zero => exact nomatch ha
  | succ room => exact room.succ_pos

/-- The index was refused neither by its kind nor by the length that the list has had all along. -/
theorem puts_assignIndex {index v : Value} {p : Nat} (hname : t.name = .ok name)
    (hl : (m.store.lookup c name).map Value.payload = some (.list l))
    (hyield : OperandsYield (evaluate rounds room) c i value m index v)
    (hp : index.Selects (m.store.elements l).size p) :
    (evaluate rounds (room + 1) (.node .assignIndex [t, i, value]) c).Ends m
      (AssignmentPuts room (afterOperands (evaluate rounds room) c i value m) l p v) := by
  have hsize := (keepsShape_afterOperands rounds room c i value m).size_elements
    (Nat.zero_lt_of_lt hp.lt)
  refine (ends_evaluate_assignIndex hname).mono fun r m' hends => ?_
  cases hends with
  | stops hstops =>
    cases hstops with
    | noList hnone => exact absurd hl (hnone l)
    | noIndex _ he =>
      obtain ⟨a, ha, -⟩ := hyield.index
      exact nomatch ha.symm.trans he
    | noValue _ _ he =>
      obtain ⟨b, hb, -⟩ := hyield.value
      exact nomatch hb.symm.trans he
    | noSlot hl' hyield' hnone =>
      obtain rfl := Payload.list.inj (Option.some.inj (hl.symm.trans hl'))
      obtain ⟨rfl, rfl⟩ := hyield.unique hyield'
      exact absurd (hsize ▸ hp) (hnone p)
  | puts hl' hyield' hp' hputs =>
    obtain rfl := Payload.list.inj (Option.some.inj (hl.symm.trans hl'))
    obtain ⟨rfl, rfl⟩ := hyield.unique hyield'
    obtain rfl := hp.unique (hsize ▸ hp')
    exact hputs

/-- Assignment to an element: if the name stands for a list and the index selects slot `p` of it,
the slot is changed and nothing else is, whatever the operands have done to the name; the value is
given back if it has a text. In every other case the operands have done all that was done. -/
theorem evaluate_assignIndex (rounds room : Nat) (i value : Tree) (hname : t.name = .ok name)
    (hlist : ∀ l, (m.store.lookup c name).map Value.payload = some (.list l) →
      l < m.store.lists.size) :
    let node := evaluate rounds (room + 1) (.node .assignIndex [t, i, value]) c
    let after := afterOperands (evaluate rounds room) c i value m
    (∀ l index v p, (m.store.lookup c name).map Value.payload = some (.list l) →
      OperandsYield (evaluate rounds room) c i value m index v →
      index.Selects (m.store.elements l).size p →
      AssignmentPuts room after l p v (node.result m) (node.final m) ∧
        after.store.Puts l p v (node.final m).store ∧
        ∀ j : Value, j.Selects (m.store.elements l).size p →
          (Exec.access l j none).result (node.final m) = .ok v) ∧
    ((∀ l index v p, (m.store.lookup c name).map Value.payload = some (.list l) →
      OperandsYield (evaluate rounds room) c i value m index v →
      ¬ index.Selects (m.store.elements l).size p) →
      ∃ e, node.result m = .error e ∧
        AssignmentStops (evaluate rounds room) c name i value m e (node.final m)) := by
  intro node after
  have hsize (l : ListId) (hl : l < m.store.lists.size) :
      (after.store.elements l).size = (m.store.elements l).size :=
    (keepsShape_afterOperands rounds room c i value m).lists.size_eq l hl
  refine ⟨fun l index v p hl hyield hp => ?_, fun hnone => ?_⟩
  · have hputs : AssignmentPuts room after l p v (node.result m) (node.final m) :=
      puts_assignIndex hname hl hyield hp
    have hstore : (node.final m).store = after.store.setElement l p v :=
      congrArg Machine.store hputs.final
    have hlength := hsize l (hlist l hl)
    have hput : after.store.Puts l p v (node.final m).store :=
      hstore ▸ Store.puts_setElement (hlength ▸ hp.lt)
    refine ⟨hputs, hput, fun j hj => Exec.result_access ?_ hput.slot⟩
    rw [hput.size, hlength]
    exact hj
  · have hends : AssignmentEnds (evaluate rounds room) room c name i value m (node.result m)
      (node.final m) := ends_evaluate_assignIndex hname
    generalize node.result m = r at hends ⊢
    generalize node.final m = m' at hends ⊢
    cases hends with
    | stops hstops => exact ⟨_, rfl, hstops⟩
    | puts hl hyield hp => exact absurd (hsize _ (hlist _ hl) ▸ hp) (hnone _ _ _ _ hl hyield)

/-- `a[0] = null` where `a` is `[1]`. -/
theorem evaluate_assignIndex_null :
    let first : Position := ⟨"f", 1, 1, 0⟩
    let next : Position := ⟨"f", 1, 2, 1⟩
    let a : Token := ⟨.identifier, .text "a", first, next⟩
    let zero := Tree.ofNode (.number ⟨.number, .float 0, first, next⟩)
    let null := Tree.ofNode (.null ⟨.keyword, .text "null", first, next⟩)
    let m : Machine := { Machine.initial "" 0 with
      store := (Store.initial.addList #[Value.number 1]).bind Store.root (.text "a")
        (Value.unplaced (.list 0)) }
    let v : Value := ⟨.null, Span.make first next⟩
    let node := evaluate 8 5 (.node .assignIndex [Tree.ofToken a, zero, null]) Store.root
    m.store.lookup Store.root (.text "a") = some (Value.unplaced (.list 0)) ∧
      AssignmentPuts 4 m 0 0 v (node.result m) (node.final m) ∧
      m.store.Puts 0 0 v (node.final m).store := by
  intro first next a zero null m v node
  have hl : m.store.lookup Store.root (.text "a") = some (Value.unplaced (.list 0)) := by
    rw [Store.lookup]
    rfl
  have hlist : (m.store.lookup Store.root (.text "a")).map Value.payload = some (.list 0) := by
    rw [hl]
    rfl
  have hstored (l : ListId)
      (h : (m.store.lookup Store.root (.text "a")).map Value.payload = some (.list l)) :
      l < m.store.lists.size := by
    obtain rfl := Payload.list.inj (Option.some.inj (hlist.symm.trans h))
    exact Nat.zero_lt_one
  have hyield : OperandsYield (evaluate 8 4) Store.root zero null m
      ⟨.number 0, Span.make first next⟩ v := ⟨⟨_, rfl, rfl⟩, ⟨_, rfl, rfl⟩⟩
  have hp : (⟨.number 0, Span.make first next⟩ : Value).Selects (m.store.elements 0).size 0 :=
    ⟨⟨0, rfl, by decide, by decide⟩, Nat.zero_lt_one⟩
  obtain ⟨hputs, hput, -⟩ :=
    (evaluate_assignIndex 8 4 zero null (t := Tree.ofToken a) rfl hstored).1 0 _ v 0 hlist hyield hp
  exact ⟨hl, hputs, hput⟩

/-- A list that is put into itself has no text, whatever room there is, so the answer is an error
behind the change. -/
theorem puts_assignIndex_self {index v : Value} {p : Nat} (hname : t.name = .ok name)
    (hl : (m.store.lookup c name).map Value.payload = some (.list l))
    (hyield : OperandsYield (evaluate rounds room) c i value m index v)
    (hp : index.Selects (m.store.elements l).size p) (hv : v.payload = .list l) :
    (evaluate rounds (room + 1) (.node .assignIndex [t, i, value]) c).Ends m fun r m' =>
      (∃ o, r = .error (.ofObstacle o)) ∧ (m'.store.elements l)[p]? = some v := by
  have hsize := (keepsShape_afterOperands rounds room c i value m).size_elements
    (Nat.zero_lt_of_lt hp.lt)
  refine (puts_assignIndex hname hl hyield hp).mono fun r m' hputs => ?_
  have hstore := congrArg Machine.store hputs.final
  have hslot := (Store.puts_setElement (v := v) (hsize ▸ hp.lt)).slot
  obtain ⟨o, ho⟩ := Store.exists_obstacle_of_mem .written room hv
    (Array.mem_of_getElem? hslot)
  refine ⟨⟨o, ?_⟩, ?_⟩
  · rw [hputs.result, ho]
  · exact hstore ▸ hslot

/-- Not every assignment with a good index gives the value back: with `a` the list `[1]`, no room is
enough for `a[0] = a`. -/
theorem not_forall_assignIndex :
    ¬ ∀ (rounds : Nat) (c : ScopeId) (t i value : Tree) (name : Scalar) (m : Machine) (l : ListId)
      (p : Nat) (index v : Value), t.name = .ok name →
      (m.store.lookup c name).map Value.payload = some (.list l) →
      index.Selects (m.store.elements l).size p →
      (∀ room, OperandsYield (evaluate rounds (room + 1)) c i value m index v) →
      ∃ room, (evaluate rounds (room + 2) (.node .assignIndex [t, i, value]) c).result m =
        .ok (some v) := by
  intro h
  let first : Position := ⟨"f", 1, 1, 0⟩
  let next : Position := ⟨"f", 1, 2, 1⟩
  let a : Token := ⟨.identifier, .text "a", first, next⟩
  let zero : Token := ⟨.number, .float 0, first, next⟩
  let m : Machine := { Machine.initial "" 0 with
    store := (Store.initial.addList #[Value.number 1]).bind Store.root (.text "a")
      (Value.unplaced (.list 0)) }
  let span : Span := Span.make first next
  have hl : m.store.lookup Store.root (.text "a") = some (Value.unplaced (.list 0)) := by
    rw [Store.lookup]
    rfl
  have hyield (room : Nat) : OperandsYield (evaluate 8 (room + 1)) Store.root
      (Tree.ofNode (.number zero)) (Tree.ofNode (.lookup a)) m ⟨.number 0, span⟩
      ⟨.list 0, span⟩ := by
    have hself : (lookup Store.root (Tree.ofToken a) (Tree.ofNode (.lookup a))).Ends m
        fun r _ => r = .ok (some ⟨.list 0, span⟩) := ends_lookup rfl hl rfl
    exact ⟨⟨_, rfl, rfl⟩, ⟨_, hself, rfl⟩⟩
  have hp : (⟨.number 0, span⟩ : Value).Selects (m.store.elements 0).size 0 :=
    ⟨⟨0, rfl, by decide, by decide⟩, Nat.zero_lt_one⟩
  have hlist : (m.store.lookup Store.root (.text "a")).map Value.payload = some (.list 0) := by
    rw [hl]
    rfl
  obtain ⟨room, hok⟩ :=
    h 8 Store.root (Tree.ofToken a) _ _ (.text "a") m 0 0 _ _ rfl hlist hp hyield
  obtain ⟨⟨o, herr⟩, -⟩ :=
    puts_assignIndex_self (t := Tree.ofToken a) rfl hlist (hyield room) hp rfl
  exact nomatch hok.symm.trans herr

end

end Eval

end Lumen
