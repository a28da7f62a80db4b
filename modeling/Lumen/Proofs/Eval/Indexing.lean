import Lumen.Proofs.Eval.Room
import Lumen.Proofs.Eval.Shape
import Lumen.Proofs.Operation.Access
import Lumen.Proofs.Store.Nested

/-!
# Lists read by an index and by a call

A list is read at an index or from one index up to another one, and a call with the indexes as
arguments reads it too. Both take the same elements and refuse the same indexes in the same words;
the value of a call is placed at the node, that of an index is not. But a call asks for the text of
the list, for the trace and whether there is a trace or not, so it fails for a list without a text
where an index is good.
-/

namespace Lumen

namespace Exec

variable {m : Machine} {l : ListId} {index : Value} {j : Option Value}

/-- Both results are one value, but for its place, or both are failures in the same words. -/
inductive Agrees : Except Stop Value → Except Stop (Option Value) → Prop
  | value {v : Value} {s : Span} : Agrees (.ok v) (.ok (some (v.place s)))
  | failure {d d' : Diagnostic} : d'.complaint = d.complaint →
      Agrees (.error (.failure d)) (.error (.failure d'))

/-- What a node makes of an access: a failure may be placed at the node, and so may the value. -/
theorem agrees_located {x : Exec Value} {f : Value → Exec (Option Value)} {s : Span}
    {r : Except Stop Value} {m' : Machine} (h : Accesses m l index j r m') {m₁ m₁' : Machine}
    (hx : x.Ends m₁ fun r' m'' => r' = r ∧ m'' = m₁')
    (hf : ∀ v, r = .ok v → ∃ s, f v = pure (some (v.place s))) :
    (located (.ok s) x >>= f).Ends m₁ fun r' m'' => Agrees r r' ∧ m'' = m₁' := by
  rw [ends_bind, located, ends_bind, ends_attempt]
  refine hx.mono ?_
  rintro r m₁' ⟨rfl, rfl⟩
  have hvalue (v : Value) (hv : r = .ok v) :
      (f v).Ends m₁' fun r' m'' => Agrees (.ok v) r' ∧ m'' = m₁' := by
    obtain ⟨s, hs⟩ := hf v hv
    rw [hs]
    exact ⟨.value, rfl⟩
  -- An access stops with a failure or not at all, and only a failure without a place gets one.
  cases h with
  | element => exact hvalue _ rfl
  | slice => exact hvalue _ rfl
  | refused =>
    dsimp only
    split
    · exact ⟨.failure rfl, rfl⟩
    · exact ⟨.failure rfl, rfl⟩

end Exec

namespace Eval

def indexes (i upTo : Tree) : List Tree := i :: if upTo.isNull then [] else [upTo]

variable {ev : Evaluator} {rounds room : Nat} {c : ScopeId} {t i upTo q n : Tree} {l : ListId}
  {m : Machine} {v w : Value} {j : Option Value}

theorem resultAt_eq {s : Span} (hs : n.span = .ok s) (hv : v.payload ≠ .base) :
    resultAt v n = pure (some (v.place s)) := by
  rw [resultAt, hs, Exec.ofDocument_ok, pure_bind]
  obtain ⟨p, sp⟩ := v
  cases p with
  | base => exact (hv rfl).elim
  | _ => rfl

theorem operands_cons_ok {ts : List Tree} {vs : List Value}
    (h : (operands ev c (t :: ts)).result m = .ok vs) :
    ∃ v rest, vs = v :: rest ∧ (operand ev t c).result m = .ok v ∧
      (operands ev c ts).result ((operand ev t c).final m) = .ok rest ∧
      (operands ev c (t :: ts)).final m =
        (operands ev c ts).final ((operand ev t c).final m) := by
  rw [operands, Exec.result_bind] at h
  rw [operands, Exec.final_bind]
  split at h
  · next v' hv =>
    rw [Exec.result_bind] at h
    split at h
    · next vs' hvs =>
      cases h
      rw [hv, Exec.final_bind, hvs]
      exact ⟨_, _, rfl, rfl, rfl, rfl⟩
    · cases h
  · cases h

theorem indexOperand_ok (complaint : Complaint) (n : Tree)
    (h : (operand ev i c).result m = .ok w) (hnumber : w.payload.isNumber = true) :
    (indexOperand ev c complaint i n).result m = .ok w ∧
      (indexOperand ev c complaint i n).final m = (operand ev i c).final m := by
  rw [indexOperand, Exec.result_bind, Exec.final_bind, h]
  dsimp only
  rw [if_pos hnumber]
  exact ⟨rfl, rfl⟩

theorem upToOperand_ok
    (h : (operands ev c (if upTo.isNull then [] else [upTo])).result m = .ok j.toList)
    (hnumbers : ∀ u ∈ j, u.payload.isNumber = true) :
    (upToOperand ev c upTo n).result m = .ok j ∧ (upToOperand ev c upTo n).final m =
      (operands ev c (if upTo.isNull then [] else [upTo])).final m := by
  rw [upToOperand]
  split at h
  · next hnull =>
    rw [if_pos hnull, if_pos hnull]
    cases j with
    | none => exact ⟨rfl, rfl⟩
    | some u => cases h
  · next hnull =>
    obtain ⟨u, _, hj, hu, -, hfinal⟩ := operands_cons_ok h
    rw [if_neg hnull, if_neg hnull, hfinal]
    cases j with
    | none => cases hj
    | some u =>
      cases hj
      obtain ⟨hr, hm⟩ := indexOperand_ok .upToNotNumber n hu (hnumbers u rfl)
      rw [Exec.result_bind, Exec.final_bind, hr]
      exact ⟨rfl, hm⟩

/-- What a reading by an index does behind its operands. -/
theorem ends_index {Q : Except Stop (Option Value) → Machine → Prop}
    (hread : (operands ev c (t :: indexes i upTo)).result m = .ok (v :: w :: j.toList))
    (hlist : v.payload = .list l) (hnumbers : ∀ u ∈ w :: j.toList, u.payload.isNumber = true)
    (h : (Exec.located n.span (Exec.access l w j) >>= fun u => pure (some u)).Ends
      ((operands ev c (t :: indexes i upTo)).final m) Q) :
    (index ev c t i upTo n).Ends m Q := by
  obtain ⟨_, _, hv, ht, hrest, hfinal⟩ := operands_cons_ok hread
  cases hv
  obtain ⟨_, _, hw, hi, hj, hfinal'⟩ := operands_cons_ok hrest
  cases hw
  obtain ⟨hi, hi'⟩ := indexOperand_ok .indexNotNumber n hi (hnumbers w List.mem_cons_self)
  obtain ⟨hj, hj'⟩ := upToOperand_ok (n := n) hj fun u hu =>
    hnumbers u (List.mem_cons_of_mem _ (Option.mem_toList.mpr hu))
  rw [hfinal, indexes, hfinal', ← hj', ← hi'] at h
  rw [← hi'] at hj
  rw [index, Exec.ends_bind_of_ok ht, Exec.ends_bind_of_ok hi, Exec.ends_bind_of_ok hj, hlist]
  exact h

/-- A call of a list with indexes reads it. -/
theorem callValue_list (hlist : v.payload = .list l) :
    callValue room ev v (w :: j.toList) = Exec.access l w j := by
  rw [callValue, hlist]
  cases j <;> rfl

/-- What a reading by a call does behind its operands: it asks for the text of the list first. -/
theorem ends_call {Q : Except Stop (Option Value) → Machine → Prop}
    (hread : (operands ev c (t :: indexes i upTo)).result m = .ok (v :: w :: j.toList))
    (hlist : v.payload = .list l)
    (hnone : let after := (operands ev c (t :: indexes i upTo)).final m
      after.store.obstacle? .written room v = none → ∀ message : Unit → String,
        (Exec.located n.span (Exec.access l w j) >>= fun u => resultAt u n).Ends
          (after.note 2 message) Q)
    (hsome : let after := (operands ev c (t :: indexes i upTo)).final m
      ∀ o, after.store.obstacle? .written room v = some o → Q (.error (.ofObstacle o)) after) :
    (call room ev c t (.list (indexes i upTo)) n).Ends m Q := by
  obtain ⟨_, _, hv, ht, hrest, hfinal⟩ := operands_cons_ok hread
  cases hv
  rw [hfinal] at hnone hsome
  rw [call, Exec.ends_bind_of_ok ht, Tree.items, Exec.ofDocument_ok, pure_bind,
    Exec.ends_bind_of_ok hrest, Exec.ends_bind]
  refine Exec.ends_noteValue_cases (fun h message => ?_) hsome
  dsimp only
  rw [callValue_list hlist]
  exact hnone h message

theorem operands_ok_of_le {least : Nat} {ts : List Tree} {vs : List Value} (hle : least ≤ room)
    (h : (operands (evaluate rounds least) c ts).result m = .ok vs) :
    (operands (evaluate rounds room) c ts).result m = .ok vs ∧
      (operands (evaluate rounds room) c ts).final m =
        (operands (evaluate rounds least) c ts).final m := by
  rcases operands_of_le rounds hle ts c m with hshort | ⟨hr, hm⟩
  · cases hshort.symm.trans h
  · exact ⟨hr.trans h, hm⟩

section

variable {s : Span}
  (hread : (operands (evaluate rounds room) c (t :: indexes i upTo)).result m =
    .ok (v :: w :: j.toList))
  (hlist : v.payload = .list l)
  (hnumbers : ∀ u ∈ w :: j.toList, u.payload.isNumber = true ∧ u.span.IsKnown)

include hread hlist hnumbers

/-- An index reads the list. -/
theorem ends_evaluate_index (hs : (Tree.node .index [t, i, upTo, q]).span = .ok s) :
    let after := (operands (evaluate rounds room) c (t :: indexes i upTo)).final m
    (evaluate rounds (room + 1) (.node .index [t, i, upTo, q]) c).Ends m fun r m' =>
      Exec.Agrees ((Exec.access l w j).result after) r ∧
        m' = (Exec.access l w j).final after := by
  intro after
  have haccess : Exec.Accesses after l w j _ _ := Exec.accesses_access fun u hu => (hnumbers u hu).2
  refine ends_index hread hlist (fun u hu => (hnumbers u hu).1) ?_
  rw [hs]
  exact Exec.agrees_located haccess ⟨rfl, rfl⟩ fun u _ => ⟨u.span, rfl⟩

/-- A call reads the list if it has a text. -/
theorem ends_evaluate_call
    (hs : (Tree.node .call [t, .list (indexes i upTo), q]).span = .ok s) :
    let after := (operands (evaluate rounds room) c (t :: indexes i upTo)).final m
    (∀ u ∈ after.store.elements l, u.payload ≠ .base) →
    (evaluate rounds (room + 1) (.node .call [t, .list (indexes i upTo), q]) c).Ends m fun r m' =>
      (after.store.obstacle? .written room v = none →
        Exec.Agrees ((Exec.access l w j).result after) r ∧
          { m' with trace := after.trace } = (Exec.access l w j).final after) ∧
      ∀ o, after.store.obstacle? .written room v = some o →
        r = .error (.ofObstacle o) ∧ m' = after := by
  intro after hcopies
  have haccess : Exec.Accesses after l w j _ _ := Exec.accesses_access fun u hu => (hnumbers u hu).2
  refine ends_call hread hlist (fun hnone message => ?_) fun o ho => ?_
  · rw [hs]
    have hnote : (Exec.access l w j).Ends (after.note 2 message) _ := Exec.access_note 2 message
    obtain ⟨hr, hm⟩ := hnote
    refine Exec.Ends.mono (Exec.agrees_located haccess ⟨hr, rfl⟩ fun u hu => ?_)
      fun r m' ⟨hagrees, hfinal⟩ => ⟨fun _ => ⟨hagrees, hfinal ▸ hm⟩, fun o ho => ?_⟩
    · exact ⟨s, resultAt_eq hs (haccess.ne_base hcopies hu)⟩
    · cases hnone.symm.trans ho
  · refine ⟨fun hnone => ?_, fun o' ho' => ?_⟩
    · cases hnone.symm.trans ho
    · cases ho'.symm.trans ho
      exact ⟨rfl, rfl⟩

end

open Relation in
/-- An index and a call with the index read the same of a list, and so do two indexes: what the
indexes take, or they are refused in the same words with nothing done. The call does so if there is
room for the text of the list, and otherwise it stops there. Some room is enough for every list that
has a text; no room is enough where a list is met that contains itself. An element is put where an
index reads one, and slices that meet are joined to a slice. -/
theorem evaluate_index_call {least : Nat} {q' : Tree} {s s' : Span}
    (hread : (operands (evaluate rounds least) c (t :: indexes i upTo)).result m =
      .ok (v :: w :: j.toList))
    (hlist : v.payload = .list l)
    (hnumbers : ∀ u ∈ w :: j.toList, u.payload.isNumber = true ∧ u.span.IsKnown)
    (hs : (Tree.node .index [t, i, upTo, q]).span = .ok s)
    (hs' : (Tree.node .call [t, .list (indexes i upTo), q']).span = .ok s') :
    let after := (operands (evaluate rounds least) c (t :: indexes i upTo)).final m
    let indexed (room : Nat) := evaluate rounds (room + 1) (.node .index [t, i, upTo, q]) c
    let called (room : Nat) :=
      evaluate rounds (room + 1) (.node .call [t, .list (indexes i upTo), q']) c
    let length := (after.store.elements l).size
    (∀ u ∈ after.store.elements l, u.payload ≠ .base) →
    (∃ r m', Exec.Accesses after l w j r m' ∧
      ((∃ u, r = .ok u) ↔ ∃ p q, w.Takes length j p q) ∧ ∀ room ≥ least,
        (Exec.Agrees r ((indexed room).result m) ∧ (indexed room).final m = m') ∧
        (after.store.obstacle? .written room v = none → Exec.Agrees r ((called room).result m) ∧
          { (called room).final m with trace := after.trace } = m') ∧
        ∀ o, after.store.obstacle? .written room v = some o →
          (called room).result m = .error (.ofObstacle o) ∧ (called room).final m = after) ∧
    (after.store.HasText l →
      ∃ enough, ∀ room ≥ enough, after.store.obstacle? .written room v = none) ∧
    (∀ l', ReflTransGen after.store.HasElement l l' → after.store.Contains l' l' →
      ∀ room, ∃ o, after.store.obstacle? .written room v = some o) ∧
    (∀ u, ((Exec.assign l w u).result after = .ok () ↔ ∃ p, w.Selects length p) ∧
      (Exec.assign l w u).result after =
        ((Exec.access l w none).result after).map fun _ => ()) ∧
    ∀ middle last p q q' r, w.Takes length (some middle) p q →
      middle.Takes length (some last) q' r →
      ∃ xs, (Exec.access l w (some last)).Ends after (Exec.GivesList xs) ∧
        (do
          let b ← Exec.access l middle (some last)
          let a ← Exec.access l w (some middle)
          Operator.add.apply a b).Ends after (Exec.GivesList xs) := by
  intro after indexed called length hcopies
  have hspans : ∀ u ∈ w :: j.toList, u.span.IsKnown := fun u hu => (hnumbers u hu).2
  have haccess : Exec.Accesses after l w j _ _ := Exec.accesses_access hspans
  refine ⟨⟨_, _, haccess, haccess.ok_iff, fun room hroom => ?_⟩, fun htext => ?_,
    fun l' hl hcycle room => Store.exists_obstacle_of_contains hlist hl hcycle,
    fun u => ⟨Exec.assign_ok_iff, Exec.result_assign⟩,
    fun middle last p q q' r h h' => ⟨_, Exec.ends_join_slices h h'⟩⟩
  · obtain ⟨hread', hafter⟩ := operands_ok_of_le hroom hread
    have hindex := ends_evaluate_index hread' hlist hnumbers hs
    have hcall := ends_evaluate_call hread' hlist hnumbers hs'
    rw [hafter] at hindex hcall
    obtain ⟨hnone, hsome⟩ := hcall hcopies
    exact ⟨hindex, hnone, hsome⟩
  · obtain ⟨enough, h⟩ := Filter.eventually_atTop.mp (htext.eventually .written)
    exact ⟨enough, fun room hroom => h room hroom v hlist⟩

/-- The first element of `[7, 8]` by a slice, and by a call with two indexes. -/
theorem evaluate_index_call_slice :
    let first : Position := ⟨"f", 1, 1, 0⟩
    let next : Position := ⟨"f", 1, 2, 1⟩
    let number (x : Float) : Node := .number ⟨.number, .float x, first, next⟩
    let t := Tree.ofNode (.list [number 7, number 8] first next)
    let i := Tree.ofNode (number 0)
    let upTo := Tree.ofNode (number 1)
    let q := Tree.ofPosition next
    let span := Span.make first next
    let v : Value := ⟨.list 0, span⟩
    let w : Value := ⟨.number 0, span⟩
    let j : Value := ⟨.number 1, span⟩
    let m := Machine.initial "" 0
    let after : Machine :=
      { m with store := m.store.addList #[⟨.number 7, span⟩, ⟨.number 8, span⟩] }
    let indexed (room : Nat) := evaluate 8 (room + 1) (.node .index [t, i, upTo, q]) Store.root
    let called (room : Nat) :=
      evaluate 8 (room + 1) (.node .call [t, .list [i, upTo], q]) Store.root
    ((operands (evaluate 8 4) Store.root [t, i, upTo]).result m = .ok [v, w, j] ∧
      after.store.HasText 0 ∧ w.Takes 2 (some j) 0 1) ∧
      ∃ r m' u, Exec.Accesses after 0 w (some j) r m' ∧ r = .ok u ∧
        ∃ enough, ∀ room ≥ enough,
          Exec.Agrees r ((indexed room).result m) ∧ Exec.Agrees r ((called room).result m) := by
  intro first next number t i upTo q span v w j m after indexed called
  have hread : (operands (evaluate 8 4) Store.root (t :: indexes i upTo)).result m =
    .ok (v :: w :: (some j).toList) := rfl
  have hnumbers : ∀ u ∈ w :: (some j).toList, u.payload.isNumber = true ∧ u.span.IsKnown := by
    intro u hu
    rcases List.mem_pair.mp hu with rfl | rfl <;> exact ⟨rfl, trivial, trivial⟩
  have helements (u : Value) (hu : u ∈ after.store.elements 0) :
      u = ⟨.number 7, span⟩ ∨ u = ⟨.number 8, span⟩ :=
    List.mem_pair.mp (Array.mem_toList_iff.mpr hu)
  have hcopies : ∀ u ∈ after.store.elements 0, u.payload ≠ .base := by
    intro u hu
    rcases helements u hu with rfl | rfl <;> exact nofun
  have htext : after.store.HasText 0 := by
    refine Store.hasText_of_plain fun u hu => ?_
    rcases helements u hu with rfl | rfl <;> exact ⟨nofun, rfl⟩
  have htakes : w.Takes 2 (some j) 0 1 :=
    .slice ⟨⟨0, rfl, by decide, by decide⟩, Nat.zero_lt_two⟩
      ⟨⟨1, rfl, by decide, by decide⟩, Nat.one_lt_succ_succ 1⟩ (Nat.zero_le 1)
  have hindex : (Tree.node .index [t, i, upTo, q]).span = .ok span := rfl
  have hcall : (Tree.node .call [t, .list (indexes i upTo), q]).span = .ok span := rfl
  obtain ⟨⟨r, m', haccess, hok, hrooms⟩, henough, -⟩ :=
    evaluate_index_call hread rfl hnumbers hindex hcall hcopies
  obtain ⟨enough, henough⟩ := henough htext
  obtain ⟨u, hu⟩ := hok.mpr ⟨0, 1, htakes⟩
  refine ⟨⟨hread, htext, htakes⟩, r, m', u, haccess, hu, max 4 enough, fun room hroom => ?_⟩
  obtain ⟨⟨hindexed, -⟩, hcalled, -⟩ := hrooms room (le_of_max_le_left hroom)
  exact ⟨hindexed, (hcalled (henough room (le_of_max_le_right hroom))).1⟩

open Relation in
/-- Not every list that does not contain itself is read by a call as it is by an index: no room is
enough where it holds one that does. -/
theorem not_forall_index_call :
    ¬ ∀ (rounds least : Nat) (c : ScopeId) (t i q : Tree) (m : Machine) (v w : Value) (l : ListId)
      (p : Nat) (s : Span),
      (operands (evaluate rounds least) c [t, i]).result m = .ok [v, w] → v.payload = .list l →
      let after := (operands (evaluate rounds least) c [t, i]).final m
      ¬ after.store.Contains l l → w.Selects (after.store.elements l).size p →
      (∀ u ∈ after.store.elements l, u.payload ≠ .base) → w.span.IsKnown →
      (Tree.node .call [t, .list [i], q]).span = .ok s →
      ∃ room u, (evaluate rounds (room + 1) (.node .call [t, .list [i], q]) c).result m =
        .ok (some u) := by
  intro h
  let first : Position := ⟨"f", 1, 1, 0⟩
  let next : Position := ⟨"f", 1, 2, 1⟩
  let name : Token := ⟨.identifier, .text "t", first, next⟩
  let span := Span.make first next
  let t := Tree.ofNode (.lookup name)
  let i := Tree.ofNode (.number ⟨.number, .float 0, first, next⟩)
  let q := Tree.ofPosition next
  -- The first list holds itself, the second one holds the first one.
  let self := Value.unplaced (.list 0)
  let store : Store := { Store.initial with lists := #[#[self], #[self]] }
  let m : Machine := { Machine.initial "" 0 with
    store := store.bind Store.root (.text "t") (Value.unplaced (.list 1)) }
  let v : Value := ⟨.list 1, span⟩
  let w : Value := ⟨.number 0, span⟩
  have hname : m.store.lookup Store.root (.text "t") = some (Value.unplaced (.list 1)) := by
    rw [Store.lookup]
    rfl
  have hlookup : (lookup Store.root (Tree.ofToken name) t).Ends m fun r m' =>
      r = .ok (some v) ∧ m' = m := ends_lookup rfl hname ⟨rfl, rfl⟩
  have hread : (operands (evaluate 8 1) Store.root [t, i]).Ends m fun r m' =>
      r = .ok [v, w] ∧ m' = m := by
    rw [operands, Exec.ends_bind, operand, Exec.ends_bind]
    refine Exec.Ends.mono (x := evaluate 8 1 t Store.root) hlookup ?_
    rintro _ _ ⟨rfl, rfl⟩
    exact ⟨rfl, rfl⟩
  obtain ⟨hread, hafter⟩ := hread
  have helement {k l' : ListId} (hk : m.store.HasElement k l') : l' = 0 := by
    have hlt : k < 2 := Store.lt_size_of_hasElement hk
    obtain ⟨x, hx, hl'⟩ := hk
    have hx : x = self := by
      rcases Nat.le_one_iff_eq_zero_or_eq_one.mp (Nat.le_of_lt_succ hlt) with rfl | rfl
      · exact Array.mem_singleton.mp hx
      · exact Array.mem_singleton.mp hx
    rw [hx] at hl'
    exact (Payload.list.inj hl').symm
  have hself : m.store.HasElement 0 0 := ⟨self, Array.mem_singleton_self _, rfl⟩
  have hholds : m.store.HasElement 1 0 := ⟨self, Array.mem_singleton_self _, rfl⟩
  have hcycle : ¬ m.store.Contains 1 1 := by
    intro hcontains
    obtain ⟨k, -, hk⟩ := TransGen.tail'_iff.mp hcontains
    cases helement hk
  have hcopies : ∀ u ∈ m.store.elements 1, u.payload ≠ .base := by
    intro u hu hbase
    obtain rfl := Array.mem_singleton.mp hu
    cases hbase
  have hnumbers : ∀ u ∈ w :: (none : Option Value).toList,
      u.payload.isNumber = true ∧ u.span.IsKnown := by
    intro u hu
    obtain rfl := List.mem_singleton.mp hu
    exact ⟨rfl, trivial, trivial⟩
  have hcalled := h 8 1 Store.root t i q m v w 1 0 span hread rfl
  rw [hafter] at hcalled
  obtain ⟨room, u, hok⟩ := hcalled hcycle ⟨⟨0, rfl, by decide, by decide⟩, Nat.zero_lt_one⟩
    hcopies ⟨trivial, trivial⟩ rfl
  -- Without room the operands do not get anywhere; with any room they do, but the text does not.
  cases room with
  | zero => cases hok
  | succ room =>
    obtain ⟨hr, hm⟩ := operands_ok_of_le (Nat.le_add_left 1 room) hread
    let read := operands (evaluate 8 (room + 1)) Store.root (t :: indexes i (.scalar .null))
    have hread : read.result m = .ok (v :: w :: (none : Option Value).toList) := hr
    have hafter : read.final m = m := hm.trans hafter
    have hobstacle : ∃ o, m.store.obstacle? .written (room + 1) v = some o :=
      Store.exists_obstacle_of_contains rfl (.single hholds) (.single hself)
    obtain ⟨o, ho⟩ := hobstacle
    have hspan : (Tree.node .call [t, .list (indexes i (.scalar .null)), q]).span = .ok span := rfl
    have hcall := ends_evaluate_call hread rfl hnumbers hspan
    rw [hafter] at hcall
    cases hok.symm.trans ((hcall hcopies).2 o ho).1

end Eval

end Lumen
