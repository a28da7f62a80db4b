import Lumen.Proofs.Tree.Depth
import Lumen.Tree.Node

/-!
# Documents read back

What is written to a document and read back is what it was before, where there is room to read it.
All that this needs of a tree is that every node in it has as many parts as its kind has fields, and
a tree that a program or a document gives has.
-/

namespace Lumen

namespace NodeKind

/-- The names of the fields tell them apart, from each other and from what marks an object. -/
theorem nodup_fields (k : NodeKind) : ("__type__" :: "type" :: k.fields).Nodup := by
  cases k <;> decide

end NodeKind

namespace Place

theorem ofJson_toJson (p : Place) : ofJson p.toJson = .ok p := rfl

theorem ofPosition_injective {p q : Position} (h : ofPosition p = ofPosition q) : p = q := by
  have hmark := congrArg toMark h
  rw [toMark_ofPosition, toMark_ofPosition] at hmark
  cases hmark
  rfl

end Place

namespace Tree

/-- Every node has a part for each field of its kind. -/
inductive Complete : Tree → Prop where
  | scalar (s : Scalar) : Complete (scalar s)
  | list {items : List Tree} : (∀ t ∈ items, Complete t) → Complete (list items)
  | position (place : Place) : Complete (position place)
  | token (kind : TokenKind) (value : Json) (start stop : Place) :
    Complete (token kind value start stop)
  | node {kind : NodeKind} {fields : List Tree} : fields.length = kind.fields.length →
    (∀ t ∈ fields, Complete t) → Complete (node kind fields)

variable {depth : Nat} {j : Json} {t : Tree} {ts : List Tree}

/-! ## Reading what was written -/

theorem nodeKind_name (k : NodeKind) : nodeKind (.text k.name) = .ok k := by
  cases k <;> rfl

theorem lookup_zip_eq_none {α : Type} {keys : List String} {key : String} (h : key ∉ keys)
    (values : List α) : (keys.zip values).lookup key = none := by
  induction keys generalizing values with
  | nil => rw [List.zip_nil_left, List.lookup_nil]
  | cons other keys ih =>
    rw [List.mem_cons, not_or] at h
    obtain _ | ⟨value, values⟩ := values
    · rw [List.zip_nil_right, List.lookup_nil]
    · rw [List.zip_cons_cons, List.lookup_cons, beq_false_of_ne h.1]
      exact ih h.2 values

/-- A field is found under its name behind others that have other names. -/
theorem lookup_append_zip {α : Type} {before : List (String × α)} {key : String}
    (h : before.lookup key = none) (keys : List String) (value : α) (values : List α) :
    (before ++ (key :: keys).zip (value :: values)).lookup key = some value := by
  rw [List.zip_cons_cons, List.lookup_append, h, List.lookup_cons_self, Option.none_or]

/-- The fields that were put under their names are read in their order. -/
theorem readFields_zip {read : Json → Except Fault Tree} (before : List (String × Json))
    {keys : List String} {values : List Json} (hlength : values.length = keys.length)
    (hkeys : keys.Nodup) (hbefore : ∀ key ∈ keys, before.lookup key = none) :
    readFields read (.object (before ++ keys.zip values)) keys = values.mapM read := by
  induction keys generalizing before values with
  | nil =>
    rw [List.length_eq_zero_iff.mp hlength]
    rfl
  | cons key keys ih =>
    obtain _ | ⟨value, values⟩ := values
    · cases hlength
    rw [List.nodup_cons] at hkeys
    rw [List.forall_mem_cons] at hbefore
    have hrest := ih (before ++ [(key, value)]) (Nat.succ.inj hlength) hkeys.2
      fun other hother => by
      have hne : (other == key) = false := beq_false_of_ne fun heq => hkeys.1 (heq ▸ hother)
      rw [List.lookup_append, hbefore.2 other hother, List.lookup_cons, hne]
      rfl
    rw [List.append_assoc, List.singleton_append] at hrest
    rw [readFields] at hrest
    rw [readFields, List.mapM_cons, List.mapM_cons, List.zip_cons_cons, hrest, Json.need,
      ← List.zip_cons_cons, lookup_append_zip hbefore.1]
    rfl

/-- The object that is written for a node is that of a node of its kind, whose fields are found in
their order. -/
theorem written_node {kind : NodeKind} (read : Json → Except Fault Tree)
    (hlength : ts.length = kind.fields.length) :
    let fields := ("type", Json.text kind.name) :: kind.fields.zip (toItems ts)
    IsNode fields ∧ marker fields "type" = .text kind.name ∧
      readFields read (.object fields) kind.fields = (toItems ts).mapM read := by
  intro fields
  obtain ⟨hmark, hkeys⟩ := List.nodup_cons.mp kind.nodup_fields
  obtain ⟨htype, hkeys⟩ := List.nodup_cons.mp hkeys
  rw [List.mem_cons, not_or] at hmark
  have hmarker : marker fields "__type__" = .null := by
    rw [marker, List.lookup_cons, beq_false_of_ne hmark.1, lookup_zip_eq_none hmark.2]
    rfl
  have hnode : IsNode fields := by
    rw [IsNode, IsPosition, IsToken, hmarker]
    exact ⟨nofun, nofun⟩
  have hitems : (toItems ts).length = kind.fields.length := by
    rw [toItems_eq_map, List.length_map, hlength]
  have hbefore : ∀ key ∈ kind.fields, [("type", Json.text kind.name)].lookup key = none := by
    intro key hkey
    have hne : key ≠ "type" := fun heq => htype (heq ▸ hkey)
    rw [List.lookup_cons, beq_false_of_ne hne, List.lookup_nil]
  exact ⟨hnode, rfl, readFields_zip [("type", .text kind.name)] hitems hkeys hbefore⟩

/-- What a document holds is read back as it was written, where there is room for its levels. -/
theorem ofJson_toJson (h : Complete t) (depth : Nat) :
    ofJson depth t.toJson =
      if t.levels ≤ depth then .ok t else .error .documentTooDeep := by
  induction depth generalizing t with
  | zero => rw [ofJson, if_neg (Nat.not_le_of_lt t.levels_pos)]
  | succ depth ih =>
    have hparts (ts : List Tree) (hts : ∀ t ∈ ts, Complete t) :
        (toItems ts).mapM (ofJson depth) =
          if levelsOfAll ts ≤ depth then .ok ts else .error .documentTooDeep := by
      have hread : ∀ t ∈ ts, (ofJson depth ∘ toJson) t =
          if t.levels ≤ depth then .ok (id t) else .error .documentTooDeep :=
        fun t ht => ih (hts t ht)
      rw [toItems_eq_map, List.mapM_map, mapM_ite hread, List.map_id]
      simp only [levelsOfAll_le]
    cases h with
    | scalar s | position place =>
      rw [levels, if_pos (Nat.succ_le_succ depth.zero_le)]
      rfl
    | token kind value start stop =>
      rw [levels, if_pos (Nat.succ_le_succ depth.zero_le)]
      cases kind <;> rfl
    | list hitems =>
      rw [toJson, ofJson, hparts _ hitems, levels]
      simp only [Nat.succ_le_succ_iff]
      split <;> rfl
    | @node kind fields hlength hfields =>
      obtain ⟨hnode, hname, hread⟩ := written_node (ofJson depth) hlength
      rw [toJson, ofJson_of_isNode hnode, hname, nodeKind_name, levels]
      change (readFields _ _ kind.fields >>= fun ts => _) = _
      rw [hread, hparts _ hfields]
      simp only [Nat.succ_le_succ_iff]
      split <;> rfl

/-! ## What is written -/

/-- A tree that is read with this room, or with any other that is enough for its levels. -/
structure IsReadWithin (depth : Nat) (j : Json) (t : Tree) : Prop where
  complete : Complete t
  levels_le : t.levels ≤ depth
  reads : ∀ d, t.levels ≤ d → ofJson d j = .ok t

/-- What has no parts takes no room but its own. -/
theorem IsReadWithin.of_levels (ht : Complete t) (hlevels : t.levels = 1)
    (h : ∀ d, ofJson (d + 1) j = .ok t) : IsReadWithin (depth + 1) j t := by
  refine ⟨ht, ?_, fun d hd => ?_⟩
  · rw [hlevels]
    exact Nat.succ_le_succ depth.zero_le
  · obtain _ | d := d
    · rw [hlevels] at hd
      exact (Nat.not_succ_le_zero _ hd).elim
    · exact h d

theorem IsReadWithin.list {items : List Json} (h : items.mapM (ofJson depth) = .ok ts)
    (hparts : ∀ i t, ofJson depth i = .ok t → IsReadWithin depth i t) :
    IsReadWithin (depth + 1) (.list items) (.list ts) := by
  have hcomplete := forall_mem_of_mapM h fun i t ht => (hparts i t ht).complete
  have hlevels := forall_mem_of_mapM h fun i t ht => (hparts i t ht).levels_le
  refine ⟨.list hcomplete, Nat.succ_le_succ (levelsOfAll_le.mpr hlevels), fun d hd => ?_⟩
  obtain _ | d := d
  · exact (Nat.not_succ_le_zero _ hd).elim
  have hroom := levelsOfAll_le.mp (Nat.le_of_succ_le_succ hd)
  have hread : items.mapM (ofJson d) = .ok ts :=
    mapM_ok_of_ok h fun i t ht hi => (hparts i t hi).reads d (hroom t ht)
  rw [ofJson, hread]
  rfl

theorem IsReadWithin.node {fields : List (String × Json)} {kind : NodeKind}
    (hnode : IsNode fields) (hkind : nodeKind (marker fields "type") = .ok kind)
    (h : readFields (ofJson depth) (.object fields) kind.fields = .ok ts)
    (hparts : ∀ i t, ofJson depth i = .ok t → IsReadWithin depth i t) :
    IsReadWithin (depth + 1) (.object fields) (.node kind ts) := by
  have hts : ∀ t ∈ ts, ∃ i, IsReadWithin depth i t := forall_mem_of_mapM h fun key t ht => by
    obtain ⟨i, -, hi⟩ := bind_eq_ok ht
    exact ⟨i, hparts i t hi⟩
  have hcomplete : ∀ t ∈ ts, Complete t := fun t ht => (hts t ht).elim fun _ hi => hi.complete
  have hlevels : ∀ t ∈ ts, t.levels ≤ depth := fun t ht => (hts t ht).elim fun _ hi => hi.levels_le
  refine ⟨.node (mapM_eq_ok.mp h).length_eq.symm hcomplete,
    Nat.succ_le_succ (levelsOfAll_le.mpr hlevels), fun d hd => ?_⟩
  obtain _ | d := d
  · exact (Nat.not_succ_le_zero _ hd).elim
  have hroom := levelsOfAll_le.mp (Nat.le_of_succ_le_succ hd)
  have hread : readFields (ofJson d) (.object fields) kind.fields = .ok ts := by
    refine mapM_ok_of_ok h fun key t ht hkey => ?_
    obtain ⟨i, hneed, hi⟩ := bind_eq_ok hkey
    rw [hneed]
    exact (hparts i t hi).reads d (hroom t ht)
  rw [ofJson_of_isNode hnode, hkind]
  change (readFields _ _ kind.fields >>= fun ts => _) = _
  rw [hread]
  rfl

theorem isReadWithin_of_ofJson (h : ofJson depth j = .ok t) : IsReadWithin depth j t := by
  induction depth generalizing j t with
  | zero =>
    rw [ofJson] at h
    cases h
  | succ depth ih =>
    cases j with
    | scalar s =>
      rw [ofJson] at h
      cases h
      exact .of_levels (.scalar s) rfl fun d => by rw [ofJson]
    | list items =>
      rw [ofJson] at h
      obtain ⟨ts, hitems, hlist⟩ := bind_eq_ok h
      cases hlist
      exact .list hitems fun i t hi => ih hi
    | object fields =>
      rcases isPosition_or fields with hposition | htoken | hnode
      · rw [ofJson_of_isPosition hposition] at h
        obtain ⟨value, -, hvalue⟩ := bind_eq_ok h
        obtain ⟨place, -, hplace⟩ := bind_eq_ok hvalue
        cases hplace
        exact .of_levels (.position place) rfl fun d => by rw [ofJson_of_isPosition hposition, h]
      · rw [ofJson_of_isToken htoken] at h
        obtain ⟨named, -, hnamed⟩ := bind_eq_ok h
        obtain ⟨kind, -, hkind⟩ := bind_eq_ok hnamed
        obtain ⟨value, -, hvalue⟩ := bind_eq_ok hkind
        obtain ⟨p, -, hp⟩ := bind_eq_ok hvalue
        obtain ⟨start, -, hstart⟩ := bind_eq_ok hp
        obtain ⟨q, -, hq⟩ := bind_eq_ok hstart
        obtain ⟨stop, -, hstop⟩ := bind_eq_ok hq
        cases hstop
        exact .of_levels (.token kind value start stop) rfl fun d => by
          rw [ofJson_of_isToken htoken, h]
      · rw [ofJson_of_isNode hnode] at h
        obtain ⟨kind, hkind, h⟩ := bind_eq_ok h
        obtain ⟨ts, hfields, h⟩ := bind_eq_ok h
        cases h
        exact .node hnode hkind hfields fun i t hi => ih hi

/-- What has been read with some room is read with any that is enough for its levels; with less the
document is too deep. -/
theorem ofJson_eq_of_ok (h : ofJson depth j = .ok t) (d : Nat) :
    ofJson d j = if t.levels ≤ d then .ok t else .error .documentTooDeep := by
  split
  · next hroom => exact (isReadWithin_of_ofJson h).reads d hroom
  · next hroom =>
    by_contra hdeep
    have hok : ofJson d j = .ok t := by
      rcases Nat.le_total d depth with hd | hd
      · exact (ofJson_of_le hdeep hd).symm.trans h
      · exact (ofJson_of_le (h ▸ ok_ne_error t) hd).trans h
    exact hroom (isReadWithin_of_ofJson hok).levels_le

/-! ## Programs -/

theorem complete_ofToken (t : Token) : Complete (ofToken t) := .token ..

theorem complete_ofPosition (p : Position) : Complete (ofPosition p) := .position _

theorem complete_cons (ht : Complete t) (hts : Complete (list ts)) : Complete (list (t :: ts)) := by
  rcases hts with _ | hts
  exact .list (List.forall_mem_cons.mpr ⟨ht, hts⟩)

theorem complete_nil : Complete (list []) := .list fun _ h => (List.not_mem_nil h).elim

theorem complete_name (name : Option Token) :
    Complete ((name.map ofToken).getD (scalar .null)) := by
  cases name with
  | none => exact .scalar .null
  | some t => exact complete_ofToken t

theorem complete_params (params : List Token) : Complete (list (params.map ofToken)) := by
  induction params with
  | nil => exact complete_nil
  | cons t params ih => exact complete_cons (complete_ofToken t) ih

mutual

/-- The parts of a node are the fields of its kind. -/
theorem complete_ofNode (e : Node) : Complete (ofNode e) := by
  cases e <;> rw [ofNode] <;> refine .node rfl ?_ <;>
    simp only [List.forall_mem_cons, List.not_mem_nil, false_implies, implies_true, and_true,
      complete_ofToken, complete_ofPosition, complete_name, complete_params, Complete.scalar,
      complete_ofNode, complete_ofNodes, complete_ofOption, complete_ofCases]

theorem complete_ofNodes (es : List Node) : Complete (list (ofNodes es)) := by
  cases es with
  | nil => exact complete_nil
  | cons e es => exact complete_cons (complete_ofNode e) (complete_ofNodes es)

theorem complete_ofOption (e : Option Node) : Complete (ofOption e) := by
  cases e with
  | none => exact .scalar .null
  | some e => exact complete_ofNode e

theorem complete_ofCases (cases : List (Node × Node)) : Complete (list (ofCases cases)) := by
  cases cases with
  | nil => exact complete_nil
  | cons c cases =>
    obtain ⟨condition, body⟩ := c
    refine complete_cons (.node rfl ?_) (complete_ofCases cases)
    exact List.forall_mem_cons.mpr ⟨complete_ofNode condition,
      List.forall_mem_singleton.mpr (complete_ofNode body)⟩

end

theorem ofPosition_inj {p q : Position} : ofPosition p = ofPosition q ↔ p = q :=
  ⟨fun h => Place.ofPosition_injective (position.inj h), congrArg _⟩

theorem ofToken_inj {t u : Token} : ofToken t = ofToken u ↔ t = u := by
  refine ⟨fun h => ?_, congrArg _⟩
  obtain ⟨hkind, hvalue, hstart, hstop⟩ := token.inj h
  obtain ⟨kind, value, start, stop⟩ := t
  obtain rfl := hkind
  cases Json.scalar.inj hvalue
  cases Place.ofPosition_injective hstart
  cases Place.ofPosition_injective hstop
  rfl

theorem map_ofToken_inj {ts us : List Token} : ts.map ofToken = us.map ofToken ↔ ts = us :=
  List.map_inj_right fun _ _ => ofToken_inj.mp

theorem name_inj {name name' : Option Token} :
    (name.map ofToken).getD (scalar .null) = (name'.map ofToken).getD (scalar .null) ↔
      name = name' := by
  cases name <;> cases name'
  case some.some => exact ofToken_inj.trans (Option.some.injEq ..).symm.to_iff
  all_goals simp only [Option.map_some, Option.map_none, Option.getD_some, Option.getD_none,
    ofToken, reduceCtorEq]

mutual

/-- Different programs have different documents. -/
theorem ofNode_inj (e : Node) : ∀ e', ofNode e = ofNode e' ↔ e = e' := by
  intro e'
  cases e <;> cases e' <;>
    simp only [ofNode, node.injEq, reduceCtorEq, false_and, List.cons.injEq, and_true, true_and,
      list.injEq, scalar.injEq, Scalar.bool.injEq, Node.number.injEq, Node.text.injEq,
      Node.null.injEq, Node.list.injEq, Node.block.injEq, Node.ternary.injEq, Node.binary.injEq,
      Node.unary.injEq, Node.lookup.injEq, Node.assign.injEq, Node.index.injEq,
      Node.assignIndex.injEq, Node.conditional.injEq, Node.forLoop.injEq, Node.eachLoop.injEq,
      Node.whileLoop.injEq, Node.breakLoop.injEq, Node.continueLoop.injEq, Node.function.injEq,
      Node.call.injEq, Node.giveBack.injEq, ofToken_inj, ofPosition_inj, map_ofToken_inj, name_inj,
      ofNode_inj, ofNodes_inj, ofOption_inj, ofCases_inj]
termination_by structural e

theorem ofNodes_inj (es : List Node) : ∀ es', ofNodes es = ofNodes es' ↔ es = es' := by
  intro es'
  cases es <;> cases es' <;>
    simp only [ofNodes, reduceCtorEq, List.cons.injEq, ofNode_inj, ofNodes_inj]
termination_by structural es

theorem ofOption_inj (e : Option Node) : ∀ e', ofOption e = ofOption e' ↔ e = e' := by
  intro e'
  cases e with
  | none =>
    cases e' with
    | none => simp only
    | some e' => cases e' <;> simp only [ofOption, ofNode, reduceCtorEq]
  | some e =>
    cases e' with
    | none => cases e <;> simp only [ofOption, ofNode, reduceCtorEq]
    | some e' => rw [ofOption, ofOption, ofNode_inj, Option.some.injEq]
termination_by structural e

theorem ofCases_inj (cases : List (Node × Node)) :
    ∀ cases', ofCases cases = ofCases cases' ↔ cases = cases' := by
  intro cases'
  cases cases with
  | nil =>
    cases cases' with
    | nil => simp only
    | cons c' cases' => simp only [ofCases, reduceCtorEq]
  | cons c cases =>
    obtain ⟨condition, body⟩ := c
    cases cases' with
    | nil => simp only [ofCases, reduceCtorEq]
    | cons c' cases' =>
      obtain ⟨condition', body'⟩ := c'
      simp only [ofCases, List.cons.injEq, node.injEq, true_and, and_true, Prod.mk.injEq,
        ofNode_inj, ofCases_inj]
termination_by structural cases

end

end Tree

end Lumen
