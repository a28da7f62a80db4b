import Lumen.Proofs.Tree.Judged
import Lumen.Proofs.Tree.RoundTrip

/-!
# Which documents are accepted

A program document is accepted exactly if every object in it is a position, a token or a node with
all its fields. Everything else is refused for the first thing that is wrong with it, in the order
in which the fields of an object are read, each with all that it holds. Beside this shape nothing
matters: two documents that differ only in what is not read are read alike.
-/

namespace Lumen

namespace TokenKind

def names : List String := all.map name

theorem isSome_ofName? (s : String) : (ofName? s).isSome ↔ s ∈ names := by
  rw [ofName?, List.find?_isSome, names, List.mem_map]
  simp only [beq_iff_eq]

end TokenKind

namespace NodeKind

def names : List String := all.map name

theorem ofName?_eq_some {s : String} {kind : NodeKind} : ofName? s = some kind ↔ kind.name = s := by
  refine ⟨fun h => eq_of_beq (List.find?_some (p := fun k : NodeKind => k.name == s) h), ?_⟩
  rintro rfl
  exact ofName?_name kind

theorem isSome_ofName? (s : String) : (ofName? s).isSome ↔ s ∈ names := by
  rw [ofName?, List.find?_isSome, names, List.mem_map]
  simp only [beq_iff_eq]

/-- A name is that of one kind. -/
theorem eq_of_names {j : Json} {kind other : NodeKind} (h : j = .text kind.name)
    (h' : j = .text other.name) : kind = other := by
  have hname : kind.name = other.name := Scalar.text.inj (Json.scalar.inj (h.symm.trans h'))
  have hfound := ofName?_name kind
  rw [hname, ofName?_name other] at hfound
  exact (Option.some.inj hfound).symm

end NodeKind

namespace Tree

def tokenKeys : List String := ["kind", "value", "pos_start", "pos_end"]

def TokenField : String → Json → Prop
  | "kind", j => Names TokenKind.names j
  | "value", _ => True
  | _, j => Place.Accepted j

def TokenFault : String → Json → Fault → Prop
  | "kind", j, f => Misnames TokenKind.names (fun s => .unknownTokenKind s.displayQuoted) j f
  | "value", _, _ => False
  | _, j, f => Place.Violates j f

/-- The shape of program documents. -/
inductive Accepted : Json → Prop where
  | scalar (s : Scalar) : Accepted (.scalar s)
  | list {items : List Json} : (∀ j ∈ items, Accepted j) → Accepted (.list items)
  | position {fields : List (String × Json)} : IsPosition fields →
    Meets (fun _ => Place.Accepted) fields ["value"] → Accepted (.object fields)
  | token {fields : List (String × Json)} : IsToken fields → Meets TokenField fields tokenKeys →
    Accepted (.object fields)
  | node {fields : List (String × Json)} (kind : NodeKind) : IsNode fields →
    marker fields "type" = .text kind.name → Meets Json.Any fields kind.fields →
    (∀ key ∈ kind.fields, ∀ j, fields.lookup key = some j → Accepted j) →
    Accepted (.object fields)

/-- The first thing that is wrong with a document, in the order in which it is read. -/
inductive Violates : Json → Fault → Prop where
  | item {before behind : List Json} {j : Json} {f : Fault} : (∀ i ∈ before, Accepted i) →
    Violates j f → Violates (.list (before ++ j :: behind)) f
  | position {fields : List (String × Json)} {f : Fault} : IsPosition fields →
    Fails (fun _ => Place.Accepted) (fun _ => Place.Violates) fields ["value"] f →
    Violates (.object fields) f
  | token {fields : List (String × Json)} {f : Fault} : IsToken fields →
    Fails TokenField TokenFault fields tokenKeys f → Violates (.object fields) f
  | type {fields : List (String × Json)} {f : Fault} : IsNode fields →
    Misnames NodeKind.names (fun s => .unknownNode s.display) (marker fields "type") f →
    Violates (.object fields) f
  | missing {fields : List (String × Json)} {kind : NodeKind} {before behind : List String}
      {key : String} :
    IsNode fields → marker fields "type" = .text kind.name → kind.fields = before ++ key :: behind →
    Meets (fun _ => Accepted) fields before → fields.lookup key = none →
    Violates (.object fields) (.missingField key)
  | field {fields : List (String × Json)} {kind : NodeKind} {before behind : List String}
      {key : String} {j : Json} {f : Fault} :
    IsNode fields → marker fields "type" = .text kind.name → kind.fields = before ++ key :: behind →
    Meets (fun _ => Accepted) fields before → fields.lookup key = some j → Violates j f →
    Violates (.object fields) f

variable {fields : List (String × Json)} {depth : Nat} {j : Json}

theorem judged_tokenKind (j : Json) : Judged (tokenKind j) (Names TokenKind.names j)
    (Misnames TokenKind.names (fun s => .unknownTokenKind s.displayQuoted) j) := by
  refine judged_name TokenKind.isSome_ofName? (fun s => ?_) (fun j h => ?_) j
  · rw [tokenKind]
    cases s.text?.bind TokenKind.ofName? <;> rfl
  · cases j with
    | scalar s => exact (h s rfl).elim
    | _ => rfl

theorem judged_nodeKind (j : Json) : Judged (nodeKind j) (Names NodeKind.names j)
    (Misnames NodeKind.names (fun s => .unknownNode s.display) j) := by
  refine judged_name NodeKind.isSome_ofName? (fun s => ?_) (fun j h => ?_) j
  · rw [nodeKind]
    cases s.text?.bind NodeKind.ofName? <;> rfl
  · cases j with
    | scalar s => exact (h s rfl).elim
    | _ => rfl

theorem judged_tokenOfJson (fields : List (String × Json)) : Judged (tokenOfJson fields)
    (Meets TokenField fields tokenKeys) (Fails TokenField TokenFault fields tokenKeys) :=
  judged_fields (fun j _ => judged_tokenKind j) fun _ =>
  judged_fields_of_any (fun _ => trivial) (fun _ _ => id) fun _ =>
  judged_fields (fun j _ => Place.judged_ofJson j) fun _ =>
  judged_fields (fun j _ => Place.judged_ofJson j) fun _ => judged_no_fields _

/-! ## The whole document -/

theorem nodeKind_eq_ok {j : Json} {kind : NodeKind} :
    nodeKind j = .ok kind ↔ j = .text kind.name := by
  constructor
  · intro h
    unfold nodeKind at h
    split at h
    · next s =>
      split at h
      · next k hk =>
        cases h
        cases s with
        | text name => rw [NodeKind.ofName?_eq_some.mp hk, Json.text]
        | _ => cases hk
      · cases h
    · cases h
  · rintro rfl
    exact nodeKind_name kind

theorem IsPosition.not_isToken (h : IsPosition fields) : ¬ IsToken fields := by
  intro htoken
  have hmarker := Eq.trans (Eq.symm h) htoken
  simp [Json.text] at hmarker

theorem judged_position (h : IsPosition fields) : Judged (ofJson (depth + 1) (.object fields))
    (Accepted (.object fields)) (Violates (.object fields)) := by
  rw [ofJson_of_isPosition h]
  have hfields : Judged ((Json.object fields).need "value" >>= fun j =>
        Place.ofJson j >>= fun p => .ok (position p))
      (Meets (fun _ => Place.Accepted) fields ["value"])
      (Fails (fun _ => Place.Accepted) (fun _ => Place.Violates) fields ["value"]) :=
    judged_fields (fun j _ => Place.judged_ofJson j) fun p => judged_no_fields (position p)
  refine hfields.congr ⟨.position h, fun haccepted => ?_⟩ fun f =>
    ⟨.position h, fun hviolates => ?_⟩
  · cases haccepted with
    | position _ hmeets => exact hmeets
    | token htoken => exact (h.not_isToken htoken).elim
    | node _ hnode => exact (hnode.1 h).elim
  · cases hviolates with
    | position _ hfails => exact hfails
    | token htoken => exact (h.not_isToken htoken).elim
    | type hnode | missing hnode | field hnode => exact (hnode.1 h).elim

theorem judged_token (h : IsToken fields) : Judged (ofJson (depth + 1) (.object fields))
    (Accepted (.object fields)) (Violates (.object fields)) := by
  rw [ofJson_of_isToken h]
  refine (judged_tokenOfJson fields).congr ⟨.token h, fun haccepted => ?_⟩ fun f =>
    ⟨.token h, fun hviolates => ?_⟩
  · cases haccepted with
    | position hposition => exact (hposition.not_isToken h).elim
    | token _ hmeets => exact hmeets
    | node _ hnode => exact (hnode.2 h).elim
  · cases hviolates with
    | position hposition => exact (hposition.not_isToken h).elim
    | token _ hfails => exact hfails
    | type hnode | missing hnode | field hnode => exact (hnode.2 h).elim

/-- Where the kind of a node is known, its fields say whether it is accepted. -/
theorem accepted_node_iff {kind : NodeKind} (h : IsNode fields)
    (hkind : marker fields "type" = .text kind.name) :
    Accepted (.object fields) ↔ Meets (fun _ => Accepted) fields kind.fields := by
  constructor
  · intro haccepted
    cases haccepted with
    | position hposition => exact (h.1 hposition).elim
    | token htoken => exact (h.2 htoken).elim
    | node other _ hother hpresent hchildren =>
      cases NodeKind.eq_of_names hother hkind
      intro key hkey
      obtain ⟨j, hj, -⟩ := hpresent key hkey
      exact ⟨j, hj, hchildren key hkey j hj⟩
  · intro hmeets
    refine .node kind h hkind (fun key hkey => ?_) fun key hkey j hj => ?_
    · obtain ⟨j, hj, -⟩ := hmeets key hkey
      exact ⟨j, hj, trivial⟩
    · obtain ⟨j', hj', haccepted⟩ := hmeets key hkey
      cases hj.symm.trans hj'
      exact haccepted

theorem violates_node_iff {kind : NodeKind} {f : Fault} (h : IsNode fields)
    (hkind : marker fields "type" = .text kind.name) : Violates (.object fields) f ↔
      Fails (fun _ => Accepted) (fun _ => Violates) fields kind.fields f := by
  constructor
  · intro hviolates
    cases hviolates with
    | position hposition => exact (h.1 hposition).elim
    | token htoken => exact (h.2 htoken).elim
    | type _ hname =>
      have hknown := (judged_nodeKind (marker fields "type")).error_iff f
      rw [nodeKind_eq_ok.mpr hkind] at hknown
      cases hknown.mpr hname
    | missing _ hother hkeys hbefore hlookup =>
      cases NodeKind.eq_of_names hother hkind
      exact ⟨_, _, _, hkeys, hbefore, .inl ⟨hlookup, rfl⟩⟩
    | field _ hother hkeys hbefore hlookup hfault =>
      cases NodeKind.eq_of_names hother hkind
      exact ⟨_, _, _, hkeys, hbefore, .inr ⟨_, hlookup, hfault⟩⟩
  · rintro ⟨before, key, behind, hkeys, hbefore, ⟨hlookup, rfl⟩ | ⟨j, hlookup, hfault⟩⟩
    · exact .missing h hkind hkeys hbefore hlookup
    · exact .field h hkind hkeys hbefore hlookup hfault

/-- The fields of a node are judged one after another, if there is room for them. -/
theorem judged_readFields {read : Json → Except Fault Tree} {keys : List String}
    (hread : ∀ j, read j ≠ .error .documentTooDeep → Judged (read j) (Accepted j) (Violates j))
    (h : readFields read (.object fields) keys ≠ .error .documentTooDeep) :
    Judged (readFields read (.object fields) keys) (Meets (fun _ => Accepted) fields keys)
      (Fails (fun _ => Accepted) (fun _ => Violates) fields keys) := by
  refine .mapM (fun key _ hkey => ?_) h
  have hjudged (j : Json) (hj : fields.lookup key = some j) :
      Judged (read j) (Accepted j) (Violates j) := by
    refine hread j fun hdeep => hkey ?_
    rw [Json.need, hj]
    exact hdeep
  exact judged_need hjudged

theorem judged_node (h : IsNode fields)
    (hchild : ∀ j, ofJson depth j ≠ .error .documentTooDeep →
      Judged (ofJson depth j) (Accepted j) (Violates j))
    (hroom : ofJson (depth + 1) (.object fields) ≠ .error .documentTooDeep) :
    Judged (ofJson (depth + 1) (.object fields)) (Accepted (.object fields))
      (Violates (.object fields)) := by
  rw [ofJson_of_isNode h] at hroom ⊢
  have hname := judged_nodeKind (marker fields "type")
  cases hkind : nodeKind (marker fields "type") with
  | ok kind =>
    rw [hkind] at hroom
    have hfields : readFields (ofJson depth) (.object fields) kind.fields ≠
        .error .documentTooDeep := by
      intro hdeep
      refine hroom ?_
      change readFields _ _ kind.fields >>= _ = _
      rw [hdeep]
      rfl
    rw [nodeKind_eq_ok] at hkind
    exact ((judged_readFields hchild hfields).map _).congr (accepted_node_iff h hkind).symm
      fun f => (violates_node_iff h hkind).symm
  | error e =>
    rw [hkind] at hname
    have hnone {kind : NodeKind} : marker fields "type" ≠ .text kind.name := fun hmarker => by
      rw [nodeKind_eq_ok.mpr hmarker] at hkind
      cases hkind
    refine .error (fun haccepted => ?_) fun f => ?_
    · cases haccepted with
      | position hposition => exact (h.1 hposition).elim
      | token htoken => exact (h.2 htoken).elim
      | node kind _ hmarker => exact hnone hmarker
    · rw [← Except.error.injEq (α := NodeKind), hname.error_iff]
      refine ⟨fun hviolates => ?_, .type h⟩
      cases hviolates with
      | position hposition => exact (h.1 hposition).elim
      | token htoken => exact (h.2 htoken).elim
      | type _ hname => exact hname
      | missing _ hmarker | field _ hmarker => exact (hnone hmarker).elim

/-- A list is read item by item. -/
theorem judged_list {items : List Json}
    (hitem : ∀ j, ofJson depth j ≠ .error .documentTooDeep →
      Judged (ofJson depth j) (Accepted j) (Violates j))
    (hroom : ofJson (depth + 1) (.list items) ≠ .error .documentTooDeep) :
    Judged (ofJson (depth + 1) (.list items)) (Accepted (.list items))
      (Violates (.list items)) := by
  rw [ofJson] at hroom ⊢
  have hitems : items.mapM (ofJson depth) ≠ .error .documentTooDeep := fun hdeep =>
    hroom (by rw [hdeep]; rfl)
  refine ((Judged.mapM (fun j _ => hitem j) hitems).map list).congr
    ⟨.list, fun haccepted => ?_⟩ fun f => ⟨?_, fun hviolates => ?_⟩
  · cases haccepted with
    | list h => exact h
  · rintro ⟨before, j, behind, rfl, hbefore, hfault⟩
    exact .item hbefore hfault
  · cases hviolates with
    | item hbefore hfault => exact ⟨_, _, _, rfl, hbefore, hfault⟩

/-- A document is judged by its shape, unless there was no room to read it. -/
theorem judged_ofJson (h : ofJson depth j ≠ .error .documentTooDeep) :
    Judged (ofJson depth j) (Accepted j) (Violates j) := by
  induction depth generalizing j with
  | zero => exact (h (by rw [ofJson])).elim
  | succ depth ih =>
    cases j with
    | scalar s =>
      rw [ofJson]
      exact .ok (.scalar s) fun _ hviolates => by cases hviolates
    | list items => exact judged_list (fun i hi => ih hi) h
    | object fields =>
      rcases isPosition_or fields with hposition | htoken | hnode
      · exact judged_position hposition
      · exact judged_token htoken
      · exact judged_node hnode (fun i hi => ih hi) h

/-! ## Room for a document -/

theorem not_fails_any {keys : List String} :
    ¬ Fails Json.Any Json.NoFault fields keys .documentTooDeep := by
  rintro ⟨_, _, _, _, _, ⟨_, h⟩ | ⟨_, _, h⟩⟩
  · cases h
  · exact h

theorem not_violates_place : ¬ Place.Violates j .documentTooDeep := by
  rintro (_ | h)
  exact not_fails_any h

theorem exists_unknown_of_misnames {names : List String} {unknown : Scalar → Fault}
    (h : Misnames names unknown j .documentTooDeep) : ∃ s, unknown s = .documentTooDeep := by
  generalize hf : Fault.documentTooDeep = f at h
  cases h with
  | unknown => exact ⟨_, rfl⟩
  | notAName => cases hf

/-- Want of room is nothing that is wrong with a document. -/
theorem not_violates : ¬ Violates j .documentTooDeep := by
  generalize hf : Fault.documentTooDeep = f
  intro h
  induction h with
  | item _ _ ih => exact ih hf
  | position _ h =>
    subst hf
    obtain ⟨_, _, _, _, _, ⟨_, h⟩ | ⟨_, _, h⟩⟩ := h
    · cases h
    · exact not_violates_place h
  | token _ h =>
    subst hf
    obtain ⟨_, key, _, hkeys, _, ⟨_, h⟩ | ⟨_, _, h⟩⟩ := h
    · cases h
    · unfold TokenFault at h
      split at h
      · obtain ⟨_, ⟨⟩⟩ := exists_unknown_of_misnames h
      · exact h
      · exact not_violates_place h
  | type _ h =>
    subst hf
    obtain ⟨_, ⟨⟩⟩ := exists_unknown_of_misnames h
  | missing => cases hf
  | field _ _ _ _ _ _ ih => exact ih hf

/-- A document is not too deep where there is room for its levels. -/
theorem ofJson_ne_of_levels_le (h : j.levels ≤ depth) :
    ofJson depth j ≠ .error .documentTooDeep := by
  induction depth generalizing j with
  | zero => cases j <;> exact (Nat.not_succ_le_zero _ h).elim
  | succ depth ih =>
    cases j with
    | scalar s =>
      rw [ofJson]
      exact ok_ne_error (scalar s)
    | list items =>
      have hroom := Nat.le_of_succ_le_succ h
      rw [ofJson]
      refine bind_ne (mapM_ne fun i hi => ih ?_) fun ts => ok_ne_error (list ts)
      exact Nat.le_trans (Json.levels_le_levelsOfItems i hi) hroom
    | object fields =>
      have hroom := Nat.le_of_succ_le_succ h
      rcases isPosition_or fields with hposition | htoken | hnode
      · exact fun hdeep => not_violates (((judged_position hposition).error_iff _).mp hdeep)
      · exact fun hdeep => not_violates (((judged_token htoken).error_iff _).mp hdeep)
      rw [ofJson_of_isNode hnode]
      refine bind_ne (fun hdeep => ?_) fun kind =>
        bind_ne (mapM_ne fun key _ => ?_) fun ts => ok_ne_error (node kind ts)
      · obtain ⟨_, ⟨⟩⟩ := exists_unknown_of_misnames (((judged_nodeKind _).error_iff _).mp hdeep)
      · rw [Json.need]
        cases hlookup : fields.lookup key with
        | none =>
          rintro ⟨⟩
        | some i => exact ih (Nat.le_trans (Json.levels_le_levelsOfFields hlookup) hroom)

/-! ## What is not read -/

/-- Two documents that have the same keys of a place, or are the same. -/
inductive SamePlace : Json → Json → Prop where
  | same (j : Json) : SamePlace j j
  | object {fields fields' : List (String × Json)} :
    (∀ key ∈ Place.keys, fields.lookup key = fields'.lookup key) →
    SamePlace (.object fields) (.object fields')

/-- Two documents that differ in nothing but what is not read: the order of the fields of an object
and the fields that its shape does not ask for. -/
inductive Same : Json → Json → Prop where
  | same (j : Json) : Same j j
  | list {items items' : List Json} : items.length = items'.length →
    (∀ (i : Nat) (h : i < items.length) (h' : i < items'.length), Same items[i] items'[i]) →
    Same (.list items) (.list items')
  | position {fields fields' : List (String × Json)} : IsPosition fields → IsPosition fields' →
    Option.Rel SamePlace (fields.lookup "value") (fields'.lookup "value") →
    Same (.object fields) (.object fields')
  | token {fields fields' : List (String × Json)} : IsToken fields → IsToken fields' →
    fields.lookup "kind" = fields'.lookup "kind" → fields.lookup "value" = fields'.lookup "value" →
    Option.Rel SamePlace (fields.lookup "pos_start") (fields'.lookup "pos_start") →
    Option.Rel SamePlace (fields.lookup "pos_end") (fields'.lookup "pos_end") →
    Same (.object fields) (.object fields')
  | node {fields fields' : List (String × Json)} : IsNode fields → IsNode fields' →
    marker fields "type" = marker fields' "type" →
    (∀ kind : NodeKind, marker fields "type" = .text kind.name → ∀ key ∈ kind.fields,
      (fields.lookup key).isSome = (fields'.lookup key).isSome) →
    (∀ kind : NodeKind, marker fields "type" = .text kind.name → ∀ key ∈ kind.fields, ∀ j j',
      fields.lookup key = some j → fields'.lookup key = some j' → Same j j') →
    Same (.object fields) (.object fields')

theorem need_congr {fields fields' : List (String × Json)} {key : String}
    (h : fields.lookup key = fields'.lookup key) :
    (Json.object fields).need key = (Json.object fields').need key := by
  rw [Json.need, Json.need, h]

theorem SamePlace.ofJson_eq {j j' : Json} (h : SamePlace j j') :
    Place.ofJson j = Place.ofJson j' := by
  cases h with
  | same => rfl
  | object hkeys =>
    simp only [Place.keys, List.forall_mem_cons] at hkeys
    obtain ⟨hfile, hline, hcol, hindex, -⟩ := hkeys
    rw [Place.ofJson, Place.ofJson, need_congr hfile, need_congr hline, need_congr hcol,
      need_congr hindex]

/-- A field that holds a place is read alike. -/
theorem need_place_congr {fields fields' : List (String × Json)} {key : String} {α : Type}
    {k : Place → Except Fault α}
    (h : Option.Rel SamePlace (fields.lookup key) (fields'.lookup key)) :
    ((Json.object fields).need key >>= fun j => Place.ofJson j >>= k) =
      (Json.object fields').need key >>= fun j => Place.ofJson j >>= k := by
  rw [Json.need, Json.need]
  generalize fields.lookup key = o, fields'.lookup key = o' at h
  cases h with
  | none => rfl
  | some hplace => exact congrArg (· >>= k) hplace.ofJson_eq

theorem mapM_congr {α β : Type} {f g : α → Except Fault β} {as : List α}
    (h : ∀ a ∈ as, f a = g a) : as.mapM f = as.mapM g := by
  induction as with
  | nil => rfl
  | cons a as ih =>
    obtain ⟨ha, has⟩ := List.forall_mem_cons.mp h
    rw [List.mapM_cons, List.mapM_cons, ha, ih has]

theorem mapM_eq_of_getElem {items items' : List Json} (hlength : items.length = items'.length)
    (h : ∀ (i : Nat) (h : i < items.length) (h' : i < items'.length),
      ofJson depth items[i] = ofJson depth items'[i]) :
    items.mapM (ofJson depth) = items'.mapM (ofJson depth) := by
  have heq : items.map (ofJson depth) = items'.map (ofJson depth) := by
    refine List.ext_getElem (by simpa using hlength) fun i h₁ h₂ => ?_
    rw [List.getElem_map, List.getElem_map]
    exact h i _ _
  have hmap (items : List Json) :
      items.mapM (ofJson depth) = (items.map (ofJson depth)).mapM id := by
    rw [List.mapM_map]
    rfl
  rw [hmap, hmap, heq]

/-- What differs in nothing but what is not read is read alike, with any room. -/
theorem Same.ofJson_eq {j j' : Json} (h : Same j j') (depth : Nat) :
    ofJson depth j = ofJson depth j' := by
  induction h generalizing depth with
  | same => rfl
  | @list items items' hlength _ ih =>
    obtain _ | depth := depth
    · rw [ofJson, ofJson]
    · rw [ofJson, ofJson, mapM_eq_of_getElem hlength fun i h h' => ih i h h' depth]
  | position h h' hplace =>
    obtain _ | depth := depth
    · rw [ofJson, ofJson]
    · rw [ofJson_of_isPosition h, ofJson_of_isPosition h']
      exact need_place_congr hplace
  | token h h' hkind hvalue hstart hstop =>
    obtain _ | depth := depth
    · rw [ofJson, ofJson]
    · rw [ofJson_of_isToken h, ofJson_of_isToken h']
      unfold tokenOfJson
      dsimp only
      rw [need_congr hkind, need_congr hvalue]
      refine bind_congr fun _ => bind_congr fun kind => bind_congr fun value => ?_
      rw [need_place_congr hstart]
      exact bind_congr fun _ => bind_congr fun start => need_place_congr hstop
  | @node fields fields' h h' htype hpresent _ ih =>
    obtain _ | depth := depth
    · rw [ofJson, ofJson]
    rw [ofJson_of_isNode h, ofJson_of_isNode h', ← htype]
    cases hkind : nodeKind (marker fields "type") with
    | error e => rfl
    | ok kind =>
      rw [nodeKind_eq_ok] at hkind
      refine congrArg (· >>= fun ts => Except.ok (Tree.node kind ts))
        (mapM_congr fun key hkey => ?_)
      rw [Json.need, Json.need]
      have hsome := hpresent kind hkind key hkey
      cases hlookup : fields.lookup key with
      | none =>
        rw [hlookup, Option.isSome_none] at hsome
        have hnone : fields'.lookup key = none :=
          Option.isNone_iff_eq_none.mp (Option.isSome_eq_false_iff.mp hsome.symm)
        rw [hnone]
      | some j =>
        rw [hlookup, Option.isSome_some] at hsome
        obtain ⟨j', hlookup'⟩ := Option.isSome_iff_exists.mp hsome.symm
        rw [hlookup']
        exact ih kind hkind key hkey j j' hlookup hlookup' depth

/-- A key that the shape of the object does not ask for. -/
structure IsExtra (fields : List (String × Json)) (key : String) : Prop where
  marker : key ≠ "__type__"
  position : IsPosition fields → key ≠ "value"
  token : IsToken fields → key ∉ tokenKeys
  type : IsNode fields → key ≠ "type"
  node : IsNode fields → ∀ kind : NodeKind, Tree.marker fields "type" = .text kind.name →
    key ∉ kind.fields

theorem lookup_cons_of_ne {key other : String} (h : key ≠ other) (j : Json) :
    fields.lookup other = ((key, j) :: fields).lookup other := by
  rw [List.lookup_cons, beq_false_of_ne h.symm]

theorem rel_of_eq {o o' : Option Json} (h : o = o') : Option.Rel SamePlace o o' := by
  subst h
  cases o with
  | none => exact .none
  | some j => exact .some (.same j)

/-- A field under such a key makes no difference. -/
theorem IsExtra.same {key : String} (h : IsExtra fields key) (j : Json) :
    Same (.object fields) (.object ((key, j) :: fields)) := by
  have hlookup {other : String} (hne : key ≠ other) :
      fields.lookup other = ((key, j) :: fields).lookup other := lookup_cons_of_ne hne j
  have hmarker {other : String} (hne : key ≠ other) :
      Tree.marker fields other = Tree.marker ((key, j) :: fields) other := by
    rw [Tree.marker, Tree.marker, ← hlookup hne]
  have htype := hmarker h.marker
  rcases isPosition_or fields with hposition | htoken | hnode
  · exact .position hposition (htype.symm.trans hposition)
      (rel_of_eq (hlookup (h.position hposition)))
  · have hkeys := h.token htoken
    simp only [tokenKeys, List.mem_cons, List.not_mem_nil, or_false, not_or] at hkeys
    obtain ⟨hkind, hvalue, hstart, hstop⟩ := hkeys
    exact .token htoken (htype.symm.trans htoken) (hlookup hkind) (hlookup hvalue)
      (rel_of_eq (hlookup hstart)) (rel_of_eq (hlookup hstop))
  · have hnode' : IsNode ((key, j) :: fields) :=
      ⟨fun hposition => hnode.1 (htype.trans hposition), fun htoken => hnode.2 (htype.trans htoken)⟩
    have hfield (kind : NodeKind) (hkind : Tree.marker fields "type" = .text kind.name)
        (other : String) (hother : other ∈ kind.fields) :=
      hlookup fun heq => h.node hnode kind hkind (heq ▸ hother)
    refine .node hnode hnode' (hmarker (h.type hnode)) (fun kind hkind other hother => ?_)
      fun kind hkind other hother i i' hi hi' => ?_
    · rw [← hfield kind hkind other hother]
    · cases hi.symm.trans ((hfield kind hkind other hother).trans hi')
      exact .same i

/-- Where there is room for it, a document is accepted just if it has the shape, and refused for
what is wrong with it first. Its levels are room enough, and what has been accepted needs no more
than those of its tree. It is read without regard to anything that is not part of the shape. -/
structure Reading (j : Json) : Prop where
  judged : ∀ depth, ofJson depth j ≠ .error .documentTooDeep →
    Judged (ofJson depth j) (Accepted j) (Violates j)
  room : ∀ depth, j.levels ≤ depth → ofJson depth j ≠ .error .documentTooDeep
  more : ∀ depth d, ofJson depth j ≠ .error .documentTooDeep → depth ≤ d →
    ofJson d j = ofJson depth j
  accepted : ∀ depth t, ofJson depth j = .ok t → ∀ d,
    ofJson d j = if t.levels ≤ d then .ok t else .error .documentTooDeep
  same : ∀ depth j', Same j j' → ofJson depth j' = ofJson depth j
  extra : ∀ depth fields key j', j = .object fields → IsExtra fields key →
    ofJson depth (.object ((key, j') :: fields)) = ofJson depth j

theorem reading_ofJson (j : Json) : Reading j where
  judged _ h := judged_ofJson h
  room _ h := ofJson_ne_of_levels_le h
  more _ _ h hd := ofJson_of_le h hd
  accepted _ _ h d := ofJson_eq_of_ok h d
  same depth _ h := (h.ofJson_eq depth).symm
  extra depth fields key j' hj h := by rw [hj, (h.same j').ofJson_eq]

/-- A node with a list where its kind should stand is refused, but not for an unknown kind. -/
theorem not_forall_unknownNode :
    ¬ ∀ depth fields, IsNode fields → ¬ Names NodeKind.names (marker fields "type") →
      ∃ shown, ofJson (depth + 1) (.object fields) = .error (.unknownNode shown) := by
  intro h
  have hnode : IsNode [("type", Json.list [])] := ⟨nofun, nofun⟩
  obtain ⟨shown, hshown⟩ := h 0 [("type", .list [])] hnode fun ⟨_, _, hname⟩ => nomatch hname
  rw [ofJson_of_isNode hnode] at hshown
  cases hshown

end Tree

end Lumen
