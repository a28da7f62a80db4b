import Mathlib
import Lumen.CommandLine
import Lumen.Proofs.Json.RoundTrip
import Lumen.Proofs.Tree.RoundTrip

/-!
# Running a program from its document

A program that is written to a document and read back is the same program, so it runs in the same
way: the same outcome, and a machine left in the same state. Only a program that nests deeper than
there is room to read runs from its source alone.
-/

namespace Lumen

namespace Tree

open Json (isPlain_text isPlain_int)

theorem toJson_injective {t u : Tree} (ht : Complete t) (hu : Complete u)
    (h : t.toJson = u.toJson) : t = u := by
  have hreadt := ofJson_toJson ht (max t.levels u.levels)
  have hreadu := ofJson_toJson hu (max t.levels u.levels)
  rw [if_pos (Nat.le_max_left ..)] at hreadt
  rw [if_pos (Nat.le_max_right ..), ← h, hreadt] at hreadu
  exact Except.ok.inj hreadu

/-- What has been read is written where there was room to read it, and read back there. -/
theorem kept_of_ofJson {depth : Nat} {j : Json} {t : Tree} (h : ofJson depth j = .ok t) :
    t.write depth = .ok t.toJson ∧ ofJson depth t.toJson = .ok t := by
  have hread := isReadWithin_of_ofJson h
  rw [write_eq, ofJson_toJson hread.complete, if_pos hread.levels_le, if_pos hread.levels_le]
  exact ⟨rfl, rfl⟩

/-- A program document without doubles: the numbers written in the program are whole. -/
inductive HoldsNoDouble : Tree → Prop where
  | scalar {s : Scalar} : (∀ x, s ≠ .float x) → HoldsNoDouble (scalar s)
  | list {items : List Tree} : (∀ t ∈ items, HoldsNoDouble t) → HoldsNoDouble (list items)
  | position (p : Position) : HoldsNoDouble (ofPosition p)
  | token {t : Token} : (∀ x, t.value ≠ .float x) → HoldsNoDouble (ofToken t)
  | node {kind : NodeKind} {fields : List Tree} : fields.length = kind.fields.length →
      (∀ t ∈ fields, HoldsNoDouble t) → HoldsNoDouble (node kind fields)

theorem isPlain_ofPosition (p : Position) : (Place.ofPosition p).toJson.IsPlain := by
  rw [Place.toJson]
  refine .of_keys (by decide : ["file", "line", "col", "index"].Nodup) rfl ?_
  simp only [List.map_cons, List.map_nil, List.forall_mem_cons]
  exact ⟨isPlain_text p.file, isPlain_int p.line, isPlain_int p.col, isPlain_int p.index,
    List.forall_mem_nil _⟩

theorem HoldsNoDouble.isPlain {t : Tree} (h : HoldsNoDouble t) : t.toJson.IsPlain := by
  induction h with
  | scalar hs =>
    rw [toJson]
    exact .scalar hs
  | list _ ih =>
    rw [toJson, toItems_eq_map]
    exact .list (List.forall_mem_map.mpr ih)
  | position p =>
    rw [ofPosition, toJson]
    refine .of_keys (by decide : ["__type__", "value"].Nodup) rfl ?_
    simp only [List.map_cons, List.map_nil, List.forall_mem_cons]
    exact ⟨isPlain_text "Position", isPlain_ofPosition p, List.forall_mem_nil _⟩
  | @token t ht =>
    rw [ofToken, toJson]
    refine .of_keys (by decide : ["__type__", "kind", "value", "pos_start", "pos_end"].Nodup) rfl ?_
    simp only [List.map_cons, List.map_nil, List.forall_mem_cons]
    exact ⟨isPlain_text "Token", isPlain_text t.kind.name, .scalar ht, isPlain_ofPosition t.start,
      isPlain_ofPosition t.stop, List.forall_mem_nil _⟩
  | @node kind fields hlength _ ih =>
    have hnodup : ("type" :: kind.fields).Nodup := (List.nodup_cons.mp kind.nodup_fields).2
    have hlength : (fields.map toJson).length = kind.fields.length := by
      rw [List.length_map, hlength]
    rw [toJson, toItems_eq_map]
    refine .of_keys hnodup ?_ ?_
    · rw [List.map_cons, List.map_fst_zip hlength.ge]
    · rw [List.map_cons, List.map_snd_zip hlength.le]
      exact List.forall_mem_cons.mpr ⟨isPlain_text kind.name, List.forall_mem_map.mpr ih⟩

end Tree

namespace CommandLine

variable {limits : Limits} {file source : String} {e : Node}

/-- What is left of a program document that has been written and read back. -/
def reload (limits : Limits) (t : Tree) : Except Fault Tree :=
  t.write (2 * limits.stack) >>= Tree.ofJson limits.stack

/-- What is small enough to be read is small enough to be written. -/
theorem reload_ofNode (limits : Limits) (e : Node) :
    reload limits (Tree.ofNode e) =
      if (Tree.ofNode e).levels ≤ limits.stack then .ok (Tree.ofNode e)
      else .error .documentTooDeep := by
  have hread := Tree.ofJson_toJson (Tree.complete_ofNode e) limits.stack
  rw [reload, Tree.write_eq]
  by_cases hwrite : (Tree.ofNode e).levels ≤ 2 * limits.stack
  · rw [if_pos hwrite]
    exact hread
  · rw [if_neg hwrite, if_neg (by omega)]
    rfl

theorem documentText_eq (limits : Limits) (e : Node) :
    documentText limits e =
      if (Tree.ofNode e).levels ≤ 2 * limits.stack then
        .ok ((Tree.ofNode e).toJson.writeIndented 0)
      else .error .documentTooDeep := by
  rw [documentText, Tree.write_eq]
  split <;> rfl

/-- A text that is read as the document of a program holds the program, if it is not too deep. -/
theorem readDocument_eq {text : String}
    (h : Json.ofText? (Text.ofFile text) = some (Tree.ofNode e).toJson) :
    readDocument limits text =
      if (Tree.ofNode e).levels ≤ limits.stack then .ok (Tree.ofNode e)
      else .error .documentTooDeep := by
  rw [readDocument, h]
  exact Tree.ofJson_toJson (Tree.complete_ofNode e) limits.stack

/-- How programs go through documents. -/
structure KeepsPrograms (limits : Limits) (file source : String) : Prop where
  written (e : Node) (depth : Nat) : (Tree.ofNode e).write depth =
    if (Tree.ofNode e).levels ≤ depth then .ok (Tree.ofNode e).toJson
    else .error .documentTooDeep
  read (e : Node) (depth : Nat) : Tree.ofJson depth (Tree.ofNode e).toJson =
    if (Tree.ofNode e).levels ≤ depth then .ok (Tree.ofNode e) else .error .documentTooDeep
  injective (e e' : Node) : (Tree.ofNode e).toJson = (Tree.ofNode e').toJson → e = e'
  /-- Whatever else a document may hold, it is kept as well. -/
  accepted (depth : Nat) (j : Json) (t : Tree) : Tree.ofJson depth j = .ok t →
    t.write depth = .ok t.toJson ∧ Tree.ofJson depth t.toJson = .ok t
  idempotent (depth : Nat) (j j' : Json) : Tree.ofJson depth j >>= Tree.write depth = .ok j' →
    Tree.ofJson depth j' >>= Tree.write depth = .ok j'
  /-- Read back, the program runs as it runs from its source. -/
  run (e : Node) (m : Machine) : Node.ofSource limits source file = .ok e →
    if (Tree.ofNode e).levels ≤ limits.stack then
      ∃ t, reload limits (Tree.ofNode e) = .ok t ∧ m.run limits t = m.runSource limits source file
    else reload limits (Tree.ofNode e) = .error .documentTooDeep
  emitted (e : Node) : Node.ofSource limits (Text.ofFile source) file = .ok e →
    let target := file ++ ".ast.json"
    emit limits file source =
      if (Tree.ofNode e).levels ≤ 2 * limits.stack then
        ⟨target ++ "\n", "", [(target, (Tree.ofNode e).toJson.writeIndented 0)], .done⟩
      else ⟨"", "", [(target, "")], .fault .documentTooDeep⟩
  /-- The text of a document keeps all of it, if there are no doubles in it. -/
  text (e : Node) : (Tree.ofNode e).HoldsNoDouble →
    Json.ofText? (Text.ofFile ((Tree.ofNode e).toJson.writeIndented 0)) =
      some (Tree.ofNode e).toJson
  /-- So does the command, as far as the text of the document keeps what is written. -/
  replayed (e : Node) (m : Machine) : Node.ofSource limits (Text.ofFile source) file = .ok e →
    let text := (Tree.ofNode e).toJson.writeIndented 0
    Json.ofText? (Text.ofFile text) = some (Tree.ofNode e).toJson →
    replay limits text m =
      if (Tree.ofNode e).levels ≤ limits.stack then runFile limits file source m
      else Report.ofMachine m "" (.fault .documentTooDeep)

/-- The document of a program holds all of it, and is read back just if there is room for its
levels. Then the program runs from the document as it runs from its source. -/
theorem documents_kept (limits : Limits) (file source : String) :
    KeepsPrograms limits file source where
  written e depth := Tree.write_eq depth (Tree.ofNode e)
  read e depth := Tree.ofJson_toJson (Tree.complete_ofNode e) depth
  injective e e' h := (Tree.ofNode_inj e e').mp
    (Tree.toJson_injective (Tree.complete_ofNode e) (Tree.complete_ofNode e') h)
  accepted _ _ _ h := Tree.kept_of_ofJson h
  idempotent depth j j' h := by
    obtain ⟨t, ht, hwrite⟩ := bind_eq_ok h
    obtain ⟨hkept, hread⟩ := Tree.kept_of_ofJson ht
    obtain rfl : t.toJson = j' := Except.ok.inj (hkept.symm.trans hwrite)
    rw [hread]
    exact hkept
  run e m he := by
    have hrun : m.run limits (Tree.ofNode e) = m.runSource limits source file := by
      rw [Machine.runSource, he]
    rw [reload_ofNode]
    split
    · exact ⟨_, rfl, hrun⟩
    · rfl
  emitted e he := by
    intro target
    rw [emit, he]
    dsimp only
    by_cases hroom : (Tree.ofNode e).levels ≤ 2 * limits.stack
    · rw [documentText_eq, if_pos hroom, if_pos hroom]
    · rw [documentText_eq, if_neg hroom, if_neg hroom]
  text _ h := Json.ofText?_writeIndented h.isPlain
  replayed e m he := by
    intro text htext
    by_cases hroom : (Tree.ofNode e).levels ≤ limits.stack
    · rw [replay, readDocument_eq htext, if_pos hroom, if_pos hroom, runFile, Machine.runSource, he]
    · rw [replay, readDocument_eq htext, if_neg hroom, if_neg hroom]

/-- An element of a list: a node with a part that is not there and two with tokens. -/
theorem documents_kept_index :
    let limits : Limits := ⟨8, 8, 4⟩
    let p (col : Nat) : Position := ⟨"", 1, col, col - 1⟩
    let name (s : String) (col : Nat) : Node := .lookup ⟨.identifier, .text s, p col, p (col + 1)⟩
    let e : Node := .block [.index (name "a" 1) (name "b" 3) none (p 5)] (p 1) (p 6)
    let text := (Tree.ofNode e).toJson.writeIndented 0
    Node.ofSource limits (Text.ofFile "a[b]") "" = .ok e ∧
      emit limits "" "a[b]" = ⟨".ast.json\n", "", [(".ast.json", text)], .done⟩ ∧
      Json.ofText? (Text.ofFile text) = some (Tree.ofNode e).toJson ∧
      ∀ m, replay limits text m = runFile limits "" "a[b]" m ∧
        ∃ t, reload limits (Tree.ofNode e) = .ok t ∧
          m.run limits t = m.runSource limits "a[b]" "" := by
  intro limits p name e text
  have hsource : Node.ofSource limits "a[b]" "" = .ok e := by cbv
  have hfile : Node.ofSource limits (Text.ofFile "a[b]") "" = .ok e := by cbv
  have hlevels : (Tree.ofNode e).levels = 5 := by decide
  have hname (s : String) (col : Nat) : (Tree.ofNode (name s col)).HoldsNoDouble :=
    .node rfl (List.forall_mem_singleton.mpr (.token fun x h => by cases h))
  have hindex : (Tree.ofNode (.index (name "a" 1) (name "b" 3) none (p 5))).HoldsNoDouble := by
    refine .node rfl ?_
    simp only [List.forall_mem_cons]
    have hnone : (Tree.ofOption none).HoldsNoDouble := .scalar fun x h => by cases h
    exact ⟨hname "a" 1, hname "b" 3, hnone, .position (p 5), List.forall_mem_nil _⟩
  have hprogram : (Tree.ofNode e).HoldsNoDouble := by
    refine .node rfl ?_
    simp only [List.forall_mem_cons]
    exact ⟨.list (List.forall_mem_singleton.mpr hindex), .position (p 1), .position (p 6),
      List.forall_mem_nil _⟩
  have htext := (documents_kept limits "" "a[b]").text e hprogram
  have hemitted := (documents_kept limits "" "a[b]").emitted e hfile
  refine ⟨hfile, ?_, htext, fun m => ?_⟩
  · rw [hlevels] at hemitted
    exact hemitted
  · have hreplayed := (documents_kept limits "" "a[b]").replayed e m hfile htext
    have hrun := (documents_kept limits "" "a[b]").run e m hsource
    rw [hlevels] at hreplayed hrun
    exact ⟨hreplayed, hrun⟩

/-- A list in a list, which takes less room to evaluate than to read back. -/
theorem not_forall_reload : ¬ ∀ (limits : Limits) (source file : String) (m : Machine) (e : Node)
    (v : Option Value), Node.ofSource limits source file = .ok e →
    (m.runSource limits source file).1 = .value v →
    ∃ t, reload limits (Tree.ofNode e) = .ok t ∧
      m.run limits t = m.runSource limits source file := by
  intro h
  let limits : Limits := ⟨8, 4, 4⟩
  let p (col : Nat) : Position := ⟨"f", 1, col, col - 1⟩
  let e := Node.block [.list [.list [] (p 2) (p 4)] (p 1) (p 5)] (p 1) (p 6)
  have hsource : Node.ofSource limits "[[]]" "f" = .ok e := by cbv
  have hvalue : ((Machine.initial "" 0).runSource limits "[[]]" "f").1 =
      .value (some ⟨.list 1, ⟨.exact (p 1), .exact (p 5)⟩⟩) := by cbv
  obtain ⟨t, ht, -⟩ := h limits "[[]]" "f" (Machine.initial "" 0) e _ hsource hvalue
  have hlevels : (Tree.ofNode e).levels = 6 := by decide
  rw [reload_ofNode, hlevels] at ht
  cases ht

end CommandLine

end Lumen
