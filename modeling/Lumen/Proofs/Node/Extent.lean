import Lumen.Proofs.Node.Order
import Lumen.Proofs.Node.WellMade
import Lumen.Proofs.Token.Join

/-!
# The text that a node takes

Every node of a source's program goes from the start of one of the source's tokens to the end of one
behind it. The tokens stand in a row, and what a phrase yields lies where the tokens lie that the
phrase takes.
-/

namespace Lumen

/-- From the start of one of the tokens to the end of one behind it. -/
structure Token.Between (ts : List Token) (p q : Position) : Prop where
  start : ∃ t ∈ ts, t.start = p
  stop : ∃ t ∈ ts, t.stop = q
  lt : p.index < q.index

/-- The tokens are some of `all`, none of them is empty, and they stand one behind another from `lo`
on. -/
inductive Token.Row (all : List Token) : Int → List Token → Prop where
  | nil {lo} : Row all lo []
  | cons {lo t ts} : t ∈ all → lo ≤ t.start.index → t.start.index < t.stop.index →
      Row all t.stop.index ts → Row all lo (t :: ts)

namespace Token.Row

variable {all ts : List Token} {t : Token} {lo lo' : Int}

theorem mono (h : Row all lo ts) (hlo : lo' ≤ lo) : Row all lo' ts := by
  cases h with
  | nil => exact .nil
  | cons ht hstart hlt h => exact .cons ht (Int.le_trans hlo hstart) hlt h

theorem tail (h : Row all lo (t :: ts)) : Row all lo ts := by
  cases h with
  | cons _ hstart hlt h => exact h.mono (by omega)

/-- The first token of a row, and the row behind it. -/
theorem front (h : Row all lo (t :: ts)) : lo ≤ t.start.index ∧ lo ≤ t.stop.index ∧
    Between all t.start t.stop ∧ Row all t.stop.index ts := by
  cases h with
  | cons ht hstart hlt h =>
    exact ⟨hstart, Int.le_trans hstart (Int.le_of_lt hlt), ⟨⟨t, ht, rfl⟩, ⟨t, ht, rfl⟩, hlt⟩, h⟩

/-- A row begins with a row. -/
theorem left {us : List Token} (h : Row all lo (ts ++ us)) : Row all lo ts := by
  induction ts generalizing lo with
  | nil => exact .nil
  | cons t ts ih =>
    cases h with
    | cons ht hstart hlt h => exact .cons ht hstart hlt (ih h)

theorem of_mem (h : Row all lo ts) (ht : t ∈ ts) :
    lo ≤ t.start.index ∧ t.start.index < t.stop.index := by
  induction h with
  | nil => cases ht
  | cons _ hstart hlt _ ih =>
    rcases List.mem_cons.mp ht with rfl | ht
    · exact ⟨hstart, hlt⟩
    · have hbehind := ih ht
      exact ⟨by omega, hbehind.2⟩

/-- No token of a row ends behind the last one. -/
theorem stop_le (h : Row all lo (ts ++ [t])) : ∀ u ∈ ts ++ [t], u.stop.index ≤ t.stop.index := by
  induction ts generalizing lo with
  | nil =>
    intro u hu
    rw [List.mem_singleton.mp hu]
  | cons v ts ih =>
    cases h with
    | cons _ _ _ h =>
      intro u hu
      rcases List.mem_cons.mp hu with rfl | hu
      · have hle := h.of_mem (List.mem_append_right _ (List.mem_singleton_self t))
        omega
      · exact ih h u hu

end Token.Row

namespace Node

/-- All nodes of the tree go from a start to an end as `K` allows, and so do the names of the lists
that are assigned to. -/
inductive LiesIn (K : Position → Position → Prop) : Node → Prop where
  | number {t} : K t.start t.stop → LiesIn K (.number t)
  | text {t} : K t.start t.stop → LiesIn K (.text t)
  | null {t} : K t.start t.stop → LiesIn K (.null t)
  | list {es p q} : K p q → (∀ e ∈ es, LiesIn K e) → LiesIn K (.list es p q)
  | block {ss p q} : K p q → (∀ s ∈ ss, LiesIn K s) → LiesIn K (.block ss p q)
  | ternary {c a b} : K c.start b.stop → LiesIn K c → LiesIn K a → LiesIn K b →
      LiesIn K (.ternary c a b)
  | binary {a op b} : K a.start b.stop → LiesIn K a → LiesIn K b → LiesIn K (.binary a op b)
  | unary {op e} : K op.start e.stop → LiesIn K e → LiesIn K (.unary op e)
  | lookup {t} : K t.start t.stop → LiesIn K (.lookup t)
  | assign {t e} : K t.start e.stop → LiesIn K e → LiesIn K (.assign t e)
  | index {e i j q} : K e.start q → LiesIn K e → LiesIn K i → (∀ f ∈ j, LiesIn K f) →
      LiesIn K (.index e i j q)
  | assignIndex {t i e} : K t.start e.stop → K t.start t.stop → LiesIn K i → LiesIn K e →
      LiesIn K (.assignIndex t i e)
  | conditional {cases otherwise p q} : K p q → (∀ g ∈ cases, LiesIn K g.1) →
      (∀ g ∈ cases, LiesIn K g.2) → (∀ e ∈ otherwise, LiesIn K e) →
      LiesIn K (.conditional cases otherwise p q)
  | forLoop {t a b step body p q} : K p q → LiesIn K a → LiesIn K b → (∀ e ∈ step, LiesIn K e) →
      LiesIn K body → LiesIn K (.forLoop t a b step body p q)
  | eachLoop {t e body p q} : K p q → LiesIn K e → LiesIn K body →
      LiesIn K (.eachLoop t e body p q)
  | whileLoop {c body p q} : K p q → LiesIn K c → LiesIn K body →
      LiesIn K (.whileLoop c body p q)
  | breakLoop {t} : K t.start t.stop → LiesIn K (.breakLoop t)
  | continueLoop {t} : K t.start t.stop → LiesIn K (.continueLoop t)
  | function {name params body isExpression p q} : K p q → LiesIn K body →
      LiesIn K (.function name params body isExpression p q)
  | call {e args q} : K e.start q → LiesIn K e → (∀ f ∈ args, LiesIn K f) →
      LiesIn K (.call e args q)
  | giveBack {value p q} : K p q → (∀ e ∈ value, LiesIn K e) → LiesIn K (.giveBack value p q)

variable {K : Position → Position → Prop} {e : Node}

theorem LiesIn.extent (h : e.LiesIn K) : K e.start e.stop := by
  cases h <;> assumption

theorem LiesIn.mono {K' : Position → Position → Prop} (h : e.LiesIn K)
    (himp : ∀ p q, K p q → K' p q) : e.LiesIn K' := by
  induction h with
  | number h => exact .number (himp _ _ h)
  | text h => exact .text (himp _ _ h)
  | null h => exact .null (himp _ _ h)
  | list h _ hes => exact .list (himp _ _ h) hes
  | block h _ hss => exact .block (himp _ _ h) hss
  | ternary h _ _ _ hc ha hb => exact .ternary (himp _ _ h) hc ha hb
  | binary h _ _ ha hb => exact .binary (himp _ _ h) ha hb
  | unary h _ he => exact .unary (himp _ _ h) he
  | lookup h => exact .lookup (himp _ _ h)
  | assign h _ he => exact .assign (himp _ _ h) he
  | index h _ _ _ he hi hj => exact .index (himp _ _ h) he hi hj
  | assignIndex h ht _ _ hi he => exact .assignIndex (himp _ _ h) (himp _ _ ht) hi he
  | conditional h _ _ _ hconditions hbodies hotherwise =>
    exact .conditional (himp _ _ h) hconditions hbodies hotherwise
  | forLoop h _ _ _ _ ha hb hstep hbody => exact .forLoop (himp _ _ h) ha hb hstep hbody
  | eachLoop h _ _ he hbody => exact .eachLoop (himp _ _ h) he hbody
  | whileLoop h _ _ hc hbody => exact .whileLoop (himp _ _ h) hc hbody
  | breakLoop h => exact .breakLoop (himp _ _ h)
  | continueLoop h => exact .continueLoop (himp _ _ h)
  | function h _ hbody => exact .function (himp _ _ h) hbody
  | call h _ _ he hargs => exact .call (himp _ _ h) he hargs
  | giveBack h _ hvalue => exact .giveBack (himp _ _ h) hvalue

/-- The nodes of an ordered tree lie where its order says, and so do the names in it. -/
theorem Ordered.liesIn (h : e.Ordered K) : e.LiesIn K := by
  induction h with
  | @mk e hextent hparts _ ih =>
    cases e with
    | number => exact .number hextent
    | text => exact .text hextent
    | null => exact .null hextent
    | list => exact .list hextent fun e he => ih e (List.mem_map_of_mem he)
    | block => exact .block hextent fun e he => ih e (List.mem_map_of_mem he)
    | ternary =>
      exact .ternary hextent (ih _ (by simp [parts])) (ih _ (by simp [parts]))
        (ih _ (by simp [parts]))
    | binary => exact .binary hextent (ih _ (by simp [parts])) (ih _ (by simp [parts]))
    | unary => exact .unary hextent (ih _ (by simp [parts]))
    | lookup => exact .lookup hextent
    | assign => exact .assign hextent (ih _ (by simp [parts]))
    | index =>
      exact .index hextent (ih _ (by simp [parts])) (ih _ (by simp [parts]))
        fun f hf => ih f (by simp [parts, Option.mem_def.mp hf])
    | assignIndex =>
      cases hparts with
      | cons _ ht _ =>
        exact .assignIndex hextent ht (ih _ (by simp [parts])) (ih _ (by simp [parts]))
    | conditional =>
      refine .conditional hextent (fun g hg => ih _ ?_) (fun g hg => ih _ ?_) fun f hf => ih _ ?_
      · exact node_mem_caseParts.mpr (.inl ⟨g, hg, .inl rfl⟩)
      · exact node_mem_caseParts.mpr (.inl ⟨g, hg, .inr rfl⟩)
      · exact node_mem_caseParts.mpr (.inr hf)
    | forLoop =>
      exact .forLoop hextent (ih _ (by simp [parts])) (ih _ (by simp [parts]))
        (fun f hf => ih f (by simp [parts, Option.mem_def.mp hf])) (ih _ (by simp [parts]))
    | eachLoop => exact .eachLoop hextent (ih _ (by simp [parts])) (ih _ (by simp [parts]))
    | whileLoop => exact .whileLoop hextent (ih _ (by simp [parts])) (ih _ (by simp [parts]))
    | breakLoop => exact .breakLoop hextent
    | continueLoop => exact .continueLoop hextent
    | function => exact .function hextent (ih _ (by simp [parts]))
    | call => exact .call hextent (ih _ (by simp [parts])) fun f hf => ih f (by simp [parts, hf])
    | giveBack =>
      exact .giveBack hextent fun f hf => ih f (by simp [parts, Option.mem_def.mp hf])

end Node

/-! ## What derives from the grammar -/

namespace Grammar

open Token (Row Between)
open Node (Part Laid)

section

variable {K : Position → Position → Prop}

def Yield.Within (K : Position → Position → Prop) (lo hi : Int) : Yield → Prop
  | .node e => e.Within K lo hi
  | .nodes es => Laid K lo hi (es.map .node)
  | .optional value => Laid K lo hi (value.toList.map .node)
  | .clauses cases otherwise => Laid K lo hi (Node.caseParts cases otherwise)

def Phrase.Within (K : Position → Position → Prop) (lo hi : Int) : Phrase → Prop
  | .chain _ e | .choice e | .suffixes e => e.Within K lo hi
  | _ => True

theorem Level.within_operand (ℓ : Level) {lo hi : Int} : ℓ.operand.Within K lo hi := by
  cases ℓ <;> trivial

end

section

variable {all ts rest params : List Token} {t u : Token} {a b : Node} {lo mid lo' hi : Int}

theorem Newlines.row (h : Newlines ts rest) (hts : Row all lo ts) : Row all lo rest := by
  induction h with
  | nil => exact hts
  | cons _ _ ih => exact ih hts.tail

theorem MoreParameters.row (h : MoreParameters ts rest params) (hts : Row all lo ts) :
    ∃ hi, Row all hi rest ∧ Laid (Between all) lo hi (params.map .token) := by
  induction h generalizing lo with
  | nil => exact ⟨lo, hts, .nil (Int.le_refl _)⟩
  | cons _ h₁ _ h₂ _ ih =>
    obtain ⟨hstart, -, ht, hts⟩ := (h₁.row hts.tail).front
    obtain ⟨hi, hrest, hparams⟩ := ih (h₂.row hts)
    exact ⟨hi, hrest, .token hstart ht hparams⟩

theorem Parameters.row (h : Parameters ts rest params) (hts : Row all lo ts) :
    ∃ hi, Row all hi rest ∧ Laid (Between all) lo hi (params.map .token) := by
  cases h with
  | nil h => exact ⟨lo, h.row hts, .nil (Int.le_refl _)⟩
  | cons h₁ _ h₂ h =>
    obtain ⟨hstart, -, ht, hts⟩ := (h₁.row hts).front
    obtain ⟨hi, hrest, hparams⟩ := h.row (h₂.row hts)
    exact ⟨hi, hrest, .token hstart ht hparams⟩

theorem Named.row {name : Option Token} (h : Named ts rest name) (hts : Row all lo ts) :
    ∃ hi, Row all hi rest ∧ Laid (Between all) lo hi (name.toList.map .token) := by
  cases h with
  | none => exact ⟨lo, hts, .nil (Int.le_refl _)⟩
  | some _ =>
    obtain ⟨hstart, -, ht, hts⟩ := hts.front
    exact ⟨_, hts, .token hstart ht (.nil (Int.le_refl _))⟩

/-- What stands between brackets in the head of a function, and what stands behind. -/
theorem row_head {name : Option Token} {ts₁ ts₂ : List Token} (hname : Named ts (t :: ts₁) name)
    (hparams : Parameters ts₁ (u :: ts₂) params) (hts : Row all lo ts) :
    ∃ hi, lo ≤ hi ∧ Row all hi ts₂ ∧
      Laid (Between all) lo hi (name.toList.map .token ++ params.map .token) := by
  obtain ⟨hi₁, hts₁, hlaid₁⟩ := hname.row hts
  obtain ⟨hi₂, hts₂, hlaid₂⟩ := hparams.row hts₁.tail
  have hlaid := hlaid₁.append hlaid₂
  exact ⟨hi₂, hlaid.inOrder.le fun _ _ h => h.lt, hts₂.tail, hlaid⟩

theorem between_tokens (ht : t ∈ all) (hu : u ∈ all) (h : t.start.index < u.stop.index) :
    Between all t.start u.stop := ⟨⟨t, ht, rfl⟩, ⟨u, hu, rfl⟩, h⟩

/-- A node that ends where its last part does. -/
theorem within_last {e : Node} {p : Part} (h : Laid (Between all) lo' hi e.parts)
    (hlast : e.parts.getLast? = some p) (hstop : e.stop = p.stop)
    (hstart : ∃ t ∈ all, t.start = e.start) (hlo : lo ≤ e.start.index)
    (hle : e.start.index ≤ lo') : e.Within (Between all) lo hi := by
  obtain ⟨hp, hpstart, hphi⟩ := h.inOrder.of_mem (fun _ _ h => h.lt) (List.mem_of_getLast? hlast)
  have hlt := hp.lt
  refine ⟨.of_laid ⟨hstart, ?_, ?_⟩ ?_, hlo, ?_⟩
  · rw [hstop]
    exact hp.stop
  · rw [hstop]
    omega
  · rw [hstop]
    exact (h.trim hlast).mono hle (Int.le_refl _)
  · rw [hstop]
    exact hphi

/-- A node from where its first part starts to where its last part ends. -/
theorem within_parts {e : Node} {p q : Part} (h : Laid (Between all) lo hi e.parts)
    (hfirst : e.parts.head? = some p) (hlast : e.parts.getLast? = some q)
    (hstart : e.start = p.start) (hstop : e.stop = q.stop) : e.Within (Between all) lo hi := by
  obtain ⟨hp, hle, -⟩ := h.inOrder.of_mem (fun _ _ h => h.lt) (List.mem_of_head? hfirst)
  apply within_last (h.trim_left hfirst) hlast hstop
  · rw [hstart]
    exact hp.start
  · rwa [hstart]
  · rw [hstart]

/-- A node that ends with a token behind its parts. -/
theorem within_closing {e : Node} (h : Laid (Between all) lo' mid e.parts) (hu : u ∈ all)
    (hmid : mid ≤ u.start.index) (hlt : u.start.index < u.stop.index) (hstop : e.stop = u.stop)
    (hstart : ∃ t ∈ all, t.start = e.start) (hlo : lo ≤ e.start.index)
    (hle : e.start.index ≤ lo') : e.Within (Between all) lo u.stop.index := by
  have hle' := h.inOrder.le fun _ _ h => h.lt
  refine ⟨.of_laid ⟨hstart, ⟨u, hu, hstop.symm⟩, ?_⟩ ?_, hlo, ?_⟩
  · rw [hstop]
    omega
  · rw [hstop]
    exact h.mono hle (by omega)
  · rw [hstop]

end

section

variable {all ts rest : List Token} {r : Reading} {φ : Phrase} {n : Parser.Nesting} {y : Yield}
  {lo mid : Int}

/-- What derives from tokens in a row lies where they lie, and the tokens that are left stand behind
it. -/
theorem Derives.within (h : Derives r φ n ts rest y) (hle : lo ≤ mid)
    (hφ : φ.Within (Between all) lo mid) (hts : Row all mid ts) :
    ∃ hi, mid ≤ hi ∧ Row all hi rest ∧ y.Within (Between all) lo hi := by
  -- `lo` is where the node starts that a loop over operands or suffixes carries on; the other
  -- phrases start where their tokens do, at `mid`.
  have nil {i j : Int} (h : i ≤ j) : Laid (Between all) i j [] := .nil h
  have one {e : Node} {i j : Int} (h : e.Within (Between all) i j) :
      Laid (Between all) i j [.node e] := .node h (nil (Int.le_refl j))
  induction h generalizing lo mid with
  | noStatements | lastStatement | lastArgument | endClauses | noStep =>
    exact ⟨mid, Int.le_refl _, hts, nil hle⟩
  | noArguments h => exact ⟨mid, Int.le_refl _, h.row hts, nil hle⟩
  | statements _ _ ih₁ ih₂ =>
    obtain ⟨hi₁, hle₁, hts₁, hs⟩ := ih₁ hle trivial hts
    obtain ⟨hi₂, hle₂, hts₂, hss⟩ := ih₂ (Int.le_refl _) trivial hts₁
    exact ⟨hi₂, Int.le_trans hle₁ hle₂, hts₂, .node hs hss⟩
  | moreStatements _ h₁ _ _ ih₁ ih₂ =>
    obtain ⟨hi₁, hle₁, hts₁, hs⟩ := ih₁ hle trivial (h₁.row hts.tail)
    obtain ⟨hi₂, hle₂, hts₂, hss⟩ := ih₂ (Int.le_refl _) trivial hts₁
    exact ⟨hi₂, Int.le_trans hle₁ hle₂, hts₂, .node hs hss⟩
  | arguments h₁ _ h₂ _ ih₁ ih₂ =>
    obtain ⟨hi₁, hle₁, hts₁, he⟩ := ih₁ hle trivial (h₁.row hts)
    obtain ⟨hi₂, hle₂, hts₂, hes⟩ := ih₂ (Int.le_refl _) trivial (h₂.row hts₁)
    exact ⟨hi₂, Int.le_trans hle₁ hle₂, hts₂, .node he hes⟩
  | moreArguments _ h₁ _ h₂ _ ih₁ ih₂ =>
    obtain ⟨hi₁, hle₁, hts₁, he⟩ := ih₁ hle trivial (h₁.row hts.tail)
    obtain ⟨hi₂, hle₂, hts₂, hes⟩ := ih₂ (Int.le_refl _) trivial (h₂.row hts₁)
    exact ⟨hi₂, Int.le_trans hle₁ hle₂, hts₂, .node he hes⟩
  | block _ h₁ _ h₂ _ ih =>
    cases hts with | cons ht hstart hlt hts =>
    obtain ⟨hi, hle₁, hts₁, hss⟩ := ih (Int.le_refl _) trivial (h₁.row hts)
    cases h₂.row hts₁ with | cons hu hustart hult hrest =>
    exact ⟨_, by omega, hrest, within_closing hss hu hustart hult rfl ⟨_, ht, rfl⟩
      (Int.le_trans hle hstart) (Int.le_of_lt hlt)⟩
  | blockBody _ ih | evaluate _ ih | ternary _ ih | unsigned _ ih => exact ih hle trivial hts
  | statementBody _ _ ih => exact ih hle trivial hts.tail
  | giveBackNothing =>
    cases hts with | cons ht hstart hlt hts =>
    exact ⟨_, by omega, hts, ⟨.of_laid (between_tokens ht ht hlt) (nil (Int.le_of_lt hlt)),
      Int.le_trans hle hstart, Int.le_refl _⟩⟩
  | giveBack _ _ _ ih =>
    cases hts with | cons ht hstart hlt hts =>
    obtain ⟨hi, hle₁, hts₁, he⟩ := ih (Int.le_refl _) trivial hts
    exact ⟨hi, by omega, hts₁, within_last (one he) rfl rfl ⟨_, ht, rfl⟩
      (Int.le_trans hle hstart) (Int.le_of_lt hlt)⟩
  | breakLoop | continueLoop | number | text | null | lookup =>
    obtain ⟨hstart, hbehind, ht, hts⟩ := hts.front
    have hlaid := Laid.token (Int.le_trans hle hstart) ht (nil (Int.le_refl _))
    exact ⟨_, hbehind, hts, within_parts hlaid rfl rfl rfl rfl⟩
  | assign _ _ _ ih =>
    obtain ⟨hstart, hbehind, ht, hts⟩ := hts.front
    obtain ⟨hi, hle₁, hts₁, he⟩ := ih (Int.le_refl _) trivial hts.tail
    have hlaid := Laid.token (Int.le_trans hle hstart) ht (one he)
    exact ⟨hi, Int.le_trans hbehind hle₁, hts₁, within_parts hlaid rfl rfl rfl rfl⟩
  | assignIndex _ _ h₁ _ h₂ _ _ _ ih₁ ih₂ =>
    obtain ⟨hstart, hbehind, ht, hts⟩ := hts.front
    obtain ⟨hi₁, hle₁, hts₁, hi⟩ := ih₁ (Int.le_refl _) trivial (h₁.row hts.tail)
    obtain ⟨hi₂, hle₂, hts₂, he⟩ := ih₂ (Int.le_refl _) trivial (h₂.row hts₁).tail.tail
    have hlaid := Laid.token (Int.le_trans hle hstart) ht (.node hi (one he))
    exact ⟨hi₂, by omega, hts₂, within_parts hlaid rfl rfl rfl rfl⟩
  | condition _ _ ih₁ ih₂ | target _ _ ih₁ ih₂ =>
    obtain ⟨hi₁, hle₁, hts₁, hc⟩ := ih₁ hle trivial hts
    obtain ⟨hi₂, hle₂, hts₂, he⟩ := ih₂ (Int.le_trans hle hle₁) hc hts₁
    exact ⟨hi₂, Int.le_trans hle₁ hle₂, hts₂, he⟩
  | noChoice | endChain | endSuffixes => exact ⟨mid, Int.le_refl _, hts, hφ⟩
  | choice _ _ _ _ ih₁ ih₂ =>
    obtain ⟨hi₁, hle₁, hts₁, ha⟩ := ih₁ (Int.le_refl _) trivial hts.tail
    obtain ⟨hi₂, hle₂, hts₂, hb⟩ := ih₂ (Int.le_refl _) trivial hts₁.tail
    exact ⟨hi₂, Int.le_trans hle₁ hle₂, hts₂,
      within_parts (.node hφ (.node ha (one hb))) rfl rfl rfl rfl⟩
  | level _ _ ih₁ ih₂ =>
    obtain ⟨hi₁, hle₁, hts₁, ha⟩ := ih₁ hle (Level.within_operand _) hts
    obtain ⟨hi₂, hle₂, hts₂, he⟩ := ih₂ (Int.le_trans hle hle₁) ha hts₁
    exact ⟨hi₂, Int.le_trans hle₁ hle₂, hts₂, he⟩
  | chain _ _ _ ih₁ ih₂ =>
    obtain ⟨hstart, hbehind, ht, hts⟩ := hts.front
    obtain ⟨hi₁, hle₁, hts₁, hb⟩ := ih₁ (Int.le_refl _) (Level.within_operand _) hts
    have hlaid := Laid.node hφ (.token hstart ht (one hb))
    obtain ⟨hi₂, hle₂, hts₂, he⟩ := ih₂ (by omega) (within_parts hlaid rfl rfl rfl rfl) hts₁
    exact ⟨hi₂, by omega, hts₂, he⟩
  | sign _ _ ih =>
    obtain ⟨hstart, hbehind, ht, hts⟩ := hts.front
    obtain ⟨hi, hle₁, hts₁, he⟩ := ih (Int.le_refl _) trivial hts
    have hlaid := Laid.token (Int.le_trans hle hstart) ht (one he)
    exact ⟨hi, Int.le_trans hbehind hle₁, hts₁, within_parts hlaid rfl rfl rfl rfl⟩
  | call _ _ _ _ ih₁ ih₂ =>
    obtain ⟨hi₁, hle₁, hts₁, hargs⟩ := ih₁ (Int.le_refl _) trivial hts.tail
    cases hts₁ with | cons hu hustart hult hts₁ =>
    have hlaid := (Laid.node hφ hargs).trim_left rfl
    have hcall := within_closing (e := .call _ _ _) hlaid hu hustart hult rfl
      hφ.ordered.extent.start hφ.start (Int.le_refl _)
    obtain ⟨hi₂, hle₂, hts₂, he⟩ := ih₂ (by omega) hcall hts₁
    exact ⟨hi₂, by omega, hts₂, he⟩
  | index _ h₁ _ h₂ _ _ ih₁ ih₂ =>
    obtain ⟨hi₁, hle₁, hts₁, hi⟩ := ih₁ (Int.le_refl _) trivial (h₁.row hts.tail)
    cases h₂.row hts₁ with | cons hu hustart hult hts₂ =>
    have hlaid := (Laid.node hφ (one hi)).trim_left rfl
    have hindex := within_closing (e := .index _ _ none _) hlaid hu hustart hult rfl
      hφ.ordered.extent.start hφ.start (Int.le_refl _)
    obtain ⟨hi₂, hle₂, hts₂, he⟩ := ih₂ (by omega) hindex hts₂
    exact ⟨hi₂, by omega, hts₂, he⟩
  | slice _ h₁ _ h₂ _ h₃ _ h₄ _ _ ih₁ ih₂ ih₃ =>
    obtain ⟨hi₁, hle₁, hts₁, hi⟩ := ih₁ (Int.le_refl _) trivial (h₁.row hts.tail)
    obtain ⟨hi₂, hle₂, hts₂, hj⟩ := ih₂ (Int.le_refl _) trivial (h₃.row (h₂.row hts₁).tail)
    cases h₄.row hts₂ with | cons hu hustart hult hts₃ =>
    have hlaid := (Laid.node hφ (.node hi (one hj))).trim_left rfl
    have hslice := within_closing (e := .index _ _ (some _) _) hlaid hu hustart hult rfl
      hφ.ordered.extent.start hφ.start (Int.le_refl _)
    obtain ⟨hi₃, hle₃, hts₃, he⟩ := ih₃ (by omega) hslice hts₃
    exact ⟨hi₃, by omega, hts₃, he⟩
  | parentheses _ h₁ _ h₂ _ ih =>
    obtain ⟨hi, hle₁, hts₁, he⟩ := ih hle trivial (h₁.row hts.tail)
    exact ⟨hi, hle₁, (h₂.row hts₁).tail, he⟩
  | list _ _ _ ih =>
    cases hts with | cons ht hstart hlt hts =>
    obtain ⟨hi, hle₁, hts₁, hes⟩ := ih (Int.le_refl _) trivial hts
    cases hts₁ with | cons hu hustart hult hrest =>
    exact ⟨_, by omega, hrest, within_closing hes hu hustart hult rfl ⟨_, ht, rfl⟩
      (Int.le_trans hle hstart) (Int.le_of_lt hlt)⟩
  | conditional _ _ _ _ ih₁ ih₂ ih₃ =>
    cases hts with | cons ht hstart hlt hts =>
    obtain ⟨hi₁, hle₁, hts₁, hc⟩ := ih₁ (Int.le_refl _) trivial hts
    obtain ⟨hi₂, hle₂, hts₂, hb⟩ := ih₂ (Int.le_refl _) trivial hts₁
    obtain ⟨hi₃, hle₃, hts₃, hcases⟩ := ih₃ (Int.le_refl _) trivial hts₂
    exact ⟨hi₃, by omega, hts₃, within_last (Laid.node hc (.node hb hcases))
      (Node.getLast?_caseParts _ _ _ _) rfl ⟨_, ht, rfl⟩ (Int.le_trans hle hstart)
      (Int.le_of_lt hlt)⟩
  | elseIf h₁ _ _ _ _ ih₁ ih₂ ih₃ =>
    obtain ⟨hi₁, hle₁, hts₁, hc⟩ := ih₁ hle trivial (h₁.row hts).tail
    obtain ⟨hi₂, hle₂, hts₂, hb⟩ := ih₂ (Int.le_refl _) trivial hts₁
    obtain ⟨hi₃, hle₃, hts₃, hcases⟩ := ih₃ (Int.le_refl _) trivial hts₂
    exact ⟨hi₃, by omega, hts₃, Laid.node hc (.node hb hcases)⟩
  | otherwise h₁ _ _ ih =>
    obtain ⟨hi, hle₁, hts₁, hb⟩ := ih hle trivial (h₁.row hts).tail
    exact ⟨hi, hle₁, hts₁, one hb⟩
  | forLoop _ _ _ _ _ _ _ _ ih₁ ih₂ ih₃ ih₄ =>
    cases hts with | cons ht hstart hlt hts =>
    obtain ⟨hname, hbehind, hK, hts⟩ := hts.front
    obtain ⟨hi₁, hle₁, hts₁, ha⟩ := ih₁ (Int.le_refl _) trivial hts.tail
    obtain ⟨hi₂, hle₂, hts₂, hb⟩ := ih₂ (Int.le_refl _) trivial hts₁.tail
    obtain ⟨hi₃, hle₃, hts₃, hstep⟩ := ih₃ (Int.le_refl _) trivial hts₂
    obtain ⟨hi₄, hle₄, hts₄, hbody⟩ := ih₄ (Int.le_refl _) trivial hts₃
    have hlaid := Laid.token hname hK (.node ha (.node hb (nil (Int.le_refl _))))
    have hlaid := (hlaid.append hstep).append (one hbody)
    exact ⟨hi₄, by omega, hts₄, within_last hlaid List.getLast?_concat rfl ⟨_, ht, rfl⟩
      (Int.le_trans hle hstart) (Int.le_of_lt hlt)⟩
  | step _ _ ih =>
    obtain ⟨hi, hle₁, hts₁, he⟩ := ih hle trivial hts.tail
    exact ⟨hi, hle₁, hts₁, one he⟩
  | eachLoop _ _ _ _ _ ih₁ ih₂ =>
    cases hts with | cons ht hstart hlt hts =>
    obtain ⟨hname, hbehind, hK, hts⟩ := hts.front
    obtain ⟨hi₁, hle₁, hts₁, he⟩ := ih₁ (Int.le_refl _) trivial hts.tail
    obtain ⟨hi₂, hle₂, hts₂, hbody⟩ := ih₂ (Int.le_refl _) trivial hts₁
    have hlaid := Laid.token hname hK (.node he (one hbody))
    exact ⟨hi₂, by omega, hts₂, within_last hlaid rfl rfl ⟨_, ht, rfl⟩ (Int.le_trans hle hstart)
      (Int.le_of_lt hlt)⟩
  | whileLoop _ _ _ ih₁ ih₂ =>
    cases hts with | cons ht hstart hlt hts =>
    obtain ⟨hi₁, hle₁, hts₁, hc⟩ := ih₁ (Int.le_refl _) trivial hts
    obtain ⟨hi₂, hle₂, hts₂, hbody⟩ := ih₂ (Int.le_refl _) trivial hts₁
    exact ⟨hi₂, by omega, hts₂, within_last (.node hc (one hbody)) rfl rfl ⟨_, ht, rfl⟩
      (Int.le_trans hle hstart) (Int.le_of_lt hlt)⟩
  | functionBlock _ h₁ _ h₂ _ _ ih =>
    cases hts with | cons ht hstart hlt hts =>
    obtain ⟨hi₁, hle₁, hts₁, hhead⟩ := row_head h₁ h₂ hts
    obtain ⟨hi₂, hle₂, hts₂, hbody⟩ := ih (Int.le_refl _) trivial hts₁
    have hlaid := hhead.append (one hbody)
    exact ⟨hi₂, by omega, hts₂, within_last hlaid List.getLast?_concat rfl ⟨_, ht, rfl⟩
      (Int.le_trans hle hstart) (Int.le_of_lt hlt)⟩
  | functionExpression _ h₁ _ h₂ _ _ _ ih =>
    cases hts with | cons ht hstart hlt hts =>
    obtain ⟨hi₁, hle₁, hts₁, hhead⟩ := row_head h₁ h₂ hts
    obtain ⟨hi₂, hle₂, hts₂, hbody⟩ := ih (Int.le_refl _) trivial hts₁.tail
    have hlaid := hhead.append (one hbody)
    exact ⟨hi₂, by omega, hts₂, within_last hlaid List.getLast?_concat rfl ⟨_, ht, rfl⟩
      (Int.le_trans hle hstart) (Int.le_of_lt hlt)⟩

end

end Grammar

/-! ## What sources make -/

namespace TokenStream

open Token (Row Between)

variable {p q : Position} {cs : List Char} {all ts us : List Token} {source file : String}
  {s : TokenStream}

/-- A token starts where its lexeme does and ends a step behind that or where its lexeme ends. -/
theorem extent_of_token? {l : Lexeme} {t : Token} (h : t ∈ l.token? p q) :
    t.start = p ∧ (t.stop = p.next ∨ t.stop = q) := by
  cases l with
  | skipped => cases h
  | mark kind value =>
    cases h
    exact ⟨rfl, .inl rfl⟩
  | word kind value =>
    cases h
    exact ⟨rfl, .inr rfl⟩

/-- The tokens of a text stand in a row, in front of what stands behind the text. -/
theorem Scans.row (h : Scans p cs ts q) (hts : ∀ t ∈ ts, t ∈ all) (hus : Row all q.index us) :
    Row all p.index (ts ++ us) := by
  induction h with
  | nil => exact hus
  | @cons p c cs l taken rest ts q hread _ ih =>
    have hrest := ih (fun t ht => hts t (List.mem_append_right _ ht)) hus
    rw [index_pastAll] at hrest
    have hlength : 0 < taken.length := List.length_pos_iff.mpr (Lexeme.read_ne_nil hread)
    cases htoken : l.token? p (p.pastAll taken) with
    | none => exact hrest.mono (by omega)
    | some t =>
      obtain ⟨hstart, hstop⟩ := extent_of_token? htoken
      have hnext : p.next.index = p.index + 1 := rfl
      have hindex : p.index < t.stop.index ∧ t.stop.index ≤ p.index + taken.length := by
        rcases hstop with hstop | hstop
        · rw [hstop]
          omega
        · rw [hstop, index_pastAll]
          omega
      rw [htoken] at hts
      refine .cons (hts t List.mem_cons_self) ?_ ?_ (hrest.mono hindex.2)
      · rw [hstart]
      · rw [hstart]
        exact hindex.1

theorem Scans.file_eq (h : Scans p cs ts q) :
    q.file = p.file ∧ ∀ t ∈ ts, t.start.file = p.file ∧ t.stop.file = p.file := by
  induction h with
  | nil => exact ⟨rfl, List.forall_mem_nil _⟩
  | @cons p c cs l taken rest ts q _ _ ih =>
    rw [Position.file_pastAll] at ih
    refine ⟨ih.1, fun t ht => ?_⟩
    rcases List.mem_append.mp ht with ht | ht
    · obtain ⟨hstart, hstop⟩ := extent_of_token? (Option.mem_toList.mp ht)
      rw [hstart]
      rcases hstop with hstop | hstop
      · exact ⟨rfl, by rw [hstop, Position.next_file]⟩
      · exact ⟨rfl, by rw [hstop, Position.file_pastAll]⟩
    · exact ih.2 t ht

theorem row_ofSource (h : ofSource source file = .ok s) : Row s.toList 0 s.toList := by
  obtain ⟨q, hscans, heof⟩ := scans_of_ofSource h
  refine hscans.row (fun t ht => List.mem_append_left _ ht) (.cons ?_ ?_ ?_ .nil)
  · exact List.mem_append_right _ (List.mem_singleton_self _)
  · rw [heof]
    exact Int.le_refl _
  · rw [heof]
    exact Int.lt_succ _

/-- All tokens of a source stand in its file. -/
theorem file_ofSource (h : ofSource source file = .ok s) :
    ∀ t ∈ s.toList, t.start.file = file ∧ t.stop.file = file := by
  obtain ⟨q, hscans, heof⟩ := scans_of_ofSource h
  obtain ⟨hq, hts⟩ := hscans.file_eq
  intro t ht
  rcases List.mem_append.mp ht with ht | ht
  · exact hts t ht
  · rw [List.mem_singleton.mp ht, heof]
    exact ⟨hq, hq⟩

/-- A span between tokens of a source is one of the source's file and not empty. -/
theorem file_of_between (h : ofSource source file = .ok s) (hpq : Between s.toList p q) :
    p.file = file ∧ q.file = file := by
  obtain ⟨⟨t, ht, rfl⟩, ⟨u, hu, rfl⟩, -⟩ := hpq
  exact ⟨(file_ofSource h t ht).1, (file_ofSource h u hu).2⟩

end TokenStream

/-- What lies between tokens ends where the last of them does. -/
theorem Node.Laid.stop_le {all : List Token} {lo hi stop : Int} {ps : List Node.Part}
    (h : Node.Laid (Token.Between all) lo hi ps) (hstop : ∀ t ∈ all, t.stop.index ≤ stop)
    (hlo : lo ≤ stop) : Node.Laid (Token.Between all) lo stop ps := by
  cases hlast : ps.getLast? with
  | none =>
    rw [List.getLast?_eq_none_iff.mp hlast]
    exact .nil hlo
  | some p =>
    obtain ⟨⟨-, ⟨t, ht, hp⟩, -⟩, -⟩ :=
      h.inOrder.of_mem (fun _ _ h => h.lt) (List.mem_of_getLast? hlast)
    apply (h.trim hlast).mono (Int.le_refl _)
    rw [← hp]
    exact hstop t ht

/-- A program starts where its first token does and ends behind the mark of the end. -/
theorem Grammar.Program.ordered {r : Reading} {s : TokenStream} {block : Node}
    (h : Program r s block) (hs : Token.Row s.toList 0 s.toList) :
    block.Ordered (Token.Between s.toList) := by
  obtain ⟨hnew, hss, -⟩ := h
  have hstop : ∀ t ∈ s.toList, t.stop.index ≤ s.eof.stop.index := hs.stop_le
  have heof : s.eof ∈ s.toList := List.mem_append_right _ (List.mem_singleton_self _)
  have hfirst : s.tokens.headD s.eof ∈ s.toList ∧
      Token.Row s.toList (s.tokens.headD s.eof).start.index s.tokens := by
    cases htokens : s.tokens with
    | nil => exact ⟨heof, .nil⟩
    | cons t ts =>
      have hrow := hs.left
      rw [htokens] at hrow
      cases hrow with
      | cons ht hstart hlt hts => exact ⟨ht, .cons ht (Int.le_refl _) hlt hts⟩
  obtain ⟨hi, -, -, hlaid⟩ := hss.within (Int.le_refl _) trivial (hnew.row hfirst.2)
  have hlt : (s.tokens.headD s.eof).start.index < s.eof.stop.index := by
    have hbehind := (hs.of_mem hfirst.1).2
    have hle := hstop _ hfirst.1
    omega
  exact .of_laid (between_tokens hfirst.1 heof hlt) (hlaid.stop_le hstop (Int.le_of_lt hlt))

/-- All nodes of a source's program go from one of its tokens to one behind it. -/
theorem Node.ordered_ofSource {limits : Limits} {source file : String} {program : Node}
    (h : Node.ofSource limits source file = .ok program) :
    ∃ s, TokenStream.ofSource source file = .ok s ∧
      program.Ordered (Token.Between s.toList) := by
  unfold Node.ofSource at h
  cases hs : TokenStream.ofSource source file with
  | error d => rw [hs] at h; cases h
  | ok s =>
    rw [hs] at h
    obtain ⟨q, hscans, -⟩ := TokenStream.scans_of_ofSource hs
    obtain ⟨rest, hrun⟩ := Parser.run_of_ofTokens h
    have hprogram := Parser.ensures_program (TokenStream.kind_eof_ofSource hs) hscans.kind_ne_eof
      _ _ hrun
    exact ⟨s, rfl, hprogram.ordered (TokenStream.row_ofSource hs)⟩

/-- From a place in the file to a later one. -/
structure Position.Precedes (file : String) (p q : Position) : Prop where
  start : p.file = file
  stop : q.file = file
  lt : p.index < q.index

/-- In the program of a source every node takes a stretch of the file, and the tokens and nodes that
it is put together from take stretches of this one, one behind another. -/
theorem Node.orderly_ofSource {limits : Limits} {source file : String} {program : Node}
    (h : Node.ofSource limits source file = .ok program) :
    ∀ e ∈ program.preorder, e.Orderly (Position.Precedes file) := by
  intro e he
  obtain ⟨s, hs, hprogram⟩ := Node.ordered_ofSource h
  have horderly := (hprogram.of_mem_preorder he).orderly fun _ _ h => h.lt
  refine horderly.mono fun p q hpq => ?_
  obtain ⟨hp, hq⟩ := TokenStream.file_of_between hs hpq
  exact ⟨hp, hq, hpq.lt⟩

/-- The parts of a sum of a signed and a called operand. -/
theorem Node.orderly_ofSource_sum :
    ∃ program, Node.ofSource Limits.standard "-(a) +\tb(1,\n2)" "f" = .ok program ∧
      program.preorder.length = 8 ∧
      ∀ e ∈ program.preorder, e.Orderly (Position.Precedes "f") := by
  have hlength : (Node.ofSource Limits.standard "-(a) +\tb(1,\n2)" "f").toOption.map
      (·.preorder.length) = some 8 := by decide +kernel
  cases hprogram : Node.ofSource Limits.standard "-(a) +\tb(1,\n2)" "f" with
  | error d =>
    rw [hprogram] at hlength
    cases hlength
  | ok program =>
    rw [hprogram] at hlength
    exact ⟨program, rfl, Option.some.inj hlength, Node.orderly_ofSource hprogram⟩

theorem Node.liesIn_ofSource {limits : Limits} {source file : String} {program : Node}
    (h : Node.ofSource limits source file = .ok program) :
    ∃ s, TokenStream.ofSource source file = .ok s ∧
      program.LiesIn (Token.Between s.toList) := by
  obtain ⟨s, hs, hprogram⟩ := Node.ordered_ofSource h
  exact ⟨s, hs, hprogram.liesIn⟩

end Lumen
