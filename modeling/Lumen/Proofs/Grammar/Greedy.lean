import Lumen.Proofs.Grammar.Tails

/-!
# Reading greedily

Whatever derives also does so when every tail is as long as it can be. A tail that takes more than
it did takes it from the tails around it, so the greedy derivation of a phrase may end further on
than the given one. What is still open behind a phrase is a stack of tails. The two derivations of a
phrase leave stacks of which the greedy one covers the other, and whatever covers a stack gets to
the tokens that the stack gets to.
-/

namespace Lumen.Grammar

open Lumen.Parser (Nesting)

/-! ## Phrases that are read greedily -/

def Phrase.Shape : Phrase → Yield → Prop
  | .statements, y | .moreStatements, y | .arguments, y | .moreArguments, y => ∃ ns, y = .nodes ns
  | .clauses, y => ∃ cases otherwise, y = .clauses cases otherwise
  | .step, y => ∃ e, y = .optional e
  | _, y => ∃ e, y = .node e

theorem Derives.shape {r : Reading} {φ : Phrase} {n : Nesting} {ts rest : List Token} {y : Yield}
    (h : Derives r φ n ts rest y) : φ.Shape y := by
  cases h <;> first | exact ⟨_, rfl⟩ | exact ⟨_, _, rfl⟩

/-- The phrase leads from the tokens `ts` to the tokens `rest` when it is read greedily. -/
def Leads (φ : Phrase) (n : Nesting) (ts rest : List Token) : Prop :=
  ∃ y, Derives .greedy φ n ts rest y

section

variable {φ : Phrase} {n : Nesting} {ts rest : List Token}

theorem Leads.node (h : Leads φ n ts rest) (hφ : φ.Shape = fun y => ∃ e, y = .node e) :
    ∃ e, Derives .greedy φ n ts rest (.node e) := by
  obtain ⟨y, h⟩ := h
  have hshape := h.shape
  rw [hφ] at hshape
  obtain ⟨e, rfl⟩ := hshape
  exact ⟨e, h⟩

theorem Leads.nodes (h : Leads φ n ts rest) (hφ : φ.Shape = fun y => ∃ es, y = .nodes es) :
    ∃ es, Derives .greedy φ n ts rest (.nodes es) := by
  obtain ⟨y, h⟩ := h
  have hshape := h.shape
  rw [hφ] at hshape
  obtain ⟨es, rfl⟩ := hshape
  exact ⟨es, h⟩

theorem Leads.clauses (h : Leads .clauses n ts rest) :
    ∃ cases otherwise, Derives .greedy .clauses n ts rest (.clauses cases otherwise) := by
  obtain ⟨y, h⟩ := h
  obtain ⟨cases, otherwise, rfl⟩ := h.shape
  exact ⟨cases, otherwise, h⟩

theorem Leads.step (h : Leads .step n ts rest) :
    ∃ e, Derives .greedy .step n ts rest (.optional e) := by
  obtain ⟨y, h⟩ := h
  obtain ⟨e, rfl⟩ := h.shape
  exact ⟨e, h⟩

theorem Level.shape_operand (ℓ : Level) : ℓ.operand.Shape = fun y => ∃ e, y = .node e := by
  cases ℓ <;> rfl

end

def Tail.phrase : Tail → Node → Phrase
  | chain ℓ, left => .chain ℓ left
  | choice, left => .choice left
  | suffixes, left => .suffixes left
  | clauses, _ => .clauses

theorem Tail.leads_of_not_starts {τ : Tail} {ts : List Token} (h : τ.starts ts = false)
    (n : Nesting) (left : Node) : Leads (τ.phrase left) n ts ts := by
  cases τ with
  | chain ℓ => exact ⟨_, .endChain fun _ => h⟩
  | choice => exact ⟨_, .noChoice fun _ => h⟩
  | suffixes => exact ⟨_, .endSuffixes fun _ => h⟩
  | clauses => exact ⟨_, .endClauses fun _ => h⟩

/-- A tail takes no tokens or is carried on by the first one. -/
theorem Derives.eq_or_starts (τ : Tail) (left : Node) {r : Reading} {n : Nesting}
    {ts rest : List Token} {y : Yield} (h : Derives r (τ.phrase left) n ts rest y) :
    ts = rest ∨ τ.starts ts := by
  cases τ with
  | chain ℓ =>
    cases h with
    | endChain _ => exact .inl rfl
    | chain ht _ _ => exact .inr (Tail.starts_chain ht)
  | choice =>
    cases h with
    | noChoice _ => exact .inl rfl
    | choice ht _ _ _ => exact .inr (Tail.starts_choice ht)
  | suffixes =>
    cases h with
    | endSuffixes _ => exact .inl rfl
    | call ht _ _ _ => exact .inr (Tail.starts_suffixes (.inl ht))
    | index ht _ _ _ _ _ => exact .inr (Tail.starts_suffixes (.inr ht))
    | slice ht _ _ _ _ _ _ _ _ _ => exact .inr (Tail.starts_suffixes (.inr ht))
  | clauses =>
    cases h with
    | endClauses _ => exact .inl rfl
    | elseIf hnewlines ht _ _ _ => exact .inr (hnewlines.starts_clauses_of (.inl ht))
    | otherwise hnewlines ht _ => exact .inr (hnewlines.starts_clauses_of (.inr ht))

theorem Derives.eq_of_barrier (τ : Tail) (left : Node) {r : Reading} {n : Nesting}
    {ts rest : List Token} {y : Yield} (h : Derives r (τ.phrase left) n ts rest y)
    (hts : Barrier ts) : ts = rest :=
  (h.eq_or_starts τ left).resolve_right (Bool.eq_false_iff.mp (hts τ))

/-! ## Where a phrase may stand -/

/-- What may stand in `m` may stand in `n`. -/
structure Fits (m n : Nesting) : Prop where
  inLoop : m.inLoop → n.inLoop
  inFunction : m.inFunction → n.inFunction

namespace Fits

variable {m n : Nesting}

theorem refl (n : Nesting) : Fits n n := ⟨id, id⟩

theorem trans {k : Nesting} (h : Fits k m) (h' : Fits m n) : Fits k n :=
  ⟨fun hk => h'.inLoop (h.inLoop hk), fun hk => h'.inFunction (h.inFunction hk)⟩

theorem loopBody (n : Nesting) : Fits n n.loopBody := ⟨fun _ => rfl, id⟩

theorem loopBody_mono (h : Fits m n) : Fits m.loopBody n.loopBody := ⟨fun _ => rfl, h.inFunction⟩

theorem functionBody (h : n.inLoop = false) : Fits n .functionBody :=
  ⟨fun hn => (Bool.eq_false_iff.mp h hn).elim, fun _ => rfl⟩

end Fits

/-! ## Open tails -/

/-- A tail that is still open behind a phrase, and where it stands. -/
structure Frame where
  tail : Tail
  nesting : Nesting

/-- None of the open tails stands where more is allowed than in `n`. -/
def Bounded (σ : List Frame) (n : Nesting) : Prop := ∀ f ∈ σ, Fits f.nesting n

/-- The stack has the open tails of another one, in the same order and where as much is allowed. It
may have others among them, but none where less is allowed than in a tail further out. -/
inductive Covers : List Frame → List Frame → Prop where
  | nil {S} : Covers [] S
  | keep {f g σ S} : f.tail = g.tail → Bounded (f :: σ) g.nesting → Covers σ S →
      Covers (f :: σ) (g :: S)
  | skip {g σ S} : Bounded σ g.nesting → Covers σ S → Covers σ (g :: S)

/-- The open tails, the innermost first, take the tokens up to `rest`, each as many as it can. -/
inductive Closes : List Frame → List Token → List Token → Prop where
  | nil {ts} : Closes [] ts ts
  | cons {f S ts ts₁ rest} : (∀ left, Leads (f.tail.phrase left) f.nesting ts ts₁) →
      Closes S ts₁ rest → Closes (f :: S) ts rest

/-- Whatever covers the open tails `σ` takes the tokens up to `rest`. -/
def Reaches (σ : List Frame) (ts rest : List Token) : Prop := ∀ S, Covers σ S → Closes S ts rest

section

variable {σ S : List Frame} {f g : Frame} {m n : Nesting} {ts rest : List Token}

theorem bounded_nil (n : Nesting) : Bounded [] n := fun _ hf => (List.not_mem_nil hf).elim

theorem Bounded.mono (h : Bounded σ m) (hmn : Fits m n) : Bounded σ n :=
  fun f hf => (h f hf).trans hmn

theorem Bounded.cons (hf : Fits f.nesting n) (h : Bounded σ n) : Bounded (f :: σ) n :=
  List.forall_mem_cons.mpr ⟨hf, h⟩

theorem Bounded.head (h : Bounded (f :: σ) n) : Fits f.nesting n := h f List.mem_cons_self

theorem Bounded.tail (h : Bounded (f :: σ) n) : Bounded σ n :=
  fun g hg => h g (List.mem_cons_of_mem f hg)

theorem Covers.drop (h : Covers (f :: σ) S) : Covers σ S := by
  generalize hσ : f :: σ = σ' at h
  induction h with
  | nil => cases hσ
  | keep _ hbounded h _ =>
    obtain ⟨rfl, rfl⟩ := List.cons.inj hσ
    exact .skip hbounded.tail h
  | skip hbounded _ ih =>
    subst hσ
    exact .skip hbounded.tail (ih rfl)

theorem Covers.tail (h : Covers (f :: σ) (g :: S)) : Covers σ S := by
  cases h with
  | keep _ _ h => exact h
  | skip _ h => exact h.drop

/-- Before a token that carries on no tail all open tails end. -/
theorem reaches_of_barrier (h : Barrier ts) : Reaches [] ts ts := by
  intro S _
  induction S with
  | nil => exact .nil
  | cons f S ih => exact .cons (f.tail.leads_of_not_starts (h f.tail) f.nesting) (ih .nil)

end

/-! ## What a derivation says about greedy ones -/

/-- Wherever as much is allowed, the phrase takes the same tokens. -/
def Stays (φ : Phrase) (m : Nesting) (ts rest : List Token) : Prop :=
  ∀ n, Fits m n → Leads φ n ts rest

/-- The phrase may take more than the tokens up to `mid`, but what is open around it still gets to
where it got to. -/
def Grows (φ : Phrase) (m : Nesting) (ts mid : List Token) : Prop :=
  ∀ σ rest, Bounded σ m → Reaches σ mid rest → ∀ S n, Covers σ S → Fits m n →
    ∃ mid', Leads φ n ts mid' ∧ Closes S mid' rest

/-- What is open around the tail gets to where it got to if the tail is open as well. -/
def Resumes (τ : Tail) (m : Nesting) (ts mid : List Token) : Prop :=
  ∀ σ rest, Bounded σ m → Reaches σ mid rest → Reaches (⟨τ, m⟩ :: σ) ts rest

section

variable {φ ψ : Phrase} {τ : Tail} {m : Nesting} {ts ts₁ ts₂ mid : List Token}

theorem Stays.grows (h : Stays φ m ts mid) : Grows φ m ts mid :=
  fun _ _ _ hreach S n hcovers hn => ⟨mid, h n hn, hreach S hcovers⟩

theorem Grows.stays (h : Grows φ m ts mid) (hmid : Barrier mid) : Stays φ m ts mid := by
  intro n hn
  obtain ⟨mid', hleads, hcloses⟩ :=
    h [] mid (bounded_nil m) (reaches_of_barrier hmid) [] n .nil hn
  cases hcloses
  exact hleads

/-- A phrase that ends with another one, which may stand where more is allowed. -/
theorem Grows.ending {m' : Nesting} (inner : Nesting → Nesting) (h : Grows φ m' ts₁ mid)
    (hm : Fits m m') (hinner : ∀ n, Fits m n → Fits m' (inner n))
    (hlead : ∀ n mid', Fits m n → Leads φ (inner n) ts₁ mid' → Leads ψ n ts mid') :
    Grows ψ m ts mid := by
  intro σ rest hσ hreach S n hcovers hn
  obtain ⟨mid', hleads, hcloses⟩ :=
    h σ rest (hσ.mono hm) hreach S (inner n) hcovers (hinner n hn)
  exact ⟨mid', hlead n mid' hn hleads, hcloses⟩

/-- A phrase that ends with another one. -/
theorem Grows.last (h : Grows φ m ts₁ mid)
    (hlead : ∀ n mid', Fits m n → Leads φ n ts₁ mid' → Leads ψ n ts mid') : Grows ψ m ts mid :=
  h.ending id (.refl m) (fun _ hn => hn) hlead

theorem Covers.push {σ S : List Frame} {n : Nesting} (τ : Tail) (h : Covers σ S) (hσ : Bounded σ m)
    (hn : Fits m n) : Covers (⟨τ, m⟩ :: σ) (⟨τ, n⟩ :: S) :=
  .keep rfl (.cons hn (hσ.mono hn)) h

/-- A phrase that ends with another one and a tail behind it. -/
theorem Grows.opening (h : Grows φ m ts₁ ts₂) (hτ : Resumes τ m ts₂ mid)
    (hlead : ∀ n us mid', Fits m n → Leads φ n ts₁ us →
      (∀ left, Leads (τ.phrase left) n us mid') → Leads ψ n ts mid') : Grows ψ m ts mid := by
  intro σ rest hσ hreach S n hcovers hn
  obtain ⟨us, hleads, hcloses⟩ := h (⟨τ, m⟩ :: σ) rest (.cons (.refl m) hσ)
    (hτ σ rest hσ hreach) (⟨τ, n⟩ :: S) n (hcovers.push τ hσ hn) hn
  cases hcloses with
  | @cons _ _ _ mid' _ htail hcloses => exact ⟨mid', hlead n us mid' hn hleads htail, hcloses⟩

theorem Resumes.ending : Resumes τ m mid mid :=
  fun _ _ _ hreach S hcovers => hreach S hcovers.drop

/-- A token that carries on a tail carries on the innermost open tail of that sort, since no other
one takes it. -/
theorem reaches_of_starts {σ : List Frame} {rest : List Token} (hstarts : τ.starts ts)
    (h : ∀ n S, Fits m n → Covers (⟨τ, m⟩ :: σ) (⟨τ, n⟩ :: S) → Closes (⟨τ, n⟩ :: S) ts rest) :
    Reaches (⟨τ, m⟩ :: σ) ts rest := by
  intro S hS
  generalize hσ : ⟨τ, m⟩ :: σ = σ' at hS
  induction hS with
  | nil => cases hσ
  | @keep f g σ' S htail hbounded hcovers _ =>
    obtain ⟨rfl, rfl⟩ := List.cons.inj hσ
    obtain ⟨_, n⟩ := g
    subst htail
    exact h n S hbounded.head (.keep rfl hbounded hcovers)
  | @skip g σ' S hbounded hcovers ih =>
    subst hσ
    cases hg : g.tail.starts ts with
    | true =>
      obtain ⟨τ', n⟩ := g
      obtain rfl := Tail.eq_of_starts hstarts hg
      exact h n S hbounded.head (.skip hbounded hcovers)
    | false => exact .cons (g.tail.leads_of_not_starts hg g.nesting) (ih rfl)

/-- A tail that goes on behind a phrase. -/
theorem Resumes.again (hstarts : τ.starts ts) (h : Grows φ m ts₁ ts₂) (hτ : Resumes τ m ts₂ mid)
    (hlead : ∀ n us mid', Fits m n → Leads φ n ts₁ us →
      (∀ left, Leads (τ.phrase left) n us mid') → ∀ left, Leads (τ.phrase left) n ts mid') :
    Resumes τ m ts mid := by
  intro σ rest hσ hreach
  apply reaches_of_starts hstarts
  intro n S hn hcovers
  obtain ⟨us, hleads, hcloses⟩ := h (⟨τ, m⟩ :: σ) rest (.cons (.refl m) hσ)
    (hτ σ rest hσ hreach) (⟨τ, n⟩ :: S) n hcovers hn
  cases hcloses with
  | @cons _ _ _ mid' _ htail hcloses => exact .cons (hlead n us mid' hn hleads htail) hcloses

/-- A tail that goes on behind brackets. -/
theorem Resumes.behind (hstarts : τ.starts ts) (hτ : Resumes τ m ts₁ mid)
    (hlead : ∀ n mid', Fits m n → (∀ left, Leads (τ.phrase left) n ts₁ mid') →
      ∀ left, Leads (τ.phrase left) n ts mid') : Resumes τ m ts mid := by
  intro σ rest hσ hreach
  apply reaches_of_starts hstarts
  intro n S hn hcovers
  have hcloses := hτ σ rest hσ hreach (⟨τ, n⟩ :: S) hcovers
  cases hcloses with
  | @cons _ _ _ mid' _ htail hcloses => exact .cons (hlead n mid' hn htail) hcloses

/-- A tail that ends with a phrase. -/
theorem Resumes.last (hstarts : τ.starts ts) (h : Grows φ m ts₁ mid)
    (hlead : ∀ n mid', Fits m n → Leads φ n ts₁ mid' → ∀ left, Leads (τ.phrase left) n ts mid') :
    Resumes τ m ts mid := by
  intro σ rest hσ hreach
  apply reaches_of_starts hstarts
  intro n S hn hcovers
  obtain ⟨mid', hleads, hcloses⟩ := h σ rest hσ hreach S n hcovers.tail hn
  exact .cons (hlead n mid' hn hleads) hcloses

end

/-! ## Phrases in front of a token that carries on no tail -/

section

variable {r : Reading} {n : Nesting} {ts rest : List Token} {y : Yield}

theorem Derives.barrier_body (h : Derives r .body n ts rest y) : Barrier ts := by
  cases h with
  | blockBody h =>
    cases h with
    | block ht => exact barrier_of_is ht (by decide)
  | statementBody ht _ => exact barrier_of_is ht (by decide)

theorem Derives.barrier_step (h : Derives r .step n ts rest y) (hrest : Barrier rest) :
    Barrier ts := by
  cases h with
  | noStep => exact hrest
  | step ht _ => exact barrier_of_is ht (by decide)

theorem Derives.barrier_moreArguments (h : Derives r .moreArguments n ts rest y)
    (hrest : Barrier rest) : Barrier ts := by
  cases h with
  | lastArgument => exact hrest
  | moreArguments ht _ _ _ _ => exact barrier_of_is ht (by decide)

theorem Derives.barrier_moreStatements (h : Derives r .moreStatements n ts rest y)
    (hrest : Barrier rest) : Barrier ts := by
  cases h with
  | lastStatement => exact hrest
  | moreStatements ht hnewlines hs _ =>
    obtain ⟨u, us, rfl, hu⟩ := hs.opens (by decide)
    exact barrier_of_opens ht hnewlines hu (by decide)

end

/-! ## The alternatives of the grammar -/

section

variable {m : Nesting} {t u v w : Token} {ts ts₁ ts₂ ts₃ ts₄ ts₅ ts₆ mid : List Token}

theorem Grows.assignIndex (ht : t.kind = .identifier) (hu : u.is .paren "[") (h₁ : Newlines ts ts₁)
    (hi : Stays .expression m ts₁ ts₂) (h₂ : Newlines ts₂ (v :: w :: ts₃)) (hv : v.is .paren "]")
    (hw : w.is .operator "=") (h : Grows .expression m ts₃ mid) :
    Grows .expression m (t :: u :: ts) mid := by
  apply h.last
  intro n mid' hn h
  obtain ⟨i, hi⟩ := (hi n hn).node rfl
  obtain ⟨e, h⟩ := h.node rfl
  exact ⟨_, .assignIndex ht hu h₁ hi h₂ hv hw h⟩

theorem Grows.condition (h : Grows (.level .logical) m ts ts₁) (hτ : Resumes .choice m ts₁ mid) :
    Grows .ternary m ts mid := by
  apply h.opening hτ
  intro n us mid' _ h htail
  obtain ⟨c, h⟩ := h.node rfl
  obtain ⟨e, he⟩ := (htail c).node rfl
  exact ⟨_, .condition h he⟩

theorem Resumes.choice (ht : t.is .operator "?") (ha : Stays .expression m ts (u :: ts₁))
    (hu : u.is .operator ":") (hb : Grows .expression m ts₁ mid) :
    Resumes .choice m (t :: ts) mid := by
  apply Resumes.last (Tail.starts_choice ht) hb
  intro n mid' hn hb left
  obtain ⟨a, ha⟩ := (ha n hn).node rfl
  obtain ⟨b, hb⟩ := hb.node rfl
  exact ⟨_, .choice ht ha hu hb⟩

theorem Grows.level {ℓ : Level} (h : Grows ℓ.operand m ts ts₁)
    (hτ : Resumes (.chain ℓ) m ts₁ mid) : Grows (.level ℓ) m ts mid := by
  apply h.opening hτ
  intro n us mid' _ h htail
  obtain ⟨a, h⟩ := h.node ℓ.shape_operand
  obtain ⟨e, he⟩ := (htail a).node rfl
  exact ⟨_, .level h he⟩

theorem Resumes.chain {ℓ : Level} (ht : ℓ.joins t) (h : Grows ℓ.operand m ts ts₁)
    (hτ : Resumes (.chain ℓ) m ts₁ mid) : Resumes (.chain ℓ) m (t :: ts) mid := by
  apply Resumes.again (Tail.starts_chain ht) h hτ
  intro n us mid' _ h htail left
  obtain ⟨b, h⟩ := h.node ℓ.shape_operand
  obtain ⟨e, he⟩ := (htail (.binary left t b)).node rfl
  exact ⟨_, .chain ht h he⟩

theorem Grows.target (h : Grows .primary m ts ts₁) (hτ : Resumes .suffixes m ts₁ mid) :
    Grows .suffixed m ts mid := by
  apply h.opening hτ
  intro n us mid' _ h htail
  obtain ⟨a, h⟩ := h.node rfl
  obtain ⟨e, he⟩ := (htail a).node rfl
  exact ⟨_, .target h he⟩

theorem Resumes.call (ht : t.is .paren "(") (hargs : Stays .arguments m ts (u :: ts₁))
    (hu : u.is .paren ")") (hτ : Resumes .suffixes m ts₁ mid) :
    Resumes .suffixes m (t :: ts) mid := by
  apply Resumes.behind (Tail.starts_suffixes (.inl ht)) hτ
  intro n mid' hn htail left
  obtain ⟨args, hargs⟩ := (hargs n hn).nodes rfl
  obtain ⟨e, he⟩ := (htail (.call left args u.stop)).node rfl
  exact ⟨_, .call ht hargs hu he⟩

theorem Resumes.index (ht : t.is .paren "[") (h₁ : Newlines ts ts₁)
    (hi : Stays .expression m ts₁ ts₂) (h₂ : Newlines ts₂ (u :: ts₃)) (hu : u.is .paren "]")
    (hτ : Resumes .suffixes m ts₃ mid) : Resumes .suffixes m (t :: ts) mid := by
  apply Resumes.behind (Tail.starts_suffixes (.inr ht)) hτ
  intro n mid' hn htail left
  obtain ⟨i, hi⟩ := (hi n hn).node rfl
  obtain ⟨e, he⟩ := (htail (.index left i none u.stop)).node rfl
  exact ⟨_, .index ht h₁ hi h₂ hu he⟩

theorem Resumes.slice (ht : t.is .paren "[") (h₁ : Newlines ts ts₁)
    (hi : Stays .expression m ts₁ ts₂) (h₂ : Newlines ts₂ (v :: ts₃)) (hv : v.is .operator ":")
    (h₃ : Newlines ts₃ ts₄) (hj : Stays .expression m ts₄ ts₅) (h₄ : Newlines ts₅ (u :: ts₆))
    (hu : u.is .paren "]") (hτ : Resumes .suffixes m ts₆ mid) :
    Resumes .suffixes m (t :: ts) mid := by
  apply Resumes.behind (Tail.starts_suffixes (.inr ht)) hτ
  intro n mid' hn htail left
  obtain ⟨i, hi⟩ := (hi n hn).node rfl
  obtain ⟨j, hj⟩ := (hj n hn).node rfl
  obtain ⟨e, he⟩ := (htail (.index left i (some j) u.stop)).node rfl
  exact ⟨_, .slice ht h₁ hi h₂ hv h₃ hj h₄ hu he⟩

theorem Grows.conditional (ht : t.is .keyword "if") (hc : Stays .expression m ts ts₁)
    (h : Grows .body m ts₁ ts₂) (hτ : Resumes .clauses m ts₂ mid) :
    Grows .primary m (t :: ts) mid := by
  apply h.opening hτ
  intro n us mid' hn h htail
  obtain ⟨c, hc⟩ := (hc n hn).node rfl
  obtain ⟨b, h⟩ := h.node rfl
  obtain ⟨cases, otherwise, hclauses⟩ := Leads.clauses (htail b)
  exact ⟨_, .conditional ht hc h hclauses⟩

theorem Resumes.elseIf (hnewlines : Newlines ts (t :: ts₁)) (ht : t.is .keyword "elif")
    (hc : Stays .expression m ts₁ ts₂) (h : Grows .body m ts₂ ts₃)
    (hτ : Resumes .clauses m ts₃ mid) : Resumes .clauses m ts mid := by
  apply Resumes.again (hnewlines.starts_clauses_of (.inl ht)) h hτ
  intro n us mid' hn h htail left
  obtain ⟨c, hc⟩ := (hc n hn).node rfl
  obtain ⟨b, h⟩ := h.node rfl
  obtain ⟨cases, otherwise, hclauses⟩ := Leads.clauses (htail b)
  exact ⟨_, .elseIf hnewlines ht hc h hclauses⟩

theorem Resumes.otherwise (hnewlines : Newlines ts (t :: ts₁)) (ht : t.is .keyword "else")
    (h : Grows .body m ts₁ mid) : Resumes .clauses m ts mid := by
  apply Resumes.last (hnewlines.starts_clauses_of (.inr ht)) h
  intro n mid' _ h left
  obtain ⟨b, h⟩ := h.node rfl
  exact ⟨_, .otherwise hnewlines ht h⟩

/-- The body of a loop ends the loop, and stands in a loop wherever the loop stands. -/
theorem Grows.loop (h : Grows .body m.loopBody ts₁ mid)
    (hlead : ∀ n mid' body, Fits m n → Derives .greedy .body n.loopBody ts₁ mid' (.node body) →
      Leads .primary n ts mid') : Grows .primary m ts mid := by
  apply h.ending Nesting.loopBody (.loopBody m) (fun _ hn => hn.loopBody_mono)
  intro n mid' hn h
  obtain ⟨body, h⟩ := h.node rfl
  exact hlead n mid' body hn h

theorem Grows.forLoop (ht : t.is .keyword "for") (hname : u.kind = .identifier)
    (hv : v.is .operator "=") (ha : Stays .expression m ts (w :: ts₁))
    (hw : w.is .operator ":" ∨ w.is .keyword "to") (hb : Stays .expression m ts₁ ts₂)
    (hs : Stays .step m ts₂ ts₃) (h : Grows .body m.loopBody ts₃ mid) :
    Grows .primary m (t :: u :: v :: ts) mid := by
  apply h.loop
  intro n mid' body hn h
  obtain ⟨a, ha⟩ := (ha n hn).node rfl
  obtain ⟨b, hb⟩ := (hb n hn).node rfl
  obtain ⟨step, hs⟩ := (hs n hn).step
  exact ⟨_, .forLoop ht hname hv ha hw hb hs h⟩

theorem Grows.eachLoop (ht : t.is .keyword "each") (hname : u.kind = .identifier)
    (hv : v.is .keyword "in") (he : Stays .expression m ts ts₁)
    (h : Grows .body m.loopBody ts₁ mid) : Grows .primary m (t :: u :: v :: ts) mid := by
  apply h.loop
  intro n mid' body hn h
  obtain ⟨e, he⟩ := (he n hn).node rfl
  exact ⟨_, .eachLoop ht hname hv he h⟩

theorem Grows.whileLoop (ht : t.is .keyword "while") (hc : Stays .expression m ts ts₁)
    (h : Grows .body m.loopBody ts₁ mid) : Grows .primary m (t :: ts) mid := by
  apply h.loop
  intro n mid' body hn h
  obtain ⟨c, hc⟩ := (hc n hn).node rfl
  exact ⟨_, .whileLoop ht hc h⟩

end

/-! ## Natural derivations -/

/-- What a natural derivation of the phrase says about greedy ones. -/
def Regular (φ : Phrase) (m : Nesting) (ts mid : List Token) : Prop :=
  match φ with
  | .chain ℓ _ => Resumes (.chain ℓ) m ts mid
  | .choice _ => Resumes .choice m ts mid
  | .suffixes _ => Resumes .suffixes m ts mid
  | .clauses => Resumes .clauses m ts mid
  | .block => Stays .block m ts mid
  | .statements | .moreStatements | .arguments | .moreArguments | .step =>
    Barrier mid → Stays φ m ts mid
  | _ => Grows φ m ts mid

theorem Level.regular_operand {ℓ : Level} {m : Nesting} {ts mid : List Token}
    (h : Regular ℓ.operand m ts mid) : Grows ℓ.operand m ts mid := by
  cases ℓ <;> exact h

/-- Every natural derivation gives rise to greedy ones. -/
theorem Derives.regular {r : Reading} {φ : Phrase} {m : Nesting} {ts mid : List Token} {y : Yield}
    (h : Derives r φ m ts mid y) : r = .natural → Regular φ m ts mid := by
  induction h with
  | noStatements => exact fun _ _ n _ => ⟨_, .noStatements⟩
  | statements _ hss ih ihs =>
    intro hr hmid n hn
    obtain ⟨s, h⟩ := ((ih hr).stays (hss.barrier_moreStatements hmid) n hn).node rfl
    obtain ⟨ss, hs⟩ := (ihs hr hmid n hn).nodes rfl
    exact ⟨_, .statements h hs⟩
  | lastStatement => exact fun _ _ n _ => ⟨_, .lastStatement⟩
  | moreStatements ht hnewlines _ hss ih ihs =>
    intro hr hmid n hn
    obtain ⟨s, h⟩ := ((ih hr).stays (hss.barrier_moreStatements hmid) n hn).node rfl
    obtain ⟨ss, hs⟩ := (ihs hr hmid n hn).nodes rfl
    exact ⟨_, .moreStatements ht hnewlines h hs⟩
  | block ht h₁ _ h₂ hu ih =>
    intro hr n hn
    obtain ⟨ss, h⟩ := (ih hr (h₂.barrier (barrier_of_is hu (by decide))) n hn).nodes rfl
    exact ⟨_, .block ht h₁ h h₂ hu⟩
  | blockBody _ ih =>
    intro hr
    apply Stays.grows
    intro n hn
    obtain ⟨b, h⟩ := (ih hr n hn).node rfl
    exact ⟨_, .blockBody h⟩
  | statementBody ht _ ih =>
    intro hr
    apply (ih hr).last
    intro n mid' _ h
    obtain ⟨s, h⟩ := h.node rfl
    exact ⟨_, .statementBody ht h⟩
  | giveBackNothing ht hfunction hreturns =>
    intro hr
    subst hr
    apply Stays.grows
    intro n hn
    refine ⟨_, .giveBackNothing ht (hn.inFunction hfunction) ?_⟩
    exact .inr (hreturns.resolve_left (by decide))
  | giveBack ht hfunction _ ih =>
    intro hr
    apply (ih hr).last
    intro n mid' hn h
    obtain ⟨e, h⟩ := h.node rfl
    exact ⟨_, .giveBack ht (hn.inFunction hfunction) h⟩
  | breakLoop ht hloop => exact fun _ => Stays.grows fun n hn => ⟨_, .breakLoop ht (hn.inLoop hloop)⟩
  | continueLoop ht hloop =>
    exact fun _ => Stays.grows fun n hn => ⟨_, .continueLoop ht (hn.inLoop hloop)⟩
  | evaluate _ ih =>
    intro hr
    apply (ih hr).last
    intro n mid' _ h
    obtain ⟨e, h⟩ := h.node rfl
    exact ⟨_, .evaluate h⟩
  | assign ht hu _ ih =>
    intro hr
    apply (ih hr).last
    intro n mid' _ h
    obtain ⟨e, h⟩ := h.node rfl
    exact ⟨_, .assign ht hu h⟩
  | assignIndex ht hu h₁ _ h₂ hv hw _ ihi ih =>
    intro hr
    have hi := (ihi hr).stays (h₂.barrier (barrier_of_is hv (by decide)))
    exact .assignIndex ht hu h₁ hi h₂ hv hw (ih hr)
  | ternary _ ih =>
    intro hr
    apply (ih hr).last
    intro n mid' _ h
    obtain ⟨e, h⟩ := h.node rfl
    exact ⟨_, .ternary h⟩
  | condition _ _ ih ihτ => exact fun hr => .condition (ih hr) (ihτ hr)
  | noChoice _ | endChain _ | endSuffixes _ | endClauses _ => exact fun _ => Resumes.ending
  | choice ht _ hu _ iha ihb =>
    intro hr
    exact .choice ht ((iha hr).stays (barrier_of_is hu (by decide))) hu (ihb hr)
  | level _ _ ih ihτ => exact fun hr => .level (Level.regular_operand (ih hr)) (ihτ hr)
  | chain ht _ _ ih ihτ => exact fun hr => .chain ht (Level.regular_operand (ih hr)) (ihτ hr)
  | sign ht _ ih =>
    intro hr
    apply (ih hr).last
    intro n mid' _ h
    obtain ⟨e, h⟩ := h.node rfl
    exact ⟨_, .sign ht h⟩
  | unsigned _ ih =>
    intro hr
    apply (ih hr).last
    intro n mid' _ h
    obtain ⟨e, h⟩ := h.node rfl
    exact ⟨_, .unsigned h⟩
  | target _ _ ih ihτ => exact fun hr => .target (ih hr) (ihτ hr)
  | call ht _ hu _ ih ihτ =>
    exact fun hr => .call ht (ih hr (barrier_of_is hu (by decide))) hu (ihτ hr)
  | index ht h₁ _ h₂ hu _ ih ihτ =>
    intro hr
    have hi := (ih hr).stays (h₂.barrier (barrier_of_is hu (by decide)))
    exact .index ht h₁ hi h₂ hu (ihτ hr)
  | slice ht h₁ _ h₂ hv h₃ _ h₄ hu _ ihi ihj ihτ =>
    intro hr
    have hi := (ihi hr).stays (h₂.barrier (barrier_of_is hv (by decide)))
    have hj := (ihj hr).stays (h₄.barrier (barrier_of_is hu (by decide)))
    exact .slice ht h₁ hi h₂ hv h₃ hj h₄ hu (ihτ hr)
  | noArguments h => exact fun _ _ n _ => ⟨_, .noArguments h⟩
  | arguments h₁ _ h₂ hes ih ihs =>
    intro hr hmid n hn
    obtain ⟨e, h⟩ := ((ih hr).stays (h₂.barrier (hes.barrier_moreArguments hmid)) n hn).node rfl
    obtain ⟨es, hs⟩ := (ihs hr hmid n hn).nodes rfl
    exact ⟨_, .arguments h₁ h h₂ hs⟩
  | lastArgument => exact fun _ _ n _ => ⟨_, .lastArgument⟩
  | moreArguments ht h₁ _ h₂ hes ih ihs =>
    intro hr hmid n hn
    obtain ⟨e, h⟩ := ((ih hr).stays (h₂.barrier (hes.barrier_moreArguments hmid)) n hn).node rfl
    obtain ⟨es, hs⟩ := (ihs hr hmid n hn).nodes rfl
    exact ⟨_, .moreArguments ht h₁ h h₂ hs⟩
  | number ht => exact fun _ => Stays.grows fun n _ => ⟨_, .number ht⟩
  | text ht => exact fun _ => Stays.grows fun n _ => ⟨_, .text ht⟩
  | null ht => exact fun _ => Stays.grows fun n _ => ⟨_, .null ht⟩
  | lookup ht => exact fun _ => Stays.grows fun n _ => ⟨_, .lookup ht⟩
  | parentheses ht h₁ _ h₂ hu ih =>
    intro hr
    apply Stays.grows
    intro n hn
    obtain ⟨e, h⟩ := ((ih hr).stays (h₂.barrier (barrier_of_is hu (by decide))) n hn).node rfl
    exact ⟨_, .parentheses ht h₁ h h₂ hu⟩
  | list ht _ hu ih =>
    intro hr
    apply Stays.grows
    intro n hn
    obtain ⟨es, h⟩ := (ih hr (barrier_of_is hu (by decide)) n hn).nodes rfl
    exact ⟨_, .list ht h hu⟩
  | conditional ht _ hbody _ ihc ih ihτ =>
    exact fun hr => .conditional ht ((ihc hr).stays hbody.barrier_body) (ih hr) (ihτ hr)
  | elseIf hnewlines ht _ hbody _ ihc ih ihτ =>
    exact fun hr => .elseIf hnewlines ht ((ihc hr).stays hbody.barrier_body) (ih hr) (ihτ hr)
  | otherwise hnewlines ht _ ih => exact fun hr => .otherwise hnewlines ht (ih hr)
  | @forLoop _ _ _ _ _ _ v ts₁ _ _ _ _ _ _ _ ht hname hu _ hv _ hstep hbody iha ihb ihstep ih =>
    intro hr
    have hbarrier : Barrier (v :: ts₁) := by
      rcases hv with hv | hv <;> exact barrier_of_is hv (by decide)
    have hb := (ihb hr).stays (hstep.barrier_step hbody.barrier_body)
    have hs := ihstep hr hbody.barrier_body
    exact .forLoop ht hname hu ((iha hr).stays hbarrier) hv hb hs (ih hr)
  | noStep => exact fun _ _ n _ => ⟨_, .noStep⟩
  | step ht _ ih =>
    intro hr hmid n hn
    obtain ⟨e, h⟩ := ((ih hr).stays hmid n hn).node rfl
    exact ⟨_, .step ht h⟩
  | eachLoop ht hname hu _ hbody ihe ih =>
    exact fun hr => .eachLoop ht hname hu ((ihe hr).stays hbody.barrier_body) (ih hr)
  | whileLoop ht _ hbody ihc ih =>
    exact fun hr => .whileLoop ht ((ihc hr).stays hbody.barrier_body) (ih hr)
  | functionBlock ht hname hu hparams hv _ ih =>
    intro hr
    apply Stays.grows
    intro n _
    obtain ⟨body, h⟩ := (ih hr .functionBody (.refl _)).node rfl
    exact ⟨_, .functionBlock ht hname hu hparams hv h⟩
  | @functionExpression r m _ _ _ _ _ _ _ _ _ _ _ ht hname hu hparams hv hw hbody ih =>
    intro hr
    subst hr
    cases hloop : m.inLoop with
    | true =>
      -- The body has been read greedily as it is.
      have hwithin : Reading.natural.within m = .greedy := by simp [Reading.within, hloop]
      rw [hwithin] at hbody
      apply Stays.grows
      exact fun n _ => ⟨_, .functionExpression ht hname hu hparams hv hw hbody⟩
    | false =>
      -- What is open around the function stands in no loop, so it may be open around its body.
      have hwithin : Reading.natural.within m = .natural := by simp [Reading.within, hloop]
      apply (ih hwithin).ending (fun _ => .functionBody) (.functionBody hloop) (fun _ _ => .refl _)
      intro n mid' _ h
      obtain ⟨body, h⟩ := h.node rfl
      exact ⟨_, .functionExpression ht hname hu hparams hv hw h⟩

/-- The tokens of a program that is read naturally are also one that is read greedily. -/
theorem Program.greedy {s : TokenStream} {block : Node} (h : Program .natural s block) :
    ∃ block', Program .greedy s block' := by
  cases h with
  | mk h₁ hs h₂ =>
    obtain ⟨ss, hs⟩ := (hs.regular rfl (h₂.barrier barrier_nil) .program (.refl _)).nodes rfl
    exact ⟨_, .mk h₁ hs h₂⟩

end Lumen.Grammar
