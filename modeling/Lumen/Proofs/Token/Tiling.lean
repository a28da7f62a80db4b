import Lumen.Proofs.Token.Scan
import Lumen.Proofs.Token.Spelling

/-!
# Tokens tile their text

The tokens of a text lie one behind another, each is the longest that its form allows, and what lies
between them is blank or a comment. A text that is tiled in this way is read to its end; any other
text is tiled up to a place where nothing can go on.
-/

namespace Lumen.TokenStream

open Lexeme (Form Spells Longest Stuck read)

def Covered (ts : List Token) (i : Nat) : Prop := ∃ t ∈ ts, t.start.index ≤ i ∧ i < t.stop.index

/-- A comment that starts at `start` or behind it has not ended before `stop`. -/
def Open (cs : List Char) (ts : List Token) (start stop : Nat) : Prop :=
  ∃ k, start ≤ k ∧ k < stop ∧ cs[k]? = some '#' ∧ ¬ Covered ts k ∧
    ∀ i, k ≤ i → i < stop → cs[i]? ≠ some '\n'

/-- Between two indexes the text is tokens in their order, blanks and comments. A comment runs to
the end of its line. -/
structure Tiling (cs : List Char) (start stop : Nat) (ts : List Token) : Prop where
  tokens : ∀ t ∈ ts, ∃ (i j : Nat) (f : Form), t.start.index = i ∧ t.stop.index = j ∧
    start ≤ i ∧ i < j ∧ j ≤ stop ∧ Spells f (cs.extract i j) t.kind t.value ∧
    Longest f (cs.extract i j) (cs.drop j)
  ordered : ts.Pairwise fun t u => t.stop.index ≤ u.start.index
  gaps : ∀ i, start ≤ i → i < stop → ¬ Covered ts i →
    Open cs ts start (i + 1) ∨ ∃ c, cs[i]? = some c ∧ Text.isBlank c ∧ c ≠ '\n'
  comments : ∀ i, start ≤ i → i < stop → Open cs ts start (i + 1) → ¬ Covered ts i

variable {cs : List Char} {n m stop i : Nat} {t : Token} {ts : List Token}

theorem covered_cons :
    Covered (t :: ts) i ↔ (t.start.index ≤ i ∧ i < t.stop.index) ∨ Covered ts i := by
  simp only [Covered, List.mem_cons, or_and_right, exists_or, exists_eq_left]

theorem not_covered (h : ∀ t ∈ ts, (m : Int) ≤ t.start.index) (hi : i < m) : ¬ Covered ts i := by
  rintro ⟨t, ht, hstart, -⟩
  have := h t ht
  omega

/-- No comment starts in a token. -/
theorem open_cons (hstart : t.start.index = n) (hstop : t.stop.index = m) (hnm : n ≤ m) :
    Open cs (t :: ts) n i ↔ Open cs ts m i := by
  constructor
  · rintro ⟨k, hnk, hki, hsharp, hcovered, hline⟩
    rw [covered_cons, not_or] at hcovered
    exact ⟨k, by omega, hki, hsharp, hcovered.2, hline⟩
  · rintro ⟨k, hmk, hki, hsharp, hcovered, hline⟩
    refine ⟨k, by omega, hki, hsharp, ?_, hline⟩
    rw [covered_cons, not_or]
    exact ⟨by omega, hcovered⟩

theorem Tiling.nil (cs : List Char) (n : Nat) : Tiling cs n n [] where
  tokens _ h := (List.not_mem_nil h).elim
  ordered := .nil
  gaps i h h' := by omega
  comments i h h' := by omega

theorem Tiling.start_le (h : Tiling cs n stop ts) : ∀ t ∈ ts, (n : Int) ≤ t.start.index := by
  intro t ht
  obtain ⟨i, j, f, hi, -, hn, -⟩ := h.tokens t ht
  omega

/-- A token in front of a tiling. -/
theorem tiling_cons {f : Form} (hstart : t.start.index = n) (hstop : t.stop.index = m)
    (hnm : n < m) (hm : m ≤ stop) (hspells : Spells f (cs.extract n m) t.kind t.value)
    (hlong : Longest f (cs.extract n m) (cs.drop m)) :
    Tiling cs n stop (t :: ts) ↔ Tiling cs m stop ts := by
  have hopen (i : Nat) : Open cs (t :: ts) n i ↔ Open cs ts m i := open_cons hstart hstop (Nat.le_of_lt hnm)
  have hcovered {i : Nat} (hi : m ≤ i) : Covered (t :: ts) i ↔ Covered ts i := by
    rw [covered_cons, or_iff_right]
    omega
  constructor
  · intro h
    have hordered := List.pairwise_cons.mp h.ordered
    refine ⟨fun u hu => ?_, hordered.2, fun i hi hi' hu => ?_, fun i hi hi' ho => ?_⟩
    · obtain ⟨i, j, g, hi, hj, -, hij⟩ := h.tokens u (List.mem_cons_of_mem t hu)
      have := hordered.1 u hu
      exact ⟨i, j, g, hi, hj, by omega, hij⟩
    · rw [← hopen]
      exact h.gaps i (by omega) hi' (mt (hcovered hi).mp hu)
    · rw [← hcovered hi]
      exact h.comments i (by omega) hi' ((hopen _).mpr ho)
  · intro h
    refine ⟨List.forall_mem_cons.mpr ⟨?_, fun u hu => ?_⟩,
      List.pairwise_cons.mpr ⟨fun u hu => ?_, h.ordered⟩, fun i hi hi' hu => ?_,
      fun i hi hi' ho => ?_⟩
    · exact ⟨n, m, f, hstart, hstop, Nat.le_refl n, hnm, hm, hspells, hlong⟩
    · obtain ⟨i, j, g, hi, hj, hmi, hij⟩ := h.tokens u hu
      exact ⟨i, j, g, hi, hj, by omega, hij⟩
    · rw [hstop]
      exact h.start_le u hu
    · have hmi : m ≤ i := by
        refine Nat.not_lt.mp fun hlt => hu (covered_cons.mpr (.inl ?_))
        omega
      rw [hopen]
      exact h.gaps i hmi hi' (mt (hcovered hmi).mpr hu)
    · have ho := (hopen _).mp ho
      obtain ⟨k, hk, hki, -⟩ := id ho
      rw [hcovered (by omega)]
      exact h.comments i (by omega) hi' ho

/-- Blanks or a comment in front of a tiling. -/
theorem tiling_skip (hnm : n ≤ m) (hts : ∀ t ∈ ts, (m : Int) ≤ t.start.index)
    (hgap : ∀ i, n ≤ i → i < m →
      Open cs ts n (i + 1) ∨ ∃ c, cs[i]? = some c ∧ Text.isBlank c ∧ c ≠ '\n')
    (hopen : ∀ i, m < i → i ≤ stop → Open cs ts n i → Open cs ts m i) :
    Tiling cs n stop ts ↔ Tiling cs m stop ts := by
  have hwider {i : Nat} : Open cs ts m i → Open cs ts n i :=
    fun ⟨k, hk, ho⟩ => ⟨k, by omega, ho⟩
  constructor
  · intro h
    refine ⟨fun t ht => ?_, h.ordered, fun i hi hi' hu => ?_, fun i hi hi' ho => ?_⟩
    · obtain ⟨i, j, f, hi, hj, -, hij⟩ := h.tokens t ht
      have := hts t ht
      exact ⟨i, j, f, hi, hj, by omega, hij⟩
    · exact (h.gaps i (by omega) hi' hu).imp_left (hopen (i + 1) (by omega) (by omega))
    · exact h.comments i (by omega) hi' (hwider ho)
  · intro h
    refine ⟨fun t ht => ?_, h.ordered, fun i hi hi' hu => ?_, fun i hi hi' ho => ?_⟩
    · obtain ⟨i, j, f, hi, hj, hmi, hij⟩ := h.tokens t ht
      exact ⟨i, j, f, hi, hj, by omega, hij⟩
    · rcases Nat.lt_or_ge i m with hlt | hge
      · exact hgap i hi hlt
      · exact (h.gaps i hge hi' hu).imp_left hwider
    · rcases Nat.lt_or_ge i m with hlt | hge
      · exact not_covered hts hlt
      · exact h.comments i hge hi' (hopen (i + 1) (by omega) (by omega) ho)

section

variable {c : Char} {rest : List Char}

theorem index_pastAll (p : Position) (cs : List Char) :
    (p.pastAll cs).index = p.index + cs.length := by
  induction cs generalizing p with
  | nil => simp
  | cons c cs ih =>
    rw [Position.pastAll_cons, ih, Position.past_index, List.length_cons]
    omega

/-- What is behind an index starts with the character that stands there. -/
theorem getElem?_of_drop (h : cs.drop n = c :: rest) : cs[n]? = some c := by
  have hfirst := congrArg (·[0]?) h
  simpa using hfirst

theorem drop_of_drop {taken : List Char} (h : cs.drop n = taken ++ rest) :
    cs.drop (n + taken.length) = rest := by
  rw [← List.drop_drop, h, List.drop_left]

theorem extract_of_drop {taken : List Char} (h : cs.drop n = taken ++ rest) :
    cs.extract n (n + taken.length) = taken := by
  rw [List.extract_eq_take_drop, h, Nat.add_sub_cancel_left, List.take_left]

theorem lt_length_of_drop (h : cs.drop n = c :: rest) : n < cs.length := by
  have hlength := congrArg List.length h
  rw [List.length_drop, List.length_cons] at hlength
  omega

theorem ne_sharp_of_isBlank (h : Text.isBlank c) : c ≠ '#' := by
  rintro rfl
  exact absurd h (by decide)

/-- A comment starts with its sign only. -/
theorem open_blank (h : cs[n]? = some c) (hc : c ≠ '#') (ho : Open cs ts n i) :
    Open cs ts (n + 1) i := by
  obtain ⟨k, hnk, hki, hsharp, hk⟩ := ho
  refine ⟨k, Nat.lt_of_le_of_ne hnk ?_, hki, hsharp, hk⟩
  rintro rfl
  exact hc (Option.some.inj (h.symm.trans hsharp))

theorem tiling_blank (h : cs[n]? = some c) (hblank : Text.isBlank c) (hc : c ≠ '\n')
    (hts : ∀ t ∈ ts, ((n + 1 : Nat) : Int) ≤ t.start.index) :
    Tiling cs n stop ts ↔ Tiling cs (n + 1) stop ts := by
  refine tiling_skip (Nat.le_add_right n 1) hts (fun i hi hi' => .inr ⟨c, ?_, hblank, hc⟩)
    fun i _ _ => open_blank h (ne_sharp_of_isBlank hblank)
  rwa [Nat.le_antisymm (Nat.lt_succ_iff.mp hi') hi]

theorem add_length_comment (n : Nat) (rest : List Char) :
    n + ('#' :: rest.takeWhile (· != '\n')).length =
      n + 1 + (rest.takeWhile (· != '\n')).length := by
  rw [List.length_cons]
  omega

/-- The rest of a line from a comment sign on has no line end in it, and the line end is behind
it. -/
theorem line_of_drop (h : cs.drop n = '#' :: rest)
    (hm : m = n + 1 + (rest.takeWhile (· != '\n')).length) :
    (∀ i, n ≤ i → i < m → cs[i]? ≠ some '\n') ∧ (m < cs.length → cs[m]? = some '\n') := by
  have hwhole : cs.drop n = ('#' :: rest.takeWhile (· != '\n')) ++ rest.dropWhile (· != '\n') := by
    rw [List.cons_append, List.takeWhile_append_dropWhile, h]
  constructor
  · intro i hi hi' hline
    obtain ⟨k, rfl⟩ := Nat.exists_eq_add_of_le hi
    rw [← List.getElem?_drop, hwhole, List.getElem?_append_left (by simp; omega)] at hline
    rcases List.mem_cons.mp (List.mem_of_getElem? hline) with hsharp | hmem
    · exact absurd hsharp (by decide)
    · exact absurd (List.all_eq_true.mp List.all_takeWhile _ hmem) (by decide)
  · intro hlt
    have hrest : cs.drop m = rest.dropWhile (· != '\n') := by
      rw [hm, Nat.add_assoc, Nat.add_comm 1]
      exact drop_of_drop hwhole
    have hstops := List.head?_dropWhile_not (· != '\n') rest
    rw [← hrest, List.head?_drop, List.getElem?_eq_getElem hlt] at hstops
    rw [List.getElem?_eq_getElem hlt]
    simpa using hstops

theorem open_comment (h : cs.drop n = '#' :: rest)
    (hm : m = n + 1 + (rest.takeWhile (· != '\n')).length) (hmi : m < i) (hi : i ≤ cs.length)
    (ho : Open cs ts n i) : Open cs ts m i := by
  obtain ⟨k, hnk, hki, hsharp, hk, hnoline⟩ := ho
  refine ⟨k, Nat.not_lt.mp fun hkm => ?_, hki, hsharp, hk, hnoline⟩
  exact hnoline m (Nat.le_of_lt hkm) hmi ((line_of_drop h hm).2 (by omega))

theorem tiling_comment (h : cs.drop n = '#' :: rest)
    (hm : m = n + 1 + (rest.takeWhile (· != '\n')).length) (hstop : stop ≤ cs.length)
    (hts : ∀ t ∈ ts, (m : Int) ≤ t.start.index) :
    Tiling cs n stop ts ↔ Tiling cs m stop ts := by
  refine tiling_skip (by omega) hts (fun i hi hi' => .inl ?_)
    fun i hmi hi => open_comment h hm hmi (by omega)
  exact ⟨n, Nat.le_refl n, by omega, getElem?_of_drop h, not_covered hts (by omega),
    fun j hj hj' => (line_of_drop h hm).1 j hj (by omega)⟩

/-- The token of a lexeme takes the characters that write it. -/
theorem token?_lexeme {f : Form} {taken : List Char} {kind : TokenKind} {value : Scalar}
    (h : Spells f taken kind value) (p : Position) :
    ∃ t, (f.lexeme kind value).token? p (p.pastAll taken) = some t ∧ t.kind = kind ∧
      t.value = value ∧ t.start = p ∧ t.stop.index = p.index + taken.length := by
  have hstop := index_pastAll p taken
  cases h with
  | newline => exact ⟨_, rfl, rfl, rfl, rfl, rfl⟩
  | paren => exact ⟨_, rfl, rfl, rfl, rfl, rfl⟩
  | _ => exact ⟨_, rfl, rfl, rfl, rfl, hstop⟩

theorem not_stuck_nil : ¬ Stuck [] := nofun

theorem not_stuck_newline : ¬ Stuck ('\n' :: rest) := by
  rintro (⟨hq, -⟩ | - | ⟨hblank, -⟩)
  · exact absurd hq (by decide)
  · exact absurd hblank (by decide)

/-- Where a line ends nothing is stuck. -/
theorem not_stuck_behind_line (h : m < cs.length → cs[m]? = some '\n') : ¬ Stuck (cs.drop m) := by
  rcases Nat.lt_or_ge m cs.length with hlt | hge
  · have hline := h hlt
    rw [List.getElem?_eq_getElem hlt, Option.some.injEq] at hline
    rw [List.drop_eq_getElem_cons hlt, hline]
    exact not_stuck_newline
  · rw [List.drop_eq_nil_of_le hge]
    exact not_stuck_nil

theorem scan_ok {l : Lexeme} {taken : List Char} (h : read c cs = .ok (l, taken, rest))
    (p : Position) : scan p (c :: cs) = (scan (p.pastAll taken) rest).map fun (ts, q) =>
      ((l.token? p (p.pastAll taken)).toList ++ ts, q) := by
  rw [scan]
  split
  · next heq => cases h.symm.trans heq
  · next heq =>
    cases h.symm.trans heq
    dsimp only
    cases scan (p.pastAll taken) rest <;> rfl

theorem scan_error {complaint : Complaint} (h : read c cs = .error complaint) (p : Position) :
    scan p (c :: cs) = .error (Diagnostic.between complaint (some p) none) := by
  rw [scan]
  split
  · next heq => cases h.symm.trans heq; rfl
  · next heq => cases h.symm.trans heq

/-- What is read at an index is put in front of a tiling of the rest. If the tiling ends where
nothing can go on, then no comment that is read reaches its end. -/
theorem tiling_front {p : Position} {l : Lexeme} {taken rest' : List Char}
    (hread : read c rest = .ok (l, taken, rest')) (hp : p.index = n) (hrest : cs.drop n = c :: rest)
    (hm : n + taken.length ≤ m) (hm' : m ≤ cs.length) (h : Tiling cs (n + taken.length) m ts) :
    Tiling cs n m ((l.token? p (p.pastAll taken)).toList ++ ts) ∧
      (Stuck (cs.drop m) → Open cs ((l.token? p (p.pastAll taken)).toList ++ ts) n m →
        Open cs ts (n + taken.length) m) := by
  have hwhole : cs.drop n = taken ++ rest' := hrest.trans (Lexeme.read_append hread).symm
  have hts := h.start_le
  have hnm : n < n + taken.length :=
    Nat.lt_add_of_pos_right (List.length_pos_iff.mpr (Lexeme.read_ne_nil hread))
  have hstarts := Lexeme.read_starts c rest
  rw [hread] at hstarts
  cases hstarts with
  | blank hblank hc =>
    have hn := getElem?_of_drop hrest
    exact ⟨(tiling_blank hn hblank hc hts).mpr h, fun _ => open_blank hn (ne_sharp_of_isBlank hblank)⟩
  | comment hc =>
    subst hc
    have hend := add_length_comment n rest
    refine ⟨(tiling_comment hrest hend hm' hts).mpr h, fun hstuck ho => ?_⟩
    -- The comment ends with its line, where nothing is stuck, so the tiling goes on behind it.
    refine open_comment hrest hend (Nat.lt_of_le_of_ne hm ?_) hm' ho
    rintro rfl
    exact not_stuck_behind_line ((line_of_drop hrest hend).2) hstuck
  | token hspells heq hlong =>
    obtain ⟨t, htoken, rfl, rfl, rfl, hend⟩ := token?_lexeme hspells p
    rw [htoken]
    rw [hp] at hend
    rw [← extract_of_drop hwhole] at hspells hlong
    rw [← drop_of_drop hwhole] at hlong
    exact ⟨(tiling_cons hp hend hnm hm hspells hlong).mpr h,
      fun _ => (open_cons hp hend (Nat.le_of_lt hnm)).mp⟩

/-- From an index on a text is read into tokens that tile it, to its end or up to a place where
nothing can go on. -/
theorem scan_tiles (p : Position) (rest : List Char) (hp : p.index = n) (hrest : cs.drop n = rest)
    (hn : n ≤ cs.length) :
    match scan p rest with
    | .ok (ts, q) => q.index = cs.length ∧ Tiling cs n cs.length ts
    | .error d => ∃ (q : Position) (m : Nat) (ts : List Token), d.span.start = .exact q ∧
        q.index = m ∧ n ≤ m ∧ Tiling cs n m ts ∧ ¬ Open cs ts n m ∧ Stuck (cs.drop m) := by
  induction p, rest using scan.induct generalizing n with
  | case1 p =>
    have hlength : n = cs.length := Nat.le_antisymm hn (List.drop_eq_nil_iff.mp hrest)
    subst hlength
    rw [scan]
    exact ⟨hp, .nil cs _⟩
  | case2 p c rest complaint hread =>
    rw [scan_error hread]
    have hstarts := Lexeme.read_starts c rest
    rw [hread] at hstarts
    cases hstarts with
    | stuck hstuck =>
      rw [← hrest] at hstuck
      refine ⟨p, n, [], rfl, hp, Nat.le_refl n, .nil cs n, ?_, hstuck⟩
      rintro ⟨k, hnk, hkn, -⟩
      omega
  | case3 p c rest l taken rest' hread =>
    rename_i ih
    rw [scan_ok hread]
    have hwhole : cs.drop n = taken ++ rest' := hrest.trans (Lexeme.read_append hread).symm
    have hlength : n + taken.length ≤ cs.length := by
      have := congrArg List.length hwhole
      rw [List.length_drop, List.length_append] at this
      omega
    have hstop : (p.pastAll taken).index = (n + taken.length : Nat) := by
      rw [index_pastAll, hp]
      omega
    have htail := ih hstop (drop_of_drop hwhole) hlength
    revert htail
    rcases scan (p.pastAll taken) rest' with d | ⟨ts, q⟩
    · rintro ⟨q, m, ts, hd, hq, hm, htiles, hopen, hstuck⟩
      have hm' : m ≤ cs.length := by
        refine Nat.le_of_not_lt fun hlt => not_stuck_nil ?_
        rwa [List.drop_eq_nil_of_le (Nat.le_of_lt hlt)] at hstuck
      obtain ⟨htiling, hshut⟩ := tiling_front hread hp hrest hm hm' htiles
      exact ⟨q, m, _, hd, hq, by omega, htiling, fun ho => hopen (hshut hstuck ho), hstuck⟩
    · rintro ⟨hq, htiles⟩
      exact ⟨hq, (tiling_front hread hp hrest hlength (Nat.le_refl _) htiles).1⟩

/-- Where a token takes the first character, that token is the first one and what is read. -/
theorem Tiling.read_token (h : Tiling cs n cs.length ts) (hrest : cs.drop n = c :: rest)
    (hcovered : Covered ts n) :
    ∃ l taken rest' us, read c rest = .ok (l, taken, rest') ∧
      Tiling cs (n + taken.length) cs.length us := by
  obtain _ | ⟨t, us⟩ := ts
  · obtain ⟨t, ht, -⟩ := hcovered
    exact (List.not_mem_nil ht).elim
  obtain ⟨i, j, f, hi, hj, hni, hij, hjs, hspells, hlong⟩ := h.tokens t List.mem_cons_self
  have hin : i = n := by
    rcases covered_cons.mp hcovered with ht | ⟨u, hu, hstart, -⟩
    · omega
    · have := (List.pairwise_cons.mp h.ordered).1 u hu
      omega
  subst hin
  have htail := (tiling_cons hi hj hij hjs hspells hlong).mp h
  have hwhole : cs.drop i = cs.extract i j ++ cs.drop j := by
    obtain ⟨k, rfl⟩ := Nat.exists_eq_add_of_le (Nat.le_of_lt hij)
    rw [List.extract_eq_take_drop, Nat.add_sub_cancel_left, ← List.drop_drop,
      List.take_append_drop]
  have hlength : (cs.extract i j).length = j - i := by
    rw [List.extract_eq_take_drop, List.length_take, List.length_drop]
    omega
  rw [hrest] at hwhole
  generalize cs.extract i j = taken at *
  generalize cs.drop j = rest' at *
  obtain _ | ⟨d, ds⟩ := taken
  · simp at hlength
    omega
  obtain ⟨rfl, rfl⟩ := List.cons.inj hwhole
  refine ⟨_, _, _, us, Lexeme.read_spells hspells hlong, ?_⟩
  rwa [hlength, Nat.add_sub_cancel' (Nat.le_of_lt hij)]

/-- Where no token takes the first character, that character is a blank or starts a comment. -/
theorem Tiling.read_gap (h : Tiling cs n cs.length ts) (hrest : cs.drop n = c :: rest)
    (hcovered : ¬ Covered ts n) :
    ∃ l taken rest' us, read c rest = .ok (l, taken, rest') ∧
      Tiling cs (n + taken.length) cs.length us := by
  have hn := getElem?_of_drop hrest
  have hlater (m : Nat) (hm : ∀ i, n ≤ i → i < m → ¬ Covered ts i) :
      ∀ t ∈ ts, (m : Int) ≤ t.start.index := by
    intro t ht
    obtain ⟨i, j, f, hi, hj, hni, hij, -⟩ := h.tokens t ht
    refine Int.not_lt.mp fun him => hm i hni (by omega) ⟨t, ht, by omega, by omega⟩
  rcases h.gaps n (Nat.le_refl n) (lt_length_of_drop hrest) hcovered with
    ⟨k, hnk, hkn, hsharp, -⟩ | ⟨d, hd, hblank, hnewline⟩
  · obtain rfl : n = k := by omega
    cases hn.symm.trans hsharp
    obtain ⟨hline, -⟩ := line_of_drop hrest rfl
    refine ⟨_, _, _, ts, Lexeme.read_comment rest, ?_⟩
    rw [add_length_comment]
    refine (tiling_comment hrest rfl (Nat.le_refl _) (hlater _ fun i hi hi' => ?_)).mp h
    have hlength : i < cs.length := by
      have hall := congrArg List.length hrest
      have htake := (List.takeWhile_prefix (l := rest) (· != '\n')).length_le
      rw [List.length_drop, List.length_cons] at hall
      omega
    exact h.comments i hi hlength ⟨n, Nat.le_refl n, by omega, hn, hcovered,
      fun j hj hj' => hline j hj (by omega)⟩
  · cases hn.symm.trans hd
    refine ⟨_, _, _, ts, Lexeme.read_blank hblank hnewline rest, ?_⟩
    refine (tiling_blank hn hblank hnewline (hlater _ fun i hi hi' => ?_)).mp h
    rwa [Nat.le_antisymm (Nat.lt_succ_iff.mp hi') hi]

/-- A tiling of the rest of a text starts with what the reader reads there. -/
theorem Tiling.read (h : Tiling cs n cs.length ts) (hrest : cs.drop n = c :: rest) :
    ∃ l taken rest' us, Lexeme.read c rest = .ok (l, taken, rest') ∧
      Tiling cs (n + taken.length) cs.length us := by
  by_cases hcovered : Covered ts n
  · exact h.read_token hrest hcovered
  · exact h.read_gap hrest hcovered

/-- What can be tiled is read to its end. -/
theorem scan_of_tiling (p : Position) (rest : List Char) (hrest : cs.drop n = rest)
    (h : Tiling cs n cs.length ts) : ∃ result, scan p rest = .ok result := by
  induction p, rest using scan.induct generalizing n ts with
  | case1 p =>
    rw [scan]
    exact ⟨_, rfl⟩
  | case2 p c rest complaint hread =>
    obtain ⟨l, taken, rest', us, hread', -⟩ := h.read hrest
    cases hread.symm.trans hread'
  | case3 p c rest l taken rest' hread =>
    rename_i ih
    obtain ⟨l, taken, rest', us, hread', htail⟩ := h.read hrest
    cases hread.symm.trans hread'
    have hwhole := hrest.trans (Lexeme.read_append hread).symm
    obtain ⟨result, hresult⟩ := ih (drop_of_drop hwhole) htail
    rw [scan_ok hread, hresult]
    exact ⟨_, rfl⟩

/-- A source that has tokens is tiled by them, with the mark of its end behind its last character.
A source that has none is tiled up to where the diagnostic starts, which is not in a comment. A
source has tokens if it can be tiled at all. -/
theorem ofSource_tiles (source file : String) :
    (match ofSource source file with
    | .ok s => Tiling source.toList 0 source.toList.length s.tokens ∧
        (∀ t ∈ s.tokens, t.kind ≠ .eof) ∧ s.eof.kind = .eof ∧ s.eof.value = .null ∧
        s.eof.start.index = source.toList.length
    | .error d => ∃ (p : Position) (n : Nat) (ts : List Token), d.span.start = .exact p ∧
        p.index = n ∧ Tiling source.toList 0 n ts ∧ ¬ Open source.toList ts 0 n ∧
        Stuck (source.toList.drop n)) ∧
    ((∃ s, ofSource source file = .ok s) ↔
      ∃ ts, Tiling source.toList 0 source.toList.length ts) := by
  have htiles := scan_tiles (n := 0) (Position.first file) source.toList rfl rfl (Nat.zero_le _)
  have hread {us : List Token} (h : Tiling source.toList 0 source.toList.length us) :=
    scan_of_tiling (Position.first file) source.toList rfl h
  have hscan : ofSource source file = (scan (Position.first file) source.toList).map
      fun (ts, q) => ⟨ts, Token.make .eof .null q none⟩ := by
    unfold ofSource
    cases scan (Position.first file) source.toList <;> rfl
  rw [hscan]
  revert htiles hread
  rcases hresult : scan (Position.first file) source.toList with d | ⟨ts, q⟩
  · rintro ⟨p, n, ts, hd, hp, -, htiles, hopen, hstuck⟩ hread
    refine ⟨⟨p, n, ts, hd, hp, htiles, hopen, hstuck⟩, ?_, ?_⟩
    · rintro ⟨s, hs⟩
      cases hs
    · rintro ⟨us, hus⟩
      obtain ⟨result, hok⟩ := hread hus
      cases hok
  · rintro ⟨hq, htiles⟩ -
    exact ⟨⟨htiles, (scans_of_scan hresult).kind_ne_eof, rfl, rfl, hq⟩, fun _ => ⟨ts, htiles⟩,
      fun _ => ⟨_, rfl⟩⟩

end

end Lumen.TokenStream
