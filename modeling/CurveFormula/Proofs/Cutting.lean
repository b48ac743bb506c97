import CurveFormula.Proofs.Grammar

/-!
# How a text is cut

A text is empty, or brackets enclose it, or it is a literal, or its brackets are at fault, or it has
an operator outside of brackets (`CutBefore`). Any other text is left to the functions (`Leftover`):
it is a function of a text in brackets, or it is refused. `cut_cases` is this inversion of `cut`,
and `cutting_of_cut` the part of it about the texts that are not refused.

`cut_of_operatorCut`, `cut_wrap`, `cut_call` and `cut_literal` give the value of `cut` from the way
the text is put together. A text that no brackets enclose is refused for a fault in its brackets
before anything else (`cut_of_bracketFault?`).

The branch of `functionCut` for a text that ends in `^2` is never taken: there the sign stands
outside of brackets, and the text has been cut at it before (`Leftover.not_isSuffixOf`).
-/

namespace CurveFormula.Parse

universe u

variable {α : Type u} {N : Numerals α}

/-- The stratum whose texts may have an operator outside of brackets, but none looser. -/
def Stratum.of : BinaryOp → Stratum
  | .add => .sum
  | .sub => .diff
  | .mul => .prod
  | .div => .quot
  | .pow => .power

/-- A text and its cut at the loosest operator outside of brackets. -/
inductive OperatorCut : Text → Cut α → Prop where
  /-- The operators other than the difference are cut at the first sign. -/
  | first {op : BinaryOp} {l r : Text} (hop : op ≠ .sub) (hl : nesting l = 0)
      (hs : ∀ c ∈ (Stratum.of op).excluded, Clear c (l ++ op.sign :: r)) (h : Clear op.sign l) :
      OperatorCut (l ++ op.sign :: r) (.binary op l r)
  /-- A difference is cut at the last sign that has a left operand. -/
  | last {l r : Text} (hne : l ≠ []) (hl : nesting l = 0) (hs : Clear '+' (l ++ '-' :: r))
      (h : Clear '-' r) : OperatorCut (l ++ '-' :: r) (.binary .sub l r)
  /-- A sign without a left operand negates what follows. -/
  | lead {r : Text} (hs : Clear '+' ('-' :: r)) (h : Clear '-' r) :
      OperatorCut ('-' :: r) (.unary .neg r)

theorem sign_mem_excluded (op : BinaryOp) : op.sign ∈ Stratum.atom.excluded := by
  cases op <;> decide

theorem noBracket_sign (op : BinaryOp) : NoBracket op.sign :=
  (excluded_operator _ _ (sign_mem_excluded op)).2

theorem take_append_drop_of_getElem? {s : Text} {i : ℕ} {c : Char} (h : s[i]? = some c) :
    s.take i ++ c :: s.drop (i + 1) = s := by
  obtain ⟨hlt, rfl⟩ := List.getElem?_eq_some_iff.1 h
  rw [← List.drop_eq_getElem_cons hlt, List.take_append_drop]

/-- The text before the least index at top level is clear. -/
theorem clear_take_of_isLeast {c : Char} {s : Text} {i : ℕ} (h : IsLeast (topLevel c s) i) :
    Clear c (s.take i) := by
  intro j hj
  have hlt := lt_length_of_mem_topLevel hj
  rw [List.length_take] at hlt
  have hj' : j ∈ topLevel c (s.take i ++ s.drop i) :=
    (mem_topLevel_append_left (by rw [List.length_take]; exact hlt)).2 hj
  rw [List.take_append_drop] at hj'
  have := h.2 hj'
  omega

/-- The index of a symbol between two texts. -/
theorem length_mem_topLevel {c : Char} {l r : Text} (hl : nesting l = 0) :
    l.length ∈ topLevel c (l ++ c :: r) := by
  show l.length + 0 ∈ topLevel c (l ++ c :: r)
  exact mem_topLevel_append_right.2 ⟨rfl, by simpa using hl⟩

theorem firstTopLevel_joined {c : Char} (hc : NoBracket c) {l r : Text} (hl : nesting l = 0)
    (h : Clear c l) : firstTopLevel c (l ++ c :: r) = some l.length := by
  rw [firstTopLevel_eq_some_iff hc]
  refine ⟨length_mem_topLevel hl, fun i hi => ?_⟩
  by_contra hlt
  exact h i ((mem_topLevel_append_left (by omega)).1 hi)

theorem lastTopLevel_joined {c : Char} (hc : NoBracket c) {l r : Text} (hl : nesting l = 0)
    (hr : nesting r = 0) (hne : l ≠ []) (h : Clear c r) :
    lastTopLevel c (l ++ c :: r) = some l.length := by
  have hs : nesting (l ++ c :: r) = 0 := by
    rw [nesting_append, nesting_cons hc, hl, hr]
    rfl
  rw [lastTopLevel_eq_some_iff hc hs]
  refine ⟨⟨length_mem_topLevel hl, by simpa using hne⟩, fun i hi => ?_⟩
  by_contra hlt
  obtain ⟨j, rfl⟩ := Nat.exists_eq_add_of_lt (Nat.lt_of_not_le hlt)
  have hj := mem_topLevel_append_right.1 (show l.length + (j + 1) ∈ _ from hi.1)
  refine h j ⟨hj.1, ?_⟩
  rw [List.take_succ_cons, nesting_cons hc, hl, Int.zero_add] at hj
  exact hj.2

theorem cutAt_length (op : BinaryOp) (l r : Text) :
    (cutAt op (l ++ op.sign :: r) l.length : Cut α) = .binary op l r := by
  simp [cutAt]

/-! ### The scans -/

/-- The cut at the first sign of an operator outside of brackets. -/
def firstCut? (op : BinaryOp) (s : Text) : Option (Cut α) :=
  (firstTopLevel op.sign s).map (cutAt op s)

/-- The cut at a minus sign: a difference if there is a left operand, else a negation. -/
def minusCut? (s : Text) : Option (Cut α) :=
  ((lastTopLevel '-' s).map (cutAt .sub s)).or
    (if s.head? = some '-' then some (.unary .neg s.tail) else none)

theorem operatorCut?_eq (s : Text) :
    (operatorCut? s : Option (Cut α)) =
      (firstCut? .add s).or ((minusCut? s).or
        ((firstCut? .mul s).or ((firstCut? .div s).or (firstCut? .pow s)))) := by
  unfold operatorCut? firstCut? minusCut?
  simp only [BinaryOp.sign]
  cases firstTopLevel '+' s with
  | some i => rfl
  | none =>
    cases lastTopLevel '-' s with
    | some i => rfl
    | none =>
      by_cases hh : s.head? = some '-'
      · simp [hh]
      · simp only [if_neg hh]
        cases firstTopLevel '*' s with
        | some i => rfl
        | none =>
          cases firstTopLevel '/' s with
          | some i => rfl
          | none => cases firstTopLevel '^' s <;> rfl

theorem firstCut?_eq_none_iff (op : BinaryOp) (s : Text) :
    (firstCut? op s : Option (Cut α)) = none ↔ Clear op.sign s := by
  rw [firstCut?, Option.map_eq_none_iff, firstTopLevel_eq_none_iff (noBracket_sign op)]

/-- The cut at the first sign, nothing looser being there. -/
theorem operatorCut_of_firstCut? {op : BinaryOp} (hop : op ≠ .sub) {s : Text} {c : Cut α}
    (hs : ∀ d ∈ (Stratum.of op).excluded, Clear d s) (h : firstCut? op s = some c) :
    OperatorCut s c := by
  obtain ⟨i, hi, rfl⟩ := Option.map_eq_some_iff.1 h
  have hleast := (firstTopLevel_eq_some_iff (noBracket_sign op) s i).1 hi
  have hsplit := take_append_drop_of_getElem? hleast.1.1
  have hcut : OperatorCut (s.take i ++ op.sign :: s.drop (i + 1)) (cutAt op s i : Cut α) :=
    .first hop hleast.1.2 (by rwa [hsplit]) (clear_take_of_isLeast hleast)
  rwa [hsplit] at hcut

theorem firstCut?_joined (op : BinaryOp) {l r : Text} (hl : nesting l = 0) (h : Clear op.sign l) :
    (firstCut? op (l ++ op.sign :: r) : Option (Cut α)) = some (.binary op l r) := by
  rw [firstCut?, firstTopLevel_joined (noBracket_sign op) hl h]
  exact congrArg some (cutAt_length op l r)

theorem minusCut?_eq_none_iff {s : Text} (hn : nesting s = 0) :
    (minusCut? s : Option (Cut α)) = none ↔ Clear '-' s := by
  rw [minusCut?, Option.or_eq_none_iff, Option.map_eq_none_iff,
    lastTopLevel_eq_none_iff (by decide) hn, ite_eq_right_iff]
  constructor
  · rintro ⟨h0, hh⟩ i hi
    have hhead := hi.1
    rw [h0 i hi, ← List.head?_eq_getElem?] at hhead
    cases hh hhead
  · intro h
    refine ⟨fun i hi => absurd hi (h i), fun hh => ?_⟩
    obtain ⟨t, rfl⟩ := List.head?_eq_some_iff.1 hh
    exact absurd ⟨rfl, rfl⟩ (h 0)

/-- The cut at the last sign of a difference. -/
theorem operatorCut_of_last {s : Text} (hn : nesting s = 0) {i : ℕ} (hs : Clear '+' s)
    (hi : lastTopLevel '-' s = some i) : OperatorCut s (cutAt .sub s i : Cut α) := by
  obtain ⟨⟨hmem, hi0⟩, hle⟩ := (lastTopLevel_eq_some_iff (by decide) hn i).1 hi
  have hsplit := take_append_drop_of_getElem? hmem.1
  have hlen : (s.take i).length = i := by
    rw [List.length_take]
    have := lt_length_of_mem_topLevel hmem
    omega
  have hne : s.take i ≠ [] := by
    intro h0
    rw [h0] at hlen
    exact hi0 hlen.symm
  have hclear : Clear '-' (s.drop (i + 1)) := by
    intro j hj
    have hmem' : (s.take i).length + (j + 1) ∈
        topLevel '-' (s.take i ++ '-' :: s.drop (i + 1)) := by
      refine mem_topLevel_append_right.2 ⟨hj.1, ?_⟩
      rw [List.take_succ_cons, nesting_cons (by decide), hmem.2, Int.zero_add]
      exact hj.2
    rw [hsplit, hlen] at hmem'
    have := hle ⟨hmem', by omega⟩
    omega
  have hcut : OperatorCut (s.take i ++ '-' :: s.drop (i + 1)) (cutAt .sub s i : Cut α) :=
    .last hne hmem.2 (by rwa [hsplit]) hclear
  rwa [hsplit] at hcut

/-- Behind a leading sign, the index of another one is not nought. -/
theorem clear_tail_of_lead {r : Text} (h : ∀ i ∈ topLevel '-' ('-' :: r), i = 0) :
    Clear '-' r := by
  intro j hj
  have := h (j + 1) ⟨hj.1, by rw [List.take_succ_cons, nesting_cons (by decide)]; exact hj.2⟩
  omega

theorem operatorCut_of_minusCut? {s : Text} (hn : nesting s = 0) {c : Cut α} (hs : Clear '+' s)
    (h : minusCut? s = some c) : OperatorCut s c := by
  unfold minusCut? at h
  cases hl : lastTopLevel '-' s with
  | some i =>
    rw [hl] at h
    cases h
    exact operatorCut_of_last hn hs hl
  | none =>
    have h0 := (lastTopLevel_eq_none_iff (by decide) hn).1 hl
    rw [hl, Option.map_none, Option.none_or] at h
    split_ifs at h with hh
    obtain ⟨t, rfl⟩ := List.head?_eq_some_iff.1 hh
    cases h
    exact .lead hs (clear_tail_of_lead h0)

theorem minusCut?_joined {l r : Text} (hne : l ≠ []) (hl : nesting l = 0) (hr : nesting r = 0)
    (h : Clear '-' r) : (minusCut? (l ++ '-' :: r) : Option (Cut α)) = some (.binary .sub l r) := by
  rw [minusCut?, lastTopLevel_joined (by decide) hl hr hne h]
  exact congrArg some (cutAt_length .sub l r)

theorem minusCut?_lead {r : Text} (hn : nesting ('-' :: r) = 0) (h : Clear '-' r) :
    (minusCut? ('-' :: r) : Option (Cut α)) = some (.unary .neg r) := by
  have hlast : lastTopLevel '-' ('-' :: r) = none := by
    refine (lastTopLevel_eq_none_iff (by decide) hn).2 fun i hi => ?_
    rcases i with _ | i
    · rfl
    · refine absurd ⟨hi.1, ?_⟩ (h i)
      have := hi.2
      rwa [List.take_succ_cons, nesting_cons (by decide)] at this
  rw [minusCut?, hlast]
  rfl

/-- The scans find a cut, or there is no operator outside of brackets. -/
theorem operatorCut?_cases {s : Text} (hn : nesting s = 0) :
    (∃ c : Cut α, operatorCut? s = some c ∧ OperatorCut s c) ∨
      (operatorCut? (α := α) s = none ∧ ∀ c ∈ Stratum.atom.excluded, Clear c s) := by
  have hnone (op : BinaryOp) := (firstCut?_eq_none_iff (α := α) op s).1
  rw [operatorCut?_eq]
  cases hp : firstCut? (α := α) .add s with
  | some c =>
    have hs : ∀ d ∈ (Stratum.of .add).excluded, Clear d s := by
      simp [Stratum.of, Stratum.excluded]
    exact Or.inl ⟨c, rfl, operatorCut_of_firstCut? (by decide) hs hp⟩
  | none =>
  have hp : Clear '+' s := hnone .add hp
  cases hm : minusCut? (α := α) s with
  | some c => exact Or.inl ⟨c, rfl, operatorCut_of_minusCut? hn hp hm⟩
  | none =>
  have hm := (minusCut?_eq_none_iff hn).1 hm
  cases ht : firstCut? (α := α) .mul s with
  | some c =>
    have hs : ∀ d ∈ (Stratum.of .mul).excluded, Clear d s := by
      simp [Stratum.of, Stratum.excluded, hp, hm]
    exact Or.inl ⟨c, rfl, operatorCut_of_firstCut? (by decide) hs ht⟩
  | none =>
  have ht : Clear '*' s := hnone .mul ht
  cases hd : firstCut? (α := α) .div s with
  | some c =>
    have hs : ∀ d ∈ (Stratum.of .div).excluded, Clear d s := by
      simp [Stratum.of, Stratum.excluded, hp, hm, ht]
    exact Or.inl ⟨c, rfl, operatorCut_of_firstCut? (by decide) hs hd⟩
  | none =>
  have hd : Clear '/' s := hnone .div hd
  cases he : firstCut? (α := α) .pow s with
  | some c =>
    have hs : ∀ d ∈ (Stratum.of .pow).excluded, Clear d s := by
      simp [Stratum.of, Stratum.excluded, hp, hm, ht, hd]
    exact Or.inl ⟨c, rfl, operatorCut_of_firstCut? (by decide) hs he⟩
  | none =>
  have he : Clear '^' s := hnone .pow he
  exact Or.inr ⟨rfl, by simp [Stratum.excluded, hp, hm, ht, hd, he]⟩

/-- **The loosest operator outside of brackets is where the scans cut.** -/
theorem operatorCut?_of_operatorCut {s : Text} (hn : nesting s = 0) {c : Cut α}
    (h : OperatorCut s c) : operatorCut? s = some c := by
  have hnone {s : Text} (op : BinaryOp) := (firstCut?_eq_none_iff (α := α) op s).2
  have hminus {s : Text} (hn : nesting s = 0) := (minusCut?_eq_none_iff (α := α) hn).2
  rw [operatorCut?_eq]
  cases h with
  | @first op l r hop hl hs h =>
    have hfirst := firstCut?_joined (α := α) (r := r) op hl h
    cases op with
    | add => rw [hfirst, Option.some_or]
    | sub => exact absurd rfl hop
    | mul =>
      rw [hnone .add (hs '+' (by decide)), hminus hn (hs '-' (by decide)), hfirst]
      rfl
    | div =>
      rw [hnone .add (hs '+' (by decide)), hminus hn (hs '-' (by decide)),
        hnone .mul (hs '*' (by decide)), hfirst]
      rfl
    | pow =>
      rw [hnone .add (hs '+' (by decide)), hminus hn (hs '-' (by decide)),
        hnone .mul (hs '*' (by decide)), hnone .div (hs '/' (by decide)), hfirst]
      rfl
  | @last l r hne hl hs h =>
    have hr : nesting r = 0 := by
      rw [nesting_append, nesting_cons (by decide), hl, Int.zero_add] at hn
      exact hn
    rw [hnone .add hs, minusCut?_joined hne hl hr h]
    rfl
  | @lead r hs h =>
    rw [hnone .add hs, minusCut?_lead hn h]
    rfl

/-- An operator that a text is cut at stands outside of brackets. -/
theorem OperatorCut.exists_topLevel {s : Text} {c : Cut α} (h : OperatorCut s c) :
    ∃ d ∈ Stratum.atom.excluded, ∃ i, i ∈ topLevel d s := by
  cases h with
  | @first op l r _ hl _ _ => exact ⟨_, sign_mem_excluded op, l.length, length_mem_topLevel hl⟩
  | @last l r _ hl _ _ => exact ⟨'-', by decide, l.length, length_mem_topLevel hl⟩
  | lead _ _ => exact ⟨'-', by decide, 0, rfl, rfl⟩

/-! ### Everything before the functions -/

/-- The cut of a text by everything that is tried before the functions; nothing if the text is left
to them. -/
def cutBefore? (N : Numerals α) (s : Text) : Option (Cut α) :=
  if s = [] then some (.refused .empty)
  else if isWrapped s then some (.bracketed (inner s))
  else if !s.any isOperatorChar then
    match literal? N s with
    | some e => some (.leaf e)
    | none => some (.refused .literal)
  else
    match bracketFault? s with
    | some f => some (.refused (.brackets f))
    | none => operatorCut? s

theorem cut_eq_getD (s : Text) : cut N s = (cutBefore? N s).getD (functionCut s) := by
  unfold cut cutBefore?
  split_ifs
  · rfl
  · rfl
  · cases literal? N s <;> rfl
  · cases bracketFault? s <;> rfl

/-- What a text looks like that is cut or refused before the functions are tried. -/
inductive CutBefore (N : Numerals α) : Text → Cut α → Prop where
  | empty : CutBefore N [] (.refused .empty)
  | wrapped {s : Text} (h : isWrapped s = true) : CutBefore N s (.bracketed (inner s))
  | leaf {s : Text} {e : Expr α} (hs : Bare s) (h : Leaf N s e) : CutBefore N s (.leaf e)
  | literal {s : Text} (hs : Bare s) (h : ∀ e, ¬Leaf N s e) : CutBefore N s (.refused .literal)
  | brackets {s : Text} {f : BracketFault} (h : bracketFault? s = some f) :
      CutBefore N s (.refused (.brackets f))
  | operator {s : Text} {c : Cut α} (hs : Balanced s) (h : OperatorCut s c) : CutBefore N s c

/-- What a text looks like that is left to the functions. -/
structure Leftover (s : Text) : Prop where
  ne_nil : s ≠ []
  paired : bracketFault? s = none
  bracket : '(' ∈ s
  not_wrapped : isWrapped s = false
  clear : ∀ c ∈ ['+', '-', '*', '/', '^'], Clear c s

theorem Leftover.balanced {s : Text} (h : Leftover s) : Balanced s :=
  (bracketFault?_eq_none_iff s).1 h.paired

/-- A text with an operator or bracket, but without operators outside of brackets, has a bracket. -/
theorem mem_open_of_clear {s : Text} (hs : Balanced s) (hany : s.any isOperatorChar = true)
    (hc : ∀ c ∈ Stratum.atom.excluded, Clear c s) : '(' ∈ s := by
  by_contra hopen
  have hclose : ')' ∉ s := by
    have hclosed := hs.closed
    simp only [nesting, level, List.count_eq_zero_of_not_mem hopen] at hclosed
    exact List.count_eq_zero.1 (by omega)
  obtain ⟨c, hmem, hop⟩ := List.any_eq_true.1 hany
  have hne : c ≠ '(' ∧ c ≠ ')' := by
    constructor <;> rintro rfl
    · exact hopen hmem
    · exact hclose hmem
  -- no bracket stands before the operator
  obtain ⟨i, hi⟩ := List.getElem?_of_mem hmem
  have hflat : nesting (s.take i) = 0 := nesting_of_noBracket fun d hd => by
    constructor <;> rintro rfl
    · exact hopen (List.mem_of_mem_take hd)
    · exact hclose (List.mem_of_mem_take hd)
  have hexcluded : c ∈ Stratum.atom.excluded := by
    simpa [isOperatorChar, hne.1, hne.2, Stratum.excluded] using hop
  exact hc c hexcluded i ⟨hi, hflat⟩

/-- **A text is cut or refused before the functions are tried, or it is left to them.** -/
theorem cutBefore?_cases (N : Numerals α) (s : Text) :
    (∃ c, cutBefore? N s = some c ∧ CutBefore N s c) ∨ (cutBefore? N s = none ∧ Leftover s) := by
  unfold cutBefore?
  split_ifs with hnil hwrap hop
  · exact Or.inl ⟨_, rfl, hnil ▸ .empty⟩
  · exact Or.inl ⟨_, rfl, .wrapped hwrap⟩
  · have hs : Bare s := ⟨hnil, by simpa using hop⟩
    cases hl : literal? N s with
    | some e => exact Or.inl ⟨_, rfl, .leaf hs ((literal?_eq_some_iff s e).1 hl)⟩
    | none =>
      refine Or.inl ⟨_, rfl, .literal hs fun e he => ?_⟩
      rw [(literal?_eq_some_iff s e).2 he] at hl
      cases hl
  · cases hf : bracketFault? s with
    | some f => exact Or.inl ⟨_, rfl, .brackets hf⟩
    | none =>
      have hs := (bracketFault?_eq_none_iff s).1 hf
      rcases operatorCut?_cases (α := α) hs.closed with ⟨c, hc, hcut⟩ | ⟨hc, hclear⟩
      · exact Or.inl ⟨c, hc, .operator hs hcut⟩
      · have hopen := mem_open_of_clear hs (by simpa using hop) hclear
        exact Or.inr ⟨hc, hnil, hf, hopen, by simpa using hwrap, hclear⟩

/-- Nothing that is cut or refused before is left to the functions. -/
theorem CutBefore.not_leftover {s : Text} {c : Cut α} (h : CutBefore N s c) : ¬Leftover s := by
  intro hs
  cases h with
  | empty => exact hs.ne_nil rfl
  | wrapped hwrap =>
    rw [hs.not_wrapped] at hwrap
    cases hwrap
  | leaf hbare _ | literal hbare _ => cases hbare.2 '(' hs.bracket
  | brackets hf =>
    rw [hs.paired] at hf
    cases hf
  | operator _ hcut =>
    obtain ⟨d, hd, i, hi⟩ := hcut.exists_topLevel
    exact hs.clear d hd i hi

theorem cutBefore?_eq_none_iff (s : Text) : cutBefore? N s = none ↔ Leftover s := by
  rcases cutBefore?_cases N s with ⟨c, hc, hbefore⟩ | ⟨hnone, hs⟩
  · rw [hc]
    exact ⟨nofun, fun hs => absurd hs hbefore.not_leftover⟩
  · exact ⟨fun _ => hs, fun _ => hnone⟩

/-! ### Functions around brackets -/

theorem operand?_eq_some_iff (op : UnaryOp) (s t : Text) :
    operand? op s = some t ↔ s = op.name ++ '(' :: (t ++ [')']) := by
  constructor
  · intro h
    unfold operand? at h
    split_ifs at h with hs
    obtain ⟨hpre, hlast⟩ := by simpa only [Bool.and_eq_true, decide_eq_true_eq] using hs
    obtain ⟨u, rfl⟩ := List.isPrefixOf_iff_prefix.1 hpre
    have hu : u ≠ [] := by
      rintro rfl
      simp at hlast
    rw [List.getLast?_append_of_ne_nil _ hu] at hlast
    obtain ⟨v, rfl⟩ := List.getLast?_eq_some_iff.1 hlast
    have ht : (op.name ++ ['('] ++ (v ++ [')'])).drop (op.name.length + 1) = v ++ [')'] :=
      List.drop_left' (by simp)
    rw [ht, List.dropLast_concat] at h
    cases h
    simp
  · rintro rfl
    have hpre : (op.name ++ ['(']).isPrefixOf (op.name ++ '(' :: (t ++ [')'])) = true :=
      List.isPrefixOf_iff_prefix.2 ⟨t ++ [')'], by simp⟩
    have ht : (op.name ++ '(' :: (t ++ [')'])).drop (op.name.length + 1) = t ++ [')'] := by
      rw [← List.singleton_append, ← List.append_assoc]
      exact List.drop_left' (by simp)
    have hlast : (op.name ++ '(' :: (t ++ [')'])).getLast? = some ')' := by
      rw [List.getLast?_append_of_ne_nil _ (by simp), List.getLast?_cons_of_ne_nil (by simp),
        List.getLast?_concat]
    simp only [operand?, hpre, hlast, ht, List.dropLast_concat]
    rfl

theorem functionOf?_eq_some {ops : List UnaryOp} {s t : Text} {op : UnaryOp}
    (h : functionOf? ops s = some (op, t)) : op ∈ ops ∧ s = op.name ++ '(' :: (t ++ [')']) := by
  obtain ⟨op', hop, h'⟩ := List.exists_of_findSome?_eq_some h
  obtain ⟨t', ht, he⟩ := Option.map_eq_some_iff.1 h'
  cases he
  exact ⟨hop, (operand?_eq_some_iff op s t).1 ht⟩

theorem operand?_eq_none_of_functionOf? {ops : List UnaryOp} {s : Text}
    (h : functionOf? ops s = none) : ∀ op ∈ ops, operand? op s = none := by
  simpa only [functionOf?, List.findSome?_eq_none_iff, Option.map_eq_none_iff] using h

/-- The sign of a final `^2` would stand outside of brackets. -/
theorem Leftover.not_isSuffixOf {s : Text} (hs : Leftover s) : ['^', '2'].isSuffixOf s = false := by
  rw [Bool.eq_false_iff]
  intro hsuf
  obtain ⟨l, rfl⟩ := List.isSuffixOf_iff_suffix.1 hsuf
  have hl : nesting l = 0 := by
    have hn := hs.balanced.closed
    rw [nesting_append, nesting_cons (by decide), nesting_cons (by decide)] at hn
    simpa using hn
  exact hs.clear '^' (by decide) _ (length_mem_topLevel hl)

/-- A text that is left to the functions is a function of a text, or it is refused. -/
theorem Leftover.functionCut_cases {s : Text} (hs : Leftover s) :
    (∃ op ∈ functions, ∃ t, s = op.name ++ '(' :: (t ++ [')']) ∧
        functionCut (α := α) s = .unary op t) ∨
      (functionCut (α := α) s = .refused .expression ∧ ∀ op ∈ functions, operand? op s = none) := by
  have hleading : ∀ op ∈ [UnaryOp.exp, .ln, .sqrt], op ∈ functions := by decide
  have htrailing : ∀ op ∈ [UnaryOp.sin, .cos, .tan], op ∈ functions := by decide
  unfold functionCut
  cases h1 : functionOf? [.exp, .ln, .sqrt] s with
  | some p =>
    obtain ⟨op, t⟩ := p
    obtain ⟨hop, hs⟩ := functionOf?_eq_some h1
    exact Or.inl ⟨op, hleading op hop, t, hs, rfl⟩
  | none =>
    simp only [hs.not_isSuffixOf]
    cases h2 : functionOf? [.sin, .cos, .tan] s with
    | some p =>
      obtain ⟨op, t⟩ := p
      obtain ⟨hop, hs⟩ := functionOf?_eq_some h2
      exact Or.inl ⟨op, htrailing op hop, t, hs, rfl⟩
    | none =>
      refine Or.inr ⟨rfl, ?_⟩
      have h1 := operand?_eq_none_of_functionOf? h1
      have h2 := operand?_eq_none_of_functionOf? h2
      simp only [functions, List.forall_mem_cons] at h1 h2 ⊢
      exact ⟨h1.1, h1.2.1, h1.2.2.1, h2⟩

/-- The name in front of the first bracket is that of one function only. -/
theorem call_injective {op op' : UnaryOp} (h : op ∈ functions) (h' : op' ∈ functions) {t t' : Text}
    (he : op.name ++ '(' :: (t ++ [')']) = op'.name ++ '(' :: (t' ++ [')'])) :
    op = op' ∧ t = t' := by
  have hfront {op : UnaryOp} (h : op ∈ functions) (r : Text) :
      (op.name ++ '(' :: r).takeWhile (isOperatorChar · = false) = op.name := by
    rw [List.takeWhile_append_of_pos (by simpa using (bare_name h).2)]
    simp [isOperatorChar]
  have hname : op.name = op'.name := by
    rw [← hfront h (t ++ [')']), he, hfront h']
  have hop : some op = some op' := by
    rw [← UnaryOp.ofName?_name op, hname, UnaryOp.ofName?_name]
  rw [hname] at he
  have htail := (List.cons.inj (List.append_cancel_left he)).2
  exact ⟨Option.some.inj hop, List.append_cancel_right htail⟩

/-- A function around a balanced text is left to the functions. -/
theorem leftover_call {op : UnaryOp} (hop : op ∈ functions) {t : Text} (ht : Balanced t) :
    Leftover (op.name ++ '(' :: (t ++ [')'])) := by
  have hname := bare_name hop
  have hshape := shape_enclosed (Or.inr hname) ht .atom
  refine ⟨hshape.ne_nil, (bracketFault?_eq_none_iff _).2 hshape.balanced, by simp, ?_,
    hshape.clear⟩
  rw [Bool.eq_false_iff]
  intro hwrap
  -- the name would begin with a bracket
  obtain ⟨c, n, hn⟩ := List.exists_cons_of_ne_nil hname.1
  have hc := hname.2 c (by simp [hn])
  have hopen := eq_wrap_of_isWrapped hwrap
  rw [hn, List.cons_append, List.cons.injEq] at hopen
  rw [hopen.1] at hc
  cases hc

theorem functionCut_call {op : UnaryOp} (hop : op ∈ functions) {t : Text} (ht : Balanced t) :
    functionCut (α := α) (op.name ++ '(' :: (t ++ [')'])) = .unary op t := by
  rcases (leftover_call hop ht).functionCut_cases (α := α) with
    ⟨op', hop', t', he, hcut⟩ | ⟨-, hnone⟩
  · obtain ⟨rfl, rfl⟩ := call_injective hop hop' he
    exact hcut
  · have := (operand?_eq_some_iff op _ t).2 rfl
    rw [hnone op hop] at this
    cases this

/-! ### The whole cut -/

theorem cut_of_leftover {s : Text} (hs : Leftover s) : cut N s = functionCut s := by
  rw [cut_eq_getD, (cutBefore?_eq_none_iff s).2 hs, Option.getD_none]

/-- **The inversion of a cut**: what is left to the functions is one of them around brackets, or it
is refused. -/
theorem cut_cases (N : Numerals α) (s : Text) :
    CutBefore N s (cut N s) ∨
      Leftover s ∧
        ((∃ op ∈ functions, ∃ t, s = op.name ++ '(' :: (t ++ [')']) ∧ cut N s = .unary op t) ∨
          cut N s = .refused .expression) := by
  rcases cutBefore?_cases N s with ⟨c, hc, hbefore⟩ | ⟨-, hs⟩
  · rw [cut_eq_getD, hc]
    exact Or.inl hbefore
  · rw [cut_of_leftover hs]
    exact Or.inr ⟨hs, hs.functionCut_cases.imp_right And.left⟩

/-- A text that is not refused, and its cut. -/
inductive Cutting (N : Numerals α) : Text → Cut α → Prop where
  | leaf {s : Text} {e : Expr α} (hs : Bare s) (h : Leaf N s e) : Cutting N s (.leaf e)
  | bracketed (t : Text) : Cutting N ('(' :: (t ++ [')'])) (.bracketed t)
  | operator {s : Text} {c : Cut α} (hs : Balanced s) (h : OperatorCut s c) : Cutting N s c
  | call {op : UnaryOp} {t : Text} (hop : op ∈ functions)
      (hs : Balanced (op.name ++ '(' :: (t ++ [')'])))
      (hc : ∀ c ∈ Stratum.atom.excluded, Clear c (op.name ++ '(' :: (t ++ [')']))) :
      Cutting N (op.name ++ '(' :: (t ++ [')'])) (.unary op t)

/-- The inversion of a cut that is not refused. -/
theorem cutting_of_cut {s : Text} {c : Cut α} (h : cut N s = c) (hr : ∀ r, c ≠ .refused r) :
    Cutting N s c := by
  subst h
  rcases cut_cases N s with hbefore | ⟨hs, ⟨op, hop, t, rfl, hcut⟩ | hcut⟩
  · generalize cut N s = c at hbefore hr
    cases hbefore with
    | empty | literal _ _ | brackets _ => exact absurd rfl (hr _)
    | wrapped hwrap =>
      rw [eq_wrap_of_isWrapped hwrap]
      simpa [inner] using Cutting.bracketed (N := N) (inner s)
    | leaf hs hl => exact .leaf hs hl
    | operator hs hcut => exact .operator hs hcut
  · rw [hcut]
    exact .call hop hs.balanced hs.clear
  · exact absurd hcut (hr _)

theorem cut_literal {s : Text} {e : Expr α} (hs : Bare s) (h : Leaf N s e) :
    cut N s = .leaf e := by
  have hwrap : ¬isWrapped s = true := by
    intro hw
    have := hs.2 '(' (by rw [eq_wrap_of_isWrapped hw]; simp)
    cases this
  have hop : s.any isOperatorChar = false := by simpa using hs.2
  simp [cut, hs.1, hwrap, hop, (literal?_eq_some_iff s e).2 h]

theorem cut_of_isWrapped {s : Text} (h : isWrapped s = true) : cut N s = .bracketed (inner s) := by
  have hnil : s ≠ [] := by
    rintro rfl
    cases h
  simp [cut, hnil, h]

theorem cut_wrap {t : Text} (ht : Balanced t) : cut N ('(' :: (t ++ [')'])) = .bracketed t := by
  rw [cut_of_isWrapped (isWrapped_wrap ht)]
  simp [inner]

/-- A fault in the brackets of a text that none of them encloses is reported before any other. -/
theorem cut_of_bracketFault? {s : Text} {f : BracketFault} (h : bracketFault? s = some f)
    (hwrap : ¬isWrapped s = true) : cut N s = .refused (.brackets f) := by
  have hs : ¬Balanced s := by
    intro hs
    rw [(bracketFault?_eq_none_iff s).2 hs] at h
    cases h
  have hnil : s ≠ [] := by
    rintro rfl
    exact hs balanced_nil
  have hop : s.any isOperatorChar = true := by
    by_contra hno
    exact hs (Bare.balanced ⟨hnil, by simpa using hno⟩)
  simp [cut, hnil, hwrap, hop, h]

/-- A text with an operator outside of brackets is cut at the loosest one. -/
theorem cut_of_operatorCut {s : Text} {c : Cut α} (hs : Balanced s) (h : OperatorCut s c) :
    cut N s = c := by
  obtain ⟨d, hd, i, hi⟩ := h.exists_topLevel
  obtain ⟨hop, hb⟩ := excluded_operator _ d hd
  have hany : s.any isOperatorChar = true :=
    List.any_eq_true.2 ⟨d, List.mem_of_getElem? hi.1, hop⟩
  have hnil : s ≠ [] := by
    rintro rfl
    cases hany
  have hwrap : ¬isWrapped s = true := fun hw => clear_of_isWrapped hb hw i hi
  simp [cut, hnil, hwrap, hany, (bracketFault?_eq_none_iff s).2 hs,
    operatorCut?_of_operatorCut hs.closed h]

theorem cut_call {op : UnaryOp} (hop : op ∈ functions) {t : Text} (ht : Balanced t) :
    cut N (op.name ++ '(' :: (t ++ [')'])) = .unary op t := by
  rw [cut_of_leftover (leftover_call hop ht), functionCut_call hop ht]

end CurveFormula.Parse
