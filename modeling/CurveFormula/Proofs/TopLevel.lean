import CurveFormula.Proofs.Nesting
import Mathlib.Order.Bounds.Basic
import Mathlib.Order.Lattice.Nat

/-!
# Symbols outside of brackets

A symbol is at top level at an index of a text if the text before it has nesting nought. A text is
clear of a symbol that it nowhere has at top level.

* `firstTopLevel_eq_some_iff`: the scan from the left finds the least index at top level;
* `lastTopLevel_eq_some_iff`: the scan from the right finds the greatest one that is not nought;
* `clear_of_isWrapped`: one pair of brackets around a text leaves nothing at top level.
-/

namespace CurveFormula.Parse

/-- The indices at which a symbol stands at depth nought, the scan starting at depth `d`. -/
def marks (deeper back symbol : Char) (d : Int) (s : Text) : Set ℕ :=
  {i | s[i]? = some symbol ∧ d + level deeper back (s.take i) = 0}

/-- The indices at which a symbol stands outside of brackets. -/
def topLevel (symbol : Char) (s : Text) : Set ℕ :=
  {i | s[i]? = some symbol ∧ nesting (s.take i) = 0}

/-- The symbol stands nowhere outside of brackets. -/
def Clear (symbol : Char) (s : Text) : Prop :=
  ∀ i, i ∉ topLevel symbol s

section Scan

variable {deeper back symbol : Char}

theorem zero_mem_marks {d : Int} {c : Char} {s : Text} :
    0 ∈ marks deeper back symbol d (c :: s) ↔ c = symbol ∧ d = 0 := by
  simp [marks]

theorem succ_mem_marks {d : Int} {c : Char} {s : Text} {i : ℕ} :
    i + 1 ∈ marks deeper back symbol d (c :: s) ↔
      i ∈ marks deeper back symbol (d + level deeper back [c]) s := by
  change s[i]? = some symbol ∧ d + level deeper back (c :: s.take i) = 0 ↔ _
  rw [level_cons, ← Int.add_assoc]
  rfl

/-- The least index of a set without nought, seen from one further on. -/
theorem isLeast_succ_iff {S T : Set ℕ} (h0 : 0 ∉ S) (h : ∀ i, i + 1 ∈ S ↔ i ∈ T) (i : ℕ) :
    IsLeast S i ↔ ∃ j, IsLeast T j ∧ j + 1 = i := by
  constructor
  · rintro ⟨hi, hle⟩
    cases i with
    | zero => exact absurd hi h0
    | succ j =>
      refine ⟨j, ⟨(h j).1 hi, fun k hk => ?_⟩, rfl⟩
      have := hle ((h k).2 hk)
      omega
  · rintro ⟨j, ⟨hj, hle⟩, rfl⟩
    refine ⟨(h j).2 hj, fun k hk => ?_⟩
    cases k with
    | zero => exact absurd hk h0
    | succ k =>
      have := hle ((h k).1 hk)
      omega

/-- A scan finds the least index of the symbol at depth nought. -/
theorem scan_eq_some_iff (hdb : deeper ≠ back) (hd : symbol ≠ deeper) (hb : symbol ≠ back)
    (d : Int) (s : Text) (i : ℕ) :
    scan deeper back symbol d s = some i ↔ IsLeast (marks deeper back symbol d s) i := by
  induction s generalizing d i with
  | nil => simp [scan, marks, IsLeast]
  | cons c s ih =>
    have hstep (h0 : ¬(c = symbol ∧ d = 0)) :
        (scan deeper back symbol (d + level deeper back [c]) s).map (· + 1) = some i ↔
          IsLeast (marks deeper back symbol d (c :: s)) i := by
      rw [isLeast_succ_iff (fun h => h0 (zero_mem_marks.1 h)) fun _ => succ_mem_marks,
        Option.map_eq_some_iff]
      simp only [ih]
    unfold scan
    split_ifs with h1 h2 h3
    · subst h1
      rw [← hstep fun h => hd h.1.symm, level_deeper hdb]
    · subst h2
      rw [← hstep fun h => hb h.1.symm, level_back hdb, Int.sub_eq_add_neg]
    · have hz : 0 ∈ marks deeper back symbol d (c :: s) := zero_mem_marks.2 h3
      constructor
      · rintro h
        cases h
        exact ⟨hz, fun _ _ => Nat.zero_le _⟩
      · intro h
        rw [Nat.le_zero.1 (h.2 hz)]
    · rw [← hstep h3, level_other h1 h2, Int.add_zero]

theorem scan_eq_none_iff (hdb : deeper ≠ back) (hd : symbol ≠ deeper) (hb : symbol ≠ back)
    (d : Int) (s : Text) :
    scan deeper back symbol d s = none ↔ marks deeper back symbol d s = ∅ := by
  constructor
  · intro h
    by_contra hne
    have hmem := Nat.sInf_mem (Set.nonempty_iff_ne_empty.2 hne)
    have := (scan_eq_some_iff hdb hd hb d s _).2 ⟨hmem, fun _ => Nat.sInf_le⟩
    rw [h] at this
    cases this
  · intro h
    cases hs : scan deeper back symbol d s with
    | none => rfl
    | some i =>
      have := ((scan_eq_some_iff hdb hd hb d s i).1 hs).1
      rw [h] at this
      exact absurd this (Set.notMem_empty i)

end Scan

theorem marks_zero (symbol : Char) (s : Text) : marks '(' ')' symbol 0 s = topLevel symbol s := by
  simp [marks, topLevel, nesting]

/-- **The scan from the left finds the least index outside of brackets.** -/
theorem firstTopLevel_eq_some_iff {symbol : Char} (h : NoBracket symbol) (s : Text) (i : ℕ) :
    firstTopLevel symbol s = some i ↔ IsLeast (topLevel symbol s) i := by
  rw [firstTopLevel, scan_eq_some_iff (by decide) h.1 h.2, marks_zero]

theorem firstTopLevel_eq_none_iff {symbol : Char} (h : NoBracket symbol) (s : Text) :
    firstTopLevel symbol s = none ↔ Clear symbol s := by
  rw [firstTopLevel, scan_eq_none_iff (by decide) h.1 h.2, marks_zero,
    Set.eq_empty_iff_forall_notMem, Clear]

theorem lt_length_of_mem_topLevel {symbol : Char} {s : Text} {i : ℕ} (h : i ∈ topLevel symbol s) :
    i < s.length :=
  (List.getElem?_eq_some_iff.1 h.1).1

/-- In a text that closes its brackets, an index other than nought is at top level read from the
left exactly if it is so read from the right. -/
theorem mem_marks_reverse_iff {symbol c : Char} (h : NoBracket symbol) {t : Text}
    (hs : nesting (c :: t) = 0) (j : ℕ) :
    j ∈ marks ')' '(' symbol 0 t.reverse ↔
      j < t.length ∧ t.length - j ∈ topLevel symbol (c :: t) := by
  rcases Nat.lt_or_ge j t.length with hj | hj
  · have hget : t.reverse[j]? = (c :: t)[t.length - j]? := by
      rw [List.getElem?_reverse hj, show t.length - j = t.length - 1 - j + 1 by omega]
      rfl
    simp only [hj, true_and]
    change t.reverse[j]? = _ ∧ _ ↔ (c :: t)[t.length - j]? = _ ∧ _
    rw [hget]
    refine and_congr_right fun hi => ?_
    obtain ⟨hlt, hc⟩ := List.getElem?_eq_some_iff.1 hi
    -- the text before the index and the text behind it nest equally deep, up to the sign
    have hsplit := List.take_append_drop (t.length - j) (c :: t)
    rw [List.drop_eq_getElem_cons hlt, hc, List.drop_succ_cons] at hsplit
    have hsum := hs
    rw [← hsplit, nesting_append, nesting_cons h] at hsum
    rw [List.take_reverse, level_reverse, level_swap '(' ')']
    change 0 + -nesting (t.drop (t.length - j)) = 0 ↔ _
    omega
  · have hnot : j ∉ marks ')' '(' symbol 0 t.reverse := by
      intro hm
      have := (List.getElem?_eq_some_iff.1 hm.1).1
      rw [List.length_reverse] at this
      omega
    simp only [hnot, false_iff]
    omega

/-- **The scan from the right finds the greatest index outside of brackets that is not nought.** -/
theorem lastTopLevel_eq_some_iff {symbol : Char} (h : NoBracket symbol) {s : Text}
    (hs : nesting s = 0) (i : ℕ) :
    lastTopLevel symbol s = some i ↔ IsGreatest {i ∈ topLevel symbol s | i ≠ 0} i := by
  cases s with
  | nil => simp [lastTopLevel, scan, IsGreatest, topLevel]
  | cons c t =>
    simp only [lastTopLevel, List.tail_cons, List.length_cons, Nat.add_sub_cancel,
      Option.map_eq_some_iff, scan_eq_some_iff (by decide : ')' ≠ '(') h.2 h.1]
    constructor
    · rintro ⟨j, ⟨hj, hle⟩, rfl⟩
      obtain ⟨hlt, hmem⟩ := (mem_marks_reverse_iff h hs j).1 hj
      refine ⟨⟨hmem, by omega⟩, fun k hk => ?_⟩
      have hkl := lt_length_of_mem_topLevel hk.1
      rw [List.length_cons] at hkl
      have hk0 := hk.2
      have := hle ((mem_marks_reverse_iff h hs (t.length - k)).2
        ⟨by omega, by rw [Nat.sub_sub_self (by omega)]; exact hk.1⟩)
      omega
    · rintro ⟨⟨hi, hi0⟩, hle⟩
      have hil := lt_length_of_mem_topLevel hi
      rw [List.length_cons] at hil
      refine ⟨t.length - i, ⟨(mem_marks_reverse_iff h hs _).2 ⟨by omega, ?_⟩, fun k hk => ?_⟩,
        Nat.sub_sub_self (by omega)⟩
      · rw [Nat.sub_sub_self (by omega)]
        exact hi
      · obtain ⟨hlt, hmem⟩ := (mem_marks_reverse_iff h hs k).1 hk
        have := hle ⟨hmem, by omega⟩
        omega

theorem lastTopLevel_eq_none_iff {symbol : Char} (h : NoBracket symbol) {s : Text}
    (hs : nesting s = 0) :
    lastTopLevel symbol s = none ↔ ∀ i ∈ topLevel symbol s, i = 0 := by
  constructor
  · intro hn i hi
    by_contra hi0
    -- a bounded non-empty set of indices has a greatest one
    have hb : BddAbove {i ∈ topLevel symbol s | i ≠ 0} :=
      ⟨s.length, fun k hk => (lt_length_of_mem_topLevel hk.1).le⟩
    have hne : Set.Nonempty {i ∈ topLevel symbol s | i ≠ 0} := ⟨i, hi, hi0⟩
    have hmem := Nat.sSup_mem hne hb
    have := (lastTopLevel_eq_some_iff h hs _).2 ⟨hmem, fun k hk => le_csSup hb hk⟩
    rw [hn] at this
    cases this
  · intro h0
    cases hl : lastTopLevel symbol s with
    | none => rfl
    | some i =>
      obtain ⟨hi, hi0⟩ := ((lastTopLevel_eq_some_iff h hs i).1 hl).1
      exact absurd (h0 i hi) hi0

/-! ### Clear texts -/

section Clear

variable {symbol : Char}

theorem mem_topLevel_append_left {l r : Text} {i : ℕ} (h : i < l.length) :
    i ∈ topLevel symbol (l ++ r) ↔ i ∈ topLevel symbol l := by
  change (l ++ r)[i]? = _ ∧ nesting ((l ++ r).take i) = 0 ↔ _
  rw [List.getElem?_append_left h, List.take_append_of_le_length h.le]
  rfl

theorem mem_topLevel_append_right {l r : Text} {j : ℕ} :
    l.length + j ∈ topLevel symbol (l ++ r) ↔
      r[j]? = some symbol ∧ nesting l + nesting (r.take j) = 0 := by
  change (l ++ r)[l.length + j]? = _ ∧ nesting ((l ++ r).take (l.length + j)) = 0 ↔ _
  rw [List.getElem?_append_right (Nat.le_add_right _ _), Nat.add_sub_cancel_left,
    List.take_length_add_append, nesting_append]

theorem clear_append_iff {l r : Text} (hl : nesting l = 0) :
    Clear symbol (l ++ r) ↔ Clear symbol l ∧ Clear symbol r := by
  have hright (j : ℕ) : l.length + j ∈ topLevel symbol (l ++ r) ↔ j ∈ topLevel symbol r := by
    rw [mem_topLevel_append_right, hl, Int.zero_add]
    rfl
  constructor
  · intro h
    refine ⟨fun i hi => ?_, fun j hj => h _ ((hright j).2 hj)⟩
    exact h i ((mem_topLevel_append_left (lt_length_of_mem_topLevel hi)).2 hi)
  · rintro ⟨h1, h2⟩ i hi
    rcases Nat.lt_or_ge i l.length with hlt | hge
    · exact h1 i ((mem_topLevel_append_left hlt).1 hi)
    · obtain ⟨j, rfl⟩ := Nat.exists_eq_add_of_le hge
      exact h2 j ((hright j).1 hi)

theorem clear_of_notMem {s : Text} (h : symbol ∉ s) : Clear symbol s :=
  fun _ hi => h (List.mem_of_getElem? hi.1)

theorem clear_nil : Clear symbol [] :=
  clear_of_notMem (by simp)

theorem clear_cons_iff {c : Char} (hc : NoBracket c) {s : Text} :
    Clear symbol (c :: s) ↔ symbol ≠ c ∧ Clear symbol s := by
  rw [← List.singleton_append, clear_append_iff (nesting_of_noBracket (by simpa using hc))]
  refine and_congr_left fun _ => ⟨fun h he => h 0 ?_, fun h => clear_of_notMem (by simpa using h)⟩
  simp [topLevel, he]

/-- Brackets around a balanced text leave nothing outside. -/
theorem clear_wrap (h : NoBracket symbol) {s : Text} (hs : Balanced s) :
    Clear symbol ('(' :: (s ++ [')'])) := by
  intro i hi
  rcases i with _ | i
  · exact h.1 (Option.some.inj hi.1).symm
  · have hsym : (s ++ [')'])[i]? = some symbol := hi.1
    have hdeep : nesting ('(' :: (s ++ [')']).take i) = 0 := hi.2
    rcases Nat.lt_or_ge i s.length with hlt | hge
    · rw [nesting_open, List.take_append_of_le_length hlt.le] at hdeep
      have := hs.nonneg i
      omega
    · rw [List.getElem?_append_right hge] at hsym
      have := List.mem_of_getElem? hsym
      exact h.2 (by simpa using this)

end Clear

/-! ### Enclosed texts -/

theorem isWrapped_eq_true_iff (s : Text) :
    isWrapped s = true ↔
      s = '(' :: (inner s ++ [')']) ∧ ∀ i < s.length - 1, nesting (s.take (i + 1)) ≠ 0 := by
  have hinside : staysInside 0 s.dropLast = true ↔
      ∀ i < s.length - 1, nesting (s.take (i + 1)) ≠ 0 := by
    rw [staysInside_iff, List.length_dropLast]
    refine forall₂_congr fun i hi => ?_
    rw [Int.zero_add, List.dropLast_eq_take, List.take_take, Nat.min_eq_left (by omega)]
  rw [← hinside]
  simp only [isWrapped, Bool.and_eq_true, decide_eq_true_eq]
  refine and_congr_left fun _ => ?_
  constructor
  · rintro ⟨⟨hlen, hhead⟩, hlast⟩
    obtain ⟨t, rfl⟩ := List.head?_eq_some_iff.1 hhead
    have ht : t ≠ [] := by
      rintro rfl
      simp at hlen
    rw [List.getLast?_cons_of_ne_nil ht] at hlast
    obtain ⟨u, rfl⟩ := List.getLast?_eq_some_iff.1 hlast
    simp [inner]
  · intro h
    rw [h, List.getLast?_cons_of_ne_nil (by simp), List.getLast?_concat]
    simp

theorem eq_wrap_of_isWrapped {s : Text} (h : isWrapped s = true) :
    s = '(' :: (inner s ++ [')']) :=
  ((isWrapped_eq_true_iff s).1 h).1

/-- **Brackets around a balanced text enclose it.** -/
theorem isWrapped_wrap {s : Text} (hs : Balanced s) : isWrapped ('(' :: (s ++ [')'])) = true := by
  rw [isWrapped_eq_true_iff]
  refine ⟨by simp [inner], fun i hi => ?_⟩
  have := hs.nonneg i
  simp only [List.length_cons, List.length_append, List.length_nil, Nat.add_sub_cancel] at hi
  rw [List.take_succ_cons, nesting_open, List.take_append_of_le_length (by omega)]
  omega

theorem nesting_wrap (s : Text) : nesting ('(' :: (s ++ [')'])) = nesting s := by
  rw [nesting_open, nesting_append, nesting_close, nesting_nil]
  omega

theorem nesting_inner {s : Text} (h : isWrapped s = true) : nesting (inner s) = nesting s := by
  rw [← nesting_wrap, ← eq_wrap_of_isWrapped h]

/-- **What an enclosed text that closes its brackets encloses is balanced.** -/
theorem balanced_inner {s : Text} (h : isWrapped s = true) (hs : nesting s = 0) :
    Balanced (inner s) := by
  have hwrap := eq_wrap_of_isWrapped h
  have hclosed : nesting (inner s) = 0 := (nesting_inner h).trans hs
  have hinside : staysInside 1 (inner s) = true := by
    have hstays : staysInside 0 s.dropLast = true := by
      simp only [isWrapped, Bool.and_eq_true] at h
      exact h.2
    rw [hwrap, ← List.cons_append, List.dropLast_concat] at hstays
    simpa [staysInside, depthAfter] using hstays
  refine ⟨hclosed, fun i => ?_⟩
  have := pos_of_staysInside (by decide) hinside i
  omega

/-- **An enclosed text has no symbol outside of brackets.** -/
theorem clear_of_isWrapped {symbol : Char} (hc : NoBracket symbol) {s : Text}
    (h : isWrapped s = true) : Clear symbol s := by
  obtain ⟨hs, hinside⟩ := (isWrapped_eq_true_iff s).1 h
  intro i hi
  have hlt := lt_length_of_mem_topLevel hi
  rcases i with _ | i
  · rw [hs] at hi
    exact hc.1 (Option.some.inj hi.1).symm
  · exact hinside i (by omega) hi.2

end CurveFormula.Parse
