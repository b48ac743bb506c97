import CurveFormula.Parse.Bracket
import Mathlib.Order.Basic
import Mathlib.Tactic.SplitIfs

/-!
# Nesting of brackets

The nesting of a text is the number of round brackets that it opens and does not close. A text is
balanced if it closes every bracket it opens and no prefix closes more brackets than it opens.

`bracketFault?_eq_none_iff` says that exactly the balanced texts have no fault in their brackets,
and `bracketFault?_eq_unbalanced_iff` and `bracketFault?_eq_closedFirst_iff` which fault the others
have.
-/

namespace CurveFormula.Parse

/-- How many more characters of a text go deeper than come back. -/
def level (deeper back : Char) (s : Text) : Int :=
  s.count deeper - s.count back

@[simp] theorem level_nil (deeper back : Char) : level deeper back [] = 0 := rfl

@[simp] theorem level_append (deeper back : Char) (s t : Text) :
    level deeper back (s ++ t) = level deeper back s + level deeper back t := by
  simp only [level, List.count_append]
  omega

@[simp] theorem level_reverse (deeper back : Char) (s : Text) :
    level deeper back s.reverse = level deeper back s := by
  simp [level]

theorem level_swap (deeper back : Char) (s : Text) :
    level back deeper s = -level deeper back s := by
  simp only [level]
  omega

theorem level_cons (deeper back c : Char) (s : Text) :
    level deeper back (c :: s) = level deeper back [c] + level deeper back s := by
  rw [← List.singleton_append, level_append]

theorem level_deeper {deeper back : Char} (h : deeper ≠ back) : level deeper back [deeper] = 1 := by
  simp [level, h]

theorem level_back {deeper back : Char} (h : deeper ≠ back) : level deeper back [back] = -1 := by
  simp [level, h.symm]

theorem level_other {deeper back c : Char} (hd : c ≠ deeper) (hb : c ≠ back) :
    level deeper back [c] = 0 := by
  simp [level, hd, hb]

/-- A character that is no round bracket. -/
def NoBracket (c : Char) : Prop :=
  c ≠ '(' ∧ c ≠ ')'

instance : DecidablePred NoBracket :=
  fun c => inferInstanceAs (Decidable (c ≠ '(' ∧ c ≠ ')'))

-- There are too many characters to go through all of them.
instance (priority := high) {p : Char → Prop} [DecidablePred p] (s : Text) :
    Decidable (∀ c ∈ s, p c) :=
  List.decidableBAll p s

/-- The bracket depth behind a text. -/
def nesting (s : Text) : Int :=
  level '(' ')' s

@[simp] theorem nesting_nil : nesting [] = 0 := rfl

@[simp] theorem nesting_append (s t : Text) : nesting (s ++ t) = nesting s + nesting t :=
  level_append '(' ')' s t

@[simp] theorem nesting_open (s : Text) : nesting ('(' :: s) = 1 + nesting s := by
  rw [nesting, level_cons, level_deeper (by decide)]; rfl

@[simp] theorem nesting_close (s : Text) : nesting (')' :: s) = -1 + nesting s := by
  rw [nesting, level_cons, level_back (by decide)]; rfl

theorem nesting_cons {c : Char} (h : NoBracket c) (s : Text) : nesting (c :: s) = nesting s := by
  rw [nesting, level_cons, level_other h.1 h.2, Int.zero_add]; rfl

theorem nesting_of_noBracket {s : Text} (h : ∀ c ∈ s, NoBracket c) : nesting s = 0 := by
  induction s with
  | nil => rfl
  | cons c s ih =>
    rw [nesting_cons (h c (by simp)), ih fun d hd => h d (by simp [hd])]

theorem depthAfter_add_nesting (d : Int) (c : Char) (s : Text) :
    depthAfter d c + nesting s = d + nesting (c :: s) := by
  unfold depthAfter
  split_ifs with ho hc
  · rw [ho, nesting_open]; omega
  · rw [hc, nesting_close]; omega
  · rw [nesting_cons ⟨ho, hc⟩]

/-! ### Balanced texts -/

/-- The brackets of a text pair up. -/
structure Balanced (s : Text) : Prop where
  closed : nesting s = 0
  nonneg : ∀ i, 0 ≤ nesting (s.take i)

theorem balanced_of_noBracket {s : Text} (h : ∀ c ∈ s, NoBracket c) : Balanced s := by
  refine ⟨nesting_of_noBracket h, fun i => ?_⟩
  have hi : nesting (s.take i) = 0 :=
    nesting_of_noBracket fun c hc => h c (List.mem_of_mem_take hc)
  omega

theorem balanced_nil : Balanced [] :=
  balanced_of_noBracket (by simp)

theorem Balanced.append {s t : Text} (hs : Balanced s) (ht : Balanced t) : Balanced (s ++ t) := by
  refine ⟨by rw [nesting_append, hs.closed, ht.closed]; rfl, fun i => ?_⟩
  have h1 := hs.nonneg i
  have h2 := ht.nonneg (i - s.length)
  rw [List.take_append, nesting_append]
  omega

theorem Balanced.cons {c : Char} {s : Text} (hc : NoBracket c) (hs : Balanced s) :
    Balanced (c :: s) := by
  have h : Balanced [c] := balanced_of_noBracket (by simpa using hc)
  simpa using h.append hs

/-- Brackets around a balanced text. -/
theorem Balanced.wrap {s : Text} (hs : Balanced s) : Balanced ('(' :: (s ++ [')'])) := by
  refine ⟨by rw [nesting_open, nesting_append, hs.closed]; rfl, fun i => ?_⟩
  cases i with
  | zero => simp
  | succ i =>
    have h1 := hs.nonneg i
    have h2 : -1 ≤ nesting ([')'].take (i - s.length)) := by
      cases i - s.length <;> simp [nesting_close]
    rw [List.take_succ_cons, nesting_open, List.take_append, nesting_append]
    omega

/-- A text in front that closes its brackets leaves the rest balanced, and is balanced itself. -/
theorem Balanced.of_append {s t : Text} (h : Balanced (s ++ t)) (hs : nesting s = 0) :
    Balanced s ∧ Balanced t := by
  have ht : nesting t = 0 := by
    have hclosed := h.closed
    rwa [nesting_append, hs, Int.zero_add] at hclosed
  refine ⟨⟨hs, fun i => ?_⟩, ⟨ht, fun i => ?_⟩⟩
  · rcases Nat.le_total i s.length with hi | hi
    · have hpre := h.nonneg i
      rwa [List.take_append_of_le_length hi] at hpre
    · rw [List.take_of_length_le hi]
      omega
  · have hpre := h.nonneg (s.length + i)
    rwa [List.take_length_add_append, nesting_append, hs, Int.zero_add] at hpre

theorem Balanced.of_cons {c : Char} {s : Text} (hc : NoBracket c) (h : Balanced (c :: s)) :
    Balanced s :=
  (Balanced.of_append (s := [c]) h (nesting_of_noBracket (by simpa using hc))).2

theorem nesting_eq_zero_iff (s : Text) : nesting s = 0 ↔ s.count '(' = s.count ')' := by
  simp only [nesting, level]
  omega

/-- A text is balanced if as many brackets close as open and no prefix closes more than it opens. -/
theorem balanced_iff_count (s : Text) :
    Balanced s ↔ s.count '(' = s.count ')' ∧ ∀ t, t <+: s → t.count ')' ≤ t.count '(' := by
  have hpre (t : Text) : 0 ≤ nesting t ↔ t.count ')' ≤ t.count '(' := by
    simp only [nesting, level]
    omega
  constructor
  · intro h
    refine ⟨(nesting_eq_zero_iff s).1 h.closed, fun t ht => ?_⟩
    have hi := h.nonneg t.length
    rw [← List.prefix_iff_eq_take.1 ht] at hi
    exact (hpre t).1 hi
  · rintro ⟨hcount, h⟩
    exact ⟨(nesting_eq_zero_iff s).2 hcount, fun i => (hpre _).2 (h _ (List.take_prefix i s))⟩

/-- A property of the depth behind every character, taken apart at the first one. -/
theorem forall_depth_cons (p : Int → Prop) (d : Int) (c : Char) (s : Text) :
    (∀ i < (c :: s).length, p (d + nesting ((c :: s).take (i + 1)))) ↔
      p (depthAfter d c) ∧ ∀ i < s.length, p (depthAfter d c + nesting (s.take (i + 1))) := by
  have h0 : d + nesting ((c :: s).take 1) = depthAfter d c := by
    have := depthAfter_add_nesting d c []
    rwa [nesting_nil, Int.add_zero, eq_comm] at this
  have hs : ∀ i, d + nesting ((c :: s).take (i + 1 + 1)) =
      depthAfter d c + nesting (s.take (i + 1)) := fun i => by
    rw [List.take_succ_cons, depthAfter_add_nesting]
  constructor
  · intro h
    refine ⟨h0 ▸ h 0 (by simp), fun i hi => ?_⟩
    rw [← hs]
    exact h (i + 1) (by simpa using hi)
  · rintro ⟨hc, h⟩ i hi
    cases i with
    | zero => rwa [h0]
    | succ i =>
      rw [hs]
      exact h i (by simpa using hi)

theorem staysNonnegative_iff (d : Int) (s : Text) :
    staysNonnegative d s = true ↔ ∀ i < s.length, 0 ≤ d + nesting (s.take (i + 1)) := by
  induction s generalizing d with
  | nil => simp [staysNonnegative]
  | cons c s ih =>
    rw [forall_depth_cons (fun n => 0 ≤ n), ← ih]
    simp [staysNonnegative]

theorem staysInside_iff (d : Int) (s : Text) :
    staysInside d s = true ↔ ∀ i < s.length, d + nesting (s.take (i + 1)) ≠ 0 := by
  induction s generalizing d with
  | nil => simp [staysInside]
  | cons c s ih =>
    rw [forall_depth_cons (fun n => n ≠ 0), ← ih]
    simp [staysInside]

/-- A text that starts inside and never leaves is inside behind every character. -/
theorem pos_of_staysInside {d : Int} {s : Text} (hd : 0 < d) (h : staysInside d s = true) (i : ℕ) :
    0 < d + nesting (s.take i) := by
  induction s generalizing d i with
  | nil => simpa using hd
  | cons c s ih =>
    obtain ⟨hne, hrest⟩ : depthAfter d c ≠ 0 ∧ staysInside (depthAfter d c) s = true := by
      simpa [staysInside] using h
    have hc : 0 < depthAfter d c := by
      -- one character goes up or down by one step at most
      unfold depthAfter at hne ⊢
      split_ifs at hne ⊢ <;> omega
    cases i with
    | zero => simpa using hd
    | succ i =>
      rw [List.take_succ_cons, ← depthAfter_add_nesting]
      exact ih hc hrest i

/-- **Exactly the balanced texts have no fault in their brackets.** -/
theorem bracketFault?_eq_none_iff (s : Text) : bracketFault? s = none ↔ Balanced s := by
  have hcount : s.count '(' = s.count ')' ↔ nesting s = 0 := (nesting_eq_zero_iff s).symm
  have hstays : staysNonnegative 0 s = true ↔ ∀ i, 0 ≤ nesting (s.take i) := by
    rw [staysNonnegative_iff]
    constructor
    · intro h i
      rcases Nat.lt_or_ge i (s.length + 1) with hi | hi
      · cases i with
        | zero => simp
        | succ i => simpa using h i (by omega)
      · -- behind the end nothing changes any more
        rw [List.take_of_length_le (by omega)]
        rcases s.eq_nil_or_concat with rfl | ⟨t, c, rfl⟩
        · simp
        · have := h t.length (by simp)
          simpa [List.take_of_length_le] using this
    · intro h i _
      simpa using h (i + 1)
  unfold bracketFault?
  split_ifs with h1 h2
  · simp only [false_iff]
    exact fun h => h1 (hcount.2 h.closed)
  · simp only [true_iff]
    exact ⟨hcount.1 (not_not.1 h1), hstays.1 h2⟩
  · simp only [false_iff]
    exact fun h => h2 (hstays.2 h.nonneg)

instance : DecidablePred Balanced :=
  fun s => decidable_of_iff _ (bracketFault?_eq_none_iff s)

theorem bracketFault?_eq_unbalanced_iff (s : Text) :
    bracketFault? s = some .unbalanced ↔ s.count '(' ≠ s.count ')' := by
  unfold bracketFault?
  split_ifs with hcount hstays <;> simp [hcount]

/-- If the brackets agree in number and do not pair up, some prefix closes more than it opens. -/
theorem bracketFault?_eq_closedFirst_iff (s : Text) :
    bracketFault? s = some .closedFirst ↔
      s.count '(' = s.count ')' ∧ ∃ t, t <+: s ∧ t.count '(' < t.count ')' := by
  have hnone := (bracketFault?_eq_none_iff s).trans (balanced_iff_count s)
  constructor
  · intro h
    have hcount : s.count '(' = s.count ')' := by
      by_contra hne
      rw [(bracketFault?_eq_unbalanced_iff s).2 hne] at h
      cases h
    refine ⟨hcount, ?_⟩
    by_contra hno
    have hpre (t : Text) (ht : t <+: s) : t.count ')' ≤ t.count '(' :=
      Nat.le_of_not_lt fun hlt => hno ⟨t, ht, hlt⟩
    rw [hnone.2 ⟨hcount, hpre⟩] at h
    cases h
  · rintro ⟨hcount, t, ht, hlt⟩
    cases hf : bracketFault? s with
    | none => exact absurd ((hnone.1 hf).2 t ht) (Nat.not_le.2 hlt)
    | some f =>
      cases f with
      | unbalanced => exact absurd hcount ((bracketFault?_eq_unbalanced_iff s).1 hf)
      | closedFirst => rfl

end CurveFormula.Parse
