import CurveFormula.Proofs.Cutting

/-!
# Matching brackets

Reading a text compares numbers of brackets and keeps a running depth; it never pairs brackets up.
Here its tests and scans meet the pairs themselves.

* A text has no fault in its brackets exactly if its brackets make a word in which every one has its
  partner, and brackets enclose such a text exactly if the first and the last one are partners
  (`bracketTests_exact`).
* A bracket has one partner (`Partners.unique`).
* A symbol stands outside of brackets if as many brackets open before it as close. The scans from
  both ends find the outermost such places, and a cut there leaves two texts without a fault
  (`scans_find_outermost`).
-/

namespace CurveFormula.Parse

/-! ### Words of brackets -/

/-- The words of brackets in which every bracket has its partner. -/
inductive Dyck : Text → Prop where
  | nil : Dyck []
  | pair {w v : Text} (hw : Dyck w) (hv : Dyck v) : Dyck ('(' :: (w ++ ')' :: v))

/-- The words that close `n` brackets opened before them. -/
inductive Closing : ℕ → Text → Prop where
  | word {w : Text} (hw : Dyck w) : Closing 0 w
  /-- The partner of the last bracket that is open. -/
  | close {n : ℕ} {w v : Text} (hw : Dyck w) (hv : Closing n v) : Closing (n + 1) (w ++ ')' :: v)

/-- One bracket fewer is open before an opening one. -/
theorem Closing.opened {n : ℕ} {w : Text} (h : Closing (n + 1) w) : Closing n ('(' :: w) := by
  cases h with
  | @close _ w v hw hv =>
    cases hv with
    | word hv => exact .word (.pair hw hv)
    | @close n u t hu ht =>
      have hpair : Dyck ('(' :: (w ++ ')' :: u)) := .pair hw hu
      simpa using Closing.close hpair ht

theorem Dyck.balanced {w : Text} (h : Dyck w) : Balanced w := by
  induction h with
  | nil => exact balanced_nil
  | @pair w v _ _ hw hv => simpa using hw.wrap.append hv

/-- The brackets of a text, without its other characters. -/
def brackets (s : Text) : Text :=
  s.filter fun c => c = '(' ∨ c = ')'

@[simp] theorem brackets_nil : brackets [] = [] := rfl

@[simp] theorem brackets_open (s : Text) : brackets ('(' :: s) = '(' :: brackets s := rfl

@[simp] theorem brackets_close (s : Text) : brackets (')' :: s) = ')' :: brackets s := rfl

theorem brackets_cons {c : Char} (h : NoBracket c) (s : Text) :
    brackets (c :: s) = brackets s :=
  List.filter_cons_of_neg (by simpa [NoBracket] using h)

theorem count_brackets {c : Char} (h : c = '(' ∨ c = ')') (s : Text) :
    (brackets s).count c = s.count c :=
  List.count_filter (by simpa using h)

/-- The other characters of a text do not matter. -/
theorem balanced_of_brackets {s : Text} (h : Balanced (brackets s)) : Balanced s := by
  rw [balanced_iff_count] at h ⊢
  have hcount (t : Text) : (brackets t).count '(' = t.count '(' ∧
      (brackets t).count ')' = t.count ')' :=
    ⟨count_brackets (.inl rfl) t, count_brackets (.inr rfl) t⟩
  obtain ⟨hclosed, hprefix⟩ := h
  rw [(hcount s).1, (hcount s).2] at hclosed
  refine ⟨hclosed, fun t ht => ?_⟩
  -- the brackets of a prefix are a prefix of the brackets
  have hle := hprefix (brackets t) (ht.filter _)
  rwa [(hcount t).1, (hcount t).2] at hle

/-- As long as the running depth is not negative, it is the number of brackets that are open. -/
theorem closing_brackets {n : ℕ} {s : Text} (hstays : staysNonnegative n s = true)
    (hclosed : n + nesting s = 0) : Closing n (brackets s) := by
  induction s generalizing n with
  | nil =>
    obtain rfl : n = 0 := by simpa using hclosed
    exact .word .nil
  | cons c s ih =>
    obtain ⟨hc, hrest⟩ : 0 ≤ depthAfter n c ∧ staysNonnegative (depthAfter n c) s = true := by
      simpa [staysNonnegative] using hstays
    have hsum : depthAfter n c + nesting s = 0 := (depthAfter_add_nesting n c s).trans hclosed
    unfold depthAfter at hc hrest hsum
    split_ifs at hc hrest hsum with hopen hclose
    · subst hopen
      rw [brackets_open]
      exact (ih hrest hsum).opened
    · subst hclose
      obtain ⟨m, rfl⟩ : ∃ m, n = m + 1 := Nat.exists_eq_succ_of_ne_zero (by omega)
      have hm : ((m + 1 : ℕ) : ℤ) - 1 = m := by omega
      rw [hm] at hrest hsum
      rw [brackets_close]
      exact .close .nil (ih hrest hsum)
    · rw [brackets_cons ⟨hopen, hclose⟩]
      exact ih hrest hsum

/-- **A text is balanced exactly if every one of its brackets has its partner.** -/
theorem balanced_iff_dyck (s : Text) : Balanced s ↔ Dyck (brackets s) := by
  constructor
  · intro h
    have hstays : staysNonnegative (0 : ℕ) s = true :=
      (staysNonnegative_iff _ s).2 fun i _ => by simpa using h.nonneg (i + 1)
    cases closing_brackets hstays (by simpa using h.closed) with
    | word hw => exact hw
  · intro h
    exact balanced_of_brackets h.balanced

/-- **The tests of brackets are exact.** A text has no fault in its brackets exactly if they make a
word in which every one has its partner. One pair encloses a text without a fault exactly if what
stands between the first and the last character has no fault either. -/
theorem bracketTests_exact (s : Text) :
    (bracketFault? s = none ↔ Dyck (brackets s)) ∧
      (bracketFault? s = none →
        (isWrapped s = true ↔ ∃ u, s = '(' :: (u ++ [')']) ∧ bracketFault? u = none)) := by
  refine ⟨(bracketFault?_eq_none_iff s).trans (balanced_iff_dyck s), fun h => ⟨fun hwrap => ?_, ?_⟩⟩
  · have hs : Balanced s := (bracketFault?_eq_none_iff s).1 h
    have hinner : Balanced (inner s) := balanced_inner hwrap hs.closed
    exact ⟨inner s, eq_wrap_of_isWrapped hwrap, (bracketFault?_eq_none_iff _).2 hinner⟩
  · rintro ⟨u, rfl, hu⟩
    exact isWrapped_wrap ((bracketFault?_eq_none_iff u).1 hu)

/-- The first and the last bracket are no partners. -/
example : bracketFault? "(x)+(y)".toList = none ∧ isWrapped "(x)+(y)".toList = false := by decide

/-! ### Partners -/

/-- The brackets at two indices are partners: those between them pair up among themselves. -/
structure Partners (s : Text) (i j : ℕ) : Prop where
  lt : i < j
  opening : s[i]? = some '('
  closing : s[j]? = some ')'
  between : Dyck (brackets ((s.drop (i + 1)).take (j - (i + 1))))

theorem Partners.le {s : Text} {i j k : ℕ} (hj : Partners s i j) (hk : Partners s i k) : k ≤ j := by
  by_contra hlt
  obtain ⟨n, rfl⟩ : ∃ n, j = i + 1 + n := Nat.exists_eq_add_of_le hj.lt
  have hnear := (balanced_iff_dyck _).2 hj.between
  have hfar := (balanced_iff_dyck _).2 hk.between
  rw [Nat.add_sub_cancel_left] at hnear
  -- up to the nearer bracket, more brackets would close than open
  have hdeep := hfar.nonneg (n + 1)
  rw [List.take_take, Nat.min_eq_left (by omega), List.take_add_one, List.getElem?_drop,
    hj.closing, nesting_append, hnear.closed] at hdeep
  exact absurd hdeep (by decide)

/-- **A bracket has one partner.** -/
theorem Partners.unique {s : Text} {i j k : ℕ} (hj : Partners s i j) (hk : Partners s i k) :
    j = k :=
  Nat.le_antisymm (hk.le hj) (hj.le hk)

/-- The brackets around a balanced text are partners. -/
theorem partners_wrap (t : Text) {u : Text} (hu : Balanced u) :
    Partners (t ++ '(' :: (u ++ [')'])) t.length (t.length + 1 + u.length) where
  lt := by omega
  opening := by simp
  closing := by simp [Nat.add_assoc, Nat.add_comm 1]
  between := by
    have hbehind : (t ++ '(' :: (u ++ [')'])).drop (t.length + 1) = u ++ [')'] := by
      simp [List.drop_append]
    rw [hbehind, Nat.add_sub_cancel_left, List.take_left]
    exact (balanced_iff_dyck u).1 hu

/-! ### Cuts outside of brackets -/

theorem mem_topLevel_iff_count {symbol : Char} {s : Text} {i : ℕ} :
    i ∈ topLevel symbol s ↔
      s[i]? = some symbol ∧ (s.take i).count '(' = (s.take i).count ')' :=
  and_congr_right fun _ => nesting_eq_zero_iff _

/-- A cut outside of brackets leaves two balanced texts. -/
theorem Balanced.cut {symbol : Char} (hc : NoBracket symbol) {s : Text} (hs : Balanced s) {i : ℕ}
    (hi : i ∈ topLevel symbol s) : Balanced (s.take i) ∧ Balanced (s.drop (i + 1)) := by
  rw [← take_append_drop_of_getElem? hi.1] at hs
  obtain ⟨hleft, hright⟩ := hs.of_append hi.2
  exact ⟨hleft, hright.of_cons hc⟩

/-- **The scans from both ends agree on what stands outside of brackets.** In a text without a fault
in its brackets the scan from the left finds the first index of a symbol before which as many
brackets open as close, and the scan from the right finds the last one, index nought apart. At every
such index the texts before and behind the symbol have no fault in their brackets. -/
theorem scans_find_outermost {symbol : Char} (hc : NoBracket symbol) {s : Text}
    (hs : bracketFault? s = none) :
    let S : Set ℕ := {i | s[i]? = some symbol ∧ (s.take i).count '(' = (s.take i).count ')'}
    (∀ i, firstTopLevel symbol s = some i ↔ IsLeast S i) ∧
      (firstTopLevel symbol s = none ↔ S = ∅) ∧
      (∀ i, lastTopLevel symbol s = some i ↔ IsGreatest (S \ {0}) i) ∧
      (lastTopLevel symbol s = none ↔ S \ {0} = ∅) ∧
      ∀ i ∈ S, bracketFault? (s.take i) = none ∧ bracketFault? (s.drop (i + 1)) = none := by
  intro S
  have hbal : Balanced s := (bracketFault?_eq_none_iff s).1 hs
  have hS : S = topLevel symbol s := Set.ext fun i => mem_topLevel_iff_count.symm
  rw [hS]
  refine ⟨firstTopLevel_eq_some_iff hc s, ?_, lastTopLevel_eq_some_iff hc hbal.closed, ?_, ?_⟩
  · rw [firstTopLevel_eq_none_iff hc, Set.eq_empty_iff_forall_notMem, Clear]
  · rw [lastTopLevel_eq_none_iff hc hbal.closed, Set.sdiff_eq_empty]
    rfl
  · intro i hi
    obtain ⟨hleft, hright⟩ := hbal.cut hc hi
    exact ⟨(bracketFault?_eq_none_iff _).2 hleft, (bracketFault?_eq_none_iff _).2 hright⟩

/-- A leading sign is the first one, and does not count from the right. -/
theorem scans_find_outermost_minus :
    let s : Text := "-x-(1-y)-z".toList
    let S : Set ℕ := {i | s[i]? = some '-' ∧ (s.take i).count '(' = (s.take i).count ')'}
    NoBracket '-' ∧ bracketFault? s = none ∧ IsLeast S 0 ∧ IsGreatest (S \ {0}) 8 ∧
      bracketFault? (s.drop 9) = none := by
  intro s S
  have hc : NoBracket '-' := by decide
  have hs : bracketFault? s = none := by decide
  obtain ⟨hfirst, -, hlast, -, hsides⟩ := scans_find_outermost hc hs
  have hgreatest : IsGreatest (S \ {0}) 8 := (hlast 8).1 (by decide)
  exact ⟨hc, hs, (hfirst 0).1 (by decide), hgreatest, (hsides 8 hgreatest.1.1).2⟩

end CurveFormula.Parse
