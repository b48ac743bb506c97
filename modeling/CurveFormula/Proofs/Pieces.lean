import CurveFormula.Proofs.Refusals

/-!
# The texts that reading looks at

Reading goes on from a text to the parts of its cut (`GoesOn`), and what holds along every such step
holds of all the texts that it looks at (`pieces_induction`). So reading fails exactly if one of
them is refused, and that text is the fault (`read_eq_error_iff`).

The parts of a text that closes its brackets close theirs (`nesting_of_mem_parts`). The parts of a
balanced text are balanced, with one exception: if the text is read as a function of what stands
between its first and its last bracket, these two need not belong together
(`balanced_of_mem_parts`).
-/

namespace CurveFormula.Parse

universe u

variable {α : Type u} {N : Numerals α}

/-! ### From a text to its parts -/

/-- Reading a text goes on to another one: it looks at what the other one makes it look at, and
fails where the other one does. -/
structure GoesOn (N : Numerals α) (s t : Text) : Prop where
  mem_parts : t ∈ (cut N s).parts
  pieces_subset : pieces N t ⊆ pieces N s
  error : ∀ fault, read N t = .error fault → read N s = .error fault

theorem self_mem_pieces (s : Text) : s ∈ pieces N s := by
  rw [pieces]
  exact List.mem_cons_self

theorem goesOn_of_bracketed {s t : Text} (hc : cut N s = .bracketed t) : GoesOn N s t where
  mem_parts := by
    rw [hc]
    exact List.mem_singleton_self t
  pieces_subset := by
    rw [pieces_of_bracketed N hc]
    exact List.subset_cons_self _ _
  error fault h := by
    rw [read_of_bracketed N hc, h]

theorem goesOn_of_unary {s t : Text} {op : UnaryOp} (hc : cut N s = .unary op t) :
    GoesOn N s t where
  mem_parts := by
    rw [hc]
    exact List.mem_singleton_self t
  pieces_subset := by
    rw [pieces_of_unary N hc]
    exact List.subset_cons_self _ _
  error fault h := by
    rw [read_of_unary N hc, h]
    rfl

theorem goesOn_left {s l r : Text} {op : BinaryOp} (hc : cut N s = .binary op l r) :
    GoesOn N s l where
  mem_parts := by
    rw [hc]
    exact List.mem_cons_self
  pieces_subset := by
    rw [pieces_of_binary N hc]
    refine List.Subset.trans ?_ (List.subset_cons_self _ _)
    cases read N l with
    | ok e => exact List.subset_append_left _ _
    | error fault => exact List.Subset.refl _
  error fault h := by
    rw [read_eq, hc]
    simp only [Cut.read, h]
    rfl

/-- The right part is looked at if the left one reads. -/
theorem goesOn_right {s l r : Text} {op : BinaryOp} (hc : cut N s = .binary op l r) {e : Expr α}
    (hl : read N l = .ok e) : GoesOn N s r where
  mem_parts := by
    rw [hc]
    exact List.mem_cons_of_mem _ (List.mem_singleton_self r)
  pieces_subset := by
    rw [pieces_of_binary N hc, hl]
    exact List.Subset.trans (List.subset_append_right _ _) (List.subset_cons_self _ _)
  error fault h := by
    rw [read_eq, hc]
    simp only [Cut.read, hl, h]
    rfl

/-- Behind the first text, reading looks at what it looks at in a part. -/
theorem exists_goesOn {s t : Text} (h : t ∈ pieces N s) :
    t = s ∨ ∃ u, GoesOn N s u ∧ t ∈ pieces N u := by
  cases hc : cut N s with
  | refused reason =>
    rw [pieces_of_refused N hc] at h
    exact Or.inl (List.mem_singleton.1 h)
  | leaf e =>
    rw [pieces_of_leaf N hc] at h
    exact Or.inl (List.mem_singleton.1 h)
  | bracketed u =>
    rw [pieces_of_bracketed N hc] at h
    exact (List.mem_cons.1 h).imp_right fun h => ⟨u, goesOn_of_bracketed hc, h⟩
  | unary op u =>
    rw [pieces_of_unary N hc] at h
    exact (List.mem_cons.1 h).imp_right fun h => ⟨u, goesOn_of_unary hc, h⟩
  | binary op l r =>
    rw [pieces_of_binary N hc] at h
    refine (List.mem_cons.1 h).imp_right fun h => ?_
    cases hl : read N l with
    | error fault =>
      rw [hl] at h
      exact ⟨l, goesOn_left hc, h⟩
    | ok e =>
      rw [hl] at h
      rcases List.mem_append.1 h with h | h
      · exact ⟨l, goesOn_left hc, h⟩
      · exact ⟨r, goesOn_right hc hl, h⟩

/-- **Induction over the texts that reading looks at.** -/
theorem pieces_induction {R : Text → Text → Prop} (refl : ∀ s, R s s)
    (step : ∀ s u t, GoesOn N s u → R u t → R s t) {s t : Text} (h : t ∈ pieces N s) : R s t := by
  -- on the length of the text, the parts of a cut being shorter
  induction hn : s.length using Nat.strong_induction_on generalizing s with
  | _ n ih =>
    subst hn
    rcases exists_goesOn h with rfl | ⟨u, hu, ht⟩
    · exact refl _
    · exact step s u t hu (ih _ (length_lt_of_mem_parts hu.mem_parts) ht rfl)

theorem pieces_subset_of_mem {s t : Text} (h : t ∈ pieces N s) : pieces N t ⊆ pieces N s :=
  pieces_induction (R := fun s t => pieces N t ⊆ pieces N s) (fun _ => List.Subset.refl _)
    (fun _ _ _ hu ht => List.Subset.trans ht hu.pieces_subset) h

/-- **Reading fails exactly if a text that it looks at is refused, and with that text.** -/
theorem read_eq_error_iff {s : Text} {fault : Fault} :
    read N s = .error fault ↔
      fault.text ∈ pieces N s ∧ cut N fault.text = .refused fault.reason := by
  constructor
  · intro h
    obtain ⟨-, hcut, hlast⟩ := read_error_cases h
    exact ⟨List.mem_of_getLast? hlast, hcut⟩
  · rintro ⟨hmem, hcut⟩
    exact pieces_induction (R := fun s t => read N t = .error fault → read N s = .error fault)
      (fun _ h => h) (fun _ _ _ hu ht h => hu.error fault (ht h)) hmem (read_of_refused N hcut)

/-! ### Brackets of the parts -/

theorem OperatorCut.balanced_of_mem_parts {s t : Text} {c : Cut α} (h : OperatorCut s c)
    (hs : Balanced s) (ht : t ∈ c.parts) : Balanced t := by
  cases h with
  | @first op l r _ hl _ _ =>
    obtain ⟨hleft, hright⟩ := hs.of_append hl
    rcases List.mem_pair.1 ht with rfl | rfl
    · exact hleft
    · exact hright.of_cons (noBracket_sign op)
  | @last l r _ hl _ _ =>
    obtain ⟨hleft, hright⟩ := hs.of_append hl
    rcases List.mem_pair.1 ht with rfl | rfl
    · exact hleft
    · exact hright.of_cons (by decide)
  | lead _ _ =>
    rw [List.mem_singleton.1 ht]
    exact hs.of_cons (by decide)

/-- **The parts of a text that closes its brackets close theirs.** -/
theorem nesting_of_mem_parts {s t : Text} (h : t ∈ (cut N s).parts) (hs : nesting s = 0) :
    nesting t = 0 := by
  have hcut := cutting_of_mem_parts h
  generalize cut N s = c at h hcut
  cases hcut with
  | leaf _ _ => cases h
  | bracketed u =>
    rw [nesting_wrap] at hs
    rwa [List.mem_singleton.1 h]
  | @call op u hop _ _ =>
    rw [nesting_append, (bare_name hop).balanced.closed, nesting_wrap, Int.zero_add] at hs
    rwa [List.mem_singleton.1 h]
  | operator hbal hcut => exact (hcut.balanced_of_mem_parts hbal h).closed

theorem nesting_of_mem_pieces {s t : Text} (h : t ∈ pieces N s) (hs : nesting s = 0) :
    nesting t = 0 :=
  pieces_induction (R := fun s t => nesting s = 0 → nesting t = 0) (fun _ h => h)
    (fun _ _ _ hu ht hs => ht (nesting_of_mem_parts hu.mem_parts hs)) h hs

/-- A text that reading takes out of its brackets is enclosed by them. -/
theorem isWrapped_of_cut {s t : Text} (h : cut N s = .bracketed t) : isWrapped s = true := by
  rcases cut_cases N s with hbefore | ⟨-, ⟨op, -, u, -, hcut⟩ | hcut⟩
  · rw [h] at hbefore
    cases hbefore with
    | wrapped hwrap => exact hwrap
    | operator _ hcut => cases hcut
  · rw [h] at hcut
    cases hcut
  · rw [h] at hcut
    cases hcut

/-- **The parts of a balanced text are balanced**, the operand of a function apart. -/
theorem balanced_of_mem_parts {s t : Text} (h : t ∈ (cut N s).parts) (hs : Balanced s)
    (hcall : ∀ op ∈ functions, cut N s = .unary op t → Balanced t) : Balanced t := by
  have hcut := cutting_of_mem_parts h
  generalize hc : cut N s = c at h hcut hcall
  cases hcut with
  | leaf _ _ => cases h
  | bracketed u =>
    have hinner := balanced_inner (isWrapped_of_cut hc) hs.closed
    rw [List.mem_singleton.1 h]
    simpa [inner] using hinner
  | @call op u hop _ _ =>
    exact hcall op hop (by rw [List.mem_singleton.1 h])
  | operator _ hcut => exact hcut.balanced_of_mem_parts hs h

/-- The operands of functions being balanced, all texts that reading looks at are. -/
theorem balanced_of_mem_pieces {s t : Text} (h : t ∈ pieces N s) (hs : Balanced s)
    (hcall : ∀ p ∈ pieces N s, ∀ op ∈ functions, ∀ u, cut N p = .unary op u → Balanced u) :
    Balanced t := by
  revert hs hcall
  refine pieces_induction (R := fun s t => Balanced s → (∀ p ∈ pieces N s, ∀ op ∈ functions,
    ∀ u, cut N p = .unary op u → Balanced u) → Balanced t) (fun _ hs _ => hs) ?_ h
  intro s u t hu ih hs hcall
  have hu' : Balanced u := balanced_of_mem_parts hu.mem_parts hs fun op hop hcut =>
    hcall s (self_mem_pieces s) op hop u hcut
  exact ih hu' fun p hp => hcall p (hu.pieces_subset hp)

end CurveFormula.Parse
