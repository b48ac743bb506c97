import CurveFormula.Parse.Reader
import CurveFormula.Proofs.Cutting

/-!
# Reading follows the grammar

`read_eq_ok_iff` says that reading gives exactly the formulas that the grammar derives. The same
holds of texts with blanks and other brackets, and every other text is refused.

Reading never splits a text into tokens, it cuts it again and again. One direction is an induction
on the length of the text: a cut at an operator leaves parts without looser operators, so they lie
in the strata that the grammar wants (`derives_of_read`). The other is an induction on the
derivation: the shape of a stratum leaves the cut no choice (`read_of_derives`).
-/

namespace CurveFormula.Parse

universe u

variable {α : Type u} {N : Numerals α}

/-! ### Operators between two formulas -/

theorem joined_of_ne_pow {op : BinaryOp} (h : op ≠ .pow) (e f : Expr α) :
    joined N op e f = .binary op e f := by
  cases op with
  | pow => exact absurd rfl h
  | add | sub | mul | div => rfl

theorem joined_pow_of_isTwo {f : Expr α} (h : IsTwo N f) (e : Expr α) :
    joined N .pow e f = .unary .square e := by
  obtain ⟨c, rfl, hc⟩ := h
  simp [joined, hc]

theorem joined_pow_of_not_isTwo {f : Expr α} (h : ¬IsTwo N f) (e : Expr α) :
    joined N .pow e f = .binary .pow e f := by
  cases f with
  | const c =>
    have hc : N.isTwo c = false := by
      rw [Bool.eq_false_iff]
      exact fun hc => h ⟨c, rfl, hc⟩
    simp [joined, hc]
  | var | zero | one | param _ | unary _ _ | binary _ _ _ | poly _ _ => rfl

namespace Stratum

/-- The stratum of the left operand. -/
def leftOf : BinaryOp → Stratum
  | .add => diff
  | .sub => diff
  | .mul => quot
  | .div => power
  | .pow => atom

/-- The stratum of the right operand. -/
def rightOf : BinaryOp → Stratum
  | .add => sum
  | .sub => prod
  | .mul => prod
  | .div => quot
  | .pow => power

theorem excluded_leftOf {op : BinaryOp} (h : op ≠ .sub) :
    ∀ c ∈ (leftOf op).excluded, c = op.sign ∨ c ∈ (Stratum.of op).excluded := by
  cases op with
  | sub => exact absurd rfl h
  | add | mul | div | pow => decide

theorem excluded_rightOf {op : BinaryOp} (h : op ≠ .sub) :
    ∀ c ∈ (rightOf op).excluded, c ∈ (Stratum.of op).excluded := by
  cases op with
  | sub => exact absurd rfl h
  | add | mul | div | pow => decide

theorem sign_mem_excluded_leftOf {op : BinaryOp} (h : op ≠ .sub) :
    op.sign ∈ (leftOf op).excluded := by
  cases op with
  | sub => exact absurd rfl h
  | add | mul | div | pow => decide

/-- A stratum that may have an operator outside of brackets is as loose as its own. -/
theorem rank_le_of {op : BinaryOp} {k : Stratum} (h : op.sign ∉ k.excluded) :
    k.rank ≤ (Stratum.of op).rank := by
  revert h
  cases op <;> cases k <;> decide

end Stratum

/-- The five productions of operators between two texts. -/
theorem Derives.joined (op : BinaryOp) {l r : Text} {e f : Expr α}
    (hl : Derives N (Stratum.leftOf op) l e) (hr : Derives N (Stratum.rightOf op) r f) :
    Derives N (Stratum.of op) (l ++ op.sign :: r) (Parse.joined N op e f) := by
  cases op with
  | add => exact .add hl hr
  | sub => exact .sub hl hr
  | mul => exact .mul hl hr
  | div => exact .div hl hr
  | pow =>
    by_cases hf : IsTwo N f
    · rw [joined_pow_of_isTwo hf]
      exact .square hl hr hf
    · rw [joined_pow_of_not_isTwo hf]
      exact .pow hl hr hf

/-! ### One step of reading -/

theorem read_of_binary {s l r : Text} {op : BinaryOp} {e f : Expr α}
    (h : cut N s = .binary op l r) (hl : read N l = .ok e) (hr : read N r = .ok f) :
    read N s = .ok (joined N op e f) := by
  rw [read_eq, h]
  simp only [Cut.read, hl, hr]
  rfl

theorem exists_read_of_unary {s t : Text} {op : UnaryOp} {e : Expr α}
    (h : cut N s = .unary op t) (he : read N s = .ok e) :
    ∃ f, read N t = .ok f ∧ e = .unary op f := by
  rw [read_of_unary N h] at he
  cases ht : read N t with
  | error x => rw [ht] at he; cases he
  | ok f => rw [ht] at he; cases he; exact ⟨f, rfl, rfl⟩

theorem exists_read_of_binary {s l r : Text} {op : BinaryOp} {e : Expr α}
    (h : cut N s = .binary op l r) (he : read N s = .ok e) :
    ∃ f g, read N l = .ok f ∧ read N r = .ok g ∧ e = joined N op f g := by
  rw [read_eq, h] at he
  cases hl : read N l with
  | error x => simp only [Cut.read, hl] at he; cases he
  | ok f =>
    cases hr : read N r with
    | error x => simp only [Cut.read, hl, hr] at he; cases he
    | ok g =>
      simp only [Cut.read, hl, hr] at he
      cases he
      exact ⟨f, g, rfl, rfl, rfl⟩

/-! ### Soundness -/

/-- What a text that reads derives: it lies in every stratum whose excluded operators it has not. -/
def DerivesClear (N : Numerals α) (s : Text) (e : Expr α) : Prop :=
  ∀ k : Stratum, (∀ c ∈ k.excluded, Clear c s) → Derives N k s e

/-- A derivation in the stratum of an operator that stands outside of brackets. -/
theorem DerivesClear.of_operator (op : BinaryOp) {s : Text} {e : Expr α}
    (h : Derives N (Stratum.of op) s e) {i : ℕ} (hi : i ∈ topLevel op.sign s) :
    DerivesClear N s e :=
  fun k hk => h.loosen k (Stratum.rank_le_of fun hmem => hk _ hmem i hi)

theorem DerivesClear.of_atom {s : Text} {e : Expr α} (h : Derives N .atom s e) :
    DerivesClear N s e :=
  fun k _ => h.loosen k (by cases k <;> decide)

/-- The parts of a cut at an operator put together again. -/
theorem DerivesClear.of_first {op : BinaryOp} (hop : op ≠ .sub) {l r : Text} {e f : Expr α}
    (hl : nesting l = 0) (hs : ∀ c ∈ (Stratum.of op).excluded, Clear c (l ++ op.sign :: r))
    (h : Clear op.sign l) (ihl : DerivesClear N l e) (ihr : DerivesClear N r f) :
    DerivesClear N (l ++ op.sign :: r) (joined N op e f) := by
  have hparts (c : Char) (hc : c ∈ (Stratum.of op).excluded) : Clear c l ∧ Clear c r := by
    obtain ⟨h1, -, h2⟩ := (clear_joined_iff hl (noBracket_sign op)).1 (hs c hc)
    exact ⟨h1, h2⟩
  have hleft : Derives N (Stratum.leftOf op) l e := by
    refine ihl _ fun c hc => ?_
    rcases Stratum.excluded_leftOf hop c hc with rfl | hc
    · exact h
    · exact (hparts c hc).1
  have hright : Derives N (Stratum.rightOf op) r f :=
    ihr _ fun c hc => (hparts c (Stratum.excluded_rightOf hop c hc)).2
  exact .of_operator op (Derives.joined op hleft hright) (length_mem_topLevel hl)

/-- **What is read is derived.** -/
theorem derives_of_read {s : Text} {e : Expr α} (h : read N s = .ok e) :
    Balanced s ∧ DerivesClear N s e := by
  -- on the length of the text: the parts of a cut are shorter, but no pieces of its structure
  induction hn : s.length using Nat.strong_induction_on generalizing s e with
  | _ n ih =>
    subst hn
    have hbelow := below_cut N s
    cases hc : cut N s with
    | refused reason => rw [read_of_refused N hc] at h; cases h
    | leaf f =>
      rw [read_of_leaf N hc] at h
      cases h
      cases cutting_of_cut hc (by simp) with
      | leaf hs hleaf => exact ⟨hs.balanced, .of_atom (.literal hs hleaf)⟩
      | operator _ hcut => cases hcut
    | bracketed t =>
      rw [read_of_bracketed N hc] at h
      rw [hc] at hbelow
      obtain ⟨hbal, hder⟩ := ih _ hbelow h rfl
      cases cutting_of_cut hc (by simp) with
      | bracketed => exact ⟨hbal.wrap, .of_atom (.bracket (hder .sum (by simp [Stratum.excluded])))⟩
      | operator _ hcut => cases hcut
    | unary op t =>
      obtain ⟨f, hf, rfl⟩ := exists_read_of_unary hc h
      rw [hc] at hbelow
      obtain ⟨hbal, hder⟩ := ih _ hbelow hf rfl
      cases cutting_of_cut hc (by simp) with
      | call hop hs _ => exact ⟨hs, .of_atom (.call hop (hder .sum (by simp [Stratum.excluded])))⟩
      | operator hs hcut =>
        cases hcut with
        | lead hp hm =>
          have hp := ((clear_cons_iff (by decide)).1 hp).2
          have hprod := hder .prod (by simp [Stratum.excluded, hp, hm])
          exact ⟨hs, .of_operator .sub (.neg hprod) (i := 0) ⟨rfl, rfl⟩⟩
    | binary op l r =>
      obtain ⟨f, g, hf, hg, rfl⟩ := exists_read_of_binary hc h
      rw [hc] at hbelow
      obtain ⟨-, ihl⟩ := ih _ hbelow.1 hf rfl
      obtain ⟨-, ihr⟩ := ih _ hbelow.2 hg rfl
      cases cutting_of_cut hc (by simp) with
      | operator hs hcut =>
        cases hcut with
        | first hop hl hclear hfirst => exact ⟨hs, .of_first hop hl hclear hfirst ihl ihr⟩
        | last hne hl hp hm =>
          -- cut at its last sign, a difference may have a difference on the left
          obtain ⟨hpl, -, hpr⟩ := (clear_joined_iff hl (by decide)).1 hp
          have hleft := ihl .diff (by simp [Stratum.excluded, hpl])
          have hright := ihr .prod (by simp [Stratum.excluded, hpr, hm])
          exact ⟨hs, .of_operator .sub (.sub hleft hright) (length_mem_topLevel hl)⟩

/-! ### Completeness -/

/-- An operator other than the difference between two texts of its strata is where the text is cut.
-/
theorem read_of_operator (op : BinaryOp) (hop : op ≠ .sub) {l r : Text} {e f : Expr α}
    (hl : Derives N (Stratum.leftOf op) l e) (hr : Derives N (Stratum.rightOf op) r f)
    (ihl : read N l = .ok e) (ihr : read N r = .ok f) :
    read N (l ++ op.sign :: r) = .ok (joined N op e f) := by
  have hshape := (Derives.joined op hl hr).shape
  have hfirst := hl.shape.clear _ (Stratum.sign_mem_excluded_leftOf hop)
  exact read_of_binary (cut_of_operatorCut hshape.balanced
    (.first hop hl.shape.balanced.closed hshape.clear hfirst)) ihl ihr

/-- **What is derived is read.** -/
theorem read_of_derives {k : Stratum} {s : Text} {e : Expr α} (h : Derives N k s e) :
    read N s = .ok e := by
  induction h with
  | sum_diff _ ih | diff_prod _ ih | prod_quot _ ih | quot_power _ ih | power_atom _ ih => exact ih
  | add hl hr ihl ihr => exact read_of_operator .add (by decide) hl hr ihl ihr
  | mul hl hr ihl ihr => exact read_of_operator .mul (by decide) hl hr ihl ihr
  | div hl hr ihl ihr => exact read_of_operator .div (by decide) hl hr ihl ihr
  | square hl hr hf ihl ihr =>
    rw [← joined_pow_of_isTwo hf]
    exact read_of_operator .pow (by decide) hl hr ihl ihr
  | pow hl hr hf ihl ihr =>
    rw [← joined_pow_of_not_isTwo hf]
    exact read_of_operator .pow (by decide) hl hr ihl ihr
  | sub hl hr ihl ihr =>
    have hshape := (Derives.sub hl hr).shape
    exact read_of_binary (cut_of_operatorCut hshape.balanced (.last hl.shape.ne_nil
      hl.shape.balanced.closed (hshape.clear '+' (by decide)) (hr.shape.clear '-' (by decide))))
      ihl ihr
  | neg h ih =>
    have hshape := (Derives.neg h).shape
    have hcut := cut_of_operatorCut (N := N) hshape.balanced
      (.lead (hshape.clear '+' (by decide)) (h.shape.clear '-' (by decide)))
    rw [read_of_unary N hcut, ih]
    rfl
  | bracket h ih => rw [read_of_bracketed N (cut_wrap h.shape.balanced), ih]
  | call hop h ih =>
    rw [read_of_unary N (cut_call hop h.shape.balanced), ih]
    rfl
  | literal hs h => rw [read_of_leaf N (cut_literal hs h)]

/-- **Reading gives exactly the formulas that the grammar derives.** -/
theorem read_eq_ok_iff (s : Text) (e : Expr α) : read N s = .ok e ↔ Derives N .sum s e :=
  ⟨fun h => (derives_of_read h).2 .sum (by simp [Stratum.excluded]), read_of_derives⟩

/-- **A text denotes a formula exactly if the grammar derives it from the text without blanks, all
brackets round; every other text is refused.** -/
theorem parse_eq_ok_iff_derives (N : Numerals α) (s : Text) :
    (∀ e, Expr.parse N s = .ok e ↔ Derives N .sum (normalize s) e) ∧
      ((∃ fault, Expr.parse N s = .error fault) ↔ ∀ e, ¬Derives N .sum (normalize s) e) := by
  have hok (e : Expr α) : Expr.parse N s = .ok e ↔ Derives N .sum (normalize s) e :=
    read_eq_ok_iff (normalize s) e
  refine ⟨hok, ⟨?_, fun h => ?_⟩⟩
  · rintro ⟨fault, hf⟩ e he
    rw [(hok e).2 he] at hf
    cases hf
  · cases hp : Expr.parse N s with
    | error fault => exact ⟨fault, rfl⟩
    | ok e => exact absurd ((hok e).1 hp) (h e)

end CurveFormula.Parse
