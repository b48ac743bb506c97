import CurveFormula.Expr.Traversal
import CurveFormula.Proofs.RoundTrip

/-!
# The formulas that reading gives

A formula is spelled out if writing it loses nothing: it has no sum of powers, no constant with a
negative sign, and no power with the exponent two. Reading gives spelled formulas only
(`Parse.Derives.spelled`), by induction on the derivation of the text. A spelled formula is its own
canonical formula (`Expr.canon_eq_self`), so reading gives every one of them, and a formula that was
read is read again from its text.
-/

namespace CurveFormula

universe u

variable {α : Type u} {N : Numerals α}

namespace Expr

theorem self_mem_preorder (e : Expr α) : e ∈ e.preorder := by
  cases e <;> simp [preorder]

/-- Nothing of the formula is lost in writing it. -/
structure Spelled (N : Numerals α) (e : Expr α) : Prop where
  no_sum : ∀ w n, poly w n ∉ e.preorder
  no_sign : ∀ c, const c ∈ e.preorder → N.negative c = false
  no_square : ∀ l c, binary .pow l (const c) ∈ e.preorder → N.isTwo c = false

/-- A formula all of whose nodes are those of a spelled formula. -/
theorem Spelled.mono {e f : Expr α} (h : f.Spelled N) (hef : e.preorder ⊆ f.preorder) :
    e.Spelled N :=
  ⟨fun w n hm => h.no_sum w n (hef hm), fun c hm => h.no_sign c (hef hm),
    fun l c hm => h.no_square l c (hef hm)⟩

theorem spelled_const_iff {c : α} : (const c).Spelled N ↔ N.negative c = false := by
  refine ⟨fun h => h.no_sign c (self_mem_preorder _), fun h => ?_⟩
  constructor <;> simp [preorder, h]

theorem not_spelled_poly (w : Weights) (n : Fin 24) : ¬(poly w n : Expr α).Spelled N :=
  fun h => h.no_sum w n (self_mem_preorder _)

theorem spelled_unary_iff {op : UnaryOp} {e : Expr α} :
    (unary op e).Spelled N ↔ e.Spelled N := by
  refine ⟨fun h => h.mono (List.subset_cons_self _ _), fun h => ⟨?_, ?_, ?_⟩⟩
  · simpa [preorder] using h.no_sum
  · simpa [preorder] using h.no_sign
  · simpa [preorder] using h.no_square

theorem spelled_binary_iff {op : BinaryOp} {l r : Expr α} :
    (binary op l r).Spelled N ↔
      l.Spelled N ∧ r.Spelled N ∧ ¬(op = .pow ∧ Parse.IsTwo N r) := by
  constructor
  · intro h
    refine ⟨h.mono fun m hm => ?_, h.mono fun m hm => ?_, ?_⟩
    · exact List.mem_cons_of_mem _ (List.mem_append_left _ hm)
    · exact List.mem_cons_of_mem _ (List.mem_append_right _ hm)
    · rintro ⟨rfl, c, rfl, hc⟩
      rw [h.no_square l c (self_mem_preorder _)] at hc
      cases hc
  · rintro ⟨hl, hr, htwo⟩
    constructor
    · intro w n hm
      simp only [preorder, List.mem_cons, reduceCtorEq, List.mem_append, false_or] at hm
      exact hm.elim (hl.no_sum w n) (hr.no_sum w n)
    · intro c hm
      simp only [preorder, List.mem_cons, reduceCtorEq, List.mem_append, false_or] at hm
      exact hm.elim (hl.no_sign c) (hr.no_sign c)
    · intro l' c hm
      rcases List.mem_cons.1 hm with hroot | hm
      · cases hroot
        exact Bool.eq_false_iff.2 fun hc => htwo ⟨rfl, c, rfl, hc⟩
      · exact (List.mem_append.1 hm).elim (hl.no_square l' c) (hr.no_square l' c)

/-- A leaf without a constant is spelled out. -/
theorem spelled_leaf {e : Expr α} (h : e ∈ [var, zero, one] ∨ ∃ p, e = param p) :
    e.Spelled N := by
  simp only [List.mem_cons, List.not_mem_nil, or_false] at h
  rcases h with (rfl | rfl | rfl) | ⟨p, rfl⟩ <;> constructor <;> simp [preorder]

variable {magnitude : α → α} {nearest : ℕ → α}

/-- A spelled formula is its own canonical formula. -/
theorem canon_eq_self {e : Expr α} (h : e.Spelled N) : e.canon N magnitude nearest = e := by
  induction e with
  | var | zero | one | param _ => rfl
  | const c => simp [canon, spelled_const_iff.1 h]
  | poly w n => exact absurd h (not_spelled_poly w n)
  | unary op e ih => rw [canon_unary, ih (spelled_unary_iff.1 h)]
  | binary op l r ihl ihr =>
    obtain ⟨hl, hr, htwo⟩ := spelled_binary_iff.1 h
    simp only [canon, htwo, if_false, ihl hl, ihr hr]

end Expr

namespace Parse

theorem Leaf.spelled {s : Text} {e : Expr α} (h : Leaf N s e)
    (hs : ∀ c, N.read s = some c → N.negative c = false) : e.Spelled N := by
  cases h with
  | var | zero | one => exact Expr.spelled_leaf (by simp)
  | param p => exact Expr.spelled_leaf (Or.inr ⟨p, rfl⟩)
  | const _ hc => exact Expr.spelled_const_iff.2 (hs _ hc)

/-- **What the grammar derives is spelled out**, if no text without a minus sign reads as a constant
with a negative sign. -/
theorem Derives.spelled (hread : ∀ s c, '-' ∉ s → N.read s = some c → N.negative c = false)
    {k : Stratum} {s : Text} {e : Expr α} (h : Derives N k s e) : e.Spelled N := by
  induction h with
  | sum_diff _ ih | diff_prod _ ih | prod_quot _ ih | quot_power _ ih | power_atom _ ih
  | bracket _ ih => exact ih
  | add _ _ ihl ihr | sub _ _ ihl ihr | mul _ _ ihl ihr | div _ _ ihl ihr =>
    exact Expr.spelled_binary_iff.2 ⟨ihl, ihr, by simp⟩
  | pow _ _ hf ihl ihr => exact Expr.spelled_binary_iff.2 ⟨ihl, ihr, fun h => hf h.2⟩
  | neg _ ih | call _ _ ih => exact Expr.spelled_unary_iff.2 ih
  | square _ _ _ ihl _ => exact Expr.spelled_unary_iff.2 ihl
  | literal hs hleaf =>
    -- a minus sign is an operator, and no literal holds one
    have hminus {s : Text} (hs : Bare s) : '-' ∉ s := fun hm => absurd (hs.2 _ hm) (by decide)
    exact hleaf.spelled fun c => hread _ c (hminus hs)

variable {magnitude : α → α} {nearest : ℕ → α}

/-- **Reading gives exactly the spelled formulas, and writing one that was read gives a text that
reads as the same formula.** -/
theorem parse_image (hN : N.Faithful magnitude nearest)
    (hread : ∀ s c, '-' ∉ s → N.read s = some c → N.negative c = false) :
    (∀ e, (∃ s, Expr.parse N s = .ok e) ↔ e.Spelled N) ∧
      ∀ s e, Expr.parse N s = .ok e → Expr.parse N (e.display N) = .ok e := by
  have hspelled (s : Text) (e : Expr α) (h : Expr.parse N s = .ok e) : e.Spelled N :=
    ((read_eq_ok_iff _ _).1 h).spelled hread
  have hdisplay (e : Expr α) (h : e.Spelled N) : Expr.parse N (e.display N) = .ok e := by
    have hcanon := read_of_derives (derives_display hN e)
    rwa [Expr.canon_eq_self h] at hcanon
  refine ⟨fun e => ⟨?_, fun h => ⟨e.display N, hdisplay e h⟩⟩, fun s e h => ?_⟩
  · rintro ⟨s, hs⟩
    exact hspelled s e hs
  · exact hdisplay e (hspelled s e h)

/-- A negated number with the exponent two, in square brackets. -/
theorem parse_image_whole :
    (∃ s, Expr.parse Whole.numerals s = .ok (.unary .square (.unary .neg (.const (.ofNat 3))))) ∧
      Expr.parse Whole.numerals "((-3.0))^2".toList =
        .ok (.unary .square (.unary .neg (.const (.ofNat 3)))) := by
  have hread (s : Text) (c : Whole) (_ : '-' ∉ s) (hc : Whole.read s = some c) :
      c.negative = false := Whole.negative_of_read hc
  have hparse : Expr.parse Whole.numerals "[ -3 ] ^ 2.0".toList =
      .ok (.unary .square (.unary .neg (.const (.ofNat 3)))) := by
    decide +kernel
  obtain ⟨himage, hagain⟩ := parse_image Whole.faithful hread
  refine ⟨(himage _).2 ?_, hagain _ _ hparse⟩
  exact Expr.spelled_unary_iff.2 (Expr.spelled_unary_iff.2 (Expr.spelled_const_iff.2 rfl))

end Parse

end CurveFormula
