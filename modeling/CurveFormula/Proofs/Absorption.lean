import CurveFormula.Proofs.FieldRules
import Mathlib.Data.List.Nodup

/-!
# Parameters that take up their surroundings

A parameter may have any value, so a function of it, or an operator between it and a number or
another parameter, gives no curves that the parameter alone does not give; nor does a division by
it, compared with a product. The rules of `Rule.absorbing` rewrite formulas in this way, and a pass
with them loses no curve, provided that no letter occurs twice (`covers_simplify`).

The binding for the simplified formula is built along the pass, from the leaves to the root.
Nothing is said about the values of the variable in it: one binding has to serve all of them.
-/

namespace CurveFormula

universe u

variable {α : Type u} {K : Kernel α}

/-- For every binding there is one under which the second formula has, at all points, the value
that the first formula has there. -/
def Covers (K : Kernel α) (e e' : Expr α) : Prop :=
  ∀ b : Binding α, ∃ b' : Binding α, ∀ x v, e.eval K x b = .ok v → e'.eval K x b' = .ok v

namespace Covers

theorem refl (e : Expr α) : Covers K e e :=
  fun b => ⟨b, fun _ _ h => h⟩

theorem trans {e e' e'' : Expr α} (h : Covers K e e') (h' : Covers K e' e'') :
    Covers K e e'' := by
  intro b
  obtain ⟨b', hb'⟩ := h b
  obtain ⟨b'', hb''⟩ := h' b'
  exact ⟨b'', fun x v hv => hb'' x v (hb' x v hv)⟩

theorem unary (op : UnaryOp) {e e' : Expr α} (h : Covers K e e') :
    Covers K (.unary op e) (.unary op e') := by
  intro b
  obtain ⟨b', hb'⟩ := h b
  refine ⟨b', fun x v hv => ?_⟩
  obtain ⟨u, hu, hop⟩ := Expr.eval_unary_eq_ok_iff.1 hv
  exact Expr.eval_unary_eq_ok_iff.2 ⟨u, hb' x u hu, hop⟩

/-- Parts without a common letter can be given their bindings together. -/
theorem binary (op : BinaryOp) {l l' r r' : Expr α} (hl : Covers K l l') (hr : Covers K r r')
    (hdisjoint : l'.letters.Disjoint r'.letters) :
    Covers K (.binary op l r) (.binary op l' r') := by
  intro b
  obtain ⟨bl, hbl⟩ := hl b
  obtain ⟨br, hbr⟩ := hr b
  let b' : Binding α := fun p => if p ∈ l'.letters then bl p else br p
  have hleft (x : α) : l'.eval K x b' = l'.eval K x bl :=
    Expr.eval_congr fun p hp => if_pos hp
  have hright (x : α) : r'.eval K x b' = r'.eval K x br :=
    Expr.eval_congr fun p hp => if_neg fun hp' => hdisjoint hp' hp
  refine ⟨b', fun x w hw => ?_⟩
  obtain ⟨u, v, hu, hv, hop⟩ := Expr.eval_binary_eq_ok_iff.1 hw
  refine Expr.eval_binary_eq_ok_iff.2 ⟨u, v, ?_, ?_, hop⟩
  · rw [hleft]
    exact hbl x u hu
  · rw [hright]
    exact hbr x v hv

/-- A formula whose value is the same at all points gives nothing that a parameter does not. -/
theorem param_of_constant {e : Expr α} (p : Letter)
    (h : ∀ x x' b, e.eval K x b = e.eval K x' b) : Covers K e (.param p) := by
  intro b
  -- the value of the parameter has to be chosen before any point is given
  by_cases hdefined : ∃ x v, e.eval K x b = .ok v
  · obtain ⟨x, v, hv⟩ := hdefined
    refine ⟨fun _ => some v, fun x' v' hv' => ?_⟩
    rw [h x' x b, hv] at hv'
    rw [← hv']
    rfl
  · exact ⟨b, fun x v hv => absurd ⟨x, v, hv⟩ hdefined⟩

/-- A formula divided by a parameter that it does not have is covered by its product with it. -/
theorem mul_of_div
    (hdiv : ∀ v u, K.binary .div v u = K.binary .mul v (K.binary .div K.one u))
    {l : Expr α} {p : Letter} (hp : p ∉ l.letters) :
    Covers K (.binary .div l (.param p)) (.binary .mul l (.param p)) := by
  intro b
  let b' : Binding α := Function.update b p ((b p).map (K.binary .div K.one))
  have hleft (x : α) : l.eval K x b' = l.eval K x b := by
    refine Expr.eval_congr fun q hq => Function.update_of_ne ?_ _ _
    rintro rfl
    exact hp hq
  refine ⟨b', fun x w hw => ?_⟩
  obtain ⟨v, u, hv, hu, rfl⟩ := Expr.eval_binary_eq_ok_iff.1 hw
  refine Expr.eval_binary_eq_ok_iff.2 ⟨v, K.binary .div K.one u, ?_, ?_, (hdiv v u).symm⟩
  · rw [hleft]
    exact hv
  · have hbound : b p = some u := Binding.lookup_eq_ok_iff.1 hu
    exact Binding.lookup_of_some (by simp [b', hbound])

end Covers

/-! ### The rules -/

namespace Rule

/-- The rules that rely on the freedom of parameters, and the computing of numbers. -/
def absorbing : List Rule :=
  [absorbParameter, divideByParameter, foldConstants]

/-- An absorbed operand has the same value at all points. -/
theorem eval_of_isAbsorbed {r : Expr α} (h : isAbsorbed r = true) (x x' : α) (b : Binding α) :
    r.eval K x b = r.eval K x' b := by
  cases r with
  | param _ | const _ | zero | one => rfl
  | var | unary _ _ | binary _ _ _ | poly _ _ => cases h

/-- What a parameter takes up has the same value at all points. -/
theorem absorb?_eq_some {e e' : Expr α} (h : absorb? e = some e') :
    ∃ p, e' = .param p ∧ ∀ x x' b, e.eval K x b = e.eval K x' b := by
  unfold absorb? at h
  split at h
  · rename_i op p
    cases h
    exact ⟨p, rfl, fun _ _ _ => rfl⟩
  · rename_i op p r
    split_ifs at h with hr
    cases h
    refine ⟨p, rfl, fun x x' b => ?_⟩
    unfold Expr.eval
    rw [eval_of_isAbsorbed hr x x' b]
    rfl
  · cases h

theorem divide?_eq_some {e e' : Expr α} (h : divide? e = some e') :
    ∃ l p, e = .binary .div l (.param p) ∧ e' = .binary .mul l (.param p) := by
  unfold divide? at h
  split at h
  · rename_i l p
    cases h
    exact ⟨l, p, rfl, rfl⟩
  · cases h

/-- **Each of the rules loses no curve.** -/
theorem covers_result?
    (hdiv : ∀ v u, K.binary .div v u = K.binary .mul v (K.binary .div K.one u))
    {rule : Rule} (hrule : rule ∈ absorbing) {e e' : Expr α} (hnodup : e.letters.Nodup)
    (hr : rule.result? K e = some e') : Covers K e e' := by
  cases rule with
  | absorbParameter =>
    obtain ⟨p, rfl, hconstant⟩ := absorb?_eq_some (K := K) hr
    exact .param_of_constant p hconstant
  | divideByParameter =>
    obtain ⟨l, p, rfl, rfl⟩ := divide?_eq_some hr
    have hdisjoint := (List.nodup_append'.1 hnodup).2.2
    exact .mul_of_div hdiv fun hp => hdisjoint hp (by simp [Expr.letters])
  | foldConstants => exact fun b => ⟨b, fun x v hv => (Expr.eval_fold? hr).trans hv⟩
  | zeroIdentity | oneIdentity | inverseCancellation | identityElision | signNormalization =>
    exact absurd hrule (by decide)

end Rule

/-! ### The pass -/

/-- A pass with these rules loses no curve. -/
theorem covers_simplify
    (hdiv : ∀ v u, K.binary .div v u = K.binary .mul v (K.binary .div K.one u))
    {rules : List Rule} (hrules : rules ⊆ Rule.absorbing) {t : Expr α}
    (hnodup : t.letters.Nodup) : Covers K t (t.simplify K rules) := by
  -- the letters go along in the induction: rewritten parts must not come to share one
  have hpass : (t.simplify K rules).letters.Sublist t.letters ∧
      (t.letters.Nodup → Covers K t (t.simplify K rules)) := by
    refine Expr.simplify_induction
      (R := fun e e' => e'.letters.Sublist e.letters ∧ (e.letters.Nodup → Covers K e e'))
      ?_ ?_ ?_ ?_ t
    · exact fun e => ⟨List.Sublist.refl _, fun _ => .refl e⟩
    · rintro op e e' ⟨hsub, he⟩
      exact ⟨hsub, fun h => .unary op (he h)⟩
    · rintro op l l' r r' ⟨hsubl, hl⟩ ⟨hsubr, hr⟩
      refine ⟨hsubl.append hsubr, fun h => ?_⟩
      obtain ⟨hnl, hnr, hdisjoint⟩ := List.nodup_append'.1 h
      refine .binary op (hl hnl) (hr hnr) fun p hpl hpr => ?_
      exact hdisjoint (hsubl.subset hpl) (hsubr.subset hpr)
    · rintro rule hrule e e' e'' ⟨hsub, he⟩ hr
      have hroot := (Rule.rewrite_of_result? hr).gathered_sublist Expr.gathered_letters
      refine ⟨hroot.trans hsub, fun h => ?_⟩
      exact (he h).trans (Rule.covers_result? hdiv (hrules hrule) (hsub.nodup h) hr)
  exact hpass.2 hnodup

/-- **Absorbing parameters loses no curve: whatever values the letters of a formula have, there are
values under which the simplified formula agrees with it at every point.** -/
theorem exists_binding_simplify
    (hdiv : ∀ v u, K.binary .div v u = K.binary .mul v (K.binary .div K.one u))
    {rules : List Rule} (hrules : rules ⊆ Rule.absorbing) {t : Expr α}
    (hnodup : t.letters.Nodup) {b : Binding α} (hb : ∀ p ∈ t.letters, ∃ v, b p = some v) :
    ∃ b' : Binding α, ∀ x, ∃ v,
      t.eval K x b = .ok v ∧ (t.simplify K rules).eval K x b' = .ok v := by
  obtain ⟨b', hb'⟩ := covers_simplify hdiv hrules hnodup b
  refine ⟨b', fun x => ?_⟩
  obtain ⟨v, hv⟩ := Expr.exists_eval (K := K) (x := x) hb
  exact ⟨v, hv, hb' x v hv⟩

/-- A quotient by the exponential of a parameter, plus another parameter less a number. -/
def quotientByExponential (p q : Letter) : Expr (Option ℚ) :=
  .binary .add (.binary .div .var (.unary .exp (.param p)))
    (.binary .sub (.param q) (.const (some 2)))

theorem exists_binding_simplify_rationals :
    (quotientByExponential ⟨'a', by decide⟩ ⟨'b', by decide⟩).simplify
          PartialField.rationals.kernel Rule.absorbing =
        .binary .add (.binary .mul .var (.param ⟨'a', by decide⟩)) (.param ⟨'b', by decide⟩) ∧
      ∃ b' : Binding (Option ℚ), ∀ x, ∃ v,
        (quotientByExponential ⟨'a', by decide⟩ ⟨'b', by decide⟩).eval
            PartialField.rationals.kernel x (fun _ => some (some 0)) = .ok v ∧
          ((quotientByExponential ⟨'a', by decide⟩ ⟨'b', by decide⟩).simplify
            PartialField.rationals.kernel Rule.absorbing).eval
              PartialField.rationals.kernel x b' = .ok v :=
  ⟨by decide +kernel, exists_binding_simplify PartialField.rationals.kernel_div
    (List.Subset.refl _) (by decide) fun _ _ => ⟨_, rfl⟩⟩

end CurveFormula
