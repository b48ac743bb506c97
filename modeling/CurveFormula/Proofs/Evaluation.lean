import CurveFormula.Simplify.Rule

/-!
# Facts about evaluation

A formula has a value exactly if its parts have values; where values may be undefined, this is said
of the values that are defined (`Takes`). The value depends only on the letters that occur in the
formula (`eval_congr`). Computing the numbers of a formula at its root leaves its value as
it is, over every kernel (`eval_fold?`).
-/

namespace CurveFormula

universe u

variable {α : Type u} {K : Kernel α} {x : α} {b : Binding α}

/-- What a step gives, it makes of what the step before it gave. -/
theorem exists_of_bind_eq_ok {ε : Type} {β γ : Type u} {r : Except ε β} {k : β → Except ε γ}
    {w : γ} (h : r >>= k = .ok w) : ∃ v, r = .ok v ∧ k v = .ok w := by
  cases r with
  | error f => cases h
  | ok v => exact ⟨v, rfl, h⟩

namespace Binding

theorem lookup_eq_ok_iff {p : Letter} {v : α} : b.lookup p = .ok v ↔ b p = some v := by
  unfold lookup
  cases b p with
  | none => simp
  | some w => simp

theorem lookup_congr {b' : Binding α} {p : Letter} (h : b p = b' p) : b.lookup p = b'.lookup p := by
  unfold lookup
  rw [h]

theorem lookupAll_congr {b' : Binding α} {ps : List Letter} (h : ∀ p ∈ ps, b p = b' p) :
    b.lookupAll ps = b'.lookupAll ps := by
  induction ps with
  | nil => rfl
  | cons p ps ih =>
    unfold lookupAll
    rw [lookup_congr (h p (by simp)), ih fun q hq => h q (by simp [hq])]

/-- Letters that all have values can be looked up together. -/
theorem exists_lookupAll {ps : List Letter} (h : ∀ p ∈ ps, ∃ v, b p = some v) :
    ∃ vs, b.lookupAll ps = .ok vs := by
  induction ps with
  | nil => exact ⟨[], rfl⟩
  | cons p ps ih =>
    obtain ⟨v, hv⟩ := h p (by simp)
    obtain ⟨vs, hvs⟩ := ih fun q hq => h q (by simp [hq])
    refine ⟨v :: vs, ?_⟩
    simp only [lookupAll, lookup_of_some hv, hvs]
    rfl

end Binding

namespace Expr

/-! ### Values of the parts -/

theorem eval_unary_eq_ok_iff {op : UnaryOp} {e : Expr α} {w : α} :
    (unary op e).eval K x b = .ok w ↔ ∃ v, e.eval K x b = .ok v ∧ K.unary op v = w := by
  constructor
  · intro h
    cases he : e.eval K x b with
    | error u => rw [eval_unary_of_error K he] at h; cases h
    | ok v =>
      rw [eval_unary_of_ok K he] at h
      exact ⟨v, rfl, Except.ok.inj h⟩
  · rintro ⟨v, hv, rfl⟩
    exact eval_unary_of_ok K hv

theorem eval_binary_eq_ok_iff {op : BinaryOp} {l r : Expr α} {w : α} :
    (binary op l r).eval K x b = .ok w ↔
      ∃ v v', l.eval K x b = .ok v ∧ r.eval K x b = .ok v' ∧ K.binary op v v' = w := by
  constructor
  · intro h
    cases hl : l.eval K x b with
    | error u => rw [eval_binary_of_error_left K hl] at h; cases h
    | ok v =>
      cases hr : r.eval K x b with
      | error u => rw [eval_binary_of_error_right K hl hr] at h; cases h
      | ok v' =>
        rw [eval_binary_of_ok K hl hr] at h
        exact ⟨v, v', rfl, rfl, Except.ok.inj h⟩
  · rintro ⟨v, v', hl, hr, rfl⟩
    exact eval_binary_of_ok K hl hr

/-! ### Values that may be undefined -/

section Partial

variable {F : Type u} {K : Kernel (Option F)} {x : Option F} {b : Binding (Option F)}

/-- The formula is defined and has this value. -/
def Takes (K : Kernel (Option F)) (x : Option F) (b : Binding (Option F)) (e : Expr (Option F))
    (v : F) : Prop :=
  e.eval K x b = .ok (some v)

theorem Takes.unique {e : Expr (Option F)} {v w : F} (hv : Takes K x b e v)
    (hw : Takes K x b e w) : v = w :=
  Option.some.inj (Except.ok.inj (hv.symm.trans hw))

/-- A function that is undefined where its operand is: its formula is defined where the operand is
and the function is defined of its value. -/
theorem takes_unary_iff {op : UnaryOp} {f : F → Option F} (hop : ∀ a, K.unary op a = a.bind f)
    {e : Expr (Option F)} {w : F} :
    Takes K x b (unary op e) w ↔ ∃ u, Takes K x b e u ∧ f u = some w := by
  unfold Takes
  rw [eval_unary_eq_ok_iff]
  constructor
  · rintro ⟨a, ha, hw⟩
    obtain ⟨u, rfl, hu⟩ := Option.bind_eq_some_iff.1 ((hop a).symm.trans hw)
    exact ⟨u, ha, hu⟩
  · rintro ⟨u, hu, hw⟩
    exact ⟨some u, hu, (hop _).trans hw⟩

/-- An operator that is undefined where one of its operands is. -/
theorem takes_binary_iff {op : BinaryOp} {f : F → F → Option F}
    (hop : ∀ a c, K.binary op a c = a.bind fun u => c.bind (f u)) {l r : Expr (Option F)} {w : F} :
    Takes K x b (binary op l r) w ↔
      ∃ u v, Takes K x b l u ∧ Takes K x b r v ∧ f u v = some w := by
  unfold Takes
  rw [eval_binary_eq_ok_iff]
  constructor
  · rintro ⟨a, c, ha, hc, hw⟩
    obtain ⟨u, rfl, hu⟩ := Option.bind_eq_some_iff.1 ((hop a c).symm.trans hw)
    obtain ⟨v, rfl, hv⟩ := Option.bind_eq_some_iff.1 hu
    exact ⟨u, v, ha, hc, hv⟩
  · rintro ⟨u, v, hu, hv, hw⟩
    exact ⟨some u, some v, hu, hv, (hop _ _).trans hw⟩

end Partial

/-! ### Letters -/

/-- **The value of a formula depends on the letters that occur in it alone.** -/
theorem eval_congr {b' : Binding α} {e : Expr α} (h : ∀ p ∈ e.letters, b p = b' p) :
    e.eval K x b = e.eval K x b' := by
  induction e with
  | var | const _ | zero | one => rfl
  | param p => exact Binding.lookup_congr (h p (by simp [letters]))
  | poly w n =>
    have hps : b.lookupAll (Letter.upTo n) = b'.lookupAll (Letter.upTo n) :=
      Binding.lookupAll_congr h
    unfold eval
    rw [hps]
  | unary op e ih =>
    unfold eval
    rw [ih h]
  | binary op l r ihl ihr =>
    unfold eval
    rw [ihl fun p hp => h p (List.mem_append_left _ hp),
      ihr fun p hp => h p (List.mem_append_right _ hp)]

/-- A formula whose letters all have values has a value. -/
theorem exists_eval {e : Expr α} (h : ∀ p ∈ e.letters, ∃ v, b p = some v) :
    ∃ v, e.eval K x b = .ok v := by
  induction e with
  | var | const _ | zero | one => exact ⟨_, rfl⟩
  | param p =>
    obtain ⟨v, hv⟩ := h p (by simp [letters])
    exact ⟨v, Binding.lookup_of_some hv⟩
  | poly w n =>
    have hps : ∀ p ∈ Letter.upTo n, ∃ v, b p = some v := h
    obtain ⟨vs, hvs⟩ := Binding.exists_lookupAll hps
    refine ⟨K.series w x vs, ?_⟩
    simp only [eval, hvs]
    rfl
  | unary op e ih =>
    obtain ⟨v, hv⟩ := ih h
    exact ⟨_, eval_unary_of_ok K hv⟩
  | binary op l r ihl ihr =>
    obtain ⟨v, hv⟩ := ihl fun p hp => h p (List.mem_append_left _ hp)
    obtain ⟨w, hw⟩ := ihr fun p hp => h p (List.mem_append_right _ hp)
    exact ⟨_, eval_binary_of_ok K hv hw⟩

/-! ### Computing numbers -/

/-- **Computing numbers at the root leaves the value as it is.** -/
theorem eval_fold? {e e' : Expr α} (h : Rule.fold? K e = some e') :
    e'.eval K x b = e.eval K x b := by
  cases e with
  | unary op e =>
    obtain ⟨v, hv, rfl⟩ := Option.map_eq_some_iff.1 h
    exact (eval_unary_of_ok K (eval_of_constant? K hv x b)).symm
  | binary op l r =>
    simp only [Rule.fold?] at h
    cases hl : l.constant? K with
    | none => simp [hl] at h
    | some v =>
      cases hr : r.constant? K with
      | none => simp [hl, hr] at h
      | some w =>
        simp only [hl, hr] at h
        cases h
        exact (eval_binary_of_ok K (eval_of_constant? K hl x b)
          (eval_of_constant? K hr x b)).symm
  | var | const _ | zero | one | param _ | poly _ _ => cases h

end Expr

end CurveFormula
