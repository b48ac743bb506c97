import CurveFormula.Proofs.Bound

/-!
# Letters without a value

A formula whose letters do not all have values can neither be evaluated nor plotted. Its letters are
asked for from left to right, none of them is skipped, and the walk ends at the first one without a
value: `Binding.missing?` of the letters of the formula. The same letter is the cause at a point,
over a column of points and in a plot text (`Expr.reports_unbound`), even if the column is empty or
the part of the formula would be multiplied by nought.
-/

namespace CurveFormula

universe u v

variable {α : Type u} {b : Binding α}

namespace Binding

/-- The first of some letters that has no value. -/
def missing? (b : Binding α) (ps : List Letter) : Option Letter :=
  ps.find? fun p => (b p).isNone

theorem missing?_cons_of_none {p : Letter} {ps : List Letter} (h : b p = none) :
    b.missing? (p :: ps) = some p := by
  simp [missing?, h]

theorem missing?_cons_of_some {p : Letter} {ps : List Letter} {v : α} (h : b p = some v) :
    b.missing? (p :: ps) = b.missing? ps := by
  simp [missing?, h]

theorem missing?_append (ps qs : List Letter) :
    b.missing? (ps ++ qs) = (b.missing? ps).or (b.missing? qs) :=
  List.find?_append

theorem missing?_eq_none_iff {ps : List Letter} :
    b.missing? ps = none ↔ ∀ p ∈ ps, ∃ v, b p = some v := by
  simp [missing?, Option.ne_none_iff_exists']

/-- A letter is the first one without a value if all letters before it have values. -/
theorem missing?_eq_some_iff {ps : List Letter} {p : Letter} :
    b.missing? ps = some p ↔
      b p = none ∧ ∃ before behind, ps = before ++ p :: behind ∧ ∀ q ∈ before, b q ≠ none := by
  unfold missing?
  rw [List.find?_eq_some_iff_append]
  simp [Option.isSome_iff_ne_none]

/-- Of two lists of letters, the second one matters if the first one has all its values. -/
theorem missing?_append_eq_some_iff {ps qs : List Letter} {p : Letter} :
    b.missing? (ps ++ qs) = some p ↔
      b.missing? ps = some p ∨ (∀ q ∈ ps, ∃ v, b q = some v) ∧ b.missing? qs = some p := by
  rw [missing?_append, Option.or_eq_some_iff, missing?_eq_none_iff]

theorem lookup_of_missing {p q : Letter} (h : b.missing? [q] = some p) :
    b.lookup q = .error ⟨p.text⟩ := by
  obtain ⟨hq, rfl⟩ : b q = none ∧ q = p := by simpa [missing?] using h
  exact lookup_of_none hq

theorem lookupAll_of_missing {ps : List Letter} {p : Letter} (h : b.missing? ps = some p) :
    b.lookupAll ps = .error ⟨p.text⟩ := by
  induction ps with
  | nil => cases h
  | cons q ps ih =>
    cases hq : b q with
    | none =>
      rw [missing?_cons_of_none hq] at h
      cases h
      simp only [lookupAll, lookup_of_none hq]
      rfl
    | some v =>
      rw [missing?_cons_of_some hq] at h
      simp only [lookupAll, lookup_of_some hq, ih h]
      rfl

end Binding

/-- A result that fails exactly if some letter has no value, the first such letter being the cause.
-/
structure Reports {ε : Type} {β : Type v} (b : Binding α) (ps : List Letter)
    (cause : Unbound → ε) (r : Except ε β) : Prop where
  error_iff : (∃ fault, r = .error fault) ↔ ∃ p ∈ ps, b p = none
  /-- The cause is the first letter without a value, whatever stands behind it. -/
  error_of_first : ∀ before p behind, ps = before ++ p :: behind →
    (∀ q ∈ before, b q ≠ none) → b p = none → r = .error (cause ⟨p.text⟩)

/-- A result reports its letters if it fails at the first one without a value and else succeeds. -/
theorem reports_of_missing {ε : Type} {β : Type v} {ps : List Letter} {cause : Unbound → ε}
    {r : Except ε β} (herror : ∀ p, b.missing? ps = some p → r = .error (cause ⟨p.text⟩))
    (hok : (∀ p ∈ ps, ∃ v, b p = some v) → ∃ v, r = .ok v) : Reports b ps cause r := by
  constructor
  · cases hm : b.missing? ps with
    | none =>
      have hall := Binding.missing?_eq_none_iff.1 hm
      obtain ⟨v, rfl⟩ := hok hall
      constructor
      · rintro ⟨fault, hf⟩
        cases hf
      · rintro ⟨p, hp, hnone⟩
        obtain ⟨w, hw⟩ := hall p hp
        rw [hnone] at hw
        cases hw
    | some p =>
      obtain ⟨hnone, before, behind, hps, -⟩ := Binding.missing?_eq_some_iff.1 hm
      refine ⟨fun _ => ⟨p, ?_, hnone⟩, fun _ => ⟨_, herror p hm⟩⟩
      rw [hps]
      simp
  · intro before p behind hps hbefore hnone
    exact herror p (Binding.missing?_eq_some_iff.2 ⟨hnone, before, behind, hps, hbefore⟩)

namespace Expr

variable {e : Expr α} {p : Letter}

/-- At a point, the first letter without a value is reported. -/
theorem eval_of_missing {K : Kernel α} {x : α} (h : b.missing? e.letters = some p) :
    e.eval K x b = .error ⟨p.text⟩ := by
  induction e with
  | var | const _ | zero | one => cases h
  | param q => exact Binding.lookup_of_missing h
  | poly w n =>
    have hlookup : b.lookupAll (Letter.upTo n) = .error ⟨p.text⟩ := Binding.lookupAll_of_missing h
    simp only [eval, hlookup]
    rfl
  | unary op e ih => exact eval_unary_of_error K (ih h)
  | binary op l r ihl ihr =>
    rcases Binding.missing?_append_eq_some_iff.1 h with hl | ⟨hl, hr⟩
    · exact eval_binary_of_error_left K (ihl hl)
    · obtain ⟨v, hv⟩ := exists_eval (K := K) (x := x) hl
      exact eval_binary_of_error_right K hv (ihr hr)

/-- In a walk over a column, the first letter without a value is reported. Columns of different
lengths do not meet before it. -/
theorem evalBlock_of_missing {C : ColumnKernel α} {x : Block α} {n : ℕ} (hx : x.Fits n)
    (h : b.missing? e.letters = some p) :
    e.evalBlock C x b = .error (.unbound ⟨p.text⟩) := by
  induction e with
  | var | const _ | zero | one => cases h
  | param q =>
    simp only [evalBlock, Binding.lookup_of_missing h]
    rfl
  | poly w m =>
    have hlookup : b.lookupAll (Letter.upTo m) = .error ⟨p.text⟩ := Binding.lookupAll_of_missing h
    simp only [evalBlock, hlookup]
    rfl
  | unary op e ih =>
    simp only [evalBlock, ih h]
    rfl
  | binary op l r ihl ihr =>
    rcases Binding.missing?_append_eq_some_iff.1 h with hl | ⟨hl, hr⟩
    · simp only [evalBlock, ihl hl]
      rfl
    · obtain ⟨v, hv, -⟩ := exists_evalBlock C hx hl
      simp only [evalBlock, hv, ihr hr]
      rfl

theorem evalMany_of_missing {C : ColumnKernel α} (xs : List α)
    (h : b.missing? e.letters = some p) :
    e.evalMany C xs b = .error (.unbound ⟨p.text⟩) := by
  have hxs : (Block.column xs).Fits xs.length := rfl
  simp only [evalMany, evalBlock_of_missing hxs h]
  rfl

/-- In a plot text, the first letter without a value is reported. -/
theorem plotWith_of_missing {N : Numerals α} (h : b.missing? e.letters = some p) :
    e.plotWith N b = .error ⟨p.text⟩ := by
  induction e with
  | var | const _ | zero | one => cases h
  | param q =>
    simp only [plotWith, Binding.lookup_of_missing h]
    rfl
  | poly w m =>
    have hlookup : b.lookupAll (Letter.upTo m) = .error ⟨p.text⟩ := Binding.lookupAll_of_missing h
    simp only [plotWith, hlookup]
    rfl
  | unary op e ih =>
    simp only [plotWith, ih h]
    rfl
  | binary op l r ihl ihr =>
    rcases Binding.missing?_append_eq_some_iff.1 h with hl | ⟨hl, hr⟩
    · simp only [plotWith, ihl hl]
      rfl
    · obtain ⟨t, ht⟩ : ∃ t, l.plotWith N b = .ok t := exists_plot N hl
      simp only [plotWith, ht, ihr hr]
      rfl

/-- **Whoever asks for the values of the letters reports the same one**: evaluation at a point and
over a column and plotting fail exactly if some letter of the formula has no value, and the first
such letter in reading order is the cause. -/
theorem reports_unbound (K : Kernel α) (C : ColumnKernel α) (N : Numerals α) (e : Expr α)
    (b : Binding α) :
    (∀ x, Reports b e.letters id (e.eval K x b)) ∧
      (∀ xs, Reports b e.letters .unbound (e.evalMany C xs b)) ∧
      Reports b e.letters id (e.plot N (some b)) := by
  refine ⟨fun x => ?_, fun xs => ?_, ?_⟩
  · exact reports_of_missing (fun _ hp => eval_of_missing hp) exists_eval
  · refine reports_of_missing (fun _ hp => evalMany_of_missing xs hp) fun hall => ?_
    obtain ⟨vs, hvs, -⟩ := exists_evalMany C xs hall
    exact ⟨vs, hvs⟩
  · exact reports_of_missing (fun _ hp => plotWith_of_missing hp) (exists_plot N)

/-- A product with nought over no points at all still asks for its letters. -/
example (C : ColumnKernel α) :
    (binary .mul zero (binary .add (param ⟨'b', by decide⟩) (poly .plain 3))).evalMany C []
      Binding.empty = .error (.unbound ⟨['b']⟩) := rfl

end Expr

end CurveFormula
