import CurveFormula.Binary64.Kernel
import CurveFormula.Expr.Traversal
import CurveFormula.Proofs.Bound
import CurveFormula.Proofs.FieldRules

/-!
# Evaluation over a column is evaluation at every point

A walk over a column of points makes single values and columns. At an index such a block has an
entry, a single value the same one everywhere (`Block.row?`). Every step of the walk does with the
entries what evaluation does at the point of that index, if an operator treats the entries of a
column like single values (`Expr.row?_evalBlock`).

Binary64 numbers make a difference for powers alone, so formulas without powers have the same values
over a column and at its points (`Expr.evalMany_binary64`).
-/

namespace CurveFormula

universe u

variable {α : Type u}

namespace Block

variable {i n : ℕ}

/-- The entry of a block at an index. A single value stands at every index. -/
def row? (i : ℕ) : Block α → Option α
  | single v => some v
  | column vs => vs[i]?

@[simp] theorem row?_single (v : α) : (single v).row? i = some v := rfl

@[simp] theorem row?_column (vs : List α) : (column vs).row? i = vs[i]? := rfl

theorem row?_map (f : α → α) (v : Block α) : (v.map f).row? i = (v.row? i).map f := by
  cases v with
  | single v => rfl
  | column vs => simp [map]

/-- An operator between two blocks is applied to their entries. -/
theorem row?_combine {f : α → α → α} {v w u : Block α} {a c : α} (hu : v.combine f f w = .ok u)
    (hv : v.row? i = some a) (hw : w.row? i = some c) : u.row? i = some (f a c) := by
  cases v with
  | single v =>
    cases hv
    cases w with
    | single w =>
      cases hw
      cases hu
      rfl
    | column ws =>
      cases hu
      rw [row?_column] at hw
      simp [hw]
  | column vs =>
    rw [row?_column] at hv
    cases w with
    | single w =>
      cases hw
      cases hu
      simp [hv]
    | column ws =>
      rw [row?_column] at hw
      simp only [combine] at hu
      split at hu
      · cases hu
        simp [List.getElem?_zipWith, hv, hw]
      · cases hu

/-- Spreading a block keeps its entries. -/
theorem getElem?_spread {v : Block α} (h : i < n) : (v.spread n)[i]? = v.row? i := by
  cases v with
  | single v => simp [spread, h]
  | column vs => rfl

end Block

namespace Expr

theorem eq_ok_of_orFault {β : Type u} {r : Except Unbound β} {v : β}
    (h : orFault r = .ok v) : r = .ok v := by
  cases r with
  | error f => cases h
  | ok w => cases h; rfl

/-- The operators of a formula treat the entries of a column like single values. -/
def Pointwise (C : ColumnKernel α) (e : Expr α) : Prop :=
  ∀ op l r, binary op l r ∈ e.preorder → C.entrywise op = C.binary op

variable {C : ColumnKernel α} {b : Binding α} {e : Expr α}

theorem Pointwise.mono {f : Expr α} (h : f.Pointwise C) (hef : e.preorder ⊆ f.preorder) :
    e.Pointwise C :=
  fun op l r hm => h op l r (hef hm)

theorem Pointwise.operand {op : UnaryOp} (h : (unary op e).Pointwise C) : e.Pointwise C :=
  h.mono (List.subset_cons_self _ _)

theorem Pointwise.left {op : BinaryOp} {l r : Expr α} (h : (binary op l r).Pointwise C) :
    l.Pointwise C :=
  h.mono fun _ hm => List.mem_cons_of_mem _ (List.mem_append_left _ hm)

theorem Pointwise.right {op : BinaryOp} {l r : Expr α} (h : (binary op l r).Pointwise C) :
    r.Pointwise C :=
  h.mono fun _ hm => List.mem_cons_of_mem _ (List.mem_append_right _ hm)

/-- **At every index, a walk over blocks evaluates at the entries**, if its operators treat the
entries of a column like single values. -/
theorem row?_evalBlock (hC : e.Pointwise C) {x v : Block α} {i : ℕ} {a : α}
    (ha : x.row? i = some a) (h : e.evalBlock C x b = .ok v) :
    ∃ c, v.row? i = some c ∧ e.eval C.toKernel a b = .ok c := by
  induction e generalizing v with
  | var =>
    cases h
    exact ⟨a, ha, rfl⟩
  | const _ | zero | one =>
    cases h
    exact ⟨_, rfl, rfl⟩
  | param p =>
    obtain ⟨c, hc, hv⟩ := exists_of_bind_eq_ok h
    cases hv
    exact ⟨c, rfl, eq_ok_of_orFault hc⟩
  | poly w n =>
    obtain ⟨cs, hcs, hv⟩ := exists_of_bind_eq_ok h
    cases hv
    refine ⟨C.series w a cs, by rw [Block.row?_map, ha]; rfl, ?_⟩
    simp only [eval, eq_ok_of_orFault hcs]
    rfl
  | unary op e ih =>
    obtain ⟨u, hu, hv⟩ := exists_of_bind_eq_ok h
    cases hv
    obtain ⟨c, hc, heval⟩ := ih hC.operand hu
    exact ⟨C.unary op c, by rw [Block.row?_map, hc]; rfl, eval_unary_of_ok _ heval⟩
  | binary op l r ihl ihr =>
    obtain ⟨u, hu, h⟩ := exists_of_bind_eq_ok h
    obtain ⟨w, hw, h⟩ := exists_of_bind_eq_ok h
    obtain ⟨c, hc, hl⟩ := ihl hC.left hu
    obtain ⟨d, hd, hr⟩ := ihr hC.right hw
    have hop : C.entrywise op = C.binary op := hC op l r List.mem_cons_self
    -- now all four ways in which blocks meet apply one operator
    rw [hop] at h
    exact ⟨C.binary op c d, Block.row?_combine h hc hd, eval_binary_of_ok _ hl hr⟩

/-- The letters of a part are letters of the formula. -/
theorem letters_subset_of_mem_preorder {part : Expr α} (h : part ∈ e.preorder) :
    part.letters ⊆ e.letters := by
  induction e with
  | var | const _ | zero | one | param _ | poly _ _ =>
    rw [List.mem_singleton.1 h]
    exact List.Subset.refl _
  | unary op e ih =>
    rcases List.mem_cons.1 h with rfl | h
    · exact List.Subset.refl _
    · exact ih h
  | binary op l r ihl ihr =>
    rcases List.mem_cons.1 h with rfl | h
    · exact List.Subset.refl _
    · rcases List.mem_append.1 h with h | h
      · exact fun p hp => List.mem_append_left _ (ihl h hp)
      · exact fun p hp => List.mem_append_right _ (ihr h hp)

/-- The values over a column are those at its points. -/
theorem exists_evalMany_eval (hC : e.Pointwise C) (xs : List α)
    (hb : ∀ p ∈ e.letters, ∃ v, b p = some v) :
    ∃ vs, e.evalMany C xs b = .ok vs ∧ vs.length = xs.length ∧
      ∀ (i : ℕ) (x : α), xs[i]? = some x →
        ∃ v, vs[i]? = some v ∧ e.eval C.toKernel x b = .ok v := by
  obtain ⟨vs, hvs, hlen⟩ := exists_evalMany C xs hb
  refine ⟨vs, hvs, hlen, fun i x hx => ?_⟩
  obtain ⟨hi, -⟩ := List.getElem?_eq_some_iff.1 hx
  obtain ⟨v, hv, hspread⟩ := exists_of_bind_eq_ok hvs
  cases hspread
  obtain ⟨c, hc, heval⟩ := row?_evalBlock hC (x := .column xs) hx hv
  exact ⟨c, by rw [Block.getElem?_spread hi, hc], heval⟩

/-- **Over a column, a formula has its values at the points of the column**, if operators treat the
entries of a column like single values. Nowhere in the formula two columns of different lengths
meet. -/
theorem evalMany_eq_eval (C : ColumnKernel α) (hC : C.entrywise = C.binary) (e : Expr α)
    (xs : List α) (b : Binding α) (hb : ∀ p ∈ e.letters, ∃ v, b p = some v) :
    (∀ op l r, binary op l r ∈ e.preorder →
        ∃ v w, l.evalBlock C (.column xs) b = .ok v ∧ v.Fits xs.length ∧
          r.evalBlock C (.column xs) b = .ok w ∧ w.Fits xs.length) ∧
      ∃ vs, e.evalMany C xs b = .ok vs ∧ vs.length = xs.length ∧
        ∀ (i : ℕ) (x : α), xs[i]? = some x →
          ∃ v, vs[i]? = some v ∧ e.eval C.toKernel x b = .ok v := by
  refine ⟨fun op l r hm => ?_, ?_⟩
  · have hxs : (Block.column xs).Fits xs.length := rfl
    have hpart := letters_subset_of_mem_preorder hm
    obtain ⟨v, hv, hfitsv⟩ := exists_evalBlock C hxs fun p hp =>
      hb p (hpart (List.mem_append_left _ hp))
    obtain ⟨w, hw, hfitsw⟩ := exists_evalBlock C hxs fun p hp =>
      hb p (hpart (List.mem_append_right _ hp))
    exact ⟨v, w, hv, hfitsv, hw, hfitsw⟩
  · exact exists_evalMany_eval (fun op _ _ _ => congrFun hC op) xs hb

/-- A quotient of a product without the variable, less a straight line. -/
def columnSample : Expr (Option ℚ) :=
  binary .sub
    (binary .div (binary .mul (param ⟨'c', by decide⟩) (const (some 5))) var) (poly .plain 1)

theorem evalMany_eq_eval_rationals :
    columnSample.evalMany PartialField.rationals.kernel.pointwise [some 1, some 0, some 4]
        (fun _ => some (some 3)) = .ok [some 9, none, some (-45 / 4)] ∧
      columnSample.eval PartialField.rationals.kernel (some 4) (fun _ => some (some 3)) =
        .ok (some (-45 / 4)) := by
  have hvalue : columnSample.evalMany PartialField.rationals.kernel.pointwise
      [some 1, some 0, some 4] (fun _ => some (some 3)) = .ok [some 9, none, some (-45 / 4)] := by
    decide +kernel
  obtain ⟨-, vs, hvs, -, hat⟩ := evalMany_eq_eval PartialField.rationals.kernel.pointwise rfl
    columnSample [some 1, some 0, some 4] (fun _ => some (some 3)) fun _ _ => ⟨_, rfl⟩
  cases hvs.symm.trans hvalue
  obtain ⟨v, hv, heval⟩ := hat 2 (some 4) rfl
  cases hv
  exact ⟨hvalue, heval⟩

/-- **Formulas of binary64 numbers without powers have the same values over a column and at its
points.** -/
theorem evalMany_binary64 {e : Expr Float} (he : ∀ l r, binary .pow l r ∉ e.preorder)
    (xs : List Float) {b : Binding Float} (hb : ∀ p ∈ e.letters, ∃ v, b p = some v) :
    ∃ vs, e.evalMany Binary64.columnKernel xs b = .ok vs ∧ vs.length = xs.length ∧
      ∀ (i : ℕ) (x : Float), xs[i]? = some x →
        ∃ v, vs[i]? = some v ∧ e.eval Binary64.kernel x b = .ok v := by
  refine exists_evalMany_eval (C := Binary64.columnKernel) (fun op l r hm => ?_) xs hb
  cases op with
  | pow => exact absurd hm (he l r)
  | add | sub | mul | div => rfl

end Expr

end CurveFormula
