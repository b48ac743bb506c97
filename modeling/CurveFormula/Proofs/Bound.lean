import CurveFormula.Expr.Column
import CurveFormula.Expr.Plot
import CurveFormula.Proofs.Evaluation
import Mathlib.Data.Nat.Notation

/-!
# Formulas with a value for every letter

Asking for a letter without a value is the one way in which a formula can fail at a point. Over a
column of points two columns of different lengths could also meet; they do not, because a walk makes
only single values and columns of one length (`Block.Fits`). So a formula whose letters all have
values is evaluated over every column (`Expr.exists_evalMany`) and plotted (`Expr.exists_plot`).
-/

namespace CurveFormula

universe u

variable {α : Type u} {n : ℕ}

namespace Block

/-- A single value, or a column of a given length. -/
def Fits (n : ℕ) : Block α → Prop
  | single _ => True
  | column vs => vs.length = n

theorem fits_single (v : α) : (single v).Fits n :=
  trivial

theorem Fits.map {v : Block α} (h : v.Fits n) (f : α → α) : (v.map f).Fits n := by
  cases v with
  | single v => exact fits_single _
  | column vs =>
    show (vs.map f).length = n
    rw [List.length_map]
    exact h

/-- Blocks of one length can be combined. -/
theorem Fits.exists_combine {v w : Block α} (hv : v.Fits n) (hw : w.Fits n) (f g : α → α → α) :
    ∃ u, v.combine f g w = .ok u ∧ u.Fits n := by
  cases v with
  | single v =>
    cases w with
    | single w => exact ⟨_, rfl, fits_single _⟩
    | column ws => exact ⟨_, rfl, Fits.map (v := column ws) hw (g v)⟩
  | column vs =>
    cases w with
    | single w => exact ⟨_, rfl, Fits.map (v := column vs) hv fun v => f v w⟩
    | column ws =>
      have hlen : vs.length = ws.length := hv.trans hw.symm
      refine ⟨column (List.zipWith g vs ws), if_pos hlen, ?_⟩
      show (List.zipWith g vs ws).length = n
      rw [List.length_zipWith, ← hlen, Nat.min_self]
      exact hv

theorem Fits.length_spread {v : Block α} (h : v.Fits n) : (v.spread n).length = n := by
  cases v with
  | single v => exact List.length_replicate
  | column vs => exact h

end Block

namespace Expr

variable {b : Binding α} {e : Expr α}

section Columns

variable (C : ColumnKernel α)

theorem exists_evalBlock {x : Block α} (hx : x.Fits n) (h : ∀ p ∈ e.letters, ∃ v, b p = some v) :
    ∃ v, e.evalBlock C x b = .ok v ∧ v.Fits n := by
  induction e with
  | var => exact ⟨x, rfl, hx⟩
  | const _ | zero | one => exact ⟨_, rfl, Block.fits_single _⟩
  | param p =>
    obtain ⟨v, hv⟩ := h p (by simp [letters])
    refine ⟨.single v, ?_, Block.fits_single v⟩
    simp only [evalBlock, Binding.lookup_of_some hv]
    rfl
  | poly w m =>
    have hps : ∀ p ∈ Letter.upTo m, ∃ v, b p = some v := h
    obtain ⟨vs, hvs⟩ := Binding.exists_lookupAll hps
    refine ⟨x.map fun v => C.series w v vs, ?_, hx.map _⟩
    simp only [evalBlock, hvs]
    rfl
  | unary op e ih =>
    obtain ⟨v, hv, hfits⟩ := ih h
    refine ⟨v.map (C.unary op), ?_, hfits.map _⟩
    simp only [evalBlock, hv]
    rfl
  | binary op l r ihl ihr =>
    obtain ⟨v, hv, hfitsv⟩ := ihl fun p hp => h p (List.mem_append_left _ hp)
    obtain ⟨w, hw, hfitsw⟩ := ihr fun p hp => h p (List.mem_append_right _ hp)
    obtain ⟨u, hu, hfitsu⟩ := hfitsv.exists_combine hfitsw (C.binary op) (C.entrywise op)
    refine ⟨u, ?_, hfitsu⟩
    simp only [evalBlock, hv, hw]
    exact hu

/-- **A formula whose letters all have values has a value at every point of a column.** -/
theorem exists_evalMany (xs : List α) (h : ∀ p ∈ e.letters, ∃ v, b p = some v) :
    ∃ vs, e.evalMany C xs b = .ok vs ∧ vs.length = xs.length := by
  have hxs : (Block.column xs).Fits xs.length := rfl
  obtain ⟨v, hv, hfits⟩ := exists_evalBlock C hxs h
  refine ⟨v.spread xs.length, ?_, hfits.length_spread⟩
  simp only [evalMany, hv]
  rfl

end Columns

/-- **A formula whose letters all have values has a plot text with these values.** -/
theorem exists_plot (N : Numerals α) (h : ∀ p ∈ e.letters, ∃ v, b p = some v) :
    ∃ t, e.plot N (some b) = .ok t := by
  show ∃ t, e.plotWith N b = .ok t
  induction e with
  | var | const _ | zero | one => exact ⟨_, rfl⟩
  | param p =>
    obtain ⟨v, hv⟩ := h p (by simp [letters])
    refine ⟨N.format v, ?_⟩
    simp only [plotWith, Binding.lookup_of_some hv]
    rfl
  | poly w m =>
    have hps : ∀ p ∈ Letter.upTo m, ∃ v, b p = some v := h
    obtain ⟨vs, hvs⟩ := Binding.exists_lookupAll hps
    refine ⟨Dialect.plot.series w (vs.map N.format), ?_⟩
    simp only [plotWith, hvs]
    rfl
  | unary op e ih =>
    obtain ⟨t, ht⟩ := ih h
    refine ⟨Dialect.plot.unary op t, ?_⟩
    simp only [plotWith, ht]
    rfl
  | binary op l r ihl ihr =>
    obtain ⟨s, hs⟩ := ihl fun p hp => h p (List.mem_append_left _ hp)
    obtain ⟨t, ht⟩ := ihr fun p hp => h p (List.mem_append_right _ hp)
    refine ⟨Dialect.plot.binary op s t, ?_⟩
    simp only [plotWith, hs, ht]
    rfl

end Expr

end CurveFormula
