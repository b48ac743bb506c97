import CurveFormula.Generator.Setup
import CurveFormula.Proofs.Bound
import CurveFormula.Proofs.Drawing
import CurveFormula.Proofs.FieldRules
import CurveFormula.Proofs.Growing
import CurveFormula.Proofs.Shrinking
import Mathlib.Tactic.Linarith
import Mathlib.Tactic.Positivity

/-!
# What is known of a candidate

A candidate is a grown formula after a pass, with a drawn value for each of its letters. Growing
bounds its size and its depth, the pass keeps the bounds and brings in no letter, and the values are
drawn for the letters of the formula that is handed out. So a candidate can be evaluated everywhere.

`Candidate.Usable` says that it can, `Generator.Within` collects what else is promised, and
`Generator.candidate_within` proves it of every candidate from every source, together with the order
of the draws: first those of the formula, then one for each letter.
-/

namespace CurveFormula

universe u v

variable {α : Type u} {σ : Type v}

namespace Candidate

/-- Nothing that is asked of the formula with the values of its parameters fails. -/
structure Usable (k : Candidate α) : Prop where
  exists_eval : ∀ (K : Kernel α) (x : α), ∃ v, k.expr.eval K x k.params.binding = .ok v
  exists_evalMany : ∀ (C : ColumnKernel α) (xs : List α),
    ∃ vs, k.expr.evalMany C xs k.params.binding = .ok vs ∧ vs.length = xs.length
  exists_plot : ∀ N : Numerals α, ∃ t, k.expr.plot N (some k.params.binding) = .ok t

/-- A formula can be used with values for the names of its letters. -/
theorem usable_of_letters_subset {k : Candidate α}
    (h : k.expr.letters.map Letter.text ⊆ k.params.names) : k.Usable := by
  have hbound : ∀ p ∈ k.expr.letters, ∃ v, k.params.binding p = some v :=
    fun p hp => Params.exists_get? (h (List.mem_map_of_mem hp))
  exact ⟨fun K x => Expr.exists_eval hbound, fun C xs => Expr.exists_evalMany C xs hbound,
    fun N => Expr.exists_plot N hbound⟩

end Candidate

namespace Generator

/-- What a generator with letters for its names promises of a candidate of a budget. -/
structure Within [LE α] (g : Generator α) (ps : List Letter) (c : ℕ) (k : Candidate α) : Prop where
  grown : k.grown.Grown ps c
  /-- The values are for the distinct letters of the formula, in the order of their first
  occurrences. -/
  names_eq : k.params.names = (k.expr.letters.map Letter.text).eraseDups
  names_subset : k.params.names ⊆ g.names
  values_mem : ∀ v ∈ k.params.values, g.values.1 ≤ v ∧ v ≤ g.values.2
  depth_le : k.expr.depth ≤ c + 1
  size_le : k.expr.size ≤ 2 * c + 1
  usable : k.Usable

variable {g : Generator α} {S : Source α σ} {ps : List Letter} {c : ℕ} {s s' : σ} {ds : List ℕ}
  {e : Expr α}

/-- A candidate is a run, a pass, and a drawn value for each letter. -/
theorem Run.candidate (K : Kernel α) (h : Run S g.names g.names_ne_nil c s ds e s') :
    let simple := e.simplify K Rule.standard
    let p := g.params S (simple.letters.map Letter.text) s'
    g.candidate S K (some (c : ℤ)) s = (.ok ⟨c, e, simple, p.1⟩, p.2) ∧
      g.candidate S.recorded K (some (c : ℤ)) (s, []) =
        (.ok ⟨c, e, simple, p.1⟩, p.2, ds.map .number ++ p.1.values.map .value) := by
  obtain ⟨hgenerate, hrecord⟩ := h.generate
  constructor
  · simp only [Generator.candidate, candidateOf, hgenerate, andThen_ok]
  · simp only [Generator.candidate, candidateOf, hrecord, andThen_ok, params, Params.draw_recorded,
      List.nil_append]

section Promises

variable [LE α] (hps : g.names = ps.map Letter.text)
  (hS : ∀ s, g.values.1 ≤ (S.between g.values.1 g.values.2 s).1 ∧
    (S.between g.values.1 g.values.2 s).1 ≤ g.values.2)
include hps hS

/-- The formula of a run, after a pass and with the values drawn next, is what is promised. -/
theorem within_of_grown (K : Kernel α) (he : e.Grown ps c) (s : σ) :
    let simple := e.simplify K Rule.standard
    g.Within ps c ⟨c, e, simple, (g.params S (simple.letters.map Letter.text) s).1⟩ := by
  intro simple
  have hshrinks : e.Shrinks simple := Expr.shrinks_simplify Rule.standard e
  have hnames : (g.params S (simple.letters.map Letter.text) s).1.names =
      (simple.letters.map Letter.text).eraseDups :=
    Params.names_draw S g.values.1 g.values.2 _ s
  have hmem {name : Text} : name ∈ (simple.letters.map Letter.text).eraseDups ↔
      name ∈ simple.letters.map Letter.text := List.mem_eraseDups
  exact {
    grown := he
    names_eq := hnames
    names_subset := by
      intro name hname
      obtain ⟨p, hp, rfl⟩ := List.mem_map.1 (hmem.1 (hnames ▸ hname))
      have hgrown : p ∈ e.letters := (Expr.letters_simplify Rule.standard e).subset hp
      rw [hps]
      exact List.mem_map_of_mem (he.letters_subset hgrown)
    values_mem := Params.forall_values_draw S g.values.1 g.values.2 hS _ s
    depth_le := hshrinks.depth_le.trans he.depth_le
    size_le := hshrinks.size_le.trans he.size_le
    usable := Candidate.usable_of_letters_subset fun name hname => by
      show name ∈ (g.params S (simple.letters.map Letter.text) s).1.names
      rw [hnames]
      exact hmem.2 hname }

/-- **Every candidate is within its budget and has a value for each of its letters.** The draws of
the formula come first, two for an operator, one for the variable and two for a parameter; then
there is one for each distinct letter. -/
theorem candidate_within (K : Kernel α) (c : ℕ) (s : σ) :
    ∃ (k : Candidate α) (s' : σ) (ds : List ℕ),
      g.candidate S K (some (c : ℤ)) s = (.ok k, s') ∧
        g.candidate S.recorded K (some (c : ℤ)) (s, []) =
          (.ok k, s', ds.map .number ++ k.params.values.map .value) ∧
        ds.length = k.grown.draws ∧ k.expr = k.grown.simplify K Rule.standard ∧
        g.Within ps c k := by
  obtain ⟨ds, e, s', hrun, he, hlen⟩ := exists_run hps g.names_ne_nil S c s
  obtain ⟨hcandidate, hrecord⟩ := hrun.candidate K
  exact ⟨_, _, ds, hcandidate, hrecord, hlen, rfl, within_of_grown hps hS K he s'⟩

end Promises

/-- The rational number a part of the way between two others. -/
def alongRationals (low high : Option ℚ) (n d : ℕ) : Option ℚ := do
  let a ← low
  let b ← high
  return a + (b - a) * (n / d)

theorem alongRationals_mem {n d : ℕ} (h : n < d) :
    some 0 ≤ alongRationals (some 0) (some 5) n d ∧
      alongRationals (some 0) (some 5) n d ≤ some 5 := by
  have hd : (0 : ℚ) < d := by exact_mod_cast Nat.zero_lt_of_lt h
  have hle : (n / d : ℚ) ≤ 1 := (div_le_one hd).2 (by exact_mod_cast h.le)
  have hpos : (0 : ℚ) ≤ n / d := by positivity
  show some 0 ≤ some (0 + (5 - 0) * (n / d : ℚ)) ∧ some (0 + (5 - 0) * (n / d : ℚ)) ≤ some 5
  simp only [Option.some_le_some]
  constructor <;> linarith

theorem candidate_within_rationals :
    ∃ (k : Candidate (Option ℚ)) (s' : Stream) (ds : List ℕ),
      (standard (some 0) (some 5)).candidate (Stream.source alongRationals)
          PartialField.rationals.kernel (some 30) (.script (.ofList [3, 4, 1])) = (.ok k, s') ∧
        (standard (some 0) (some 5)).candidate (Stream.source alongRationals).recorded
            PartialField.rationals.kernel (some 30) (.script (.ofList [3, 4, 1]), []) =
          (.ok k, s', ds.map .number ++ k.params.values.map .value) ∧
        ds.length = k.grown.draws ∧
        k.expr = k.grown.simplify PartialField.rationals.kernel Rule.standard ∧
        (standard (some 0) (some 5)).Within Letter.all 30 k := by
  refine candidate_within (g := standard (some 0) (some 5)) rfl (fun s => ?_)
    PartialField.rationals.kernel 30 (Stream.script (.ofList [3, 4, 1]))
  obtain ⟨n, d, hlt, hdrawn⟩ := Stream.exists_between_eq alongRationals (some 0) (some 5) s
  show some 0 ≤ ((Stream.source alongRationals).between (some 0) (some 5) s).1 ∧
    ((Stream.source alongRationals).between (some 0) (some 5) s).1 ≤ some 5
  rw [hdrawn]
  exact alongRationals_mem hlt

end Generator

end CurveFormula
