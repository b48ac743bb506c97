import CurveFormula.Params
import CurveFormula.Proofs.Missing

/-!
# Bindings that a formula does not tell apart

A formula looks up its letters and nothing else. Two bindings that agree on the letters of a formula,
by the same values or by none, give it the same values, the same faults and the same plot text
(`Expr.indifferent_of_agreeOn`). Values given to other names, and the order in which all of them are
given, do not matter either (`Params.agreeOn_of_perm`).

No shorter list of letters would do: where a letter of the formula is left out, a binding that
forgets this letter gives a fault (`Expr.letters_subset_iff`).
-/

namespace CurveFormula

universe u

variable {α : Type u}

namespace Binding

/-- Two bindings have the same values for some letters, and none for the same ones of them. -/
def AgreeOn (ps : List Letter) (b c : Binding α) : Prop :=
  ∀ p ∈ ps, b p = c p

variable {b c : Binding α} {ps qs : List Letter}

theorem AgreeOn.mono (h : AgreeOn qs b c) (hsub : ps ⊆ qs) : AgreeOn ps b c :=
  fun p hp => h p (hsub hp)

theorem agreeOn_append : AgreeOn (ps ++ qs) b c ↔ AgreeOn ps b c ∧ AgreeOn qs b c :=
  List.forall_mem_append

end Binding

open CurveFormula.Binding (AgreeOn)

namespace Params

variable {p q : Params α} {name : Text} {v : α}

/-- The entries of some names, in their order. -/
def entriesOf (p : Params α) (names : List Text) : List (Text × α) :=
  p.entries.filter fun e => e.1 ∈ names

theorem mem_entriesOf {names : List Text} (h : name ∈ names) :
    (name, v) ∈ p.entriesOf names ↔ p.get? name = some v := by
  simp [entriesOf, h, get?_eq_some_iff]

/-- **Only the entries of the letters count, and they count in any order.** -/
theorem agreeOn_of_perm {ps : List Letter}
    (h : (p.entriesOf (ps.map Letter.text)).Perm (q.entriesOf (ps.map Letter.text))) :
    AgreeOn ps p.binding q.binding := by
  intro r hr
  have hname : r.text ∈ ps.map Letter.text := List.mem_map_of_mem hr
  apply Option.ext
  intro v
  rw [binding_apply, binding_apply, ← mem_entriesOf hname, ← mem_entriesOf hname]
  exact h.mem_iff

end Params

namespace Expr

/-- Nothing that is asked of the formula tells the bindings apart. -/
structure Indifferent (e : Expr α) (b c : Binding α) : Prop where
  eval_eq : ∀ (K : Kernel α) (x : α), e.eval K x b = e.eval K x c
  evalMany_eq : ∀ (C : ColumnKernel α) (xs : List α), e.evalMany C xs b = e.evalMany C xs c
  plot_eq : ∀ N : Numerals α, e.plot N (some b) = e.plot N (some c)

variable {e : Expr α} {b c : Binding α}

theorem evalBlock_congr {C : ColumnKernel α} {x : Block α} (h : AgreeOn e.letters b c) :
    e.evalBlock C x b = e.evalBlock C x c := by
  induction e with
  | var | const _ | zero | one => rfl
  | param p =>
    have hp : b.lookup p = c.lookup p := Binding.lookup_congr (h p (List.mem_singleton_self p))
    unfold evalBlock
    rw [hp]
  | poly w n =>
    have hps : b.lookupAll (Letter.upTo n) = c.lookupAll (Letter.upTo n) :=
      Binding.lookupAll_congr h
    unfold evalBlock
    rw [hps]
  | unary op e ih =>
    unfold evalBlock
    rw [ih h]
  | binary op l r ihl ihr =>
    obtain ⟨hl, hr⟩ := Binding.agreeOn_append.1 h
    unfold evalBlock
    rw [ihl hl, ihr hr]

theorem plotWith_congr {N : Numerals α} (h : AgreeOn e.letters b c) :
    e.plotWith N b = e.plotWith N c := by
  induction e with
  | var | const _ | zero | one => rfl
  | param p =>
    have hp : b.lookup p = c.lookup p := Binding.lookup_congr (h p (List.mem_singleton_self p))
    unfold plotWith
    rw [hp]
  | poly w n =>
    have hps : b.lookupAll (Letter.upTo n) = c.lookupAll (Letter.upTo n) :=
      Binding.lookupAll_congr h
    unfold plotWith
    rw [hps]
  | unary op e ih =>
    unfold plotWith
    rw [ih h]
  | binary op l r ihl ihr =>
    obtain ⟨hl, hr⟩ := Binding.agreeOn_append.1 h
    unfold plotWith
    rw [ihl hl, ihr hr]

/-- A formula does not tell apart bindings that agree on its letters. -/
theorem indifferent_of_agreeOn (h : AgreeOn e.letters b c) : e.Indifferent b c where
  eval_eq _ _ := eval_congr h
  evalMany_eq C xs := by
    unfold evalMany
    rw [evalBlock_congr h]
  plot_eq _ := plotWith_congr h

/-- The binding that gives a value to every letter but one. -/
def allBut (p : Letter) (v : α) : Binding α :=
  fun q => if q = p then none else some v

/-- **The letters of a formula are the shortest list that it looks at.** -/
theorem letters_subset_iff [Nonempty α] {ps : List Letter} :
    e.letters ⊆ ps ↔ ∀ b c : Binding α, AgreeOn ps b c → e.Indifferent b c := by
  constructor
  · intro hsub b c h
    exact indifferent_of_agreeOn (h.mono hsub)
  · intro h p hp
    by_cases hps : p ∈ ps
    · exact hps
    · -- a binding without this one letter is told apart from one that has all letters
      obtain ⟨v⟩ := ‹Nonempty α›
      have hagree : AgreeOn ps (allBut p v) fun _ => some v := by
        intro q hq
        have hne : q ≠ p := fun heq => hps (heq ▸ hq)
        exact if_neg hne
      let N : Numerals α := ⟨fun _ => none, fun _ => [], fun _ => false, fun _ => false⟩
      have hreports : Reports (allBut p v) e.letters id (e.plot N (some (allBut p v))) :=
        reports_of_missing (fun _ hq => plotWith_of_missing hq) (exists_plot N)
      obtain ⟨fault, hfault⟩ := hreports.error_iff.2 ⟨p, hp, if_pos rfl⟩
      obtain ⟨t, ht⟩ : ∃ t, e.plot N (some fun _ => some v) = .ok t :=
        exists_plot N fun _ _ => ⟨v, rfl⟩
      rw [(h _ _ hagree).plot_eq N, ht] at hfault
      cases hfault

/-- **What a formula does not look up does not matter to it.** Bindings that agree on the letters of
a formula, by the same values or by none, give the same value or fault at every point, the same
values or fault over every column, and the same plot text or fault. So do named values with the same
entries for these letters, whatever other entries they have and in whatever order all of them
stand. -/
theorem indifferent_to_rest (e : Expr α) :
    (∀ b c : Binding α, AgreeOn e.letters b c → e.Indifferent b c) ∧
      ∀ p q : Params α,
        (p.entriesOf (e.letters.map Letter.text)).Perm (q.entriesOf (e.letters.map Letter.text)) →
          e.Indifferent p.binding q.binding :=
  ⟨fun _ _ h => indifferent_of_agreeOn h, fun _ _ h =>
    indifferent_of_agreeOn (Params.agreeOn_of_perm h)⟩

/-- The sum of `a` and `b * x`, divided by `b`. -/
def slopeSample : Expr ℕ :=
  binary .div (poly .plain ⟨1, by decide⟩) (param ⟨'b', by decide⟩)

/-- Values of two letters, and the same values among others; and two bindings without `b`. -/
theorem indifferent_to_rest_slope :
    let p : Params ℕ := .ofPairs [(['a'], 3), (['b'], 2)]
    let q : Params ℕ := .ofPairs [(['b'], 2), (['x'], 7), (['h'], 0), (['a'], 3)]
    AgreeOn slopeSample.letters p.binding q.binding ∧
      (p.entriesOf (slopeSample.letters.map Letter.text)).Perm
        (q.entriesOf (slopeSample.letters.map Letter.text)) ∧
      p.binding ≠ q.binding ∧ slopeSample.Indifferent p.binding q.binding ∧
      slopeSample.Indifferent (allBut ⟨'b', by decide⟩ 3)
        (fun r => if r.char = 'a' then some 3 else none) := by
  intro p q
  have hperm : (p.entriesOf (slopeSample.letters.map Letter.text)).Perm
      (q.entriesOf (slopeSample.letters.map Letter.text)) := by
    decide
  have hne : p.binding ≠ q.binding := by
    intro h
    have hh : p.binding ⟨'h', by decide⟩ = q.binding ⟨'h', by decide⟩ := congrFun h _
    cases hh
  have hunbound : AgreeOn slopeSample.letters (allBut ⟨'b', by decide⟩ 3)
      (fun r => if r.char = 'a' then some 3 else none) := by
    unfold AgreeOn
    decide
  refine ⟨Params.agreeOn_of_perm hperm, hperm, hne, ?_, ?_⟩
  · exact (indifferent_to_rest slopeSample).2 p q hperm
  · exact (indifferent_to_rest slopeSample).1 _ _ hunbound

end Expr

end CurveFormula
