import CurveFormula.Expr.Traversal
import CurveFormula.Generator.Setup
import CurveFormula.Proofs.Recording
import Mathlib.Data.Nat.Init

/-!
# What a budget grows

`Expr.Grown` describes the formulas of a budget: no leaves but the variable and listed parameters,
and as many operators as the budget has. Such a formula is not deep and not large (`Grown.depth_le`,
`Grown.size_le`).

A `Generator.Run` is a growth together with the list of its draws. Every growth from a source is a
run to a formula of its budget (`exists_run`), and every formula of a budget is the end of a run
whose draws can be written down beforehand (`exists_draws`). In both directions the draws are
counted by `Expr.draws`, which says how many each node takes.
-/

namespace CurveFormula

universe u v

variable {α : Type u} {σ : Type v}

namespace Expr

/-- How many nodes of a kind the formula has. -/
def count (k : Kind) (e : Expr α) : ℕ :=
  e.preorder.countP fun m => m.kind = k

/-- How many operators the formula has. -/
def operators (e : Expr α) : ℕ :=
  e.count .unary + e.count .binary

/-- How many draws make the formula: two for an operator, one for the variable and two for a
parameter. -/
def draws (e : Expr α) : ℕ :=
  2 * e.operators + e.count .var + 2 * e.count .param

/-- A formula of the variable, listed parameters and so many operators. -/
structure Grown (ps : List Letter) (n : ℕ) (e : Expr α) : Prop where
  kind_mem : ∀ m ∈ e.preorder, m.kind ∈ [Kind.var, .param, .unary, .binary]
  letters_subset : e.letters ⊆ ps
  operators_eq : e.operators = n

theorem count_unary (k : Kind) (op : UnaryOp) (e : Expr α) :
    (unary op e).count k = e.count k + if k = .unary then 1 else 0 := by
  simp [count, preorder, kind, List.countP_cons, eq_comm]

theorem count_binary (k : Kind) (op : BinaryOp) (l r : Expr α) :
    (binary op l r).count k = l.count k + r.count k + if k = .binary then 1 else 0 := by
  simp [count, preorder, kind, List.countP_cons, eq_comm]

@[simp] theorem operators_unary (op : UnaryOp) (e : Expr α) :
    (unary op e).operators = e.operators + 1 := by
  simp only [operators, count_unary, reduceCtorEq, if_true, if_false]
  omega

@[simp] theorem operators_binary (op : BinaryOp) (l r : Expr α) :
    (binary op l r).operators = l.operators + r.operators + 1 := by
  simp only [operators, count_binary, reduceCtorEq, if_true, if_false]
  omega

@[simp] theorem draws_var : (var : Expr α).draws = 1 := rfl

@[simp] theorem draws_param (p : Letter) : (param p : Expr α).draws = 2 := rfl

@[simp] theorem draws_unary (op : UnaryOp) (e : Expr α) : (unary op e).draws = e.draws + 2 := by
  simp only [draws, operators_unary, count_unary, reduceCtorEq, if_false]
  omega

@[simp] theorem draws_binary (op : BinaryOp) (l r : Expr α) :
    (binary op l r).draws = l.draws + r.draws + 2 := by
  simp only [draws, operators_binary, count_binary, reduceCtorEq, if_false]
  omega

section Grown

variable {ps : List Letter} {n : ℕ}

theorem grown_var_iff : (var : Expr α).Grown ps n ↔ n = 0 := by
  refine ⟨fun h => h.operators_eq.symm, ?_⟩
  rintro rfl
  exact ⟨by simp [preorder, kind], by simp [letters], rfl⟩

theorem grown_param_iff {p : Letter} : (param p : Expr α).Grown ps n ↔ p ∈ ps ∧ n = 0 := by
  refine ⟨fun h => ⟨h.letters_subset (List.mem_singleton_self p), h.operators_eq.symm⟩, ?_⟩
  rintro ⟨hp, rfl⟩
  exact ⟨by simp [preorder, kind], by simpa [letters] using hp, rfl⟩

theorem grown_unary_iff {op : UnaryOp} {e : Expr α} :
    (unary op e).Grown ps n ↔ ∃ m, e.Grown ps m ∧ n = m + 1 := by
  constructor
  · rintro ⟨hkind, hletters, rfl⟩
    refine ⟨e.operators, ⟨?_, hletters, rfl⟩, operators_unary op e⟩
    exact fun m hm => hkind m (List.mem_cons_of_mem _ hm)
  · rintro ⟨m, ⟨hkind, hletters, rfl⟩, rfl⟩
    refine ⟨?_, hletters, operators_unary op e⟩
    simpa [preorder, kind] using hkind

theorem grown_binary_iff {op : BinaryOp} {l r : Expr α} :
    (binary op l r).Grown ps n ↔
      ∃ i j, l.Grown ps i ∧ r.Grown ps j ∧ n = i + j + 1 := by
  constructor
  · rintro ⟨hkind, hletters, rfl⟩
    refine ⟨l.operators, r.operators, ⟨?_, ?_, rfl⟩, ⟨?_, ?_, rfl⟩, operators_binary op l r⟩
    · exact fun m hm => hkind m (List.mem_cons_of_mem _ (List.mem_append_left _ hm))
    · exact fun p hp => hletters (List.mem_append_left _ hp)
    · exact fun m hm => hkind m (List.mem_cons_of_mem _ (List.mem_append_right _ hm))
    · exact fun p hp => hletters (List.mem_append_right _ hp)
  · rintro ⟨i, j, ⟨hkl, hll, rfl⟩, ⟨hkr, hlr, rfl⟩, rfl⟩
    refine ⟨fun m hm => ?_, List.append_subset.2 ⟨hll, hlr⟩, operators_binary op l r⟩
    rcases List.mem_cons.1 hm with rfl | hm
    · simp [kind]
    · exact (List.mem_append.1 hm).elim (hkl m) (hkr m)

/-- Induction over the formulas of a budget. The budget of an operator is shared by its operands. -/
theorem Grown.induction {motive : ℕ → Expr α → Prop}
    (var : motive 0 var)
    (param : ∀ p ∈ ps, motive 0 (param p))
    (unary : ∀ op n e, e.Grown ps n → motive n e → motive (n + 1) (unary op e))
    (binary : ∀ op i j l r, l.Grown ps i → r.Grown ps j → motive i l → motive j r →
      motive (i + j + 1) (binary op l r))
    {e : Expr α} (h : e.Grown ps n) : motive n e := by
  induction e generalizing n with
  | var =>
    obtain rfl := grown_var_iff.1 h
    exact var
  | param p =>
    obtain ⟨hp, rfl⟩ := grown_param_iff.1 h
    exact param p hp
  | unary op e ih =>
    obtain ⟨m, he, rfl⟩ := grown_unary_iff.1 h
    exact unary op m e he (ih he)
  | binary op l r ihl ihr =>
    obtain ⟨i, j, hl, hr, rfl⟩ := grown_binary_iff.1 h
    exact binary op i j l r hl hr (ihl hl) (ihr hr)
  | const _ | zero | one =>
    have := h.kind_mem _ (List.mem_singleton_self _)
    simp [kind] at this
  | poly w _ =>
    have := h.kind_mem _ (List.mem_singleton_self _)
    cases w <;> simp [kind] at this

/-- **A formula is at most one deeper than its budget.** -/
theorem Grown.depth_le {e : Expr α} (h : e.Grown ps n) : e.depth ≤ n + 1 := by
  refine h.induction (motive := fun n e => e.depth ≤ n + 1) ?_ ?_ ?_ ?_
  · exact Nat.le_refl _
  · exact fun _ _ => Nat.le_refl _
  · intro op n e _ ih
    rw [depth_unary]
    omega
  · intro op i j l r _ _ ihl ihr
    rw [depth_binary]
    omega

/-- **A formula has at most two nodes for each unit of its budget, and one more.** -/
theorem Grown.size_le {e : Expr α} (h : e.Grown ps n) : e.size ≤ 2 * n + 1 := by
  refine h.induction (motive := fun n e => e.size ≤ 2 * n + 1) ?_ ?_ ?_ ?_
  · exact Nat.le_refl _
  · exact fun _ _ => Nat.le_refl _
  · intro op n e _ ih
    rw [size_unary]
    omega
  · intro op i j l r _ _ ihl ihr
    rw [size_binary]
    omega

end Grown

end Expr

namespace Generator

/-! ### Runs -/

/-- Growing from a budget gives the formula and makes exactly the listed draws. -/
structure Run (S : Source α σ) (names : List Text) (h : names ≠ []) (n : ℕ) (s : σ) (ds : List ℕ)
    (e : Expr α) (s' : σ) : Prop where
  grow_eq : grow S names h n s = (.ok e, s')
  record : ∀ log, grow S.recorded names h n (s, log) = (.ok e, s', log ++ ds.map .number)

namespace Run

variable {S : Source α σ} {names : List Text} {h : names ≠ []} {n : ℕ} {s s₁ s₂ s₃ s₄ : σ}

theorem var (hcoin : S.below 2 (by decide) s = (0, s₁)) :
    Run S names h 0 s [0] .var s₁ := by
  constructor
  · simp [grow, hcoin]
  · simp [grow, hcoin]

theorem param {p : Letter} {i : Fin names.length} (hcoin : S.below 2 (by decide) s = (1, s₁))
    (hname : S.below names.length (List.length_pos_iff.2 h) s₁ = (i, s₂))
    (hp : names.get i = p.text) : Run S names h 0 s [1, i] (.param p) s₂ := by
  have hbuild : (Expr.ofName (names.get i) : Except BuildError (Expr α)) = .ok (.param p) := by
    rw [hp]
    simp [Expr.ofName]
  constructor
  · simp only [grow, hcoin, Source.choice, hname, hbuild]
    rfl
  · intro log
    simp only [grow, Source.below_recorded, hcoin, Source.choice, hname, hbuild]
    simp

theorem unary {f : UnaryOp} {i : Fin (n + 1)} {k : Fin Operator.all.length} {ds : List ℕ}
    {e : Expr α} (hsplit : S.below (n + 1) n.succ_pos s = (i, s₁))
    (hop : S.below Operator.all.length (by decide) s₁ = (k, s₂))
    (hk : Operator.all.get k = .unary f) (he : Run S names h n s₂ ds e s₃) :
    Run S names h (n + 1) s (i :: k :: ds) (.unary f e) s₃ := by
  constructor
  · rw [grow]
    simp only [hsplit, Source.choice, hop, hk, he.grow_eq, andThen_ok]
  · intro log
    rw [grow]
    simp only [Source.below_recorded, hsplit, Source.choice, hop, hk, he.record, andThen_ok]
    simp

theorem binary {f : BinaryOp} {i : Fin (n + 1)} {k : Fin Operator.all.length} {dl dr : List ℕ}
    {l r : Expr α} (hsplit : S.below (n + 1) n.succ_pos s = (i, s₁))
    (hop : S.below Operator.all.length (by decide) s₁ = (k, s₂))
    (hk : Operator.all.get k = .binary f) (hl : Run S names h i s₂ dl l s₃)
    (hr : Run S names h (n - i) s₃ dr r s₄) :
    Run S names h (n + 1) s (i :: k :: (dl ++ dr)) (.binary f l r) s₄ := by
  constructor
  · rw [grow]
    simp only [hsplit, Source.choice, hop, hk, hl.grow_eq, hr.grow_eq, andThen_ok]
  · intro log
    rw [grow]
    simp only [Source.below_recorded, hsplit, Source.choice, hop, hk, hl.record, hr.record,
      andThen_ok]
    simp

end Run

open CurveFormula.Expr

section Letters

variable {names : List Text} {ps : List Letter} (hps : names = ps.map Letter.text) (h : names ≠ [])
include hps

/-- **Every run gives a formula of its budget.** -/
theorem exists_run (S : Source α σ) (n : ℕ) (s : σ) :
    ∃ ds e s', Run S names h n s ds e s' ∧ e.Grown ps n ∧ ds.length = e.draws := by
  subst hps
  induction n using Nat.strong_induction_on generalizing s with
  | _ n ih =>
    cases n with
    | zero =>
      rcases hcoin : S.below 2 (by decide) s with ⟨c, s₁⟩
      match c with
      | 0 => exact ⟨_, _, _, .var hcoin, grown_var_iff.2 rfl, rfl⟩
      | 1 =>
        rcases hname : S.below (ps.map Letter.text).length (List.length_pos_iff.2 h) s₁ with ⟨i, s₂⟩
        have hi : i.val < ps.length := by simpa using i.isLt
        refine ⟨_, .param ps[i.val], _, .param hcoin hname (by simp), ?_, rfl⟩
        exact grown_param_iff.2 ⟨List.getElem_mem hi, rfl⟩
    | succ n =>
      rcases hsplit : S.below (n + 1) n.succ_pos s with ⟨i, s₁⟩
      rcases hop : S.below Operator.all.length (by decide) s₁ with ⟨k, s₂⟩
      cases hk : Operator.all.get k with
      | unary f =>
        obtain ⟨ds, e, s', hrun, he, hlen⟩ := ih n n.lt_succ_self s₂
        refine ⟨_, _, _, .unary hsplit hop hk hrun, grown_unary_iff.2 ⟨n, he, rfl⟩, ?_⟩
        simp [hlen]
      | binary f =>
        have hi := i.isLt
        obtain ⟨dl, l, s₃, hl, hgl, hlenl⟩ := ih i hi s₂
        obtain ⟨dr, r, s₄, hr, hgr, hlenr⟩ := ih (n - i) (by omega) s₃
        refine ⟨_, _, _, .binary hsplit hop hk hl hr, ?_, ?_⟩
        · exact grown_binary_iff.2 ⟨i, n - i, hgl, hgr, by omega⟩
        · simp [hlenl, hlenr]

/-- **Every formula of a budget is given by some draws**, whatever draws may follow them. -/
theorem exists_draws {e : Expr α} {n : ℕ} (he : e.Grown ps n) :
    ∃ ds : List ℕ, ds.length = e.draws ∧ ∀ along all rest,
      Run (Script.source along) names h n ⟨all, ds.map Int.ofNat ++ rest⟩ ds e ⟨all, rest⟩ := by
  subst hps
  refine he.induction (motive := fun n e => ∃ ds : List ℕ, ds.length = e.draws ∧
    ∀ along all rest, Run (Script.source along) (ps.map Letter.text) h n
      ⟨all, ds.map Int.ofNat ++ rest⟩ ds e ⟨all, rest⟩) ?_ ?_ ?_ ?_
  · refine ⟨[0], rfl, fun along all rest => ?_⟩
    exact .var (Script.below_cons (d := 0) (by decide) _ all rest)
  · intro p hp
    obtain ⟨i, hi, rfl⟩ := List.getElem_of_mem hp
    have hi' : i < (ps.map Letter.text).length := by simpa using hi
    refine ⟨[1, i], rfl, fun along all rest => ?_⟩
    exact .param (Script.below_cons (d := 1) (by decide) _ all _)
      (Script.below_cons hi' _ all rest) (by simp)
  · rintro f n e - ⟨ds, hlen, hrun⟩
    obtain ⟨k, hk, hget⟩ := List.getElem_of_mem (Operator.mem_all (.unary f))
    refine ⟨0 :: k :: ds, by simp [hlen], fun along all rest => ?_⟩
    exact .unary (Script.below_cons n.succ_pos _ all _) (Script.below_cons hk _ all _) hget
      (hrun along all rest)
  · rintro f i j l r - - ⟨dl, hlenl, hl⟩ ⟨dr, hlenr, hr⟩
    obtain ⟨k, hk, hget⟩ := List.getElem_of_mem (Operator.mem_all (.binary f))
    have hi : i < i + j + 1 := by omega
    refine ⟨i :: k :: (dl ++ dr), by simp [hlenl, hlenr], fun along all rest => ?_⟩
    have hleft := hl along all (dr.map Int.ofNat ++ rest)
    rw [← List.append_assoc, ← List.map_append] at hleft
    have hright := hr along all rest
    rw [← Nat.add_sub_cancel_left (n := i) (m := j)] at hright
    exact .binary (Script.below_cons hi _ all _) (Script.below_cons hk _ all _) hget hleft hright

end Letters

variable {g : Generator α}

/-- A random formula of a budget is a run of it. -/
theorem Run.generate {S : Source α σ} {c : ℕ} {s s' : σ} {ds : List ℕ} {e : Expr α}
    (h : Run S g.names g.names_ne_nil c s ds e s') :
    g.generate S c s = (.ok e, s') ∧
      ∀ log, g.generate S.recorded c (s, log) = (.ok e, s', log ++ ds.map .number) := by
  constructor
  · rw [generate_natCast, h.grow_eq]
    rfl
  · intro log
    rw [generate_natCast, h.record]
    rfl

/-- **A budget reaches exactly the formulas with so many operators.** Every run from every source
gives one of them, with two draws for an operator, one for the variable and two for a parameter;
and every one of them is given by a script of so many integers, which are drawn as they stand and
leave all that follows them. -/
theorem generate_reaches {ps : List Letter} (hps : g.names = ps.map Letter.text) (c : ℕ) :
    (∀ (σ : Type v) (S : Source α σ) (s : σ), ∃ (e : Expr α) (s' : σ) (ds : List ℕ),
      g.generate S c s = (.ok e, s') ∧
        g.generate S.recorded c (s, []) = (.ok e, s', ds.map .number) ∧
        e.Grown ps c ∧ e.depth ≤ c + 1 ∧ e.size ≤ 2 * c + 1 ∧ ds.length = e.draws) ∧
      ∀ e : Expr α, e.Grown ps c → ∃ ds : List ℕ, ds.length = e.draws ∧
        ∀ along all rest,
          g.generate (Script.source along) c ⟨all, ds.map Int.ofNat ++ rest⟩ =
              (.ok e, ⟨all, rest⟩) ∧
            g.generate (Script.source along).recorded c (⟨all, ds.map Int.ofNat ++ rest⟩, []) =
              (.ok e, ⟨all, rest⟩, ds.map .number) := by
  constructor
  · intro σ S s
    obtain ⟨ds, e, s', hrun, he, hlen⟩ := exists_run hps g.names_ne_nil S c s
    obtain ⟨hgenerate, hrecord⟩ := hrun.generate
    exact ⟨e, s', ds, hgenerate, hrecord [], he, he.depth_le, he.size_le, hlen⟩
  · intro e he
    obtain ⟨ds, hlen, hrun⟩ := exists_draws hps g.names_ne_nil he
    refine ⟨ds, hlen, fun along all rest => ?_⟩
    obtain ⟨hgenerate, hrecord⟩ := (hrun along all rest).generate
    exact ⟨hgenerate, hrecord []⟩

theorem generate_reaches_sin :
    ∃ ds : List ℕ, ds.length = 7 ∧ ∀ along all rest,
      (standard 0 1 : Generator ℕ).generate (Script.source along) (2 : ℕ)
          ⟨all, ds.map Int.ofNat ++ rest⟩ =
        (.ok (.unary .sin (.binary .mul (.param ⟨'k', by decide⟩) .var)), ⟨all, rest⟩) := by
  have he : (unary .sin (binary .mul (param ⟨'k', by decide⟩) var) : Expr ℕ).Grown Letter.all 2 :=
    grown_unary_iff.2 ⟨1, grown_binary_iff.2 ⟨0, 0, grown_param_iff.2 ⟨Letter.mem_all _, rfl⟩,
      grown_var_iff.2 rfl, rfl⟩, rfl⟩
  obtain ⟨ds, hlen, hgenerate⟩ := (generate_reaches.{0, 0} (g := standard 0 1) rfl 2).2 _ he
  exact ⟨ds, by simpa using hlen, fun along all rest => (hgenerate along all rest).1⟩

end Generator

end CurveFormula
