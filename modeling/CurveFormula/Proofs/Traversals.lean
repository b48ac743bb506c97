import CurveFormula.Expr.Traversal
import Mathlib.Logic.Function.Iterate
import Mathlib.Order.Interval.Set.Nat

/-!
# Traversals visit every node once

A traversal is a loop over the nodes still to visit. Depth first they are a stack with its top at
the end, on which the parts of a node are put in reverse; breadth first they are a queue, which the
parts of a node join at its end.

* One turn visits one node, and puts the nodes below it among those still to visit
  (`Tour.turn_keeps`); the nodes visited so far, followed by those that remain, stay the same list.
  So the loop ends after as many turns as the formula has nodes (`Tour.iterate_turn_start`).
* What is left of a level, followed by the start of the next one, is visited in this order
  (`Expr.visitWide_append`). So breadth first the levels come one after the other
  (`Expr.visitWide_eq_levels`).
* Both orders visit the same nodes (`Expr.visitWide_perm`).
-/

namespace CurveFormula

universe u

variable {α : Type u}

namespace Expr

/-! ### Levels -/

theorem level_succ (n : ℕ) (e : Expr α) : e.level (n + 1) = e.children.flatMap (level n) := by
  cases e <;> simp [level, children]

theorem depth_lt_of_mem_children {e c : Expr α} (h : c ∈ e.children) : c.depth < e.depth := by
  cases e with
  | unary op e =>
    obtain rfl := List.mem_singleton.1 h
    rw [depth_unary]
    omega
  | binary op l r =>
    rw [depth_binary]
    rcases List.mem_pair.1 h with rfl | rfl <;> omega
  | var | const _ | zero | one | param _ | poly _ _ => cases h

/-- A formula has nodes on as many levels as it is deep. -/
theorem level_ne_nil_iff (n : ℕ) (e : Expr α) : e.level n ≠ [] ↔ n < e.depth := by
  induction e generalizing n with
  | var | const _ | zero | one | param _ | poly _ _ => cases n <;> simp [level, depth]
  | unary op e ih =>
    cases n with
    | zero => simp [level]
    | succ n =>
      rw [depth_unary, Nat.add_comm 1, Nat.succ_lt_succ_iff]
      exact ih n
  | binary op l r ihl ihr =>
    cases n with
    | zero => simp [level]
    | succ n =>
      have h : (binary op l r).level (n + 1) = l.level n ++ r.level n := rfl
      rw [h, depth_binary, Nat.add_comm 1, Nat.succ_lt_succ_iff, lt_max_iff, ← ihl, ← ihr,
        Ne, List.append_eq_nil_iff, not_and_or]

/-- **What is left of a level comes before the next level.** -/
theorem visitWide_append (l m : List (Expr α)) :
    visitWide (l ++ m) = l ++ visitWide (m ++ l.flatMap children) := by
  induction l generalizing m with
  | nil => simp
  | cons e l ih =>
    rw [List.cons_append, visitWide_cons, List.append_assoc, ih, List.append_assoc]
    rfl

/-- The nodes of formulas that are at most `n` deep come level by level, through all of them. -/
theorem visitWide_eq_flatMap (n : ℕ) (l : List (Expr α)) (h : ∀ e ∈ l, e.depth ≤ n) :
    visitWide l = (List.range n).flatMap fun i => l.flatMap (level i) := by
  induction n generalizing l with
  | zero =>
    cases l with
    | nil => simp
    | cons e l =>
      have hpos := e.depth_pos
      have hzero := h e List.mem_cons_self
      omega
  | succ n ih =>
    have hbelow : ∀ c ∈ l.flatMap children, c.depth ≤ n := by
      intro c hc
      obtain ⟨e, he, hce⟩ := List.mem_flatMap.1 hc
      have hlt := depth_lt_of_mem_children hce
      have hle := h e he
      omega
    have htail := visitWide_append l []
    rw [List.append_nil, List.nil_append, ih _ hbelow] at htail
    have hroots : l.flatMap (level 0) = l := List.flatMap_singleton' l
    have hstep : ∀ i, (l.flatMap children).flatMap (level i) = l.flatMap (level (i + 1)) := by
      intro i
      rw [List.flatMap_assoc]
      simp only [← level_succ]
    simp only [hstep] at htail
    rw [htail, List.range_succ_eq_map, List.flatMap_cons, hroots, List.flatMap_map]

theorem visitWide_eq_levels (e : Expr α) :
    visitWide [e] = (List.range e.depth).flatMap fun n => e.level n := by
  have h : ∀ c ∈ [e], c.depth ≤ e.depth := by
    intro c hc
    rw [List.mem_singleton.1 hc]
  rw [visitWide_eq_flatMap e.depth [e] h]
  simp only [List.flatMap_singleton]

/-! ### One order is a rearrangement of the other -/

theorem visitWide_perm (pending : List (Expr α)) :
    (visitWide pending).Perm (pending.flatMap preorder) := by
  induction pending using visitWide.induct with
  | case1 =>
    rw [visitWide_nil, List.flatMap_nil]
  | case2 e rest ih =>
    rw [visitWide_cons, List.flatMap_cons, preorder_eq_cons, List.cons_append]
    apply List.Perm.cons
    apply ih.trans
    rw [List.flatMap_append]
    exact List.perm_append_comm

theorem length_preorder (e : Expr α) : e.preorder.length = e.size := by
  induction e with
  | var | const _ | zero | one | param _ | poly _ _ => rfl
  | unary op e ih =>
    rw [preorder, List.length_cons, ih, size_unary, Nat.add_comm]
  | binary op l r ihl ihr =>
    rw [preorder, List.length_cons, List.length_append, ihl, ihr, size_binary]
    omega

theorem nodes_perm_preorder (order : Order) (e : Expr α) : (e.nodes order).Perm e.preorder := by
  cases order with
  | breadthFirst =>
    have h := visitWide_perm [e]
    rwa [List.flatMap_singleton] at h
  | depthFirst => rw [nodes_depthFirst]

/-! ### The loop -/

theorem sizes_reverse (l : List (Expr α)) : sizes l.reverse = sizes l := by
  induction l with
  | nil => rfl
  | cons e l ih =>
    rw [List.reverse_cons, sizes_append, ih]
    simp only [sizes]
    omega

theorem sizes_eq_zero_iff (l : List (Expr α)) : sizes l = 0 ↔ l = [] := by
  cases l with
  | nil => simp [sizes]
  | cons e l =>
    have hpos := e.size_pos
    simp only [sizes, List.cons_ne_nil, iff_false]
    omega

end Expr

/-- A traversal under way: the nodes still to visit and the nodes visited. -/
structure Tour (α : Type u) where
  pending : List (Expr α)
  visited : List (Expr α)

namespace Tour

open CurveFormula.Expr

/-- The root is to be visited. -/
def start (e : Expr α) : Tour α := ⟨[e], []⟩

/-- Visit one node: the first that waits, or depth first the last. A traversal with no node left
stays as it is. -/
def turn (order : Order) (t : Tour α) : Tour α :=
  match order with
  | .breadthFirst =>
    match t.pending with
    | [] => t
    | e :: rest => ⟨rest ++ e.children, t.visited ++ [e]⟩
  | .depthFirst =>
    match t.pending.getLast? with
    | none => t
    | some e => ⟨t.pending.dropLast ++ e.children.reverse, t.visited ++ [e]⟩

/-- The nodes visited, followed by those that will be. -/
def outcome (order : Order) (t : Tour α) : List (Expr α) :=
  match order with
  | .breadthFirst => t.visited ++ visitWide t.pending
  | .depthFirst => t.visited ++ visitDeep t.pending.reverse

theorem turn_breadthFirst (e : Expr α) (rest visited : List (Expr α)) :
    turn .breadthFirst ⟨e :: rest, visited⟩ = ⟨rest ++ e.children, visited ++ [e]⟩ := rfl

theorem turn_depthFirst (e : Expr α) (rest visited : List (Expr α)) :
    turn .depthFirst ⟨rest ++ [e], visited⟩ = ⟨rest ++ e.children.reverse, visited ++ [e]⟩ := by
  simp [turn]

theorem turn_of_nil (order : Order) {t : Tour α} (h : t.pending = []) : turn order t = t := by
  cases order <;> simp [turn, h]

theorem outcome_start (order : Order) (e : Expr α) : outcome order (start e) = e.nodes order := by
  cases order <;> rfl

theorem outcome_of_nil (order : Order) {t : Tour α} (h : t.pending = []) :
    outcome order t = t.visited := by
  cases order <;> simp [outcome, h]

/-- What one turn does: the nodes that remain are one fewer, and the outcome stays the same. -/
theorem turn_keeps (order : Order) {t : Tour α} (h : t.pending ≠ []) :
    sizes (turn order t).pending + 1 = sizes t.pending ∧
      outcome order (turn order t) = outcome order t := by
  obtain ⟨pending, visited⟩ := t
  cases order with
  | breadthFirst =>
    obtain ⟨e, rest, rfl⟩ := List.exists_cons_of_ne_nil h
    rw [turn_breadthFirst]
    constructor
    · simp only [sizes_append, sizes, size_eq_children e]
      omega
    · simp only [outcome, visitWide_cons, List.append_assoc, List.singleton_append]
  | depthFirst =>
    -- The top of the stack is its last node, so the list is taken apart at its end.
    obtain ⟨rest, e, rfl⟩ : ∃ rest e, pending = rest ++ [e] :=
      ⟨_, _, (List.dropLast_append_getLast h).symm⟩
    rw [turn_depthFirst]
    constructor
    · simp only [sizes_append, sizes_reverse, sizes, size_eq_children e]
      omega
    · simp only [outcome, List.reverse_append, List.reverse_reverse, List.reverse_singleton,
        List.singleton_append, visitDeep_cons, List.append_assoc]

/-- What a run of `n` turns does, as long as there are that many nodes. -/
theorem iterate_turn (order : Order) (t : Tour α) (n : ℕ) (h : n ≤ sizes t.pending) :
    sizes ((turn order)^[n] t).pending + n = sizes t.pending ∧
      outcome order ((turn order)^[n] t) = outcome order t := by
  induction n with
  | zero => exact ⟨rfl, rfl⟩
  | succ n ih =>
    obtain ⟨hsizes, houtcome⟩ := ih (by omega)
    have hne : ((turn order)^[n] t).pending ≠ [] := by
      intro hnil
      rw [hnil] at hsizes
      simp only [sizes] at hsizes
      omega
    obtain ⟨hturn, hkept⟩ := turn_keeps order hne
    rw [Function.iterate_succ_apply']
    exact ⟨by omega, hkept.trans houtcome⟩

theorem sizes_start (e : Expr α) : sizes (start e).pending = e.size := rfl

/-- **The loop ends**, after as many turns as the formula has nodes. -/
theorem iterate_turn_start (order : Order) (e : Expr α) :
    (turn order)^[e.size] (start e) = ⟨[], e.nodes order⟩ := by
  obtain ⟨hsizes, houtcome⟩ := iterate_turn order (start e) e.size (sizes_start e).ge
  rw [sizes_start] at hsizes
  have hnil := (sizes_eq_zero_iff _).1 (Nat.add_eq_right.1 hsizes)
  rw [outcome_of_nil order hnil, outcome_start] at houtcome
  calc (turn order)^[e.size] (start e)
      = ⟨((turn order)^[e.size] (start e)).pending, ((turn order)^[e.size] (start e)).visited⟩ :=
        rfl
    _ = ⟨[], e.nodes order⟩ := by rw [hnil, houtcome]

/-- The loop takes another turn as long as it has taken fewer turns than there are nodes. -/
theorem pending_ne_nil_iff (order : Order) (e : Expr α) (n : ℕ) :
    ((turn order)^[n] (start e)).pending ≠ [] ↔ n < e.size := by
  rw [Ne, ← sizes_eq_zero_iff]
  by_cases h : n ≤ e.size
  · have hsizes := (iterate_turn order (start e) n h).1
    rw [sizes_start] at hsizes
    omega
  · obtain ⟨m, rfl⟩ := Nat.exists_eq_add_of_le (Nat.le_of_not_le h)
    have hended : turn order ⟨[], e.nodes order⟩ = ⟨[], e.nodes order⟩ := turn_of_nil order rfl
    rw [Nat.add_comm, Function.iterate_add_apply, iterate_turn_start,
      Function.iterate_fixed hended]
    simp [sizes]

end Tour

/-- **Traversals visit every node once, in the promised order.** In both orders the loop takes as
many turns as there are nodes and ends with the nodes in this order. Depth first this is the
pre-order; breadth first the levels come one after the other, as many as the formula is deep. The
two are rearrangements of each other. -/
theorem Expr.nodes_of_traversals (e : Expr α) :
    (∀ order n, ((Tour.turn order)^[n] (Tour.start e)).pending ≠ [] ↔ n < e.size) ∧
      (∀ order, (Tour.turn order)^[e.size] (Tour.start e) = ⟨[], e.nodes order⟩) ∧
      e.nodes .depthFirst = e.preorder ∧
      e.nodes .breadthFirst = (List.range e.depth).flatMap (fun n => e.level n) ∧
      (e.nodes .breadthFirst).Perm (e.nodes .depthFirst) ∧
      (∀ order, (e.nodes order).length = e.size) ∧
      {n | e.level n ≠ []} = Set.Iio e.depth ∧
      {n | e.level n ≠ []}.ncard = e.depth := by
  have hlevels : {n | e.level n ≠ []} = Set.Iio e.depth := by
    ext n
    exact level_ne_nil_iff n e
  refine ⟨?_, ?_, nodes_depthFirst e, visitWide_eq_levels e, ?_, ?_, hlevels, ?_⟩
  · intro order n
    exact Tour.pending_ne_nil_iff order e n
  · intro order
    exact Tour.iterate_turn_start order e
  · exact (nodes_perm_preorder _ e).trans (nodes_perm_preorder _ e).symm
  · intro order
    rw [(nodes_perm_preorder order e).length_eq, length_preorder]
  · rw [hlevels, Set.ncard_Iio_nat]

end CurveFormula
