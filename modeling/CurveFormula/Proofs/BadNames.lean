import CurveFormula.Binary64.Kernel
import CurveFormula.Generator.Setup
import CurveFormula.Proofs.Recording
import Mathlib.Data.Nat.Init

/-!
# Names that are not letters

A generator can be set up with any names, as long as there are some, but a parameter of a formula is
a letter. So growing a formula fails if a name is drawn that is not a letter, and in no other case
(`Generator.outcome_grow`). Such a name can be drawn whatever the budget is: the draws may choose
functions all the way down to one leaf (`Generator.exists_draws_of_stranger`).

`Generator.generate_total_iff` says of a generator that has been set up when it never fails.
-/

namespace CurveFormula

universe u v

variable {α : Type u} {σ : Type v} {names : List Text} {name : Text}

theorem Letter.ofText?_eq_none_iff : Letter.ofText? name = none ↔ ∀ p : Letter, name ≠ p.text := by
  rw [Option.eq_none_iff_forall_ne_some]
  exact forall_congr' fun p => not_congr Letter.ofText?_eq_some

namespace Generator

/-! ### How growing ends -/

/-- A formula, or the report of a name that is listed and not a letter. -/
inductive Outcome (names : List Text) : Except BuildError (Expr α) → Prop
  | formula (e : Expr α) : Outcome names (.ok e)
  | stranger {name : Text} (hmem : name ∈ names) (hname : Letter.ofText? name = none) :
      Outcome names (.error (.unknownParameter name))

theorem outcome_ofName (hmem : name ∈ names) :
    Outcome names (Expr.ofName name : Except BuildError (Expr α)) := by
  unfold Expr.ofName
  cases hname : Letter.ofText? name with
  | some p => exact .formula (.param p)
  | none => exact .stranger hmem hname

/-- What goes on with a formula ends like what it goes on to. -/
theorem outcome_andThen {r : Except BuildError (Expr α) × σ}
    {next : Expr α → σ → Except BuildError (Expr α) × σ} (hr : Outcome names r.1)
    (hnext : ∀ e s, Outcome names (next e s).1) : Outcome names (andThen r next).1 := by
  obtain ⟨result, s⟩ := r
  cases hr with
  | formula e => exact hnext e s
  | stranger hmem hname => exact .stranger hmem hname

/-- **Growing gives a formula, or reports a listed name that is not a letter.** -/
theorem outcome_grow (S : Source α σ) (h : names ≠ []) (n : ℕ) (s : σ) :
    Outcome names (grow S names h n s).1 := by
  induction n using Nat.strong_induction_on generalizing s with
  | _ n ih =>
    cases n with
    | zero =>
      by_cases hcoin : (S.below 2 (by decide) s).1.val = 0
      · simp only [grow, hcoin, if_true]
        exact .formula .var
      · simp only [grow, hcoin, if_false]
        exact outcome_ofName (List.get_mem _ _)
    | succ n =>
      rcases hsplit : S.below (n + 1) n.succ_pos s with ⟨i, s₁⟩
      rcases hop : S.choice Operator.all (by decide) s₁ with ⟨op, s₂⟩
      rw [grow]
      simp only [hsplit, hop]
      cases op with
      | unary f =>
        apply outcome_andThen (ih n n.lt_succ_self s₂)
        intro e s'
        exact .formula (.unary f e)
      | binary f =>
        apply outcome_andThen (ih i i.isLt s₂)
        intro l s₃
        apply outcome_andThen (ih (n - i) (by omega) s₃)
        intro r s₄
        exact .formula (.binary f l r)

/-- **Every listed name that is not a letter is reported after some draws**, whatever the budget. -/
theorem exists_draws_of_stranger (h : names ≠ []) (hmem : name ∈ names)
    (hname : Letter.ofText? name = none) (n : ℕ) :
    ∃ ds : List ℕ, ds.length = 2 * n + 2 ∧ ∀ (along : α → α → ℕ → ℕ → α) (all rest : List ℤ),
      grow (Script.source along) names h n ⟨all, ds.map Int.ofNat ++ rest⟩ =
        (.error (.unknownParameter name), ⟨all, rest⟩) := by
  induction n with
  | zero =>
    obtain ⟨i, hi, rfl⟩ := List.getElem_of_mem hmem
    refine ⟨[1, i], rfl, fun along all rest => ?_⟩
    have hcoin : (Script.source along).below 2 (by decide) ⟨all, ((1 : ℕ) : ℤ) :: (i : ℤ) :: rest⟩ =
        (1, ⟨all, (i : ℤ) :: rest⟩) := Script.below_cons (by decide) _ all _
    have hchoice : (Script.source along).below names.length (List.length_pos_iff.2 h)
        ⟨all, (i : ℤ) :: rest⟩ = (⟨i, hi⟩, ⟨all, rest⟩) := Script.below_cons hi _ all rest
    have hbuild : (Expr.ofName names[i] : Except BuildError (Expr α)) =
        .error (.unknownParameter names[i]) := by
      unfold Expr.ofName
      rw [hname]
    show grow (Script.source along) names h 0 ⟨all, ((1 : ℕ) : ℤ) :: (i : ℤ) :: rest⟩ = _
    simp only [grow, hcoin, Source.choice, hchoice]
    simp [hbuild]
  | succ n ih =>
    obtain ⟨ds, hlen, hgrow⟩ := ih
    -- the first function in drawing order has one operand, which gets the rest of the budget
    refine ⟨0 :: 0 :: ds, by simp [hlen]; omega, fun along all rest => ?_⟩
    have hdraw (k : ℕ) (hk : 0 < k) (later : List ℤ) :
        (Script.source along).below k hk ⟨all, ((0 : ℕ) : ℤ) :: later⟩ =
          (⟨0, hk⟩, ⟨all, later⟩) := Script.below_cons hk hk all later
    show grow (Script.source along) names h (n + 1)
      ⟨all, ((0 : ℕ) : ℤ) :: ((0 : ℕ) : ℤ) :: (ds.map Int.ofNat ++ rest)⟩ = _
    rw [grow]
    simp only [hdraw, Source.choice]
    show andThen (grow _ names h n _) _ = _
    rw [hgrow, andThen_error]

/-! ### Generators that have been set up -/

theorem names_of_build {setup : Setup α} {g : Generator α} {unseeded stream : Stream}
    (h : setup.build unseeded = .ok (g, stream)) : g.names = setup.names := by
  unfold Setup.build at h
  split at h
  · cases h
  · split at h
    · cases h
      rfl
    · cases h

variable {g : Generator α}

/-- A random formula is one, or a listed name that is not a letter is reported. -/
theorem generate_cases (S : Source α σ) (c : ℕ) (s : σ) :
    (∃ e s', g.generate S c s = (.ok e, s')) ∨
      ∃ name ∈ g.names, Letter.ofText? name = none ∧
        ∃ s', g.generate S c s = (.error (.badName (.unknownParameter name)), s') := by
  have houtcome : Outcome g.names (grow S g.names g.names_ne_nil c s).1 :=
    outcome_grow S g.names_ne_nil c s
  rw [generate_natCast]
  generalize grow S g.names g.names_ne_nil c s = r at houtcome ⊢
  obtain ⟨result, s'⟩ := r
  cases houtcome with
  | formula e => exact Or.inl ⟨e, s', rfl⟩
  | stranger hmem hname => exact Or.inr ⟨_, hmem, hname, s', rfl⟩

/-- Every listed name that is not a letter is reported after some draws. -/
theorem exists_draws_badName (hmem : name ∈ g.names) (hname : Letter.ofText? name = none) (c : ℕ) :
    ∃ ds : List ℕ, ds.length = 2 * c + 2 ∧
      ∀ (along : α → α → ℕ → ℕ → α) (all rest : List ℤ),
        g.generate (Script.source along) c ⟨all, ds.map Int.ofNat ++ rest⟩ =
          (.error (.badName (.unknownParameter name)), ⟨all, rest⟩) := by
  obtain ⟨ds, hlen, hgrow⟩ := exists_draws_of_stranger (α := α) g.names_ne_nil hmem hname c
  refine ⟨ds, hlen, fun along all rest => ?_⟩
  rw [generate_natCast, hgrow]
  rfl

/-- **A generator that has been set up never fails exactly if all of its names are letters**, for
each budget. The one fault it can have is the report of a listed name that is not a letter, and
every such name is reported after some draws, two for each unit of the budget and two more. -/
theorem generate_total_iff {setup : Setup α} {unseeded stream : Stream}
    (h : setup.build unseeded = .ok (g, stream)) (c : ℕ) :
    ((∀ (σ : Type) (S : Source α σ) (s : σ), ∃ e s', g.generate S c s = (.ok e, s')) ↔
        ∀ name ∈ setup.names, ∃ p : Letter, name = p.text) ∧
      (∀ (σ : Type v) (S : Source α σ) (s s' : σ) (fault : GenerateError),
        g.generate S c s = (.error fault, s') →
          ∃ name ∈ setup.names, (∀ p : Letter, name ≠ p.text) ∧
            fault = .badName (.unknownParameter name)) ∧
      ∀ name ∈ setup.names, (∀ p : Letter, name ≠ p.text) →
        ∃ ds : List ℕ, ds.length = 2 * c + 2 ∧
          ∀ (along : α → α → ℕ → ℕ → α) (all rest : List ℤ),
            g.generate (Script.source along) c ⟨all, ds.map Int.ofNat ++ rest⟩ =
              (.error (.badName (.unknownParameter name)), ⟨all, rest⟩) := by
  rw [← names_of_build h]
  refine ⟨⟨fun htotal name hmem => ?_, fun hletters σ S s => ?_⟩, ?_, fun name hmem hname =>
    exists_draws_badName hmem (Letter.ofText?_eq_none_iff.2 hname) c⟩
  · by_cases hname : ∃ p : Letter, name = p.text
    · exact hname
    · obtain ⟨ds, -, hgenerate⟩ := exists_draws_badName hmem
        (Letter.ofText?_eq_none_iff.2 (not_exists.1 hname)) c
      obtain ⟨e, s', he⟩ := htotal Script (Script.source fun a _ _ _ => a)
        ⟨[], ds.map Int.ofNat ++ []⟩
      rw [hgenerate] at he
      cases he
  · rcases generate_cases S c s with hok | ⟨name, hmem, hname, -⟩
    · exact hok
    · obtain ⟨p, hp⟩ := hletters name hmem
      exact absurd hp (Letter.ofText?_eq_none_iff.1 hname p)
  · intro σ S s s' fault hfault
    rcases generate_cases S c s with ⟨e, s₁, hok⟩ | ⟨name, hmem, hname, s₁, herror⟩
    · rw [hok] at hfault
      cases hfault
    · rw [herror] at hfault
      cases hfault
      exact ⟨name, hmem, Letter.ofText?_eq_none_iff.1 hname, rfl⟩

/-- A generator for the first six letters of the Latin alphabet, Euler's number being the fifth. -/
def eulerSetup : Setup Float where
  stream := some (.script (.ofList [1, 4]))
  seed := none
  names := [['a'], ['b'], ['c'], ['d'], ['e'], ['f']]
  values := (-9.0, 9.0)

theorem generate_total_iff_euler :
    ∃ g stream, (∀ unseeded, eulerSetup.build unseeded = .ok (g, stream)) ∧
      ¬(∀ (σ : Type) (S : Source Float σ) (s : σ), ∃ e s', g.generate S (3 : ℕ) s = (.ok e, s')) ∧
      ∃ ds : List ℕ, ds.length = 8 ∧ ∀ along all rest,
        g.generate (Script.source along) (3 : ℕ) ⟨all, ds.map Int.ofNat ++ rest⟩ =
          (.error (.badName (.unknownParameter ['e'])), ⟨all, rest⟩) := by
  refine ⟨_, _, fun _ => rfl, ?_⟩
  obtain ⟨htotal, -, hreach⟩ := generate_total_iff.{0, 0}
    (show eulerSetup.build (.script (.ofList [])) = .ok _ from rfl) 3
  have he : ∀ p : Letter, ['e'] ≠ p.text := Letter.ofText?_eq_none_iff.1 (by decide)
  have hmem : ['e'] ∈ eulerSetup.names := by decide
  refine ⟨fun hall => ?_, hreach _ hmem he⟩
  obtain ⟨p, hp⟩ := htotal.1 hall _ hmem
  exact he p hp

/-- The generator is accepted, and with the draws it was given it fails at its first leaf. -/
theorem generate_fails_of_accepted :
    ∃ g, (∀ unseeded, eulerSetup.build unseeded = .ok (g, .script (.ofList [1, 4]))) ∧
      (g.generate (Stream.source Binary64.along) 0 (.script (.ofList [1, 4]))).1 =
        .error (.badName (.unknownParameter ['e'])) := by
  refine ⟨_, fun _ => rfl, ?_⟩
  show (generate _ _ ((0 : ℕ) : ℤ) _).1 = _
  rw [generate_natCast, grow]
  rfl

end Generator

end CurveFormula
