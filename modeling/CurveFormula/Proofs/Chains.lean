import CurveFormula.Proofs.FieldRules
import CurveFormula.Proofs.Meaning

/-!
# Chains of operators without brackets

The reader groups a chain of sums and differences in an unusual way: to the right at every plus
sign, to the left at the minus signs between. It does the same with products and quotients.
`grouped` is the formula that it finds. `leftToRight` combines the values of the operands as one
reads a chain, from the left.

Both have the same value if an operand may be taken into the right operand of the outer operator
(`Kernel.Regroups`). Sums and differences in an abelian group always can be. Products and quotients
in a field can be too, undefined quotients included, but two quotients in a row are grouped to the
right, which is another value: chains with two such signs in a row are left out.
-/

namespace CurveFormula

universe u v w

variable {α : Type u} {β : Type v} {N : Numerals α}

namespace Kernel

/-- The operands of a chain combined from left to right, each with the operator in front of it. -/
def leftToRight (K : Kernel β) (v : β) (vs : List (BinaryOp × β)) : β :=
  vs.foldl (fun u p => K.binary p.1 u p.2) v

@[simp] theorem leftToRight_nil (K : Kernel β) (v : β) : K.leftToRight v [] = v := rfl

@[simp] theorem leftToRight_cons (K : Kernel β) (v w : β) (op : BinaryOp)
    (vs : List (BinaryOp × β)) :
    K.leftToRight v ((op, w) :: vs) = K.leftToRight (K.binary op v w) vs := rfl

/-- Behind the outer operator, both operators may be applied to the right operand first. -/
def Regroups (K : Kernel β) (outer inner : BinaryOp) : Prop :=
  ∀ op, op = outer ∨ op = inner → ∀ u v w,
    K.binary op (K.binary outer u v) w = K.binary outer u (K.binary op v w)

/-- An operand in front of a whole chain may be combined with the first operand alone. -/
theorem Regroups.leftToRight_eq {K : Kernel β} {outer inner : BinaryOp}
    (hK : K.Regroups outer inner) {vs : List (BinaryOp × β)}
    (hops : ∀ p ∈ vs, p.1 = outer ∨ p.1 = inner) (u v : β) :
    K.binary outer u (K.leftToRight v vs) = K.leftToRight (K.binary outer u v) vs := by
  induction vs generalizing v with
  | nil => rfl
  | cons p vs ih =>
    obtain ⟨op, w⟩ := p
    have hop := hops (op, w) (by simp)
    rw [leftToRight_cons, leftToRight_cons, hK op hop,
      ih fun q hq => hops q (List.mem_cons_of_mem _ hq)]

/-- Sums, differences and negations are those of an abelian group. -/
structure Additive [AddCommGroup β] (K : Kernel β) : Prop where
  add : ∀ u v, K.binary .add u v = u + v
  sub : ∀ u v, K.binary .sub u v = u - v
  neg : ∀ u, K.unary .neg u = -u

theorem Additive.regroups [AddCommGroup β] {K : Kernel β} (hK : K.Additive) :
    K.Regroups .add .sub := by
  rintro op (rfl | rfl) u v w
  · simp only [hK.add, add_assoc]
  · simp only [hK.add, hK.sub, add_sub_assoc]

/-- Products and quotients are those of a field. They are undefined where an operand is, and so is
a quotient by nought. -/
structure Multiplicative {F : Type v} [Field F] [DecidableEq F] (K : Kernel (Option F)) : Prop where
  mul : ∀ a c, K.binary .mul a c = a.bind fun u => c.bind fun v => some (u * v)
  div : ∀ a c, K.binary .div a c =
    a.bind fun u => c.bind fun v => if v = 0 then none else some (u / v)

theorem Multiplicative.regroups {F : Type v} [Field F] [DecidableEq F] {K : Kernel (Option F)}
    (hK : K.Multiplicative) : K.Regroups .mul .div := by
  rintro op (rfl | rfl) a c d
  · simp only [hK.mul]
    cases a <;> cases c <;> cases d <;> simp [mul_assoc]
  · simp only [hK.mul, hK.div]
    cases a <;> cases c <;> cases d <;> simp [mul_div_assoc]
    split_ifs <;> simp

end Kernel

namespace Parse

/-- An operand of a chain behind the first one, with the operator in front of it. -/
structure Link (α : Type u) where
  op : BinaryOp
  text : Text
  formula : Expr α

/-- The text of the operands behind the first one, with their signs. -/
def tailText (links : List (Link α)) : Text :=
  links.flatMap fun l => l.op.sign :: l.text

/-- The formula that a chain denotes: its right operand is the rest of the chain at the outer
operator, and one operand alone at the other one. -/
def grouped (outer : BinaryOp) (e : Expr α) : List (Link α) → Expr α
  | [] => e
  | l :: links =>
    if l.op = outer then .binary outer e (grouped outer l.formula links)
    else grouped outer (.binary l.op e l.formula) links

theorem grouped_cons_of_eq {outer : BinaryOp} {l : Link α} (h : l.op = outer) (e : Expr α)
    (links : List (Link α)) :
    grouped outer e (l :: links) = .binary outer e (grouped outer l.formula links) :=
  if_pos h

theorem grouped_cons_of_ne {outer : BinaryOp} {l : Link α} (h : l.op ≠ outer) (e : Expr α)
    (links : List (Link α)) :
    grouped outer e (l :: links) = grouped outer (.binary l.op e l.formula) links :=
  if_neg h

theorem normalize_tailText_cons (l : Link α) (links : List (Link α)) :
    normalize (tailText (l :: links)) =
      l.op.sign :: (normalize l.text ++ normalize (tailText links)) := by
  rw [tailText, List.flatMap_cons, List.cons_append, normalize_cons (steady_sign l.op),
    normalize_append]
  rfl

/-- The text denotes the formula, and has none of some signs outside of brackets. -/
structure Operand (N : Numerals α) (signs : List Char) (s : Text) (e : Expr α) : Prop where
  parse : Expr.parse N s = .ok e
  clear : ∀ c ∈ signs, Clear c (normalize s)

theorem Operand.derives {k : Stratum} {s : Text} {e : Expr α} (h : Operand N k.excluded s e) :
    Derives N k (normalize s) e :=
  (derives_of_read h.parse).2 k h.clear

/-! ### What a chain reads as -/

/-- A difference and the chain of sums and differences behind it. -/
theorem derives_sums {links : List (Link α)}
    (h : ∀ l ∈ links, (l.op = .add ∨ l.op = .sub) ∧ Derives N .prod (normalize l.text) l.formula)
    {s : Text} {e : Expr α} (hs : Derives N .diff s e) :
    Derives N .sum (s ++ normalize (tailText links)) (grouped .add e links) := by
  induction links generalizing s e with
  | nil =>
    rw [show normalize (tailText ([] : List (Link α))) = [] from rfl, List.append_nil]
    exact .sum_diff hs
  | cons l links ih =>
    obtain ⟨⟨hop, hl⟩, hlinks⟩ := List.forall_mem_cons.1 h
    rw [normalize_tailText_cons]
    rcases hop with hop | hop
    · -- the rest of the chain is the right operand
      rw [grouped_cons_of_eq hop, hop]
      exact .add hs (ih hlinks (.diff_prod hl))
    · rw [grouped_cons_of_ne (by simp [hop]), hop, ← List.cons_append, ← List.append_assoc]
      exact ih hlinks (.sub hs hl)

/-- What may stand in front of the next sign of a chain of products and quotients: behind a quotient
sign, the power there belongs to the quotient. -/
def stratumBehind : BinaryOp → Stratum
  | .div => .quot
  | _ => .power

theorem rank_stratumBehind (op : BinaryOp) : Stratum.quot.rank ≤ (stratumBehind op).rank := by
  cases op <;> decide

/-- An operand behind some sign, and the chain of products and quotients behind it. -/
theorem derives_products {links : List (Link α)}
    (h : ∀ l ∈ links, (l.op = .mul ∨ l.op = .div) ∧ Derives N .power (normalize l.text) l.formula)
    {op : BinaryOp}
    (hchain : (op :: links.map Link.op).IsChain fun p q => ¬(p = .div ∧ q = .div)) {s : Text}
    {e : Expr α} (hs : Derives N (stratumBehind op) s e) :
    Derives N .prod (s ++ normalize (tailText links)) (grouped .mul e links) := by
  have hquot := hs.loosen .quot (rank_stratumBehind op)
  induction links generalizing op s e with
  | nil =>
    rw [show normalize (tailText ([] : List (Link α))) = [] from rfl, List.append_nil]
    exact .prod_quot hquot
  | cons l links ih =>
    obtain ⟨⟨hop, hl⟩, hlinks⟩ := List.forall_mem_cons.1 h
    rw [List.map_cons, List.isChain_cons_cons] at hchain
    rw [normalize_tailText_cons]
    rcases hop with hop | hop
    · rw [hop] at hchain
      rw [grouped_cons_of_eq hop, hop]
      exact .mul hquot (ih hlinks hchain.2 hl (.quot_power hl))
    · -- no quotient sign stands in front, so a power does
      have hpower : Derives N .power s e := by
        cases op with
        | div => exact absurd ⟨rfl, hop⟩ hchain.1
        | add | sub | mul | pow => exact hs
      have hdiv := Derives.div hpower (.quot_power hl)
      rw [hop] at hchain
      rw [grouped_cons_of_ne (by simp [hop]), hop, ← List.cons_append, ← List.append_assoc]
      exact ih hlinks hchain.2 hdiv hdiv

/-! ### What a chain is worth -/

/-- The values of the operands behind the first one. -/
def linkValues (K : Kernel β) (value : α → β) (x : β) (b : Binding β) (links : List (Link α)) :
    Except Unbound (List β) :=
  links.mapM fun l => (l.formula.map value).eval K x b

/-- **A grouped chain has the value of its operands combined from left to right.** -/
theorem eval_grouped {K : Kernel β} {outer inner : BinaryOp} (hK : K.Regroups outer inner)
    {links : List (Link α)} (hops : ∀ l ∈ links, l.op = outer ∨ l.op = inner) (value : α → β)
    (x : β) (b : Binding β) (e : Expr α) :
    ((grouped outer e links).map value).eval K x b = do
      let v ← (e.map value).eval K x b
      let vs ← linkValues K value x b links
      return K.leftToRight v ((links.map Link.op).zip vs) := by
  induction links generalizing e with
  | nil => simp [grouped, linkValues]
  | cons l links ih =>
    obtain ⟨hop, hlinks⟩ := List.forall_mem_cons.1 hops
    have ih := ih hlinks
    unfold linkValues at ih ⊢
    by_cases ho : l.op = outer
    · have hregroup (v w : β) (vs : List β) :
          K.binary outer v (K.leftToRight w ((links.map Link.op).zip vs)) =
            K.leftToRight (K.binary outer v w) ((links.map Link.op).zip vs) := by
        refine hK.leftToRight_eq (fun p hp => ?_) v w
        obtain ⟨m, hm, hmp⟩ := List.mem_map.1 (List.of_mem_zip hp).1
        exact hmp ▸ hlinks m hm
      simp [grouped_cons_of_eq ho, ho, Expr.map, Expr.eval_binary, ih, hregroup]
    · simp [grouped_cons_of_ne ho, Expr.map, Expr.eval_binary, ih]

/-- **Chains have their conventional values.** A chain of sums and differences, maybe behind a minus
sign, reads as a formula that is worth its operands added and subtracted from left to right, in
every abelian group. A chain of products and quotients without two quotient signs in a row reads as
one that is worth its operands multiplied and divided from left to right, in every field. -/
theorem parse_chain (N : Numerals α) (s : Text) (e : Expr α) (links : List (Link α)) :
    (Operand N ['+', '-'] s e →
      (∀ l ∈ links, (l.op = .add ∨ l.op = .sub) ∧ Operand N ['+', '-'] l.text l.formula) →
      ∀ minus : Bool, ∃ f,
        Expr.parse N ((if minus then '-' :: s else s) ++ tailText links) = .ok f ∧
        ∀ {G : Type v} [AddCommGroup G] (K : Kernel G), K.Additive →
          ∀ (value : α → G) (x : G) (b : Binding G),
            (f.map value).eval K x b = do
              let v ← (e.map value).eval K x b
              let vs ← linkValues K value x b links
              return K.leftToRight (if minus then -v else v) ((links.map Link.op).zip vs)) ∧
      (Operand N ['+', '-', '*', '/'] s e →
        (∀ l ∈ links, (l.op = .mul ∨ l.op = .div) ∧
          Operand N ['+', '-', '*', '/'] l.text l.formula) →
        ((links.map Link.op).IsChain fun p q => ¬(p = .div ∧ q = .div)) → ∃ f,
          Expr.parse N (s ++ tailText links) = .ok f ∧
          ∀ {F : Type v} [Field F] [DecidableEq F] (K : Kernel (Option F)), K.Multiplicative →
            ∀ (value : α → Option F) (x : Option F) (b : Binding (Option F)),
              (f.map value).eval K x b = do
                let v ← (e.map value).eval K x b
                let vs ← linkValues K value x b links
                return K.leftToRight v ((links.map Link.op).zip vs)) := by
  constructor
  · intro hs hlinks minus
    have hprod : Derives N .prod (normalize s) e := Operand.derives hs
    have hderives : ∀ l ∈ links, (l.op = .add ∨ l.op = .sub) ∧
        Derives N .prod (normalize l.text) l.formula := fun l hl =>
      (hlinks l hl).imp_right Operand.derives
    have hops := fun l hl => (hlinks l hl).1
    cases minus with
    | false =>
      refine ⟨grouped .add e links, ?_, fun K hK value x b => ?_⟩
      · have hsum := derives_sums hderives (.diff_prod hprod)
        rw [← normalize_append] at hsum
        exact read_of_derives hsum
      · rw [eval_grouped hK.regroups hops]
        rfl
    | true =>
      refine ⟨grouped .add (.unary .neg e) links, ?_, fun K hK value x b => ?_⟩
      · have hsum := derives_sums hderives (.neg hprod)
        rw [← normalize_cons rfl, ← normalize_append] at hsum
        exact read_of_derives hsum
      · rw [eval_grouped hK.regroups hops, Expr.map, Expr.eval_unary]
        simp [hK.neg]
  · intro hs hlinks hchain
    have hpower : Derives N .power (normalize s) e := Operand.derives hs
    have hderives : ∀ l ∈ links, (l.op = .mul ∨ l.op = .div) ∧
        Derives N .power (normalize l.text) l.formula := fun l hl =>
      (hlinks l hl).imp_right Operand.derives
    have hfirst : (.mul :: links.map Link.op).IsChain fun p q => ¬(p = .div ∧ q = .div) :=
      List.isChain_cons.2 ⟨by simp, hchain⟩
    refine ⟨grouped .mul e links, ?_, fun K hK value x b => ?_⟩
    · have hproduct := derives_products hderives hfirst hpower
      rw [← normalize_append] at hproduct
      exact read_of_derives hproduct
    · exact eval_grouped hK.regroups (fun l hl => (hlinks l hl).1) value x b e

end Parse

/-! ### The integers and the rationals -/

namespace Kernel

/-- The integers, quotients being rounded down, with no function but negation and square. -/
def integers : Kernel ℤ where
  zero := 0
  one := 1
  natural := Int.ofNat
  unary
    | .neg, u => -u
    | .square, u => u * u
    | _, _ => 0
  binary
    | .add, u, v => u + v
    | .sub, u, v => u - v
    | .mul, u, v => u * v
    | .div, u, v => u / v
    | .pow, u, v => u ^ v.toNat
  power u n := u ^ n

theorem additive_integers : integers.Additive where
  add _ _ := rfl
  sub _ _ := rfl
  neg _ := rfl

theorem multiplicative_kernel {F : Type v} [Field F] [DecidableEq F] (I : PartialField F) :
    I.kernel.Multiplicative where
  mul _ _ := rfl
  div _ _ := rfl

end Kernel

/-- A whole number among the integers. -/
def Whole.integer (v : Whole) : ℤ :=
  if v.negative then -v.size else v.size

namespace Parse

instance (c : Char) : DecidablePred (Clear c) :=
  fun s => decidable_of_iff (∀ i < s.length, ¬(s[i]? = some c ∧ nesting (s.take i) = 0))
    ⟨fun h i hi => h i (lt_length_of_mem_topLevel hi) hi, fun h i _ => h i⟩

instance [DecidableEq α] (signs : List Char) (s : Text) (e : Expr α) :
    Decidable (Operand N signs s e) :=
  decidable_of_iff (Expr.parse N s = .ok e ∧ ∀ c ∈ signs, Clear c (normalize s))
    ⟨fun h => ⟨h.1, h.2⟩, fun h => ⟨h.1, h.2⟩⟩

/-- A chain of four operands behind a minus sign, and one with a quotient on either side of a
product. -/
theorem parse_chain_numbers :
    (∃ f, Expr.parse Whole.numerals "-2*a - (x - 1) + x - a".toList = .ok f ∧
      (f.map Whole.integer).eval Kernel.integers 5 (fun _ => some 3) = .ok (-8)) ∧
    ∃ f, Expr.parse Whole.numerals "x/a * (1 - x)/2".toList = .ok f ∧
      (f.map Whole.rational).eval PartialField.rationals.kernel (some 3) (fun _ => some (some 2)) =
        .ok (some (-3 / 2)) := by
  let a : Letter := ⟨'a', by decide⟩
  let terms : List (Link Whole) :=
    [⟨.sub, " (x - 1) ".toList, .binary .sub .var .one⟩, ⟨.add, " x ".toList, .var⟩,
      ⟨.sub, " a".toList, .param a⟩]
  let factors : List (Link Whole) :=
    [⟨.div, "a ".toList, .param a⟩, ⟨.mul, " (1 - x)".toList, .binary .sub .one .var⟩,
      ⟨.div, "2".toList, .const (.ofNat 2)⟩]
  have hsums := (parse_chain Whole.numerals "2*a ".toList
    (.binary .mul (.const (.ofNat 2)) (.param a)) terms).1 (by decide +kernel) (by decide +kernel)
  have hproducts := (parse_chain Whole.numerals "x".toList .var factors).2 (by decide +kernel)
    (by decide +kernel) (by decide)
  obtain ⟨f, hf, hsum⟩ := hsums true
  obtain ⟨g, hg, hproduct⟩ := hproducts
  refine ⟨⟨f, hf, ?_⟩, ⟨g, hg, ?_⟩⟩
  · rw [hsum _ Kernel.additive_integers]
    decide +kernel
  · rw [hproduct _ (Kernel.multiplicative_kernel _)]
    decide +kernel

end Parse

end CurveFormula
