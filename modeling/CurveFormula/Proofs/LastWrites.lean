import CurveFormula.Binary64.Convert
import CurveFormula.Params
import Mathlib.Data.List.Forall2
import Mathlib.Data.List.Induction

/-!
# The last value of a name counts

Values keep the order in which their names were first given, and every name has the value that it
was given last (`Params.names_ofPairs`, `Params.get?_withAll`). It does not matter whether given
values are converted before they are put together, one after the other while they are, or only
those that are left (`Params.mapM_of_converts`, `Params.foldlM_of_converts`,
`Params.convert_of_converts`).

Setting a value makes a new version and leaves the old ones as they are. A version is the first one
with what was set on its own line, whatever was set in versions beside it
(`Params.revisions_eq`).
-/

namespace CurveFormula.Params

universe u v

variable {α : Type u} {β : Type v}

/-! ### Setting several values -/

/-- The values with several of them set, one after the other. -/
def withAll (p : Params α) (sets : List (Text × α)) : Params α :=
  sets.foldl (fun p e => p.withValue e.1 e.2) p

theorem withAll_concat (p : Params α) (sets : List (Text × α)) (e : Text × α) :
    p.withAll (sets ++ [e]) = (p.withAll sets).withValue e.1 e.2 :=
  List.foldl_append

/-- **The last value that was set counts.** -/
theorem get?_withAll (p : Params α) (sets : List (Text × α)) (name : Text) :
    (p.withAll sets).get? name = (sets.reverse.lookup name).or (p.get? name) := by
  induction sets using List.reverseRecOn with
  | nil => rfl
  | append_singleton sets e ih =>
    obtain ⟨k, w⟩ := e
    rw [withAll_concat, get?_withValue, ih, List.reverse_concat, List.lookup_cons]
    by_cases h : name = k
    · simp [h]
    · simp [h, beq_eq_false_iff_ne.2 h]

/-- **The names keep the order of their first occurrences.** -/
theorem names_ofPairs (pairs : List (Text × α)) :
    (ofPairs pairs).names = (pairs.map Prod.fst).eraseDups := by
  induction pairs using List.reverseRecOn with
  | nil => rfl
  | append_singleton pairs e ih =>
    have hstep : ofPairs (pairs ++ [e]) = (ofPairs pairs).withValue e.1 e.2 :=
      withAll_concat empty pairs e
    rw [hstep, names_withValue, ih, List.map_append, List.map_singleton, eraseDups_concat]
    simp only [List.mem_eraseDups]

/-- Values are made of their own entries. -/
theorem ofPairs_entries (p : Params α) : ofPairs p.entries = p := by
  obtain ⟨l, hl⟩ := p
  apply ext_entries
  show (ofPairs l).entries = l
  induction l using List.reverseRecOn with
  | nil => rfl
  | append_singleton l e ih =>
    rw [List.map_append, List.map_singleton, List.nodup_append] at hl
    obtain ⟨hnodup, -, hnew⟩ := hl
    have hmem : e.1 ∉ l.map Prod.fst := fun h => hnew _ h _ (by simp) rfl
    have hstep : ofPairs (l ++ [e]) = (ofPairs l).withValue e.1 e.2 := withAll_concat empty l e
    rw [hstep, entries_withValue, ih hnodup, put_of_not_mem _ hmem]

theorem get_withValue (p : Params α) (name n : Text) (value : α) :
    (p.withValue name value).get n = if n = name then .ok value else p.get n := by
  unfold get
  rw [get?_withValue]
  split_ifs <;> rfl

/-- The values in their order are those of the names in their order. -/
theorem map_get_names (p : Params α) : p.names.map p.get = p.values.map .ok := by
  rw [names, values, List.map_map, List.map_map]
  apply List.map_congr_left
  intro e he
  exact get_of_get?_eq_some (get?_eq_some_iff.2 he)

/-! ### Given values -/

section Given

variable {ε : Type} {f : α → Except ε β}

/-- A given value with its name, and the value it converts to. -/
def Converts (f : α → Except ε β) (e : Text × α) (d : Text × β) : Prop :=
  d.1 = e.1 ∧ f e.2 = .ok d.2

theorem exists_converts {l : List (Text × α)} (h : ∀ e ∈ l, ∃ v, f e.2 = .ok v) :
    ∃ m, List.Forall₂ (Converts f) l m := by
  induction l with
  | nil => exact ⟨[], .nil⟩
  | cons e l ih =>
    obtain ⟨he, hl⟩ := List.forall_mem_cons.1 h
    obtain ⟨v, hv⟩ := he
    obtain ⟨m, hm⟩ := ih hl
    exact ⟨(e.1, v) :: m, .cons ⟨rfl, hv⟩ hm⟩

variable {l : List (Text × α)} {m : List (Text × β)}

theorem names_of_converts (h : List.Forall₂ (Converts f) l m) :
    m.map Prod.fst = l.map Prod.fst := by
  induction h with
  | nil => rfl
  | cons he _ ih => rw [List.map_cons, List.map_cons, he.1, ih]

theorem lookup_of_converts (h : List.Forall₂ (Converts f) l m) {name : Text} {given : α}
    (hgiven : l.lookup name = some given) : ∃ v, f given = .ok v ∧ m.lookup name = some v := by
  induction h with
  | nil => cases hgiven
  | @cons e d l m he _ ih =>
    obtain ⟨k, w⟩ := e
    obtain ⟨k', v⟩ := d
    obtain ⟨hk, hv⟩ : k' = k ∧ f w = .ok v := he
    subst hk
    rw [List.lookup_cons] at hgiven ⊢
    by_cases hname : name = k'
    · subst hname
      obtain rfl : w = given := by simpa using hgiven
      exact ⟨v, hv, by simp⟩
    · simp only [beq_eq_false_iff_ne.2 hname] at hgiven ⊢
      exact ih hgiven

theorem mapM_of_converts (h : List.Forall₂ (Converts f) l m) :
    (l.mapM fun e => (f e.2).map fun v => (e.1, v)) = .ok m := by
  induction h with
  | nil => rfl
  | @cons e d l m he _ ih =>
    obtain ⟨k, v⟩ := d
    obtain ⟨rfl, hv⟩ : k = e.1 ∧ f e.2 = .ok v := he
    rw [List.mapM_cons, ih, hv]
    rfl

theorem foldlM_of_converts (h : List.Forall₂ (Converts f) l m) (p : Params β) :
    l.foldlM (fun p e => p.withGiven f e.1 e.2) p = .ok (p.withAll m) := by
  induction h generalizing p with
  | nil => rfl
  | @cons e d l m he _ ih =>
    obtain ⟨k, v⟩ := d
    obtain ⟨rfl, hv⟩ : k = e.1 ∧ f e.2 = .ok v := he
    have hstep : p.withGiven f e.1 e.2 = .ok (p.withValue e.1 v) := by
      rw [withGiven, hv]
      rfl
    rw [List.foldlM_cons, hstep]
    exact ih (p.withValue e.1 v)

theorem ofGiven_of_converts (h : List.Forall₂ (Converts f) l m) :
    ofGiven f l = .ok (ofPairs m) := by
  rw [ofGiven, mapM_of_converts h]
  rfl

theorem converts_put (h : List.Forall₂ (Converts f) l m) {given : α} {value : β}
    (hv : f given = .ok value) (name : Text) :
    List.Forall₂ (Converts f) (put name given l) (put name value m) := by
  induction h with
  | nil => exact .cons ⟨rfl, hv⟩ .nil
  | @cons e d l m he hl ih =>
    unfold put
    rw [he.1]
    split_ifs
    · exact .cons ⟨rfl, hv⟩ hl
    · exact .cons he ih

theorem converts_withAll {p : Params α} {q : Params β}
    (hp : List.Forall₂ (Converts f) p.entries q.entries) (h : List.Forall₂ (Converts f) l m) :
    List.Forall₂ (Converts f) (p.withAll l).entries (q.withAll m).entries := by
  induction h generalizing p q with
  | nil => exact hp
  | @cons e d l m he _ ih =>
    refine ih ?_
    rw [entries_withValue, entries_withValue, he.1]
    exact converts_put hp he.2 e.1

/-- Converting what is left of given values comes to the same. -/
theorem convert_of_converts {p : Params α} {q : Params β}
    (h : List.Forall₂ (Converts f) p.entries q.entries) : p.convert f = .ok q := by
  rw [convert, mapM_of_converts h]
  exact congrArg Except.ok (ofPairs_entries q)

end Given

/-- The value behind which a name does not occur again is found first from the end. -/
theorem lookup_reverse_of_last {name : Text} {behind : List (Text × α)}
    (h : name ∉ behind.map Prod.fst) (before : List (Text × α)) (value : α) :
    (before ++ (name, value) :: behind).reverse.lookup name = some value := by
  have hbehind : behind.reverse.lookup name = none := by
    rw [List.lookup_eq_none_iff]
    intro e he
    rw [bne_iff_ne]
    rintro rfl
    exact h (List.mem_map_of_mem (List.mem_reverse.1 he))
  rw [List.reverse_append, List.reverse_cons, List.append_assoc, List.lookup_append, hbehind,
    Option.none_or]
  simp

/-! ### Versions -/

/-- A value set in one of several versions, the one at the index `base`. -/
structure Revision (α : Type u) where
  base : ℕ
  name : Text
  value : α

/-- A list with one entry more, made from the one at an index, if there is one. -/
def fork {γ : Type u} (g : γ → γ) (base : ℕ) (l : List γ) : List γ :=
  l ++ (l[base]?.map g).toList

/-- The versions with the one that a revision makes. -/
def revise (versions : List (Params α)) (r : Revision α) : List (Params α) :=
  fork (fun p => p.withValue r.name r.value) r.base versions

/-- What was set on the way to each version, with the one that a revision makes. -/
def prolong (lines : List (List (Text × α))) (r : Revision α) : List (List (Text × α)) :=
  fork (fun sets => sets ++ [(r.name, r.value)]) r.base lines

theorem map_fork {γ : Type u} {δ : Type v} {f : γ → δ} {g : γ → γ} {k : δ → δ}
    (h : ∀ x, f (g x) = k (f x)) (base : ℕ) (l : List γ) :
    (fork g base l).map f = fork k base (l.map f) := by
  unfold fork
  rw [List.map_append, List.getElem?_map]
  cases l[base]? <;> simp [h]

/-- **A revision leaves all versions as they are.** -/
theorem prefix_revisions (versions : List (Params α)) (rs : List (Revision α)) :
    versions <+: rs.foldl revise versions := by
  induction rs generalizing versions with
  | nil => exact List.prefix_rfl
  | cons r rs ih => exact (List.prefix_append versions _).trans (ih (revise versions r))

/-- **A version has what was set on its own line.** -/
theorem revisions_eq (p : Params α) (lines : List (List (Text × α))) (rs : List (Revision α)) :
    rs.foldl revise (lines.map p.withAll) = (rs.foldl prolong lines).map p.withAll := by
  induction rs generalizing lines with
  | nil => rfl
  | cons r rs ih =>
    have hstep : revise (lines.map p.withAll) r = (prolong lines r).map p.withAll :=
      (map_fork (fun sets => withAll_concat p sets _) r.base lines).symm
    rw [List.foldl_cons, List.foldl_cons, hstep, ih]

/-! ### The laws together -/

/-- What values given pair by pair come to. -/
structure Collects {ε : Type} (f : α → Except ε β) (pairs : List (Text × α)) (p : Params β) :
    Prop where
  read : ofGiven f pairs = .ok p
  /-- Setting one value after the other comes to the same. -/
  stepwise : pairs.foldlM (fun p e => p.withGiven f e.1 e.2) empty = .ok p
  /-- So does converting only the values that a table of the pairs keeps. -/
  table : (ofPairs pairs).convert f = .ok p
  names : p.names = (pairs.map Prod.fst).eraseDups
  last : ∀ before name given behind, pairs = before ++ (name, given) :: behind →
    name ∉ behind.map Prod.fst → ∃ v, f given = .ok v ∧ p.get name = .ok v
  missing : ∀ name, name ∉ pairs.map Prod.fst → p.get name = .error ⟨name⟩

theorem exists_collects {ε : Type} {f : α → Except ε β} {pairs : List (Text × α)}
    (h : ∀ e ∈ pairs, ∃ v, f e.2 = .ok v) : ∃ p, Collects f pairs p := by
  obtain ⟨m, hm⟩ := exists_converts h
  have hnames : (ofPairs m).names = (pairs.map Prod.fst).eraseDups := by
    rw [names_ofPairs, names_of_converts hm]
  refine ⟨ofPairs m, ofGiven_of_converts hm, foldlM_of_converts hm empty,
    convert_of_converts (converts_withAll .nil hm), hnames, ?_, ?_⟩
  · intro before name given behind hpairs hlast
    have hgiven : pairs.reverse.lookup name = some given :=
      hpairs ▸ lookup_reverse_of_last hlast before given
    obtain ⟨v, hv, hlookup⟩ := lookup_of_converts (List.forall₂_reverse_iff.2 hm) hgiven
    refine ⟨v, hv, get_of_get?_eq_some ?_⟩
    have hget : (ofPairs m).get? name = (m.reverse.lookup name).or none := get?_withAll empty m name
    rw [hget, hlookup, Option.some_or]
  · intro name hname
    refine get_of_get?_eq_none (get?_eq_none_iff.2 ?_)
    rwa [hnames, List.mem_eraseDups]

/-- The order of two sets of distinct names matters at most for the order of the names. -/
theorem withValue_comm (p : Params α) {n m : Text} (hnm : n ≠ m) (v w : α) :
    (∀ name, ((p.withValue n v).withValue m w).get name =
        ((p.withValue m w).withValue n v).get name) ∧
      (((p.withValue n v).withValue m w).names = ((p.withValue m w).withValue n v).names ↔
        n ∈ p.names ∨ m ∈ p.names) := by
  constructor
  · intro name
    simp only [get_withValue]
    split_ifs with hm hn
    · exact absurd (hn.symm.trans hm) hnm
    · rfl
    · rfl
    · rfl
  · simp only [names_withValue]
    by_cases hn : n ∈ p.names <;> by_cases hm : m ∈ p.names <;>
      simp [hn, hm, hnm, hnm.symm]

/-- **Values keep the order of their names, and the last one of every name counts.** Pairs whose
values convert are collected (`Collects`), the values stand in the order of their names, and setting
a value changes no version that there was. What it makes has what was set on the way to it, differs
from the version it was made from in one name, which comes last if it is new, and is what its
entries read as. Two names can be set in either order. -/
theorem last_write_wins {ε : Type} {f : α → Except ε β} {pairs : List (Text × α)}
    (h : ∀ e ∈ pairs, ∃ v, f e.2 = .ok v) :
    (∃ p, Collects f pairs p) ∧
      (∀ p : Params β, p.names.map p.get = p.values.map .ok) ∧
      (∀ (p : Params β) (earlier later : List (Revision β)),
        earlier.foldl revise [p] <+: (earlier ++ later).foldl revise [p] ∧
          earlier.foldl revise [p] = (earlier.foldl prolong [[]]).map p.withAll) ∧
      (∀ (p : Params β) name value,
        (∀ n, (p.withValue name value).get n = if n = name then .ok value else p.get n) ∧
          (p.withValue name value).names =
            (if name ∈ p.names then p.names else p.names ++ [name]) ∧
          p.withValue name value = ofPairs (put name value p.entries)) ∧
      ∀ (p : Params β) n m v w, n ≠ m →
        (∀ name, ((p.withValue n v).withValue m w).get name =
            ((p.withValue m w).withValue n v).get name) ∧
          (((p.withValue n v).withValue m w).names = ((p.withValue m w).withValue n v).names ↔
            n ∈ p.names ∨ m ∈ p.names) := by
  refine ⟨exists_collects h, map_get_names, fun p earlier later => ⟨?_, ?_⟩,
    fun p name value => ⟨fun n => get_withValue p name n value, names_withValue p name value, ?_⟩,
    fun p n m v w hnm => withValue_comm p hnm v w⟩
  · rw [List.foldl_append]
    exact prefix_revisions _ later
  · exact revisions_eq p [[]] earlier
  · rw [← entries_withValue, ofPairs_entries]

/-- A name given twice keeps its place and has its second value. -/
theorem last_write_wins_binary64 :
    let pairs : List (Text × Binary64.Given) :=
      [(['b'], .integer 1), (['a'], .text ".5".toList), (['b'], .text "-2e3".toList)]
    (∀ e ∈ pairs, ∃ v, Binary64.convert e.2 = .ok v) ∧
      ∃ p, Collects Binary64.convert pairs p ∧ p.names = [['b'], ['a']] ∧
        ∃ v, Binary64.convert (.text "-2e3".toList) = .ok v ∧ p.get ['b'] = .ok v := by
  intro pairs
  have h : ∀ e ∈ pairs, ∃ v, Binary64.convert e.2 = .ok v := by
    intro e he
    simp only [pairs, List.mem_cons, List.not_mem_nil, or_false] at he
    rcases he with rfl | rfl | rfl <;> exact ⟨_, rfl⟩
  obtain ⟨p, hp⟩ := (last_write_wins h).1
  exact ⟨h, p, hp, hp.names,
    hp.last [(['b'], .integer 1), (['a'], .text ".5".toList)] _ _ [] rfl (by simp)⟩

end CurveFormula.Params
