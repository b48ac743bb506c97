import CurveFormula.Binding

/-!
# Parameter values

Names with values, in the order the names were first given. A later value of a name replaces the
earlier one and keeps its place. Names need not be letters: a formula looks up its letters, and the
other names do not matter to it.
-/

namespace CurveFormula

universe u v

/-- Names with values, every name once. -/
structure Params (α : Type u) where
  entries : List (Text × α)
  nodup : (entries.map Prod.fst).Nodup

namespace Params

variable {α : Type u} {β : Type v}

/-- Sets the value of a name in its place, or at the end if the name is new. -/
def put (name : Text) (value : α) : List (Text × α) → List (Text × α)
  | [] => [(name, value)]
  | e :: rest => if e.1 = name then (name, value) :: rest else e :: put name value rest

theorem map_fst_put (name : Text) (value : α) (l : List (Text × α)) :
    (put name value l).map Prod.fst =
      if name ∈ l.map Prod.fst then l.map Prod.fst else l.map Prod.fst ++ [name] := by
  induction l with
  | nil => simp [put]
  | cons e rest ih =>
    by_cases h : e.1 = name
    · simp [put, h]
    · have h' : name ≠ e.1 := fun k => h k.symm
      simp only [put, h, if_false, List.map_cons, ih, List.mem_cons, h', false_or]
      split <;> rfl

theorem nodup_put (name : Text) (value : α) {l : List (Text × α)}
    (h : (l.map Prod.fst).Nodup) : ((put name value l).map Prod.fst).Nodup := by
  rw [map_fst_put]
  split
  · exact h
  · rename_i hn
    rw [List.nodup_append]
    refine ⟨h, by simp, ?_⟩
    intro a ha b hb
    rw [List.mem_singleton] at hb
    rintro rfl
    exact hn (hb ▸ ha)

/-- No names. -/
def empty : Params α :=
  ⟨[], List.nodup_nil⟩

/-- The values with one of them set. -/
def withValue (p : Params α) (name : Text) (value : α) : Params α :=
  ⟨put name value p.entries, nodup_put name value p.nodup⟩

/-- The names with their last values, in the order of their first occurrences. -/
def ofPairs (pairs : List (Text × α)) : Params α :=
  pairs.foldl (fun p e => p.withValue e.1 e.2) empty

/-- Sets the value of a name to a given one, unless this does not convert. -/
def withGiven {ε : Type} (f : β → Except ε α) (p : Params α) (name : Text) (given : β) :
    Except ε (Params α) :=
  (f given).map (p.withValue name)

/-- The names with their last given values, every one converted, unless one of them fails. -/
def ofGiven {ε : Type} (f : β → Except ε α) (pairs : List (Text × β)) : Except ε (Params α) := do
  let pairs ← pairs.mapM fun e => (f e.2).map fun v => (e.1, v)
  return ofPairs pairs

/-- The names in order. -/
def names (p : Params α) : List Text :=
  p.entries.map Prod.fst

/-- The values in the order of the names. -/
def values (p : Params α) : List α :=
  p.entries.map Prod.snd

/-- The number of names. -/
def size (p : Params α) : Nat :=
  p.entries.length

/-- The value of a name, if it has one. -/
def get? (p : Params α) (name : Text) : Option α :=
  p.entries.lookup name

/-- The value of a name. -/
def get (p : Params α) (name : Text) : Except Unbound α :=
  match p.get? name with
  | some v => .ok v
  | none => .error ⟨name⟩

/-- The name has a value. -/
def contains (p : Params α) (name : Text) : Bool :=
  (p.get? name).isSome

/-- The values as seen by a formula. -/
def binding (p : Params α) : Binding α :=
  fun q => p.get? q.text

/-- The same names with their values agree, whatever the order. -/
def equals (agree : α → α → Bool) (p q : Params α) : Bool :=
  p.size = q.size && p.entries.all fun e => (q.get? e.1).any (agree e.2)

/-- The text of the names with their written values. -/
def text (write : α → Text) (p : Params α) : Text :=
  "Params(".toList ++
    Text.join [',', ' '] (p.entries.map fun e => e.1 ++ '=' :: write e.2) ++ [')']

/-- Converts every value, in order, unless one of them fails. -/
def convert {ε : Type} (f : α → Except ε β) (p : Params α) : Except ε (Params β) := do
  let pairs ← p.entries.mapM fun e => (f e.2).map fun v => (e.1, v)
  return ofPairs pairs

theorem lookup_put (name n : Text) (value : α) (l : List (Text × α)) :
    (put name value l).lookup n = if n = name then some value else l.lookup n := by
  induction l with
  | nil =>
    by_cases h : n = name
    · simp [put, h]
    · simp [put, List.lookup_cons, h, beq_eq_false_iff_ne.2 h]
  | cons e rest ih =>
    obtain ⟨k, w⟩ := e
    by_cases hk : k = name
    · subst hk
      by_cases h : n = k
      · simp [put, h]
      · simp [put, List.lookup_cons, h, beq_eq_false_iff_ne.2 h]
    · by_cases h : n = k
      · subst h
        simp [put, hk]
      · simp [put, hk, List.lookup_cons, beq_eq_false_iff_ne.2 h, ih]

theorem get?_withValue (p : Params α) (name n : Text) (value : α) :
    (p.withValue name value).get? n = if n = name then some value else p.get? n :=
  lookup_put name n value p.entries

@[simp] theorem entries_empty : (empty : Params α).entries = [] := rfl

@[simp] theorem entries_withValue (p : Params α) (name : Text) (value : α) :
    (p.withValue name value).entries = put name value p.entries := rfl

theorem ext_entries {p q : Params α} (h : p.entries = q.entries) : p = q := by
  cases p
  cases q
  cases h
  rfl

theorem names_withValue (p : Params α) (name : Text) (value : α) :
    (p.withValue name value).names = if name ∈ p.names then p.names else p.names ++ [name] :=
  map_fst_put name value p.entries

/-- A new name comes last. -/
theorem put_of_not_mem {name : Text} (value : α) {l : List (Text × α)}
    (h : name ∉ l.map Prod.fst) : put name value l = l ++ [(name, value)] := by
  induction l with
  | nil => rfl
  | cons e rest ih =>
    rw [List.map_cons, List.mem_cons, not_or] at h
    rw [put, if_neg (Ne.symm h.1), ih h.2]
    rfl

/-- The value of a name is that of its one entry. -/
theorem get?_eq_some_iff {p : Params α} {name : Text} {v : α} :
    p.get? name = some v ↔ (name, v) ∈ p.entries := by
  obtain ⟨l, hl⟩ := p
  show l.lookup name = some v ↔ (name, v) ∈ l
  induction l with
  | nil => simp
  | cons e rest ih =>
    obtain ⟨k, w⟩ := e
    rw [List.map_cons, List.nodup_cons] at hl
    by_cases h : name = k
    · subst h
      have hrest : (name, v) ∉ rest := fun hm => hl.1 (List.mem_map.2 ⟨_, hm, rfl⟩)
      simp [hrest, eq_comm]
    · simp [List.lookup_cons, beq_eq_false_iff_ne.2 h, h, ih hl.2]

theorem contains_iff {p : Params α} {name : Text} : p.contains name = true ↔ name ∈ p.names := by
  simp only [contains, get?, names, List.lookup_isSome_iff, List.mem_map, beq_iff_eq]
  exact exists_congr fun e => and_congr_right fun _ => eq_comm

/-- A name of the values has a value. -/
theorem exists_get? {p : Params α} {name : Text} (h : name ∈ p.names) : ∃ v, p.get? name = some v :=
  Option.isSome_iff_exists.1 (contains_iff.2 h)

theorem get?_eq_none_iff {p : Params α} {name : Text} : p.get? name = none ↔ name ∉ p.names := by
  rw [← contains_iff, contains, Bool.not_eq_true, Option.isSome_eq_false_iff,
    Option.isNone_iff_eq_none]

theorem get_of_get?_eq_some {p : Params α} {name : Text} {v : α} (h : p.get? name = some v) :
    p.get name = .ok v := by
  rw [get, h]

theorem get_of_get?_eq_none {p : Params α} {name : Text} (h : p.get? name = none) :
    p.get name = .error ⟨name⟩ := by
  rw [get, h]

/-- The distinct names in the order of their first occurrences, with one name more. -/
theorem eraseDups_concat (names : List Text) (name : Text) :
    (names ++ [name]).eraseDups =
      if name ∈ names then names.eraseDups else names.eraseDups ++ [name] := by
  rw [List.eraseDups_append]
  split <;> rename_i h <;> simp [List.removeAll, h, List.eraseDups_cons]

@[simp] theorem binding_apply (p : Params α) (q : Letter) : p.binding q = p.get? q.text := rfl

end Params

end CurveFormula
