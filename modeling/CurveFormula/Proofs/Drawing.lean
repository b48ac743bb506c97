import CurveFormula.Params.Draw
import CurveFormula.Proofs.Recording
import CurveFormula.Random.Stream
import Mathlib.Data.List.Induction

/-!
# Drawn parameter values

A step of the draws either leaves the values as they are, because the name has one, or puts one
drawn value behind them. So the names come out in the order of their first occurrences, each once
(`names_draw`), and the draws are the values in the order of the names (`draw_recorded`).

The values lie where the source draws them (`forall_values_draw`). A stream draws them a part of the
way from the lower end to the upper one (`Stream.exists_between_eq`).
-/

namespace CurveFormula

universe u v

variable {α : Type u} {σ : Type v}

namespace Params

/-! ### Names and values -/

theorem names_withValue_of_not_mem {p : Params α} {name : Text} (value : α) (h : name ∉ p.names) :
    (p.withValue name value).names = p.names ++ [name] := by
  rw [names_withValue, if_neg h]

theorem values_withValue_of_not_mem {p : Params α} {name : Text} (value : α) (h : name ∉ p.names) :
    (p.withValue name value).values = p.values ++ [value] := by
  simp only [values, entries_withValue, put_of_not_mem value h, List.map_append, List.map_cons,
    List.map_nil]

/-! ### One draw -/

variable (S : Source α σ) (low high : α)

/-- A name that has a value makes no draw. -/
theorem drawOne_of_mem {p : Params α × σ} {name : Text} (h : name ∈ p.1.names) :
    drawOne S low high p name = p :=
  if_pos (contains_iff.2 h)

/-- A new name makes one draw. -/
theorem drawOne_of_not_mem {p : Params α × σ} {name : Text} (h : name ∉ p.1.names) :
    drawOne S low high p name =
      (p.1.withValue name (S.between low high p.2).1, (S.between low high p.2).2) :=
  if_neg (mt contains_iff.1 h)

theorem draw_concat (names : List Text) (name : Text) (s : σ) :
    draw S low high (names ++ [name]) s = drawOne S low high (draw S low high names s) name :=
  List.foldl_append

/-! ### All draws -/

/-- **The names are the distinct names, in the order of their first occurrences.** -/
theorem names_draw (names : List Text) (s : σ) :
    (draw S low high names s).1.names = names.eraseDups := by
  induction names using List.reverseRecOn with
  | nil => rfl
  | append_singleton names name ih =>
    rw [draw_concat, eraseDups_concat]
    split_ifs with h
    · have hmem : name ∈ (draw S low high names s).1.names := ih ▸ List.mem_eraseDups.2 h
      rw [drawOne_of_mem S low high hmem, ih]
    · have hmem : name ∉ (draw S low high names s).1.names := ih ▸ mt List.mem_eraseDups.1 h
      rw [drawOne_of_not_mem S low high hmem, names_withValue_of_not_mem _ hmem, ih]

/-- **Every value is drawn.** -/
theorem forall_values_draw {P : α → Prop} (hS : ∀ s, P (S.between low high s).1)
    (names : List Text) (s : σ) : ∀ v ∈ (draw S low high names s).1.values, P v := by
  induction names using List.reverseRecOn with
  | nil => exact fun v hv => absurd hv List.not_mem_nil
  | append_singleton names name ih =>
    rw [draw_concat]
    by_cases h : name ∈ (draw S low high names s).1.names
    · rwa [drawOne_of_mem S low high h]
    · rw [drawOne_of_not_mem S low high h, values_withValue_of_not_mem _ h]
      exact List.forall_mem_append.2 ⟨ih, List.forall_mem_singleton.2 (hS _)⟩

/-- **The draws are the values, one for each name.** -/
theorem draw_recorded (names : List Text) (s : σ) (log : List (Draw α)) :
    draw S.recorded low high names (s, log) =
      let p := draw S low high names s
      (p.1, p.2, log ++ p.1.values.map .value) := by
  induction names using List.reverseRecOn with
  | nil => simp [values]
  | append_singleton names name ih =>
    rw [draw_concat, draw_concat, ih]
    by_cases h : name ∈ (draw S low high names s).1.names
    · rw [drawOne_of_mem S.recorded low high h, drawOne_of_mem S low high h]
    · rw [drawOne_of_not_mem S.recorded low high h, drawOne_of_not_mem S low high h]
      simp only [Source.between_recorded, values_withValue_of_not_mem _ h, List.map_append,
        List.map_cons, List.map_nil, List.append_assoc]

end Params

/-! ### Draws of a stream -/

/-- The high bits of two words make a number of so many bits. -/
theorem Twister.fraction_lt (t : Twister) : t.fraction.1 < Nat.pow 2 53 := by
  have ha := t.next.1.toNat_lt
  have hb := t.next.2.next.1.toNat_lt
  show t.next.1.toNat / 2 ^ 5 * 2 ^ 26 + t.next.2.next.1.toNat / 2 ^ 6 < 2 ^ 53
  omega

/-- **A stream draws a value a part of the way between the ends.** -/
theorem Stream.exists_between_eq (along : α → α → ℕ → ℕ → α) (low high : α) (s : Stream) :
    ∃ n d, n < d ∧ ((Stream.source along).between low high s).1 = along low high n d := by
  cases s with
  | script s => exact ⟨(s.next.1 % 1000).toNat, 1000, by omega, rfl⟩
  | twister t => exact ⟨t.fraction.1, _, t.fraction_lt, rfl⟩

end CurveFormula
