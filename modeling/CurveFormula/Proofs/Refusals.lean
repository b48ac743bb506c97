import CurveFormula.Log.Report
import CurveFormula.Proofs.Canon
import CurveFormula.Proofs.Reading
import CurveFormula.Proofs.Whole

/-!
# Refused texts

A text that does not read has a piece that is refused, and the fault holds the piece and the reason.
The fault stands on its own: its piece is cut no further, so it is refused for the same reason when
it is read alone, and it is the last text that reading looks at (`parse_error_eq`).

`Refused` says what a refused piece looks like for each reason, and `refused_of_cut` is the
inversion of a cut that refuses. The way to the piece goes from a text to one of the parts of its
cut (`exists_part_of_error`), each of them a piece of the text (`infix_of_mem_parts`).
-/

namespace CurveFormula.Parse

universe u

variable {α : Type u} {N : Numerals α}

/-! ### The refused pieces -/

/-- What a text looks like that is refused for a reason. -/
inductive Refused (N : Numerals α) : Text → Reason → Prop where
  | empty : Refused N [] .empty
  | literal {s : Text} (hs : Bare s) (h : ∀ e, ¬Leaf N s e) : Refused N s .literal
  | unbalanced {s : Text} (h : s.count '(' ≠ s.count ')') : Refused N s (.brackets .unbalanced)
  | closedFirst {s t : Text} (h : s.count '(' = s.count ')') (ht : t <+: s)
      (hlt : t.count '(' < t.count ')') : Refused N s (.brackets .closedFirst)
  /-- Brackets pair up, but none of them encloses the text and no operator is outside of them. -/
  | expression {s : Text} (hs : Balanced s) (hopen : '(' ∈ s)
      (hwrap : ∀ t, Balanced t → s ≠ '(' :: (t ++ [')'])) (hc : ∀ op : BinaryOp, Clear op.sign s) :
      Refused N s .expression

/-- **The inversion of a cut that refuses.** -/
theorem refused_of_cut {s : Text} {r : Reason} (h : cut N s = .refused r) : Refused N s r := by
  rcases cut_cases N s with hbefore | ⟨hs, ⟨op, -, t, -, hcut⟩ | hcut⟩
  · rw [h] at hbefore
    cases hbefore with
    | empty => exact .empty
    | literal hs hl => exact .literal hs hl
    | @brackets _ f hf =>
      cases f with
      | unbalanced => exact .unbalanced ((bracketFault?_eq_unbalanced_iff s).1 hf)
      | closedFirst =>
        obtain ⟨hcount, t, ht, hlt⟩ := (bracketFault?_eq_closedFirst_iff s).1 hf
        exact .closedFirst hcount ht hlt
    | operator _ hcut => cases hcut
  · rw [h] at hcut
    cases hcut
  · rw [h] at hcut
    cases hcut
    refine .expression hs.balanced hs.bracket ?_ fun op => hs.clear _ (sign_mem_excluded op)
    rintro t ht rfl
    have hwrap := hs.not_wrapped
    rw [isWrapped_wrap ht] at hwrap
    cases hwrap

/-! ### The way to the refused piece -/

/-- The texts that reading goes on with. -/
def Cut.parts : Cut α → List Text
  | .refused _ => []
  | .leaf _ => []
  | .bracketed t => [t]
  | .unary _ t => [t]
  | .binary _ l r => [l, r]

theorem OperatorCut.infix_of_mem_parts {s t : Text} {c : Cut α} (h : OperatorCut s c)
    (ht : t ∈ c.parts) : t <:+: s := by
  cases h with
  | @first op l r _ _ _ _ =>
    rcases List.mem_pair.1 ht with rfl | rfl
    · exact (List.prefix_append _ _).isInfix
    · exact ⟨l ++ [op.sign], [], by simp⟩
  | @last l r _ _ _ _ =>
    rcases List.mem_pair.1 ht with rfl | rfl
    · exact (List.prefix_append _ _).isInfix
    · exact ⟨l ++ ['-'], [], by simp⟩
  | lead _ _ =>
    rw [List.mem_singleton.1 ht]
    exact (List.suffix_cons _ _).isInfix

theorem cutting_of_mem_parts {s t : Text} (h : t ∈ (cut N s).parts) : Cutting N s (cut N s) := by
  refine cutting_of_cut rfl fun r hr => ?_
  rw [hr] at h
  cases h

/-- **The parts of a cut are pieces of the text.** -/
theorem infix_of_mem_parts {s t : Text} (h : t ∈ (cut N s).parts) : t <:+: s := by
  have hcut := cutting_of_mem_parts h
  generalize cut N s = c at h hcut
  cases hcut with
  | leaf _ _ => cases h
  | bracketed u =>
    rw [List.mem_singleton.1 h]
    exact ⟨['('], [')'], by simp⟩
  | @call op u _ _ _ =>
    rw [List.mem_singleton.1 h]
    exact ⟨op.name ++ ['('], [')'], by simp⟩
  | operator _ hcut => exact hcut.infix_of_mem_parts h

theorem length_lt_of_mem_parts {s t : Text} (h : t ∈ (cut N s).parts) : t.length < s.length := by
  have hbelow := below_cut N s
  cases hc : cut N s with
  | refused _ | leaf _ => rw [hc] at h; cases h
  | bracketed u | unary _ u =>
    rw [hc] at h hbelow
    rw [List.mem_singleton.1 h]
    exact hbelow
  | binary _ l r =>
    rw [hc] at h hbelow
    rcases List.mem_pair.1 h with rfl | rfl
    · exact hbelow.1
    · exact hbelow.2

theorem pieces_ne_nil (s : Text) : pieces N s ≠ [] := by
  rw [pieces]
  exact List.cons_ne_nil _ _

/-- **Where reading fails, the text is refused, or reading fails at one of its parts**, and then
nothing is looked at behind what is looked at in that part. -/
theorem exists_part_of_error {s : Text} {fault : Fault} (h : read N s = .error fault) :
    cut N s = .refused fault.reason ∧ fault.text = s ∨
      ∃ t ∈ (cut N s).parts, read N t = .error fault ∧
        (pieces N s).getLast? = (pieces N t).getLast? := by
  have hlast (t : Text) : (s :: pieces N t).getLast? = (pieces N t).getLast? :=
    List.getLast?_cons_of_ne_nil (pieces_ne_nil t)
  cases hc : cut N s with
  | refused r =>
    rw [read_of_refused N hc] at h
    cases h
    exact Or.inl ⟨rfl, rfl⟩
  | leaf e =>
    rw [read_of_leaf N hc] at h
    cases h
  | bracketed t =>
    rw [read_of_bracketed N hc] at h
    exact Or.inr ⟨t, List.mem_singleton_self t, h, by rw [pieces_of_bracketed N hc, hlast]⟩
  | unary op t =>
    rw [read_of_unary N hc] at h
    refine Or.inr ⟨t, List.mem_singleton_self t, ?_, by rw [pieces_of_unary N hc, hlast]⟩
    cases ht : read N t with
    | ok e => rw [ht] at h; cases h
    | error f => rw [ht] at h; cases h; rfl
  | binary op l r =>
    have hpieces := pieces_of_binary N hc
    rw [read_eq, hc] at h
    cases hl : read N l with
    | error f =>
      simp only [Cut.read, hl] at h
      cases h
      rw [hl] at hpieces
      exact Or.inr ⟨l, by simp [Cut.parts], hl, by rw [hpieces, hlast]⟩
    | ok e =>
      simp only [hl] at hpieces
      refine Or.inr ⟨r, by simp [Cut.parts], ?_, ?_⟩
      · cases hr : read N r with
        | ok f => simp only [Cut.read, hl, hr] at h; cases h
        | error f => simp only [Cut.read, hl, hr] at h; cases h; rfl
      · rw [hpieces, ← List.cons_append, List.getLast?_append_of_ne_nil _ (pieces_ne_nil r)]

/-- The fault of a text that does not read: its piece is refused, and it is looked at last. -/
theorem read_error_cases {s : Text} {fault : Fault} (h : read N s = .error fault) :
    fault.text <:+: s ∧ cut N fault.text = .refused fault.reason ∧
      (pieces N s).getLast? = some fault.text := by
  -- on the length of the text, the parts of a cut being shorter
  induction hn : s.length using Nat.strong_induction_on generalizing s with
  | _ n ih =>
    subst hn
    rcases exists_part_of_error h with ⟨hcut, htext⟩ | ⟨t, ht, hread, hlast⟩
    · rw [htext]
      exact ⟨List.infix_rfl, hcut, by rw [pieces_of_refused N hcut]; rfl⟩
    · obtain ⟨hpiece, hcut, hpieces⟩ := ih _ (length_lt_of_mem_parts ht) hread rfl
      exact ⟨hpiece.trans (infix_of_mem_parts ht), hcut, hlast.trans hpieces⟩

/-! ### Pieces of normalized texts -/

theorem steady_of_mem_normalize {s : Text} {c : Char} (h : c ∈ normalize s) : steady c = true := by
  obtain ⟨d, hd, rfl⟩ := List.mem_map.1 h
  have hblank := (List.mem_filter.1 hd).2
  split_ifs with hopen hclose
  · rfl
  · rfl
  · simp only [Bool.or_eq_true, decide_eq_true_eq, not_or] at hopen hclose
    simp [steady, hblank, hopen, hclose]

theorem normalize_of_piece {s t : Text} (h : t <:+: normalize s) : normalize t = t :=
  normalize_of_steady fun _ hc => steady_of_mem_normalize (h.subset hc)

end CurveFormula.Parse

namespace CurveFormula.Log

/-! ### The lines of a verbose journal -/

/-- The text of the line that shows a text that reading looks at. -/
def readingLine (s : Text) : Text :=
  "DEBUG: parsing ".toList ++ Text.quoted s

namespace Journal

/-- A journal that shows everything on the console and writes no file. -/
def tracing : Journal :=
  fresh.configure ⟨.verbose, none⟩ true

theorem step_tracing (s : Text) :
    tracing.step fill? (readingCall s) = (tracing, [⟨.console, .debug, readingLine s⟩]) := by
  have htext : ((⟨"parsing %r".toList, [.text s]⟩ : Message Arg).after "DEBUG: ".toList).text?
      fill? = some ("DEBUG: parsing ".toList ++ (Text.quoted s ++ [])) := rfl
  rw [List.append_nil] at htext
  have hline : (Remark.debug ⟨"parsing %r".toList, [.text s]⟩).line? fill? =
      some ⟨.debug, readingLine s⟩ := by
    rw [Remark.line?, Remark.message, htext]
    rfl
  show (tracing, (Remark.debug ⟨"parsing %r".toList, [.text s]⟩).writtenTo fill? [.console]) = _
  rw [Remark.writtenTo, hline]
  rfl

/-- Every text that is looked at gives one line. -/
theorem run_tracing (texts : List Text) :
    tracing.run fill? (texts.map readingCall) =
      (tracing, texts.map fun s => ⟨.console, .debug, readingLine s⟩) := by
  induction texts with
  | nil => rfl
  | cons s texts ih => simp [run_cons, step_tracing, ih]

end Journal

end CurveFormula.Log

namespace CurveFormula.Parse

universe u

variable {α : Type u} {N : Numerals α}

/-- **A fault stands on its own.** Its text is a piece of the text that was read; read alone it
gives the same fault; it is the last text that is looked at, and the last line of a journal that
shows everything says so; and it looks as its reason says. -/
theorem parse_error_eq {s : Text} {fault : Fault} (h : Expr.parse N s = .error fault) :
    fault.text <:+: normalize s ∧ Expr.parse N fault.text = .error fault ∧
      (pieces N (normalize s)).getLast? = some fault.text ∧
      (Log.Journal.tracing.run Log.fill? (Log.readingCalls N s)).2.getLast? =
        some ⟨.console, .debug, Log.readingLine fault.text⟩ ∧
      Refused N fault.text fault.reason := by
  obtain ⟨hpiece, hcut, hlast⟩ := read_error_cases h
  refine ⟨hpiece, ?_, hlast, ?_, refused_of_cut hcut⟩
  · show read N (normalize fault.text) = .error fault
    rw [normalize_of_piece hpiece]
    exact read_of_refused N hcut
  · rw [Log.readingCalls, Log.Journal.run_tracing, List.getLast?_map, hlast]
    rfl

/-- Inside a function, a letter in front of brackets; the empty brackets behind it are not reached.
-/
theorem parse_error_eq_whole :
    Expr.parse Whole.numerals "2*x - sin[3 + y(z)] / ()".toList =
        .error ⟨"y(z)".toList, .expression⟩ ∧
      "y(z)".toList <:+: normalize "2*x - sin[3 + y(z)] / ()".toList ∧
      Expr.parse Whole.numerals "y(z)".toList = .error ⟨"y(z)".toList, .expression⟩ ∧
      (pieces Whole.numerals (normalize "2*x - sin[3 + y(z)] / ()".toList)).getLast? =
        some "y(z)".toList ∧
      (Log.Journal.tracing.run Log.fill?
          (Log.readingCalls Whole.numerals "2*x - sin[3 + y(z)] / ()".toList)).2.getLast? =
        some ⟨.console, .debug, Log.readingLine "y(z)".toList⟩ ∧
      Refused Whole.numerals "y(z)".toList .expression := by
  have h : Expr.parse Whole.numerals "2*x - sin[3 + y(z)] / ()".toList =
      .error ⟨"y(z)".toList, .expression⟩ := by decide +kernel
  exact ⟨h, parse_error_eq h⟩

end CurveFormula.Parse
