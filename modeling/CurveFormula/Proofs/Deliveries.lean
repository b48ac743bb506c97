import CurveFormula.Log.Journal
import Mathlib.Data.List.Induction
import Mathlib.Data.List.Nodup

/-!
# Lines are delivered once

Whatever is done to a journal, nothing is attached to it twice, so no line is written twice to one
sink (`Journal.nodup_written`). More can be said as long as files can be opened and no logger is
made by hand. What lines are delivered to is decided when the journal is configured, and how much is
shown may change afterwards. A journal that was made silent later keeps its console; one that was
configured silent has none until it shows something again. Either way the sinks are the file of the
last configuration, behind at most one console, and the console is there whenever something is shown
(`Journal.Attached`).

* A granted configuration attaches the sinks to the settings, whatever was there before
  (`Journal.attached_configure`), and no orderly call takes them apart (`Journal.Attached.step`).
* The level is the one that was asked for last, and the file the one of the last configuration
  (`Journal.current_run`).
* So a remark that the level admits goes to the console once and to that file once
  (`Journal.delivers_once`).
-/

namespace CurveFormula.Log

universe u

variable {A : Type u}

theorem Level.ne_silent_of_admits {level required : Level} (h : level.admits required = true)
    (hrequired : required ≠ .silent) : level ≠ .silent := by
  rintro rfl
  cases required with
  | silent => exact hrequired rfl
  | minimal | moderate | detailed | verbose => cases h

namespace Settings

theorem count_console_files (s : Settings) : s.files.count .console = 0 := by
  unfold files
  cases s.file <;> simp

theorem count_file_files (s : Settings) (path : Text) :
    s.files.count (.file path) = if s.file = some path then 1 else 0 := by
  unfold files
  cases s.file <;> simp [List.count_singleton]

theorem nodup_sinks (s : Settings) : (s.consoles ++ s.files).Nodup := by
  unfold consoles files
  cases s.file <;> split <;> simp

end Settings

namespace Call

/-- The remark that a call makes. -/
def remark? : Call A → Option (Remark A)
  | say r | sayThrough _ r => some r
  | configure _ _ | setLevel _ _ | separate _ _ | touch => none

/-- The settings of a configuration. -/
def settings? : Call A → Option Settings
  | configure s _ => some s
  | _ => none

/-- The level that a call asks for. -/
def level? : Call A → Option Level
  | configure s _ => some s.level
  | setLevel level _ => some level
  | _ => none

/-- The call goes to the journal itself, which has a logger of its own then. -/
def Own : Call A → Prop
  | separate _ _ | sayThrough _ _ => False
  | configure _ _ | setLevel _ _ | touch | say _ => True

/-- No logger is made beside the journal's own, and files can be opened. -/
def Orderly : Call A → Prop
  | configure s opens => s.Granted opens
  | setLevel _ opens => opens = true
  | separate _ _ => False
  | touch | say _ | sayThrough _ _ => True

instance : DecidablePred (Own (A := A))
  | separate _ _ | sayThrough _ _ => isFalse id
  | configure _ _ | setLevel _ _ | touch | say _ => isTrue trivial

end Call

/-- The file that the last configuration asked for, if any. -/
def lastFile (calls : List (Call A)) : Option Text :=
  (calls.filterMap Call.settings?).getLast?.bind Settings.file

/-- The level that was asked for last, and the standard one before any. -/
def lastLevel (calls : List (Call A)) : Level :=
  (calls.filterMap Call.level?).getLast?.getD Settings.standard.level

theorem lastFile_concat (calls : List (Call A)) (c : Call A) :
    lastFile (calls ++ [c]) = (c.settings?.map Settings.file).getD (lastFile calls) := by
  cases h : c.settings? <;> simp [lastFile, h]

theorem lastLevel_concat (calls : List (Call A)) (c : Call A) :
    lastLevel (calls ++ [c]) = c.level?.getD (lastLevel calls) := by
  cases h : c.level? <;> simp [lastLevel, h]

namespace Journal

variable {format : Formatter A}

/-! ### Runs -/

theorem run_append (j : Journal) (before behind : List (Call A)) :
    j.run format (before ++ behind) =
      (((j.run format before).1.run format behind).1,
        (j.run format before).2 ++ ((j.run format before).1.run format behind).2) := by
  induction before generalizing j with
  | nil => rfl
  | cons c before ih => rw [List.cons_append, run_cons, run_cons, ih, List.append_assoc]

theorem run_concat (j : Journal) (calls : List (Call A)) (c : Call A) :
    j.run format (calls ++ [c]) =
      (((j.run format calls).1.step format c).1,
        (j.run format calls).2 ++ ((j.run format calls).1.step format c).2) := by
  rw [run_append, run_cons, run_nil, List.append_nil]

/-- What every call of a kind keeps is kept by a run of such calls. -/
theorem run_keeps {P : Journal → Prop} {ok : Call A → Prop}
    (hstep : ∀ j c, P j → ok c → P (j.step format c).1) {j : Journal} (hj : P j)
    {calls : List (Call A)} (hcalls : ∀ c ∈ calls, ok c) : P (j.run format calls).1 := by
  induction calls generalizing j with
  | nil => exact hj
  | cons c calls ih =>
    rw [run_cons]
    exact ih (hstep j c hj (hcalls c List.mem_cons_self))
      fun d hd => hcalls d (List.mem_cons_of_mem c hd)

theorem step_sayThrough (j : Journal) (i : ℕ) (r : Remark A) :
    j.step format (.sayThrough i r) =
      (j, (j.others[i]?).elim [] fun s => j.write format s r) := by
  rw [step]
  cases j.others[i]? <;> rfl

/-- A call that makes no remark writes nothing. -/
theorem step_of_remark?_eq_none (j : Journal) {c : Call A} (h : c.remark? = none) :
    (j.step format c).2 = [] := by
  cases c with
  | say _ | sayThrough _ _ => cases h
  | configure _ _ | setLevel _ _ | separate _ _ | touch => rfl

/-! ### Nothing is attached twice -/

theorem nodup_attach (j : Journal) (s : Settings) (opens : Bool) :
    (j.attach s opens).sinks.Nodup := by
  cases opens with
  | true => exact s.nodup_sinks
  | false => exact s.nodup_sinks.sublist ((List.nil_sublist _).append_left _)

theorem nodup_configure (j : Journal) (s : Settings) (opens : Bool) :
    (j.configure s opens).sinks.Nodup := by
  have hattach := j.nodup_attach s opens
  unfold configure
  split <;> exact hattach

theorem nodup_withOther (j : Journal) (s : Settings) (opens : Bool) :
    (j.withOther s opens).sinks.Nodup := by
  have hattach := j.nodup_attach s opens
  unfold withOther
  split <;> exact hattach

theorem nodup_used {j : Journal} (h : j.sinks.Nodup) : j.used.sinks.Nodup := by
  unfold used
  split
  · exact h
  · exact nodup_configure _ _ _

theorem nodup_atLevel {j : Journal} (h : j.sinks.Nodup) (level : Level) (opens : Bool) :
    (j.atLevel level opens).sinks.Nodup := by
  unfold atLevel
  split
  · exact nodup_configure _ _ _
  · split
    · exact nodup_configure _ _ _
    · exact h

theorem nodup_step {j : Journal} (h : j.sinks.Nodup) (c : Call A) :
    (j.step format c).1.sinks.Nodup := by
  cases c with
  | configure s opens => exact nodup_configure _ _ _
  | setLevel level opens => exact nodup_atLevel h level opens
  | separate s opens => exact nodup_withOther _ _ _
  | touch | say _ => exact nodup_used h
  | sayThrough i r => rwa [step_sayThrough]

theorem nodup_run (calls : List (Call A)) : (fresh.run format calls).1.sinks.Nodup := by
  have hstep : ∀ (j : Journal) (c : Call A), j.sinks.Nodup → True →
      (j.step format c).1.sinks.Nodup := fun _ c h _ => nodup_step h c
  exact run_keeps hstep List.nodup_nil fun _ _ => trivial

theorem nodup_outlets {j : Journal} (h : j.sinks.Nodup) (severity : Severity) :
    (j.outlets severity).Nodup := by
  unfold outlets
  split
  · split <;> simp
  · exact h

theorem nodup_writtenTo {sinks : List Sink} (h : sinks.Nodup) (r : Remark A) :
    (r.writtenTo format sinks).Nodup := by
  unfold Remark.writtenTo
  split
  · exact List.Nodup.map (fun _ _ heq => (Delivery.mk.inj heq).1) h
  · exact List.nodup_nil

theorem nodup_write {j : Journal} (h : j.sinks.Nodup) (s : Settings) (r : Remark A) :
    (j.write format s r).Nodup := by
  unfold write
  split
  · exact nodup_writtenTo (nodup_outlets h r.severity) r
  · exact List.nodup_nil

/-- **No call writes a line twice to one sink**, whichever logger it goes through and whatever could
not be opened before. -/
theorem nodup_written (calls : List (Call A)) (c : Call A) :
    ∃ now, (fresh.run format (calls ++ [c])).2 = (fresh.run format calls).2 ++ now ∧ now.Nodup := by
  refine ⟨_, by rw [run_concat], ?_⟩
  have hsinks : (fresh.run format calls).1.sinks.Nodup := nodup_run calls
  cases c with
  | say r => exact nodup_write (nodup_used hsinks) _ r
  | sayThrough i r =>
    rw [step_sayThrough]
    cases (fresh.run format calls).1.others[i]? with
    | some s => exact nodup_write hsinks s r
    | none => exact List.nodup_nil
  | configure _ _ | setLevel _ _ | separate _ _ | touch => exact List.nodup_nil

/-! ### Settings -/

theorem configure_of_granted (j : Journal) {s : Settings} {opens : Bool} (h : s.Granted opens) :
    j.configure s opens = ⟨some s, j.others ++ j.settings.toList, s.consoles ++ s.files⟩ := by
  have hfiles : (if opens then s.files else []) = s.files := by
    rcases h with h | rfl
    · simp [Settings.files, h]
    · rfl
  rw [configure, if_pos h, attach, hfiles]

theorem settings_configure (j : Journal) {s : Settings} {opens : Bool} (h : s.Granted opens) :
    (j.configure s opens).settings = some s := by
  rw [configure_of_granted j h]

theorem settings_used (j : Journal) : j.used.settings = some j.current := by
  obtain ⟨_ | s, others, sinks⟩ := j <;> rfl

@[simp] theorem current_used (j : Journal) : j.used.current = j.current := by
  rw [current, settings_used, Option.getD_some]

theorem settings_atLevel (j : Journal) (level : Level) :
    (j.atLevel level true).settings = some ⟨level, j.current.file⟩ := by
  obtain ⟨_ | s, others, sinks⟩ := j
  · exact settings_configure _ (Or.inl rfl)
  · unfold atLevel
    dsimp only
    split
    · exact settings_configure _ (Or.inr rfl)
    · rfl

/-- An orderly call changes the level only if it asks for one, and the file only if it
configures. -/
theorem current_step (j : Journal) {c : Call A} (hc : c.Orderly) :
    (j.step format c).1.current =
      ⟨c.level?.getD j.current.level, (c.settings?.map Settings.file).getD j.current.file⟩ := by
  cases c with
  | configure s opens =>
    show (j.configure s opens).current = _
    rw [current, settings_configure j hc]
    rfl
  | setLevel level opens =>
    obtain rfl : opens = true := hc
    show (j.atLevel level true).current = _
    rw [current, settings_atLevel]
    rfl
  | separate s opens => exact hc.elim
  | touch | say _ => exact current_used j
  | sayThrough i r => rw [step_sayThrough]; rfl

/-- A call to the journal itself brings its settings into being. -/
theorem settings_step (j : Journal) {c : Call A} (hc : c.Orderly) (hown : c.Own) :
    (j.step format c).1.settings = some (j.step format c).1.current := by
  cases c with
  | configure s opens =>
    show (j.configure s opens).settings = some (j.configure s opens).current
    rw [current, settings_configure j hc, Option.getD_some]
  | setLevel level opens =>
    obtain rfl : opens = true := hc
    show (j.atLevel level true).settings = some (j.atLevel level true).current
    rw [current, settings_atLevel, Option.getD_some]
  | touch | say _ =>
    show j.used.settings = some j.used.current
    rw [settings_used, current_used]
  | separate _ _ | sayThrough _ _ => exact hown.elim

/-- Any other call leaves them alone. -/
theorem settings_step_of_not_own (j : Journal) {c : Call A} (hc : c.Orderly) (hown : ¬c.Own) :
    (j.step format c).1.settings = j.settings := by
  cases c with
  | separate s opens => exact hc.elim
  | sayThrough i r => rw [step_sayThrough]
  | configure _ _ | setLevel _ _ | touch | say _ => exact absurd trivial hown

section Orderly

variable {calls : List (Call A)}

/-- **The settings in effect are what was asked for last.** -/
theorem current_run (hcalls : ∀ c ∈ calls, c.Orderly) :
    (fresh.run format calls).1.current = ⟨lastLevel calls, lastFile calls⟩ := by
  induction calls using List.reverseRecOn with
  | nil => rfl
  | append_singleton calls c ih =>
    have hbefore := ih fun c hc => hcalls c (List.mem_append_left _ hc)
    rw [run_concat, current_step _ (hcalls c (by simp)), hbefore, lastLevel_concat, lastFile_concat]

/-- They are in being once the journal itself was called. -/
theorem settings_run (hcalls : ∀ c ∈ calls, c.Orderly) :
    (fresh.run format calls).1.settings =
      if ∃ c ∈ calls, c.Own then some (fresh.run format calls).1.current else none := by
  induction calls using List.reverseRecOn with
  | nil => simp [fresh]
  | append_singleton calls c ih =>
    have hbefore := ih fun c hc => hcalls c (List.mem_append_left _ hc)
    have hc : c.Orderly := hcalls c (by simp)
    rw [run_concat]
    by_cases hown : c.Own
    · rw [if_pos ⟨c, by simp, hown⟩, settings_step _ hc hown]
    · have hsame : ((fresh.run format calls).1.step format c).1.settings =
          (fresh.run format calls).1.settings := settings_step_of_not_own _ hc hown
      have hcurrent : ((fresh.run format calls).1.step format c).1.current =
          (fresh.run format calls).1.current := by rw [current, hsame, current]
      rw [hsame, hcurrent, hbefore]
      simp [hown]

end Orderly

/-! ### Sinks -/

/-- The sinks go with the settings: the file behind a console, or the file alone as long as nothing
is shown. -/
def Attached (j : Journal) : Prop :=
  j.sinks = .console :: j.current.files ∨
    (j.sinks = j.current.files ∧ ∀ s, j.settings = some s → s.level = .silent)

theorem attached_fresh : Attached fresh :=
  Or.inr ⟨rfl, fun _ h => by cases h⟩

/-- **A granted configuration attaches the sinks to the settings**, whatever was there before. -/
theorem attached_configure (j : Journal) {s : Settings} {opens : Bool} (h : s.Granted opens) :
    Attached (j.configure s opens) := by
  rw [configure_of_granted j h]
  by_cases hs : s.level = .silent
  · refine Or.inr ⟨?_, fun _ h => by cases h; exact hs⟩
    simp [Settings.consoles, current, hs]
  · refine Or.inl ?_
    simp [Settings.consoles, current, hs]

theorem Attached.used {j : Journal} (h : Attached j) : Attached j.used := by
  obtain ⟨_ | s, others, sinks⟩ := j
  · exact attached_configure _ (Or.inl rfl)
  · exact h

/-- A silent journal that is to show something is configured again; otherwise the sinks stay. -/
theorem Attached.atLevel {j : Journal} (h : Attached j) (level : Level) :
    Attached (j.atLevel level true) := by
  obtain ⟨_ | s, others, sinks⟩ := j
  · exact attached_configure _ (Or.inl rfl)
  · unfold Journal.atLevel
    dsimp only
    split_ifs with hleave
    · exact attached_configure _ (Or.inr rfl)
    · rcases h with h | ⟨h, hsilent⟩
      · exact Or.inl h
      · -- without a console the journal was silent, and it was not made to show anything
        refine Or.inr ⟨h, ?_⟩
        rintro _ ⟨rfl⟩
        by_contra hlevel
        exact hleave ⟨hsilent s rfl, hlevel⟩

/-- **No orderly call takes the sinks apart from the settings.** -/
theorem Attached.step {j : Journal} (h : Attached j) {c : Call A} (hc : c.Orderly) :
    Attached (j.step format c).1 := by
  cases c with
  | configure s opens => exact attached_configure j hc
  | setLevel level opens =>
    obtain rfl : opens = true := hc
    exact h.atLevel level
  | separate s opens => exact hc.elim
  | touch | say _ => exact h.used
  | sayThrough i r => rwa [step_sayThrough]

theorem Attached.run {j : Journal} (h : Attached j) {calls : List (Call A)}
    (hcalls : ∀ c ∈ calls, c.Orderly) : Attached (j.run format calls).1 :=
  run_keeps (fun _ _ h hc => h.step hc) h hcalls

/-- What could not be opened, and loggers made by hand, are made good by a configuration. -/
theorem attached_run_of_granted (before : List (Call A)) {s : Settings} {opens : Bool}
    (hs : s.Granted opens) {calls : List (Call A)} (hcalls : ∀ c ∈ calls, c.Orderly) :
    Attached (fresh.run format (before ++ .configure s opens :: calls)).1 := by
  rw [run_append, run_cons]
  exact (attached_configure _ hs).run hcalls

theorem Attached.sinks_of_shown {j : Journal} (h : Attached j) {s : Settings}
    (hs : j.settings = some s) (hshown : s.level ≠ .silent) :
    j.sinks = .console :: j.current.files := by
  rcases h with h | ⟨-, hsilent⟩
  · exact h
  · exact absurd (hsilent s hs) hshown

/-- What requires something to be shown goes to the console and the file, or nowhere. -/
theorem Attached.step_say {j : Journal} (h : Attached j) {r : Remark A}
    (hrequired : r.required ≠ .silent) :
    (j.step format (.say r)).2 =
      if j.current.level.admits r.required then
        r.writtenTo format (.console :: j.current.files)
      else [] := by
  show j.used.write format j.used.current r = _
  rw [write, r.passes_eq, current_used]
  split_ifs with hadmits
  · have hshown : j.current.level ≠ .silent := Level.ne_silent_of_admits hadmits hrequired
    have hsinks := h.used.sinks_of_shown (settings_used j) hshown
    rw [outlets, hsinks, current_used]
  · rfl

/-! ### Deliveries -/

/-- **Lines are delivered exactly once.** After any calls, as long as files can be opened and no
logger is made by hand, there is at most one console, exactly one if the journal shows something, and
the file of the last configuration is the only file. A remark that requires something to be shown is
written to the console and to this file, once each, if the level in effect shows what it requires;
otherwise it is written nowhere. A remark through a logger that was replaced goes by the level of
that logger to what is attached, and no other call writes anything. -/
theorem delivers_once (format : Formatter A) {calls : List (Call A)}
    (hcalls : ∀ c ∈ calls, c.Orderly) :
    let j := (fresh.run format calls).1
    (j.settings =
        if ∃ c ∈ calls, c.Own then some ⟨lastLevel calls, lastFile calls⟩ else none) ∧
      j.sinks.count .console ≤ 1 ∧
      (∀ s, j.settings = some s → s.level ≠ .silent → j.sinks.count .console = 1) ∧
      (∀ path, j.sinks.count (.file path) = if lastFile calls = some path then 1 else 0) ∧
      (∀ r : Remark A, r.required ≠ .silent →
        (fresh.run format (calls ++ [.say r])).2 = (fresh.run format calls).2 ++
          if (lastLevel calls).admits r.required then
            r.writtenTo format (.console :: (lastFile calls).toList.map .file)
          else []) ∧
      (∀ i s, j.others[i]? = some s → ∀ r : Remark A,
        (fresh.run format (calls ++ [.sayThrough i r])).2 = (fresh.run format calls).2 ++
          if s.level.admits r.required then r.writtenTo format (j.outlets r.severity) else []) ∧
      ∀ c : Call A, c.remark? = none →
        (fresh.run format (calls ++ [c])).2 = (fresh.run format calls).2 := by
  intro j
  have hattached : Attached j := attached_fresh.run hcalls
  have hcurrent : j.current = ⟨lastLevel calls, lastFile calls⟩ := current_run hcalls
  refine ⟨hcurrent ▸ settings_run hcalls, ?_, fun s hs hshown => ?_, fun path => ?_, fun r hrequired => ?_,
    fun i s hs r => ?_, fun c hc => ?_⟩
  · exact List.nodup_iff_count_le_one.1 (nodup_run calls) _
  · rw [hattached.sinks_of_shown hs hshown, List.count_cons_self, Settings.count_console_files]
  · have hcount : j.sinks.count (.file path) = j.current.files.count (.file path) := by
      rcases hattached with hsinks | ⟨hsinks, -⟩ <;> simp [hsinks]
    rw [hcount, Settings.count_file_files, hcurrent]
  · rw [run_concat, hattached.step_say hrequired, hcurrent, Settings.files, Option.toList_map]
  · rw [run_concat, step_sayThrough, hs, Option.elim_some, write, r.passes_eq]
  · rw [run_concat, step_of_remark?_eq_none _ hc, List.append_nil]

/-- A journal configured silent, made to show something, silenced and made to show something again
has its console and its file once. -/
theorem delivers_once_after_silence :
    let path : Text := "curve.log".toList
    let calls : List (Call Arg) :=
      [.configure ⟨.silent, some path⟩ true, .setLevel .detailed true, .setLevel .silent true,
        .setLevel .minimal true]
    let low : Remark Arg := .warning ⟨"only %d left".toList, [.integer 3]⟩
    let journal := (fresh.run fill? calls).1
    (∀ c ∈ calls, c.Orderly) ∧
      journal.settings = some ⟨.minimal, some path⟩ ∧
      journal.sinks.count .console = 1 ∧
      journal.sinks.count (.file path) = 1 ∧
      (fresh.run fill? (calls ++ [.say low])).2 =
        [⟨.console, .warning, "only 3 left".toList⟩,
          ⟨.file path, .warning, "only 3 left".toList⟩] ∧
      journal.others[0]? = some ⟨.silent, some path⟩ ∧
      (fresh.run fill? (calls ++ [.sayThrough 0 low])).2 = [] := by
  intro path calls low journal
  have hcalls : ∀ c ∈ calls, c.Orderly := by simp [calls, Call.Orderly, Settings.Granted]
  obtain ⟨hsettings, -, hconsole, hfile, hsay, hthrough, -⟩ := delivers_once fill? hcalls
  have hothers : journal.others[0]? = some ⟨.silent, some path⟩ := rfl
  refine ⟨hcalls, hsettings, hconsole _ hsettings (by decide), hfile path, ?_, hothers, ?_⟩
  · exact hsay low (by decide)
  · exact hthrough 0 _ hothers low

/-- Where the file cannot be opened, the console of a journal that shows something is gone. -/
example :
    let calls : List (Call Arg) := [.touch, .configure ⟨.silent, some "curve.log".toList⟩ false]
    (fresh.run fill? calls).1 = ⟨some .standard, [], []⟩ := by decide

end Journal

end CurveFormula.Log
