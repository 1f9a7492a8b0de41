import LineCalculator.Proofs.Records

namespace LineCalculator

namespace Settings

def levelNames : List Text :=
  ["CRITICAL".toList, "FATAL".toList, "ERROR".toList, "WARN".toList, "WARNING".toList,
    "INFO".toList, "DEBUG".toList, "NOTSET".toList]

def capitalNames : List Text :=
  levelNames ++ ["BASIC_FORMAT".toList, "_STYLES".toList]

def AsksForLevel (s : Settings) : Prop :=
  Level.capitalized s.logLevel ∈ levelNames ∨ Level.capitalized s.logLevel ∉ capitalNames

instance (s : Settings) : Decidable s.AsksForLevel :=
  inferInstanceAs (Decidable (_ ∨ _))

def loggingNames : List Text :=
  ["DEBUG".toList, "NOTSET".toList]

theorem logs?_congr {s s' : Settings} (h : s.logLevel = s'.logLevel) : s.logs? = s'.logs? := by
  rw [logs?, logs?, h]

theorem meaning_of_not_mem {name : Text} (h : name ∉ capitalNames) :
    Level.meaning name = .severity Level.warning := by
  have hall : ∀ p ∈ Level.names, p.1 ∈ capitalNames := by decide
  have hnone : Level.names.lookup name = none := by
    apply List.lookup_eq_none_iff.2
    intro p hp
    exact bne_iff_ne.2 fun heq => h (heq ▸ hall p hp)
  rw [Level.meaning, hnone]
  rfl

theorem threshold?_of_mem : ∀ name ∈ levelNames,
    ((Level.meaning name).threshold?.map fun n => decide (n ≤ Level.debug)) =
      .ok (decide (name ∈ loggingNames)) := by
  decide +kernel

theorem logs?_of_mem {s : Settings} (h : Level.capitalized s.logLevel ∈ levelNames) :
    s.logs? = .ok (decide (Level.capitalized s.logLevel ∈ loggingNames)) :=
  threshold?_of_mem _ h

theorem logs?_of_not_mem {s : Settings} (h : Level.capitalized s.logLevel ∉ capitalNames) :
    s.logs? = .ok false := by
  rw [logs?, Level.threshold?, meaning_of_not_mem h]
  rfl

theorem AsksForLevel.exists_logs {s : Settings} (h : s.AsksForLevel) :
    ∃ logs, s.logs? = .ok logs := by
  rcases h with hlevel | hnothing
  · exact ⟨_, logs?_of_mem hlevel⟩
  · exact ⟨_, logs?_of_not_mem hnothing⟩

end Settings

def optionSpellings : List Text :=
  ["-h".toList, "--help".toList, "-l".toList, "--mathlib".toList, "-q".toList, "--quiet".toList,
    "-v".toList, "--version".toList]

def readingSpellings : List Text :=
  ["-l".toList, "--mathlib".toList, "-q".toList, "--quiet".toList]

namespace Opening

def status? : Opening → Option Nat
  | finished status _ => some status
  | reading _ => none

theorem ofText?_eq_none {t : Text} (h : t ∉ optionSpellings) : Flag.ofText? t = none := by
  cases hflag : Flag.ofText? t with
  | none => rfl
  | some f =>
      have hspelled : ∀ u ∈ f.spellings, u ∈ optionSpellings := by
        cases f <;> decide
      exact absurd (hspelled t (Flag.mem_spellings_of_ofText? hflag)) h

theorem status?_of_not_mem {a : Text} (h : a ∉ optionSpellings) (as : List Text) :
    (ofArguments (a :: as)).status? = some 1 := by
  rw [ofArguments, ofText?_eq_none h]
  rfl

theorem status?_of_mem {a : Text} (h : a ∈ optionSpellings) (as : List Text) :
    (ofArguments (a :: as)).status? = if a ∈ readingSpellings then none else some 0 := by
  have hall : ∀ u ∈ optionSpellings,
      (ofArguments [u]).status? = if u ∈ readingSpellings then none else some 0 := by
    decide
  rw [ofArguments_cons]
  exact hall a h

theorem readingSpellings_subset : ∀ a ∈ readingSpellings, a ∈ optionSpellings := by
  decide

end Opening

theorem Calculator.stopped_readLines_iff (c : Calculator) (lines : List Text) :
    (c.readLines lines).stopped = true ↔
      c.policy = .exit ∧ ∃ t ∈ lines.flatMap c.cut, Fragment.Fails t := by
  induction lines with
  | nil => simp [readLines]
  | cons line lines ih =>
      by_cases hstop : c.StopsAt line
      · have hnone : ∀ l ∈ ([] : List Text), ¬ c.StopsAt l := by simp
        have hstopped := (stopped_of_stopsAt hnone hstop lines).1
        obtain ⟨hpolicy, t, ht, hfails⟩ := hstop
        have hmem : t ∈ (line :: lines).flatMap c.cut :=
          List.mem_flatMap.2 ⟨line, List.mem_cons_self, ht⟩
        exact iff_of_true hstopped ⟨hpolicy, t, hmem, hfails⟩
      · have hrest : (c.readLines (line :: lines)).stopped = (c.readLines lines).stopped := by
          rw [readLines, readLine_of_passing hstop]
        rw [hrest, ih, List.flatMap_cons]
        constructor
        · rintro ⟨hpolicy, t, ht, hfails⟩
          exact ⟨hpolicy, t, List.mem_append_right _ ht, hfails⟩
        · rintro ⟨hpolicy, t, ht, hfails⟩
          rcases List.mem_append.1 ht with hline | hlater
          · exact absurd ⟨hpolicy, t, hline, hfails⟩ hstop
          · exact ⟨hpolicy, t, hlater, hfails⟩

theorem Calculator.requested_readLines_of_not_stopped {c : Calculator} {lines : List Text}
    (h : (c.readLines lines).stopped = false) :
    (c.readLines lines).requested = lines.length := by
  rw [readLines_of_passing]
  rintro l hl ⟨hpolicy, t, ht, hfails⟩
  have hstopped : (c.readLines lines).stopped = true :=
    (c.stopped_readLines_iff lines).2 ⟨hpolicy, t, List.mem_flatMap.2 ⟨l, hl, ht⟩, hfails⟩
  rw [h] at hstopped
  cases hstopped

namespace Invocation

def NamesNoOption (i : Invocation) : Prop :=
  ∃ a as, i.arguments = a :: as ∧ a ∉ optionSpellings

def EntersLoop (i : Invocation) : Prop :=
  i.arguments = [] ∨ ∃ a as, i.arguments = a :: as ∧ a ∈ readingSpellings

def Interrupted (i : Invocation) (session : Option Session) : Prop :=
  i.console.closing = .interrupt ∧
    ∃ s, session = some s ∧ s.prompts = i.console.typed.length + 1

variable {i : Invocation} {c : Calculator}

theorem arguments_cases (i : Invocation) :
    (i.NamesNoOption ∧ ¬ i.EntersLoop ∧ (Opening.ofArguments i.arguments).status? = some 1) ∨
    (¬ i.NamesNoOption ∧ ¬ i.EntersLoop ∧ (Opening.ofArguments i.arguments).status? = some 0) ∨
    (¬ i.NamesNoOption ∧ i.EntersLoop ∧ (Opening.ofArguments i.arguments).status? = none) := by
  cases hargs : i.arguments with
  | nil => simp [NamesNoOption, EntersLoop, hargs, Opening.ofArguments, Opening.status?]
  | cons a as =>
      have hnames : i.NamesNoOption ↔ a ∉ optionSpellings := by
        simp [NamesNoOption, hargs]
      have henters : i.EntersLoop ↔ a ∈ readingSpellings := by
        simp [EntersLoop, hargs]
      rw [hnames, henters]
      by_cases ha : a ∈ optionSpellings
      · rw [Opening.status?_of_mem ha]
        by_cases hreading : a ∈ readingSpellings <;> simp [ha, hreading]
      · have hreading : a ∉ readingSpellings := fun h => ha (Opening.readingSpellings_subset a h)
        simp [ha, hreading, Opening.status?_of_not_mem ha]

theorem interrupted_iff {p : Progress} (hp : c.readLines i.console.lines = p)
    (hstopped : p.stopped = false) (logs : Bool) (history : Option Text) :
    i.Interrupted (c.converse logs history i.console).session ↔ i.console.interrupts = true := by
  subst hp
  have hrequested := Calculator.requested_readLines_of_not_stopped hstopped
  cases hterminal : i.console.isInteractive with
  | false => simp [Interrupted, Calculator.converse, Console.interrupts, hterminal]
  | true =>
      have hlength : i.console.lines.length = i.console.typed.length := by
        rw [Console.lines, hterminal, if_pos rfl, List.length_map]
      simp [Interrupted, Calculator.converse, Calculator.session, Console.interrupts, hterminal,
        hstopped, hrequested, hlength]

theorem status_converse_iff (c : Calculator) (logs : Bool) (history : Option Text)
    (i : Invocation) :
    (c.converse logs history i.console).status = 1 ↔
      (c.policy = .exit ∧ ∃ t ∈ i.console.lines.flatMap c.cut, Fragment.Fails t) ∨
      i.Interrupted (c.converse logs history i.console).session := by
  rw [← c.stopped_readLines_iff]
  cases hstopped : (c.readLines i.console.lines).stopped with
  | true => simp [Calculator.converse, hstopped]
  | false =>
      rw [interrupted_iff rfl hstopped]
      cases hinterrupts : i.console.interrupts <;>
        simp [Calculator.converse, hstopped, hinterrupts]

theorem status_converse (c : Calculator) (logs : Bool) (history : Option Text)
    (console : Console) :
    (c.converse logs history console).status = 0 ∨
      (c.converse logs history console).status = 1 := by
  rw [Calculator.converse]
  split
  · exact Or.inr rfl
  · exact Or.inl rfl

theorem status_eq_one_iff (hcreate : Calculator.create i.settings i.overrides = .ok c)
    (hlevel : i.settings.AsksForLevel) :
    ∃ r fs, i.run = .ok r ∧
      2 ≤ c.size ∧ fragments c.size i.console.lines = .ok fs ∧
      (c.readLines i.console.lines).entries = (c.policy.through fs).map Entry.ofFragment ∧
      (r.status = 0 ∨ r.status = 1) ∧
      (r.status = 1 ↔ i.NamesNoOption ∨
        (i.EntersLoop ∧ ((c.policy = .exit ∧ ∃ t ∈ fs, Fragment.Fails t) ∨
          i.Interrupted r.session))) := by
  obtain ⟨logs, hlogs⟩ := hlevel.exists_logs
  have hfs := c.fragments_eq i.console.lines
  have hentries := c.entries_readLines i.console.lines
  cases hopening : Opening.ofArguments i.arguments with
  | reading opening =>
      have hrun := Reaches.run_eq ⟨hcreate, hlogs, hopening⟩
      refine ⟨_, _, hrun, c.two_le_size, hfs, hentries,
        status_converse c logs i.settings.history? i.console, ?_⟩
      have hstatus := status_converse_iff c logs i.settings.history? i
      rcases i.arguments_cases with ⟨-, -, hargs⟩ | ⟨-, -, hargs⟩ | ⟨hoption, henters, -⟩
      · simp [hopening, Opening.status?] at hargs
      · simp [hopening, Opening.status?] at hargs
      · simpa [hoption, henters] using hstatus
  | finished status out =>
      refine ⟨_, _, run_of_finished hcreate hlogs hopening, c.two_le_size, hfs, hentries, ?_⟩
      rcases i.arguments_cases with
        ⟨hoption, henters, hargs⟩ | ⟨hoption, henters, hargs⟩ | ⟨-, -, hargs⟩
      · have hone : status = 1 := by simpa [hopening, Opening.status?] using hargs
        simp [hone, hoption]
      · have hzero : status = 0 := by simpa [hopening, Opening.status?] using hargs
        simp [hzero, hoption, henters]
      · simp [hopening, Opening.status?] at hargs

theorem status_of_line_cut_in_two :
    let i : Invocation := ⟨{ Settings.ofEnvironment (fun _ => none) with
        logLevel := "verbose".toList }, ⟨none, some (.integer 4), none⟩,
      ["-l".toList, "-x".toList], ⟨"8-2/3\n".toList, false, true, [], .endOfInput⟩⟩
    Calculator.create i.settings i.overrides = .ok ⟨.exit, 4, "> ".toList, by decide⟩ ∧
    i.settings.AsksForLevel ∧
    fragments 4 i.console.lines = .ok ["8-2".toList, "/3\n".toList] ∧
    ∃ r, i.run = .ok r ∧ r.status = 1 := by
  intro i
  have hcreate : Calculator.create i.settings i.overrides =
      .ok ⟨.exit, 4, "> ".toList, by decide⟩ := rfl
  have hlevel : i.settings.AsksForLevel := by decide
  have hcut : fragments 4 i.console.lines = .ok ["8-2".toList, "/3\n".toList] := by
    decide +kernel
  obtain ⟨r, fs, hrun, -, hfs, -, -, hstatus⟩ := status_eq_one_iff hcreate hlevel
  cases hcut.symm.trans hfs
  have hfails : Fragment.Fails "/3\n".toList := by decide +kernel
  have henters : i.EntersLoop := Or.inr ⟨_, _, rfl, by decide⟩
  have hone : r.status = 1 :=
    hstatus.2 (Or.inr ⟨henters, Or.inl ⟨rfl, _, List.mem_cons_of_mem _ List.mem_cons_self, hfails⟩⟩)
  exact ⟨hcreate, hlevel, hcut, r, hrun, hone⟩

end Invocation

end LineCalculator
