import LineCalculator.Proofs.LevelNames

namespace LineCalculator

def endingSpellings : List Text :=
  ["-h".toList, "--help".toList, "-v".toList, "--version".toList]

def EndsAtOnce (arguments : List Text) : Prop :=
  ∃ a rest, arguments = a :: rest ∧ (a ∉ optionSpellings ∨ a ∈ endingSpellings)

inductive Opens : List Text → Text → Prop
  | bare : Opens [] "bcalc 1.0.0\nPress Ctrl+C to quit...\n".toList
  | quiet {a : Text} (rest : List Text) : a ∈ ["-q".toList, "--quiet".toList] →
      Opens (a :: rest) []
  | mathlib {a : Text} (rest : List Text) : a ∈ ["-l".toList, "--mathlib".toList] →
      Opens (a :: rest)
        "bcalc 1.0.0\nPress Ctrl+C to quit...\nMathlib Initialized...\n".toList

section Arguments

variable {arguments : List Text} {opening : Text}

theorem endsAtOnce_cons {a : Text} {rest : List Text} :
    EndsAtOnce (a :: rest) ↔ a ∉ optionSpellings ∨ a ∈ endingSpellings := by
  constructor
  · rintro ⟨b, bs, heq, hb⟩
    cases heq
    exact hb
  · exact fun ha => ⟨a, rest, rfl, ha⟩

theorem exists_opens (h : ¬ EndsAtOnce arguments) : ∃ opening, Opens arguments opening := by
  cases arguments with
  | nil => exact ⟨_, .bare⟩
  | cons a rest =>
      have hall : ∀ u ∈ optionSpellings, u ∉ endingSpellings →
          u ∈ ["-q".toList, "--quiet".toList] ∨ u ∈ ["-l".toList, "--mathlib".toList] := by
        decide
      rw [endsAtOnce_cons, not_or, not_not] at h
      rcases hall a h.1 h.2 with hquiet | hmathlib
      · exact ⟨_, .quiet rest hquiet⟩
      · exact ⟨_, .mathlib rest hmathlib⟩

theorem Opens.ofArguments_eq (h : Opens arguments opening) :
    Opening.ofArguments arguments = .reading opening := by
  cases h with
  | bare => rfl
  | quiet rest ha =>
      have hall : ∀ u ∈ ["-q".toList, "--quiet".toList],
          Opening.ofArguments [u] = .reading [] := by
        decide
      rw [Opening.ofArguments_cons]
      exact hall _ ha
  | mathlib rest ha =>
      have hall : ∀ u ∈ ["-l".toList, "--mathlib".toList], Opening.ofArguments [u] =
          .reading "bcalc 1.0.0\nPress Ctrl+C to quit...\nMathlib Initialized...\n".toList := by
        decide
      rw [Opening.ofArguments_cons]
      exact hall _ ha

theorem EndsAtOnce.exists_finished (h : EndsAtOnce arguments) :
    ∃ status stdout, Opening.ofArguments arguments = .finished status stdout := by
  obtain ⟨a, rest, rfl, ha⟩ := h
  have hstatus : ∃ n, (Opening.ofArguments (a :: rest)).status? = some n := by
    rcases ha with hnone | hending
    · exact ⟨1, Opening.status?_of_not_mem hnone rest⟩
    · have hall : ∀ u ∈ endingSpellings, (Opening.ofArguments [u]).status? = some 0 := by decide
      exact ⟨0, hall a hending⟩
  obtain ⟨n, hn⟩ := hstatus
  cases hopening : Opening.ofArguments (a :: rest) with
  | finished status stdout => exact ⟨status, stdout, rfl⟩
  | reading opening =>
      rw [hopening] at hn
      cases hn

end Arguments

namespace Invocation

def withArguments (i : Invocation) (arguments : List Text) : Invocation :=
  { i with arguments := arguments }

variable {i : Invocation} {c : Calculator} {arguments : List Text}

theorem run_withArguments_cons (i : Invocation) (a : Text) (rest : List Text) :
    (i.withArguments (a :: rest)).run = (i.withArguments [a]).run := by
  simp only [run, withArguments, Opening.ofArguments_cons a rest]

theorem run_eq_map_of_endsAtOnce (h : EndsAtOnce arguments) :
    ∃ report : Report, report.session = none ∧ ∀ (i : Invocation) (c : Calculator),
      Calculator.create i.settings i.overrides = .ok c →
        (i.withArguments arguments).run = i.settings.logs?.map fun _ => report := by
  obtain ⟨status, stdout, hopening⟩ := h.exists_finished
  refine ⟨⟨status, stdout, [], none⟩, rfl, ?_⟩
  intro i c hcreate
  cases hlogs : i.settings.logs? with
  | error r => exact run_of_refused_level (i := i.withArguments arguments) hcreate hlogs
  | ok logs => exact run_of_finished (i := i.withArguments arguments) hcreate hlogs hopening

theorem run_of_opens {logs : Bool} {opening : Text}
    (hcreate : Calculator.create i.settings i.overrides = .ok c)
    (hlogs : i.settings.logs? = .ok logs) (h : Opens arguments opening) :
    (i.withArguments arguments).run = .ok
      { c.converse logs i.settings.history? i.console with
        stdout := opening ++ (c.converse logs i.settings.history? i.console).stdout } :=
  Reaches.run_eq (i := i.withArguments arguments) ⟨hcreate, hlogs, h.ofArguments_eq⟩

theorem first_argument_decides (hcreate : Calculator.create i.settings i.overrides = .ok c) :
    (∀ a rest, (i.withArguments (a :: rest)).run = (i.withArguments [a]).run) ∧
      (∀ arguments, EndsAtOnce arguments →
        (∀ (j : Invocation) (d : Calculator), Calculator.create j.settings j.overrides = .ok d →
          j.settings.logLevel = i.settings.logLevel →
          (j.withArguments arguments).run = (i.withArguments arguments).run) ∧
        ∀ r, (i.withArguments arguments).run = .ok r → r.session = none) ∧
      (Level.capitalized i.settings.logLevel ∉ Settings.otherNames →
        ∃ logs, i.settings.logs? = .ok logs ∧
          (∀ arguments, ∃ r, (i.withArguments arguments).run = .ok r) ∧
          ∀ arguments, ¬ EndsAtOnce arguments → ∃ opening, Opens arguments opening ∧
            (i.withArguments arguments).run = .ok
              { c.converse logs i.settings.history? i.console with
                stdout := opening ++
                  (c.converse logs i.settings.history? i.console).stdout }) ∧
      (Level.capitalized i.settings.logLevel ∈ Settings.otherNames →
        ∃ r, ∀ arguments, (i.withArguments arguments).run = .error r) := by
  refine ⟨i.run_withArguments_cons, ?_, ?_, ?_⟩
  · intro arguments hends
    obtain ⟨report, hsession, hreport⟩ := run_eq_map_of_endsAtOnce hends
    constructor
    · intro j d hcreate' hlevel
      rw [hreport i c hcreate, hreport j d hcreate', Settings.logs?_congr hlevel]
    · intro r hrun
      rw [hreport i c hcreate] at hrun
      cases hlogs : i.settings.logs? with
      | error refusal =>
          rw [hlogs] at hrun
          cases hrun
      | ok logs =>
          rw [hlogs] at hrun
          cases hrun
          exact hsession
  · intro hlevel
    obtain ⟨logs, hlogs⟩ := (Settings.asksForLevel_of_not_mem hlevel).exists_logs
    refine ⟨logs, hlogs, ?_, ?_⟩
    · intro arguments
      exact exists_report (i := i.withArguments arguments) hcreate hlogs
    · intro arguments hends
      obtain ⟨opening, hopens⟩ := exists_opens hends
      exact ⟨opening, hopens, run_of_opens hcreate hlogs hopens⟩
  · intro hlevel
    obtain ⟨r, hr⟩ := Settings.exists_refusal_of_mem hlevel
    exact ⟨r, fun arguments => run_of_refused_level (i := i.withArguments arguments) hcreate hr⟩

theorem first_argument_decides_at_default_level :
    let i : Invocation := ⟨.ofEnvironment fun _ => none, .empty, [],
      ⟨"1+2\n".toList, false, false, [], .endOfInput⟩⟩
    let j : Invocation := ⟨.ofEnvironment fun _ => none, ⟨some "continue".toList, some (.integer 4),
      none⟩, [], ⟨[], true, true, ["1/0".toList], .interrupt⟩⟩
    Calculator.create i.settings i.overrides = .ok ⟨.exit, 128, "> ".toList, by decide⟩ ∧
      Calculator.create j.settings j.overrides = .ok ⟨.proceed, 4, "> ".toList, by decide⟩ ∧
      (j.withArguments ["-lq".toList]).run = (i.withArguments ["-lq".toList]).run ∧
      ∃ r, (i.withArguments ["-q".toList, "-lq".toList]).run = .ok r ∧
        (i.withArguments ["-q".toList]).run = .ok r := by
  intro i j
  have hcreate : Calculator.create i.settings i.overrides =
      .ok ⟨.exit, 128, "> ".toList, by decide⟩ := by
    rfl
  have hcreate' : Calculator.create j.settings j.overrides =
      .ok ⟨.proceed, 4, "> ".toList, by decide⟩ := by
    rfl
  have hends : EndsAtOnce ["-lq".toList] := endsAtOnce_cons.2 (by decide)
  obtain ⟨hfirst, hover, hlines, -⟩ := first_argument_decides hcreate
  obtain ⟨hsame, -⟩ := hover _ hends
  obtain ⟨-, -, hreport, -⟩ := hlines (by decide)
  obtain ⟨r, hr⟩ := hreport ["-q".toList]
  exact ⟨hcreate, hcreate', hsame j _ hcreate' rfl, r, (hfirst _ _).trans hr, hr⟩

theorem no_lines_read_at_name_of_layout :
    let i : Invocation := ⟨.ofEnvironment fun v => if v = .logLevel then some "BASIC_FORMAT".toList
      else none, .empty, ["-q".toList], ⟨"1+2\n".toList, false, false, [], .endOfInput⟩⟩
    Calculator.create i.settings i.overrides = .ok ⟨.exit, 128, "> ".toList, by decide⟩ ∧
      ¬ EndsAtOnce i.arguments ∧ Opens i.arguments [] ∧ ∀ report, i.run ≠ .ok report := by
  intro i
  have hcreate : Calculator.create i.settings i.overrides =
      .ok ⟨.exit, 128, "> ".toList, by decide⟩ := by
    rfl
  have hends : ¬ EndsAtOnce i.arguments := by
    rw [endsAtOnce_cons]
    decide
  have hrefused : i.run = .error (.unknownLevel Level.Style.percent.layout) :=
    run_of_refused_level hcreate (Settings.logs?_of_layout (by decide))
  refine ⟨hcreate, hends, .quiet [] (by decide), ?_⟩
  intro report hreport
  rw [hrefused] at hreport
  cases hreport

end Invocation

end LineCalculator
