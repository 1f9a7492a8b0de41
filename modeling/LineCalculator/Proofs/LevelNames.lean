import LineCalculator.Proofs.ExitStatus

namespace LineCalculator

namespace Settings

def otherNames : List Text :=
  ["BASIC_FORMAT".toList, "_STYLES".toList]

variable {s : Settings}

theorem not_mem_capitalNames {name : Text} (hlevel : name ∉ levelNames)
    (hother : name ∉ otherNames) : name ∉ capitalNames :=
  List.mem_append.not.2 (not_or_intro hlevel hother)

theorem asksForLevel_of_not_mem (h : Level.capitalized s.logLevel ∉ otherNames) :
    s.AsksForLevel := by
  by_cases hlevel : Level.capitalized s.logLevel ∈ levelNames
  · exact Or.inl hlevel
  · exact Or.inr (not_mem_capitalNames hlevel h)

theorem logs?_of_layout (h : Level.capitalized s.logLevel = "BASIC_FORMAT".toList) :
    s.logs? = .error (.unknownLevel Level.Style.percent.layout) := by
  rw [logs?, Level.threshold?, h]
  rfl

theorem logs?_of_styles (h : Level.capitalized s.logLevel = "_STYLES".toList) :
    s.logs? = .error (.noLevel Level.Style.table) := by
  rw [logs?, Level.threshold?, h]
  rfl

theorem exists_refusal_of_mem (h : Level.capitalized s.logLevel ∈ otherNames) :
    ∃ r, s.logs? = .error r := by
  rcases List.mem_cons.1 h with hlayout | hstyles
  · exact ⟨_, logs?_of_layout hlayout⟩
  · exact ⟨_, logs?_of_styles (List.mem_singleton.1 hstyles)⟩

end Settings

namespace Invocation

variable {i : Invocation} {c : Calculator}

theorem run_of_refused_level {r : Refusal}
    (hcreate : Calculator.create i.settings i.overrides = .ok c)
    (hlogs : i.settings.logs? = .error r) : i.run = .error r := by
  simp only [run, hcreate, hlogs]

theorem exists_report {logs : Bool} (hcreate : Calculator.create i.settings i.overrides = .ok c)
    (hlogs : i.settings.logs? = .ok logs) : ∃ report, i.run = .ok report := by
  cases hopening : Opening.ofArguments i.arguments with
  | finished status stdout => exact ⟨_, run_of_finished hcreate hlogs hopening⟩
  | reading opening => exact ⟨_, Reaches.run_eq ⟨hcreate, hlogs, hopening⟩⟩

theorem run_atLevel_congr {a b : Text}
    (h : (i.atLevel a).settings.logs? = (i.atLevel b).settings.logs?) :
    (i.atLevel a).run = (i.atLevel b).run := by
  simp only [run, h]
  rfl

theorem report_atLevel {a b : Text} {logs : Bool}
    (hcreate : Calculator.create i.settings i.overrides = .ok c)
    (ha : (i.atLevel a).settings.logs? = .ok logs) (hb : (i.atLevel b).settings.logs? = .ok logs) :
    ∃ report, (i.atLevel a).run = .ok report ∧ (i.atLevel b).run = .ok report := by
  obtain ⟨report, hreport⟩ := exists_report (i := i.atLevel b) hcreate hb
  exact ⟨report, (run_atLevel_congr (ha.trans hb.symm)).trans hreport, hreport⟩

open Settings

theorem run_at_named_level (hcreate : Calculator.create i.settings i.overrides = .ok c)
    (name : Text) :
    ((∃ r, (i.atLevel name).run = .error r) ↔ Level.capitalized name ∈ otherNames) ∧
      (Level.capitalized name = "BASIC_FORMAT".toList → ∃ r, (i.atLevel name).run = .error r ∧
        r.message = "Unknown level: '%(levelname)s:%(name)s:%(message)s'".toList) ∧
      (Level.capitalized name = "_STYLES".toList → ∃ r, (i.atLevel name).run = .error r ∧
        r.message = "Level not an integer or a valid string: ".toList ++ Level.Style.table) ∧
      (Level.capitalized name ∉ levelNames → Level.capitalized name ∉ otherNames →
        ∃ report, (i.atLevel name).run = .ok report ∧
          (i.atLevel "WARNING".toList).run = .ok report) ∧
      (Level.capitalized name ∈ levelNames → ∃ report, (i.atLevel name).run = .ok report ∧
        (i.atLevel (if Level.capitalized name ∈ loggingNames then "DEBUG".toList
          else "WARNING".toList)).run = .ok report) := by
  refine ⟨⟨?_, ?_⟩, ?_, ?_, ?_, ?_⟩
  · rintro ⟨r, hr⟩
    by_contra hother
    obtain ⟨logs, hlogs⟩ := (asksForLevel_of_not_mem (s := (i.atLevel name).settings)
      hother).exists_logs
    obtain ⟨report, hreport⟩ := exists_report (i := i.atLevel name) hcreate hlogs
    rw [hr] at hreport
    cases hreport
  · intro hother
    obtain ⟨r, hr⟩ := exists_refusal_of_mem (s := (i.atLevel name).settings) hother
    exact ⟨r, run_of_refused_level (i := i.atLevel name) hcreate hr⟩
  · intro hlayout
    exact ⟨_, run_of_refused_level (i := i.atLevel name) hcreate (logs?_of_layout hlayout),
      by decide +kernel⟩
  · intro hstyles
    exact ⟨_, run_of_refused_level (i := i.atLevel name) hcreate (logs?_of_styles hstyles), rfl⟩
  · intro hlevel hother
    have hlogs := logs?_of_not_mem (s := (i.atLevel name).settings)
      (not_mem_capitalNames hlevel hother)
    exact report_atLevel hcreate hlogs i.logs?_atLevel_warning
  · intro hlevel
    have hlogs := logs?_of_mem (s := (i.atLevel name).settings) hlevel
    change (i.atLevel name).settings.logs? =
      .ok (decide (Level.capitalized name ∈ loggingNames)) at hlogs
    split
    · rename_i hlogging
      rw [decide_eq_true hlogging] at hlogs
      exact report_atLevel hcreate hlogs i.logs?_atLevel_debug
    · rename_i hlogging
      rw [decide_eq_false hlogging] at hlogs
      exact report_atLevel hcreate hlogs i.logs?_atLevel_warning

theorem run_at_level_of_no_meaning :
    let i : Invocation := ⟨.ofEnvironment fun _ => none, ⟨none, some (.integer 4), none⟩,
      ["-q".toList], ⟨"8-2/3\n".toList, false, false, [], .endOfInput⟩⟩
    Calculator.create i.settings i.overrides = .ok ⟨.exit, 4, "> ".toList, by decide⟩ ∧
      Level.capitalized "notßet".toList = "NOTSSET".toList ∧
      ∃ report, (i.atLevel "notßet".toList).run = .ok report ∧
        (i.atLevel "WARNING".toList).run = .ok report := by
  intro i
  have hcreate : Calculator.create i.settings i.overrides =
      .ok ⟨.exit, 4, "> ".toList, by decide⟩ := rfl
  have hcapitals : Level.capitalized "notßet".toList = "NOTSSET".toList := by decide
  obtain ⟨-, -, -, hwarning, -⟩ := run_at_named_level hcreate "notßet".toList
  rw [hcapitals] at hwarning
  exact ⟨hcreate, hcapitals, hwarning (by decide) (by decide)⟩

theorem refused_at_name_of_layout :
    let i : Invocation := ⟨.ofEnvironment fun _ => none, .empty, ["-q".toList],
      ⟨"1+2\n".toList, false, false, [], .endOfInput⟩⟩
    Calculator.create i.settings i.overrides = .ok ⟨.exit, 128, "> ".toList, by decide⟩ ∧
      Level.capitalized "basic_format".toList ∉ levelNames ∧
      (∃ report, (i.atLevel "WARNING".toList).run = .ok report) ∧
      ∃ r, (i.atLevel "basic_format".toList).run = .error r ∧
        r.message = "Unknown level: '%(levelname)s:%(name)s:%(message)s'".toList := by
  intro i
  have hcreate : Calculator.create i.settings i.overrides =
      .ok ⟨.exit, 128, "> ".toList, by decide⟩ := by
    rfl
  have hlayout : Level.capitalized "basic_format".toList = "BASIC_FORMAT".toList := by decide
  have hrefused : (i.atLevel "basic_format".toList).run =
      .error (.unknownLevel Level.Style.percent.layout) :=
    run_of_refused_level (i := i.atLevel _) hcreate (logs?_of_layout hlayout)
  have hwarning : ∃ report, (i.atLevel "WARNING".toList).run = .ok report :=
    exists_report (i := i.atLevel _) hcreate i.logs?_atLevel_warning
  rw [hlayout]
  exact ⟨hcreate, by decide, hwarning, _, hrefused, by decide +kernel⟩

end Invocation

end LineCalculator
