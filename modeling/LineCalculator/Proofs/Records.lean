import LineCalculator.Proofs.Terminal

namespace LineCalculator

def Policy.through (p : Policy) : List Text → List Text
  | [] => []
  | t :: fs => if p = .exit ∧ Fragment.Fails t then [t] else t :: p.through fs

def valueRecordMark : Text :=
  "bcalc.parser: DEBUG: ".toList

def failureRecordMark : Text :=
  "bcalc.cli: DEBUG: ".toList

def isRecord (l : Text) : Bool :=
  valueRecordMark.isPrefixOf l || failureRecordMark.isPrefixOf l

def recordBody (t : Text) : Text :=
  match evaluate t with
  | .ok v => valueRecordMark ++ Text.quoted t ++ " = ".toList ++ generalText v
  | .error f =>
      failureRecordMark ++ f.cause.category.name ++ " at offset ".toList
        ++ (toString f.position).toList ++ " of ".toList ++ Text.quoted t

def recordLine (t : Text) : Text :=
  recordBody t ++ ['\n']

section Lines

variable {t : Text} {fs : List Text}

theorem record_ofFragment (t : Text) : (Entry.ofFragment t).record = recordLine t := by
  rw [Entry.record, Entry.ofFragment, recordLine, recordBody]
  cases evaluate t <;> rfl

theorem isPrefixOf_append (t u : Text) : t.isPrefixOf (t ++ u) = true :=
  List.isPrefixOf_iff_prefix.2 (List.prefix_append t u)

theorem isRecord_recordLine (t : Text) : isRecord (recordLine t) = true := by
  rw [isRecord, recordLine, recordBody]
  cases evaluate t with
  | ok v => simp only [List.append_assoc, isPrefixOf_append, Bool.true_or]
  | error f => simp only [List.append_assoc, isPrefixOf_append, Bool.or_true]

theorem isRecord_of_mem_complaintLines {l : Text} (h : l ∈ complaintLines fs) :
    isRecord l = false := by
  obtain ⟨f, -, rfl⟩ := List.mem_map.1 h
  rfl

theorem isDigit_of_mem_toString {n : Nat} {c : Char} (h : c ∈ (toString n).toList) :
    c.isDigit = true := by
  have hdigits : c ∈ Nat.toDigits 10 n := by simpa [toString, Nat.repr] using h
  exact Nat.isDigit_of_mem_toDigits (by decide) (by decide) hdigits

theorem printable_toString (n : Nat) : Text.Printable (toString n).toList := by
  intro c hc
  have hdigit := isDigit_of_mem_toString hc
  simp only [Char.isDigit, Bool.and_eq_true, decide_eq_true_eq] at hdigit
  have hlow : '0'.toNat ≤ c.toNat := hdigit.1
  have hhigh : c.toNat ≤ '9'.toNat := hdigit.2
  have h0 : '0'.toNat = 0x30 := rfl
  have h9 : '9'.toNat = 0x39 := rfl
  rw [Text.isPrintable, if_pos (by omega)]
  exact decide_eq_true (by omega)

theorem Category.printable_name (k : Category) : Text.Printable k.name := by
  cases k <;> decide

theorem printable_recordBody (t : Text) : Text.Printable (recordBody t) := by
  rw [recordBody]
  cases evaluate t with
  | ok v =>
      simp only [Text.printable_append]
      exact ⟨⟨⟨by decide, Text.printable_quoted t⟩, by decide⟩, printable_generalText v⟩
  | error f =>
      simp only [Text.printable_append]
      exact ⟨⟨⟨⟨⟨by decide, f.cause.category.printable_name⟩, by decide⟩,
        printable_toString f.position⟩, by decide⟩, Text.printable_quoted t⟩

theorem exists_printable_of_mem_complaintLines {l : Text} (h : l ∈ complaintLines fs) :
    ∃ body, Text.Printable body ∧ l = body ++ ['\n'] := by
  obtain ⟨f, hf, rfl⟩ := List.mem_map.1 h
  obtain ⟨t, -, ht⟩ := List.mem_filterMap.1 hf
  refine ⟨"Error: ".toList ++ f.message, Text.printable_append.2 ⟨by decide, ?_⟩, rfl⟩
  exact printable_message (Fragment.evaluate_of_failure? ht)

def loggedLines (fs : List Text) : List Text :=
  fs.flatMap fun t => recordLine t :: complaintLines [t]

theorem loggedLines_cons (t : Text) (fs : List Text) :
    loggedLines (t :: fs) = recordLine t :: (complaintLines [t] ++ loggedLines fs) :=
  rfl

theorem exists_printable_of_mem_loggedLines {l : Text} (h : l ∈ loggedLines fs) :
    ∃ body, Text.Printable body ∧ l = body ++ ['\n'] := by
  obtain ⟨t, -, ht⟩ := List.mem_flatMap.1 h
  rcases List.mem_cons.1 ht with rfl | ht
  · exact ⟨recordBody t, printable_recordBody t, rfl⟩
  · exact exists_printable_of_mem_complaintLines ht

theorem lines_loggedLines (fs : List Text) :
    Text.lines (loggedLines fs).flatten = loggedLines fs := by
  apply Text.lines_flatten
  intro l hl
  obtain ⟨body, hbody, rfl⟩ := exists_printable_of_mem_loggedLines hl
  exact ⟨body, hbody.newline_not_mem, rfl⟩

theorem complaintLines_cons (t : Text) (fs : List Text) :
    complaintLines (t :: fs) = complaintLines [t] ++ complaintLines fs := by
  rw [complaintLines, complaintLines, complaintLines, ← List.map_append, ← List.filterMap_append]
  rfl

theorem filter_isRecord_loggedLines (fs : List Text) :
    (loggedLines fs).filter isRecord = fs.map recordLine := by
  induction fs with
  | nil => rfl
  | cons t fs ih =>
      have hnone : (complaintLines [t]).filter isRecord = [] := by
        apply List.filter_eq_nil_iff.2
        intro l hl
        rw [isRecord_of_mem_complaintLines hl]
        decide
      rw [loggedLines_cons, List.filter_cons_of_pos (isRecord_recordLine t), List.filter_append,
        hnone, List.nil_append, ih, List.map_cons]

theorem filter_not_isRecord_loggedLines (fs : List Text) :
    (loggedLines fs).filter (fun l => !isRecord l) = complaintLines fs := by
  induction fs with
  | nil => rfl
  | cons t fs ih =>
      have hall : (complaintLines [t]).filter (fun l => !isRecord l) = complaintLines [t] := by
        apply List.filter_eq_self.2
        intro l hl
        rw [isRecord_of_mem_complaintLines hl]
        rfl
      rw [loggedLines_cons, List.filter_cons_of_neg (by simp [isRecord_recordLine]),
        List.filter_append, hall, ih, ← complaintLines_cons]

theorem flatMap_diagnostics_logged (fs : List Text) :
    (fs.map Entry.ofFragment).flatMap (Entry.diagnostics true) = (loggedLines fs).flatten := by
  induction fs with
  | nil => rfl
  | cons t fs ih =>
      have hcomplaint : (Entry.ofFragment t).complaint = (complaintLines [t]).flatten := by
        have hsingle := flatMap_diagnostics [t]
        simpa [Entry.diagnostics] using hsingle
      rw [List.map_cons, List.flatMap_cons, ih, Entry.diagnostics, if_pos rfl, record_ofFragment,
        hcomplaint, loggedLines_cons, List.flatten_cons, List.flatten_append, List.append_assoc]

end Lines

namespace Policy

variable {p : Policy} {taken fs : List Text} {t : Text}

theorem through_append_of_passing (h : ¬ (p = .exit ∧ ∃ t ∈ taken, Fragment.Fails t))
    (fs : List Text) : p.through (taken ++ fs) = taken ++ p.through fs := by
  induction taken with
  | nil => rfl
  | cons t taken ih =>
      have hfirst : ¬ (p = .exit ∧ Fragment.Fails t) := fun hstop =>
        h ⟨hstop.1, t, List.mem_cons_self, hstop.2⟩
      have hrest : ¬ (p = .exit ∧ ∃ t ∈ taken, Fragment.Fails t) := by
        rintro ⟨hp, u, hu, hfails⟩
        exact h ⟨hp, u, List.mem_cons_of_mem t hu, hfails⟩
      rw [List.cons_append, through, if_neg hfirst, ih hrest, List.cons_append]

theorem through_append_of_stopping (hp : p = .exit) (htaken : ∀ u ∈ taken, ¬ Fragment.Fails u)
    (ht : Fragment.Fails t) (fs : List Text) :
    p.through (taken ++ t :: fs) = taken ++ [t] := by
  have hpassing : ¬ (p = .exit ∧ ∃ u ∈ taken, Fragment.Fails u) := by
    rintro ⟨-, u, hu, hfails⟩
    exact htaken u hu hfails
  rw [through_append_of_passing hpassing, through, if_pos ⟨hp, ht⟩]

end Policy

theorem Calculator.entries_readLines (c : Calculator) (lines : List Text) :
    (c.readLines lines).entries =
      (c.policy.through (lines.flatMap c.cut)).map Entry.ofFragment := by
  induction lines with
  | nil => rfl
  | cons line lines ih =>
      by_cases hstop : c.StopsAt line
      · obtain ⟨taken, t, dropped, hcut, htaken, ht⟩ := hstop.exists_first
        rw [readLines, readLine_of_stopping hstop.1 hcut htaken ht, List.flatMap_cons, hcut,
          List.append_assoc, List.cons_append,
          Policy.through_append_of_stopping hstop.1 htaken ht]
      · rw [readLines, readLine_of_passing hstop, List.flatMap_cons,
          Policy.through_append_of_passing hstop, List.map_append, ← ih]

theorem Calculator.stderr_plain (c : Calculator) (lines : List Text) :
    (c.readLines lines).stderr false =
      (complaintLines (c.policy.through (lines.flatMap c.cut))).flatten := by
  rw [Progress.stderr, c.entries_readLines, flatMap_diagnostics]

theorem Calculator.stderr_logged (c : Calculator) (lines : List Text) :
    (c.readLines lines).stderr true =
      (loggedLines (c.policy.through (lines.flatMap c.cut))).flatten := by
  rw [Progress.stderr, c.entries_readLines, flatMap_diagnostics_logged]

namespace Invocation

def atLevel (i : Invocation) (name : Text) : Invocation :=
  { i with settings := { i.settings with logLevel := name } }

def reached (i : Invocation) (p : Policy) (fs : List Text) : List Text :=
  match Opening.ofArguments i.arguments with
  | .finished _ _ => []
  | .reading _ => p.through fs

theorem run_of_refused {i : Invocation} {r : Refusal}
    (hcreate : Calculator.create i.settings i.overrides = .error r) : i.run = .error r := by
  simp only [run, hcreate]

theorem run_of_finished {i : Invocation} {c : Calculator} {logs : Bool} {status : Nat}
    {stdout : Text} (hcreate : Calculator.create i.settings i.overrides = .ok c)
    (hlogs : i.settings.logs? = .ok logs)
    (hopening : Opening.ofArguments i.arguments = .finished status stdout) :
    i.run = .ok ⟨status, stdout, [], none⟩ := by
  simp only [run, hcreate, hlogs, hopening]

theorem logs?_atLevel_debug (i : Invocation) :
    (i.atLevel "DEBUG".toList).settings.logs? = .ok true :=
  rfl

theorem logs?_atLevel_warning (i : Invocation) :
    (i.atLevel "WARNING".toList).settings.logs? = .ok false :=
  rfl

theorem records_only_add_lines (i : Invocation) :
    (∃ r, (i.atLevel "DEBUG".toList).run = .error r ∧
      (i.atLevel "WARNING".toList).run = .error r) ∨
    ∃ logged plain : Report, ∃ c fs,
      (i.atLevel "DEBUG".toList).run = .ok logged ∧ (i.atLevel "WARNING".toList).run = .ok plain ∧
      Calculator.create i.settings i.overrides = .ok c ∧
      fragments c.size i.console.lines = .ok fs ∧
      (logged.status = plain.status ∧ logged.stdout = plain.stdout ∧
        logged.session = plain.session) ∧
      ((Text.lines logged.stderr).filter fun l => !isRecord l).flatten = plain.stderr ∧
      (Text.lines logged.stderr).filter isRecord = (i.reached c.policy fs).map recordLine ∧
      Text.lines logged.stderr =
        (i.reached c.policy fs).flatMap (fun t => recordLine t :: complaintLines [t]) ∧
      ∀ l ∈ Text.lines logged.stderr, ∃ body, Text.Printable body ∧ l = body ++ ['\n'] := by
  cases hcreate : Calculator.create i.settings i.overrides with
  | error r => exact Or.inl ⟨r, run_of_refused hcreate, run_of_refused hcreate⟩
  | ok c =>
      right
      cases hopening : Opening.ofArguments i.arguments with
      | finished status stdout =>
          refine ⟨_, _, c, _, run_of_finished hcreate i.logs?_atLevel_debug hopening,
            run_of_finished hcreate i.logs?_atLevel_warning hopening, rfl,
            c.fragments_eq _, ⟨rfl, rfl, rfl⟩, ?_⟩
          simp [reached, hopening, Text.lines]
      | reading opening =>
          have hreached : i.reached c.policy (i.console.lines.flatMap c.cut) =
              c.policy.through (i.console.lines.flatMap c.cut) := by
            rw [reached, hopening]
          have hlogged : (i.atLevel "DEBUG".toList).Reaches c true opening :=
            ⟨hcreate, i.logs?_atLevel_debug, hopening⟩
          have hplain : (i.atLevel "WARNING".toList).Reaches c false opening :=
            ⟨hcreate, i.logs?_atLevel_warning, hopening⟩
          refine ⟨_, _, c, _, hlogged.run_eq, hplain.run_eq, rfl, c.fragments_eq _,
            ⟨rfl, rfl, rfl⟩, ?_⟩
          simp only [Calculator.converse, atLevel, Calculator.stderr_plain,
            Calculator.stderr_logged, lines_loggedLines, filter_isRecord_loggedLines,
            filter_not_isRecord_loggedLines, hreached]
          exact ⟨trivial, trivial, rfl, fun l hl => exists_printable_of_mem_loggedLines hl⟩

theorem records_of_value_and_failure :
    let i : Invocation := ⟨.ofEnvironment fun _ => none, ⟨some "continue".toList, none, none⟩,
      ["-q".toList], ⟨"1/3\n2)".toList, false, true, [], .endOfInput⟩⟩
    ∃ logged plain : Report,
      (i.atLevel "DEBUG".toList).run = .ok logged ∧ (i.atLevel "WARNING".toList).run = .ok plain ∧
      logged.stdout = "0.333333\n".toList ∧ plain.stdout = "0.333333\n".toList ∧
      Text.lines logged.stderr =
        ["bcalc.parser: DEBUG: '1/3\\n' = 0.333333\n".toList,
          "bcalc.cli: DEBUG: UnexpectedToken at offset 1 of '2)'\n".toList,
          "Error: Unexpected token after expression\n".toList] ∧
      ((Text.lines logged.stderr).filter fun l => !isRecord l).flatten = plain.stderr ∧
      plain.stderr = "Error: Unexpected token after expression\n".toList := by
  intro i
  have hlogged : (i.atLevel "DEBUG".toList).run = .ok ⟨0, "0.333333\n".toList,
      ("bcalc.parser: DEBUG: '1/3\\n' = 0.333333\n" ++
        "bcalc.cli: DEBUG: UnexpectedToken at offset 1 of '2)'\n" ++
        "Error: Unexpected token after expression\n").toList, none⟩ := by
    decide +kernel
  have hplain : (i.atLevel "WARNING".toList).run = .ok ⟨0, "0.333333\n".toList,
      "Error: Unexpected token after expression\n".toList, none⟩ := by
    decide +kernel
  rcases records_only_add_lines i with ⟨r, hr, -⟩ | ⟨logged, plain, c, fs, hl, hp, -, -, -, hrest, -⟩
  · rw [hlogged] at hr
    cases hr
  · cases hlogged.symm.trans hl
    cases hplain.symm.trans hp
    exact ⟨_, _, hl, hp, rfl, rfl, by decide +kernel, hrest, rfl⟩

end Invocation

end LineCalculator
