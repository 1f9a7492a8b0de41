import LineCalculator.Calculator.Run
import LineCalculator.Proofs.OneLine
import Mathlib.Control.Monad.Basic

namespace LineCalculator

namespace Fragment

def value? (t : Text) : Option Float :=
  (evaluate t).toOption

def failure? (t : Text) : Option Failure :=
  match evaluate t with
  | .ok _ => none
  | .error f => some f

def Fails (t : Text) : Prop :=
  ∃ f, evaluate t = .error f

variable {t : Text} {ts : List Text}

theorem not_fails_of_ok {v : Float} (h : evaluate t = .ok v) : ¬ Fails t := by
  rintro ⟨f, hf⟩
  rw [h] at hf
  cases hf

theorem evaluate_of_failure? {f : Failure} (h : failure? t = some f) : evaluate t = .error f := by
  rw [failure?] at h
  split at h
  · cases h
  · cases h
    assumption

theorem fails_ofFragment_iff : (Entry.ofFragment t).fails = true ↔ Fails t := by
  rw [Entry.fails, Entry.ofFragment]
  cases h : evaluate t with
  | ok v => simp [not_fails_of_ok h]
  | error f => simp [Fails, h]

instance (t : Text) : Decidable (Fails t) :=
  decidable_of_iff ((Entry.ofFragment t).fails = true) fails_ofFragment_iff

theorem any_fails_iff : (ts.map Entry.ofFragment).any Entry.fails = true ↔ ∃ t ∈ ts, Fails t := by
  simp [List.any_map, List.any_eq_true, fails_ofFragment_iff]

end Fragment

def answerLines (fs : List Text) : List Text :=
  (fs.filterMap Fragment.value?).map fun v => generalText v ++ ['\n']

def complaintLines (fs : List Text) : List Text :=
  (fs.filterMap Fragment.failure?).map fun f => "Error: ".toList ++ f.message ++ ['\n']

structure Report.Prints (r : Report) (status : Nat) (fs : List Text) : Prop where
  status_eq : r.status = status
  stdout_lines : Text.lines r.stdout = answerLines fs
  stderr_lines : Text.lines r.stderr = complaintLines fs
  length_add : (Text.lines r.stdout).length + (Text.lines r.stderr).length = fs.length

section Printed

variable {t : Text} {fs : List Text} {v : Float} {f : Failure}

theorem answerLines_cons_of_ok (h : evaluate t = .ok v) :
    answerLines (t :: fs) = (generalText v ++ ['\n']) :: answerLines fs := by
  simp [answerLines, Fragment.value?, h, Except.toOption]

theorem answerLines_cons_of_error (h : evaluate t = .error f) :
    answerLines (t :: fs) = answerLines fs := by
  simp [answerLines, Fragment.value?, h, Except.toOption]

theorem complaintLines_cons_of_ok (h : evaluate t = .ok v) :
    complaintLines (t :: fs) = complaintLines fs := by
  simp [complaintLines, Fragment.failure?, h]

theorem complaintLines_cons_of_error (h : evaluate t = .error f) :
    complaintLines (t :: fs) = ("Error: ".toList ++ f.message ++ ['\n']) :: complaintLines fs := by
  simp [complaintLines, Fragment.failure?, h]

theorem length_printed (fs : List Text) :
    (answerLines fs).length + (complaintLines fs).length = fs.length := by
  induction fs with
  | nil => rfl
  | cons t fs ih =>
      cases h : evaluate t with
      | ok v =>
          rw [answerLines_cons_of_ok h, complaintLines_cons_of_ok h]
          simp only [List.length_cons]
          omega
      | error f =>
          rw [answerLines_cons_of_error h, complaintLines_cons_of_error h]
          simp only [List.length_cons]
          omega

theorem flatMap_answer (fs : List Text) :
    (fs.map Entry.ofFragment).flatMap Entry.answer = (answerLines fs).flatten := by
  induction fs with
  | nil => rfl
  | cons t fs ih =>
      rw [List.map_cons, List.flatMap_cons, ih, Entry.answer, Entry.ofFragment]
      cases h : evaluate t with
      | ok v => rw [answerLines_cons_of_ok h, List.flatten_cons]
      | error f => rw [answerLines_cons_of_error h, List.nil_append]

theorem flatMap_diagnostics (fs : List Text) :
    (fs.map Entry.ofFragment).flatMap (Entry.diagnostics false) = (complaintLines fs).flatten := by
  induction fs with
  | nil => rfl
  | cons t fs ih =>
      rw [List.map_cons, List.flatMap_cons, ih, Entry.diagnostics, Entry.complaint,
        Entry.ofFragment]
      cases h : evaluate t with
      | ok v =>
          rw [complaintLines_cons_of_ok h]
          rfl
      | error f =>
          rw [complaintLines_cons_of_error h, List.flatten_cons]
          rfl

theorem lines_answerLines (fs : List Text) :
    Text.lines (answerLines fs).flatten = answerLines fs := by
  apply Text.lines_flatten
  intro l hl
  obtain ⟨v, -, rfl⟩ := List.mem_map.1 hl
  exact ⟨generalText v, (printable_generalText v).newline_not_mem, rfl⟩

theorem lines_complaintLines (fs : List Text) :
    Text.lines (complaintLines fs).flatten = complaintLines fs := by
  apply Text.lines_flatten
  intro l hl
  obtain ⟨f, hf, rfl⟩ := List.mem_map.1 hl
  obtain ⟨t, -, ht⟩ := List.mem_filterMap.1 hf
  refine ⟨"Error: ".toList ++ f.message, ?_, rfl⟩
  rw [List.mem_append, not_or]
  exact ⟨by decide, (printable_message (Fragment.evaluate_of_failure? ht)).newline_not_mem⟩

end Printed

theorem Entry.throughFailure_append {taken dropped : List Entry} {e : Entry}
    (htaken : taken.any fails = false) (he : e.fails = true) :
    throughFailure (taken ++ e :: dropped) = taken ++ [e] := by
  induction taken with
  | nil => simp [throughFailure, he]
  | cons a taken ih =>
      rw [List.any_cons, Bool.or_eq_false_iff] at htaken
      simp [throughFailure, htaken.1, ih htaken.2]

namespace Calculator

def withPolicy (c : Calculator) (p : Policy) : Calculator :=
  { c with policy := p }

def StopsAt (c : Calculator) (line : Text) : Prop :=
  c.policy = .exit ∧ ∃ t ∈ c.cut line, Fragment.Fails t

instance (c : Calculator) (line : Text) : Decidable (c.StopsAt line) :=
  inferInstanceAs (Decidable (c.policy = .exit ∧ ∃ t ∈ c.cut line, Fragment.Fails t))

variable {c : Calculator} {line t : Text} {lines before after taken dropped : List Text}

theorem not_stopsAt_proceed (c : Calculator) (line : Text) :
    ¬ (c.withPolicy .proceed).StopsAt line := by
  rintro ⟨hpolicy, -⟩
  cases hpolicy

theorem fragments_eq (c : Calculator) (lines : List Text) :
    fragments c.size lines = .ok (lines.flatMap c.cut) := by
  have hsize := c.two_le_size
  have hwidth : ((c.size : Int) - 1).toNat = c.size - 1 := by omega
  rw [fragments_of_two_le (by omega), hwidth]
  rfl

theorem readLine_of_passing (h : ¬ c.StopsAt line) :
    c.readLine line = ((c.cut line).map Entry.ofFragment, false) := by
  rw [readLine, if_neg]
  rintro ⟨hpolicy, hfails⟩
  exact h ⟨hpolicy, Fragment.any_fails_iff.1 hfails⟩

theorem readLine_of_stopping (hpolicy : c.policy = .exit) (hcut : c.cut line = taken ++ t :: dropped)
    (htaken : ∀ u ∈ taken, ¬ Fragment.Fails u) (ht : Fragment.Fails t) :
    c.readLine line = ((taken ++ [t]).map Entry.ofFragment, true) := by
  have hfails : ((c.cut line).map Entry.ofFragment).any Entry.fails = true :=
    Fragment.any_fails_iff.2 ⟨t, by simp [hcut], ht⟩
  have hpassed : (taken.map Entry.ofFragment).any Entry.fails = false := by
    apply eq_false_of_ne_true
    intro hany
    obtain ⟨u, hu, hfail⟩ := Fragment.any_fails_iff.1 hany
    exact htaken u hu hfail
  rw [readLine, if_pos ⟨hpolicy, hfails⟩, hcut, List.map_append, List.map_cons,
    Entry.throughFailure_append hpassed (Fragment.fails_ofFragment_iff.2 ht), List.map_append]
  rfl

theorem readLines_append_of_passing (h : ∀ l ∈ before, ¬ c.StopsAt l) (after : List Text) :
    c.readLines (before ++ after) =
      ⟨(before.flatMap c.cut).map Entry.ofFragment ++ (c.readLines after).entries,
        before.length + (c.readLines after).requested, (c.readLines after).stopped⟩ := by
  induction before with
  | nil => simp
  | cons l before ih =>
      have hl := readLine_of_passing (h l List.mem_cons_self)
      have hrest := ih fun k hk => h k (List.mem_cons_of_mem l hk)
      simp only [List.cons_append, readLines, hl, hrest, List.flatMap_cons, List.map_append,
        List.append_assoc, List.length_cons, Progress.mk.injEq, and_true, true_and]
      omega

theorem readLines_of_passing (h : ∀ l ∈ lines, ¬ c.StopsAt l) :
    c.readLines lines = ⟨(lines.flatMap c.cut).map Entry.ofFragment, lines.length, false⟩ := by
  have hall := readLines_append_of_passing h []
  simpa [readLines] using hall

theorem readLines_of_stopping (hbefore : ∀ l ∈ before, ¬ c.StopsAt l) (hpolicy : c.policy = .exit)
    (hcut : c.cut line = taken ++ t :: dropped) (htaken : ∀ u ∈ taken, ¬ Fragment.Fails u)
    (ht : Fragment.Fails t) (after : List Text) :
    c.readLines (before ++ line :: after) =
      ⟨(before.flatMap c.cut ++ taken ++ [t]).map Entry.ofFragment, before.length + 1, true⟩ := by
  have hline := readLine_of_stopping hpolicy hcut htaken ht
  rw [readLines_append_of_passing hbefore]
  simp [readLines, hline]

theorem exists_line_of_flatMap {f : Text → List Text} {front back : List Text}
    (h : lines.flatMap f = front ++ t :: back) :
    ∃ before line after taken dropped, lines = before ++ line :: after ∧
      front = before.flatMap f ++ taken ∧ f line = taken ++ t :: dropped := by
  induction lines generalizing front with
  | nil => simp at h
  | cons l lines ih =>
      rw [List.flatMap_cons, List.append_eq_append_iff] at h
      rcases h with ⟨front', rfl, hrest⟩ | ⟨dropped, hl, hrest⟩
      · obtain ⟨before, line, after, taken, dropped, rfl, rfl, hline⟩ := ih hrest
        exact ⟨l :: before, line, after, taken, dropped, rfl, by simp, hline⟩
      · cases dropped with
        | nil =>
            obtain ⟨before, line, after, taken, dropped, rfl, hfront, hline⟩ :=
              @ih [] hrest.symm
            refine ⟨l :: before, line, after, taken, dropped, rfl, ?_, hline⟩
            rw [List.append_nil] at hl
            rw [List.flatMap_cons, hl, List.append_assoc, ← hfront, List.append_nil]
        | cons x dropped =>
            cases hrest
            exact ⟨[], l, lines, front, dropped, rfl, rfl, hl⟩

theorem prints_of_progress {entries : List Text} {requested : Nat} {stopped : Bool}
    (h : c.readLines lines = ⟨entries.map Entry.ofFragment, requested, stopped⟩) :
    (c.execute lines).Prints (if stopped then 1 else 0) entries := by
  have hstdout : (c.execute lines).stdout = (answerLines entries).flatten := by
    rw [execute, h]
    exact flatMap_answer entries
  have hstderr : (c.execute lines).stderr = (complaintLines entries).flatten := by
    rw [execute, h]
    exact flatMap_diagnostics entries
  constructor
  case status_eq => rw [execute, h]
  case stdout_lines => rw [hstdout, lines_answerLines]
  case stderr_lines => rw [hstderr, lines_complaintLines]
  case length_add => rw [hstdout, hstderr, lines_answerLines, lines_complaintLines, length_printed]

theorem cut_of_mem_cut (h : t ∈ c.cut line) : c.cut t = [t] := by
  have hsize := c.two_le_size
  obtain ⟨hne, hle⟩ := length_le_of_mem_pieces h
  exact pieces_of_length_le (by omega) hne hle

theorem flatMap_cut_of_mem {fs : List Text} (h : ∀ t ∈ fs, t ∈ lines.flatMap c.cut) :
    fs.flatMap c.cut = fs := by
  induction fs with
  | nil => rfl
  | cons t fs ih =>
      obtain ⟨line, -, ht⟩ := List.mem_flatMap.1 (h t List.mem_cons_self)
      rw [List.flatMap_cons, cut_of_mem_cut ht, ih fun u hu => h u (List.mem_cons_of_mem t hu)]
      rfl

theorem readLines_proceed (c : Calculator) (lines : List Text) :
    (c.withPolicy .proceed).readLines lines =
      ⟨(lines.flatMap c.cut).map Entry.ofFragment, lines.length, false⟩ :=
  readLines_of_passing fun line _ => c.not_stopsAt_proceed line

theorem readLines_of_none_fails (h : ∀ t ∈ lines.flatMap c.cut, ¬ Fragment.Fails t) :
    c.readLines lines = ⟨(lines.flatMap c.cut).map Entry.ofFragment, lines.length, false⟩ := by
  apply readLines_of_passing
  rintro line hline ⟨-, t, ht, hfails⟩
  exact h t (List.mem_flatMap.2 ⟨line, hline, ht⟩) hfails

theorem exists_line_of_first_failure {front back : List Text} (hpolicy : c.policy = .exit)
    (hlines : lines.flatMap c.cut = front ++ t :: back) (hfront : ∀ u ∈ front, ¬ Fragment.Fails u)
    (ht : Fragment.Fails t) :
    ∃ before line after taken dropped, lines = before ++ line :: after ∧
      front = before.flatMap c.cut ++ taken ∧ c.cut line = taken ++ t :: dropped ∧
      ∀ after', c.readLines (before ++ line :: after') =
        ⟨(front ++ [t]).map Entry.ofFragment, before.length + 1, true⟩ := by
  obtain ⟨before, line, after, taken, dropped, rfl, rfl, hcut⟩ := exists_line_of_flatMap hlines
  refine ⟨before, line, after, taken, dropped, rfl, rfl, hcut, ?_⟩
  have hbefore : ∀ l ∈ before, ¬ c.StopsAt l := by
    rintro l hl ⟨-, u, hu, hfails⟩
    exact hfront u (List.mem_append_left taken (List.mem_flatMap.2 ⟨l, hl, hu⟩)) hfails
  have htaken : ∀ u ∈ taken, ¬ Fragment.Fails u :=
    fun u hu => hfront u (List.mem_append_right _ hu)
  exact readLines_of_stopping hbefore hpolicy hcut htaken ht

theorem execute_prints_fragments_through_failure (c : Calculator) (lines : List Text) :
    ∃ fs, fragments c.size lines = .ok fs ∧
      ((c.withPolicy .proceed).execute lines).Prints 0 fs ∧
      ((∀ t ∈ fs, ¬ Fragment.Fails t) →
        (c.withPolicy .exit).execute lines = (c.withPolicy .proceed).execute lines) ∧
      ∀ front t back, fs = front ++ t :: back → (∀ u ∈ front, ¬ Fragment.Fails u) →
        Fragment.Fails t →
        ((c.withPolicy .exit).execute lines).Prints 1 (front ++ [t]) ∧
        ((c.withPolicy .exit).execute lines).stdout =
          ((c.withPolicy .proceed).execute (front ++ [t])).stdout ∧
        ((c.withPolicy .exit).execute lines).stderr =
          ((c.withPolicy .proceed).execute (front ++ [t])).stderr ∧
        ∃ before line after taken dropped, lines = before ++ line :: after ∧
          front = before.flatMap c.cut ++ taken ∧ c.cut line = taken ++ t :: dropped ∧
          ∀ after', (c.withPolicy .exit).readLines (before ++ line :: after') =
            ⟨(front ++ [t]).map Entry.ofFragment, before.length + 1, true⟩ := by
  refine ⟨lines.flatMap c.cut, c.fragments_eq lines, prints_of_progress (c.readLines_proceed lines),
    ?_, ?_⟩
  · intro hnone
    have hexit : (c.withPolicy .exit).readLines lines =
        ⟨(lines.flatMap c.cut).map Entry.ofFragment, lines.length, false⟩ :=
      readLines_of_none_fails hnone
    rw [execute, execute, hexit, readLines_proceed]
  · intro front t back hfs hfront ht
    obtain ⟨before, line, after, taken, dropped, hlines, hsplit, hcut, hstop⟩ :=
      exists_line_of_first_failure (show (c.withPolicy .exit).policy = .exit from rfl) hfs hfront ht
    have hexit := hstop after
    rw [← hlines] at hexit
    have hmem : ∀ u ∈ front ++ [t], u ∈ lines.flatMap c.cut := by
      intro u hu
      rw [hfs, ← List.singleton_append, ← List.append_assoc]
      exact List.mem_append_left back hu
    -- What is printed about fits the buffer, so as lines these fragments are cut no further.
    have hsame : ((c.withPolicy .exit).readLines lines).entries =
        ((c.withPolicy .proceed).readLines (front ++ [t])).entries := by
      rw [hexit, readLines_proceed, flatMap_cut_of_mem hmem]
    refine ⟨prints_of_progress hexit, ?_, ?_, before, line, after, taken, dropped, hlines, hsplit,
      hcut, hstop⟩
    · exact congrArg (List.flatMap Entry.answer) hsame
    · exact congrArg (List.flatMap (Entry.diagnostics false)) hsame

theorem execute_stops_inside_line :
    let lines := ["2/3\n".toList, "2*(3)/0 7\n".toList, "8000000".toList]
    let fs := ["2/3\n".toList, "2*(3)/0".toList, " 7\n".toList, "8000000".toList]
    let stopping := execute ⟨.exit, 8, [], by decide⟩ lines
    let proceeding := execute ⟨.proceed, 8, [], by decide⟩ lines
    fragments 8 lines = .ok fs ∧
    (stopping.Prints 1 ["2/3\n".toList, "2*(3)/0".toList] ∧
      stopping = ⟨1, "0.666667\n".toList, "Error: Division by zero\n".toList, none⟩) ∧
    (proceeding.Prints 0 fs ∧
      proceeding =
        ⟨0, "0.666667\n7\n8e+06\n".toList, "Error: Division by zero\n".toList, none⟩) := by
  intro lines fs stopping proceeding
  have hfs : fragments 8 lines = .ok fs := by decide +kernel
  obtain ⟨fs', hall, hproceeds, -, hstop⟩ :=
    execute_prints_fragments_through_failure ⟨.exit, 8, [], by decide⟩ lines
  cases hfs.symm.trans hall
  obtain ⟨hstops, -⟩ := hstop ["2/3\n".toList] "2*(3)/0".toList [" 7\n".toList, "8000000".toList]
    rfl (by decide +kernel) (by decide +kernel)
  exact ⟨hfs, ⟨hstops, by decide +kernel⟩, hproceeds, by decide +kernel⟩

end Calculator

end LineCalculator
