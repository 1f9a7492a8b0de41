import LineCalculator.Proofs.ReadLoop

namespace LineCalculator

theorem Text.lines_flatMap_newline {typed : List Text} (h : ∀ l ∈ typed, '\n' ∉ l) :
    lines (typed.flatMap (· ++ ['\n'])) = typed.map (· ++ ['\n']) := by
  rw [List.flatMap_def]
  apply lines_flatten
  intro l hl
  obtain ⟨body, hbody, rfl⟩ := List.mem_map.1 hl
  exact ⟨body, h body hbody, rfl⟩

theorem Text.not_mem_flatMap_newline {typed : List Text} (h : ∀ l ∈ typed, '\r' ∉ l) :
    '\r' ∉ typed.flatMap (· ++ ['\n']) := by
  intro hmem
  obtain ⟨l, hl, hr⟩ := List.mem_flatMap.1 hmem
  rw [List.mem_append, List.mem_singleton] at hr
  rcases hr with hr | hr
  · exact h l hl hr
  · cases hr

namespace Console

def atTerminal (stdin : Text) (typed : List Text) (closing : Closing) : Console :=
  ⟨stdin, true, true, typed, closing⟩

structure HoldsTyped (console : Console) (typed : List Text) : Prop where
  not_terminal : console.inputIsTerminal = false
  stdin_eq : console.stdin = typed.flatMap (· ++ ['\n'])

theorem HoldsTyped.lines_eq {console : Console} {typed : List Text}
    (h : console.HoldsTyped typed) (htyped : ∀ l ∈ typed, '\n' ∉ l ∧ '\r' ∉ l) :
    console.lines = typed.map (· ++ ['\n']) := by
  have hreturn := Text.not_mem_flatMap_newline fun l hl => (htyped l hl).2
  rw [lines, isInteractive, h.not_terminal, h.stdin_eq, Text.unifyBreaks_of_not_mem hreturn]
  exact Text.lines_flatMap_newline fun l hl => (htyped l hl).1

end Console

namespace Calculator

variable {c : Calculator} {lines before after : List Text} {line : Text}

theorem StopsAt.exists_first (h : c.StopsAt line) :
    ∃ taken t dropped, c.cut line = taken ++ t :: dropped ∧
      (∀ u ∈ taken, ¬ Fragment.Fails u) ∧ Fragment.Fails t := by
  obtain ⟨-, t, ht, hfails⟩ := h
  have hsome : ((c.cut line).find? fun u => (Entry.ofFragment u).fails).isSome := by
    rw [List.find?_isSome]
    exact ⟨t, ht, Fragment.fails_ofFragment_iff.2 hfails⟩
  obtain ⟨first, hfirst⟩ := Option.isSome_iff_exists.1 hsome
  obtain ⟨hfail, taken, dropped, hcut, htaken⟩ := List.find?_eq_some_iff_append.1 hfirst
  refine ⟨taken, first, dropped, hcut, ?_, Fragment.fails_ofFragment_iff.1 hfail⟩
  intro u hu hufails
  simpa [Fragment.fails_ofFragment_iff.2 hufails] using htaken u hu

theorem stopped_of_stopsAt (hbefore : ∀ l ∈ before, ¬ c.StopsAt l) (h : c.StopsAt line)
    (after : List Text) :
    (c.readLines (before ++ line :: after)).stopped = true ∧
      (c.readLines (before ++ line :: after)).requested = before.length + 1 := by
  obtain ⟨taken, t, dropped, hcut, htaken, ht⟩ := h.exists_first
  rw [readLines_of_stopping hbefore h.1 hcut htaken ht]
  exact ⟨rfl, rfl⟩

variable {typed : List Text} {stdin : Text} {closing : Closing} {console : Console} {logs : Bool}
  {history : Option Text}

theorem converse_atTerminal {p : Progress} (hp : c.readLines (typed.map (· ++ ['\n'])) = p) :
    c.converse logs history (.atTerminal stdin typed closing) =
      ⟨if p.stopped || closing = .interrupt then 1 else 0, p.stdout, p.stderr logs,
        some (c.session history p)⟩ := by
  subst hp
  rfl

theorem converse_of_holdsTyped {p : Progress} (hp : c.readLines (typed.map (· ++ ['\n'])) = p)
    (h : console.HoldsTyped typed) (htyped : ∀ l ∈ typed, '\n' ∉ l ∧ '\r' ∉ l) :
    c.converse logs history console =
      ⟨if p.stopped then 1 else 0, p.stdout, p.stderr logs, none⟩ := by
  subst hp
  simp [converse, h.lines_eq htyped, Console.interrupts, Console.isInteractive, h.not_terminal]

end Calculator

namespace Invocation

structure Reaches (i : Invocation) (c : Calculator) (logs : Bool) (opening : Text) : Prop where
  create_eq : Calculator.create i.settings i.overrides = .ok c
  logs_eq : i.settings.logs? = .ok logs
  opening_eq : Opening.ofArguments i.arguments = .reading opening

def on (i : Invocation) (console : Console) : Invocation :=
  { i with console := console }

variable {i : Invocation} {c : Calculator} {logs : Bool} {opening : Text}

theorem Reaches.on (h : i.Reaches c logs opening) (console : Console) :
    (i.on console).Reaches c logs opening :=
  ⟨h.create_eq, h.logs_eq, h.opening_eq⟩

theorem Reaches.run_eq (h : i.Reaches c logs opening) :
    i.run = .ok
      { c.converse logs i.settings.history? i.console with
        stdout := opening ++ (c.converse logs i.settings.history? i.console).stdout } := by
  simp only [run, h.create_eq, h.logs_eq, h.opening_eq]

theorem session_agrees_with_text (h : i.Reaches c logs opening) (typed : List Text)
    (htyped : ∀ l ∈ typed, '\n' ∉ l ∧ '\r' ∉ l) (stdin : Text) (piped : Console)
    (hpiped : piped.HoldsTyped typed) :
    ∃ ended interrupted fromText : Report, ∃ s : Session,
      (i.on (.atTerminal stdin typed .endOfInput)).run = .ok ended ∧
      (i.on (.atTerminal stdin typed .interrupt)).run = .ok interrupted ∧
      (i.on piped).run = .ok fromText ∧
      (ended.stdout = fromText.stdout ∧ ended.stderr = fromText.stderr ∧
        ended.status = fromText.status) ∧
      (interrupted.stdout = fromText.stdout ∧ interrupted.stderr = fromText.stderr ∧
        interrupted.status = 1) ∧
      (ended.session = some s ∧ interrupted.session = some s) ∧
      ((∀ l ∈ typed, ¬ c.StopsAt (l ++ ['\n'])) → s.prompts = typed.length + 1) ∧
      ∀ before l after, typed = before ++ l :: after →
        (∀ k ∈ before, ¬ c.StopsAt (k ++ ['\n'])) → c.StopsAt (l ++ ['\n']) →
        s.prompts = before.length + 1 ∧ interrupted = ended := by
  obtain ⟨p, hp⟩ : ∃ p, c.readLines (typed.map (· ++ ['\n'])) = p := ⟨_, rfl⟩
  have hended := (h.on (.atTerminal stdin typed .endOfInput)).run_eq
  have hinterrupted := (h.on (.atTerminal stdin typed .interrupt)).run_eq
  have hfromText := (h.on piped).run_eq
  simp only [on, Calculator.converse_atTerminal hp] at hended hinterrupted
  simp only [on, Calculator.converse_of_holdsTyped hp hpiped htyped] at hfromText
  refine ⟨_, _, _, c.session i.settings.history? p, hended, hinterrupted, hfromText,
    ⟨rfl, rfl, ?_⟩, ⟨rfl, rfl, ?_⟩, ⟨rfl, rfl⟩, ?_, ?_⟩
  · simp
  · simp
  · intro hnone
    have hpass : ∀ l ∈ typed.map (· ++ ['\n']), ¬ c.StopsAt l := by
      simpa using hnone
    simp [Calculator.session, ← hp, Calculator.readLines_of_passing hpass]
  · rintro before l after rfl hbefore hl
    have hpass : ∀ k ∈ before.map (· ++ ['\n']), ¬ c.StopsAt k := by
      simpa using hbefore
    obtain ⟨hstopped, hrequested⟩ :=
      Calculator.stopped_of_stopsAt hpass hl (after.map (· ++ ['\n']))
    rw [List.map_append, List.map_cons] at hp
    rw [hp] at hstopped hrequested
    simp [Calculator.session, hstopped, hrequested]

theorem session_stops_at_second_line :
    let typed := ["1+1".toList, "6/(3-3)".toList, "7".toList]
    let i : Invocation := ⟨.ofEnvironment fun _ => none, ⟨none, some (.integer 16), none⟩,
      ["-q".toList], ⟨"1+1\n6/(3-3)\n7\n".toList, false, true, [], .endOfInput⟩⟩
    i.Reaches ⟨.exit, 16, "> ".toList, by decide⟩ false [] ∧ i.console.HoldsTyped typed ∧
    (∀ l ∈ typed, '\n' ∉ l ∧ '\r' ∉ l) ∧
    ∃ r s, (i.on (.atTerminal [] typed .endOfInput)).run = .ok r ∧
      (i.on (.atTerminal [] typed .interrupt)).run = .ok r ∧ r.session = some s ∧ s.prompts = 2 := by
  intro typed i
  have hreaches : i.Reaches ⟨.exit, 16, "> ".toList, by decide⟩ false [] := ⟨rfl, rfl, rfl⟩
  have hpiped : i.console.HoldsTyped typed := ⟨rfl, rfl⟩
  have htyped : ∀ l ∈ typed, '\n' ∉ l ∧ '\r' ∉ l := by
    decide
  obtain ⟨ended, interrupted, -, s, hended, hinterrupted, -, -, -, ⟨hsession, -⟩, -, hstop⟩ :=
    session_agrees_with_text hreaches typed htyped [] i.console hpiped
  obtain ⟨hprompts, rfl⟩ := hstop ["1+1".toList] "6/(3-3)".toList ["7".toList] rfl
    (by decide +kernel) (by decide +kernel)
  exact ⟨hreaches, hpiped, htyped, _, s, hended, hinterrupted, hsession, hprompts⟩

end Invocation

end LineCalculator
