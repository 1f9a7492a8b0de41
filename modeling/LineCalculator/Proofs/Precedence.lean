import LineCalculator.Proofs.BufferSize
import LineCalculator.Proofs.ExitStatus
import Mathlib.Logic.Function.Basic

namespace LineCalculator

inductive Given where
  | onError
  | maxLine
  | prompt
  deriving DecidableEq, Repr

namespace Given

def source : Given → Variable
  | .onError => .onError
  | .maxLine => .maxLine
  | .prompt => .prompt

def give : Given → Option Text → Overrides → Overrides
  | .onError, t, o => { o with onError := t }
  | .maxLine, t, o => { o with maxLine := t.map .text }
  | .prompt, t, o => { o with prompt := t }

end Given

def Environment.put (e : Environment) (v : Variable) (t : Option Text) : Environment :=
  Function.update e v t

section Value

variable {e : Environment} {v w : Variable} {t u : Option Text} {s : Text}

theorem Environment.value_put_self : (e.put v (some s)).value v = s := by
  rw [value, put, Function.update_self, Option.getD_some]

theorem Environment.value_put_congr (h : w ≠ v) :
    (e.put v t).value w = (e.put v u).value w := by
  rw [value, value, put, put, Function.update_of_ne h, Function.update_of_ne h]

theorem Overrides.textOr_given (hs : s ≠ []) (setting : Text) :
    textOr (some s) setting = s :=
  if_neg hs

theorem Overrides.sizeOr_given (hs : s ≠ []) (setting : Text) :
    sizeOr (some (.text s)) setting = .text s :=
  if_neg (by simpa [SizeArgument.isVoid] using hs)

end Value

namespace Settings

variable {settings settings' : Settings}

theorem history?_congr (hfile : settings.historyFile = settings'.historyFile)
    (hhome : settings.home = settings'.home) : settings.history? = settings'.history? := by
  rw [history?, history?, hfile, hhome]

end Settings

namespace Calculator

theorem create_congr {settings settings' : Settings} {overrides overrides' : Overrides}
    (hpolicy : Overrides.textOr overrides.onError settings.onError =
      Overrides.textOr overrides'.onError settings'.onError)
    (hsize : Overrides.sizeOr overrides.maxLine settings.maxLine =
      Overrides.sizeOr overrides'.maxLine settings'.maxLine)
    (hprompt : Overrides.textOr overrides.prompt settings.prompt =
      Overrides.textOr overrides'.prompt settings'.prompt) :
    create settings overrides = create settings' overrides' := by
  simp only [create, hpolicy, hsize, hprompt]

theorem create_of_given (g : Given) (e : Environment) (o : Overrides) {s : Text} (hs : s ≠ [])
    (hidden : Option Text) :
    create (.ofEnvironment (e.put g.source (some s))) (g.give none o) =
      create (.ofEnvironment (e.put g.source hidden)) (g.give (some s) o) := by
  have hself : (e.put g.source (some s)).value g.source = s := Environment.value_put_self
  have hother : ∀ v, v ≠ g.source →
      (e.put g.source (some s)).value v = (e.put g.source hidden).value v :=
    fun v hv => Environment.value_put_congr hv
  cases g with
  | onError =>
      refine create_congr ?_ ?_ ?_
      · exact hself.trans (Overrides.textOr_given hs _).symm
      · exact congrArg (Overrides.sizeOr o.maxLine) (hother .maxLine (by decide))
      · exact congrArg (Overrides.textOr o.prompt) (hother .prompt (by decide))
  | maxLine =>
      refine create_congr ?_ ?_ ?_
      · exact congrArg (Overrides.textOr o.onError) (hother .onError (by decide))
      · exact (congrArg SizeArgument.text hself).trans (Overrides.sizeOr_given hs _).symm
      · exact congrArg (Overrides.textOr o.prompt) (hother .prompt (by decide))
  | prompt =>
      refine create_congr ?_ ?_ ?_
      · exact congrArg (Overrides.textOr o.onError) (hother .onError (by decide))
      · exact congrArg (Overrides.sizeOr o.maxLine) (hother .maxLine (by decide))
      · exact hself.trans (Overrides.textOr_given hs _).symm

theorem create_of_unknown_policy {settings : Settings} {overrides : Overrides}
    (h : ¬ KnowsPolicy settings overrides) :
    create settings overrides =
      .error (.unknownPolicy (Overrides.textOr overrides.onError settings.onError)) := by
  have hnone : Policy.ofName? (Overrides.textOr overrides.onError settings.onError) = none := by
    cases hpolicy : Policy.ofName? (Overrides.textOr overrides.onError settings.onError) with
    | none => rfl
    | some p =>
        have hname := Policy.name_of_ofName? hpolicy
        rw [KnowsPolicy, ← hname] at h
        cases p <;> exact absurd (by decide) h
  simp only [create, hnone]

end Calculator

namespace Invocation

theorem run_congr {i j : Invocation}
    (hcreate : Calculator.create i.settings i.overrides = Calculator.create j.settings j.overrides)
    (hlogs : i.settings.logs? = j.settings.logs?)
    (hhistory : i.settings.history? = j.settings.history?) (harguments : i.arguments = j.arguments)
    (hconsole : i.console = j.console) : i.run = j.run := by
  simp only [run, hcreate, hlogs, hhistory, harguments, hconsole]

theorem run_of_given (g : Given) (e : Environment) (o : Overrides) (arguments : List Text)
    (console : Console) {s : Text} (hs : s ≠ []) (hidden : Option Text) :
    run ⟨.ofEnvironment (e.put g.source (some s)), g.give none o, arguments, console⟩ =
      run ⟨.ofEnvironment (e.put g.source hidden), g.give (some s) o, arguments, console⟩ := by
  have hlevel : (e.put g.source (some s)).value .logLevel =
      (e.put g.source hidden).value .logLevel := Environment.value_put_congr (by cases g <;> decide)
  have hfile : (e.put g.source (some s)).value .historyFile =
      (e.put g.source hidden).value .historyFile :=
    Environment.value_put_congr (by cases g <;> decide)
  have hhome : (e.put g.source (some s)).value .home = (e.put g.source hidden).value .home :=
    Environment.value_put_congr (by cases g <;> decide)
  exact run_congr (Calculator.create_of_given g e o hs hidden) (Settings.logs?_congr hlevel)
    (Settings.history?_congr hfile hhome) rfl rfl

theorem given_hides_environment :
    (∀ (g : Given) (e : Environment) (o : Overrides) (arguments : List Text) (console : Console)
      (s : Text), s ≠ [] → ∀ hidden : Option Text,
        Calculator.create (.ofEnvironment (e.put g.source (some s))) (g.give none o) =
            Calculator.create (.ofEnvironment (e.put g.source hidden)) (g.give (some s) o) ∧
          run ⟨.ofEnvironment (e.put g.source (some s)), g.give none o, arguments, console⟩ =
            run ⟨.ofEnvironment (e.put g.source hidden), g.give (some s) o, arguments, console⟩) ∧
      ∀ i : Invocation, ¬ Calculator.KnowsPolicy i.settings i.overrides →
        ∃ r, Calculator.create i.settings i.overrides = .error r ∧ i.run = .error r ∧
          r.message = "Unknown error policy ".toList ++
            Text.quoted (Overrides.textOr i.overrides.onError i.settings.onError) := by
  constructor
  · intro g e o arguments console s hs hidden
    exact ⟨Calculator.create_of_given g e o hs hidden,
      run_of_given g e o arguments console hs hidden⟩
  · intro i hpolicy
    have hcreate := Calculator.create_of_unknown_policy hpolicy
    exact ⟨_, hcreate, run_of_refused hcreate, rfl⟩

theorem given_size_hides_bad_size :
    let e : Environment := Environment.put (fun _ => none) .onError (some "continue".toList)
    let console : Console := ⟨"8-2/3\n".toList, false, false, [], .endOfInput⟩
    let bad : Invocation := ⟨.ofEnvironment (e.put .maxLine (some "lots".toList)),
      ⟨some "ignore".toList, none, none⟩, [], console⟩
    "4".toList ≠ [] ∧ run ⟨.ofEnvironment (e.put .maxLine (some "4".toList)), .empty, [], console⟩ =
        run ⟨.ofEnvironment (e.put .maxLine (some "lots".toList)),
          ⟨none, some (.text "4".toList), none⟩, [], console⟩ ∧
      ¬ Calculator.KnowsPolicy bad.settings bad.overrides ∧
      ∃ r, bad.run = .error r ∧ r.message = "Unknown error policy 'ignore'".toList := by
  intro e console bad
  have hsize : "4".toList ≠ [] := by decide
  have hpolicy : ¬ Calculator.KnowsPolicy bad.settings bad.overrides := by decide
  obtain ⟨hgiven, hunknown⟩ := given_hides_environment
  obtain ⟨-, hrun⟩ := hgiven .maxLine e .empty [] console _ hsize (some "lots".toList)
  obtain ⟨r, -, hrefused, hmessage⟩ := hunknown bad hpolicy
  have hquoted : Text.quoted "ignore".toList = "'ignore'".toList := by decide
  exact ⟨hsize, hrun, hpolicy, r, hrefused, hmessage.trans (congrArg _ hquoted)⟩

end Invocation

end LineCalculator
