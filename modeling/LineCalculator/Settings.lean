import LineCalculator.Level

namespace LineCalculator

def version : Text :=
  "1.0.0".toList

inductive Variable where
  | onError
  | maxLine
  | prompt
  | historyFile
  | logLevel
  | home
  deriving DecidableEq, Repr

namespace Variable

def name : Variable → Text
  | .onError => "BCALC_ON_ERROR".toList
  | .maxLine => "BCALC_MAX_LINE".toList
  | .prompt => "BCALC_PROMPT".toList
  | .historyFile => "BCALC_HISTORY_FILE".toList
  | .logLevel => "BCALC_LOG_LEVEL".toList
  | .home => "HOME".toList

def all : List Variable :=
  [.onError, .maxLine, .prompt, .historyFile, .logLevel, .home]

/-- The value of a variable that is not set. Without a home a tilde stands for itself: where users
have their homes is not looked up. -/
def default : Variable → Text
  | .onError => "exit".toList
  | .maxLine => "128".toList
  | .prompt => "> ".toList
  | .historyFile => "~/.bcalc_history".toList
  | .logLevel => "WARNING".toList
  | .home => "~".toList

end Variable

abbrev Environment := Variable → Option Text

structure Settings where
  onError : Text
  maxLine : Text
  prompt : Text
  historyFile : Text
  logLevel : Text
  home : Text
  deriving DecidableEq, Repr

def Environment.value (e : Environment) (v : Variable) : Text :=
  (e v).getD v.default

namespace Settings

def ofEnvironment (e : Environment) : Settings where
  onError := e.value .onError
  maxLine := e.value .maxLine
  prompt := e.value .prompt
  historyFile := e.value .historyFile
  logLevel := e.value .logLevel
  home := e.value .home

def logs? (s : Settings) : Except Refusal Bool :=
  (Level.threshold? s.logLevel).map fun n => n ≤ Level.debug

/-- A path with the home directory in place of a tilde that stands alone or before a slash. In front
of the name of a user the tilde is left as it is. -/
def expandHome (home : Text) : Text → Text
  | '~' :: t =>
      if t = [] ∨ t.head? = some '/' then
        let path := (home.reverse.dropWhile (· = '/')).reverse ++ t
        if path = [] then ['/'] else path
      else '~' :: t
  | t => t

def history? (s : Settings) : Option Text :=
  if s.historyFile = [] then none else some (expandHome s.home s.historyFile)

end Settings

end LineCalculator
