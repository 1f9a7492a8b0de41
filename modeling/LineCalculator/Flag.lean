import LineCalculator.Settings

namespace LineCalculator

inductive Flag where
  | help
  | mathlib
  | quiet
  | version
  deriving DecidableEq, Repr

namespace Flag

def spellings : Flag → List Text
  | .help => ["-h".toList, "--help".toList]
  | .mathlib => ["-l".toList, "--mathlib".toList]
  | .quiet => ["-q".toList, "--quiet".toList]
  | .version => ["-v".toList, "--version".toList]

def all : List Flag :=
  [.help, .mathlib, .quiet, .version]

def ofText? (t : Text) : Option Flag :=
  all.find? fun f => t ∈ f.spellings

theorem mem_spellings_of_ofText? {t : Text} {f : Flag} (h : ofText? t = some f) :
    t ∈ f.spellings := by
  simpa using List.find?_some h

end Flag

def usage : Text :=
  ("usage: bcalc [options]\n" ++
  "\n" ++
  "Basic calculator\n" ++
  "\n" ++
  "options:\n" ++
  "  -h, --help     print this usage and exit\n" ++
  "  -l, --mathlib  use the predefined math routines\n" ++
  "  -q, --quiet    don't print initial banner\n" ++
  "  -v, --version  print version information and exit\n").toList

def versionLine : Text :=
  "bcalc ".toList ++ version ++ ['\n']

def banner : Text :=
  versionLine ++ "Press Ctrl+C to quit...\n".toList

def mathlibLine : Text :=
  "Mathlib Initialized...\n".toList

inductive Opening where
  | finished (status : Nat) (stdout : Text)
  | reading (stdout : Text)
  deriving DecidableEq, Repr

namespace Opening

def ofFlag : Flag → Opening
  | .help => .finished 0 usage
  | .version => .finished 0 versionLine
  | .quiet => .reading []
  | .mathlib => .reading (banner ++ mathlibLine)

def ofArguments : List Text → Opening
  | [] => .reading banner
  | a :: _ =>
      match Flag.ofText? a with
      | some f => ofFlag f
      | none => .finished 1 ("Invalid option: ".toList ++ a ++ ['\n'] ++ usage)

theorem ofArguments_cons (a : Text) (as : List Text) : ofArguments (a :: as) = ofArguments [a] :=
  rfl

end Opening

end LineCalculator
