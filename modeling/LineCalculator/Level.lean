import LineCalculator.Refusal

namespace LineCalculator.Level

/-- The capitals of a letter. One without capitals in the ASCII alphabet stands for itself. -/
def capitals : Char → Text
  | 'ı' => "I".toList
  | 'ſ' => "S".toList
  | 'ß' => "SS".toList
  | 'ﬀ' => "FF".toList
  | 'ﬁ' => "FI".toList
  | 'ﬂ' => "FL".toList
  | 'ﬃ' => "FFI".toList
  | 'ﬄ' => "FFL".toList
  | 'ﬅ' => "ST".toList
  | 'ﬆ' => "ST".toList
  | c => [c.toUpper]

def capitalized (name : Text) : Text :=
  name.flatMap capitals

structure Style where
  mark : Char
  kind : Text
  layout : Text
  deriving DecidableEq, Repr

namespace Style

def percent : Style :=
  ⟨'%', "logging.PercentStyle".toList, "%(levelname)s:%(name)s:%(message)s".toList⟩

def all : List Style := [
  percent,
  ⟨'\x7b', "logging.StrFormatStyle".toList,
    "\x7blevelname\x7d:\x7bname\x7d:\x7bmessage\x7d".toList⟩,
  ⟨'$', "logging.StringTemplateStyle".toList,
    "$\x7blevelname\x7d:$\x7bname\x7d:$\x7bmessage\x7d".toList⟩]

def entry (s : Style) : Text :=
  Text.quoted [s.mark] ++ ": (<class ".toList ++ Text.quoted s.kind ++ ">, ".toList
    ++ Text.quoted s.layout ++ [')']

def table : Text :=
  '\x7b' :: ", ".toList.intercalate (all.map entry) ++ ['\x7d']

end Style

inductive Meaning where
  | severity (n : Nat)
  | text (t : Text)
  | table (written : Text)
  deriving DecidableEq, Repr

def debug : Nat := 10

def warning : Nat := 30

/-- The names without a small letter in them that stand for something. -/
def names : List (Text × Meaning) := [
  ("CRITICAL".toList, .severity 50),
  ("FATAL".toList, .severity 50),
  ("ERROR".toList, .severity 40),
  ("WARNING".toList, .severity warning),
  ("WARN".toList, .severity warning),
  ("INFO".toList, .severity 20),
  ("DEBUG".toList, .severity debug),
  ("NOTSET".toList, .severity 0),
  ("BASIC_FORMAT".toList, .text Style.percent.layout),
  ("_STYLES".toList, .table Style.table)]

def Meaning.threshold? : Meaning → Except Refusal Nat
  | severity n => .ok n
  | text t => .error (.unknownLevel t)
  | table t => .error (.noLevel t)

def meaning (name : Text) : Meaning :=
  (names.lookup name).getD (.severity warning)

def threshold? (name : Text) : Except Refusal Nat :=
  (meaning (capitalized name)).threshold?

end LineCalculator.Level
