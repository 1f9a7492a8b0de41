import LineCalculator.Proofs.NumeralFront
import LineCalculator.Proofs.Tenfold
import LineCalculator.Proofs.Walk
import LineCalculator.Text.DecimalDigit

namespace LineCalculator

inductive Misuse where
  | zeroDivisor
  | missingKey (k : Kind)
  | offsetOutside (offset : Nat)
  | noDigit (c : Char)
  | noValue (k : Kind)
  deriving DecidableEq, Repr

namespace Misuse

def divide (x y : Float) : Except Misuse Float :=
  if y == 0 then .error .zeroDivisor else .ok (x / y)

def entry {α : Type} (table : List (Kind × α)) (k : Kind) : Except Misuse α :=
  match table.lookup k with
  | some a => .ok a
  | none => .error (.missingKey k)

def charAt (t : Text) (offset : Nat) : Except Misuse Char :=
  match t[offset]? with
  | some c => .ok c
  | none => .error (.offsetOutside offset)

def digit (c : Char) : Except Misuse Nat :=
  match Text.digitValue? c with
  | some d => .ok d
  | none => .error (.noDigit c)

def value (t : Token) : Except Misuse Float :=
  match t.value? with
  | some v => .ok v
  | none => .error (.noValue t.kind)

theorem divide_of_ne_zero {x y : Float} (h : (y == 0) = false) : divide x y = .ok (x / y) := by
  rw [divide, h]
  rfl

theorem charAt_eq {t : Text} {offset : Nat} {c : Char} (h : t[offset]? = some c) :
    charAt t offset = .ok c := by
  rw [charAt, h]

theorem digit_eq {c : Char} (h : c.isDigit = true) : digit c = .ok (Numeral.digit c) := by
  simp only [Char.isDigit, Bool.and_eq_true, decide_eq_true_eq] at h
  have hlow : 0x30 ≤ c.toNat := h.1
  have hhigh : c.toNat ≤ 0x39 := h.2
  -- The first run of decimal digits is that of the ASCII alphabet.
  have hzeros : Text.digitZeros = 0x30 :: Text.digitZeros.tail := rfl
  have hvalue : Text.digitValue? c = some (c.toNat - 0x30) := by
    rw [Text.digitValue?, hzeros, List.find?_cons_of_pos]
    · rfl
    · simp only [Bool.and_eq_true, decide_eq_true_eq]
      omega
  rw [digit, hvalue]
  rfl

end Misuse

namespace Numeral

def pushChecked (p : Partial Float) (c : Char) : Except Misuse (Partial Float) :=
  if c = '.' then .ok ⟨p.value, some (Float.ofNat 1)⟩
  else
    (Misuse.digit c).map fun d =>
      ⟨p.value * Float.ofNat 10 + Float.ofNat d, p.divisor.map (· * Float.ofNat 10)⟩

def foldChecked : Partial Float → Text → Except Misuse (Partial Float)
  | p, [] => .ok p
  | p, c :: t => (pushChecked p c).bind fun p => foldChecked p t

def valueChecked (lexeme : Text) : Except Misuse Float :=
  (foldChecked ⟨Float.ofNat 0, none⟩ lexeme).bind fun p =>
    match p.divisor with
    | none => .ok p.value
    | some d => Misuse.divide p.value d

variable {p : Partial Float} {c : Char} {x : Text}

theorem pushChecked_eq (h : c.isDigit = true ∨ c = '.') :
    pushChecked p c = .ok (p.push Float.ofNat c) := by
  rw [pushChecked, Partial.push]
  split
  · rfl
  · rename_i hc
    rw [Misuse.digit_eq (h.resolve_right hc)]
    rfl

theorem foldChecked_eq (h : ∀ c ∈ x, c.isDigit = true ∨ c = '.') :
    foldChecked p x = .ok (x.foldl (Partial.push Float.ofNat) p) := by
  induction x generalizing p with
  | nil => rfl
  | cons c x ih =>
      have hx := @ih (p.push Float.ofNat c) fun d hd => h d (List.mem_cons_of_mem c hd)
      rw [foldChecked, pushChecked_eq (h c List.mem_cons_self), List.foldl_cons, ← hx]
      rfl

def Partial.Divides (p : Partial Float) : Prop :=
  ∀ d ∈ p.divisor, (d == 0) = false

theorem Partial.Divides.push (h : p.Divides) (c : Char) : (p.push Float.ofNat c).Divides := by
  intro d hd
  rw [Partial.push] at hd
  split at hd
  · cases hd
    rfl
  · obtain ⟨d', hd', rfl⟩ := Option.map_eq_some_iff.1 hd
    exact Double.mul_ten_ne_zero (h d' hd')

theorem Partial.Divides.foldl (h : p.Divides) (x : Text) :
    (x.foldl (Partial.push Float.ofNat) p).Divides := by
  induction x generalizing p with
  | nil => exact h
  | cons c x ih => exact ih (h.push c)

theorem valueChecked_eq (h : ∀ c ∈ x, c.isDigit = true ∨ c = '.') :
    valueChecked x = .ok (value x) := by
  have hnone : Partial.Divides (⟨Float.ofNat 0, none⟩ : Partial Float) := by
    intro d hd
    cases hd
  have hdivides : (fold Float.ofNat x).Divides := hnone.foldl x
  have hfold : foldChecked ⟨Float.ofNat 0, none⟩ x = .ok (fold Float.ofNat x) := foldChecked_eq h
  rw [valueChecked, hfold, value]
  generalize fold Float.ofNat x = p at hdivides ⊢
  obtain ⟨v, divisor⟩ := p
  cases divisor with
  | none => rfl
  | some d => exact Misuse.divide_of_ne_zero (hdivides d rfl)

end Numeral

def scanChecked (line : Text) (cursor : Int) : Except Misuse Scanned :=
  let start := skipBlanks line cursor
  if line.length ≤ start then .ok ⟨.ending .endOfLine, start, start⟩
  else
    let lexeme := Numeral.front false (line.drop start)
    if lexeme = [] then
      (Misuse.charAt line start).map fun c =>
        match Symbol.ofChar? c with
        | some s => ⟨.symbol s, start, start + 1⟩
        | none => ⟨.ending (.invalid c), start, start⟩
    else
      (Numeral.valueChecked lexeme).map fun v =>
        ⟨.symbol (.number v), start, start + lexeme.length⟩

theorem scanChecked_eq (line : Text) (cursor : Int) :
    scanChecked line cursor = .ok (scan line cursor) := by
  rw [scan_eq_front, scanChecked]
  cases hrest : line.drop (skipBlanks line cursor) with
  | nil =>
      have hend : line.length ≤ skipBlanks line cursor := List.drop_eq_nil_iff.1 hrest
      simp only [if_pos hend]
      rfl
  | cons c t =>
      have hstart : ¬ line.length ≤ skipBlanks line cursor := by
        rw [← List.drop_eq_nil_iff, hrest]
        exact List.cons_ne_nil c t
      simp only [if_neg hstart, Token.front]
      by_cases hbegins : Numeral.begins c = true
      · have hdigits : ∀ d ∈ Numeral.front false (c :: t), d.isDigit = true ∨ d = '.' :=
          fun _ => Numeral.digit_or_point_of_mem_front
        rw [if_neg (Numeral.front_ne_nil hbegins t), Numeral.valueChecked_eq hdigits,
          if_pos hbegins]
        rfl
      · have hstops : Numeral.front false (c :: t) = [] := by
          apply Numeral.StopsAt.front_eq_nil
          simpa [Numeral.stopsAt_cons, Numeral.begins] using hbegins
        have hc : (line)[skipBlanks line cursor]? = some c := by
          rw [← List.head?_drop, hrest]
          rfl
        rw [if_pos hstops, Misuse.charAt_eq hc, if_neg hbegins]
        cases hsymbol : Symbol.ofChar? c with
        | none => simp [hsymbol, Except.map]
        | some s => simp [hsymbol, Except.map]

end LineCalculator
