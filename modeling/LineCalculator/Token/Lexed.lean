import LineCalculator.Token.Scan

namespace LineCalculator

structure Lexeme where
  symbol : Symbol
  start : Nat
  stop : Nat
  deriving DecidableEq, Repr

structure Lexed where
  lexemes : List Lexeme
  ending : Ending
  offset : Nat
  deriving DecidableEq, Repr

namespace Lexed

def ofText (offset : Nat) (t : Text) : Lexed :=
  let found := Found.ofText t
  let start := offset + found.gap
  match _h : found.token with
  | .ending e => ⟨[], e, start⟩
  | .symbol s =>
      let stop := start + found.width
      let rest := ofText stop (t.drop (found.gap + found.width))
      { rest with lexemes := ⟨s, start, stop⟩ :: rest.lexemes }
termination_by t.length
decreasing_by
  have hw := Token.front_snd_pos _h
  have ht := Found.gap_add_width_le t
  simp only [List.length_drop]
  simp only [Found.ofText] at hw ht ⊢
  omega

def ofLine (line : Text) : Lexed :=
  ofText 0 line

def tokens (l : Lexed) : List Token :=
  l.lexemes.map (fun x => .symbol x.symbol) ++ [.ending l.ending]

def lookahead (l : Lexed) : List Lexeme → Scanned
  | [] => ⟨.ending l.ending, l.offset, l.offset⟩
  | x :: _ => ⟨.symbol x.symbol, x.start, x.stop⟩

theorem ofText_of_ending {offset : Nat} {t : Text} {e : Ending}
    (h : (Found.ofText t).token = .ending e) :
    ofText offset t = ⟨[], e, offset + (Found.ofText t).gap⟩ := by
  rw [ofText]
  split
  · simp_all
  · simp_all

theorem ofText_of_symbol {offset : Nat} {t : Text} {s : Symbol}
    (h : (Found.ofText t).token = .symbol s) :
    ofText offset t =
      let found := Found.ofText t
      let stop := offset + found.gap + found.width
      let rest := ofText stop (t.drop (found.gap + found.width))
      { rest with lexemes := ⟨s, offset + found.gap, stop⟩ :: rest.lexemes } := by
  rw [ofText]
  split
  · simp_all
  · simp_all

end Lexed

end LineCalculator
