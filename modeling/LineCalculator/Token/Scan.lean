import LineCalculator.Number.Numeral
import LineCalculator.Text.Blank
import LineCalculator.Token.Basic

namespace LineCalculator

structure Found where
  gap : Nat
  token : Token
  width : Nat
  deriving DecidableEq, Repr

def Token.front : Text → Token × Nat
  | [] => (.ending .endOfLine, 0)
  | c :: t =>
      if Numeral.begins c then
        let lexeme := Numeral.front false (c :: t)
        (.symbol (.number (Numeral.value lexeme)), lexeme.length)
      else match Symbol.ofChar? c with
        | some s => (.symbol s, 1)
        | none => (.ending (.invalid c), 0)

def blankCount (t : Text) : Nat :=
  (t.takeWhile Text.isBlank).length

def Found.ofText (t : Text) : Found :=
  let front := Token.front (Text.trimStart t)
  ⟨blankCount t, front.1, front.2⟩

structure Scanned where
  token : Token
  start : Nat
  stop : Nat
  deriving DecidableEq, Repr

def clampCursor (length : Nat) (cursor : Int) : Nat :=
  min length (if cursor < 0 then cursor + length else cursor).toNat

def skipBlanks (line : Text) (cursor : Int) : Nat :=
  let offset := clampCursor line.length cursor
  offset + blankCount (line.drop offset)

def scan (line : Text) (cursor : Int) : Scanned :=
  let offset := clampCursor line.length cursor
  let found := Found.ofText (line.drop offset)
  ⟨found.token, offset + found.gap, offset + found.gap + found.width⟩

def nextToken (line : Text) (cursor : Int) : Token × Nat :=
  let s := scan line cursor
  (s.token, s.stop)

def walk (line : Text) : (count : Nat) → Int → List Scanned
  | 0, _ => []
  | count + 1, cursor =>
      let s := scan line cursor
      s :: walk line count s.stop

theorem blankCount_add_length_trimStart (t : Text) :
    blankCount t + (Text.trimStart t).length = t.length := by
  rw [blankCount, ← List.length_append, Text.takeWhile_isBlank_append_trimStart]

theorem Token.front_snd_le (t : Text) : (Token.front t).2 ≤ t.length := by
  cases t with
  | nil => simp [front]
  | cons c t =>
      simp only [front]
      split
      · exact Numeral.length_front_le false (c :: t)
      · split <;> simp

theorem Token.front_snd_pos {t : Text} {s : Symbol} (h : (Token.front t).1 = .symbol s) :
    0 < (Token.front t).2 := by
  cases t with
  | nil => simp [front] at h
  | cons c t =>
      simp only [front] at h ⊢
      split
      · rename_i hc
        exact List.length_pos_iff.2 (Numeral.front_ne_nil hc t)
      · split
        · simp
        · simp_all

theorem Token.front_snd_of_ending {t : Text} {e : Ending} (h : (Token.front t).1 = .ending e) :
    (Token.front t).2 = 0 := by
  cases t with
  | nil => simp [front]
  | cons c t =>
      simp only [front] at h ⊢
      split
      · simp_all
      · split
        · simp_all
        · rfl

theorem Found.gap_add_width_le (t : Text) :
    (Found.ofText t).gap + (Found.ofText t).width ≤ t.length := by
  have hw := Token.front_snd_le (Text.trimStart t)
  have hg := blankCount_add_length_trimStart t
  simp only [ofText]
  omega

theorem clampCursor_le (length : Nat) (cursor : Int) : clampCursor length cursor ≤ length :=
  Nat.min_le_left ..

theorem clampCursor_of_le {length cursor : Nat} (h : cursor ≤ length) :
    clampCursor length cursor = cursor := by
  simp only [clampCursor]
  omega

end LineCalculator
