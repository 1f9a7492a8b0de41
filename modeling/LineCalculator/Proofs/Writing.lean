import LineCalculator.Proofs.NumeralFront
import LineCalculator.Proofs.Walk
import Mathlib.Data.List.Chain

namespace LineCalculator

abbrev Blanks := {t : Text // ∀ c ∈ t, Text.isBlank c = true}

abbrev Numeral.Spelling := {x : Text // IsNumeral x}

inductive Word where
  | number (x : Numeral.Spelling)
  | additive (op : AddOp)
  | multiplicative (op : MulOp)
  | lparen
  | rparen

namespace Word

def text : Word → Text
  | .number x => x.1
  | .additive .plus => ['+']
  | .additive .minus => ['-']
  | .multiplicative .times => ['*']
  | .multiplicative .divide => ['/']
  | .lparen => ['(']
  | .rparen => [')']

def symbol : Word → Symbol
  | .number x => .number (Numeral.value x.1)
  | .additive op => .additive op
  | .multiplicative op => .multiplicative op
  | .lparen => .lparen
  | .rparen => .rparen

/-- Two numbers need blanks between them, unless each has a point and the second begins with it. -/
def Parted : Word → Blanks → Word → Prop
  | .number x, gap, .number y => gap.1 ≠ [] ∨ '.' ∈ x.1 ∧ y.1.head? = some '.'
  | _, _, _ => True

def EndsBefore : Word → Text → Prop
  | .number x, rest => Numeral.StopsAt (x.1.contains '.') rest
  | _, _ => True

end Word

def written : List (Blanks × Word) → Blanks → Text
  | [], tail => tail.1
  | (gap, a) :: ps, tail => gap.1 ++ (a.text ++ written ps tail)

def placed : Nat → List (Blanks × Word) → List Lexeme
  | _, [] => []
  | offset, (gap, a) :: ps =>
      ⟨a.symbol, offset + gap.1.length, offset + gap.1.length + a.text.length⟩ ::
        placed (offset + gap.1.length + a.text.length) ps

def WellParted (ps : List (Blanks × Word)) : Prop :=
  ps.IsChain fun p q => p.2.Parted q.1 q.2

section Blank

variable {c : Char} {t : Text}

theorem Text.isBlank_of_isDigit (h : c.isDigit = true) : isBlank c = false := by
  have hdigit : 0x30 ≤ c.toNat ∧ c.toNat ≤ 0x39 := by
    simpa [Char.isDigit, UInt32.le_iff_toNat_le] using h
  rw [Bool.eq_false_iff]
  intro hblank
  obtain ⟨r, hr, hfirst, hlast⟩ := Run.cover_iff.1 hblank
  simp only [blanks, List.mem_cons, List.not_mem_nil, or_false] at hr
  rcases hr with rfl | rfl | rfl | rfl | rfl | rfl | rfl | rfl | rfl | rfl <;>
    simp only at hfirst hlast <;> omega

theorem Text.isBlank_of_digit_or_point (h : c.isDigit = true ∨ c = '.') : isBlank c = false := by
  rcases h with h | rfl
  · exact isBlank_of_isDigit h
  · decide

theorem Numeral.stopsAt_of_isBlank {pointed : Bool} (h : Text.isBlank c = true) (t : Text) :
    StopsAt pointed (c :: t) := by
  have hnot : ¬ (c.isDigit = true ∨ c = '.') := by
    intro hc
    rw [Text.isBlank_of_digit_or_point hc] at h
    cases h
  rw [stopsAt_cons]
  constructor
  · simpa using fun hc => hnot (Or.inl hc)
  · exact fun hc => absurd (Or.inr hc) hnot

theorem Numeral.stopsAt_blanks_append {pointed : Bool} (gap : Blanks)
    (h : gap.1 ≠ [] ∨ StopsAt pointed t) : StopsAt pointed (gap.1 ++ t) := by
  obtain ⟨gap, hgap⟩ := gap
  cases gap with
  | nil => exact h.resolve_left fun hne => hne rfl
  | cons c gap => exact stopsAt_of_isBlank (hgap c (by simp)) _

theorem Found.ofText_blanks_append (gap : Blanks) (t : Text) :
    ofText (gap.1 ++ t) = ⟨gap.1.length + (ofText t).gap, (ofText t).token, (ofText t).width⟩ := by
  have hcount : blankCount (gap.1 ++ t) = gap.1.length + blankCount t := by
    rw [blankCount, List.takeWhile_append_of_pos gap.2, List.length_append, blankCount]
  simp only [ofText, hcount, Text.trimStart_append gap.2]

theorem Found.ofText_cons (h : Text.isBlank c = false) (t : Text) :
    ofText (c :: t) = ⟨0, (Token.front (c :: t)).1, (Token.front (c :: t)).2⟩ := by
  have hcount : blankCount (c :: t) = 0 := by
    rw [blankCount, List.takeWhile_cons_of_neg (by simp [h])]
    rfl
  simp only [ofText, hcount, Text.trimStart_of_not_isBlank h]

end Blank

namespace Word

variable {a b : Word} {gap : Blanks} {rest : Text}

theorem text_eq_cons (a : Word) : ∃ c t, a.text = c :: t ∧ Text.isBlank c = false := by
  cases a with
  | number x =>
      obtain ⟨c, t, hx, -⟩ := x.2.exists_begins
      exact ⟨c, t, hx, Text.isBlank_of_digit_or_point (x.2.digit_or_point c (by simp [hx]))⟩
  | additive op => cases op <;> exact ⟨_, _, rfl, by decide⟩
  | multiplicative op => cases op <;> exact ⟨_, _, rfl, by decide⟩
  | lparen => exact ⟨_, _, rfl, by decide⟩
  | rparen => exact ⟨_, _, rfl, by decide⟩

theorem front_text_append (h : a.EndsBefore rest) :
    Token.front (a.text ++ rest) = (.symbol a.symbol, a.text.length) := by
  cases a with
  | number x =>
      obtain ⟨c, y, hx, hbegins⟩ := x.2.exists_begins
      have hlexeme : Numeral.front false (x.1 ++ rest) = x.1 := x.2.front_append h
      have htoken : Token.front (x.1 ++ rest) =
          (.symbol (.number (Numeral.value (Numeral.front false (x.1 ++ rest)))),
            (Numeral.front false (x.1 ++ rest)).length) := by
        rw [hx, List.cons_append, Token.front, if_pos hbegins]
      rw [text, symbol, htoken, hlexeme]
  | additive op => cases op <;> rfl
  | multiplicative op => cases op <;> rfl
  | lparen => rfl
  | rparen => rfl

theorem found_written (gap : Blanks) (h : a.EndsBefore rest) :
    Found.ofText (gap.1 ++ (a.text ++ rest)) =
      ⟨gap.1.length, .symbol a.symbol, a.text.length⟩ := by
  obtain ⟨c, t, ha, hc⟩ := a.text_eq_cons
  have hfront := front_text_append h
  rw [ha, List.cons_append] at hfront
  rw [Found.ofText_blanks_append, ha, List.cons_append, Found.ofText_cons hc, hfront, Nat.add_zero]

theorem Parted.endsBefore (h : a.Parted gap b) (rest : Text) :
    a.EndsBefore (gap.1 ++ (b.text ++ rest)) := by
  cases a with
  | number x =>
      apply Numeral.stopsAt_blanks_append
      cases b with
      | number y =>
          refine h.imp_right ?_
          rintro ⟨hx, hy⟩ c hc
          obtain ⟨z, hz⟩ := List.head?_eq_some_iff.1 hy
          simp only [text, hz, List.cons_append, List.head?_cons, Option.mem_some_iff] at hc
          subst hc
          exact ⟨by decide, fun _ => by simpa using hx⟩
      | additive op => cases op <;> exact Or.inr (Numeral.stopsAt_cons.2 ⟨by decide, by simp⟩)
      | multiplicative op => cases op <;> exact Or.inr (Numeral.stopsAt_cons.2 ⟨by decide, by simp⟩)
      | lparen => exact Or.inr (Numeral.stopsAt_cons.2 ⟨by decide, by simp⟩)
      | rparen => exact Or.inr (Numeral.stopsAt_cons.2 ⟨by decide, by simp⟩)
  | additive op => trivial
  | multiplicative op => trivial
  | lparen => trivial
  | rparen => trivial

theorem endsBefore_blanks (a : Word) (tail : Blanks) : a.EndsBefore tail.1 := by
  cases a with
  | number x =>
      rw [← List.append_nil tail.1]
      exact Numeral.stopsAt_blanks_append tail (Or.inr (Numeral.stopsAt_nil _))
  | additive op => trivial
  | multiplicative op => trivial
  | lparen => trivial
  | rparen => trivial

end Word

variable {ps : List (Blanks × Word)}

theorem WellParted.endsBefore {gap : Blanks} {a : Word} (h : WellParted ((gap, a) :: ps))
    (tail : Blanks) : a.EndsBefore (written ps tail) := by
  cases ps with
  | nil => exact a.endsBefore_blanks tail
  | cons p ps => exact (List.isChain_cons_cons.1 h).1.endsBefore (written ps tail)

theorem found_blanks (tail : Blanks) :
    Found.ofText tail.1 = ⟨tail.1.length, .ending .endOfLine, 0⟩ := by
  have hfound := Found.ofText_blanks_append tail []
  rwa [List.append_nil] at hfound

theorem Lexed.ofText_written (offset : Nat) (h : WellParted ps) (tail : Blanks) :
    ofText offset (written ps tail) =
      ⟨placed offset ps, .endOfLine, offset + (written ps tail).length⟩ := by
  induction ps generalizing offset with
  | nil =>
      have hfound := found_blanks tail
      rw [written, ofText_of_ending (e := .endOfLine) (by rw [hfound]), hfound]
      rfl
  | cons p ps ih =>
      obtain ⟨gap, a⟩ := p
      have hfound := Word.found_written gap (h.endsBefore tail)
      have hrest : (gap.1 ++ (a.text ++ written ps tail)).drop (gap.1.length + a.text.length) =
          written ps tail := by
        rw [← List.append_assoc, List.drop_left' (by simp)]
      rw [written, ofText_of_symbol (s := a.symbol) (by rw [hfound])]
      simp only [hfound, hrest, ih _ h.tail, placed, List.length_append, Nat.add_assoc]

theorem getElem?_placed (offset : Nat) (front : List (Blanks × Word)) (gap : Blanks) (a : Word)
    (back : List (Blanks × Word)) :
    (placed offset (front ++ (gap, a) :: back))[front.length]? =
      some ⟨a.symbol, offset + (written front gap).length,
        offset + (written front gap).length + a.text.length⟩ := by
  induction front generalizing offset with
  | nil => rfl
  | cons p front ih =>
      rw [List.cons_append, placed, List.length_cons, List.getElem?_cons_succ, ih]
      simp only [written, List.length_append, Nat.add_assoc]

theorem length_placed (offset : Nat) (ps : List (Blanks × Word)) :
    (placed offset ps).length = ps.length := by
  induction ps generalizing offset with
  | nil => rfl
  | cons p ps ih => rw [placed, List.length_cons, List.length_cons, ih]

theorem scans_find_written_words (ps : List (Blanks × Word)) (tail : Blanks) (h : WellParted ps) :
    walk (written ps tail) (ps.length + 1) 0 = (placed 0 ps).map Lexeme.scanned ++
        [⟨.ending .endOfLine, (written ps tail).length, (written ps tail).length⟩] ∧
      Lexed.ofLine (written ps tail) = ⟨placed 0 ps, .endOfLine, (written ps tail).length⟩ ∧
      ∀ front gap a back, ps = front ++ (gap, a) :: back →
        (placed 0 ps)[front.length]? = some ⟨a.symbol, (written front gap).length,
          (written front gap).length + a.text.length⟩ := by
  have hlexed : Lexed.ofLine (written ps tail) =
      ⟨placed 0 ps, .endOfLine, (written ps tail).length⟩ := by
    rw [Lexed.ofLine, Lexed.ofText_written 0 h tail, Nat.zero_add]
  refine ⟨?_, hlexed, ?_⟩
  · have hscanned := Lexed.scanned_ofLine (written ps tail)
    rw [Lexed.length_tokens, hlexed, length_placed] at hscanned
    exact hscanned.symm
  · rintro front gap a back rfl
    simpa using getElem?_placed 0 front gap a back

theorem scans_of_points_in_a_row :
    ∃ (ps : List (Blanks × Word)) (tail : Blanks),
      WellParted ps ∧ written ps tail = "1.2.3 4".toList ∧
      walk "1.2.3 4".toList 4 0 =
        [⟨.symbol (.number (12 / 10)), 0, 3⟩, ⟨.symbol (.number (3 / 10)), 3, 5⟩,
          ⟨.symbol (.number 4), 6, 7⟩, ⟨.ending .endOfLine, 7, 7⟩] := by
  let none : Blanks := ⟨[], List.forall_mem_nil _⟩
  let space : Blanks := ⟨[' '], List.all_eq_true.1 (by decide)⟩
  let ps : List (Blanks × Word) := [(none, .number ⟨"1.2".toList, by decide⟩),
    (none, .number ⟨".3".toList, by decide⟩), (space, .number ⟨"4".toList, by decide⟩)]
  have hparted : WellParted ps :=
    .cons_cons (Or.inr (by decide)) (.cons_cons (Or.inl (by decide)) (.singleton _))
  have hvalues : Numeral.value "1.2".toList = 12 / 10 ∧ Numeral.value ".3".toList = 3 / 10 ∧
      Numeral.value "4".toList = 4 := by
    decide +kernel
  obtain ⟨h12, h3, h4⟩ := hvalues
  have hscans := (scans_find_written_words ps none hparted).1
  simp only [ps, placed, Word.symbol, h12, h3, h4] at hscans
  exact ⟨ps, none, hparted, rfl, hscans⟩

end LineCalculator
