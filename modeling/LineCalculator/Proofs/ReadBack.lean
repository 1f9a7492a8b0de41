import LineCalculator.Proofs.NumeralFold
import LineCalculator.Proofs.PrintedNumber

namespace LineCalculator

section Lines

variable {t rest : Text} {w : Float} {start stop offset : Nat} {ending : Ending}

theorem evaluate_of_ofLine_number
    (h : Lexed.ofLine t = ⟨[⟨.number w, start, stop⟩], ending, offset⟩) :
    evaluate t = if ending = .endOfLine then .ok w
      else .error ⟨.ofToken Lexed.unexpectedRest (.ending ending), offset⟩ := by
  rw [evaluate, h]
  cases ending <;> rfl

theorem evaluate_minus (t : Text) :
    evaluate ('-' :: t) = .error ⟨.unexpectedToken unexpectedOperand, 0⟩ := by
  have hfound : Found.ofText ('-' :: t) = ⟨0, .symbol (.additive .minus), 1⟩ := rfl
  rw [evaluate, Lexed.ofLine, Lexed.ofText_of_symbol (s := .additive .minus) (by rw [hfound]), hfound]
  rfl

namespace Lexed

variable (p : Numeral.Parts)

theorem ofLine_numeral_append (h : Numeral.StopsAt (p.text.contains '.') rest) :
    ofLine (p.text ++ rest) =
      { ofText p.text.length rest with
        lexemes := ⟨.number (Numeral.value p.text), 0, p.text.length⟩ ::
          (ofText p.text.length rest).lexemes } := by
  have hfound := Word.found_written (⟨[], List.forall_mem_nil _⟩ : Blanks)
    (a := .number ⟨p.text, Numeral.isNumeral_text p⟩) h
  simp only [Word.text, Word.symbol, List.nil_append, List.length_nil] at hfound
  rw [ofLine, ofText_of_symbol (s := .number (Numeral.value p.text)) (by rw [hfound]), hfound]
  simp only [Nat.zero_add, List.drop_left]

theorem ofLine_numeral :
    ofLine p.text = ⟨[⟨.number (Numeral.value p.text), 0, p.text.length⟩], .endOfLine,
      p.text.length⟩ := by
  have hline := ofLine_numeral_append p (Numeral.stopsAt_nil _)
  rwa [List.append_nil, ofText_of_ending (t := []) (e := .endOfLine) rfl] at hline

theorem ofLine_numeral_scaled (e : Decimal.Scale) :
    ofLine (p.text ++ e.text) = ⟨[⟨.number (Numeral.value p.text), 0, p.text.length⟩],
      .invalid 'e', p.text.length⟩ := by
  have hfound : Found.ofText e.text = ⟨0, .ending (.invalid 'e'), 0⟩ := rfl
  have hstops : Numeral.StopsAt (p.text.contains '.') e.text :=
    Numeral.stopsAt_cons.2 ⟨by decide, by simp⟩
  have hline := ofLine_numeral_append p hstops
  rwa [ofText_of_ending (e := .invalid 'e') (by rw [hfound]), hfound] at hline

end Lexed

end Lines

namespace Decimal

def parts (d : Decimal) : Numeral.Parts where
  whole := d.whole
  fraction := if d.fraction = [] then none else some d.fraction
  whole_allDigits := d.whole_allDigits
  fraction_allDigits := by
    split_ifs
    · rintro _ ⟨⟩
    · rintro _ ⟨⟩
      exact d.fraction_allDigits
  ne_nil := Or.inl d.whole_ne_nil

variable (d : Decimal)

theorem text_of_nonneg (h : d.negative = false) :
    d.text = d.parts.text ++ d.scale.elim [] Scale.text := by
  have hpoint : point d.fraction = d.parts.fraction.elim [] ('.' :: ·) := by
    rw [point, parts]
    split_ifs <;> rfl
  simp only [text, h, Numeral.Parts.text, ← hpoint]
  simp [parts]

theorem exactValue_parts (h : d.negative = false) (hscale : d.scale = none) :
    Numeral.exactValue d.parts.text = d.value := by
  have hfraction : d.parts.fraction.getD [] = d.fraction := by
    rw [parts]
    split_ifs with hnil
    · exact hnil.symm
    · rfl
  rw [Numeral.exactValue_text, Numeral.Parts.natural, Numeral.Parts.places, hfraction, value, h,
    hscale]
  simp [signed, parts, div_eq_mul_inv]

end Decimal

def Readable (v : Float) : Prop :=
  v = 0 ∨ ∃ x, (Double.ofFloat v).value? = some x ∧ 9999995 / 10 ^ 11 < x ∧ x < 9999995 / 10

def RoundsTo (v : Float) (y : ℚ) : Prop :=
  v = 0 ∧ y = 0 ∨ ∃ x s, (Double.ofFloat v).value? = some x ∧ Significant.Rounds 6 x s ∧
    y = s.value 6

def Numeral.Parts.zero : Parts where
  whole := ['0']
  fraction := none
  whole_allDigits := by simp [Text.AllDigits]
  fraction_allDigits := by rintro _ ⟨⟩
  ne_nil := Or.inl (List.cons_ne_nil _ _)

inductive Printed (v : Float) : Text → Prop
  | plain (p : Numeral.Parts) : Readable v → RoundsTo v (Numeral.exactValue p.text) →
      Printed v p.text
  | scaled (p : Numeral.Parts) (e : Decimal.Scale) : ¬ Readable v → Printed v (p.text ++ e.text)
  | negative (t : Text) : ¬ Readable v → Printed v ('-' :: t)
  | infinite : ¬ Readable v → Printed v "inf".toList
  | nan : ¬ Readable v → Printed v "nan".toList

section Forms

open Double

variable {v : Float} {m : ℕ} {q : ℤ}

theorem ofFloat_zero : ofFloat 0 = .finite false 0 (-1074) := by
  decide +kernel

theorem eq_zero_of_ofFloat (h : ofFloat v = .finite false 0 q) : v = 0 := by
  have hlt := v.toBits.toNat_lt
  simp only [ofFloat, ofBits] at h
  split_ifs at h with hall hzero hfield
  · simp only [finite.injEq, decide_eq_false_iff_not] at h
    have hbits : v.toBits = (0 : Float).toBits := by
      rw [← UInt64.toNat_inj]
      change v.toBits.toNat = 0
      omega
    exact Float.toBits_inj.1 hbits
  · simp at h

theorem Readable.exists_finite (h : Readable v) : ∃ m q, ofFloat v = .finite false m q := by
  rcases h with rfl | ⟨x, hx, hlow, -⟩
  · exact ⟨_, _, ofFloat_zero⟩
  · cases hv : ofFloat v with
    | nan => simp [hv, value?] at hx
    | infinite n => simp [hv, value?] at hx
    | finite n m q =>
        cases n with
        | false => exact ⟨m, q, rfl⟩
        | true =>
            simp only [hv, value?, signed, if_true, Option.some.injEq] at hx
            have hpos : (0 : ℚ) ≤ m * 2 ^ q := by positivity
            linarith

theorem ne_of_dyadic (m : ℕ) (q : ℤ) : (m : ℚ) * 2 ^ q ≠ 9999995 / 10 ^ 11 := by
  rw [← numerator_div_denominator]
  intro h
  rw [div_eq_div_iff (by exact_mod_cast (denominator_pos q).ne') (by norm_num)] at h
  have hnat : numerator m q * 10 ^ 11 = 9999995 * 2 ^ (-q).toNat := by exact_mod_cast h
  -- The bound has more fives below the line than above it.
  have hdvd : 25 ∣ 9999995 * 2 ^ (-q).toNat := by
    rw [← hnat]
    exact Dvd.dvd.mul_left (by norm_num) _
  have hcoprime : Nat.Coprime 25 (2 ^ (-q).toNat) := Nat.Coprime.pow_right _ (by norm_num)
  exact absurd (hcoprime.dvd_of_dvd_mul_right hdvd) (by norm_num)

theorem readable_iff (hv : ofFloat v = .finite false m q) (hm : 0 < m) :
    Readable v ↔ 9999995 / 10 ^ 11 ≤ (m : ℚ) * 2 ^ q ∧ (m : ℚ) * 2 ^ q < 9999995 / 10 := by
  have hvalue : (ofFloat v).value? = some (m * 2 ^ q : ℚ) := by
    rw [hv]
    rfl
  have hne := ne_of_dyadic m q
  constructor
  · rintro (rfl | ⟨x, hx, hlow, hhigh⟩)
    · rw [ofFloat_zero] at hv
      cases hv
      exact absurd hm (Nat.lt_irrefl 0)
    · rw [hvalue] at hx
      cases hx
      exact ⟨hlow.le, hhigh⟩
  · rintro ⟨hlow, hhigh⟩
    exact Or.inr ⟨_, hvalue, lt_of_le_of_ne hlow hne.symm, hhigh⟩

theorem printed_finite (hv : ofFloat v = .finite false m q) (hm : 0 < m) :
    Printed v (generalText v) := by
  obtain ⟨s, d, hrounds, htext, hnegative, hlaid⟩ :=
    Layout.exists_text (l := .general) (by decide) (by decide) false hm q
  rw [← hv] at htext
  change d.text = generalText v at htext
  have hlow := hrounds.le_exponent_iff (by decide) (-4)
  have hhigh := hrounds.le_exponent_iff (by decide) 6
  have hreadable : Readable v ↔ d.scale = none := by
    have hscale : d.scale = none ↔ -4 ≤ s.exponent ∧ ¬ 6 ≤ s.exponent := by
      rw [not_le]
      exact hlaid.positional_iff
    rw [readable_iff hv hm, hscale, hlow, hhigh, not_le]
    norm_num [Layout.general]
  rw [← htext, d.text_of_nonneg hnegative]
  cases hscale : d.scale with
  | none =>
      have hvalue := d.exactValue_parts hnegative hscale
      rw [hlaid.value_eq, hnegative] at hvalue
      rw [Option.elim_none, List.append_nil]
      refine .plain d.parts (hreadable.2 hscale) (Or.inr ⟨_, s, ?_, hrounds, hvalue⟩)
      rw [hv]
      rfl
  | some e =>
      refine .scaled d.parts e fun h => ?_
      rw [hreadable.1 h] at hscale
      cases hscale

theorem printed_zero : Printed 0 (generalText 0) := by
  have htext : generalText 0 = Numeral.Parts.zero.text := by
    rw [generalText, ofFloat_zero]
    rfl
  have hnatural : Numeral.Parts.zero.natural = 0 := rfl
  rw [htext]
  refine .plain _ (Or.inl rfl) (Or.inl ⟨rfl, ?_⟩)
  rw [Numeral.exactValue_text, hnatural, Nat.cast_zero, zero_div]

theorem printed_generalText (v : Float) : Printed v (generalText v) := by
  have hnone : (∀ m q, ofFloat v ≠ .finite false m q) → ¬ Readable v := fun hne h => by
    obtain ⟨m, q, hv⟩ := h.exists_finite
    exact hne m q hv
  cases hv : ofFloat v with
  | nan =>
      rw [generalText, hv]
      exact .nan (hnone (by simp [hv]))
  | infinite n =>
      have hnot := hnone (by simp [hv])
      rw [generalText, hv]
      cases n with
      | false => exact .infinite hnot
      | true => exact .negative _ hnot
  | finite n m q =>
      cases n with
      | true =>
          have hnot := hnone (by simp [hv])
          rw [generalText, hv]
          exact .negative _ hnot
      | false =>
          rcases Nat.eq_zero_or_pos m with rfl | hm
          · obtain rfl := eq_zero_of_ofFloat hv
            exact printed_zero
          · exact printed_finite hv hm

end Forms

theorem Numeral.Parts.not_mem_text (p : Parts) {c : Char} (hc : c.isDigit = false)
    (hpoint : c ≠ '.') : c ∉ p.text := fun hmem => by
  rcases (isNumeral_text p).digit_or_point c hmem with h | h
  · rw [hc] at h
    cases h
  · exact hpoint h

namespace Printed

variable {v : Float} {s : Text}

theorem evaluate_readable (h : Printed v s) (hv : Readable v) :
    evaluate s = .ok (Numeral.value s) ∧
      Lexed.ofLine s = ⟨[⟨.number (Numeral.value s), 0, s.length⟩], .endOfLine, s.length⟩ ∧
      RoundsTo v (Numeral.exactValue s) := by
  cases h with
  | plain p _ hrounds =>
      have hline := Lexed.ofLine_numeral p
      refine ⟨?_, hline, hrounds⟩
      rw [evaluate_of_ofLine_number hline]
      rfl
  | scaled p e hnot => exact absurd hv hnot
  | negative t hnot => exact absurd hv hnot
  | infinite hnot => exact absurd hv hnot
  | nan hnot => exact absurd hv hnot

theorem evaluate_scaled (h : Printed v s) (hhead : s.head? ≠ some '-') (he : 'e' ∈ s) :
    evaluate s = .error ⟨.invalidCharacter Lexed.unexpectedRest 'e', s.idxOf 'e'⟩ := by
  cases h with
  | plain p _ _ => exact absurd he (p.not_mem_text (by decide) (by decide))
  | scaled p e _ =>
      have hidx : (p.text ++ e.text).idxOf 'e' = p.text.length := by
        rw [List.idxOf_append_of_notMem (p.not_mem_text (by decide) (by decide)),
          Decimal.Scale.text, List.idxOf_cons_self, Nat.add_zero]
      rw [evaluate_of_ofLine_number (Lexed.ofLine_numeral_scaled p e), hidx]
      rfl
  | negative t _ => exact absurd rfl hhead
  | infinite _ => exact absurd he (by decide)
  | nan _ => exact absurd he (by decide)

theorem shape (h : Printed v s) (hv : ¬ Readable v) :
    s.head? = some '-' ∨ s = "inf".toList ∨ s = "nan".toList ∨
      s.head? ≠ some '-' ∧ 'e' ∈ s := by
  cases h with
  | plain p hread _ => exact absurd hread hv
  | scaled p e _ =>
      obtain ⟨c, x, hx, hbegins⟩ := (Numeral.isNumeral_text p).exists_begins
      refine Or.inr (Or.inr (Or.inr ⟨?_, by simp [Decimal.Scale.text]⟩))
      rw [hx]
      rintro ⟨⟩
      cases hbegins
  | negative t _ => exact Or.inl rfl
  | infinite _ => exact Or.inr (Or.inl rfl)
  | nan _ => exact Or.inr (Or.inr (Or.inl rfl))

end Printed

theorem evaluate_generalText (v : Float) :
    ((∃ r, evaluate (generalText v) = .ok r) ↔ Readable v) ∧
      (Readable v →
        evaluate (generalText v) = .ok (Numeral.value (generalText v)) ∧
        Lexed.ofLine (generalText v) =
          ⟨[⟨.number (Numeral.value (generalText v)), 0, (generalText v).length⟩], .endOfLine,
            (generalText v).length⟩ ∧
        RoundsTo v (Numeral.exactValue (generalText v))) ∧
      (¬ Readable v → (generalText v).head? = some '-' ∨ generalText v = "inf".toList ∨
        generalText v = "nan".toList ∨
          (generalText v).head? ≠ some '-' ∧ 'e' ∈ generalText v) ∧
      ((generalText v).head? = some '-' →
        evaluate (generalText v) = .error ⟨.unexpectedToken "Unexpected token".toList, 0⟩) ∧
      (generalText v = "inf".toList →
        evaluate (generalText v) = .error ⟨.invalidCharacter "Unexpected token".toList 'i', 0⟩) ∧
      (generalText v = "nan".toList →
        evaluate (generalText v) = .error ⟨.invalidCharacter "Unexpected token".toList 'n', 0⟩) ∧
      ((generalText v).head? ≠ some '-' → 'e' ∈ generalText v →
        evaluate (generalText v) = .error ⟨.invalidCharacter
          "Unexpected token after expression".toList 'e', (generalText v).idxOf 'e'⟩) := by
  have hprinted := printed_generalText v
  generalize generalText v = s at hprinted
  have hminus : s.head? = some '-' → evaluate s =
      .error ⟨.unexpectedToken "Unexpected token".toList, 0⟩ := fun hhead => by
    obtain ⟨t, rfl⟩ := List.head?_eq_some_iff.1 hhead
    exact evaluate_minus t
  have hinf : s = "inf".toList → evaluate s =
      .error ⟨.invalidCharacter "Unexpected token".toList 'i', 0⟩ := by
    rintro rfl
    decide +kernel
  have hnan : s = "nan".toList → evaluate s =
      .error ⟨.invalidCharacter "Unexpected token".toList 'n', 0⟩ := by
    rintro rfl
    decide +kernel
  refine ⟨⟨?_, fun hv => ⟨_, (hprinted.evaluate_readable hv).1⟩⟩, hprinted.evaluate_readable,
    hprinted.shape, hminus, hinf, hnan, hprinted.evaluate_scaled⟩
  rintro ⟨r, hr⟩
  by_contra hv
  rcases hprinted.shape hv with hshape | hshape | hshape | ⟨hhead, he⟩
  · cases hr.symm.trans (hminus hshape)
  · cases hr.symm.trans (hinf hshape)
  · cases hr.symm.trans (hnan hshape)
  · cases hr.symm.trans (hprinted.evaluate_scaled hhead he)

end LineCalculator
