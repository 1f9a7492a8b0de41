import LineCalculator.Proofs.NearDouble
import LineCalculator.Proofs.NumeralFold

namespace LineCalculator.Numeral

open Text

/-- Two roundings for each digit of the number. Zeros in front of it are not rounded. -/
def roundings (n : ℕ) : ℕ :=
  2 * (Nat.log 10 n + 1)

structure Partial.Near (s : Partial Float) (t : Partial ℕ) : Prop where
  value : Double.Within s.value t.value (roundings t.value)
  divisor : Option.Rel (fun d n => ∃ k, n = 10 ^ k ∧ Double.Within d n k) s.divisor t.divisor

section Fold

variable {s : Partial Float} {t : Partial ℕ} {x : Float} {n d : ℕ} {c : Char} {u : Text}

theorem holds_ten : Double.Holds (Float.ofNat 10) 10 :=
  Double.holds_ofNat (by norm_num)

theorem roundings_digit (hn : 0 < n) (hd : d ≤ 9) : roundings (n * 10 + d) = roundings n + 2 := by
  have hlog : Nat.log 10 (n * 10 + d) = Nat.log 10 n + 1 := by
    rw [Nat.log_of_one_lt_of_le (by norm_num) (by omega), show (n * 10 + d) / 10 = n by omega]
  rw [roundings, roundings, hlog]
  ring

theorem within_digit (h : Double.Within x n (roundings n)) (hd : d ≤ 9) :
    Double.Within (x * Float.ofNat 10 + Float.ofNat d) (n * 10 + d) (roundings (n * 10 + d)) := by
  have hdigit : Double.Holds (Float.ofNat d) d := Double.holds_ofNat (by omega)
  rcases Nat.eq_zero_or_pos n with rfl | hn
  · have hproduct := h.holds_zero.mul holds_ten (.of_le (by norm_num))
    exact (hproduct.add hdigit (.of_le (by omega))).within _
  · rw [roundings_digit hn hd]
    exact (h.mul holds_ten (by norm_num)).add hdigit

theorem Partial.Near.push_point (h : s.Near t) : (s.push Float.ofNat '.').Near (t.push id '.') :=
  ⟨h.value, .some ⟨0, (pow_zero 10).symm, (Double.holds_ofNat (by norm_num)).within 0⟩⟩

theorem Partial.Near.push_digit (h : s.Near t) (hc : c.isDigit = true) :
    (s.push Float.ofNat c).Near (t.push id c) := by
  simp only [push, if_neg (ne_point_of_isDigit hc)]
  refine ⟨within_digit h.value (digit_le hc), ?_⟩
  obtain ⟨v, o⟩ := s
  obtain ⟨w, o'⟩ := t
  cases h.divisor with
  | none => exact .none
  | some hd =>
      obtain ⟨k, rfl, hk⟩ := hd
      exact .some ⟨k + 1, (pow_succ 10 k).symm, hk.mul holds_ten (by norm_num)⟩

theorem near_fold (h : ∀ c ∈ u, c.isDigit = true ∨ c = '.') :
    (fold Float.ofNat u).Near (exactFold u) := by
  induction u using List.reverseRecOn with
  | nil => exact ⟨(Double.holds_ofNat (by norm_num)).within _, .none⟩
  | append_singleton u c ih =>
      have hu := ih fun d hd => h d (List.mem_append_left [c] hd)
      have hfold : fold Float.ofNat (u ++ [c]) = (fold Float.ofNat u).push Float.ofNat c :=
        List.foldl_append
      have hexact : exactFold (u ++ [c]) = (exactFold u).push id c := List.foldl_append
      rw [hfold, hexact]
      rcases h c (by simp) with hc | rfl
      · exact hu.push_digit hc
      · exact hu.push_point

end Fold

section Digits

variable {s s' : Partial Float}

def Parts.digits (p : Parts) : Text :=
  p.whole ++ p.fraction.getD []

theorem Parts.allDigits_digits (p : Parts) : p.digits.AllDigits := by
  refine allDigits_append.2 ⟨p.whole_allDigits, ?_⟩
  cases hfraction : p.fraction with
  | none => exact List.forall_mem_nil _
  | some f => exact p.fraction_allDigits f hfraction

theorem value_foldl_congr (x : Text) (h : s.value = s'.value) :
    (x.foldl (Partial.push Float.ofNat) s).value =
      (x.foldl (Partial.push Float.ofNat) s').value := by
  induction x generalizing s s' with
  | nil => exact h
  | cons c x ih =>
      refine ih ?_
      simp only [Partial.push]
      split_ifs
      · exact h
      · rw [h]

theorem value_fold_text (p : Parts) :
    (fold Float.ofNat p.text).value = (fold Float.ofNat p.digits).value := by
  rw [Parts.text, Parts.digits]
  cases p.fraction with
  | none => rfl
  | some f =>
      simp only [Option.elim_some, Option.getD_some, fold, List.foldl_append, List.foldl_cons]
      exact value_foldl_congr f rfl

theorem value_digits (p : Parts) : value p.digits = (fold Float.ofNat p.text).value := by
  have hnear := near_fold fun c hc => Or.inl (p.allDigits_digits c hc)
  rw [exactFold_digits p.allDigits_digits] at hnear
  rw [value_fold_text, Numeral.value]
  generalize fold Float.ofNat p.digits = s at hnear
  obtain ⟨v, o⟩ := s
  cases hnear.divisor with
  | none => rfl

end Digits

section Range

open Double

variable {p : Parts}

theorem near_quotient (p : Parts) : Within (value p.digits) p.natural (roundings p.natural) ∧
    (p.places = 0 ∧ value p.text = value p.digits ∨
      ∃ d, Within d (10 ^ p.places) p.places ∧ value p.text = value p.digits / d) := by
  have hnear := near_fold fun c hc => (isNumeral_text p).digit_or_point c hc
  rw [exactFold_text] at hnear
  rw [value_digits, Numeral.value, Parts.places]
  generalize fold Float.ofNat p.text = s at hnear
  obtain ⟨v, o⟩ := s
  refine ⟨hnear.value, ?_⟩
  have hdivisor := hnear.divisor
  cases hfraction : p.fraction with
  | none =>
      rw [hfraction] at hdivisor
      cases hdivisor with
      | none => exact Or.inl ⟨rfl, rfl⟩
  | some f =>
      rw [hfraction] at hdivisor
      cases hdivisor with
      | some hd =>
          obtain ⟨k, hk, hwithin⟩ := hd
          obtain rfl : f.length = k := Nat.pow_right_injective (by norm_num : 2 ≤ 10) hk
          exact Or.inr ⟨_, hwithin, rfl⟩

theorem exists_value_iff (p : Parts) : (∃ q, (ofFloat (value p.text)).value? = some q) ↔
    ∃ q, (ofFloat (value p.digits)).value? = some q := by
  obtain ⟨hdigits, hquotient⟩ := near_quotient p
  rcases hquotient with ⟨-, hvalue⟩ | ⟨d, hd, hvalue⟩
  · rw [hvalue]
  · rw [hvalue]
    rcases hdigits.holds_or_infinity with ⟨a, ha, -⟩ | hinfinity
    · refine iff_of_true ?_ ⟨a, ha.value?⟩
      rcases hd.holds_or_infinity with ⟨b, hb, hpos⟩ | hdivisor
      · exact ha.exists_value_div hb (hpos (by positivity))
      · exact ⟨0, ha.div_infinity hdivisor⟩
    · refine iff_of_false ?_ ?_
      · rcases hd.holds_or_infinity with ⟨b, hb, -⟩ | hdivisor
        · simp [ofFloat_infinity_div hinfinity hb, value?]
        · simp [ofFloat_infinity_div_infinity hinfinity hdivisor, value?]
      · simp [ofFloat_infinity hinfinity, value?]

theorem roundings_le {n k : ℕ} (h : n ≤ 10 ^ k) : roundings n ≤ 2 * (k + 1) := by
  have hlog : Nat.log 10 n ≤ k :=
    (Nat.log_mono_right h).trans_eq (Nat.log_pow (by norm_num) k)
  rw [roundings]
  omega

theorem exists_holds_digits (h : p.natural ≤ 10 ^ 308) : ∃ a, Holds (value p.digits) a := by
  obtain ⟨a, ha, -⟩ := (near_quotient p).1.exists_holds h (roundings_le h)
  exact ⟨a, ha⟩

theorem infinity_of_le {x : Float} {n k : ℕ} (hx : Within x n (roundings n)) (hk : 309 ≤ k)
    (h : 10 ^ k ≤ n) : x.toModel.unpack = .infinity .positive := by
  have hpos : 0 < n := (Nat.pow_pos (by norm_num)).trans_le h
  exact hx.unpack_eq_infinity (hk.trans (Nat.le_log_of_pow_le (by norm_num) h))
    (Nat.pow_log_le_self 10 hpos.ne') le_rfl

theorem infinity_digits (h : 10 ^ 309 ≤ p.natural) :
    (value p.digits).toModel.unpack = .infinity .positive :=
  infinity_of_le (near_quotient p).1 le_rfl h

theorem infinity_divisor {d : Float} (hd : Within d (10 ^ p.places) p.places)
    (h : 308 < p.places) : d.toModel.unpack = .infinity .positive :=
  hd.unpack_eq_infinity h le_rfl (by omega)

theorem exists_value (h : p.natural ≤ 10 ^ 308) :
    ∃ q, (ofFloat (value p.text)).value? = some q := by
  obtain ⟨a, ha⟩ := exists_holds_digits h
  exact (exists_value_iff p).2 ⟨a, ha.value?⟩

theorem value_eq_zero (hnatural : p.natural ≤ 10 ^ 308) (hplaces : 308 < p.places) :
    (ofFloat (value p.text)).value? = some 0 := by
  obtain ⟨a, ha⟩ := exists_holds_digits hnatural
  obtain ⟨d, hd, hvalue⟩ := (near_quotient p).2.resolve_left fun h => by omega
  rw [hvalue]
  exact ha.div_infinity (infinity_divisor hd hplaces)

theorem value_eq_infinite (hnatural : 10 ^ 309 ≤ p.natural) (hplaces : p.places ≤ 308) :
    ofFloat (value p.text) = .infinite false := by
  have hinfinity := infinity_digits hnatural
  rcases (near_quotient p).2 with ⟨-, hvalue⟩ | ⟨d, hd, hvalue⟩
  · rw [hvalue, ofFloat_infinity hinfinity]
  · have hpow : 10 ^ p.places ≤ 10 ^ 308 := by gcongr; norm_num
    obtain ⟨b, hb, -⟩ := hd.exists_holds hpow (by omega)
    rw [hvalue]
    exact ofFloat_infinity_div hinfinity hb

theorem value_eq_nan (hnatural : 10 ^ 309 ≤ p.natural) (hplaces : 308 < p.places) :
    ofFloat (value p.text) = .nan := by
  obtain ⟨d, hd, hvalue⟩ := (near_quotient p).2.resolve_left fun h => by omega
  rw [hvalue]
  exact ofFloat_infinity_div_infinity (infinity_digits hnatural) (infinity_divisor hd hplaces)

theorem natural_le_of_exactValue_lt (h : exactValue p.text < 2 ^ 1023) (hplaces : p.places = 0) :
    p.natural ≤ 10 ^ 308 := by
  have hpow : 2 ^ 1023 ≤ 10 ^ 308 := by decide +kernel
  rw [exactValue_text, hplaces, pow_zero, div_one] at h
  exact le_trans (le_of_lt (by exact_mod_cast h)) hpow

theorem value_range (p : Parts) :
    scan p.text 0 = ⟨.symbol (.number (value p.text)), 0, p.text.length⟩ ∧
      exactValue p.text = p.natural / 10 ^ p.places ∧
      ((∃ q, (ofFloat (value p.text)).value? = some q) ↔
        ∃ q, (ofFloat (value p.digits)).value? = some q) ∧
      (exactValue p.text < 2 ^ 1023 → p.places = 0 ∨ p.natural ≤ 10 ^ 308 →
        ∃ q, (ofFloat (value p.text)).value? = some q) ∧
      (p.natural ≤ 10 ^ 308 → 308 < p.places → (ofFloat (value p.text)).value? = some 0) ∧
      (10 ^ 309 ≤ p.natural → p.places ≤ 308 → ofFloat (value p.text) = .infinite false) ∧
      (10 ^ 309 ≤ p.natural → 308 < p.places → ofFloat (value p.text) = .nan) := by
  refine ⟨scan_text p, exactValue_text p, exists_value_iff p, fun hvalue hlength => ?_,
    value_eq_zero, value_eq_infinite, value_eq_nan⟩
  rcases hlength with hplaces | hnatural
  · exact exists_value (natural_le_of_exactValue_lt hvalue hplaces)
  · exact exists_value hnatural

def longOne (k : ℕ) : Parts where
  whole := ['1']
  fraction := some (List.replicate k '0')
  whole_allDigits := by
    rintro c hc
    rw [List.mem_singleton.1 hc]
    rfl
  fraction_allDigits := by
    rintro _ ⟨⟩ c hc
    rw [List.eq_of_mem_replicate hc]
    rfl
  ne_nil := Or.inl (by decide)

theorem natural_longOne (k : ℕ) : (longOne k).natural = 10 ^ k := by
  have hone : Text.natural ['1'] = 1 := rfl
  simp only [longOne, Parts.natural, Option.getD_some]
  rw [natural_append, natural_replicate_zero, hone, List.length_replicate, one_mul, add_zero]

theorem places_longOne (k : ℕ) : (longOne k).places = k :=
  List.length_replicate

theorem length_longOne (k : ℕ) : (longOne k).text.length = k + 2 := by
  simp [longOne, Parts.text]

theorem exactValue_longOne (k : ℕ) : exactValue (longOne k).text = 1 := by
  rw [exactValue_text, natural_longOne, places_longOne]
  push_cast
  exact div_self (by positivity)

theorem value_longOne {k : ℕ} (hk : 309 ≤ k) : ofFloat (value (longOne k).text) = .nan := by
  refine value_eq_nan ?_ ?_
  · rw [natural_longOne]
    gcongr
    norm_num
  · rwa [places_longOne]

theorem longOne_unread : exactValue (longOne 309).text < 2 ^ 1023 ∧
    scan (longOne 309).text 0 = ⟨.symbol (.number (value (longOne 309).text)), 0, 311⟩ ∧
    ¬ ∃ q, (ofFloat (value (longOne 309).text)).value? = some q := by
  refine ⟨?_, by rw [scan_text, length_longOne], ?_⟩
  · rw [exactValue_longOne]
    exact one_lt_pow₀ (by norm_num) (by norm_num)
  · rw [value_longOne le_rfl]
    rintro ⟨q, hq⟩
    cases hq

end Range

end LineCalculator.Numeral
