import LineCalculator.Calculator.Loop
import LineCalculator.Proofs.Decimal
import LineCalculator.Proofs.Nearest

namespace LineCalculator

structure Decimal.LaidOut (l : Layout) (s : Significant) (d : Decimal) : Prop where
  value_eq : d.value = signed d.negative (s.value l.places)
  fraction_tidy : d.fraction.getLast? ≠ some '0'
  positional_iff : d.scale = none ↔ l.lowest ≤ s.exponent ∧ s.exponent < l.places
  whole_tidy : d.whole = ['0'] ∧ d.scale = none ∨ d.whole.head? ≠ some '0'
  scale_eq : ∀ e ∈ d.scale, e.value = s.exponent ∧ d.whole.length = 1 ∧
    l.exponentDigits ≤ e.digits.length ∧
    (l.exponentDigits < e.digits.length → e.digits.head? ≠ some '0')

namespace Layout

open Text

variable {l : Layout} {s : Significant}

theorem withFraction_eq (whole fraction : Text) :
    withFraction whole fraction = whole ++ Decimal.point fraction := by
  rw [withFraction, Decimal.point]
  split <;> simp

theorem isPositional_iff {e : ℤ} : l.isPositional e = true ↔ l.lowest ≤ e ∧ e < l.places := by
  simp [isPositional]

theorem head?_take {x : Text} {k : ℕ} {c : Char} (h : x.head? ≠ some c) :
    (x.take k).head? ≠ some c := by
  cases k with
  | zero => simp
  | succ k => rwa [List.head?_take, if_neg (Nat.succ_ne_zero k)]

theorem exists_scale (hdigits : 0 < l.exponentDigits) (e : ℤ) :
    ∃ x : Decimal.Scale, x.text = l.exponent e ∧ x.value = e ∧
      l.exponentDigits ≤ x.digits.length ∧
      (l.exponentDigits < x.digits.length → x.digits.head? ≠ some '0') := by
  obtain ⟨width, hwidth⟩ : ∃ width, width = max l.exponentDigits (log10 e.natAbs + 1) := ⟨_, rfl⟩
  have hlt : e.natAbs < 10 ^ width :=
    lt_of_lt_of_le (lt_pow_log10 e.natAbs) (Nat.pow_le_pow_right (by norm_num) (by omega))
  refine ⟨⟨decide (e < 0), digits 10 width e.natAbs, allDigits_digits _ _⟩, ?_, ?_, ?_, ?_⟩
  · simp [Decimal.Scale.text, exponent, hwidth]
  · simp only [Decimal.Scale.value, natural_digits, Nat.mod_eq_of_lt hlt, decide_eq_true_eq]
    split <;> omega
  · simp only [length_digits]
    omega
  · simp only [length_digits]
    intro hlong
    have hzero : log10 0 = 0 := by simp [log10]
    have hpos : 0 < e.natAbs := by
      by_contra hnot
      rw [Nat.eq_zero_of_not_pos hnot, hzero] at hwidth
      omega
    have hneeded : width = log10 e.natAbs + 1 := by omega
    rw [hneeded] at hlt ⊢
    exact head?_digits (pow_log10_le hpos) hlt

theorem natural_coefficient (hhigh : s.coefficient < 10 ^ l.places) :
    natural (digits 10 l.places s.coefficient) = s.coefficient := by
  rw [natural_digits, Nat.mod_eq_of_lt hhigh]

theorem value_cut (hhigh : s.coefficient < 10 ^ l.places) {k : ℕ} (hk : k ≤ l.places) :
    (natural ((digits 10 l.places s.coefficient).take k ++
        trimZeros ((digits 10 l.places s.coefficient).drop k)) : ℚ) *
      10 ^ (-(trimZeros ((digits 10 l.places s.coefficient).drop k)).length : ℤ) =
        s.coefficient * 10 ^ ((k : ℤ) - l.places) := by
  rw [natural_append_trimZeros, List.take_append_drop, natural_coefficient hhigh,
    List.length_drop, length_digits]
  congr 2
  omega

theorem value_below (hhigh : s.coefficient < 10 ^ l.places) (k : ℕ) :
    (natural (['0'] ++ (List.replicate k '0' ++ trimZeros (digits 10 l.places s.coefficient))) : ℚ) *
      10 ^ (-(List.replicate k '0' ++ trimZeros (digits 10 l.places s.coefficient)).length : ℤ) =
        s.coefficient * 10 ^ (-(k : ℤ) - l.places) := by
  have hzeros : ['0'] ++ List.replicate k '0' = List.replicate (k + 1) '0' := rfl
  have htrim := natural_append_trimZeros (List.replicate (k + 1) '0')
    (digits 10 l.places s.coefficient)
  rw [natural_append _ (digits _ _ _), natural_replicate_zero, zero_mul, zero_add,
    natural_coefficient hhigh, length_digits] at htrim
  rw [← List.append_assoc, hzeros]
  calc (natural (List.replicate (k + 1) '0' ++ trimZeros (digits 10 l.places s.coefficient)) : ℚ) *
        10 ^ (-(List.replicate k '0' ++ trimZeros (digits 10 l.places s.coefficient)).length : ℤ)
      = natural (List.replicate (k + 1) '0' ++ trimZeros (digits 10 l.places s.coefficient)) *
        10 ^ (-(trimZeros (digits 10 l.places s.coefficient)).length : ℤ) * 10 ^ (-(k : ℤ)) := by
        rw [mul_assoc, ← zpow_add₀ (by norm_num), List.length_append, List.length_replicate]
        congr 2
        push_cast
        ring
    _ = s.coefficient * 10 ^ (-(k : ℤ) - l.places) := by
        rw [htrim, mul_assoc, ← zpow_add₀ (by norm_num)]
        congr 2
        ring

theorem trimZeros_coefficient_ne_nil (hpos : 0 < s.coefficient)
    (hhigh : s.coefficient < 10 ^ l.places) :
    trimZeros (digits 10 l.places s.coefficient) ≠ [] := by
  intro hnil
  obtain ⟨k, hk⟩ := exists_trimZeros_append (digits 10 l.places s.coefficient)
  have hzero := natural_coefficient hhigh
  rw [← hk, hnil, List.nil_append, natural_replicate_zero] at hzero
  exact absurd hzero (Nat.ne_of_lt hpos)

theorem exists_below (hpos : 0 < s.coefficient) (hhigh : s.coefficient < 10 ^ l.places)
    (negative : Bool) (hneg : s.exponent < 0)
    (hscale : l.lowest ≤ s.exponent ∧ s.exponent < l.places) :
    ∃ d : Decimal, d.text = sign negative ++ withFraction ['0']
        (List.replicate (-s.exponent - 1).toNat '0' ++
          trimZeros (digits 10 l.places s.coefficient)) ∧
      d.negative = negative ∧ d.LaidOut l s := by
  have hds := allDigits_digits l.places s.coefficient
  have hne := trimZeros_coefficient_ne_nil hpos hhigh
  have hbelow := value_below hhigh (-s.exponent - 1).toNat
  generalize digits 10 l.places s.coefficient = ds at *
  refine ⟨⟨negative, ['0'], List.replicate (-s.exponent - 1).toNat '0' ++ trimZeros ds, none,
    ?_, ?_, ?_⟩, ?_, rfl, ?_⟩
  · exact List.cons_ne_nil _ _
  · simp [AllDigits]
  · exact allDigits_append.2 ⟨by simp [AllDigits], hds.trimZeros⟩
  · simp [Decimal.text, sign, withFraction_eq]
  · constructor
    case value_eq =>
      simp only [Decimal.value, Option.elim_none, zero_sub, hbelow, Significant.value]
      congr 3
      omega
    case fraction_tidy =>
      rw [List.getLast?_append_of_ne_nil _ hne]
      exact getLast?_trimZeros ds
    case positional_iff => simp [hscale]
    case whole_tidy => exact Or.inl ⟨rfl, rfl⟩
    case scale_eq =>
      rintro e ⟨⟩

section Written

variable (hplaces : 0 < l.places) (hlow : 10 ^ (l.places - 1) ≤ s.coefficient)
  (hhigh : s.coefficient < 10 ^ l.places)

include hplaces hlow hhigh

theorem head?_coefficient : (digits 10 l.places s.coefficient).head? ≠ some '0' := by
  rw [← Nat.sub_add_cancel hplaces] at hhigh ⊢
  exact head?_digits hlow hhigh

theorem exists_cut {k : ℕ} (hk : 0 < k) (hle : k ≤ l.places) (negative : Bool)
    {o : Option Decimal.Scale} (hvalue : o.elim 0 Decimal.Scale.value = s.exponent + 1 - k)
    (hpositional : o = none ↔ l.lowest ≤ s.exponent ∧ s.exponent < l.places)
    (hscale : ∀ e ∈ o, e.value = s.exponent ∧ k = 1 ∧ l.exponentDigits ≤ e.digits.length ∧
      (l.exponentDigits < e.digits.length → e.digits.head? ≠ some '0')) :
    ∃ d : Decimal, d.text = sign negative ++
        (withFraction ((digits 10 l.places s.coefficient).take k)
          (trimZeros ((digits 10 l.places s.coefficient).drop k)) ++ o.elim [] Decimal.Scale.text) ∧
      d.negative = negative ∧ d.LaidOut l s := by
  have hds := allDigits_digits l.places s.coefficient
  have hdsLength := length_digits 10 l.places s.coefficient
  have hhead := head?_coefficient hplaces hlow hhigh
  have hcut := value_cut hhigh hle
  generalize digits 10 l.places s.coefficient = ds at *
  have hwhole : (ds.take k).length = k := by
    rw [List.length_take]
    omega
  refine ⟨⟨negative, ds.take k, trimZeros (ds.drop k), o, ?_, ?_, ?_⟩, ?_, rfl, ?_⟩
  · exact List.ne_nil_of_length_pos (by omega)
  · exact fun c hc => hds c (List.mem_of_mem_take hc)
  · exact AllDigits.trimZeros fun c hc => hds c (List.mem_of_mem_drop hc)
  · simp [Decimal.text, sign, withFraction_eq]
  · constructor
    case value_eq =>
      simp only [Decimal.value, hvalue, Significant.value]
      rw [sub_eq_neg_add, zpow_add₀ (by norm_num), ← mul_assoc, hcut, mul_assoc,
        ← zpow_add₀ (by norm_num)]
      congr 3
      ring
    case fraction_tidy => exact getLast?_trimZeros _
    case positional_iff => exact hpositional
    case whole_tidy => exact Or.inr (head?_take hhead)
    case scale_eq =>
      intro e he
      obtain ⟨hexponent, rfl, hdigits⟩ := hscale e he
      exact ⟨hexponent, hwhole, hdigits⟩

theorem exists_scientific (hdigits : 0 < l.exponentDigits) (negative : Bool)
    (hscale : ¬ (l.lowest ≤ s.exponent ∧ s.exponent < l.places)) :
    ∃ d : Decimal, d.text = sign negative ++ l.scientific s ∧ d.negative = negative ∧
      d.LaidOut l s := by
  obtain ⟨x, htext, hvalue, hlength⟩ := exists_scale hdigits s.exponent
  rw [scientific, ← htext]
  refine exists_cut (o := some x) hplaces hlow hhigh Nat.one_pos hplaces negative ?_ ?_ ?_
  · simp [hvalue]
  · simp [hscale]
  · rintro e ⟨⟩
    exact ⟨hvalue, rfl, hlength⟩

theorem exists_positional (negative : Bool)
    (hscale : l.lowest ≤ s.exponent ∧ s.exponent < l.places) :
    ∃ d : Decimal, d.text = sign negative ++ l.positional s ∧ d.negative = negative ∧
      d.LaidOut l s := by
  simp only [positional]
  split_ifs with hneg
  · have hpos := Nat.lt_of_lt_of_le (Nat.pow_pos (by norm_num)) hlow
    exact exists_below hpos hhigh negative hneg hscale
  · have hcut := exists_cut (o := none) (k := s.exponent.toNat + 1) hplaces hlow hhigh
      (Nat.succ_pos _) (by omega) negative ?_ ?_ ?_
    · simpa using hcut
    · rw [Option.elim_none]
      omega
    · simp [hscale]
    · rintro e ⟨⟩

theorem exists_significant (hdigits : 0 < l.exponentDigits) (negative : Bool) :
    ∃ d : Decimal, d.text = sign negative ++ l.significant s ∧ d.negative = negative ∧
      d.LaidOut l s := by
  rw [significant]
  split_ifs with h
  · exact exists_positional hplaces hlow hhigh negative (isPositional_iff.1 h)
  · exact exists_scientific hplaces hlow hhigh hdigits negative fun h' => h (isPositional_iff.2 h')

end Written

end Layout

namespace Double

theorem numerator_div_denominator (m : ℕ) (q : ℤ) :
    (numerator m q : ℚ) / denominator q = m * 2 ^ q := by
  have hsplit : (2 : ℚ) ^ q = 2 ^ q.toNat / 2 ^ (-q).toNat := by
    rw [← zpow_natCast, ← zpow_natCast, ← zpow_sub₀ (by norm_num)]
    congr 1
    omega
  rw [hsplit, ← mul_div_assoc]
  simp only [numerator, denominator, Nat.pow_eq]
  push_cast
  rfl

end Double

theorem Layout.exists_text {l : Layout} (hplaces : 0 < l.places) (hdigits : 0 < l.exponentDigits)
    (negative : Bool) {m : ℕ} (hm : 0 < m) (q : ℤ) :
    ∃ (s : Significant) (d : Decimal), s.Rounds l.places (m * 2 ^ q) ∧
      d.text = l.text (.finite negative m q) ∧ d.negative = negative ∧ d.LaidOut l s := by
  have hrounds := Significant.rounds_ofRatio hplaces (Double.numerator_pos q hm)
    (Double.denominator_pos q)
  rw [Double.numerator_div_denominator] at hrounds
  obtain ⟨hlow, hhigh⟩ := hrounds.coefficient_bounds hplaces
  obtain ⟨d, htext, hnegative, hlaid⟩ := exists_significant hplaces hlow hhigh hdigits negative
  refine ⟨_, d, hrounds, ?_, hnegative, hlaid⟩
  rw [htext, text, magnitude, if_neg (Nat.ne_of_gt hm)]

namespace BitPattern

variable (p : BitPattern)

theorem generalText_rounds (h : p.value ≠ 0) :
    (Token.symbol (.number p.float)).text = generalText p.float ∧
      (∀ line, evaluate line = .ok p.float →
        (Entry.ofFragment line).answer = generalText p.float ++ ['\n'] ∧
          generalText p.float ++ ['\n'] <:+ (Entry.ofFragment line).record) ∧
      (∃! s, Significant.Rounds 6 |p.value| s) ∧
      ∀ s, Significant.Rounds 6 |p.value| s →
        (100000 ≤ s.coefficient ∧ s.coefficient ≤ 999999) ∧
        ((generalText p.float).head? = some '-' ↔ p.negative = true) ∧
        ∃ d : Decimal, (∀ d' : Decimal, d'.text = generalText p.float ↔ d' = d) ∧
          d.value = signed p.negative (s.coefficient * 10 ^ (s.exponent - 5)) ∧
          (d.scale = none ↔ -4 ≤ s.exponent ∧ s.exponent < 6) ∧
          (∀ e ∈ d.scale, e.value = s.exponent ∧ d.whole.length = 1 ∧ 2 ≤ e.digits.length ∧
            (2 < e.digits.length → e.digits.head? ≠ some '0')) ∧
          (d.whole = ['0'] ∧ d.scale = none ∨ d.whole.head? ≠ some '0') ∧
          d.fraction.getLast? ≠ some '0' ∧
          ('.' ∈ generalText p.float ↔ d.fraction ≠ []) := by
  obtain ⟨m, q, hfloat, hvalue⟩ := p.exists_finite
  have habs : |p.value| = m * 2 ^ q := by
    rw [hvalue, abs_signed]
    exact abs_of_nonneg (by positivity)
  have hm : 0 < m := Nat.pos_of_ne_zero <| by
    rintro rfl
    simp [hvalue, signed] at h
  obtain ⟨s, d, hrounds, htext, hnegative, hlaid⟩ :=
    Layout.exists_text (l := .general) (by decide) (by decide) p.negative hm q
  rw [← hfloat] at htext
  change d.text = generalText p.float at htext
  rw [← habs] at hrounds
  refine ⟨rfl, fun line hline => ?_, ⟨s, hrounds, fun _ hs => hs.unique hrounds⟩, fun s' hs' => ?_⟩
  · simp only [Entry.answer, Entry.record, Entry.ofFragment, hline, List.append_assoc]
    exact ⟨trivial, (List.suffix_append _ _).trans ((List.suffix_append _ _).trans
      (List.suffix_append _ _))⟩
  obtain rfl := hrounds.unique hs'
  obtain ⟨hlow, hhigh⟩ := hrounds.coefficient_bounds (by decide)
  refine ⟨⟨hlow, Nat.le_of_lt_succ hhigh⟩, ?_, d, ?_, ?_, hlaid.positional_iff, hlaid.scale_eq,
    hlaid.whole_tidy, hlaid.fraction_tidy, ?_⟩
  · rw [← htext, Decimal.head?_text_iff, hnegative]
  · exact fun d' => ⟨fun hd' => Decimal.text_injective (hd'.trans htext.symm), fun hd' => hd' ▸ htext⟩
  · rw [hlaid.value_eq, hnegative]
    rfl
  · rw [← htext, Decimal.point_mem_text_iff]

theorem generalText_of_carried_tie :
    let p : BitPattern := ⟨true, 1042, 951423 * 2 ^ 32⟩
    p.value = -1999999 / 2 ∧ Significant.Rounds 6 |p.value| ⟨100000, 6⟩ ∧
      ∃ d : Decimal, d.text = generalText p.float ∧ d.text = "-1e+06".toList ∧
        d.value = -1000000 := by
  intro p
  have hvalue : p.value = -1999999 / 2 := by
    have hfraction : (p.fraction : ℕ) = 951423 * 2 ^ 32 := by decide
    have hfield : (p.field : ℕ) = 1042 := by decide
    have hne : p.field ≠ 0 := by decide
    rw [value, if_neg hne, hfraction, show (p.field : ℤ) = 1042 by exact_mod_cast hfield]
    norm_num [signed, p]
  have hrounds : Significant.Rounds 6 |p.value| ⟨100000, 6⟩ := by
    rw [hvalue]
    have hnearest : IsNearest (|-1999999 / 2| / 10 ^ ((5 : ℤ) - (6 - 1))) (10 ^ 6) := by
      rw [isNearest_iff]
      norm_num [abs_of_neg]
    exact .carried (e := 5) (by norm_num [abs_of_neg]) (by norm_num [abs_of_neg]) hnearest
  obtain ⟨-, -, -, hall⟩ := generalText_rounds p (by rw [hvalue]; norm_num)
  obtain ⟨-, -, d, htext, hd, -⟩ := hall _ hrounds
  refine ⟨hvalue, hrounds, d, (htext d).2 rfl, ?_, ?_⟩
  · rw [(htext d).2 rfl]
    decide +kernel
  · rw [hd]
    norm_num [signed, p]

end BitPattern

end LineCalculator
