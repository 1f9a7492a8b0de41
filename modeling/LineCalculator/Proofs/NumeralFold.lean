import LineCalculator.Proofs.Decimal
import LineCalculator.Proofs.ExactDouble
import LineCalculator.Proofs.Writing

namespace LineCalculator.Numeral

open Text

structure Parts where
  whole : Text
  fraction : Option Text
  whole_allDigits : whole.AllDigits
  fraction_allDigits : ∀ f ∈ fraction, AllDigits f
  ne_nil : whole ≠ [] ∨ fraction ≠ none

namespace Parts

def text (p : Parts) : Text :=
  p.whole ++ p.fraction.elim [] ('.' :: ·)

def natural (p : Parts) : ℕ :=
  Text.natural (p.whole ++ p.fraction.getD [])

def places (p : Parts) : ℕ :=
  (p.fraction.getD []).length

end Parts

def exactFold (lexeme : Text) : Partial ℕ :=
  fold id lexeme

def exactValue (lexeme : Text) : ℚ :=
  (exactFold lexeme).value / (exactFold lexeme).divisor.getD 1

structure Partial.Holds (s : Partial Float) (t : Partial ℕ) : Prop where
  value : Double.Holds s.value t.value
  divisor : Option.Rel Double.Holds s.divisor t.divisor

section Lexeme

variable {x y i f u : Text} {c : Char}

theorem isNumeral_text (p : Parts) : IsNumeral p.text := by
  obtain ⟨i, o, hi, ho, hne⟩ := p
  have hcount := List.count_eq_zero_of_not_mem hi.point_not_mem
  cases o with
  | none =>
      simp only [Parts.text, Option.elim_none, List.append_nil]
      exact ⟨hne.resolve_right fun h => h rfl, fun c hc => Or.inl (hi c hc), by omega⟩
  | some f =>
      have hf := ho f rfl
      have hcount' := List.count_eq_zero_of_not_mem hf.point_not_mem
      simp only [Parts.text, Option.elim_some]
      refine ⟨by simp, ?_, ?_⟩
      · simp only [List.mem_append, List.mem_cons]
        rintro c (hc | rfl | hc)
        · exact Or.inl (hi c hc)
        · exact Or.inr rfl
        · exact Or.inl (hf c hc)
      · rw [List.count_append, List.count_cons_self]
        omega

theorem allDigits_of_not_mem (hx : ∀ c ∈ x, c.isDigit = true ∨ c = '.') (h : '.' ∉ x) :
    x.AllDigits := fun c hc => (hx c hc).resolve_right fun hpoint => h (hpoint ▸ hc)

theorem isNumeral_iff_exists_parts : IsNumeral x ↔ ∃ p : Parts, p.text = x := by
  constructor
  · rintro ⟨hne, hx, hpoints⟩
    by_cases hpoint : '.' ∈ x
    · obtain ⟨i, f, rfl, hi⟩ := List.eq_append_cons_of_mem hpoint
      have hpoint' : '.' ∉ f := by
        rw [List.count_append, List.count_cons_self] at hpoints
        exact List.count_eq_zero.1 (by omega)
      have hf := allDigits_of_not_mem (fun c hc => hx c (by simp [hc])) hpoint'
      refine ⟨⟨i, some f, ?_, ?_, Or.inr (Option.some_ne_none f)⟩, rfl⟩
      · exact allDigits_of_not_mem (fun c hc => hx c (by simp [hc])) hi
      · rintro _ ⟨⟩
        exact hf
    · refine ⟨⟨x, none, allDigits_of_not_mem hx hpoint, ?_, Or.inl hne⟩, List.append_nil x⟩
      rintro _ ⟨⟩
  · rintro ⟨p, rfl⟩
    exact isNumeral_text p

theorem scan_text (p : Parts) :
    scan p.text 0 = ⟨.symbol (.number (value p.text)), 0, p.text.length⟩ := by
  have hfound := @Word.found_written (.number ⟨p.text, isNumeral_text p⟩) []
    ⟨[], List.forall_mem_nil _⟩ (stopsAt_nil _)
  simp only [Word.text, Word.symbol, List.nil_append, List.append_nil] at hfound
  simp [scan, clampCursor, hfound]

end Lexeme

section Fold

variable {x i f u r : Text} {c : Char} {s t : Partial ℕ}

theorem exactFold_append (u r : Text) :
    exactFold (u ++ r) = r.foldl (Partial.push id) (exactFold u) :=
  List.foldl_append

theorem foldl_push_digits (h : x.AllDigits) (t : Partial ℕ) :
    x.foldl (Partial.push id) t =
      ⟨t.value * 10 ^ x.length + Text.natural x, t.divisor.map (· * 10 ^ x.length)⟩ := by
  induction x generalizing t with
  | nil => simp [Text.natural]
  | cons c x ih =>
      have hc : c ≠ '.' := ne_point_of_isDigit (h c List.mem_cons_self)
      have hnatural := natural_append [c] x
      rw [natural_singleton, List.singleton_append] at hnatural
      rw [List.foldl_cons, ih fun d hd => h d (List.mem_cons_of_mem c hd), Partial.push, if_neg hc,
        hnatural, List.length_cons, Option.map_map]
      congr 1
      · simp only [id_eq]
        ring
      · congr 1
        funext d
        simp only [Function.comp_apply, id_eq]
        ring

theorem exactFold_digits (h : x.AllDigits) : exactFold x = ⟨Text.natural x, none⟩ := by
  rw [exactFold, fold, foldl_push_digits h]
  simp

theorem exactFold_pointed (hi : i.AllDigits) (hf : f.AllDigits) :
    exactFold (i ++ '.' :: f) = ⟨Text.natural (i ++ f), some (10 ^ f.length)⟩ := by
  rw [exactFold_append, exactFold_digits hi, List.foldl_cons, foldl_push_digits hf, natural_append]
  simp [Partial.push]

theorem exactFold_text (p : Parts) :
    exactFold p.text = ⟨p.natural, p.fraction.map fun f => 10 ^ f.length⟩ := by
  obtain ⟨i, o, hi, ho, hne⟩ := p
  cases o with
  | none => simp [Parts.text, Parts.natural, exactFold_digits hi]
  | some f => simp [Parts.text, Parts.natural, exactFold_pointed hi (ho f rfl)]

theorem exactValue_text (p : Parts) : exactValue p.text = p.natural / 10 ^ p.places := by
  rw [exactValue, exactFold_text, Parts.places]
  cases p.fraction with
  | none => simp
  | some f => simp

theorem front_text {p : Parts} (h : u <+: p.text) :
    u.AllDigits ∨ ∃ g r, p.fraction = some (g ++ r) ∧ u = p.whole ++ '.' :: g := by
  obtain ⟨r, hr⟩ := h
  rw [Parts.text] at hr
  rcases List.append_eq_append_iff.1 hr with ⟨v, hv, -⟩ | ⟨v, rfl, hv⟩
  · have hwhole := p.whole_allDigits
    rw [hv] at hwhole
    exact Or.inl (allDigits_append.1 hwhole).1
  · cases v with
    | nil =>
        rw [List.append_nil]
        exact Or.inl p.whole_allDigits
    | cons c g =>
        cases hfraction : p.fraction with
        | none =>
            rw [hfraction] at hv
            cases hv
        | some f =>
            rw [hfraction] at hv
            obtain ⟨rfl, rfl⟩ := List.cons.inj hv
            exact Or.inr ⟨g, r, rfl, rfl⟩

theorem divisor_of_front {p : Parts} (h : u <+: p.text) :
    ∀ d ∈ (exactFold u).divisor, ∃ k ≤ p.places, d = 10 ^ k := by
  rcases front_text h with hu | ⟨g, r, hfraction, rfl⟩
  · rw [exactFold_digits hu]
    rintro d ⟨⟩
  · have hf := p.fraction_allDigits _ hfraction
    rw [exactFold_pointed p.whole_allDigits (allDigits_append.1 hf).1, Parts.places, hfraction]
    rintro d ⟨⟩
    exact ⟨g.length, by simp, rfl⟩

theorem value_le_push (t : Partial ℕ) (c : Char) : t.value ≤ (t.push id c).value := by
  rw [Partial.push]
  split_ifs
  · exact le_refl _
  · simp only [id_eq]
    omega

theorem value_le_foldl (r : Text) (t : Partial ℕ) :
    t.value ≤ (r.foldl (Partial.push id) t).value := by
  induction r generalizing t with
  | nil => exact le_refl _
  | cons c r ih => exact (value_le_push t c).trans (ih _)

theorem value_front_le {p : Parts} (h : u <+: p.text) : (exactFold u).value ≤ p.natural := by
  obtain ⟨r, hr⟩ := h
  have hle := value_le_foldl r (exactFold u)
  rwa [← exactFold_append, hr, exactFold_text] at hle

theorem product_front_le {p : Parts} (h : u ++ [c] <+: p.text) (hc : c ≠ '.') :
    (exactFold u).value * 10 ≤ p.natural := by
  have hle := value_front_le h
  rw [exactFold_append, List.foldl_cons, List.foldl_nil, Partial.push, if_neg hc] at hle
  exact (Nat.le_add_right _ _).trans hle

end Fold

section Doubles

variable {u : Text} {c : Char} {s : Partial Float} {t : Partial ℕ}

theorem representable_pow_ten {k : ℕ} (h : k ≤ 22) : Representable (10 ^ k) := by
  refine ⟨5 ^ k, k, by rw [← mul_pow]; rfl, ?_, by omega⟩
  exact (Nat.pow_le_pow_right (by norm_num) h).trans_lt (by norm_num)

theorem digit_le (h : c.isDigit = true) : digit c ≤ 9 := by
  have hdigit : 0x30 ≤ c.toNat ∧ c.toNat ≤ 0x39 := by
    simpa [Char.isDigit, UInt32.le_iff_toNat_le] using h
  simp only [digit]
  change c.toNat - 0x30 ≤ 9
  omega

theorem Partial.Holds.push_point (h : s.Holds t) :
    (s.push Float.ofNat '.').Holds (t.push id '.') :=
  ⟨h.value, .some (Double.holds_ofNat (by norm_num))⟩

theorem Partial.Holds.push_digit (h : s.Holds t) (hc : c.isDigit = true)
    (hvalue : t.value * 10 + digit c ≤ 2 ^ 53)
    (hdivisor : ∀ d ∈ t.divisor, Representable (d * 10)) :
    (s.push Float.ofNat c).Holds (t.push id c) := by
  have hten : Double.Holds (Float.ofNat 10) 10 := Double.holds_ofNat (by norm_num)
  have hdigit : Double.Holds (Float.ofNat (digit c)) (digit c) :=
    Double.holds_ofNat ((digit_le hc).trans_lt (by norm_num))
  have hproduct := h.value.mul hten (.of_le ((Nat.le_add_right _ _).trans hvalue))
  simp only [push, if_neg (ne_point_of_isDigit hc)]
  refine ⟨hproduct.add hdigit (.of_le hvalue), ?_⟩
  obtain ⟨v, o⟩ := s
  obtain ⟨w, o'⟩ := t
  cases h.divisor with
  | none => exact .none
  | some hd => exact .some (hd.mul hten (hdivisor _ rfl))

theorem holds_of_front {p : Parts} (hnatural : p.natural ≤ 2 ^ 53) (hplaces : p.places ≤ 22)
    (h : u <+: p.text) : (fold Float.ofNat u).Holds (exactFold u) := by
  -- What is in front of the last character is a front part too, so the bounds hold all the way.
  induction u using List.reverseRecOn with
  | nil => exact ⟨Double.holds_ofNat (by norm_num), .none⟩
  | append_singleton u c ih =>
      have hu := ih ((List.prefix_append u [c]).trans h)
      have hfold : fold Float.ofNat (u ++ [c]) = (fold Float.ofNat u).push Float.ofNat c :=
        List.foldl_append
      have hexact : exactFold (u ++ [c]) = (exactFold u).push id c := List.foldl_append
      rw [hfold, hexact]
      rcases (isNumeral_text p).digit_or_point c (h.subset (by simp)) with hc | rfl
      · have hvalue := value_front_le h
        have hdivisor := divisor_of_front h
        rw [hexact, Partial.push, if_neg (ne_point_of_isDigit hc)] at hvalue hdivisor
        refine hu.push_digit hc (hvalue.trans hnatural) fun d hd => ?_
        obtain ⟨k, hk, hpow⟩ := hdivisor (d * 10) (Option.mem_map_of_mem _ hd)
        rw [hpow]
        exact representable_pow_ten (hk.trans hplaces)
      · exact hu.push_point

theorem Partial.Holds.exists_quotient {x : Text} (h : (fold Float.ofNat x).Holds t) :
    ∃ a, Double.Holds a t.value ∧ (t.divisor = none → Numeral.value x = a) ∧
      ∀ d ∈ t.divisor, ∃ b, Double.Holds b d ∧ Numeral.value x = a / b := by
  rw [Numeral.value]
  generalize fold Float.ofNat x = s at h
  obtain ⟨a, o⟩ := s
  obtain ⟨w, o'⟩ := t
  refine ⟨a, h.value, ?_⟩
  cases h.divisor with
  | none => exact ⟨fun _ => rfl, by rintro _ ⟨⟩⟩
  | some hb =>
      constructor
      · rintro ⟨⟩
      · rintro _ ⟨⟩
        exact ⟨_, hb, rfl⟩

theorem fold_computes_decimal (p : Parts) :
    scan p.text 0 = ⟨.symbol (.number (value p.text)), 0, p.text.length⟩ ∧
      exactFold p.text = ⟨p.natural, p.fraction.map fun f => 10 ^ f.length⟩ ∧
      exactValue p.text = p.natural / 10 ^ p.places ∧
      (∀ u, u <+: p.text → (exactFold u).value ≤ p.natural ∧
        ∀ d ∈ (exactFold u).divisor, ∃ k ≤ p.places, d = 10 ^ k) ∧
      (∀ u c, u ++ [c] <+: p.text → c ≠ '.' → (exactFold u).value * 10 ≤ p.natural) ∧
      (p.natural ≤ 2 ^ 53 → p.places ≤ 22 →
        (∀ u, u <+: p.text → (fold Float.ofNat u).Holds (exactFold u) ∧
          Representable (exactFold u).value ∧ ∀ d ∈ (exactFold u).divisor, Representable d) ∧
        (∀ u c, u ++ [c] <+: p.text → c ≠ '.' → Representable ((exactFold u).value * 10)) ∧
        ∃ a, (Double.ofFloat a).value? = some (p.natural : ℚ) ∧
          (p.fraction = none → value p.text = a) ∧
          (p.fraction ≠ none → ∃ b, (Double.ofFloat b).value? = some (10 ^ p.places : ℚ) ∧
            value p.text = a / b)) := by
  refine ⟨scan_text p, exactFold_text p, exactValue_text p,
    fun u hu => ⟨value_front_le hu, divisor_of_front hu⟩, fun u c => product_front_le,
    fun hnatural hplaces => ⟨fun u hu => ?_, fun u c hu hc => ?_, ?_⟩⟩
  · refine ⟨holds_of_front hnatural hplaces hu, .of_le ((value_front_le hu).trans hnatural), ?_⟩
    intro d hd
    obtain ⟨k, hk, rfl⟩ := divisor_of_front hu d hd
    exact representable_pow_ten (hk.trans hplaces)
  · exact .of_le ((product_front_le hu hc).trans hnatural)
  · have hholds := holds_of_front hnatural hplaces (List.prefix_refl p.text)
    rw [exactFold_text] at hholds
    obtain ⟨a, ha, hwhole, hquotient⟩ := hholds.exists_quotient
    refine ⟨a, ha.value?, fun hnone => hwhole (by rw [hnone]; rfl), fun hsome => ?_⟩
    obtain ⟨f, hf⟩ := Option.ne_none_iff_exists'.1 hsome
    obtain ⟨b, hb, hvalue⟩ := hquotient (10 ^ p.places) (by rw [Parts.places, hf]; rfl)
    exact ⟨b, by simpa using hb.value?, hvalue⟩

end Doubles

end LineCalculator.Numeral
