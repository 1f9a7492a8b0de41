import LineCalculator.Number.General
import LineCalculator.Number.Numeral
import LineCalculator.Proofs.BitPattern

namespace LineCalculator

namespace Text

def AllDigits (t : Text) : Prop :=
  ∀ c ∈ t, c.isDigit = true

def natural (t : Text) : ℕ :=
  Nat.ofDigits 10 (t.map Numeral.digit).reverse

variable {x y r s : Text} {c : Char}

theorem allDigits_append : AllDigits (x ++ y) ↔ AllDigits x ∧ AllDigits y :=
  List.forall_mem_append

theorem AllDigits.point_not_mem (h : AllDigits x) : '.' ∉ x := fun hmem => by
  cases h _ hmem

theorem natural_append (x y : Text) : natural (x ++ y) = natural x * 10 ^ y.length + natural y := by
  simp only [natural, List.map_append, List.reverse_append, Nat.ofDigits_append, List.length_reverse,
    List.length_map]
  ring

theorem natural_singleton (c : Char) : natural [c] = Numeral.digit c := by
  simp [natural]

theorem natural_replicate_zero (k : ℕ) : natural (List.replicate k '0') = 0 := by
  induction k with
  | zero => rfl
  | succ k ih => rw [List.replicate_succ', natural_append, ih, natural_singleton]; rfl

theorem isDigit_digitChar : ∀ n < 10, (digitChar n).isDigit = true ∧
    Numeral.digit (digitChar n) = n := by
  decide

theorem allDigits_digits (width n : ℕ) : AllDigits (digits 10 width n) := by
  induction width generalizing n with
  | zero => exact List.forall_mem_nil _
  | succ width ih =>
      have hlast := (isDigit_digitChar (n % 10) (Nat.mod_lt n (by norm_num))).1
      exact allDigits_append.2 ⟨ih (n / 10), by simpa [AllDigits] using hlast⟩

theorem natural_digits (width n : ℕ) : natural (digits 10 width n) = n % 10 ^ width := by
  induction width generalizing n with
  | zero => rw [pow_zero, Nat.mod_one]; rfl
  | succ width ih =>
      have hlast := (isDigit_digitChar (n % 10) (Nat.mod_lt n (by norm_num))).2
      rw [digits, natural_append, ih, natural_singleton, hlast, pow_succ', Nat.mod_mul]
      simp only [List.length_cons, List.length_nil]
      ring

theorem digits_succ (width n : ℕ) :
    digits 10 (width + 1) n = digitChar (n / 10 ^ width % 10) :: digits 10 width n := by
  induction width generalizing n with
  | zero => simp [digits]
  | succ width ih =>
      rw [digits, ih, Nat.div_div_eq_div_mul, ← pow_succ', List.cons_append]
      rfl

theorem head?_digits {width n : ℕ} (hlow : 10 ^ width ≤ n) (hhigh : n < 10 ^ (width + 1)) :
    (digits 10 (width + 1) n).head? ≠ some '0' := by
  have hpos : 0 < n / 10 ^ width := Nat.div_pos hlow (by positivity)
  have hlt : n / 10 ^ width < 10 := Nat.div_lt_of_lt_mul (by rwa [pow_succ] at hhigh)
  have hdigit := (isDigit_digitChar _ hlt).2
  rw [digits_succ, Nat.mod_eq_of_lt hlt, List.head?_cons]
  intro hzero
  rw [Option.some.inj hzero] at hdigit
  exact absurd hdigit (Nat.ne_of_lt hpos)

theorem exists_trimZeros_append (t : Text) : ∃ k, trimZeros t ++ List.replicate k '0' = t := by
  have hzeros : t.reverse.takeWhile (· = '0') =
      List.replicate (t.reverse.takeWhile (· = '0')).length '0' :=
    List.eq_replicate_of_mem fun c hc => by simpa using List.mem_takeWhile_imp hc
  refine ⟨(t.reverse.takeWhile (· = '0')).length, ?_⟩
  rw [trimZeros, ← List.reverse_replicate, ← hzeros, ← List.reverse_append,
    List.takeWhile_append_dropWhile, List.reverse_reverse]

theorem getLast?_trimZeros (t : Text) : (trimZeros t).getLast? ≠ some '0' := by
  rw [trimZeros, List.getLast?_reverse]
  intro hzero
  have := List.head?_dropWhile_not (· = '0') t.reverse
  simp [hzero] at this

theorem AllDigits.trimZeros (h : AllDigits x) : AllDigits (trimZeros x) := by
  obtain ⟨k, hk⟩ := exists_trimZeros_append x
  rw [← hk] at h
  exact (allDigits_append.1 h).1

theorem natural_append_trimZeros (x t : Text) :
    (natural (x ++ trimZeros t) : ℚ) * 10 ^ (-(trimZeros t).length : ℤ) =
      natural (x ++ t) * 10 ^ (-t.length : ℤ) := by
  obtain ⟨k, hk⟩ := exists_trimZeros_append t
  have hlength : t.length = (trimZeros t).length + k := by
    conv_lhs => rw [← hk]
    simp
  have hnatural : natural (x ++ t) = natural (x ++ trimZeros t) * 10 ^ k := by
    conv_lhs => rw [← hk]
    rw [← List.append_assoc, natural_append, natural_replicate_zero, List.length_replicate,
      Nat.add_zero]
  rw [hnatural, hlength]
  push_cast
  rw [mul_assoc, ← zpow_natCast (10 : ℚ) k, ← zpow_add₀ (by norm_num)]
  congr 2
  ring

theorem append_inj_of_stops {p : Char → Bool} (hx : ∀ c ∈ x, p c = true) (hy : ∀ c ∈ y, p c = true)
    (hr : ∀ c ∈ r.head?, p c = false) (hs : ∀ c ∈ s.head?, p c = false) (h : x ++ r = y ++ s) :
    x = y ∧ r = s := by
  have hstop : ∀ {r : Text}, (∀ c ∈ r.head?, p c = false) → r.takeWhile p = [] := by
    intro r hr
    cases r with
    | nil => rfl
    | cons c r => simp [hr c rfl]
  have htake := congrArg (List.takeWhile p) h
  rw [List.takeWhile_append_of_pos hx, List.takeWhile_append_of_pos hy, hstop hr, hstop hs,
    List.append_nil, List.append_nil] at htake
  subst htake
  exact ⟨rfl, List.append_cancel_left h⟩

theorem digits_append_inj (hx : AllDigits x) (hy : AllDigits y)
    (hr : ∀ c ∈ r.head?, c.isDigit = false) (hs : ∀ c ∈ s.head?, c.isDigit = false)
    (h : x ++ r = y ++ s) : x = y ∧ r = s :=
  append_inj_of_stops hx hy hr hs h

end Text

structure Decimal.Scale where
  negative : Bool
  digits : Text
  allDigits : digits.AllDigits

structure Decimal where
  negative : Bool
  whole : Text
  fraction : Text
  scale : Option Decimal.Scale
  whole_ne_nil : whole ≠ []
  whole_allDigits : whole.AllDigits
  fraction_allDigits : fraction.AllDigits

namespace Decimal

namespace Scale

def text (s : Scale) : Text :=
  'e' :: (if s.negative then '-' else '+') :: s.digits

def value (s : Scale) : ℤ :=
  if s.negative then -(s.digits.natural : ℤ) else s.digits.natural

theorem head?_text (o : Option Scale) :
    ∀ c ∈ (o.elim [] text).head?, c.isDigit = false ∧ c ≠ '.' := by
  cases o with
  | none => simp
  | some s => simp [text]

theorem text_injective : Function.Injective text := by
  rintro ⟨n, x, hx⟩ ⟨n', x', hx'⟩ h
  simp only [text, List.cons.injEq, true_and] at h
  obtain ⟨hsign, rfl⟩ := h
  cases n <;> cases n' <;> first | rfl | cases hsign

theorem elim_text_injective : Function.Injective fun o : Option Scale => o.elim [] text := by
  intro o o' h
  cases o with
  | none =>
      cases o' with
      | none => rfl
      | some s => cases h
  | some s =>
      cases o' with
      | none => cases h
      | some s' => rw [text_injective h]

end Scale

def point (fraction : Text) : Text :=
  if fraction = [] then [] else '.' :: fraction

def text (d : Decimal) : Text :=
  (if d.negative then ['-'] else []) ++
    (d.whole ++ (point d.fraction ++ d.scale.elim [] Scale.text))

def value (d : Decimal) : ℚ :=
  signed d.negative <|
    (d.whole ++ d.fraction).natural * 10 ^ (d.scale.elim 0 Scale.value - d.fraction.length)

section Injective

variable {f f' : Text} {o o' : Option Scale}

theorem head?_point_append (f : Text) (o : Option Scale) :
    ∀ c ∈ (point f ++ o.elim [] Scale.text).head?, c.isDigit = false := by
  rw [point]
  split
  · exact fun c hc => (Scale.head?_text o c hc).1
  · simp

theorem point_append_inj (hf : f.AllDigits) (hf' : f'.AllDigits)
    (h : point f ++ o.elim [] Scale.text = point f' ++ o'.elim [] Scale.text) :
    f = f' ∧ o = o' := by
  have hscale : ∀ o : Option Scale, ∀ c ∈ (o.elim [] Scale.text).head?, c.isDigit = false :=
    fun o c hc => (Scale.head?_text o c hc).1
  have hpoint : ∀ (o : Option Scale) (u : Text), o.elim [] Scale.text ≠ '.' :: u := fun o u hu =>
    (Scale.head?_text o '.' (by rw [hu]; rfl)).2 rfl
  simp only [point] at h
  split_ifs at h with hnil hnil' hnil'
  · exact ⟨hnil.trans hnil'.symm, Scale.elim_text_injective h⟩
  · exact absurd h (hpoint o _)
  · exact absurd h.symm (hpoint o' _)
  · obtain ⟨rfl, hrest⟩ := Text.digits_append_inj hf hf' (hscale o) (hscale o') (List.cons.inj h).2
    exact ⟨rfl, Scale.elim_text_injective hrest⟩

theorem head?_whole (d : Decimal) (u : Text) : (d.whole ++ u).head? ≠ some '-' := by
  cases hwhole : d.whole with
  | nil => exact absurd hwhole d.whole_ne_nil
  | cons c w =>
      have hc := d.whole_allDigits c (by rw [hwhole]; exact List.mem_cons_self)
      rintro ⟨⟩
      cases hc

theorem text_injective : Function.Injective text := by
  intro d d' h
  have hsign : d.negative = d'.negative ∧
      d.whole ++ (point d.fraction ++ d.scale.elim [] Scale.text) =
        d'.whole ++ (point d'.fraction ++ d'.scale.elim [] Scale.text) := by
    simp only [text] at h
    split_ifs at h with hn hn' hn'
    · exact ⟨hn.trans hn'.symm, (List.cons.inj h).2⟩
    · exact absurd (by rw [List.nil_append] at h; rw [← h]; rfl) (head?_whole d' _)
    · exact absurd (by rw [List.nil_append] at h; rw [h]; rfl) (head?_whole d _)
    · exact ⟨by simp_all, h⟩
  obtain ⟨hnegative, hrest⟩ := hsign
  obtain ⟨hwhole, hrest⟩ := Text.digits_append_inj d.whole_allDigits d'.whole_allDigits
    (head?_point_append _ _) (head?_point_append _ _) hrest
  obtain ⟨hfraction, hscale⟩ := point_append_inj d.fraction_allDigits d'.fraction_allDigits hrest
  cases d
  cases d'
  simp_all

end Injective

theorem head?_text_iff (d : Decimal) : d.text.head? = some '-' ↔ d.negative = true := by
  rw [text]
  split_ifs with h
  · simp [h]
  · rw [List.nil_append]
    exact iff_of_false (head?_whole d _) h

theorem point_mem_text_iff (d : Decimal) : '.' ∈ d.text ↔ d.fraction ≠ [] := by
  have hscale : '.' ∉ d.scale.elim [] Scale.text := by
    cases d.scale with
    | none => simp
    | some s => simp [Scale.text, s.allDigits.point_not_mem, apply_ite]
  have hwhole := d.whole_allDigits.point_not_mem
  simp only [text, point, List.mem_append, hwhole, hscale]
  split_ifs <;> simp_all

end Decimal

end LineCalculator
