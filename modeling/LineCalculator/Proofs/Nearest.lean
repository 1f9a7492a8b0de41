import LineCalculator.Number.Significant
import Mathlib

namespace LineCalculator

def IsNearest (y : ℚ) (n : ℕ) : Prop :=
  ∀ k : ℤ, k ≠ n → |y - n| < |y - k| ∨ |y - n| = |y - k| ∧ Even n

section Nearest

variable {y : ℚ} {n n' : ℕ}

theorem one_le_abs_sub {k : ℤ} (h : k ≠ n) : (1 : ℚ) ≤ |(n : ℚ) - k| := by
  have hint : 1 ≤ |(n : ℤ) - k| := Int.one_le_abs (sub_ne_zero.2 h.symm)
  exact_mod_cast hint

theorem isNearest_iff : IsNearest y n ↔ |y - n| ≤ 1 / 2 ∧ (|y - n| = 1 / 2 → Even n) := by
  constructor
  · intro h
    have habove : |y - n| ≤ |y - (n + 1)| := by
      have := h (n + 1) (by omega)
      push_cast at this
      exact this.elim le_of_lt fun hk => le_of_eq hk.1
    have hbelow : |y - n| ≤ |y - (n - 1)| := by
      have := h (n - 1) (by omega)
      push_cast at this
      exact this.elim le_of_lt fun hk => le_of_eq hk.1
    constructor
    · rw [abs_le]
      constructor <;> grind
    · intro hhalf
      rcases eq_or_eq_neg_of_abs_eq hhalf with hy | hy
      · have := h (n + 1) (by omega)
        push_cast at this
        rw [hhalf, show y - ((n : ℚ) + 1) = -(1 / 2) by linarith, abs_neg] at this
        norm_num at this
        exact this
      · have := h (n - 1) (by omega)
        push_cast at this
        rw [hhalf, show y - ((n : ℚ) - 1) = 1 / 2 by linarith] at this
        norm_num at this
        exact this
  · rintro ⟨hle, heven⟩ k hk
    have hone := one_le_abs_sub hk
    have htriangle : |(n : ℚ) - k| ≤ |y - n| + |y - k| := by
      have := abs_sub_le (n : ℚ) y k
      rwa [abs_sub_comm (n : ℚ) y] at this
    rcases hle.lt_or_eq with hlt | heq
    · left
      linarith
    · rcases lt_or_ge (1 / 2) |y - k| with hfar | hnear
      · left
        linarith
      · right
        exact ⟨by linarith, heven heq⟩

theorem IsNearest.unique (h : IsNearest y n) (h' : IsNearest y n') : n = n' := by
  by_contra hne
  have hlt := h n' (by exact_mod_cast Ne.symm hne)
  have hlt' := h' n (by exact_mod_cast hne)
  push_cast at hlt hlt'
  obtain ⟨heq, heven⟩ := hlt.resolve_left fun hlt => by
    rcases hlt' with h | h <;> linarith
  obtain ⟨-, heven'⟩ := hlt'.resolve_left fun hlt => by linarith
  -- Two even numbers are too far apart for both to be nearest.
  rw [isNearest_iff] at h h'
  have hclose : |(n : ℚ) - n'| ≤ 1 := by
    have := abs_sub_le (n : ℚ) y n'
    rw [abs_sub_comm (n : ℚ) y] at this
    linarith
  have hclose' : |(n : ℤ) - n'| ≤ 1 := by exact_mod_cast hclose
  rw [abs_le] at hclose'
  obtain ⟨a, rfl⟩ := heven
  obtain ⟨b, rfl⟩ := heven'
  omega

theorem IsNearest.le_iff {k : ℕ} (h : IsNearest y n) (hk : Even k) :
    k ≤ n ↔ (k : ℚ) - 1 / 2 ≤ y := by
  obtain ⟨hle, heven⟩ := isNearest_iff.1 h
  obtain ⟨hlow, hhigh⟩ := abs_le.1 hle
  constructor
  · intro hkn
    have hkn : (k : ℚ) ≤ n := by exact_mod_cast hkn
    linarith
  · intro hky
    by_contra hlt
    have hlt : n + 1 ≤ k := by omega
    have hcast : (n : ℚ) + 1 ≤ k := by exact_mod_cast hlt
    -- Only a tie is left, and it does not go to the odd number below.
    have htie : y - n = 1 / 2 := by linarith
    have hnext : (k : ℚ) = n + 1 := by linarith
    have hodd : k = n + 1 := by exact_mod_cast hnext
    have hn := heven (by rw [htie]; norm_num)
    rw [hodd, Nat.even_add_one] at hk
    exact hk hn

theorem IsNearest.bounds {a b : ℕ} (h : IsNearest y n) (ha : (a : ℚ) ≤ y) (hb : y ≤ b) :
    a ≤ n ∧ n ≤ b := by
  obtain ⟨hlow, hhigh⟩ := abs_le.1 (isNearest_iff.1 h).1
  have hfloor : (a : ℚ) < n + 1 := by linarith
  have hceil : (n : ℚ) < b + 1 := by linarith
  exact ⟨Nat.lt_succ_iff.1 (by exact_mod_cast hfloor), Nat.lt_succ_iff.1 (by exact_mod_cast hceil)⟩

theorem isNearest_roundDiv (num : ℕ) {den : ℕ} (h : 0 < den) :
    IsNearest ((num : ℚ) / den) (roundDiv num den) := by
  have hden : (0 : ℚ) < den := by exact_mod_cast h
  have hsplit : (num : ℚ) / den = (num / den : ℕ) + ((num % den : ℕ) : ℚ) / den := by
    have hnum : (num : ℚ) = (num / den : ℕ) * den + (num % den : ℕ) := by
      exact_mod_cast (Nat.div_add_mod' num den).symm
    rw [hnum, add_div, mul_div_cancel_right₀ _ hden.ne']
  have hlt : ((num % den : ℕ) : ℚ) / den < 1 := by
    rw [div_lt_one hden]
    exact_mod_cast Nat.mod_lt num h
  have hpos : 0 ≤ ((num % den : ℕ) : ℚ) / den := by positivity
  have hdown : 2 * (num % den) < den ↔ ((num % den : ℕ) : ℚ) / den < 1 / 2 := by
    rw [div_lt_div_iff₀ hden two_pos]
    norm_cast
    omega
  have hup : den < 2 * (num % den) ↔ 1 / 2 < ((num % den : ℕ) : ℚ) / den := by
    rw [div_lt_div_iff₀ two_pos hden]
    norm_cast
    omega
  generalize ((num % den : ℕ) : ℚ) / den = r at *
  rw [isNearest_iff, hsplit]
  simp only [roundDiv, hdown, hup]
  have heven := Nat.even_iff (n := num / den)
  have hodd : ¬ Even (num / den) → Even (num / den + 1) := fun h => by
    rwa [Nat.even_add_one]
  split_ifs with h1 h2 h3
  · rw [add_sub_cancel_left, abs_of_nonneg hpos]
    exact ⟨by linarith, fun h => by linarith⟩
  · push_cast
    rw [add_sub_add_left_eq_sub, abs_sub_comm, abs_of_nonneg (by linarith)]
    exact ⟨by linarith, fun h => by linarith⟩
  · rw [add_sub_cancel_left, abs_of_nonneg hpos]
    exact ⟨by linarith, fun _ => heven.2 h3⟩
  · push_cast
    rw [add_sub_add_left_eq_sub, abs_sub_comm, abs_of_nonneg (by linarith)]
    exact ⟨by linarith, fun _ => hodd fun h => h3 (heven.1 h)⟩

end Nearest

namespace Significant

/-- A positive number rounded to so many digits. Where the nearest has one digit more it is a power
of ten, which is written with a greater exponent. -/
inductive Rounds (places : ℕ) (y : ℚ) : Significant → Prop
  | kept {e : ℤ} {n : ℕ} : (10 : ℚ) ^ e ≤ y → y < 10 ^ (e + 1) →
      IsNearest (y / 10 ^ (e - (places - 1))) n → n < 10 ^ places → Rounds places y ⟨n, e⟩
  | carried {e : ℤ} : (10 : ℚ) ^ e ≤ y → y < 10 ^ (e + 1) →
      IsNearest (y / 10 ^ (e - (places - 1))) (10 ^ places) →
      Rounds places y ⟨10 ^ (places - 1), e + 1⟩

def value (places : ℕ) (s : Significant) : ℚ :=
  s.coefficient * 10 ^ (s.exponent - (places - 1))

end Significant

section Decade

variable {y : ℚ} {e e' : ℤ} {num den : ℕ}

theorem decade_unique (hlow : (10 : ℚ) ^ e ≤ y) (hhigh : y < 10 ^ (e + 1))
    (hlow' : (10 : ℚ) ^ e' ≤ y) (hhigh' : y < 10 ^ (e' + 1)) : e = e' := by
  have h := (zpow_lt_zpow_iff_right₀ (by norm_num : (1 : ℚ) < 10)).1 (hlow.trans_lt hhigh')
  have h' := (zpow_lt_zpow_iff_right₀ (by norm_num : (1 : ℚ) < 10)).1 (hlow'.trans_lt hhigh)
  omega

theorem log10_bounds {n : ℕ} (h : 0 < n) :
    (10 : ℚ) ^ log10 n ≤ n ∧ (n : ℚ) < 10 ^ log10 n * 10 := by
  have hlow : 10 ^ log10 n ≤ n := pow_log10_le h
  have hhigh : n < 10 ^ log10 n * 10 := lt_pow_log10 n
  exact ⟨by exact_mod_cast hlow, by exact_mod_cast hhigh⟩

theorem decade_bounds (hnum : 0 < num) (hden : 0 < den) :
    (10 : ℚ) ^ decade num den ≤ (num : ℚ) / den ∧
      (num : ℚ) / den < 10 ^ (decade num den + 1) := by
  obtain ⟨hnumlow, hnumhigh⟩ := log10_bounds hnum
  obtain ⟨hdenlow, hdenhigh⟩ := log10_bounds hden
  have hpos : (0 : ℚ) < den := by exact_mod_cast hden
  have hten : (0 : ℚ) < 10 ^ log10 den := by positivity
  have hratio : (10 : ℚ) ^ ((log10 num : ℤ) - log10 den) = 10 ^ log10 num / 10 ^ log10 den := by
    rw [zpow_sub₀ (by norm_num), zpow_natCast, zpow_natCast]
  have hcompare : den * Nat.pow 10 (log10 num) ≤ num * Nat.pow 10 (log10 den) ↔
      (10 : ℚ) ^ log10 num / 10 ^ log10 den ≤ (num : ℚ) / den := by
    rw [div_le_div_iff₀ hten hpos, mul_comm ((10 : ℚ) ^ log10 num)]
    exact_mod_cast Iff.rfl
  simp only [decade]
  split_ifs with h
  · rw [hcompare] at h
    refine ⟨by rwa [hratio], ?_⟩
    rw [zpow_add_one₀ (by norm_num), hratio, div_mul_eq_mul_div, div_lt_div_iff₀ hpos hten]
    calc (num : ℚ) * 10 ^ log10 den < 10 ^ log10 num * 10 * 10 ^ log10 den :=
          mul_lt_mul_of_pos_right hnumhigh hten
      _ ≤ 10 ^ log10 num * 10 * den := mul_le_mul_of_nonneg_left hdenlow (by positivity)
  · rw [hcompare, not_le] at h
    rw [sub_add_cancel]
    refine ⟨?_, by rwa [hratio]⟩
    rw [zpow_sub_one₀ (by norm_num), hratio, ← div_eq_mul_inv, div_div,
      div_le_div_iff₀ (by positivity) hpos]
    exact mul_le_mul hnumlow hdenhigh.le hpos.le (by positivity)

end Decade

namespace Significant

variable {places : ℕ} {y : ℚ} {s s' : Significant}

theorem Rounds.unique (h : Rounds places y s) (h' : Rounds places y s') : s = s' := by
  cases h with
  | kept hlow hhigh hnearest hlt =>
      cases h' with
      | kept hlow' hhigh' hnearest' _ =>
          obtain rfl := decade_unique hlow hhigh hlow' hhigh'
          rw [hnearest.unique hnearest']
      | carried hlow' hhigh' hnearest' =>
          obtain rfl := decade_unique hlow hhigh hlow' hhigh'
          exact absurd hlt (not_lt_of_ge (hnearest'.unique hnearest).le)
  | carried hlow hhigh hnearest =>
      cases h' with
      | kept hlow' hhigh' hnearest' hlt' =>
          obtain rfl := decade_unique hlow hhigh hlow' hhigh'
          exact absurd hlt' (not_lt_of_ge (hnearest.unique hnearest').le)
      | carried hlow' hhigh' _ =>
          rw [decade_unique hlow hhigh hlow' hhigh']

theorem zpow_eq_pow_mul_zpow_sub (e : ℤ) (n : ℕ) : (10 : ℚ) ^ e = 10 ^ n * 10 ^ (e - n) := by
  rw [← zpow_natCast, ← zpow_add₀ (by norm_num), add_sub_cancel]

theorem scaled_bounds {e : ℤ} (hplaces : 0 < places) (hlow : (10 : ℚ) ^ e ≤ y)
    (hhigh : y < 10 ^ (e + 1)) :
    ((10 ^ (places - 1) : ℕ) : ℚ) ≤ y / 10 ^ (e - (places - 1)) ∧
      y / 10 ^ (e - (places - 1)) < ((10 ^ places : ℕ) : ℚ) := by
  have hunit : (0 : ℚ) < 10 ^ (e - (places - 1)) := by positivity
  have hfirst : ((places - 1 : ℕ) : ℤ) = places - 1 := by omega
  rw [zpow_eq_pow_mul_zpow_sub e (places - 1), hfirst] at hlow
  rw [zpow_eq_pow_mul_zpow_sub (e + 1) places, ← sub_sub_eq_add_sub] at hhigh
  push_cast
  exact ⟨(le_div_iff₀ hunit).2 hlow, (div_lt_iff₀ hunit).2 hhigh⟩

theorem Rounds.coefficient_bounds (hplaces : 0 < places) (h : Rounds places y s) :
    10 ^ (places - 1) ≤ s.coefficient ∧ s.coefficient < 10 ^ places := by
  cases h with
  | kept hlow hhigh hnearest hlt =>
      obtain ⟨ha, hb⟩ := scaled_bounds hplaces hlow hhigh
      exact ⟨(hnearest.bounds ha hb.le).1, hlt⟩
  | carried _ _ _ => exact ⟨Nat.le_refl _, Nat.pow_lt_pow_right (by norm_num) (by omega)⟩

theorem rounds_ofRatio {num den : ℕ} (hplaces : 0 < places) (hnum : 0 < num) (hden : 0 < den) :
    Rounds places ((num : ℚ) / den) (ofRatio places num den) := by
  obtain ⟨hlow, hhigh⟩ := decade_bounds hnum hden
  obtain ⟨shift, hshift⟩ : ∃ shift : ℤ, shift = places - 1 - decade num den := ⟨_, rfl⟩
  have hscaled : (num : ℚ) / den / 10 ^ (decade num den - (places - 1)) =
      ((num * 10 ^ shift.toNat : ℕ) : ℚ) / ((den * 10 ^ (-shift).toNat : ℕ) : ℚ) := by
    have hsplit : (10 : ℚ) ^ shift = 10 ^ shift.toNat / 10 ^ (-shift).toNat := by
      rw [← zpow_natCast, ← zpow_natCast, ← zpow_sub₀ (by norm_num)]
      congr 1
      omega
    rw [show decade num den - (places - 1) = -shift by omega, zpow_neg, div_inv_eq_mul, hsplit]
    push_cast
    rw [div_mul_div_comm]
  have hnearest := isNearest_roundDiv (num * 10 ^ shift.toNat)
    (Nat.mul_pos hden (Nat.pow_pos (n := (-shift).toNat) (by norm_num : 0 < 10)))
  rw [← hscaled] at hnearest
  have hle := (hnearest.bounds (a := 0) (by push_cast; positivity)
    (scaled_bounds hplaces hlow hhigh).2.le).2
  change Rounds places _ (if roundDiv (num * 10 ^ (places - 1 - decade num den : ℤ).toNat)
    (den * 10 ^ (-(places - 1 - decade num den : ℤ)).toNat) < 10 ^ places then _ else _)
  rw [← hshift]
  split_ifs with hlt
  · exact .kept hlow hhigh hnearest hlt
  · rw [Nat.le_antisymm hle (Nat.le_of_not_lt hlt)] at hnearest
    exact .carried hlow hhigh hnearest

theorem le_coefficient_iff {e : ℤ} {n : ℕ} (hplaces : 0 < places)
    (hnearest : IsNearest (y / 10 ^ (e - (places - 1))) n) :
    10 ^ places ≤ n ↔ (10 : ℚ) ^ (e + 1) * (1 - 1 / (2 * 10 ^ places)) ≤ y := by
  have hunit : (0 : ℚ) < 10 ^ (e - (places - 1)) := by positivity
  have heven : Even (10 ^ places) := (by decide : Even 10).pow_of_ne_zero (by omega)
  rw [hnearest.le_iff heven, le_div_iff₀ hunit, zpow_eq_pow_mul_zpow_sub (e + 1) places,
    ← sub_sub_eq_add_sub]
  push_cast
  rw [show ∀ u : ℚ, 10 ^ places * u * (1 - 1 / (2 * 10 ^ places)) = (10 ^ places - 1 / 2) * u by
    intro u
    field_simp]

theorem Rounds.le_exponent_iff (hplaces : 0 < places) (h : Rounds places y s) (k : ℤ) :
    k ≤ s.exponent ↔ (10 : ℚ) ^ k * (1 - 1 / (2 * 10 ^ places)) ≤ y := by
  obtain ⟨c, hc⟩ : ∃ c : ℚ, c = 1 - 1 / (2 * 10 ^ places) := ⟨_, rfl⟩
  have hten : (10 : ℚ) ≤ 10 ^ places := le_self_pow₀ (by norm_num) (by omega)
  have hhalf : 1 / (2 * 10 ^ places) ≤ (1 : ℚ) / 20 := by
    apply one_div_le_one_div_of_le <;> linarith
  have hpos : (0 : ℚ) < 1 / (2 * 10 ^ places) := by positivity
  have hlower : 19 / 20 ≤ c := by linarith
  have hupper : c ≤ 1 := by linarith
  have hmono : ∀ {a b : ℤ}, a ≤ b → (10 : ℚ) ^ a ≤ 10 ^ b := fun hab =>
    zpow_le_zpow_right₀ (by norm_num) hab
  have hbelow : ∀ a : ℤ, (10 : ℚ) ^ a * c ≤ 10 ^ a := fun a =>
    mul_le_of_le_one_right (by positivity) hupper
  have habove : ∀ {a b : ℤ}, a < b → (10 : ℚ) ^ a ≤ 10 ^ b * c := fun {a b} hab => by
    have hnext := hmono (a := a + 1) hab
    rw [zpow_add_one₀ (by norm_num)] at hnext
    have hscaled := mul_le_mul_of_nonneg_left hlower (by positivity : (0 : ℚ) ≤ 10 ^ b)
    have : (0 : ℚ) < 10 ^ a := by positivity
    linarith
  rw [← hc]
  cases h with
  | @kept e n hlow hhigh hnearest hlt =>
      have hcarry := (le_coefficient_iff hplaces hnearest).not.1 (not_le_of_gt hlt)
      rw [← hc, not_le] at hcarry
      constructor
      · exact fun hk => (hbelow k).trans ((hmono hk).trans hlow)
      · intro hy
        by_contra hk
        have := mul_le_mul_of_nonneg_right (hmono (a := e + 1) (b := k) (by simpa using hk))
          (by linarith : 0 ≤ c)
        linarith
  | @carried e hlow hhigh hnearest =>
      have hcarry := (le_coefficient_iff hplaces hnearest).1 (Nat.le_refl _)
      rw [← hc] at hcarry
      constructor
      · intro hk
        have := mul_le_mul_of_nonneg_right (hmono hk) (by linarith : 0 ≤ c)
        exact this.trans hcarry
      · intro hy
        by_contra hk
        have := habove (a := e + 1) (b := k) (by simpa using hk)
        linarith

end Significant

end LineCalculator
