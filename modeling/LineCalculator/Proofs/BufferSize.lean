import LineCalculator.Calculator.Basic
import LineCalculator.Proofs.IntegerNumeral
import LineCalculator.Proofs.PrintedNumber
import LineCalculator.Proofs.Tenfold

namespace LineCalculator

def Text.isSpace (c : Char) : Bool :=
  isBlank c || (0x1c ≤ c.toNat && c.toNat ≤ 0x1f)

def tooSmall (n : ℤ) : Text :=
  "Line buffer of ".toList ++ (toString n).toList ++ " is too small".toList

def notNumeral (t : Text) : Text :=
  "Line buffer size ".toList ++ Text.quoted t ++ " is not a number".toList

theorem tooSmall_injective : Function.Injective tooSmall := by
  intro a b h
  have htext : (toString a).toList = (toString b).toList :=
    List.append_cancel_left (List.append_cancel_right h)
  have hrepr : a.repr = b.repr := String.toList_injective htext
  exact Int.repr_injective hrepr

theorem tooSmall_ne_notNumeral (n : ℤ) (t : Text) : tooSmall n ≠ notNumeral t := by
  intro h
  have hfront := congrArg (List.take 13) h
  have hsmall : (tooSmall n).take 13 = "Line buffer o".toList := rfl
  have hnot : (notNumeral t).take 13 = "Line buffer s".toList := rfl
  rw [hsmall, hnot] at hfront
  exact absurd hfront (by decide)

namespace Calculator

variable {settings : Settings} {overrides : Overrides} {n : ℤ} {r : Refusal} {s message : Text}

def KnowsPolicy (settings : Settings) (overrides : Overrides) : Prop :=
  Overrides.textOr overrides.onError settings.onError ∈ ["exit".toList, "continue".toList]

instance : Decidable (KnowsPolicy settings overrides) :=
  inferInstanceAs (Decidable (_ ∈ _))

def MadeWithSize (settings : Settings) (overrides : Overrides) (n : ℤ) : Prop :=
  ∃ c, create settings overrides = .ok c ∧ (c.size : ℤ) = n

def RefusedWith (settings : Settings) (overrides : Overrides) (message : Text) : Prop :=
  ∃ r, create settings overrides = .error r ∧ r.message = message

section Creation

variable (h : KnowsPolicy settings overrides)

include h

theorem KnowsPolicy.exists_policy :
    ∃ p, Policy.ofName? (Overrides.textOr overrides.onError settings.onError) = some p := by
  have hall : ∀ t ∈ ["exit".toList, "continue".toList], ∃ p, Policy.ofName? t = some p := by
    simp only [List.forall_mem_cons]
    exact ⟨⟨.exit, by decide⟩, ⟨.proceed, by decide⟩, List.forall_mem_nil _⟩
  exact hall _ h

theorem create_of_refused_size
    (hsize : (Overrides.sizeOr overrides.maxLine settings.maxLine).size? = .error r) :
    create settings overrides = .error r := by
  obtain ⟨p, hp⟩ := h.exists_policy
  simp only [create, hp, hsize]

theorem create_of_small_size
    (hsize : (Overrides.sizeOr overrides.maxLine settings.maxLine).size? = .ok n) (hn : n < 2) :
    create settings overrides = .error (.sizeTooSmall n) := by
  obtain ⟨p, hp⟩ := h.exists_policy
  simp only [create, hp, hsize, dif_neg (not_le.2 hn)]

theorem madeWithSize_of_size
    (hsize : (Overrides.sizeOr overrides.maxLine settings.maxLine).size? = .ok n) (hn : 2 ≤ n) :
    MadeWithSize settings overrides n := by
  obtain ⟨p, hp⟩ := h.exists_policy
  refine ⟨⟨p, n.toNat, Overrides.textOr overrides.prompt settings.prompt, by omega⟩, ?_, ?_⟩
  · simp only [create, hp, hsize, dif_pos hn]
  · exact Int.toNat_of_nonneg (by omega)

end Creation

theorem MadeWithSize.unique {m : ℤ} (h : MadeWithSize settings overrides n)
    (h' : MadeWithSize settings overrides m) : n = m := by
  obtain ⟨c, hc, rfl⟩ := h
  obtain ⟨c', hc', rfl⟩ := h'
  rw [hc] at hc'
  cases hc'
  rfl

theorem MadeWithSize.not_refusedWith (h : MadeWithSize settings overrides n) :
    ¬ RefusedWith settings overrides message := by
  rintro ⟨r, hr, -⟩
  obtain ⟨c, hc, -⟩ := h
  rw [hc] at hr
  cases hr

theorem RefusedWith.unique {message' : Text} (h : RefusedWith settings overrides message)
    (h' : RefusedWith settings overrides message') : message = message' := by
  obtain ⟨r, hr, rfl⟩ := h
  obtain ⟨r', hr', rfl⟩ := h'
  rw [hr] at hr'
  cases hr'
  rfl

theorem outcome_of_size_text (h : KnowsPolicy settings overrides)
    (hsize : overrides.maxLine = some (.text s)) (hs : s ≠ []) :
    (∃ m, 2 ≤ m ∧ Integer.ofText? s = some m ∧ MadeWithSize settings overrides m) ∨
      (∃ m, m < 2 ∧ Integer.ofText? s = some m ∧ RefusedWith settings overrides (tooSmall m)) ∨
      Integer.ofText? s = none ∧ RefusedWith settings overrides (notNumeral s) := by
  have hgiven : Overrides.sizeOr overrides.maxLine settings.maxLine = .text s := by
    simp [hsize, Overrides.sizeOr, SizeArgument.isVoid, hs]
  cases hread : Integer.ofText? s with
  | none =>
      exact Or.inr (Or.inr ⟨rfl,
        ⟨_, create_of_refused_size h (by rw [hgiven, SizeArgument.size?, hread]), rfl⟩⟩)
  | some m =>
      have hread' : (Overrides.sizeOr overrides.maxLine settings.maxLine).size? = .ok m := by
        rw [hgiven, SizeArgument.size?, hread]
      rcases lt_or_ge m 2 with hlow | hhigh
      · exact Or.inr (Or.inl ⟨m, hlow, rfl, _, create_of_small_size h hread' hlow, rfl⟩)
      · exact Or.inl ⟨m, hhigh, rfl, madeWithSize_of_size h hread' hhigh⟩

theorem create_of_size_text (h : KnowsPolicy settings overrides)
    (hsize : overrides.maxLine = some (.text s)) (hs : s ≠ []) :
    (∀ n, MadeWithSize settings overrides n ↔ Integer.Writes Text.isBlank s n ∧ 2 ≤ n) ∧
      (∀ n, RefusedWith settings overrides (tooSmall n) ↔
        Integer.Writes Text.isBlank s n ∧ n < 2) ∧
      (RefusedWith settings overrides (notNumeral s) ↔
        ¬ ∃ n, Integer.Writes Text.isBlank s n) := by
  simp only [← Integer.ofText?_eq_some_iff]
  rcases outcome_of_size_text h hsize hs with
    ⟨m, hm, hread, hmade⟩ | ⟨m, hm, hread, hrefused⟩ | ⟨hread, hrefused⟩
  · simp only [hread, Option.some_inj]
    refine ⟨fun n => ⟨fun hn => ?_, ?_⟩, fun n => ?_, ?_⟩
    · obtain rfl := hn.unique hmade
      exact ⟨rfl, hm⟩
    · rintro ⟨rfl, -⟩
      exact hmade
    · exact iff_of_false hmade.not_refusedWith (by omega)
    · exact iff_of_false hmade.not_refusedWith (not_not_intro ⟨m, rfl⟩)
  · simp only [hread, Option.some_inj]
    refine ⟨fun n => ?_, fun n => ⟨fun hsmall => ?_, ?_⟩, ?_⟩
    · exact iff_of_false (fun hmade => hmade.not_refusedWith hrefused) (by omega)
    · obtain rfl := tooSmall_injective (hsmall.unique hrefused)
      exact ⟨rfl, hm⟩
    · rintro ⟨rfl, -⟩
      exact hrefused
    · exact iff_of_false (fun hnot => tooSmall_ne_notNumeral m s (hrefused.unique hnot))
        (not_not_intro ⟨m, rfl⟩)
  · simp only [hread, reduceCtorEq, false_and, exists_false, not_false_iff]
    refine ⟨fun n => ?_, fun n => ?_, iff_of_true hrefused trivial⟩
    · exact iff_of_false (fun hmade => hmade.not_refusedWith hrefused) not_false
    · exact iff_of_false (fun hsmall => tooSmall_ne_notNumeral n s (hsmall.unique hrefused))
        not_false

theorem create_of_digits_of_three_scripts :
    MadeWithSize (.ofEnvironment fun _ => none)
      ⟨some "continue".toList, some (.text "\u2003+１_٢3\n".toList), none⟩ 123 := by
  have hwrites : Integer.Writes Text.isBlank "\u2003+１_٢3\n".toList 123 :=
    Integer.ofText?_eq_some_iff.1 (by decide)
  have hpolicy : KnowsPolicy (.ofEnvironment fun _ => none)
      ⟨some "continue".toList, some (.text "\u2003+１_٢3\n".toList), none⟩ := by
    decide
  have hsize := create_of_size_text hpolicy rfl (by decide)
  exact (hsize.1 123).2 ⟨hwrites, by norm_num⟩

theorem not_made_of_five_and_separator :
    KnowsPolicy (.ofEnvironment fun _ => none) ⟨none, some (.text "5\x1f".toList), none⟩ ∧
      Integer.Writes Text.isSpace "5\x1f".toList 5 ∧ (2 : ℤ) ≤ 5 ∧
      ¬ MadeWithSize (.ofEnvironment fun _ => none) ⟨none, some (.text "5\x1f".toList), none⟩ 5 ∧
      RefusedWith (.ofEnvironment fun _ => none) ⟨none, some (.text "5\x1f".toList), none⟩
        "Line buffer size '5\\x1f' is not a number".toList := by
  have hrefused : RefusedWith (.ofEnvironment fun _ => none)
      ⟨none, some (.text "5\x1f".toList), none⟩
      "Line buffer size '5\\x1f' is not a number".toList :=
    ⟨.sizeNotNumeral "5\x1f".toList, by rfl, by decide +kernel⟩
  refine ⟨by decide, ?_, by norm_num, fun h => h.not_refusedWith hrefused,
    hrefused⟩
  let five : Integer.Digit := ⟨'5', 5, by norm_num, 0x30, by decide, by decide⟩
  have hspace : ∀ c ∈ ['\x1f'], Text.isSpace c = true := List.forall_mem_singleton.2 (by decide)
  exact ⟨⟨[], .absent, .single five, ['\x1f'], List.forall_mem_nil _, hspace, by decide⟩, rfl, rfl⟩

end Calculator

def SizeArgument.number? : SizeArgument → Option ℚ
  | .integer n => some n
  | .double x => (Double.ofFloat x).value?
  | _ => none

namespace Double

variable {x : Float} {q : ℚ}

theorem beq_zero_iff (h : (ofFloat x).value? = some q) : (x == 0) = true ↔ q = 0 := by
  have hzero : (x == 0) = true ↔ ∃ s, x.toModel.unpack = .zero s := by
    rw [← Bool.not_eq_false, beq_zero_eq_false_iff, not_forall_not]
  rw [hzero]
  rw [ofFloat_eq] at h
  generalize x.toModel.unpack = u at h
  cases u with
  | notANumber => cases h
  | infinity s => cases h
  | zero s =>
      obtain rfl : signed (ofSign s) 0 = q := by simpa [ofUnpacked, value?] using h
      exact iff_of_true ⟨s, rfl⟩ (abs_eq_zero.1 (by rw [abs_signed, abs_zero]))
  | finite s m e hm =>
      obtain rfl : signed (ofSign s) (m * 2 ^ e) = q := by simpa [ofUnpacked, value?] using h
      have hpos : (0 : ℚ) < m * 2 ^ e := by positivity
      refine iff_of_false (by rintro ⟨_, ⟨⟩⟩) fun hzero => hpos.ne' ?_
      rwa [← abs_eq_zero, abs_signed, abs_eq_zero] at hzero

theorem truncate?_of_value? {d : Double} (h : d.value? = some q) :
    d.truncate? = some (if 0 ≤ q then ⌊q⌋ else ⌈q⌉) := by
  cases d with
  | nan => cases h
  | infinite negative => cases h
  | finite negative m e =>
      have hfloor : ⌊(m * 2 ^ e : ℚ)⌋ = (numerator m e / denominator e : ℕ) := by
        rw [← numerator_div_denominator]
        exact Rat.floor_natCast_div_natCast ..
      have hnonneg : (0 : ℚ) ≤ m * 2 ^ e := by positivity
      obtain rfl : signed negative (m * 2 ^ e) = q := Option.some.inj h
      rw [truncate?, ← hfloor]
      cases negative with
      | false => simp [signed, hnonneg]
      | true =>
          rcases hnonneg.eq_or_lt with hzero | hpos
          · simp [signed, ← hzero]
          · simp [signed, hpos, Int.ceil_neg]

end Double

namespace SizeArgument

variable {a : SizeArgument} {q : ℚ}

theorem isVoid_iff (h : a.number? = some q) : a.isVoid = true ↔ q = 0 := by
  cases a with
  | flag b => cases h
  | text t => cases h
  | integer n =>
      obtain rfl : (n : ℚ) = q := Option.some.inj h
      simp [isVoid]
  | double x => exact Double.beq_zero_iff h

theorem size?_of_number? (h : a.number? = some q) :
    a.size? = .ok (if 0 ≤ q then ⌊q⌋ else ⌈q⌉) := by
  cases a with
  | flag b => cases h
  | text t => cases h
  | integer n =>
      obtain rfl : (n : ℚ) = q := Option.some.inj h
      simp [size?]
  | double x => simp only [size?, Double.truncate?_of_value? h]

end SizeArgument

namespace Calculator

variable {settings : Settings} {overrides : Overrides} {a : SizeArgument} {q : ℚ}

theorem create_of_size_number (h : KnowsPolicy settings overrides)
    (hsize : overrides.maxLine = some a) (hnumber : a.number? = some q) :
    (q = 0 → create settings overrides = create settings { overrides with maxLine := none }) ∧
      (2 ≤ q → MadeWithSize settings overrides ⌊q⌋) ∧
      (q ≠ 0 → q < 2 → ∃ r, create settings overrides = .error r ∧
        (-10 ^ 4300 < q → r.message = tooSmall (if 0 ≤ q then ⌊q⌋ else ⌈q⌉))) := by
  have hgiven : q ≠ 0 → (Overrides.sizeOr overrides.maxLine settings.maxLine).size? =
      .ok (if 0 ≤ q then ⌊q⌋ else ⌈q⌉) := by
    intro hq
    rw [hsize, Overrides.sizeOr, if_neg ((SizeArgument.isVoid_iff hnumber).not.2 hq),
      SizeArgument.size?_of_number? hnumber]
  refine ⟨fun hq => ?_, fun hq => ?_, fun hq hlow => ?_⟩
  · have hvoid := (SizeArgument.isVoid_iff hnumber).2 hq
    simp only [create, hsize, Overrides.sizeOr, if_pos hvoid]
  · have hread := hgiven (by linarith)
    rw [if_pos (by linarith)] at hread
    exact madeWithSize_of_size h hread (Int.le_floor.2 (by exact_mod_cast hq))
  · refine ⟨_, create_of_small_size h (hgiven hq) ?_, fun _ => rfl⟩
    split_ifs with hnonneg
    · exact Int.floor_lt.2 (by exact_mod_cast hlow)
    · have : ⌈q⌉ ≤ 0 := Int.ceil_le.2 (by push_cast; linarith)
      omega

theorem create_of_two_and_a_half :
    (SizeArgument.double 2.5).number? = some (5 / 2) ∧
      MadeWithSize (.ofEnvironment fun _ => none) ⟨none, some (.double 2.5), none⟩ 2 := by
  have hbits : Double.ofFloat 2.5 = .finite false 5629499534213120 (-51) := by decide +kernel
  have hnumber : (SizeArgument.double 2.5).number? = some (5 / 2) := by
    rw [SizeArgument.number?, hbits]
    norm_num [Double.value?, signed]
  have hpolicy : KnowsPolicy (.ofEnvironment fun _ => none) ⟨none, some (.double 2.5), none⟩ := by
    decide
  have hsize := create_of_size_number hpolicy rfl hnumber
  have hmade := hsize.2.1 (by norm_num)
  rw [show ⌊(5 / 2 : ℚ)⌋ = 2 by norm_num] at hmade
  exact ⟨hnumber, hmade⟩

theorem made_of_zero :
    (SizeArgument.integer 0).number? = some 0 ∧
      MadeWithSize (.ofEnvironment fun _ => none) ⟨none, some (.integer 0), none⟩ 128 :=
  ⟨rfl, ⟨.exit, 128, "> ".toList, by decide⟩, rfl, rfl⟩

end Calculator

end LineCalculator
