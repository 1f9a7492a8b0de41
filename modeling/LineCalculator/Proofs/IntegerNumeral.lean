import LineCalculator.Number.Integer
import Mathlib.Data.Nat.Digits.Defs

namespace LineCalculator

namespace Integer

structure Digit where
  char : Char
  value : ℕ
  value_lt : value < 10
  in_run : ∃ start ∈ Text.digitZeros, char.toNat = start + value

structure Groups where
  toList : List (List Digit)
  ne_nil : toList ≠ []
  group_ne_nil : ∀ g ∈ toList, g ≠ []

namespace Groups

def text (gs : Groups) : Text :=
  ['_'].intercalate (gs.toList.map (·.map Digit.char))

def digits (gs : Groups) : List Digit :=
  gs.toList.flatten

def natural (gs : Groups) : ℕ :=
  Nat.ofDigits 10 (gs.digits.map Digit.value).reverse

end Groups

inductive Sign where
  | absent
  | plus
  | minus
  deriving DecidableEq, Repr

namespace Sign

def text : Sign → Text
  | absent => []
  | plus => ['+']
  | minus => ['-']

def apply : Sign → ℕ → ℤ
  | minus, n => -n
  | _, n => n

end Sign

structure Form (isBlank : Char → Bool) where
  front : Text
  sign : Sign
  groups : Groups
  back : Text
  front_blank : ∀ c ∈ front, isBlank c = true
  back_blank : ∀ c ∈ back, isBlank c = true
  length_digits_le : groups.digits.length ≤ 4300

namespace Form

variable {isBlank : Char → Bool}

def text (f : Form isBlank) : Text :=
  f.front ++ (f.sign.text ++ f.groups.text ++ f.back)

def value (f : Form isBlank) : ℤ :=
  f.sign.apply f.groups.natural

end Form

def Writes (isBlank : Char → Bool) (t : Text) (n : ℤ) : Prop :=
  ∃ f : Form isBlank, f.text = t ∧ f.value = n

section Digit

variable {c : Char} {d : ℕ}

theorem digitZeros_apart : ∀ a ∈ Text.digitZeros, ∀ b ∈ Text.digitZeros,
    a ≠ b → a + 10 ≤ b ∨ b + 10 ≤ a := by
  decide +kernel

theorem digitValue?_eq_some_iff :
    Text.digitValue? c = some d ↔ ∃ x : Digit, x.char = c ∧ x.value = d := by
  rw [Text.digitValue?, Option.map_eq_some_iff]
  constructor
  · rintro ⟨start, hfind, rfl⟩
    have hrun : start ≤ c.toNat ∧ c.toNat < start + 10 := by simpa using List.find?_some hfind
    have hmem := List.mem_of_find?_eq_some hfind
    exact ⟨⟨c, c.toNat - start, by omega, start, hmem, by omega⟩, rfl, rfl⟩
  · rintro ⟨⟨c, d, hd, start, hmem, hchar⟩, rfl, rfl⟩
    simp only
    cases hfind : Text.digitZeros.find? fun z => z ≤ c.toNat && c.toNat < z + 10 with
    | none =>
        have hnone := List.find?_eq_none.1 hfind start hmem
        simp only [Bool.and_eq_true, decide_eq_true_eq] at hnone
        omega
    | some found =>
        have hrun : found ≤ c.toNat ∧ c.toNat < found + 10 := by simpa using List.find?_some hfind
        have happart := digitZeros_apart found (List.mem_of_find?_eq_some hfind) start hmem
        exact ⟨found, rfl, by omega⟩

theorem digitValue?_char (x : Digit) : Text.digitValue? x.char = some x.value :=
  digitValue?_eq_some_iff.2 ⟨x, rfl, rfl⟩

theorem Digit.ne_of_digitValue? (x : Digit) (h : Text.digitValue? c = none) : x.char ≠ c := by
  rintro rfl
  rw [digitValue?_char] at h
  cases h

theorem digitZeros_apart_blanks : ∀ r ∈ Text.blanks, ∀ z ∈ Text.digitZeros,
    r.last < z ∨ z + 10 ≤ r.first := by
  decide +kernel

theorem Digit.not_isBlank (x : Digit) : Text.isBlank x.char = false := by
  obtain ⟨c, d, hd, start, hmem, hchar⟩ := x
  rw [← Bool.not_eq_true, Text.isBlank, Text.Run.cover_iff]
  rintro ⟨r, hr, hfirst, hlast⟩
  have happart := digitZeros_apart_blanks r hr start hmem
  simp only at hfirst hlast
  omega

end Digit

namespace Groups

variable {gs : Groups} {t : Text} {ds : List ℕ}

def single (x : Digit) : Groups :=
  ⟨[[x]], by simp, by simp⟩

def parted (x : Digit) (gs : Groups) : Groups :=
  ⟨[x] :: gs.toList, by simp, List.forall_mem_cons.2 ⟨by simp, gs.group_ne_nil⟩⟩

def push (x : Digit) (gs : Groups) : Groups where
  toList := (x :: gs.toList.head gs.ne_nil) :: gs.toList.tail
  ne_nil := by simp
  group_ne_nil := List.forall_mem_cons.2
    ⟨by simp, fun g hg => gs.group_ne_nil g (List.mem_of_mem_tail hg)⟩

theorem text_single (x : Digit) : (single x).text = [x.char] := rfl

theorem digits_single (x : Digit) : (single x).digits = [x] := rfl

theorem text_parted (x : Digit) (gs : Groups) : (parted x gs).text = x.char :: '_' :: gs.text := by
  obtain ⟨l, hl, hg⟩ := gs
  simp [text, parted, List.intercalate_cons_of_ne_nil, hl]

theorem digits_parted (x : Digit) (gs : Groups) : (parted x gs).digits = x :: gs.digits := rfl

theorem text_push (x : Digit) (gs : Groups) : (push x gs).text = x.char :: gs.text := by
  obtain ⟨l, hl, hg⟩ := gs
  cases l with
  | nil => exact absurd rfl hl
  | cons g l =>
      cases l with
      | nil => rfl
      | cons h l => simp [text, push]

theorem digits_push (x : Digit) (gs : Groups) : (push x gs).digits = x :: gs.digits := by
  obtain ⟨l, hl, hg⟩ := gs
  cases l with
  | nil => exact absurd rfl hl
  | cons g l => rfl

theorem induction {motive : Groups → Prop} (single : ∀ x, motive (.single x))
    (parted : ∀ x gs, motive gs → motive (.parted x gs))
    (push : ∀ x gs, motive gs → motive (.push x gs)) : ∀ gs, motive gs
  | ⟨[], hl, _⟩ => absurd rfl hl
  | ⟨[] :: _, _, hg⟩ => absurd rfl (hg [] List.mem_cons_self)
  | ⟨[[x]], _, _⟩ => single x
  | ⟨[x] :: h :: l, _, hg⟩ =>
      parted x _ (induction single parted push ⟨h :: l, by simp, (List.forall_mem_cons.1 hg).2⟩)
  | ⟨(x :: y :: g) :: l, _, hg⟩ =>
      push x _ (induction single parted push ⟨(y :: g) :: l, by simp,
        List.forall_mem_cons.2 ⟨by simp, (List.forall_mem_cons.1 hg).2⟩⟩)
termination_by gs => gs.digits.length
decreasing_by
  · simp [digits]
  · simp [digits]

theorem exists_text_eq_cons (gs : Groups) : ∃ x t, gs.text = Digit.char x :: t := by
  induction gs using induction with
  | single x => exact ⟨x, [], rfl⟩
  | parted x gs _ => exact ⟨x, _, text_parted x gs⟩
  | push x gs _ => exact ⟨x, _, text_push x gs⟩

theorem exists_text_eq_append (gs : Groups) : ∃ t x, gs.text = t ++ [Digit.char x] := by
  induction gs using induction with
  | single x => exact ⟨[], x, rfl⟩
  | parted x gs ih =>
      obtain ⟨t, y, ht⟩ := ih
      exact ⟨x.char :: '_' :: t, y, by rw [text_parted, ht]; rfl⟩
  | push x gs ih =>
      obtain ⟨t, y, ht⟩ := ih
      exact ⟨x.char :: t, y, by rw [text_push, ht]; rfl⟩

theorem digits?_text (gs : Groups) : digits? gs.text = some (gs.digits.map Digit.value) := by
  induction gs using induction with
  | single x => simp [text_single, digits_single, digits?, digitValue?_char]
  | parted x gs ih => simp [text_parted, digits_parted, digits?, digitValue?_char, ih]
  | push x gs ih =>
      obtain ⟨y, t, ht⟩ := gs.exists_text_eq_cons
      have hy : y.char ≠ '_' := y.ne_of_digitValue? (by decide)
      have hdigits : digits? (x.char :: y.char :: t) =
          (digits? (y.char :: t)).map (x.value :: ·) := by
        rw [digits?.eq_5 x.char x.value y.char t hy (digitValue?_char x)]
      rw [text_push, digits_push, ht, hdigits, ← ht, ih]
      rfl

theorem exists_of_digits? (h : digits? t = some ds) :
    ∃ gs : Groups, gs.text = t ∧ gs.digits.map Digit.value = ds := by
  fun_induction digits? t generalizing ds with
  | case1 => cases h
  | case2 => cases h
  | case3 c d hd =>
      cases h
      obtain ⟨x, rfl, rfl⟩ := digitValue?_eq_some_iff.1 hd
      exact ⟨single x, rfl, rfl⟩
  | case4 c t d hd ih =>
      obtain ⟨es, hes, rfl⟩ := Option.map_eq_some_iff.1 h
      obtain ⟨gs, rfl, rfl⟩ := ih hes
      obtain ⟨x, rfl, rfl⟩ := digitValue?_eq_some_iff.1 hd
      exact ⟨parted x gs, text_parted x gs, rfl⟩
  | case5 c d e t _ hd ih =>
      obtain ⟨es, hes, rfl⟩ := Option.map_eq_some_iff.1 h
      obtain ⟨gs, hgs, rfl⟩ := ih hes
      obtain ⟨x, rfl, rfl⟩ := digitValue?_eq_some_iff.1 hd
      exact ⟨push x gs, by rw [text_push, hgs], by rw [digits_push, List.map_cons]⟩

theorem ofDigits_digits (gs : Groups) : ofDigits (gs.digits.map Digit.value) = gs.natural := by
  rw [natural, ofDigits, Nat.ofDigits_eq_foldr, List.foldr_reverse]
  congr 1
  funext n d
  simp [Nat.mul_comm, Nat.add_comm]

theorem magnitude?_eq_some_iff {n : ℕ} :
    magnitude? t = some n ↔
      ∃ gs : Groups, gs.text = t ∧ gs.digits.length ≤ 4300 ∧ gs.natural = n := by
  rw [magnitude?, Option.bind_eq_some_iff]
  constructor
  · rintro ⟨ds, hds, hn⟩
    obtain ⟨gs, rfl, rfl⟩ := exists_of_digits? hds
    rw [Option.ite_none_right_eq_some, List.length_map, ofDigits_digits] at hn
    exact ⟨gs, rfl, hn.1, Option.some.inj hn.2⟩
  · rintro ⟨gs, rfl, hlength, rfl⟩
    refine ⟨_, gs.digits?_text, ?_⟩
    rw [if_pos (by rwa [List.length_map]), ofDigits_digits]

end Groups

section Signed

variable {t : Text} {n : ℤ}

theorem signed?_minus (t : Text) : signed? ('-' :: t) = (magnitude? t).map Sign.minus.apply := by
  cases h : magnitude? t <;> simp [signed?, h, Sign.apply]

theorem signed?_plus (t : Text) : signed? ('+' :: t) = (magnitude? t).map Sign.plus.apply := by
  cases h : magnitude? t <;> simp [signed?, h, Sign.apply]

theorem signed?_of_ne {c : Char} (hminus : c ≠ '-') (hplus : c ≠ '+') (t : Text) :
    signed? (c :: t) = (magnitude? (c :: t)).map Sign.absent.apply := by
  cases h : magnitude? (c :: t) <;> simp [signed?, h, hminus, hplus, Sign.apply]

theorem signed?_text (s : Sign) {gs : Groups} (h : gs.digits.length ≤ 4300) :
    signed? (s.text ++ gs.text) = some (s.apply gs.natural) := by
  have hmagnitude : magnitude? gs.text = some gs.natural :=
    Groups.magnitude?_eq_some_iff.2 ⟨gs, rfl, h, rfl⟩
  cases s with
  | absent =>
      obtain ⟨x, t, ht⟩ := gs.exists_text_eq_cons
      rw [ht] at hmagnitude
      rw [Sign.text, List.nil_append, ht, signed?_of_ne (x.ne_of_digitValue? (by decide))
        (x.ne_of_digitValue? (by decide)), hmagnitude]
      rfl
  | plus =>
      rw [Sign.text, List.singleton_append, signed?_plus, hmagnitude]
      rfl
  | minus =>
      rw [Sign.text, List.singleton_append, signed?_minus, hmagnitude]
      rfl

theorem exists_of_signed? (h : signed? t = some n) : ∃ (s : Sign) (gs : Groups),
    s.text ++ gs.text = t ∧ gs.digits.length ≤ 4300 ∧ s.apply gs.natural = n := by
  cases t with
  | nil => cases h
  | cons c t =>
      by_cases hminus : c = '-'
      · rw [hminus, signed?_minus] at h
        obtain ⟨m, hm, rfl⟩ := Option.map_eq_some_iff.1 h
        obtain ⟨gs, rfl, hlength, rfl⟩ := Groups.magnitude?_eq_some_iff.1 hm
        exact ⟨.minus, gs, by rw [hminus]; rfl, hlength, rfl⟩
      by_cases hplus : c = '+'
      · rw [hplus, signed?_plus] at h
        obtain ⟨m, hm, rfl⟩ := Option.map_eq_some_iff.1 h
        obtain ⟨gs, rfl, hlength, rfl⟩ := Groups.magnitude?_eq_some_iff.1 hm
        exact ⟨.plus, gs, by rw [hplus]; rfl, hlength, rfl⟩
      · rw [signed?_of_ne hminus hplus] at h
        obtain ⟨m, hm, rfl⟩ := Option.map_eq_some_iff.1 h
        obtain ⟨gs, hgs, hlength, rfl⟩ := Groups.magnitude?_eq_some_iff.1 hm
        exact ⟨.absent, gs, hgs, hlength, rfl⟩

end Signed

section Trimmed

variable {t x y : Text} {n : ℤ}

theorem exists_trim (t : Text) : ∃ front back : Text, t = front ++ (Text.trim t ++ back) ∧
    (∀ c ∈ front, Text.isBlank c = true) ∧ ∀ c ∈ back, Text.isBlank c = true := by
  obtain ⟨u, hu⟩ : ∃ u, u = Text.trimStart t := ⟨_, rfl⟩
  have hfront := Text.takeWhile_isBlank_append_trimStart t
  have hback := Text.takeWhile_isBlank_append_trimStart u.reverse
  refine ⟨t.takeWhile Text.isBlank, (u.reverse.takeWhile Text.isBlank).reverse, ?_, ?_, ?_⟩
  · rw [Text.trim, ← hu, ← List.reverse_append, hback, List.reverse_reverse, hu, hfront]
  · exact List.all_eq_true.1 List.all_takeWhile
  · exact fun c hc => List.all_eq_true.1 List.all_takeWhile c (List.mem_reverse.1 hc)

theorem trimStart_of_head? (hhead : ∀ c ∈ t.head?, Text.isBlank c = false) :
    Text.trimStart t = t := by
  cases t with
  | nil => rfl
  | cons c t => exact Text.trimStart_of_not_isBlank (hhead c rfl)

theorem trim_append (hx : ∀ c ∈ x, Text.isBlank c = true) (hy : ∀ c ∈ y, Text.isBlank c = true)
    (ht : t ≠ []) (hhead : ∀ c ∈ t.head?, Text.isBlank c = false)
    (hlast : ∀ c ∈ t.getLast?, Text.isBlank c = false) : Text.trim (x ++ (t ++ y)) = t := by
  have hstart : Text.trimStart (x ++ (t ++ y)) = t ++ y := by
    obtain ⟨c, u, rfl⟩ := List.exists_cons_of_ne_nil ht
    rw [Text.trimStart_append hx]
    exact trimStart_of_head? (t := c :: (u ++ y)) hhead
  have hend : Text.trimStart (y.reverse ++ t.reverse) = t.reverse := by
    rw [Text.trimStart_append fun c hc => hy c (List.mem_reverse.1 hc), trimStart_of_head?]
    rwa [List.head?_reverse]
  rw [Text.trim, hstart, List.reverse_append, hend, List.reverse_reverse]

theorem trim_text (f : Form Text.isBlank) : Text.trim f.text = f.sign.text ++ f.groups.text := by
  obtain ⟨x, t, hfirst⟩ := f.groups.exists_text_eq_cons
  obtain ⟨u, y, hlast⟩ := f.groups.exists_text_eq_append
  refine trim_append f.front_blank f.back_blank (by simp [hfirst]) ?_ ?_
  · intro c hc
    cases hsign : f.sign with
    | absent =>
        rw [hsign, hfirst] at hc
        obtain rfl := Option.some.inj hc
        exact x.not_isBlank
    | plus =>
        rw [hsign] at hc
        obtain rfl := Option.some.inj hc
        decide
    | minus =>
        rw [hsign] at hc
        obtain rfl := Option.some.inj hc
        decide
  · intro c hc
    rw [hlast, ← List.append_assoc, List.getLast?_concat] at hc
    obtain rfl := Option.some.inj hc
    exact y.not_isBlank

theorem ofText?_eq_some_iff : ofText? t = some n ↔ Writes Text.isBlank t n := by
  constructor
  · intro h
    obtain ⟨s, gs, hcore, hlength, hvalue⟩ := exists_of_signed? h
    obtain ⟨front, back, ht, hfront, hback⟩ := exists_trim t
    refine ⟨⟨front, s, gs, back, hfront, hback, hlength⟩, ?_, hvalue⟩
    rw [Form.text, hcore, ← ht]
  · rintro ⟨f, rfl, rfl⟩
    rw [ofText?, trim_text]
    exact signed?_text f.sign f.length_digits_le

end Trimmed

end Integer

end LineCalculator
