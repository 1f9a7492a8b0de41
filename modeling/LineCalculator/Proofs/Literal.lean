import LineCalculator.Proofs.Decimal
import LineCalculator.Proofs.Records

namespace LineCalculator

namespace Text

def hexDigit? (c : Char) : Option ℕ :=
  if '0' ≤ c ∧ c ≤ '9' then some (c.toNat - 0x30)
  else if 'a' ≤ c ∧ c ≤ 'f' then some (c.toNat - 0x57)
  else if 'A' ≤ c ∧ c ≤ 'F' then some (c.toNat - 0x37)
  else none

def hexadecimal? (t : Text) : Option ℕ :=
  t.foldlM (fun n c => (hexDigit? c).map fun d => 16 * n + d) 0

def codePoint? (width : ℕ) (t : Text) : Option Char :=
  if t.length = width then
    (hexadecimal? t).bind fun n => if n.isValidChar then some (Char.ofNat n) else none
  else none

def shorthand? : Char → Option Char
  | '\\' => some '\\'
  | '\'' => some '\''
  | '"' => some '"'
  | 'n' => some '\n'
  | 'r' => some '\r'
  | 't' => some '\t'
  | _ => none

def codeWidth? : Char → Option ℕ
  | 'x' => some 2
  | 'u' => some 4
  | 'U' => some 8
  | _ => none

def readCharacter? : Text → Option (Char × Text)
  | [] => none
  | '\\' :: t =>
      match t with
      | [] => none
      | c :: t =>
          match shorthand? c, codeWidth? c with
          | some d, _ => some (d, t)
          | none, some width => (codePoint? width (t.take width)).map fun d => (d, t.drop width)
          | none, none => none
  | c :: t => if c = '\n' ∨ c = '\r' then none else some (c, t)

theorem length_of_readCharacter? {t rest : Text} {c : Char}
    (h : readCharacter? t = some (c, rest)) : rest.length < t.length := by
  unfold readCharacter? at h
  split at h
  · cases h
  · split at h
    · cases h
    · split at h
      · cases h
        simp only [List.length_cons]
        omega
      · obtain ⟨d, -, hd⟩ := Option.map_eq_some_iff.1 h
        cases hd
        simp only [List.length_cons, List.length_drop]
        omega
      · cases h
  · split at h
    · cases h
    · cases h
      exact Nat.lt_succ_self _

def readThrough? (mark : Char) (t : Text) : Option (Text × Text) :=
  if t.head? = some mark then some ([], t.tail)
  else
    match _ : readCharacter? t with
    | none => none
    | some (c, rest) => (readThrough? mark rest).map fun (value, behind) => (c :: value, behind)
termination_by t.length
decreasing_by exact length_of_readCharacter? ‹_›

def readLiteral? : Text → Option (Text × Text)
  | '\'' :: t => readThrough? '\'' t
  | '"' :: t => readThrough? '"' t
  | _ => none

section Reading

variable {mark c : Char} {t u r s : Text}

theorem hexDigit?_digitChar : ∀ n < 16, hexDigit? (digitChar n) = some n := by
  decide

theorem hexadecimal?_digits (width n : ℕ) :
    hexadecimal? (digits 16 width n) = some (n % 16 ^ width) := by
  induction width generalizing n with
  | zero => rw [pow_zero, Nat.mod_one]; rfl
  | succ width ih =>
      have hlast := hexDigit?_digitChar (n % 16) (Nat.mod_lt n (by decide))
      have hfront := ih (n / 16)
      rw [hexadecimal?] at hfront
      rw [digits, hexadecimal?, List.foldlM_append, hfront, pow_succ', Nat.mod_mul]
      simp only [List.foldlM_cons, List.foldlM_nil, hlast, Option.map_some, Option.bind_eq_bind,
        Option.bind_some, Option.pure_def, Option.some_inj]
      omega

theorem codePoint?_digits {width : ℕ} (h : c.toNat < 16 ^ width) :
    codePoint? width (digits 16 width c.toNat) = some c := by
  have hvalid : c.toNat.isValidChar := c.valid
  rw [codePoint?, if_pos (length_digits 16 width c.toNat), hexadecimal?_digits,
    Nat.mod_eq_of_lt h, Option.bind_some, if_pos hvalid, Char.ofNat_toNat]

theorem readCharacter?_shorthand {d : Char} (h : shorthand? c = some d) (r : Text) :
    readCharacter? ('\\' :: c :: r) = some (d, r) := by
  simp only [readCharacter?, h]

theorem readCharacter?_code {letter : Char} {width : ℕ} (hnone : shorthand? letter = none)
    (hwidth : codeWidth? letter = some width) (h : c.toNat < 16 ^ width) (r : Text) :
    readCharacter? ('\\' :: letter :: (digits 16 width c.toNat ++ r)) = some (c, r) := by
  have hlength := length_digits 16 width c.toNat
  simp only [readCharacter?, hnone, hwidth, List.take_left' hlength, List.drop_left' hlength,
    codePoint?_digits h, Option.map_some]

theorem readCharacter?_plain (hbackslash : c ≠ '\\') (hnewline : c ≠ '\n') (hreturn : c ≠ '\r')
    (r : Text) : readCharacter? (c :: r) = some (c, r) := by
  unfold readCharacter?
  split
  · rename_i h
    cases h
  · rename_i h
    exact absurd (List.cons.inj h).1 hbackslash
  · rename_i h
    obtain ⟨rfl, rfl⟩ := List.cons.inj h
    exact if_neg (not_or_intro hnewline hreturn)

theorem toNat_lt (c : Char) : c.toNat < 16 ^ 8 := by
  have hvalid : c.toNat.isValidChar := c.valid
  rw [Nat.isValidChar] at hvalid
  norm_num
  omega

theorem readCharacter?_escape (hmark : mark = '\'' ∨ mark = '"') (c : Char) (r : Text) :
    readCharacter? (escape mark c ++ r) = some (c, r) := by
  unfold escape
  split_ifs with hself hnewline hreturn htab hprintable hbyte hshort
  · have hc : shorthand? c = some c := by
      rcases hself with rfl | rfl
      · rcases hmark with rfl | rfl <;> rfl
      · rfl
    exact readCharacter?_shorthand hc r
  · exact readCharacter?_shorthand (by rw [hnewline]; rfl) r
  · exact readCharacter?_shorthand (by rw [hreturn]; rfl) r
  · exact readCharacter?_shorthand (by rw [htab]; rfl) r
  · exact readCharacter?_plain (fun h => hself (Or.inr h)) hnewline hreturn r
  · exact readCharacter?_code rfl rfl hbyte r
  · exact readCharacter?_code rfl rfl hshort r
  · exact readCharacter?_code rfl rfl (toNat_lt c) r

theorem head?_escape (hmark : mark = '\'' ∨ mark = '"') (c : Char) (r : Text) :
    (escape mark c ++ r).head? ≠ some mark := by
  have hbackslash : '\\' ≠ mark := by
    rcases hmark with rfl | rfl <;> decide
  unfold escape
  split_ifs with hself <;> simp_all

theorem readThrough?_escape (hmark : mark = '\'' ∨ mark = '"') (c : Char) (r : Text) :
    readThrough? mark (escape mark c ++ r) =
      (readThrough? mark r).map fun (value, behind) => (c :: value, behind) := by
  rw [readThrough?, if_neg (head?_escape hmark c r)]
  split
  · rename_i h
    rw [readCharacter?_escape hmark] at h
    cases h
  · rename_i h
    rw [readCharacter?_escape hmark] at h
    cases h
    rfl

theorem readThrough?_body (hmark : mark = '\'' ∨ mark = '"') (t r : Text) :
    readThrough? mark (t.flatMap (escape mark) ++ mark :: r) = some (t, r) := by
  induction t with
  | nil => rw [readThrough?]; exact if_pos rfl
  | cons c t ih =>
      rw [List.flatMap_cons, List.append_assoc, readThrough?_escape hmark, ih]
      rfl

theorem readLiteral?_quoted (t r : Text) : readLiteral? (quoted t ++ r) = some (t, r) := by
  rw [quoted, List.append_assoc, List.cons_append, List.singleton_append, quoteMark]
  split
  · exact readThrough?_body (Or.inr rfl) t r
  · exact readThrough?_body (Or.inl rfl) t r

theorem quoted_append_inj (h : quoted t ++ r = quoted u ++ s) : t = u ∧ r = s := by
  have hread := readLiteral?_quoted t r
  rw [h, readLiteral?_quoted, Option.some_inj, Prod.mk_inj] at hread
  exact ⟨hread.1.symm, hread.2.symm⟩

theorem quoted_injective : Function.Injective quoted := by
  intro t u h
  have happend : quoted t ++ [] = quoted u ++ [] := congrArg (· ++ []) h
  exact (quoted_append_inj happend).1

def lineBreaks : List Char :=
  ['\n', '\x0b', '\x0c', '\r', '\x1c', '\x1d', '\x1e', '\u0085', '\u2028', '\u2029']

theorem not_mem_lineBreaks (h : isPrintable c = true) : c ∉ lineBreaks := by
  have hnone : lineBreaks.any isPrintable = false := by decide +kernel
  intro hmem
  rw [List.any_eq_true.2 ⟨c, hmem, h⟩] at hnone
  cases hnone

end Reading

end Text

theorem Category.ne_blank_of_mem_name (k : Category) : ∀ c ∈ k.name, decide (c ≠ ' ') = true := by
  have hblank : ' ' ∉ k.name := by
    cases k <;> decide
  intro c hc
  exact decide_eq_true fun h => hblank (h ▸ hc)

theorem valueRecordMark_append_ne (x y : Text) :
    valueRecordMark ++ x ≠ failureRecordMark ++ y := by
  intro h
  have hfront : "bcalc.p".toList = "bcalc.c".toList := congrArg (List.take 7) h
  exact absurd hfront (by decide)

theorem recordBody_cases (t : Text) :
    (∃ v, recordBody t = valueRecordMark ++ (Text.quoted t ++ (" = ".toList ++ generalText v))) ∨
    ∃ f : Failure, recordBody t = failureRecordMark ++ (f.cause.category.name ++
      (" at offset ".toList ++ ((toString f.position).toList ++
        (" of ".toList ++ Text.quoted t)))) := by
  rw [recordBody]
  cases evaluate t with
  | ok v => exact Or.inl ⟨v, by simp only [List.append_assoc]⟩
  | error f => exact Or.inr ⟨f, by simp only [List.append_assoc]⟩

theorem recordBody_injective : Function.Injective recordBody := by
  intro t u h
  rcases recordBody_cases t with ⟨v, ht⟩ | ⟨f, ht⟩ <;>
    rcases recordBody_cases u with ⟨w, hu⟩ | ⟨g, hu⟩ <;> rw [ht, hu] at h
  · exact (Text.quoted_append_inj (List.append_cancel_left h)).1
  · exact absurd h (valueRecordMark_append_ne _ _)
  · exact absurd h.symm (valueRecordMark_append_ne _ _)
  -- The category ends at its blank and the offset at its last digit.
  · obtain ⟨-, hbehind⟩ := Text.append_inj_of_stops f.cause.category.ne_blank_of_mem_name
      g.cause.category.ne_blank_of_mem_name (by simp) (by simp) (List.append_cancel_left h)
    obtain ⟨-, hquoted⟩ := Text.digits_append_inj (fun _ => isDigit_of_mem_toString)
      (fun _ => isDigit_of_mem_toString) (by simp) (by simp) (List.append_cancel_left hbehind)
    exact Text.quoted_injective (List.append_cancel_left hquoted)

theorem recordLine_injective : Function.Injective recordLine := fun _ _ h =>
  recordBody_injective (List.append_cancel_right h)

theorem Refusal.unknownPolicy_message_injective :
    Function.Injective fun t => (unknownPolicy t).message := fun _ _ h =>
  Text.quoted_injective (List.append_cancel_left h)

theorem Refusal.sizeNotNumeral_message_injective :
    Function.Injective fun t => (sizeNotNumeral t).message := fun _ _ h =>
  Text.quoted_injective (List.append_cancel_left (List.append_cancel_right h))

theorem Cause.invalidCharacter_message_injective (complaint : Text) :
    Function.Injective fun c => (invalidCharacter complaint c).message := by
  intro c d h
  have hsingle : [c] = [d] := Text.quoted_injective (List.append_cancel_left h)
  exact List.head_eq_of_cons_eq hsingle

theorem quoted_text_reads_back (t : Text) :
    (∀ r, Text.readLiteral? (Text.quoted t ++ r) = some (t, r)) ∧
      (∀ c ∈ Text.quoted t, Text.isPrintable c = true ∧ c ∉ Text.lineBreaks) ∧
      (∃ body, Text.quoted t =
        if '\'' ∈ t ∧ '"' ∉ t then '"' :: body ++ ['"'] else '\'' :: body ++ ['\'']) ∧
      (∀ u, t ≠ u → ∀ r s, Text.quoted t ++ r ≠ Text.quoted u ++ s) ∧
      (∀ u, t ≠ u → recordLine t ≠ recordLine u ∧
        (Refusal.unknownPolicy t).message ≠ (Refusal.unknownPolicy u).message ∧
        (Refusal.sizeNotNumeral t).message ≠ (Refusal.sizeNotNumeral u).message) ∧
      ∀ c d, c ≠ d →
        (Cause.invalidCharacter t c).message ≠ (Cause.invalidCharacter t d).message := by
  refine ⟨Text.readLiteral?_quoted t, ?_, ?_, ?_, ?_, ?_⟩
  · intro c hc
    have hprintable := Text.printable_quoted t c hc
    exact ⟨hprintable, Text.not_mem_lineBreaks hprintable⟩
  · refine ⟨t.flatMap (Text.escape (Text.quoteMark t)), ?_⟩
    rw [Text.quoted, Text.quoteMark]
    split <;> rfl
  · intro u hne r s h
    exact hne (Text.quoted_append_inj h).1
  · intro u hne
    exact ⟨recordLine_injective.ne hne, Refusal.unknownPolicy_message_injective.ne hne,
      Refusal.sizeNotNumeral_message_injective.ne hne⟩
  · intro c d hne
    exact (Cause.invalidCharacter_message_injective t).ne hne

theorem apostrophe_and_newline_read_back :
    let t := "it's\n".toList
    let u := "its\n".toList
    Text.quoted t = "\"it's\\n\"".toList ∧
      Text.readLiteral? (Text.quoted t ++ " = 3".toList) = some (t, " = 3".toList) ∧
      t ≠ u ∧ recordLine t ≠ recordLine u := by
  intro t u
  have hne : t ≠ u := by decide
  obtain ⟨hread, -, -, -, hrecord, -⟩ := quoted_text_reads_back t
  exact ⟨by decide +kernel, hread _, hne, (hrecord u hne).1⟩

end LineCalculator
