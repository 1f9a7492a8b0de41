import LineCalculator.Proofs.NumeralFront
import LineCalculator.Proofs.Walk
import Mathlib.Order.Bounds.Basic

namespace LineCalculator

def cursorOffset (length : Nat) (cursor : Int) : Int :=
  if cursor < 0 then max (cursor + length) 0 else if cursor ≤ length then cursor else length

namespace Numeral

def pushDigit (v : Float) (c : Char) : Float :=
  v * 10 + Float.ofNat (c.toNat - 48)

def foldDigits (x : Text) : Float :=
  x.foldl pushDigit 0

def foldTens (x : Text) : Float :=
  x.foldl (fun d _ => d * 10) 1

inductive FoldsTo : Text → Float → Prop
  | whole {x : Text} : '.' ∉ x → FoldsTo x (foldDigits x)
  | pointed {x y : Text} : '.' ∉ x → '.' ∉ y →
      FoldsTo (x ++ '.' :: y) (foldDigits (x ++ y) / foldTens y)

variable {x y : Text} {v : Float}

theorem foldl_push_of_not_mem (h : '.' ∉ x) (p : Partial Float) :
    x.foldl (Partial.push Float.ofNat) p =
      ⟨x.foldl pushDigit p.value, p.divisor.map fun d => x.foldl (fun d _ => d * 10) d⟩ := by
  induction x generalizing p with
  | nil => simp
  | cons c x ih =>
      rw [List.mem_cons, not_or] at h
      rw [List.foldl_cons, ih h.2, Partial.push, if_neg (Ne.symm h.1), Option.map_map]
      rfl

theorem value_of_not_mem (h : '.' ∉ x) : value x = foldDigits x := by
  rw [value, fold, foldl_push_of_not_mem h]
  rfl

theorem value_of_pointed (hx : '.' ∉ x) (hy : '.' ∉ y) :
    value (x ++ '.' :: y) = foldDigits (x ++ y) / foldTens y := by
  rw [value, fold, List.foldl_append, foldl_push_of_not_mem hx, List.foldl_cons,
    foldl_push_of_not_mem hy, foldDigits, List.foldl_append]
  rfl

theorem FoldsTo.eq_value (h : FoldsTo x v) : v = value x := by
  cases h with
  | whole hx => exact (value_of_not_mem hx).symm
  | pointed hx hy => exact (value_of_pointed hx hy).symm

theorem IsNumeral.foldsTo (hx : IsNumeral x) : FoldsTo x (value x) := by
  by_cases hpoint : '.' ∈ x
  · obtain ⟨i, f, rfl, hi⟩ := List.eq_append_cons_of_mem hpoint
    have hpoints := hx.points_le
    rw [List.count_append, List.count_cons_self] at hpoints
    have hf : '.' ∉ f := List.count_eq_zero.1 (by omega)
    rw [value_of_pointed hi hf]
    exact .pointed hi hf
  · rw [value_of_not_mem hpoint]
    exact .whole hpoint

end Numeral

inductive TokenAt (t : Text) (start : Nat) : Token → Nat → Prop
  | endOfLine : start = t.length → TokenAt t start (.ending .endOfLine) start
  | number {c : Char} {stop : Nat} {v : Float} : t[start]? = some c →
      (c.isDigit = true ∨ c = '.') →
      IsGreatest {i | i ≤ t.length ∧ Numeral.IsNumeral (t.extract start i)} stop →
      Numeral.FoldsTo (t.extract start stop) v →
      TokenAt t start (.symbol (.number v)) stop
  | operator {c : Char} {token : Token} : t[start]? = some c →
      c ∈ ['+', '-', '*', '/', '(', ')'] → token.kind.name = [c] →
      TokenAt t start token (start + 1)
  | invalid {c : Char} : t[start]? = some c → c.isDigit = false → c ≠ '.' →
      c ∉ ['+', '-', '*', '/', '(', ')'] → TokenAt t start (.ending (.invalid c)) start

structure Scanned.FoundAt (t : Text) (cursor : Int) (s : Scanned) : Prop where
  start_least : IsLeast {i : Nat | cursorOffset t.length cursor ≤ i ∧
    (i = t.length ∨ ∃ c, t[i]? = some c ∧ Text.isBlank c = false)} s.start
  token_at : TokenAt t s.start s.token s.stop

section Token

variable {t : Text} {start stop : Nat} {c : Char} {token : Token}

theorem Numeral.extract_front (t : Text) (start : Nat) :
    t.extract start (start + (front false (t.drop start)).length) = front false (t.drop start) := by
  have hprefix : front false (t.drop start) <+: t.drop start := ⟨_, front_append_drop false _⟩
  rw [List.extract_eq_take_drop, Nat.add_sub_cancel_left]
  exact (List.prefix_iff_eq_take.1 hprefix).symm

theorem exists_drop_eq_cons (h : t[start]? = some c) : ∃ u, t.drop start = c :: u := by
  obtain ⟨hstart, rfl⟩ := List.getElem?_eq_some_iff.1 h
  exact ⟨_, List.drop_eq_getElem_cons hstart⟩

theorem Numeral.isGreatest_stop (hc : t[start]? = some c) (hbegins : begins c = true) :
    IsGreatest {i | i ≤ t.length ∧ IsNumeral (t.extract start i)}
      (start + (front false (t.drop start)).length) := by
  obtain ⟨hstart, -⟩ := List.getElem?_eq_some_iff.1 hc
  have hle := length_front_le false (t.drop start)
  rw [List.length_drop] at hle
  constructor
  · obtain ⟨u, hu⟩ := exists_drop_eq_cons hc
    refine ⟨by omega, ?_⟩
    rw [extract_front, hu]
    exact isNumeral_front hbegins u
  · rintro i ⟨hi, hnumeral⟩
    have hlength : (t.extract start i).length = i - start := by
      rw [List.extract_eq_take_drop, List.length_take, List.length_drop]
      omega
    have hrest : t.extract start i ++ (t.drop start).drop (i - start) = t.drop start := by
      rw [List.extract_eq_take_drop, List.take_append_drop]
    have hfront := @length_le_front false _ hnumeral.digit_or_point hnumeral.points_le
      ((t.drop start).drop (i - start))
    rw [hrest, hlength] at hfront
    omega

theorem Symbol.kind_name_of_ofChar? {x : Symbol} (h : ofChar? c = some x) :
    c ∈ ['+', '-', '*', '/', '(', ')'] ∧ (Token.symbol x).kind.name = [c] := by
  have hc : c ∈ ['+', '-', '*', '/', '(', ')'] := by
    by_contra hnot
    simp only [List.mem_cons, List.not_mem_nil, or_false, not_or] at hnot
    simp [ofChar?, hnot] at h
  refine ⟨hc, ?_⟩
  simp only [List.mem_cons, List.not_mem_nil, or_false] at hc
  rcases hc with rfl | rfl | rfl | rfl | rfl | rfl <;> cases h <;> rfl

theorem Kind.ne_of_length_name {k : Kind} (h : k.name.length = 1) :
    k ≠ .number ∧ k ≠ .endOfLine ∧ k ≠ .invalid := by
  revert h
  cases k <;> decide

theorem Token.eq_symbol_of_kind_name (hc : c ∈ ['+', '-', '*', '/', '(', ')'])
    (h : token.kind.name = [c]) : ∃ x, Symbol.ofChar? c = some x ∧ token = .symbol x := by
  obtain ⟨hnumber, hend, hinvalid⟩ := Kind.ne_of_length_name (congrArg List.length h)
  simp only [List.mem_cons, List.not_mem_nil, or_false] at hc
  cases token with
  | ending e =>
      cases e with
      | endOfLine => exact absurd rfl hend
      | invalid => exact absurd rfl hinvalid
  | symbol x =>
      refine ⟨x, ?_, rfl⟩
      cases x with
      | number => exact absurd rfl hnumber
      | additive op => cases op <;> cases h <;> rfl
      | multiplicative op => cases op <;> cases h <;> rfl
      | lparen => cases h; rfl
      | rparen => cases h; rfl

theorem tokenAt_front (h : start ≤ t.length) :
    TokenAt t start (Token.front (t.drop start)).1 (start + (Token.front (t.drop start)).2) := by
  cases hc : t[start]? with
  | none =>
      have hend : t.length ≤ start := List.getElem?_eq_none_iff.1 hc
      rw [List.drop_eq_nil_iff.2 hend]
      exact .endOfLine (Nat.le_antisymm h hend)
  | some c =>
      obtain ⟨u, hu⟩ := exists_drop_eq_cons hc
      by_cases hbegins : Numeral.begins c = true
      · have hgreatest := Numeral.isGreatest_stop hc hbegins
        have htoken := TokenAt.number hc (by simpa [Numeral.begins] using hbegins) hgreatest
          hgreatest.1.2.foldsTo
        rw [Numeral.extract_front] at htoken
        rw [hu] at htoken ⊢
        simpa only [Token.front, if_pos hbegins] using htoken
      · rw [hu]
        simp only [Token.front, if_neg hbegins]
        cases hsymbol : Symbol.ofChar? c with
        | none =>
            simp only [Numeral.begins, Bool.or_eq_true, decide_eq_true_eq, not_or,
              Bool.not_eq_true] at hbegins
            exact .invalid hc hbegins.1 hbegins.2 (Symbol.not_mem_of_ofChar? hsymbol)
        | some x =>
            obtain ⟨hmem, hname⟩ := Symbol.kind_name_of_ofChar? hsymbol
            exact .operator hc hmem hname

theorem TokenAt.eq_front (h : TokenAt t start token stop) :
    Token.front (t.drop start) = (token, stop - start) ∧ start ≤ stop := by
  cases h with
  | endOfLine hend => simp [hend, Token.front]
  | @number c _ _ hc hbegins hgreatest hfold =>
      have hbegins : Numeral.begins c = true := by simpa [Numeral.begins] using hbegins
      obtain rfl := hgreatest.unique (Numeral.isGreatest_stop hc hbegins)
      obtain ⟨u, hu⟩ := exists_drop_eq_cons hc
      refine ⟨?_, Nat.le_add_right ..⟩
      rw [hfold.eq_value, Numeral.extract_front, Nat.add_sub_cancel_left, hu]
      simp only [Token.front, if_pos hbegins]
  | @operator c _ hc hmem hname =>
      obtain ⟨x, hx, rfl⟩ := Token.eq_symbol_of_kind_name hmem hname
      obtain ⟨u, hu⟩ := exists_drop_eq_cons hc
      have hbegins : Numeral.begins c = false := by
        simp only [List.mem_cons, List.not_mem_nil, or_false] at hmem
        rcases hmem with rfl | rfl | rfl | rfl | rfl | rfl <;> rfl
      rw [hu]
      simp [Token.front, hbegins, hx]
  | @invalid c hc hdigit hpoint hmem =>
      obtain ⟨u, hu⟩ := exists_drop_eq_cons hc
      have hsymbol : Symbol.ofChar? c = none := by
        simp only [List.mem_cons, List.not_mem_nil, or_false, not_or] at hmem
        simp [Symbol.ofChar?, hmem]
      rw [hu]
      simp [Token.front, Numeral.begins, hdigit, hpoint, hsymbol]

theorem tokenAt_iff (h : start ≤ t.length) :
    TokenAt t start token stop ↔
      (Token.front (t.drop start)).1 = token ∧ start + (Token.front (t.drop start)).2 = stop := by
  constructor
  · intro htoken
    obtain ⟨hfront, hle⟩ := htoken.eq_front
    rw [hfront]
    exact ⟨rfl, Nat.add_sub_cancel' hle⟩
  · rintro ⟨rfl, rfl⟩
    exact tokenAt_front h

end Token

theorem cursorOffset_eq (length : Nat) (cursor : Int) :
    cursorOffset length cursor = clampCursor length cursor := by
  simp only [cursorOffset, clampCursor]
  omega

theorem isLeast_skipBlanks (t : Text) (cursor : Int) :
    IsLeast {i : Nat | cursorOffset t.length cursor ≤ i ∧
      (i = t.length ∨ ∃ c, t[i]? = some c ∧ Text.isBlank c = false)} (skipBlanks t cursor) := by
  have hfound := scan_foundFrom t cursor
  have hstart : (scan t cursor).start = skipBlanks t cursor := rfl
  rw [cursorOffset_eq]
  constructor
  · refine ⟨by exact_mod_cast hfound.offset_le, ?_⟩
    cases hc : t[skipBlanks t cursor]? with
    | none =>
        have hend := List.getElem?_eq_none_iff.1 hc
        exact Or.inl (Nat.le_antisymm (Nat.le_trans hfound.start_le hfound.stop_le) hend)
    | some c =>
        rw [← List.head?_drop, skipBlanks, ← List.drop_drop, drop_blankCount] at hc
        exact Or.inr ⟨c, rfl, Text.isBlank_head_trimStart hc⟩
  · rintro i ⟨hi, hstands⟩
    by_contra hlt
    obtain ⟨c, hc, hblank⟩ := hfound.blank i (by exact_mod_cast hi) (Nat.lt_of_not_le hlt)
    rcases hstands with rfl | ⟨d, hd, hnot⟩
    · exact absurd (List.getElem?_eq_some_iff.1 hc).1 (Nat.lt_irrefl _)
    · rw [hc] at hd
      cases hd
      rw [hblank] at hnot
      cases hnot

theorem tokenAt_skipBlanks_iff {t : Text} {cursor : Int} {token : Token} {stop : Nat} :
    TokenAt t (skipBlanks t cursor) token stop ↔
      (scan t cursor).token = token ∧ (scan t cursor).stop = stop := by
  have hfound := scan_foundFrom t cursor
  have hle : skipBlanks t cursor ≤ t.length := Nat.le_trans hfound.start_le hfound.stop_le
  rw [tokenAt_iff hle, scan_eq_front]

theorem scan_eq_iff_foundAt (t : Text) (cursor : Int) :
    (∀ s, scan t cursor = s ↔ s.FoundAt t cursor) ∧
      skipBlanks t cursor = (scan t cursor).start ∧
      nextToken t cursor = ((scan t cursor).token, (scan t cursor).stop) := by
  have hleast := isLeast_skipBlanks t cursor
  refine ⟨fun s => ⟨?_, ?_⟩, rfl, rfl⟩
  · rintro rfl
    exact ⟨hleast, tokenAt_skipBlanks_iff.2 ⟨rfl, rfl⟩⟩
  · rintro ⟨hstart, htoken⟩
    obtain ⟨token, start, stop⟩ := s
    obtain rfl : skipBlanks t cursor = start := hleast.unique hstart
    obtain ⟨rfl, rfl⟩ := tokenAt_skipBlanks_iff.1 htoken
    rfl

theorem scans_of_numbers_and_blanks :
    let t := "\u3000 12.50.7*\u2029٣\x1c".toList
    let scans : List (Int × Scanned) := [
      (0, ⟨.symbol (.number 12.5), 2, 7⟩), (7, ⟨.symbol (.number 0.7), 7, 9⟩),
      (-4, ⟨.symbol (.multiplicative .times), 9, 10⟩), (10, ⟨.ending (.invalid '٣'), 11, 11⟩),
      (-1, ⟨.ending (.invalid '\x1c'), 12, 12⟩), (20, ⟨.ending .endOfLine, 13, 13⟩)]
    (∀ x ∈ scans, scan t x.1 = x.2 ∧ x.2.FoundAt t x.1) ∧
      skipBlanks t (-20) = 2 ∧ nextToken t (-20) = (.symbol (.number 12.5), 7) := by
  intro t scans
  have hscans : ∀ x ∈ scans, scan t x.1 = x.2 := by decide +kernel
  have hclamped : scan t (-20) = ⟨.symbol (.number 12.5), 2, 7⟩ := by decide +kernel
  obtain ⟨-, hskip, hnext⟩ := scan_eq_iff_foundAt t (-20)
  rw [hclamped] at hskip hnext
  refine ⟨fun x hx => ?_, hskip, hnext⟩
  have hscan := hscans x hx
  exact ⟨hscan, ((scan_eq_iff_foundAt t x.1).1 x.2).1 hscan⟩

end LineCalculator
