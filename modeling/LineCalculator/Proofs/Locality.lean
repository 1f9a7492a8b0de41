import LineCalculator.Proofs.Insertion

namespace LineCalculator

variable {pointed : Bool} {x y : Text} {offset : Nat}

theorem Numeral.front_append_of_length_lt (h : (front pointed (x ++ y)).length < x.length)
    (z : Text) : front pointed (x ++ z) = front pointed (x ++ y) := by
  induction x generalizing pointed with
  | nil => cases h
  | cons c x ih =>
      simp only [List.cons_append, front] at h ⊢
      split
      · rename_i hdigit
        rw [if_pos hdigit, List.length_cons, List.length_cons] at h
        rw [ih (Nat.lt_of_succ_lt_succ h)]
      · rename_i hdigit
        rw [if_neg hdigit] at h
        split
        · rename_i hpoint
          rw [if_pos hpoint, List.length_cons, List.length_cons] at h
          rw [ih (Nat.lt_of_succ_lt_succ h)]
        · rfl

theorem Token.front_append_of_lt (h : (front (x ++ y)).2 < x.length) (z : Text) :
    front (x ++ z) = front (x ++ y) := by
  cases x with
  | nil => cases h
  | cons c x =>
      simp only [List.cons_append, front] at h ⊢
      split
      · rename_i hbegins
        rw [if_pos hbegins] at h
        have hlexeme := Numeral.front_append_of_length_lt (x := c :: x) h z
        rw [List.cons_append, List.cons_append] at hlexeme
        rw [hlexeme]
      · rfl

theorem Found.ofText_append_of_lt
    (h : (ofText (x ++ y)).gap + (ofText (x ++ y)).width < x.length) (z : Text) :
    ofText (x ++ z) = ofText (x ++ y) := by
  obtain ⟨gap, u, rfl, -, hu⟩ := x.exists_blanks_append
  simp only [List.append_assoc, ofText_blanks_append, List.length_append] at h ⊢
  cases u with
  | nil =>
      rw [List.length_nil] at h
      omega
  | cons c u =>
      have hc := hu c rfl
      simp only [List.cons_append, ofText_cons hc] at h ⊢
      have hfront := Token.front_append_of_lt (x := c :: u) (y := y) (by
        rw [List.cons_append]
        omega) z
      rw [List.cons_append, List.cons_append] at hfront
      rw [hfront]

theorem scan_zero (t : Text) :
    scan t 0 = ⟨(Found.ofText t).token, (Found.ofText t).gap,
      (Found.ofText t).gap + (Found.ofText t).width⟩ := by
  have hscan := scan_of_le (Nat.zero_le t.length)
  rwa [Int.natCast_zero, List.drop_zero, Nat.zero_add] at hscan

theorem scan_behind (u t : Text) :
    scan (u ++ t) u.length =
      ⟨(scan t 0).token, u.length + (scan t 0).start, u.length + (scan t 0).stop⟩ := by
  have hle : u.length ≤ (u ++ t).length := by
    rw [List.length_append]
    exact Nat.le_add_right ..
  rw [scan_of_le hle, List.drop_left, scan_zero, Nat.add_assoc]

theorem scan_of_same_front {t v : Text} (hstop : (scan t 0).stop < t.length)
    (hfront : v.take ((scan t 0).stop + 1) = t.take ((scan t 0).stop + 1)) :
    scan v 0 = scan t 0 := by
  obtain ⟨x, hx⟩ : ∃ x, x = t.take ((scan t 0).stop + 1) := ⟨_, rfl⟩
  have hlength : x.length = (scan t 0).stop + 1 := by
    rw [hx, List.length_take]
    omega
  have ht := List.take_append_drop ((scan t 0).stop + 1) t
  have hv := List.take_append_drop ((scan t 0).stop + 1) v
  rw [hfront, ← hx] at hv
  rw [← hx] at ht
  have hlt : (Found.ofText (x ++ t.drop ((scan t 0).stop + 1))).gap +
      (Found.ofText (x ++ t.drop ((scan t 0).stop + 1))).width < x.length := by
    rw [ht, hlength, scan_zero]
    exact Nat.lt_succ_self _
  have hfound := Found.ofText_append_of_lt hlt (v.drop ((scan t 0).stop + 1))
  rw [ht, hv] at hfound
  rw [scan_zero, scan_zero, hfound]

theorem scan_local (u t : Text) :
    scan (u ++ t) u.length =
        ⟨(scan t 0).token, u.length + (scan t 0).start, u.length + (scan t 0).stop⟩ ∧
      ((scan t 0).stop < t.length →
        ∀ v : Text, v.take ((scan t 0).stop + 1) = t.take ((scan t 0).stop + 1) →
          scan v 0 = scan t 0) :=
  ⟨scan_behind u t, fun hstop _ hfront => scan_of_same_front hstop hfront⟩

theorem scan_between_digit_and_point :
    (scan "1.2.".toList 0).stop < "1.2.".toList.length ∧
      "1.2.34".toList.take ((scan "1.2.".toList 0).stop + 1) =
        "1.2.".toList.take ((scan "1.2.".toList 0).stop + 1) ∧
      scan "1.2.34".toList 0 = ⟨.symbol (.number (12 / 10)), 0, 3⟩ ∧
      scan "91.2.".toList 1 = ⟨.symbol (.number (12 / 10)), 1, 4⟩ := by
  have hscan : scan "1.2.".toList 0 = ⟨.symbol (.number (12 / 10)), 0, 3⟩ := by
    decide +kernel
  have hlocal := scan_local ['9'] "1.2.".toList
  rw [hscan] at hlocal ⊢
  exact ⟨by decide, by decide, hlocal.2 (by decide) "1.2.34".toList (by decide), hlocal.1⟩

namespace Lexed

theorem offset_lt_stop_ofText (offset : Nat) (t : Text) :
    ∀ a ∈ (ofText offset t).lexemes, offset < a.stop := by
  induction offset, t using ofText_induction with
  | ending offset t e h =>
      intro a ha
      cases ha
  | symbol offset t s l h ih =>
      have hpos := Found.width_pos h
      intro a ha
      rcases List.mem_cons.1 ha with rfl | ha
      · simp only
        omega
      · have := ih a ha
        omega

theorem offset_le_offset_ofText (offset : Nat) (t : Text) : offset ≤ (ofText offset t).offset := by
  induction offset, t using ofText_induction with
  | ending offset t e h => exact Nat.le_add_right ..
  | symbol offset t s l h ih =>
      simp only
      omega

theorem ofText_append_of_symbol {s : Symbol} (h : (Found.ofText (x ++ y)).token = .symbol s)
    (hlt : (Found.ofText (x ++ y)).gap + (Found.ofText (x ++ y)).width < x.length) (z : Text) :
    ofText offset (x ++ z) =
      let found := Found.ofText (x ++ y)
      let stop := offset + found.gap + found.width
      let rest := ofText stop (x.drop (found.gap + found.width) ++ z)
      { rest with lexemes := ⟨s, offset + found.gap, stop⟩ :: rest.lexemes } := by
  have hfound := Found.ofText_append_of_lt hlt z
  rw [ofText_of_symbol (s := s) (by rw [hfound, h]), hfound]
  simp only [List.drop_append_of_le_length (Nat.le_of_lt hlt)]

theorem ofText_append_of_offset_lt {offset : Nat} {x y : Text}
    (h : (ofText offset (x ++ y)).offset < offset + x.length) (z : Text) :
    ofText offset (x ++ z) = ofText offset (x ++ y) := by
  cases htoken : (Found.ofText (x ++ y)).token with
  | ending e =>
      have hplace : (ofText offset (x ++ y)).offset = offset + (Found.ofText (x ++ y)).gap := by
        rw [ofText_of_ending htoken]
      have hfound : Found.ofText (x ++ z) = Found.ofText (x ++ y) := by
        apply Found.ofText_append_of_lt
        rw [Found.width_of_ending htoken]
        omega
      rw [ofText_of_ending htoken, ofText_of_ending (e := e) (by rw [hfound, htoken]), hfound]
  | symbol s =>
      have hpos := Found.width_pos htoken
      have hlt : (Found.ofText (x ++ y)).gap + (Found.ofText (x ++ y)).width < x.length := by
        have hle := offset_le_offset_ofText
          (offset + (Found.ofText (x ++ y)).gap + (Found.ofText (x ++ y)).width)
          ((x ++ y).drop ((Found.ofText (x ++ y)).gap + (Found.ofText (x ++ y)).width))
        rw [ofText_of_symbol htoken] at h
        simp only at h
        omega
      rw [ofText_append_of_symbol htoken hlt] at h
      -- What is left behind the first token has the same ending, in the same place.
      have hrest := ofText_append_of_offset_lt (Nat.lt_of_lt_of_le h (by
        rw [List.length_drop]
        omega)) z
      rw [ofText_append_of_symbol htoken hlt, ofText_append_of_symbol htoken hlt]
      simp only [hrest]
termination_by x.length
decreasing_by
  rw [List.length_drop]
  omega

theorem exists_lexemes_append_of_stop_lt {front back : List Lexeme} {a : Lexeme}
    (h : (ofText offset (x ++ y)).lexemes = front ++ a :: back) (ha : a.stop < offset + x.length)
    (z : Text) : ∃ back', (ofText offset (x ++ z)).lexemes = front ++ a :: back' := by
  induction front generalizing offset x with
  | nil =>
      cases htoken : (Found.ofText (x ++ y)).token with
      | ending e =>
          rw [ofText_of_ending htoken] at h
          cases h
      | symbol s =>
          rw [ofText_of_symbol htoken] at h
          obtain ⟨rfl, -⟩ := List.cons.inj h
          simp only at ha
          rw [ofText_append_of_symbol htoken (by omega)]
          exact ⟨_, rfl⟩
  | cons b front ih =>
      cases htoken : (Found.ofText (x ++ y)).token with
      | ending e =>
          rw [ofText_of_ending htoken] at h
          cases h
      | symbol s =>
          have hlt : (Found.ofText (x ++ y)).gap + (Found.ofText (x ++ y)).width < x.length := by
            rw [ofText_of_symbol htoken] at h
            have hstop := offset_lt_stop_ofText _ _ a (by rw [(List.cons.inj h).2]; simp)
            omega
          rw [ofText_append_of_symbol htoken hlt] at h
          obtain ⟨rfl, hrest⟩ := List.cons.inj h
          obtain ⟨back', hback⟩ := ih hrest (by
            rw [List.length_drop]
            omega)
          rw [ofText_append_of_symbol htoken hlt]
          exact ⟨back', congrArg _ hback⟩

end Lexed

end LineCalculator
