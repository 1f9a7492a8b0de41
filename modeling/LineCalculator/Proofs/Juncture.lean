import LineCalculator.Proofs.Insertion

namespace LineCalculator

def Lexed.followedBy (l m : Lexed) : Lexed :=
  match l.ending with
  | .endOfLine => { m with lexemes := l.lexemes ++ m.lexemes }
  | .invalid _ => l

variable {t v : Text} {c : Char} {s : Symbol} {offset : Nat}

theorem Numeral.stopsAt_paren (h : c = '(' ∨ c = ')') (t : Text) (pointed : Bool) :
    StopsAt pointed (c :: t) := by
  rw [stopsAt_cons]
  rcases h with rfl | rfl
  · exact ⟨by decide, fun h => by cases h⟩
  · exact ⟨by decide, fun h => by cases h⟩

namespace Found

theorem gap_lt_of_symbol (h : (ofText t).token = .symbol s) : (ofText t).gap < t.length := by
  have hpos := width_pos h
  have hle := gap_add_width_le t
  omega

theorem gap_lt_of_invalid (h : (ofText t).token = .ending (.invalid c)) :
    (ofText t).gap < t.length := by
  obtain ⟨hc, -⟩ := standsAt_of_ending h
  exact (List.getElem?_eq_some_iff.1 hc).1

theorem ofText_append_of_stops (hgap : (ofText t).gap < t.length)
    (hv : ∀ pointed, Numeral.StopsAt pointed v) : ofText (t ++ v) = ofText t := by
  have hfound := ofText_take_append hgap (gap_add_width_le t) (Nat.le_refl _) hv
  rwa [List.take_length] at hfound

theorem ofText_paren (h : c = '(' ∨ c = ')') (hs : Symbol.ofChar? c = some s) (t : Text) :
    ofText (c :: t) = ⟨0, .symbol s, 1⟩ := by
  rcases h with rfl | rfl
  · cases hs
    exact ofText_cons (by decide) t
  · cases hs
    exact ofText_cons (by decide) t

end Found

namespace Lexed

theorem ofText_paren (h : c = '(' ∨ c = ')') (hs : Symbol.ofChar? c = some s) (offset : Nat)
    (t : Text) :
    ofText offset (c :: t) =
      let l := ofText (offset + 1) t
      { l with lexemes := ⟨s, offset, offset + 1⟩ :: l.lexemes } := by
  have hfound := Found.ofText_paren h hs t
  rw [ofText_of_symbol (s := s) (by rw [hfound]), hfound]
  rfl

theorem followedBy_cons (x : Lexeme) (l m : Lexed) :
    followedBy { l with lexemes := x :: l.lexemes } m =
      { l.followedBy m with lexemes := x :: (l.followedBy m).lexemes } := by
  cases h : l.ending with
  | endOfLine => simp only [followedBy, h, List.cons_append]
  | invalid c => simp only [followedBy, h]

theorem ofText_append_of_stops (hv : ∀ pointed, Numeral.StopsAt pointed v) (offset : Nat)
    (t : Text) :
    ofText offset (t ++ v) = (ofText offset t).followedBy (ofText (offset + t.length) v) := by
  cases htoken : (Found.ofText t).token with
  | ending e =>
      cases e with
      | endOfLine =>
          have hgap := Found.gap_of_endOfLine htoken
          obtain ⟨gap, u, rfl, hlength, -⟩ := t.exists_blanks_append
          rw [hlength, List.length_append] at hgap
          have hu : u = [] := List.eq_nil_of_length_eq_zero (by omega)
          subst hu
          rw [ofText_of_ending htoken, List.append_nil, ofText_blanks_append]
          rfl
      | invalid c =>
          have hfound := Found.ofText_append_of_stops (Found.gap_lt_of_invalid htoken) hv
          rw [ofText_of_ending (e := .invalid c) (by rw [hfound, htoken]), ofText_of_ending htoken,
            hfound]
          rfl
  | symbol s =>
      have hpos := Found.width_pos htoken
      have hle := Found.gap_add_width_le t
      have hfound := Found.ofText_append_of_stops (Found.gap_lt_of_symbol htoken) hv
      have hrest := ofText_append_of_stops hv
        (offset + (Found.ofText t).gap + (Found.ofText t).width)
        (t.drop ((Found.ofText t).gap + (Found.ofText t).width))
      have hplace : offset + (Found.ofText t).gap + (Found.ofText t).width +
          (t.length - ((Found.ofText t).gap + (Found.ofText t).width)) = offset + t.length := by
        omega
      rw [List.length_drop, hplace] at hrest
      rw [ofText_of_symbol (s := s) (by rw [hfound, htoken]), ofText_of_symbol htoken, hfound]
      simp only [List.drop_append_of_le_length hle, hrest]
      exact (followedBy_cons _ _ _).symm
termination_by t.length
decreasing_by
  rw [List.length_drop]
  omega

theorem symbols_ofText (offset : Nat) (t : Text) :
    (ofText offset t).lexemes.map Lexeme.symbol = (ofLine t).lexemes.map Lexeme.symbol := by
  have hmoved := ofText_add (k := offset) (Nat.zero_le 0) t
  rw [Nat.zero_add] at hmoved
  rw [hmoved, Relocation.lexed, List.map_map]
  exact List.map_congr_left fun x _ => (Relocation.behind 0 offset).symbol_lexeme x

theorem ending_ofText (offset : Nat) (t : Text) :
    (ofText offset t).ending = (ofLine t).ending := by
  have hmoved := ofText_add (k := offset) (Nat.zero_le 0) t
  rw [Nat.zero_add] at hmoved
  rw [hmoved, Relocation.lexed]
  rfl

end Lexed

end LineCalculator
