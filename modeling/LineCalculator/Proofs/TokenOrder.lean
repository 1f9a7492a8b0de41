import LineCalculator.Proofs.Counter

namespace LineCalculator

theorem Token.front_endOfLine {t : Text} (h : (Token.front t).1 = .ending .endOfLine) : t = [] := by
  cases t with
  | nil => rfl
  | cons c t =>
      simp only [front] at h
      split at h
      · cases h
      · split at h <;> cases h

theorem Found.gap_of_endOfLine {t : Text} (h : (Found.ofText t).token = .ending .endOfLine) :
    (Found.ofText t).gap = t.length := by
  have hb := blankCount_add_length_trimStart t
  rw [Token.front_endOfLine h] at hb
  simpa [Found.ofText] using hb

theorem Found.width_pos {t : Text} {s : Symbol} (h : (Found.ofText t).token = .symbol s) :
    0 < (Found.ofText t).width :=
  Token.front_snd_pos h

namespace Lexed

theorem scanned_cons (x : Lexeme) (l : Lexed) :
    scanned { l with lexemes := x :: l.lexemes } = x.scanned :: l.scanned := by
  simp [scanned]

theorem ofText_induction {motive : Nat → Text → Lexed → Prop}
    (ending : ∀ offset t e, (Found.ofText t).token = .ending e →
      motive offset t ⟨[], e, offset + (Found.ofText t).gap⟩)
    (symbol : ∀ offset t s l, (Found.ofText t).token = .symbol s →
      motive (offset + (Found.ofText t).gap + (Found.ofText t).width)
        (t.drop ((Found.ofText t).gap + (Found.ofText t).width)) l →
      motive offset t { l with lexemes :=
        ⟨s, offset + (Found.ofText t).gap,
          offset + (Found.ofText t).gap + (Found.ofText t).width⟩ :: l.lexemes })
    (offset : Nat) (t : Text) : motive offset t (ofText offset t) := by
  cases h : (Found.ofText t).token with
  | ending e =>
      rw [ofText_of_ending h]
      exact ending offset t e h
  | symbol s =>
      have hpos := Found.width_pos h
      have hle := Found.gap_add_width_le t
      rw [ofText_of_symbol h]
      exact symbol offset t s _ h (ofText_induction ending symbol _ _)
termination_by t.length
decreasing_by
  rw [List.length_drop]
  omega

-- Only together do the two facts pass from a text to what stands in front of it.
theorem start_scanned_ofText (offset : Nat) (t : Text) :
    (∀ a ∈ (ofText offset t).scanned, offset ≤ a.start) ∧
      (ofText offset t).scanned.Pairwise fun a b => a.start < b.start := by
  induction offset, t using ofText_induction with
  | ending offset t e h => simp [scanned]
  | symbol offset t s l h ih =>
      obtain ⟨hstart, hpairwise⟩ := ih
      have hpos := Found.width_pos h
      rw [scanned_cons, List.pairwise_cons]
      refine ⟨?_, ?_, hpairwise⟩
      · intro a ha
        rcases List.mem_cons.1 ha with rfl | ha
        · simp [Lexeme.scanned]
        · have := hstart a ha
          omega
      · intro b hb
        have := hstart b hb
        simp only [Lexeme.scanned]
        omega

theorem offset_ofText (offset : Nat) (t : Text) (h : (ofText offset t).ending = .endOfLine) :
    (ofText offset t).offset = offset + t.length := by
  induction offset, t using ofText_induction with
  | ending offset t e ht =>
      cases h
      rw [Found.gap_of_endOfLine ht]
  | symbol offset t s l ht ih =>
      have hle := Found.gap_add_width_le t
      have hl := ih h
      rw [List.length_drop] at hl
      simp only
      omega

theorem start_lookahead_of_append {l : Lexed} {front rest : List Lexeme}
    (h : l.scanned.Pairwise fun a b => a.start < b.start) (hl : l.lexemes = front ++ rest) :
    (∀ x ∈ front, x.start < (l.lookahead rest).start) ∧
      ∀ x ∈ rest, ¬x.start < (l.lookahead rest).start := by
  rw [scanned, hl, List.map_append, List.append_assoc, List.pairwise_append] at h
  obtain ⟨-, hrest, hfront⟩ := h
  cases rest with
  | nil =>
      constructor
      · intro x hx
        exact hfront x.scanned (List.mem_map_of_mem hx) _ List.mem_cons_self
      · intro x hx
        cases hx
  | cons y ys =>
      constructor
      · intro x hx
        exact hfront x.scanned (List.mem_map_of_mem hx) y.scanned List.mem_cons_self
      · intro x hx
        rcases List.mem_cons.1 hx with rfl | hx
        · exact Nat.lt_irrefl _
        · have hlt := (List.pairwise_cons.1 hrest).1 x.scanned
            (List.mem_append_left _ (List.mem_map_of_mem hx))
          exact Nat.lt_asymm hlt

theorem pairwise_scanned_ofLine (line : Text) :
    (ofLine line).scanned.Pairwise fun a b => a.start < b.start :=
  (start_scanned_ofText 0 line).2

theorem offset_ofLine {line : Text} (h : (ofLine line).ending = .endOfLine) :
    (ofLine line).offset = line.length := by
  rw [ofLine, offset_ofText 0 line h, Nat.zero_add]

end Lexed

end LineCalculator
