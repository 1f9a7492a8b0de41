import LineCalculator.Proofs.DescentAgreement

namespace LineCalculator

def Category.own : List Category :=
  [.unexpectedToken, .invalidCharacter, .missingClosingParen, .divisionByZero, .nestingTooDeep]

theorem Cause.category_mem_own (c : Cause) : c.category ∈ Category.own := by
  cases c <;> simp [category, Category.own]

theorem exists_scan_of_mem_walk {line : Text} {s : Scanned} {count : Nat} {cursor : Int}
    (h : s ∈ walk line count cursor) : ∃ cursor' : Int, s = scan line cursor' := by
  induction count generalizing cursor with
  | zero => cases h
  | succ count ih =>
      rw [walk_succ] at h
      rcases List.mem_cons.1 h with rfl | h
      · exact ⟨cursor, rfl⟩
      · exact ih h

namespace Lexed

theorem exists_start_of_error {l : Lexed} {limit : Int} {f : Failure}
    (h : (l.evaluate limit).result = .error f) : ∃ s ∈ l.scanned, s.start = f.position := by
  have hends := l.ends_evaluate limit
  rw [h] at hends
  cases hends with
  | @zeroDivisor front back x s s' q hl hfront hx =>
      obtain ⟨before, slash, first, more, -, -, hxs, -, -, -, -, hstart⟩ :=
        (meets_of_dividesByZero hfront hx).1
      have hmem : first ∈ l.lexemes := by
        have hfirst : first ∈ front ++ [x] := by simp [hxs]
        rw [hl]
        rcases List.mem_append.1 hfirst with hfirst | hfirst
        · exact List.mem_append_left _ hfirst
        · exact List.mem_append_right _ (List.mem_cons.2 (Or.inl (List.mem_singleton.1 hfirst)))
      exact ⟨first.scanned, List.mem_append_left _ (List.mem_map_of_mem hmem), hstart⟩
  | @refused front t back s _ hscanned _ _ _ hposition =>
      exact ⟨t, by simp [hscanned], hposition.symm⟩

theorem evaluate_fails_in_own_way (line : Text) (limit : Int) :
    ((∃ v, ((ofLine line).evaluate limit).result = .ok v) ∨
      ∃ f, ((ofLine line).evaluate limit).result = .error f ∧ f.cause.category ∈ Category.own ∧
        f.position ≤ line.length ∧ ∃ count, ∃ s ∈ walk line count 0, s.start = f.position) ∧
    ∀ nest steps p,
      (∀ m, (Descent.evaluate line limit ((max limit 0).toNat + 1 + nest)
        (line.length + 1 + steps) p).1 ≠ .error (.misuse m)) ∧
      Descent.evaluate line limit ((max limit 0).toNat + 1 + nest) (line.length + 1 + steps) p =
        (((ofLine line).evaluate limit).result.mapError .failure,
          (ofLine line).place ((ofLine line).evaluate limit).rest
            ((ofLine line).evaluate limit).depth) := by
  constructor
  · cases h : ((ofLine line).evaluate limit).result with
    | ok v => exact Or.inl ⟨v, rfl⟩
    | error f =>
        obtain ⟨s, hs, hstart⟩ := exists_start_of_error h
        rw [scanned_ofLine] at hs
        obtain ⟨cursor, hscan⟩ := exists_scan_of_mem_walk hs
        have hfound := scan_foundFrom line cursor
        rw [← hscan] at hfound
        refine Or.inr ⟨f, rfl, f.cause.category_mem_own, ?_, _, s, hs, hstart⟩
        rw [← hstart]
        exact Nat.le_trans hfound.start_le hfound.stop_le
  · intro nest steps p
    have hnest : max limit 0 < (((max limit 0).toNat + 1 + nest : Nat) : Int) := by omega
    have hsteps : line.length < line.length + 1 + steps := by omega
    have heq := Descent.evaluate_eq rfl hnest hsteps p
    refine ⟨?_, heq⟩
    intro m
    rw [heq]
    cases ((ofLine line).evaluate limit).result <;> simp [Except.mapError]

end Lexed

end LineCalculator
