import LineCalculator.Proofs.Relocation
import LineCalculator.Proofs.Writing

namespace LineCalculator

def Text.insertAt (t : Text) (i : Nat) (w : Text) : Text :=
  t.take i ++ (w ++ t.drop i)

def Relocation.behind (i k : Nat) : Relocation where
  offset p := if p < i then p else p + k
  lexeme x := if x.start < i then x else ⟨x.symbol, x.start + k, x.stop + k⟩
  symbol_lexeme x := by
    split
    · rfl
    · rfl
  start_lexeme x := by
    split
    · rfl
    · rfl

namespace Relocation

variable {i k p : Nat} {x : Lexeme}

theorem offset_behind_of_le (h : i ≤ p) : (behind i k).offset p = p + k :=
  if_neg (Nat.not_lt.2 h)

theorem offset_behind_of_lt (h : p < i) : (behind i k).offset p = p :=
  if_pos h

theorem lexeme_behind_of_le (h : i ≤ x.start) :
    (behind i k).lexeme x = ⟨x.symbol, x.start + k, x.stop + k⟩ :=
  if_neg (Nat.not_lt.2 h)

theorem lexeme_behind_of_lt (h : x.start < i) : (behind i k).lexeme x = x :=
  if_pos h

end Relocation

variable {t : Text} {i k n offset : Nat}

theorem Text.drop_insertAt (hn : n ≤ i) (hi : i ≤ t.length) (w : Text) :
    (t.insertAt i w).drop n = insertAt (t.drop n) (i - n) w := by
  have htake : (t.take i).drop n = (t.drop n).take (i - n) := List.drop_take
  have hlength : n - (t.take i).length = 0 := by
    rw [List.length_take]
    omega
  rw [insertAt, List.drop_append, hlength, htake, insertAt, List.drop_drop, Nat.add_sub_cancel' hn]
  rfl

theorem Text.exists_blanks_append (t : Text) :
    ∃ (gap : Blanks) (u : Text), t = gap.1 ++ u ∧ (Found.ofText t).gap = gap.1.length ∧
      ∀ c ∈ u.head?, isBlank c = false := by
  refine ⟨⟨t.takeWhile isBlank, ?_⟩, trimStart t, ?_, rfl, ?_⟩
  · exact List.all_eq_true.1 List.all_takeWhile
  · exact (takeWhile_isBlank_append_trimStart t).symm
  · exact fun c hc => isBlank_head_trimStart hc

theorem Numeral.front_take_append {v : Text} (hn : (front false t).length ≤ n)
    (hv : ∀ pointed, StopsAt pointed v) : front false (t.take n ++ v) = front false t := by
  have hstops := stopsAt_behind_front false t
  have hsplit := congrArg (List.take n) (front_append_drop false t)
  rw [List.take_append, List.take_of_length_le hn] at hsplit
  rw [← hsplit, List.append_assoc]
  apply front_append (fun _ => digit_or_point_of_mem_front) (points_front_le false t)
  intro c hc
  cases hrest : (t.drop (front false t).length).take (n - (front false t).length) with
  | nil => exact hv _ c (by simpa [hrest] using hc)
  | cons d rest =>
      rw [hrest, List.cons_append, List.head?_cons, Option.mem_some_iff] at hc
      subst hc
      refine hstops d ?_
      obtain ⟨back, hback⟩ := List.take_prefix (n - (front false t).length)
        (t.drop (front false t).length)
      rw [← hback, hrest]
      rfl

theorem Token.front_take_append {v : Text} {c : Char} (hn : (front (c :: t)).2 ≤ n) (hpos : 0 < n)
    (hv : ∀ pointed, Numeral.StopsAt pointed v) :
    front ((c :: t).take n ++ v) = front (c :: t) := by
  obtain ⟨n, rfl⟩ : ∃ m, n = m + 1 := ⟨n - 1, by omega⟩
  simp only [front] at hn
  rw [List.take_succ_cons, List.cons_append]
  simp only [front]
  split at hn
  · rename_i hbegins
    have hlexeme := Numeral.front_take_append hn hv
    rw [List.take_succ_cons, List.cons_append] at hlexeme
    rw [if_pos hbegins, if_pos hbegins, hlexeme]
  · rename_i hbegins
    rw [if_neg hbegins, if_neg hbegins]

theorem Found.ofText_take_append {v : Text} (hgap : (ofText t).gap < n)
    (hwidth : (ofText t).gap + (ofText t).width ≤ n) (hn : n ≤ t.length)
    (hv : ∀ pointed, Numeral.StopsAt pointed v) : ofText (t.take n ++ v) = ofText t := by
  obtain ⟨gap, u, rfl, hlength, hu⟩ := t.exists_blanks_append
  rw [hlength] at hgap hwidth
  cases u with
  | nil =>
      rw [List.append_nil] at hn
      omega
  | cons c u =>
      have hc := hu c rfl
      simp only [ofText_blanks_append, ofText_cons hc] at hwidth
      obtain ⟨m, rfl⟩ : ∃ m, n = gap.1.length + (m + 1) := ⟨n - gap.1.length - 1, by omega⟩
      have hfront := Token.front_take_append (n := m + 1) (t := u) (c := c) (by omega) (by omega) hv
      have htake : (gap.1 ++ c :: u).take (gap.1.length + (m + 1)) = gap.1 ++ (c :: u.take m) := by
        rw [List.take_length_add_append, List.take_succ_cons]
      rw [List.take_succ_cons, List.cons_append] at hfront
      rw [htake, List.append_assoc, List.cons_append, ofText_blanks_append, ofText_blanks_append,
        ofText_cons hc, ofText_cons hc, hfront]

theorem Found.ofText_insertAt (hgap : (ofText t).gap < i)
    (hwidth : (ofText t).gap + (ofText t).width ≤ i) (hi : i ≤ t.length) (w : Blanks) :
    ofText (t.insertAt i w.1) = ofText t := by
  obtain ⟨w, hw⟩ := w
  cases w with
  | nil => rw [Text.insertAt, List.nil_append, List.take_append_drop]
  | cons b w =>
      apply ofText_take_append hgap hwidth hi
      exact fun _ => Numeral.stopsAt_of_isBlank (hw b (by simp)) _

namespace Lexed

theorem ofText_blanks_append (gap : Blanks) (t : Text) :
    ofText offset (gap.1 ++ t) = ofText (offset + gap.1.length) t := by
  have hfound := Found.ofText_blanks_append gap t
  have hdrop (n : Nat) : (gap.1 ++ t).drop (gap.1.length + n) = t.drop n := by
    rw [← List.drop_drop, List.drop_left]
  cases h : (Found.ofText t).token with
  | ending e =>
      rw [ofText_of_ending h, ofText_of_ending (e := e) (by rw [hfound, h]), hfound]
      simp only [Nat.add_assoc]
  | symbol s =>
      rw [ofText_of_symbol h, ofText_of_symbol (s := s) (by rw [hfound, h])]
      simp only [hfound, Nat.add_assoc, hdrop]

theorem ofText_add (hi : i ≤ offset) (t : Text) :
    ofText (offset + k) t = (Relocation.behind i k).lexed (ofText offset t) := by
  induction offset, t using ofText_induction with
  | ending offset t e h =>
      rw [ofText_of_ending h, Relocation.lexed,
        Relocation.offset_behind_of_le (Nat.le_add_right_of_le hi), Nat.add_right_comm]
      rfl
  | symbol offset t s l h ih =>
      have hrest := ih (by omega)
      have hfirst := Relocation.lexeme_behind_of_le (k := k)
        (x := ⟨s, offset + (Found.ofText t).gap,
          offset + (Found.ofText t).gap + (Found.ofText t).width⟩)
        (Nat.le_add_right_of_le hi)
      rw [ofText_of_symbol h, Relocation.lexed_cons, hfirst]
      simp only [Nat.add_right_comm _ k, hrest]

theorem ofText_insertAt_of_le_gap (hi : i ≤ (Found.ofText t).gap) (w : Blanks) :
    ofText offset (t.insertAt i w.1) =
      (Relocation.behind (offset + i) w.1.length).lexed (ofText offset t) := by
  obtain ⟨gap, u, rfl, hgap, -⟩ := t.exists_blanks_append
  rw [hgap] at hi
  have hsplit : Text.insertAt (gap.1 ++ u) i w.1 = Text.insertAt gap.1 i w.1 ++ u := by
    rw [Text.insertAt, Text.insertAt, List.take_append_of_le_length hi,
      List.drop_append_of_le_length hi, List.append_assoc, List.append_assoc]
  have hblank : ∀ c ∈ Text.insertAt gap.1 i w.1, Text.isBlank c = true := by
    intro c hc
    simp only [Text.insertAt, List.mem_append] at hc
    rcases hc with hc | hc | hc
    · exact gap.2 c (List.mem_of_mem_take hc)
    · exact w.2 c hc
    · exact gap.2 c (List.mem_of_mem_drop hc)
  have hlength : offset + (Text.insertAt gap.1 i w.1).length =
      offset + gap.1.length + w.1.length := by
    simp only [Text.insertAt, List.length_append, List.length_take, List.length_drop]
    omega
  rw [hsplit, ofText_blanks_append ⟨_, hblank⟩, hlength, ofText_blanks_append gap,
    ofText_add (Nat.add_le_add_left hi offset)]

theorem ofText_insertAt_of_ending {e : Ending} (h : (Found.ofText t).token = .ending e)
    (hgap : (Found.ofText t).gap < i) (hi : i ≤ t.length) (w : Blanks) :
    ofText offset (t.insertAt i w.1) =
      (Relocation.behind (offset + i) w.1.length).lexed (ofText offset t) := by
  have hwidth : (Found.ofText t).gap + (Found.ofText t).width ≤ i := by
    rw [Found.width_of_ending h]
    exact Nat.le_of_lt hgap
  have hfound := Found.ofText_insertAt hgap hwidth hi w
  rw [ofText_of_ending (e := e) (by rw [hfound, h]), hfound, ofText_of_ending h,
    Relocation.lexed, Relocation.offset_behind_of_lt (Nat.add_lt_add_left hgap offset)]
  rfl

theorem ofText_insertAt_of_symbol {s : Symbol} (h : (Found.ofText t).token = .symbol s)
    (hgap : (Found.ofText t).gap < i)
    (hwidth : (Found.ofText t).gap + (Found.ofText t).width ≤ i) (hi : i ≤ t.length) (w : Blanks)
    (hrest : ofText (offset + (Found.ofText t).gap + (Found.ofText t).width)
        ((t.insertAt i w.1).drop ((Found.ofText t).gap + (Found.ofText t).width)) =
      (Relocation.behind (offset + i) w.1.length).lexed
        (ofText (offset + (Found.ofText t).gap + (Found.ofText t).width)
          (t.drop ((Found.ofText t).gap + (Found.ofText t).width)))) :
    ofText offset (t.insertAt i w.1) =
      (Relocation.behind (offset + i) w.1.length).lexed (ofText offset t) := by
  have hfound := Found.ofText_insertAt hgap hwidth hi w
  have hfirst := Relocation.lexeme_behind_of_lt (k := w.1.length)
    (x := ⟨s, offset + (Found.ofText t).gap,
      offset + (Found.ofText t).gap + (Found.ofText t).width⟩)
    (Nat.add_lt_add_left hgap offset)
  rw [ofText_of_symbol (s := s) (by rw [hfound, h]), hfound, ofText_of_symbol h,
    Relocation.lexed_cons, hfirst]
  simp only [hrest]

-- The recursion is that of the tokens in front of the blanks: each is passed over as it is, and
-- the blanks stand that much further to the front in what is left.
theorem ofText_insertAt {offset i : Nat} {t : Text} (hi : i ≤ t.length) (w : Blanks)
    (houtside : ∀ x ∈ (ofText offset t).lexemes, ¬ (x.start < offset + i ∧ offset + i < x.stop)) :
    ofText offset (t.insertAt i w.1) =
      (Relocation.behind (offset + i) w.1.length).lexed (ofText offset t) := by
  rcases Nat.lt_or_ge (Found.ofText t).gap i with hgap | hgap
  · cases h : (Found.ofText t).token with
    | ending e => exact ofText_insertAt_of_ending h hgap hi w
    | symbol s =>
        have hpos := Found.width_pos h
        have hle := Found.gap_add_width_le t
        rw [ofText_of_symbol h] at houtside
        have hwidth : (Found.ofText t).gap + (Found.ofText t).width ≤ i := by
          have := houtside _ List.mem_cons_self
          simp only at this
          omega
        have hplace : offset + (Found.ofText t).gap + (Found.ofText t).width +
            (i - ((Found.ofText t).gap + (Found.ofText t).width)) = offset + i := by
          omega
        apply ofText_insertAt_of_symbol h hgap hwidth hi w
        rw [Text.drop_insertAt hwidth hi, ← hplace]
        apply ofText_insertAt
        · rw [List.length_drop]
          omega
        · intro x hx
          rw [hplace]
          exact houtside x (List.mem_cons_of_mem _ hx)
  · exact ofText_insertAt_of_le_gap hgap w
termination_by t.length
decreasing_by
  rw [List.length_drop]
  omega

end Lexed

theorem result_of_inserted_blanks (line : Text) (i : Nat) (w : Blanks) (hi : i ≤ line.length)
    (houtside : ∀ count, ∀ s ∈ walk line count 0, ¬ (s.start < i ∧ i < s.stop)) (limit : Int) :
    ((Lexed.ofLine (line.insertAt i w.1)).evaluate limit).result =
      ((Lexed.ofLine line).evaluate limit).result.mapError fun f =>
        ⟨f.cause, if f.position < i then f.position else f.position + w.1.length⟩ := by
  have hscanned := Lexed.forall_mem_walk_iff.1 houtside
  have hlexemes : ∀ x ∈ (Lexed.ofLine line).lexemes, ¬ (x.start < 0 + i ∧ 0 + i < x.stop) := by
    intro x hx
    rw [Nat.zero_add]
    exact hscanned x.scanned (List.mem_append_left _ (List.mem_map_of_mem hx))
  rw [Lexed.ofLine, Lexed.ofText_insertAt hi w hlexemes, Nat.zero_add, Relocation.result_evaluate]
  rfl

theorem result_of_blanks_before_divisor :
    (2 ≤ "8/(2-2)".toList.length ∧
      ∀ count, ∀ s ∈ walk "8/(2-2)".toList count 0, ¬ (s.start < 2 ∧ 2 < s.stop)) ∧
    evaluate "8/(2-2)".toList = .error ⟨.divisionByZero, 2⟩ ∧
    evaluate "8/  (2-2)".toList = .error ⟨.divisionByZero, 4⟩ := by
  have hlength : 2 ≤ "8/(2-2)".toList.length := by decide
  have houtside : ∀ count, ∀ s ∈ walk "8/(2-2)".toList count 0, ¬ (s.start < 2 ∧ 2 < s.stop) :=
    Lexed.forall_mem_walk_iff.2 (by decide +kernel)
  have hresult : evaluate "8/(2-2)".toList = .error ⟨.divisionByZero, 2⟩ := by
    decide +kernel
  have hmoved := result_of_inserted_blanks "8/(2-2)".toList 2
    ⟨[' ', ' '], List.all_eq_true.1 (by decide)⟩ hlength houtside depthLimit
  refine ⟨⟨hlength, houtside⟩, hresult, hmoved.trans ?_⟩
  rw [show ((Lexed.ofLine "8/(2-2)".toList).evaluate depthLimit).result = _ from hresult]
  rfl

end LineCalculator
