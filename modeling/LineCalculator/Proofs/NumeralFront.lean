import LineCalculator.Number.Numeral

namespace LineCalculator.Numeral

structure IsNumeral (x : Text) : Prop where
  ne_nil : x ≠ []
  digit_or_point : ∀ c ∈ x, c.isDigit = true ∨ c = '.'
  points_le : x.count '.' ≤ 1

instance (x : Text) : Decidable (IsNumeral x) :=
  decidable_of_iff (x ≠ [] ∧ x.all (fun c => c.isDigit || c == '.') = true ∧ x.count '.' ≤ 1)
    ⟨fun ⟨hne, hx, hpoints⟩ => ⟨hne, by simpa using hx, hpoints⟩,
      fun ⟨hne, hx, hpoints⟩ => ⟨hne, by simpa using hx, hpoints⟩⟩

def StopsAt (pointed : Bool) (rest : Text) : Prop :=
  ∀ c ∈ rest.head?, c.isDigit = false ∧ (c = '.' → pointed = true)

variable {pointed : Bool} {x rest t : Text}

theorem stopsAt_nil (pointed : Bool) : StopsAt pointed [] := by
  intro c hc
  cases hc

theorem stopsAt_cons {c : Char} :
    StopsAt pointed (c :: rest) ↔ c.isDigit = false ∧ (c = '.' → pointed = true) := by
  simp [StopsAt]

theorem StopsAt.front_eq_nil (h : StopsAt pointed rest) : front pointed rest = [] := by
  cases rest with
  | nil => rfl
  | cons c rest =>
      obtain ⟨hdigit, hpoint⟩ := stopsAt_cons.1 h
      rw [front, if_neg (by simp [hdigit]), if_neg]
      rintro ⟨hc, hpointed⟩
      simp [hpoint hc] at hpointed

theorem ne_point_of_isDigit {c : Char} (h : c.isDigit = true) : c ≠ '.' := by
  rintro rfl
  cases h

theorem front_cons_digit {c : Char} (h : c.isDigit = true) (t : Text) :
    front pointed (c :: t) = c :: front pointed t := by
  rw [front, if_pos h]

theorem front_cons_point (t : Text) : front false ('.' :: t) = '.' :: front true t := by
  simp [front]

theorem front_append (hx : ∀ c ∈ x, c.isDigit = true ∨ c = '.')
    (hpoints : x.count '.' + pointed.toNat ≤ 1) (hrest : StopsAt (pointed || x.contains '.') rest) :
    front pointed (x ++ rest) = x := by
  induction x generalizing pointed with
  | nil => exact StopsAt.front_eq_nil (by simpa using hrest)
  | cons c x ih =>
      have hx' : ∀ d ∈ x, d.isDigit = true ∨ d = '.' := fun d hd => hx d (by simp [hd])
      rcases hx c (by simp) with hdigit | rfl
      · have hc := ne_point_of_isDigit hdigit
        rw [List.count_cons_of_ne hc] at hpoints
        have hrest' : StopsAt (pointed || x.contains '.') rest := by
          simpa [hc.symm] using hrest
        rw [List.cons_append, front_cons_digit hdigit, ih hx' hpoints hrest']
      · rw [List.count_cons_self] at hpoints
        cases pointed with
        | true => simp at hpoints
        | false =>
            have hnone : x.count '.' + true.toNat ≤ 1 := by
              simpa using hpoints
            have hrest' : StopsAt (true || x.contains '.') rest := by
              simpa using hrest
            rw [List.cons_append, front_cons_point, ih hx' hnone hrest']

theorem IsNumeral.front_append (hx : IsNumeral x) (hrest : StopsAt (x.contains '.') rest) :
    front false (x ++ rest) = x :=
  Numeral.front_append hx.digit_or_point hx.points_le (by simpa using hrest)

theorem length_le_front (hx : ∀ c ∈ x, c.isDigit = true ∨ c = '.')
    (hpoints : x.count '.' + pointed.toNat ≤ 1) (rest : Text) :
    x.length ≤ (front pointed (x ++ rest)).length := by
  induction x generalizing pointed with
  | nil => exact Nat.zero_le _
  | cons c x ih =>
      have hx' : ∀ d ∈ x, d.isDigit = true ∨ d = '.' := fun d hd => hx d (by simp [hd])
      rcases hx c (by simp) with hdigit | rfl
      · rw [List.count_cons_of_ne (ne_point_of_isDigit hdigit)] at hpoints
        rw [List.cons_append, front_cons_digit hdigit]
        exact Nat.succ_le_succ (ih hx' hpoints)
      · rw [List.count_cons_self] at hpoints
        cases pointed with
        | true => simp at hpoints
        | false =>
            rw [List.cons_append, front_cons_point]
            exact Nat.succ_le_succ (ih hx' (by simpa using hpoints))

theorem digit_or_point_of_mem_front {c : Char} (h : c ∈ front pointed t) :
    c.isDigit = true ∨ c = '.' := by
  fun_induction front pointed t with
  | case1 => cases h
  | case2 pointed d t hd ih =>
      rcases List.mem_cons.1 h with rfl | h
      · exact Or.inl hd
      · exact ih h
  | case3 pointed d t hd hpoint ih =>
      rcases List.mem_cons.1 h with rfl | h
      · exact Or.inr hpoint.1
      · exact ih h
  | case4 => cases h

theorem points_front_le (pointed : Bool) (t : Text) :
    (front pointed t).count '.' + pointed.toNat ≤ 1 := by
  fun_induction front pointed t with
  | case1 pointed => cases pointed <;> simp
  | case2 pointed d t hd ih =>
      rwa [List.count_cons_of_ne (ne_point_of_isDigit hd)]
  | case3 pointed d t hd hpoint ih =>
      obtain ⟨rfl, rfl⟩ := hpoint
      rw [List.count_cons_self]
      simpa using ih
  | case4 pointed => cases pointed <;> simp

theorem stopsAt_behind_front (pointed : Bool) (t : Text) :
    StopsAt (pointed || (front pointed t).contains '.') (t.drop (front pointed t).length) := by
  fun_induction front pointed t with
  | case1 pointed => exact stopsAt_nil _
  | case2 pointed d t hd ih =>
      simpa [(ne_point_of_isDigit hd).symm] using ih
  | case3 pointed d t hd hpoint ih =>
      obtain ⟨rfl, rfl⟩ := hpoint
      simpa using ih
  | case4 pointed d t hd hpoint =>
      simp only [List.length_nil, List.drop_zero, stopsAt_cons]
      refine ⟨by simpa using hd, ?_⟩
      intro hc
      simpa [hc] using hpoint

theorem isNumeral_front {c : Char} (h : begins c = true) (t : Text) :
    IsNumeral (front false (c :: t)) where
  ne_nil := front_ne_nil h t
  digit_or_point := fun _ => digit_or_point_of_mem_front
  points_le := points_front_le false (c :: t)

theorem front_eq_iff {c : Char} (h : begins c = true) (t x : Text) :
    front false (c :: t) = x ↔
      ∃ rest, c :: t = x ++ rest ∧ IsNumeral x ∧ StopsAt (x.contains '.') rest := by
  constructor
  · rintro rfl
    have hstops := stopsAt_behind_front false (c :: t)
    rw [Bool.false_or] at hstops
    exact ⟨_, (front_append_drop false (c :: t)).symm, isNumeral_front h t, hstops⟩
  · rintro ⟨rest, hsplit, hx, hstops⟩
    rw [hsplit, hx.front_append hstops]

theorem IsNumeral.exists_begins (hx : IsNumeral x) : ∃ c y, x = c :: y ∧ begins c = true := by
  cases x with
  | nil => exact absurd rfl hx.ne_nil
  | cons c y =>
      refine ⟨c, y, rfl, ?_⟩
      rcases hx.digit_or_point c (by simp) with h | h <;> simp [begins, h]

end LineCalculator.Numeral
