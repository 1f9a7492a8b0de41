import LineCalculator.Text.Basic

namespace LineCalculator.Text

def unifyBreaks : Text → Text
  | [] => []
  | '\r' :: '\n' :: t => '\n' :: unifyBreaks t
  | '\r' :: t => '\n' :: unifyBreaks t
  | c :: t => c :: unifyBreaks t

def lines : Text → List Text
  | [] => []
  | c :: t =>
      if c = '\n' then [c] :: lines t
      else match lines t with
        | [] => [[c]]
        | l :: ls => (c :: l) :: ls

theorem unifyBreaks_of_not_mem {t : Text} (h : '\r' ∉ t) : unifyBreaks t = t := by
  fun_induction unifyBreaks t with
  | case1 => rfl
  | case2 => simp at h
  | case3 => simp at h
  | case4 c t _ _ ih =>
      rw [List.mem_cons, not_or] at h
      rw [ih h.2]

theorem lines_append_newline {l : Text} (hl : '\n' ∉ l) (t : Text) :
    lines (l ++ '\n' :: t) = (l ++ ['\n']) :: lines t := by
  induction l with
  | nil => simp [lines]
  | cons c l ih =>
      rw [List.mem_cons, not_or] at hl
      simp [lines, ih hl.2, Ne.symm hl.1]

theorem flatten_lines (t : Text) : (lines t).flatten = t := by
  induction t with
  | nil => rfl
  | cons c t ih =>
      simp only [lines]
      split
      · simp [ih]
      · cases h : lines t with
        | nil => simpa [h] using ih
        | cons l ls => simpa [h] using ih

end LineCalculator.Text
