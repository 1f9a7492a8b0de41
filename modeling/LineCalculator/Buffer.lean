import LineCalculator.Refusal

namespace LineCalculator

def pieces (width : Nat) (t : Text) : List Text :=
  if width = 0 ∨ t = [] then [] else t.take width :: pieces width (t.drop width)
termination_by t.length
decreasing_by
  simp only [List.length_drop]
  have ht : 0 < t.length := List.length_pos_iff.2 (by simp_all)
  omega

def fragments (size : Int) (lines : List Text) : Except Refusal (List Text) :=
  if size = 1 ∧ lines ≠ [] then .error .zeroStep
  else .ok (lines.flatMap (pieces (size - 1).toNat))

theorem pieces_nil (width : Nat) : pieces width [] = [] := by
  rw [pieces]
  simp

theorem pieces_of_pos {width : Nat} (hw : 0 < width) {t : Text} (ht : t ≠ []) :
    pieces width t = t.take width :: pieces width (t.drop width) := by
  rw [pieces, if_neg]
  rintro (h | h)
  · omega
  · exact ht h

theorem flatten_pieces {width : Nat} (hw : 0 < width) (t : Text) :
    (pieces width t).flatten = t := by
  fun_induction pieces width t with
  | case1 t h =>
      rcases h with h | h
      · omega
      · simp [h]
  | case2 t h ih => simp [ih]

theorem pieces_of_length_le {width : Nat} (hw : 0 < width) {t : Text} (ht : t ≠ [])
    (h : t.length ≤ width) : pieces width t = [t] := by
  rw [pieces_of_pos hw ht, List.take_of_length_le h, List.drop_of_length_le h, pieces_nil]

theorem length_le_of_mem_pieces {width : Nat} {t p : Text} (h : p ∈ pieces width t) :
    p ≠ [] ∧ p.length ≤ width := by
  fun_induction pieces width t with
  | case1 => simp at h
  | case2 t hn ih =>
      rcases List.mem_cons.1 h with rfl | h
      · constructor
        · simp_all
        · exact List.length_take_le ..
      · exact ih h

theorem fragments_of_two_le {size : Int} (h : 2 ≤ size) (lines : List Text) :
    fragments size lines = .ok (lines.flatMap (pieces (size - 1).toNat)) := by
  rw [fragments, if_neg]
  omega

end LineCalculator
