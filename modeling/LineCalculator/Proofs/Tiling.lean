import LineCalculator.Buffer
import Mathlib.Algebra.Order.Floor.Div

namespace LineCalculator

structure Tiles (width : Nat) (line : Text) (ps : List Text) : Prop where
  flatten_eq : ps.flatten = line
  ne_nil : ∀ p ∈ ps, p ≠ []
  full : ∀ p ∈ ps.dropLast, p.length = width
  fits : ∀ p ∈ ps.getLast?, p.length ≤ width

variable {width wide : Nat} {line p : Text} {ps : List Text}

namespace Tiles

theorem of_cons (h : Tiles width line (p :: ps)) :
    line ≠ [] ∧ p = line.take width ∧ Tiles width (line.drop width) ps := by
  have hline : line = p ++ ps.flatten := h.flatten_eq.symm
  have hp : p ≠ [] := h.ne_nil p List.mem_cons_self
  have htail : ∀ q ∈ ps, q ≠ [] := fun q hq => h.ne_nil q (List.mem_cons_of_mem p hq)
  refine ⟨by simp [hline, hp], ?_⟩
  -- A tile fills the width if another follows; the last one is the whole line.
  cases ps with
  | nil =>
      have hfits : line.length ≤ width := by
        simpa [hline] using h.fits p rfl
      rw [List.take_of_length_le hfits, List.drop_of_length_le hfits]
      exact ⟨by simp [hline], rfl, by simp, by simp, by simp⟩
  | cons q qs =>
      have hfull : p.length = width := h.full p (by simp)
      rw [hline, List.take_left' hfull, List.drop_left' hfull]
      refine ⟨rfl, rfl, htail, ?_, ?_⟩
      · intro r hr
        exact h.full r (List.mem_cons_of_mem p hr)
      · intro r hr
        exact h.fits r (by rwa [List.getLast?_cons_cons])

theorem eq_pieces (hw : 0 < width) (h : Tiles width line ps) : ps = pieces width line := by
  induction ps generalizing line with
  | nil =>
      have hline : line = [] := h.flatten_eq.symm
      rw [hline, pieces_nil]
  | cons p ps ih =>
      obtain ⟨hne, hp, hps⟩ := h.of_cons
      rw [pieces_of_pos hw hne, ← hp, ← ih hps]

end Tiles

theorem length_of_mem_dropLast_pieces (h : p ∈ (pieces width line).dropLast) :
    p.length = width := by
  fun_induction pieces width line with
  | case1 => simp at h
  | case2 t ht ih =>
      cases hrest : pieces width (t.drop width) with
      | nil => simp [hrest] at h
      | cons q qs =>
          rw [hrest, List.dropLast_cons_cons, ← hrest] at h
          rcases List.mem_cons.1 h with rfl | h
          · have hne : t.drop width ≠ [] := by
              intro hnil
              rw [hnil, pieces_nil] at hrest
              cases hrest
            rw [Ne, List.drop_eq_nil_iff] at hne
            exact List.length_take_of_le (by omega)
          · exact ih h

theorem tiles_pieces (hw : 0 < width) (line : Text) : Tiles width line (pieces width line) where
  flatten_eq := flatten_pieces hw line
  ne_nil := fun _ hp => (length_le_of_mem_pieces hp).1
  full := fun _ => length_of_mem_dropLast_pieces
  fits := fun _ hp => (length_le_of_mem_pieces (List.mem_of_getLast? hp)).2

theorem tiles_iff (hw : 0 < width) : Tiles width line ps ↔ ps = pieces width line := by
  constructor
  · exact Tiles.eq_pieces hw
  · rintro rfl
    exact tiles_pieces hw line

theorem drop_induction (hw : 0 < width) {motive : Text → Prop} (nil : motive [])
    (drop : ∀ t, t ≠ [] → motive (t.drop width) → motive t) (t : Text) : motive t := by
  fun_induction pieces width t with
  | case1 t h =>
      have ht : t = [] := h.resolve_left (by omega)
      rwa [ht]
  | case2 t h ih => exact drop t (fun ht => h (Or.inr ht)) ih

theorem ceilDiv_length_of_ne_nil (hw : 0 < width) (hline : line ≠ []) :
    line.length ⌈/⌉ width = (line.drop width).length ⌈/⌉ width + 1 := by
  have hpos := List.length_pos_iff.2 hline
  have hstart : line.length + width - 1 = line.length - 1 + width := by omega
  rw [Nat.ceilDiv_eq_add_pred_div, Nat.ceilDiv_eq_add_pred_div, List.length_drop, hstart,
    Nat.add_div_right _ hw]
  rcases Nat.le_total width line.length with hlong | hshort
  · have hleft : line.length - width + width - 1 = line.length - 1 := by omega
    rw [hleft]
  · rw [Nat.div_eq_of_lt (by omega), Nat.div_eq_of_lt (by omega)]

theorem pieces_eq_map_extract (hw : 0 < width) (line : Text) :
    pieces width line = (List.range' 0 (line.length ⌈/⌉ width) width).map
      fun start => line.extract start (start + width) := by
  induction line using drop_induction hw with
  | nil => simp [pieces_nil]
  | drop t ht ih =>
      rw [pieces_of_pos hw ht, ceilDiv_length_of_ne_nil hw ht, List.range'_succ, List.map_cons, ih,
        Nat.add_comm 0 width, ← List.map_add_range', List.map_map]
      simp [Function.comp_def]

theorem length_pieces (hw : 0 < width) (line : Text) :
    (pieces width line).length = line.length ⌈/⌉ width := by
  rw [pieces_eq_map_extract hw, List.length_map, List.length_range']

theorem pieces_append (hw : 0 < width) {front : Text} (h : width ∣ front.length) (back : Text) :
    pieces width (front ++ back) = pieces width front ++ pieces width back := by
  induction front using drop_induction hw with
  | nil => rw [pieces_nil, List.nil_append, List.nil_append]
  | drop t ht ih =>
      have hle : width ≤ t.length := Nat.le_of_dvd (List.length_pos_iff.2 ht) h
      have hdvd : width ∣ (t.drop width).length := by
        rw [List.length_drop]
        exact Nat.dvd_sub h (Nat.dvd_refl width)
      rw [pieces_of_pos hw (List.append_ne_nil_of_left_ne_nil ht back), pieces_of_pos hw ht,
        List.take_append_of_le_length hle, List.drop_append_of_le_length hle, ih hdvd,
        List.cons_append]

theorem flatMap_pieces_pieces (hw : 0 < width) (hwide : 0 < wide) (h : width ∣ wide)
    (line : Text) : (pieces wide line).flatMap (pieces width) = pieces width line := by
  induction line using drop_induction hwide with
  | nil => rw [pieces_nil, pieces_nil, List.flatMap_nil]
  | drop t ht ih =>
      rw [pieces_of_pos hwide ht, List.flatMap_cons, ih]
      -- What is cut off first ends at a multiple of the width, unless it is all of the line.
      rcases Nat.le_total wide t.length with hlong | hshort
      · have hdvd : width ∣ (t.take wide).length := by
          rwa [List.length_take_of_le hlong]
        rw [← pieces_append hw hdvd, List.take_append_drop]
      · rw [List.take_of_length_le hshort, List.drop_of_length_le hshort, pieces_nil,
          List.append_nil]

theorem fragments_bind_fragments {m n : Int} (hm : 2 ≤ m) (hn : 2 ≤ n) (h : n - 1 ∣ m - 1)
    (lines : List Text) : (fragments m lines >>= fragments n) = fragments n lines := by
  have hdvd : (n - 1).toNat ∣ (m - 1).toNat := by
    rw [← Int.natCast_dvd_natCast, Int.toNat_of_nonneg (by omega), Int.toNat_of_nonneg (by omega)]
    exact h
  have hcut := flatMap_pieces_pieces (by omega : 0 < (n - 1).toNat) (by omega) hdvd
  calc
    (fragments m lines >>= fragments n)
      = fragments n (lines.flatMap (pieces (m - 1).toNat)) := by
        rw [fragments_of_two_le hm]
        rfl
    _ = fragments n lines := by
        rw [fragments_of_two_le hn, fragments_of_two_le hn, List.flatMap_assoc]
        simp only [hcut]

theorem fragments_tile_lines_and_compose {n : Int} (hn : 2 ≤ n) :
    (∃ group : Text → List Text,
      (∀ lines, fragments n lines = .ok (lines.flatMap group)) ∧
      ∀ line, (∀ ps, Tiles (n - 1).toNat line ps ↔ ps = group line) ∧
        (group line).length = line.length ⌈/⌉ (n - 1).toNat) ∧
    ∀ m, 2 ≤ m → n - 1 ∣ m - 1 → ∀ lines,
      (fragments m lines >>= fragments n) = fragments n lines := by
  have hw : 0 < (n - 1).toNat := by omega
  refine ⟨⟨pieces (n - 1).toNat, fragments_of_two_le hn, ?_⟩, ?_⟩
  · intro line
    exact ⟨fun ps => tiles_iff hw, length_pieces hw line⟩
  · intro m hm hdvd lines
    exact fragments_bind_fragments hm hn hdvd lines

theorem fragments_of_cut_and_empty_lines :
    let lines := ["12+34\n5".toList, [], "6*7\n".toList]
    (2 : Int) ≤ 3 ∧ (2 : Int) ≤ 5 ∧ (3 - 1 : Int) ∣ 5 - 1 ∧
    fragments 5 lines = .ok ["12+3".toList, "4\n5".toList, "6*7\n".toList] ∧
    (fragments 5 lines >>= fragments 3) =
      .ok ["12".toList, "+3".toList, "4\n".toList, "5".toList, "6*".toList, "7\n".toList] ∧
    ∀ ps, Tiles 2 "12+34\n5".toList ps ↔
      ps = ["12".toList, "+3".toList, "4\n".toList, "5".toList] := by
  intro lines
  have hsize : (2 : Int) ≤ 3 := by decide
  obtain ⟨⟨group, -, hgroup⟩, hcompose⟩ := fragments_tile_lines_and_compose hsize
  have hcut : fragments 3 lines =
      .ok ["12".toList, "+3".toList, "4\n".toList, "5".toList, "6*".toList, "7\n".toList] := by
    decide +kernel
  have htiles : Tiles 2 "12+34\n5".toList ["12".toList, "+3".toList, "4\n".toList, "5".toList] :=
    ⟨by decide, by decide, by decide, by decide⟩
  have hline := (hgroup "12+34\n5".toList).1
  have hdvd : (3 - 1 : Int) ∣ 5 - 1 := ⟨2, rfl⟩
  refine ⟨hsize, by decide, hdvd, by decide +kernel,
    (hcompose 5 (by decide) hdvd lines).trans hcut, ?_⟩
  intro ps
  rw [(hline _).1 htiles]
  exact hline ps

end LineCalculator
