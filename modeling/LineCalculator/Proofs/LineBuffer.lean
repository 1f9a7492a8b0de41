import LineCalculator.Proofs.ReadLoop

namespace LineCalculator

/-- A buffer filled with the front part `p` of a text takes no more: a newline has come, there is
no room, or nothing is left. -/
def IsFilled (room : Nat) (t p : Text) : Prop :=
  p.getLast? = some '\n' ∨ p.length = room ∨ p = t

structure FillsBuffer (room : Nat) (t p : Text) : Prop where
  isPrefix : p <+: t
  ne_nil : p ≠ []
  filled : IsFilled room t p
  shortest : ∀ q, q <+: t → q ≠ [] → IsFilled room t q → p.length ≤ q.length

inductive BufferReads (room : Nat) : Text → List Text → Prop
  | nil : BufferReads room [] []
  | cons {t p : Text} {ps : List Text} :
      FillsBuffer room t p → BufferReads room (t.drop p.length) ps → BufferReads room t (p :: ps)

structure IsLine (l rest : Text) : Prop where
  ne_nil : l ≠ []
  not_mem_dropLast : '\n' ∉ l.dropLast
  ended : l.getLast? = some '\n' ∨ rest = []

namespace Text

theorem lines_of_not_mem {t : Text} (ht : t ≠ []) (h : '\n' ∉ t) : lines t = [t] := by
  induction t with
  | nil => exact absurd rfl ht
  | cons c t ih =>
      rw [List.mem_cons, not_or] at h
      rw [lines, if_neg (Ne.symm h.1)]
      cases t with
      | nil => rfl
      | cons d t => rw [ih (List.cons_ne_nil d t) h.2]

theorem lines_of_isLine {l rest : Text} (h : IsLine l rest) : lines (l ++ rest) = l :: lines rest := by
  by_cases hlast : l.getLast? = some '\n'
  · obtain ⟨body, rfl⟩ := List.getLast?_eq_some_iff.1 hlast
    have hbody := h.not_mem_dropLast
    rw [List.dropLast_concat] at hbody
    rw [List.append_assoc, List.singleton_append, lines_append_newline hbody]
  · have hrest := h.ended.resolve_left hlast
    subst hrest
    have hnone : '\n' ∉ l := by
      intro hmem
      rw [← List.dropLast_concat_getLast h.ne_nil, List.mem_append, List.mem_singleton] at hmem
      rcases hmem with hmem | hmem
      · exact h.not_mem_dropLast hmem
      · exact hlast (by rw [List.getLast?_eq_some_getLast h.ne_nil, hmem])
    rw [List.append_nil, lines_of_not_mem h.ne_nil hnone]
    rfl

theorem exists_isLine {t : Text} (ht : t ≠ []) : ∃ l rest, t = l ++ rest ∧ IsLine l rest := by
  by_cases h : '\n' ∈ t
  · obtain ⟨body, rest, rfl, hbody⟩ := List.eq_append_cons_of_mem h
    refine ⟨body ++ ['\n'], rest, by simp, by simp, ?_, Or.inl (by simp)⟩
    rwa [List.dropLast_concat]
  · exact ⟨t, [], by simp, ht, fun hmem => h ((List.dropLast_sublist t).subset hmem), Or.inr rfl⟩

theorem lines_append_behind_newline (body t : Text) :
    lines (body ++ '\n' :: t) = lines (body ++ ['\n']) ++ lines t := by
  induction body with
  | nil => simp [lines]
  | cons c body ih =>
      by_cases hc : c = '\n'
      · simp [lines, hc, ih]
      · cases h : lines (body ++ ['\n']) with
        | nil =>
            have hflat := flatten_lines (body ++ ['\n'])
            simp [h] at hflat
        | cons l ls => simp [lines, hc, ih, h]

theorem lines_append {front : Text} (h : front = [] ∨ front.getLast? = some '\n') (t : Text) :
    lines (front ++ t) = lines front ++ lines t := by
  rcases h with rfl | h
  · rfl
  · obtain ⟨body, rfl⟩ := List.getLast?_eq_some_iff.1 h
    rw [List.append_assoc, List.singleton_append, lines_append_behind_newline]

end Text

theorem IsLine.drop {l rest : Text} (h : IsLine l rest) {room : Nat} (hroom : room < l.length) :
    IsLine (l.drop room) rest := by
  have hne : l.drop room ≠ [] := by
    rw [Ne, List.drop_eq_nil_iff]
    omega
  refine ⟨hne, ?_, ?_⟩
  · have hlast := h.not_mem_dropLast
    rw [← List.take_append_drop room l, List.dropLast_append_of_ne_nil hne, List.mem_append,
      not_or] at hlast
    exact hlast.2
  · rw [List.getLast?_drop, if_neg (by omega)]
    exact h.ended

theorem Text.flatMap_pieces_of_isLine {room : Nat} (hroom : 0 < room) {l rest : Text}
    (h : IsLine l rest) :
    (lines (l ++ rest)).flatMap (pieces room) =
      l.take room :: (lines (l.drop room ++ rest)).flatMap (pieces room) := by
  rw [lines_of_isLine h, List.flatMap_cons, pieces_of_pos hroom h.ne_nil, List.cons_append]
  -- What the first fragment leaves of the line, if anything, is a line again.
  rcases Nat.lt_or_ge room l.length with hlong | hshort
  · rw [lines_of_isLine (h.drop hlong), List.flatMap_cons]
  · rw [List.drop_of_length_le hshort, pieces_nil]
    rfl

theorem flatten_flatMap_pieces {room : Nat} (hroom : 0 < room) (ls : List Text) :
    (ls.flatMap (pieces room)).flatten = ls.flatten := by
  induction ls with
  | nil => rfl
  | cons l ls ih =>
      rw [List.flatMap_cons, List.flatten_append, flatten_pieces hroom, ih, List.flatten_cons]

namespace FillsBuffer

variable {room : Nat} {t p q l rest : Text}

theorem of_isLine (hroom : 0 < room) (h : IsLine l rest) :
    FillsBuffer room (l ++ rest) (l.take room) where
  isPrefix := (List.take_prefix room l).trans (List.prefix_append l rest)
  ne_nil := by
    have hl := List.length_pos_iff.2 h.ne_nil
    apply List.ne_nil_of_length_pos
    rw [List.length_take]
    omega
  filled := by
    rcases Nat.lt_or_ge room l.length with hlong | hshort
    · exact Or.inr (Or.inl (List.length_take_of_le (Nat.le_of_lt hlong)))
    · rw [List.take_of_length_le hshort]
      rcases h.ended with hlast | rfl
      · exact Or.inl hlast
      · exact Or.inr (Or.inr (List.append_nil l).symm)
  shortest := by
    intro q hq hne hfilled
    rw [List.length_take]
    apply Nat.le_of_not_lt
    intro hlt
    rcases hfilled with hlast | hfull | rfl
    · have hfront : q <+: l.dropLast := by
        apply List.prefix_of_prefix_length_le hq
        · exact (List.dropLast_prefix l).trans (List.prefix_append l rest)
        · rw [List.length_dropLast]
          omega
      exact h.not_mem_dropLast (hfront.subset (List.mem_of_getLast? hlast))
    · omega
    · rw [List.length_append] at hlt
      omega

theorem unique (h : FillsBuffer room t p) (h' : FillsBuffer room t q) : p = q := by
  have hle := h.shortest q h'.isPrefix h'.ne_nil h'.filled
  have hge := h'.shortest p h.isPrefix h.ne_nil h.filled
  exact (List.prefix_of_prefix_length_le h.isPrefix h'.isPrefix hle).eq_of_length_le hge

end FillsBuffer

namespace BufferReads

variable {room : Nat} {t : Text} {ps qs : List Text}

theorem unique (h : BufferReads room t ps) (h' : BufferReads room t qs) : ps = qs := by
  induction h generalizing qs with
  | nil =>
      cases h' with
      | nil => rfl
      | cons hq _ => exact absurd (List.prefix_nil.1 hq.isPrefix) hq.ne_nil
  | cons hp _ ih =>
      cases h' with
      | nil => exact absurd (List.prefix_nil.1 hp.isPrefix) hp.ne_nil
      | cons hq hqs =>
          cases hp.unique hq
          rw [ih hqs]

theorem lines (hroom : 0 < room) (t : Text) :
    BufferReads room t ((Text.lines t).flatMap (pieces room)) := by
  induction hn : t.length using Nat.strongRecOn generalizing t with
  | _ n ih =>
      by_cases ht : t = []
      · subst ht
        exact .nil
      · obtain ⟨l, rest, rfl, hl⟩ := Text.exists_isLine ht
        have hfills := FillsBuffer.of_isLine hroom hl
        have hdrop : (l ++ rest).drop (l.take room).length = l.drop room ++ rest := by
          have hleft : (l.take room ++ (l.drop room ++ rest)).drop (l.take room).length =
              l.drop room ++ rest := List.drop_left
          rwa [← List.append_assoc, List.take_append_drop] at hleft
        have hshorter : (l.drop room ++ rest).length < n := by
          have hpos := List.length_pos_iff.2 hfills.ne_nil
          have hle := hfills.isPrefix.length_le
          rw [← hdrop, List.length_drop]
          omega
        rw [Text.flatMap_pieces_of_isLine hroom hl, ← hdrop]
        exact .cons hfills (ih _ (hdrop ▸ hshorter) _ rfl)

end BufferReads

theorem fragments_are_buffer_reads (c : Calculator) (console : Console)
    (hconsole : console.isInteractive = false) :
    ∃ fs, fragments c.size console.lines = .ok fs ∧
      ((c.withPolicy .proceed).readLines console.lines).entries = fs.map Entry.ofFragment ∧
      (∀ ps, BufferReads (c.size - 1) (Text.unifyBreaks console.stdin) ps ↔ ps = fs) ∧
      fs.flatten = Text.unifyBreaks console.stdin ∧
      ∀ front line back, Text.unifyBreaks console.stdin = front ++ (line ++ back) →
        (front = [] ∨ front.getLast? = some '\n') → IsLine line back →
        line.length ≤ c.size - 1 →
        ∃ before after, fs = before ++ line :: after ∧ before.flatten = front ∧
          after.flatten = back := by
  have hsize := c.two_le_size
  have hroom : 0 < c.size - 1 := by omega
  have hlines : console.lines = Text.lines (Text.unifyBreaks console.stdin) := by
    rw [Console.lines, hconsole]
    rfl
  have hreads := BufferReads.lines hroom (Text.unifyBreaks console.stdin)
  refine ⟨console.lines.flatMap c.cut, c.fragments_eq _,
    Calculator.entries_readLines_proceed rfl _, ?_, ?_, ?_⟩
  · intro ps
    rw [hlines]
    constructor
    · intro hps
      exact hps.unique hreads
    · rintro rfl
      exact hreads
  · rw [hlines]
    exact (flatten_flatMap_pieces hroom _).trans (Text.flatten_lines _)
  · intro front line back ht hfront hline hfits
    have hsplit : console.lines = Text.lines front ++ line :: Text.lines back := by
      rw [hlines, ht, Text.lines_append hfront, Text.lines_of_isLine hline]
    refine ⟨(Text.lines front).flatMap c.cut, (Text.lines back).flatMap c.cut, ?_, ?_, ?_⟩
    · have hwhole : c.cut line = [line] := pieces_of_length_le hroom hline.ne_nil hfits
      rw [hsplit, List.flatMap_append, List.flatMap_cons, hwhole, List.singleton_append]
    · exact (flatten_flatMap_pieces hroom _).trans (Text.flatten_lines _)
    · exact (flatten_flatMap_pieces hroom _).trans (Text.flatten_lines _)

theorem buffer_reads_of_mixed_breaks :
    let console : Console := ⟨"12+34\r\n5\r(6)*7".toList, false, true, [], .endOfInput⟩
    console.isInteractive = false ∧
    ((Calculator.mk .proceed 6 [] (by decide)).readLines console.lines).entries =
      ["12+34".toList, "\n".toList, "5\n".toList, "(6)*7".toList].map Entry.ofFragment ∧
    BufferReads 5 "12+34\n5\n(6)*7".toList
      ["12+34".toList, "\n".toList, "5\n".toList, "(6)*7".toList] := by
  intro console
  have hconsole : console.isInteractive = false := rfl
  have hfs : fragments 6 console.lines =
      .ok ["12+34".toList, "\n".toList, "5\n".toList, "(6)*7".toList] := by
    decide +kernel
  obtain ⟨fs, hall, hentries, hreads, -⟩ :=
    fragments_are_buffer_reads ⟨.proceed, 6, [], by decide⟩ console hconsole
  cases hfs.symm.trans hall
  exact ⟨hconsole, hentries, (hreads _).2 rfl⟩

end LineCalculator
