import LineCalculator.Proofs.TokenOrder

namespace LineCalculator

def Ending.StandsAt (t : Text) (i : Nat) : Ending → Prop
  | .endOfLine => i = t.length
  | .invalid c => t[i]? = some c ∧ Text.isBlank c = false ∧ c.isDigit = false ∧ c ≠ '.' ∧
      c ∉ ['+', '-', '*', '/', '(', ')']

structure Scanned.FoundFrom (t : Text) (offset : Nat) (s : Scanned) : Prop where
  offset_le : offset ≤ s.start
  start_le : s.start ≤ s.stop
  stop_le : s.stop ≤ t.length
  blank : ∀ i, offset ≤ i → i < s.start → ∃ c, t[i]? = some c ∧ Text.isBlank c = true
  symbol : ∀ x, s.token = .symbol x → s.start < s.stop
  ending : ∀ e, s.token = .ending e → s.stop = s.start ∧ e.StandsAt t s.start

/-- Each scan begins where the one before stopped. Behind an ending all are the same. -/
inductive Follow (line : Text) : Nat → List Scanned → Prop
  | nil (offset : Nat) : Follow line offset []
  | cons {offset : Nat} {s : Scanned} {ss : List Scanned} :
      s.FoundFrom line offset → (∀ e, s.token = .ending e → ∀ t ∈ ss, t = s) →
      Follow line s.stop ss → Follow line offset (s :: ss)

def stretches : Nat → List Scanned → List (Nat × Nat)
  | _, [] => []
  | offset, s :: ss => (offset, s.start) :: (s.start, s.stop) :: stretches s.stop ss

structure Lexed.Partitions (l : Lexed) (line : Text) : Prop where
  scanned_eq : l.scanned = walk line l.tokens.length 0
  tokens_eq : l.tokens = l.scanned.map (·.token)
  length_le : l.tokens.length ≤ line.length + 1
  ends_once : ∃ (xs : List Symbol) (e : Ending), l.tokens = xs.map Token.symbol ++ [.ending e]
  covers : ∀ i, (stretches 0 l.scanned).countP (fun p => p.1 ≤ i && i < p.2) =
    if i < l.offset then 1 else 0

section Front

variable {t : Text} {c : Char}

theorem Symbol.not_mem_of_ofChar? (h : ofChar? c = none) :
    c ∉ ['+', '-', '*', '/', '(', ')'] := by
  intro hc
  simp only [List.mem_cons, List.not_mem_nil, or_false] at hc
  rcases hc with rfl | rfl | rfl | rfl | rfl | rfl <;> cases h

theorem Token.front_invalid (h : (Token.front t).1 = .ending (.invalid c)) :
    t.head? = some c ∧ Numeral.begins c = false ∧ Symbol.ofChar? c = none := by
  cases t with
  | nil => cases h
  | cons d t =>
      simp only [front] at h
      split at h
      · cases h
      · rename_i hbegins
        split at h
        · cases h
        · rename_i hsymbol
          cases h
          exact ⟨rfl, eq_false_of_ne_true hbegins, hsymbol⟩

theorem drop_blankCount (t : Text) : t.drop (blankCount t) = Text.trimStart t := by
  have h := congrArg (List.drop (blankCount t)) (Text.takeWhile_isBlank_append_trimStart t)
  rw [blankCount, List.drop_left] at h
  exact h.symm

theorem isBlank_of_lt_blankCount {i : Nat} (h : i < blankCount t) :
    ∃ c, t[i]? = some c ∧ Text.isBlank c = true := by
  have hi : i < (t.takeWhile Text.isBlank).length := h
  have hc : (t.takeWhile Text.isBlank ++ Text.trimStart t)[i]? =
      some (t.takeWhile Text.isBlank)[i] := by
    rw [List.getElem?_append_left hi, List.getElem?_eq_getElem hi]
  rw [Text.takeWhile_isBlank_append_trimStart] at hc
  exact ⟨_, hc, List.all_eq_true.1 List.all_takeWhile _ (List.getElem_mem hi)⟩

theorem Text.isBlank_head_trimStart (h : (Text.trimStart t).head? = some c) :
    Text.isBlank c = false := by
  have hnot := List.head?_dropWhile_not isBlank t
  rw [trimStart] at h
  simpa [h] using hnot

theorem Text.trimStart_trimStart (t : Text) : trimStart (trimStart t) = trimStart t := by
  cases h : trimStart t with
  | nil => rfl
  | cons c u => exact trimStart_of_not_isBlank (isBlank_head_trimStart (by rw [h]; rfl))

end Front

namespace Found

variable {t : Text}

theorem standsAt_of_ending {e : Ending} (h : (ofText t).token = .ending e) :
    e.StandsAt t (ofText t).gap := by
  cases e with
  | endOfLine => exact gap_of_endOfLine h
  | invalid c =>
      obtain ⟨hhead, hbegins, hsymbol⟩ := Token.front_invalid h
      have hblank := Text.isBlank_head_trimStart hhead
      rw [← drop_blankCount, List.head?_drop] at hhead
      simp only [Numeral.begins, Bool.or_eq_false_iff, decide_eq_false_iff_not] at hbegins
      exact ⟨hhead, hblank, hbegins.1, hbegins.2, Symbol.not_mem_of_ofChar? hsymbol⟩

theorem width_of_ending {e : Ending} (h : (ofText t).token = .ending e) : (ofText t).width = 0 :=
  Token.front_snd_of_ending h

theorem ofText_drop_gap (t : Text) :
    ofText (t.drop (ofText t).gap) = ⟨0, (ofText t).token, (ofText t).width⟩ := by
  have hdrop : t.drop (ofText t).gap = Text.trimStart t := drop_blankCount t
  have htrim := Text.trimStart_trimStart t
  have hcount := blankCount_add_length_trimStart (Text.trimStart t)
  rw [htrim] at hcount
  have hgap : blankCount (Text.trimStart t) = 0 := by omega
  rw [hdrop]
  simp only [ofText, htrim, hgap]

end Found

section Scans

variable {line : Text} {cursor : Int} {offset : Nat}

theorem scan_of_le (h : offset ≤ line.length) :
    scan line offset = ⟨(Found.ofText (line.drop offset)).token,
      offset + (Found.ofText (line.drop offset)).gap,
      offset + (Found.ofText (line.drop offset)).gap + (Found.ofText (line.drop offset)).width⟩ := by
  rw [scan, clampCursor_of_le h]

theorem scan_eq_front (line : Text) (cursor : Int) :
    scan line cursor =
      ⟨(Token.front (line.drop (skipBlanks line cursor))).1, skipBlanks line cursor,
        skipBlanks line cursor + (Token.front (line.drop (skipBlanks line cursor))).2⟩ := by
  have hrest : line.drop (skipBlanks line cursor) =
      Text.trimStart (line.drop (clampCursor line.length cursor)) := by
    rw [skipBlanks, ← List.drop_drop, drop_blankCount]
  rw [hrest]
  rfl

theorem scan_clampCursor (line : Text) (cursor : Int) :
    scan line (clampCursor line.length cursor) = scan line cursor := by
  rw [scan_of_le (clampCursor_le ..)]
  rfl

theorem foundFrom_of_le (h : offset ≤ line.length) :
    (scan line offset).FoundFrom line offset := by
  have hle := Found.gap_add_width_le (line.drop offset)
  rw [List.length_drop] at hle
  rw [scan_of_le h]
  constructor
  case offset_le => exact Nat.le_add_right ..
  case start_le => exact Nat.le_add_right ..
  case stop_le =>
    simp only
    omega
  case blank =>
    intro i hi hstart
    obtain ⟨c, hc, hblank⟩ := isBlank_of_lt_blankCount (t := line.drop offset) (i := i - offset)
      (by simp only [Found.ofText] at hstart; omega)
    rw [List.getElem?_drop, Nat.add_sub_cancel' hi] at hc
    exact ⟨c, hc, hblank⟩
  case symbol =>
    intro x hx
    exact Nat.lt_add_of_pos_right (Found.width_pos hx)
  case ending =>
    intro e he
    have hstands := Found.standsAt_of_ending he
    refine ⟨by simp only [Found.width_of_ending he, Nat.add_zero], ?_⟩
    cases e with
    | endOfLine =>
        simp only [Ending.StandsAt, List.length_drop] at hstands ⊢
        omega
    | invalid c =>
        simp only [Ending.StandsAt, List.getElem?_drop] at hstands ⊢
        exact hstands

theorem scan_foundFrom (line : Text) (cursor : Int) :
    (scan line cursor).FoundFrom line (clampCursor line.length cursor) := by
  rw [← scan_clampCursor]
  exact foundFrom_of_le (clampCursor_le ..)

theorem scan_start (line : Text) (cursor : Int) :
    scan line (scan line cursor).start = scan line cursor := by
  have hfound := scan_foundFrom line cursor
  rw [scan_of_le (Nat.le_trans hfound.start_le hfound.stop_le)]
  have hrest : line.drop (scan line cursor).start =
      (line.drop (clampCursor line.length cursor)).drop
        (Found.ofText (line.drop (clampCursor line.length cursor))).gap := by
    rw [List.drop_drop]
    rfl
  simp only [hrest, Found.ofText_drop_gap]
  rfl

theorem scan_stop_of_ending {e : Ending} (h : (scan line cursor).token = .ending e) :
    scan line (scan line cursor).stop = scan line cursor := by
  rw [((scan_foundFrom line cursor).ending e h).1, scan_start]

theorem walk_succ (line : Text) (count : Nat) (cursor : Int) :
    walk line (count + 1) cursor =
      scan line cursor :: walk line count (scan line cursor).stop := rfl

theorem length_walk (line : Text) (count : Nat) (cursor : Int) :
    (walk line count cursor).length = count := by
  induction count generalizing cursor with
  | zero => rfl
  | succ count ih => rw [walk_succ, List.length_cons, ih]

theorem eq_of_mem_walk {s t : Scanned} (hs : scan line s.stop = s) {count : Nat}
    (ht : t ∈ walk line count s.stop) : t = s := by
  induction count with
  | zero => cases ht
  | succ count ih =>
      rw [walk_succ, hs] at ht
      rcases List.mem_cons.1 ht with rfl | ht
      · rfl
      · exact ih ht

theorem exists_walk_of_append {front back : List Scanned} {count : Nat}
    (h : walk line count cursor = front ++ back) :
    ∃ cursor' : Int, back = walk line back.length cursor' := by
  induction front generalizing count cursor with
  | nil =>
      rw [List.nil_append] at h
      have hlength := congrArg List.length h
      rw [length_walk] at hlength
      exact ⟨cursor, by rw [← hlength, h]⟩
  | cons s front ih =>
      cases count with
      | zero => cases h
      | succ count => exact ih (List.cons.inj h).2

theorem follow_walk (line : Text) (count : Nat) (cursor : Int) :
    Follow line (clampCursor line.length cursor) (walk line count cursor) := by
  induction count generalizing cursor with
  | zero => exact .nil _
  | succ count ih =>
      have hfound := scan_foundFrom line cursor
      refine .cons hfound ?_ ?_
      · intro e he t ht
        exact eq_of_mem_walk (scan_stop_of_ending he) ht
      · have hrest := ih (scan line cursor).stop
        rwa [clampCursor_of_le hfound.stop_le] at hrest

end Scans

section Stretches

def offsetBehind : Nat → List Scanned → Nat
  | offset, [] => offset
  | _, s :: ss => offsetBehind s.stop ss

theorem offsetBehind_append (offset : Nat) (ss ts : List Scanned) :
    offsetBehind offset (ss ++ ts) = offsetBehind (offsetBehind offset ss) ts := by
  induction ss generalizing offset with
  | nil => rfl
  | cons s ss ih => exact ih s.stop

theorem Follow.le_offsetBehind {line : Text} {offset : Nat} {ss : List Scanned}
    (h : Follow line offset ss) : offset ≤ offsetBehind offset ss := by
  induction h with
  | nil offset => exact Nat.le_refl offset
  | cons hs _ _ ih => exact Nat.le_trans (Nat.le_trans hs.offset_le hs.start_le) ih

theorem Follow.countP_stretches {line : Text} {offset : Nat} {ss : List Scanned}
    (h : Follow line offset ss) (i : Nat) :
    (stretches offset ss).countP (fun p => p.1 ≤ i && i < p.2) =
      if offset ≤ i ∧ i < offsetBehind offset ss then 1 else 0 := by
  induction h with
  | nil offset =>
      rw [if_neg (by simp only [offsetBehind]; omega)]
      rfl
  | @cons offset s ss hs _ hss ih =>
      have hstart := hs.offset_le
      have hstop := hs.start_le
      have hrest := hss.le_offsetBehind
      simp only [stretches, List.countP_cons, ih, offsetBehind, Bool.and_eq_true, decide_eq_true_eq]
      -- The two stretches of a token and all behind them meet, but do not overlap.
      grind

end Stretches

namespace Lexed

theorem length_lexemes_ofText (offset : Nat) (t : Text) :
    (ofText offset t).lexemes.length ≤ t.length := by
  induction offset, t using ofText_induction with
  | ending offset t e h => exact Nat.zero_le _
  | symbol offset t s l h ih =>
      have hpos := Found.width_pos h
      have hle := Found.gap_add_width_le t
      rw [List.length_drop] at ih
      rw [List.length_cons]
      omega

theorem scanned_ofText {line t : Text} {offset : Nat} (ho : offset ≤ line.length)
    (ht : t = line.drop offset) :
    (ofText offset t).scanned = walk line ((ofText offset t).lexemes.length + 1) offset := by
  induction offset, t using ofText_induction with
  | ending offset t e h =>
      subst ht
      simp [scanned, walk, scan_of_le ho, h, Found.width_of_ending h]
  | symbol offset t s l h ih =>
      subst ht
      have hle := Found.gap_add_width_le (line.drop offset)
      rw [List.length_drop] at hle
      have hrest := ih (by omega) (by rw [List.drop_drop, Nat.add_assoc])
      rw [scanned_cons, hrest, List.length_cons, walk_succ line (l.lexemes.length + 1),
        scan_of_le ho, h]
      rfl

theorem length_tokens (l : Lexed) : l.tokens.length = l.lexemes.length + 1 := by
  simp [tokens]

theorem tokens_eq_map_scanned (l : Lexed) : l.tokens = l.scanned.map (·.token) := by
  simp [tokens, scanned, Lexeme.scanned]

theorem scanned_ofLine (line : Text) :
    (ofLine line).scanned = walk line (ofLine line).tokens.length 0 := by
  rw [length_tokens]
  exact scanned_ofText (Nat.zero_le line.length) rfl

theorem mem_scanned_ofText {line : Text} {offset count : Nat} {s : Scanned}
    (ho : offset ≤ line.length) (hs : s ∈ walk line count offset) :
    s ∈ (ofText offset (line.drop offset)).scanned := by
  induction count generalizing offset with
  | zero => cases hs
  | succ count ih =>
      have hfound := foundFrom_of_le ho
      have hfirst := scanned_ofText ho rfl
      rw [walk_succ, List.mem_cons] at hs
      cases h : (Found.ofText (line.drop offset)).token with
      | ending e =>
          have hscan : (scan line offset).token = .ending e := by rw [scan_of_le ho, h]
          have hsame : s = scan line offset :=
            hs.elim id (eq_of_mem_walk (scan_stop_of_ending hscan))
          rw [hfirst, hsame]
          exact List.mem_cons_self
      | symbol x =>
          rcases hs with rfl | hs
          · rw [hfirst]
            exact List.mem_cons_self
          · have hrest := ih hfound.stop_le hs
            rw [ofText_of_symbol h, scanned_cons]
            refine List.mem_cons_of_mem _ ?_
            rw [scan_of_le ho] at hrest
            rwa [List.drop_drop, ← Nat.add_assoc]

theorem forall_mem_walk_iff {line : Text} {P : Scanned → Prop} :
    (∀ count, ∀ s ∈ walk line count 0, P s) ↔ ∀ s ∈ (ofLine line).scanned, P s := by
  constructor
  · intro h s hs
    rw [scanned_ofLine] at hs
    exact h _ s hs
  · intro h count s hs
    exact h s (mem_scanned_ofText (Nat.zero_le line.length) hs)

theorem offsetBehind_scanned (l : Lexed) (offset : Nat) :
    offsetBehind offset l.scanned = l.offset := by
  rw [scanned, offsetBehind_append]
  rfl

theorem ofLine_partitions (line : Text) : (ofLine line).Partitions line where
  scanned_eq := scanned_ofLine line
  tokens_eq := tokens_eq_map_scanned _
  length_le := by
    rw [length_tokens]
    exact Nat.succ_le_succ (length_lexemes_ofText 0 line)
  ends_once := ⟨(ofLine line).lexemes.map Lexeme.symbol, (ofLine line).ending, by simp [tokens]⟩
  covers := by
    intro i
    have hfollow := follow_walk line (ofLine line).tokens.length 0
    rw [← scanned_ofLine, show clampCursor line.length 0 = 0 by simp [clampCursor]] at hfollow
    simpa [offsetBehind_scanned] using hfollow.countP_stretches i

end Lexed

theorem walk_follows_and_lexing_partitions (line : Text) (cursor : Int) (count : Nat) :
    (walk line count cursor).length = count ∧
      Follow line (clampCursor line.length cursor) (walk line count cursor) ∧
      (Lexed.ofLine line).Partitions line :=
  ⟨length_walk line count cursor, follow_walk line count cursor, Lexed.ofLine_partitions line⟩

end LineCalculator
