import LineCalculator.Proofs.Coherence
import LineCalculator.Proofs.SettledFailure
import LineCalculator.Proofs.Taken

namespace LineCalculator

namespace Lexed

variable {line : Text} {limit : Int} {front rest : List Lexeme}

def symbolsBefore (l : Lexed) (position : Nat) : List Symbol :=
  (l.lexemes.filter fun x => x.start < position).map Lexeme.symbol

theorem symbolsBefore_lookahead {l : Lexed}
    (h : l.scanned.Pairwise fun a b => a.start < b.start) (hl : l.lexemes = front ++ rest) :
    l.symbolsBefore (l.lookahead rest).start = front.map Lexeme.symbol := by
  obtain ⟨hfront, hrest⟩ := start_lookahead_of_append h hl
  have htaken : front.filter (fun x => x.start < (l.lookahead rest).start) = front :=
    List.filter_eq_self.2 fun x hx => decide_eq_true (hfront x hx)
  have hleft : rest.filter (fun x => x.start < (l.lookahead rest).start) = [] :=
    List.filter_eq_nil_iff.2 fun x hx => by simpa using hrest x hx
  rw [symbolsBefore, hl, List.filter_append, htaken, hleft, List.append_nil]

theorem ofText_behind_gap (offset : Nat) (t : Text) :
    ofText (offset + (Found.ofText t).gap) (t.drop (Found.ofText t).gap) = ofText offset t := by
  obtain ⟨gap, u, rfl, hgap, -⟩ := t.exists_blanks_append
  rw [hgap, List.drop_left, ofText_blanks_append]

theorem fromOffset_lookahead {offset : Nat} {xs : List Lexeme}
    (h : xs <:+ (fromOffset line offset).lexemes) :
    fromOffset line ((fromOffset line offset).lookahead xs).start =
      ⟨xs, (fromOffset line offset).ending, (fromOffset line offset).offset⟩ := by
  have hbehind := ofText_behind_gap offset (line.drop offset)
  rw [List.drop_drop, ← fromOffset, ← fromOffset] at hbehind
  cases htoken : (Found.ofText (line.drop offset)).token with
  | ending e =>
      have hfirst : fromOffset line offset =
          ⟨[], e, offset + (Found.ofText (line.drop offset)).gap⟩ := ofText_of_ending htoken
      rw [hfirst] at h hbehind ⊢
      cases List.suffix_nil.1 h
      exact hbehind
  | symbol x =>
      have hpos := Found.width_pos htoken
      have hle := Found.gap_add_width_le (line.drop offset)
      let start := offset + (Found.ofText (line.drop offset)).gap
      let l := fromOffset line (start + (Found.ofText (line.drop offset)).width)
      have hfirst : fromOffset line offset = { l with lexemes :=
          ⟨x, start, start + (Found.ofText (line.drop offset)).width⟩ :: l.lexemes } := by
        rw [fromOffset, ofText_of_symbol htoken]
        simp only [List.drop_drop, ← Nat.add_assoc]
        rfl
      rw [hfirst] at h hbehind ⊢
      -- Either nothing has been taken yet, or what is left is found from behind the first token.
      rcases List.suffix_cons_iff.1 h with rfl | h
      · exact hbehind
      · exact fromOffset_lookahead h
termination_by line.length - offset
decreasing_by
  rw [List.length_drop] at hle
  omega

theorem read_of_evaluate_ok {l : Lexed} {v : Float} (h : (l.evaluate limit).result = .ok v) :
    (l.read (.whole limit) l.lexemes).result = .ok v := by
  cases hread : (l.read (.whole limit) l.lexemes).result with
  | error f =>
      rw [evaluate_of_error hread, hread] at h
      cases h
  | ok w =>
      simp only [evaluate, hread] at h
      split at h
      · rwa [hread] at h
      · cases h

end Lexed

theorem Reply.ok_of_ofResult {result : Except Failure Float} {v : Float}
    (h : ofResult result = .value v) : result = .ok v := by
  cases result with
  | ok w =>
      cases h
      rfl
  | error f => cases h

namespace Reading

variable {line : Text} {limit : Int} {s : Scanned} {depth : Nat}

def standing (line : Text) (limit : Int) (s : Scanned) (depth : Nat) : Reading :=
  let l := Lexed.fromOffset line s.start
  ⟨l, limit, some l.lexemes, depth⟩

theorem seen_standing (hs : scan line s.start = s) :
    (standing line limit s depth).seen? = some s := by
  have hfound := scan_foundFrom line s.start
  rw [hs] at hfound
  have hlength := Nat.le_trans hfound.start_le hfound.stop_le
  simp only [seen?, standing, Option.map_some, Lexed.lookahead_fromOffset hlength, hs]

theorem Follows.perform_read {r : Reading} (h : r.Follows line limit) (hs : r.seen? = some s)
    (goal : Goal) :
    let r' := r.perform (.read goal)
    let r'' := (standing line limit s r.depth).perform (.read goal)
    r'.1 = r''.1 ∧ r'.2.seen? = r''.2.seen? ∧ r'.2.depth = r''.2.depth := by
  obtain ⟨hlexed, hlimit, ⟨xs, hxs, hsuffix⟩, -⟩ := h
  have hseen : (Lexed.ofLine line).lookahead xs = s := by
    rw [seen?, hxs, hlexed] at hs
    exact Option.some.inj hs
  have hfrom : Lexed.fromOffset line s.start = { Lexed.ofLine line with lexemes := xs } := by
    rw [← hseen]
    exact Lexed.fromOffset_lookahead hsuffix
  obtain ⟨lexed, limit', rest, depth⟩ := r
  cases hlexed
  cases hlimit
  cases hxs
  rw [standing, hfrom]
  exact ⟨rfl, rfl, rfl⟩

theorem depth_of_evaluate (line : Text) (limit : Int) (rest : Option (List Lexeme)) (depth : Nat) :
    let r := (Reading.mk (.ofLine line) limit rest depth).perform .evaluate
    (r.2.depth : Int) = openCount ((Lexed.ofLine line).symbolsBefore r.2.position) ∧
      ∀ v, r.1 = .value v → r.2.depth = 0 := by
  intro r
  let l := Lexed.ofLine line
  let task := Task.whole limit
  obtain ⟨front, hl, hdepth⟩ := task.exists_taken l.ending l.offset .initial l.lexemes
  have hrun : r.2.depth = (l.read task l.lexemes).depth := l.depth_evaluate limit
  have hbefore : l.symbolsBefore r.2.position = front.map Lexeme.symbol := by
    have hposition : r.2.position = (l.lookahead (l.read task l.lexemes).rest).start :=
      congrArg (fun rest => (l.lookahead rest).start) (l.rest_evaluate limit)
    rw [hposition]
    exact Lexed.symbolsBefore_lookahead (Lexed.pairwise_scanned_ofLine line) hl
  constructor
  · rw [hbefore, hrun]
    exact hdepth.trans (Int.zero_add _)
  · intro v hv
    have hok := Lexed.read_of_evaluate_ok (Reply.ok_of_ofResult hv)
    obtain ⟨-, -, -, -, -, -, hclosed⟩ := Task.exists_passes_of_ok hok
    exact hrun.trans hclosed

theorem depth_of_read (line : Text) (limit : Int) (s : Scanned) (depth : Nat) (goal : Goal) :
    let r := (standing line limit s depth).perform (.read goal)
    let consumed := (Lexed.fromOffset line s.start).symbolsBefore r.2.position
    (r.2.depth : Int) = depth + openCount consumed ∧ depth ≤ r.2.depth ∧
      ∀ v, r.1 = .value v → r.2.depth = depth ∧
        ∃ p : Phrase goal, p.symbols = consumed ∧ p.value? = some v := by
  intro r consumed
  let l := Lexed.fromOffset line s.start
  let task : Task := ⟨goal, limit, depth⟩
  have hconsumed {front} (hl : l.lexemes = front ++ (l.read task l.lexemes).rest) :
      consumed = front.map Lexeme.symbol :=
    Lexed.symbolsBefore_lookahead (Lexed.start_scanned_ofText _ _).2 hl
  refine ⟨?_, task.outer_le_depth_run l.ending l.offset .initial l.lexemes, ?_⟩
  · obtain ⟨front, hl, hdepth⟩ := task.exists_taken l.ending l.offset .initial l.lexemes
    rw [hconsumed hl]
    exact hdepth
  · intro v hv
    obtain ⟨front, level, product, hl, hpasses, rfl, hdepth⟩ :=
      Task.exists_passes_of_ok (Reply.ok_of_ofResult hv)
    refine ⟨hdepth, ?_⟩
    rw [hconsumed hl]
    exact Task.exists_phrase_of_passes hpasses

theorem depth_counts_open_groups (line : Text) (limit : Int) :
    (∀ rest depth,
      let r := (Reading.mk (.ofLine line) limit rest depth).perform .evaluate
      (r.2.depth : Int) = openCount ((Lexed.ofLine line).symbolsBefore r.2.position) ∧
        ∀ v, r.1 = .value v → r.2.depth = 0) ∧
    ∀ (s : Scanned) (depth : Nat) (goal : Goal), scan line s.start = s →
      (standing line limit s depth).seen? = some s ∧
      let r := (standing line limit s depth).perform (.read goal)
      let consumed := (Lexed.fromOffset line s.start).symbolsBefore r.2.position
      (∀ v, r.1 = .value v → r.2.depth = depth ∧
        ∃ p : Phrase goal, p.symbols = consumed ∧ p.value? = some v) ∧
      ∀ f, r.1 = .failure f →
        (r.2.depth : Int) - depth = openCount consumed ∧ 0 ≤ openCount consumed := by
  refine ⟨depth_of_evaluate line limit, fun s depth goal hs => ⟨seen_standing hs, ?_⟩⟩
  intro r consumed
  obtain ⟨hcount, hle, hvalue⟩ := depth_of_read line limit s depth goal
  have hopen : (r.2.depth : Int) - depth = openCount consumed :=
    Int.sub_eq_iff_eq_add'.2 hcount
  have hmore : (0 : Int) ≤ r.2.depth - depth := Int.sub_nonneg_of_le (Int.ofNat_le.2 hle)
  exact ⟨hvalue, fun _ _ => ⟨hopen, hopen ▸ hmore⟩⟩

theorem depth_counts_open_groups_behind_operator :
    let line := "7*(((2-1)/0".toList
    let s : Scanned := ⟨.symbol .lparen, 3, 4⟩
    let r := (standing line 9 s 1).perform (.read .factor)
    scan line s.start = s ∧ r.1 = .failure ⟨.divisionByZero, 10⟩ ∧
      (r.2.depth : Int) - 1 = openCount ((Lexed.fromOffset line 3).symbolsBefore r.2.position) ∧
      r.2.depth = 2 := by
  intro line s r
  have hs : scan line s.start = s := by decide +kernel
  have hfails : r.1 = .failure ⟨.divisionByZero, 10⟩ := by decide +kernel
  obtain ⟨-, -, hfailure⟩ := (depth_counts_open_groups line 9).2 s 1 .factor hs
  have hdepth : r.2.depth = 2 := by decide +kernel
  exact ⟨hs, hfails, (hfailure _ hfails).1, hdepth⟩

end Reading

end LineCalculator
