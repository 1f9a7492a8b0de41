import LineCalculator.Proofs.Passage
import LineCalculator.Proofs.Walk
import LineCalculator.Reading

namespace LineCalculator

namespace Task

variable {task : Task} {s s' : State} {x : Lexeme}

theorem depth_le_of_takes (h : task.Takes s x s') (hs : (task.depth s : Int) ≤ max task.limit 0) :
    (task.depth s' : Int) ≤ max task.limit 0 := by
  cases h with
  | number => exact hs
  | lparen hx hlimit =>
      simp only [depth, List.length_cons] at hlimit ⊢
      omega
  | additive => exact hs
  | multiplicative => exact hs
  | rparen hx hp =>
      simp only [depth, List.length_cons] at hs ⊢
      omega

theorem depth_le_of_dividesByZero {q : Nat} (h : DividesByZero s x q s')
    (hs : (task.depth s : Int) ≤ max task.limit 0) : (task.depth s' : Int) ≤ max task.limit 0 := by
  cases h with
  | number => exact hs
  | rparen hx hp =>
      simp only [depth, List.length_cons] at hs ⊢
      omega

theorem depth_run_le (task : Task) (ending : Ending) (offset : Nat) (s : State) (xs : List Lexeme)
    (hs : (task.depth s : Int) ≤ max task.limit 0) :
    ((task.run ending offset s xs).depth : Int) ≤ max task.limit 0 := by
  induction xs generalizing s with
  | nil => exact hs
  | cons x xs ih =>
      cases h : task.step s x with
      | next s' =>
          rw [run_append_of_next h]
          exact ih s' (depth_le_of_takes (takes_of_next h) hs)
      | done v => simpa only [run, h] using hs
      | fail f => simpa only [run, h] using hs
      | failPast f s' =>
          obtain ⟨q, -, hq⟩ := dividesByZero_of_failPast h
          simpa only [run, h] using depth_le_of_dividesByZero hq hs

end Task

namespace Lexed

variable {l : Lexed}

theorem rest_suffix_evaluate (l : Lexed) (limit : Int) :
    (l.evaluate limit).rest <:+ l.lexemes := by
  rw [rest_evaluate]
  exact Task.rest_suffix_run _ _ _ _ l.lexemes

theorem depth_evaluate_le (l : Lexed) (limit : Int) :
    ((l.evaluate limit).depth : Int) ≤ max limit 0 := by
  rw [depth_evaluate]
  exact Task.depth_run_le ⟨.expression, limit, 0⟩ _ _ _ _ (Int.le_max_right ..)

def fromOffset (line : Text) (offset : Nat) : Lexed :=
  ofText offset (line.drop offset)

theorem exists_walk_of_suffix {line : Text} {offset : Nat} {xs : List Lexeme}
    (ho : offset ≤ line.length) (h : xs <:+ (fromOffset line offset).lexemes) :
    ∃ cursor : Int, walk line (xs.length + 1) cursor =
      xs.map Lexeme.scanned ++ [(fromOffset line offset).lookahead []] := by
  obtain ⟨front, hfront⟩ := h
  have hscanned : (fromOffset line offset).scanned =
      walk line ((fromOffset line offset).lexemes.length + 1) offset := scanned_ofText ho rfl
  rw [scanned, ← hfront, List.map_append, List.append_assoc] at hscanned
  obtain ⟨cursor, hwalk⟩ := exists_walk_of_append hscanned.symm
  refine ⟨cursor, ?_⟩
  simpa [lookahead] using hwalk.symm

theorem lookahead_fromOffset {line : Text} {offset : Nat} (ho : offset ≤ line.length) :
    (fromOffset line offset).lookahead (fromOffset line offset).lexemes = scan line offset := by
  have hscanned : (fromOffset line offset).scanned =
      walk line ((fromOffset line offset).lexemes.length + 1) offset := scanned_ofText ho rfl
  rw [walk_succ] at hscanned
  cases hlexemes : (fromOffset line offset).lexemes with
  | nil =>
      rw [scanned, hlexemes] at hscanned
      exact (List.cons.inj hscanned).1
  | cons x xs =>
      rw [scanned, hlexemes] at hscanned
      exact (List.cons.inj hscanned).1

def Shows (l : Lexed) (line : Text) : Prop :=
  ∀ xs, xs <:+ l.lexemes → ∃ cursor : Int, scan line cursor = l.lookahead xs ∧
    scan line (scan line cursor).stop = l.lookahead xs.tail

theorem shows_fromOffset {line : Text} {offset : Nat} (ho : offset ≤ line.length) :
    (fromOffset line offset).Shows line := by
  intro xs h
  obtain ⟨cursor, hwalk⟩ := exists_walk_of_suffix ho h
  refine ⟨cursor, ?_⟩
  cases xs with
  | nil =>
      have hscan : scan line cursor = (fromOffset line offset).lookahead [] :=
        (List.cons.inj hwalk).1
      exact ⟨hscan, by rw [scan_stop_of_ending (by rw [hscan]; rfl), hscan]; rfl⟩
  | cons x xs =>
      obtain ⟨hscan, hrest⟩ := List.cons.inj hwalk
      refine ⟨hscan, ?_⟩
      cases xs with
      | nil => exact (List.cons.inj hrest).1
      | cons y xs => exact (List.cons.inj hrest).1

theorem shows_ofLine (line : Text) : (ofLine line).Shows line :=
  shows_fromOffset (Nat.zero_le line.length)

end Lexed

namespace Reading

/-- A reading shows the token that a scan from its position finds, and moves on to the one that a
scan from its cursor finds. -/
structure Coherent (line : Text) (limit : Int) (r : Reading) : Prop where
  position_le_cursor : r.position ≤ r.cursor
  cursor_le_length : r.cursor ≤ line.length
  scan_position : ∃ t, r.lookahead? = some t ∧ scan line r.position = ⟨t, r.position, r.cursor⟩
  scan_cursor : r.advance.seen? = some (scan line r.cursor)
  depth_le : (r.depth : Int) ≤ max limit 0
  position_of_endOfLine : r.lookahead? = some (.ending .endOfLine) → r.position = line.length
  position_of_invalid : ∀ c, r.lookahead? = some (.ending (.invalid c)) →
    r.position = r.cursor ∧ r.cursor < line.length ∧ (line)[r.position]? = some c

structure Follows (line : Text) (limit : Int) (r : Reading) : Prop where
  lexed_eq : r.lexed = .ofLine line
  limit_eq : r.limit = limit
  rest_suffix : ∃ xs, r.rest = some xs ∧ xs <:+ (Lexed.ofLine line).lexemes
  depth_le : (r.depth : Int) ≤ max limit 0

variable {line : Text} {limit : Int} {r : Reading}

theorem Follows.coherent (h : r.Follows line limit) : r.Coherent line limit := by
  obtain ⟨hlexed, hlimit, ⟨xs, hxs, hsuffix⟩, hdepth⟩ := h
  obtain ⟨cursor, hscan, hnext⟩ := Lexed.shows_ofLine line xs hsuffix
  have hseen : r.seen? = some (scan line cursor) := by
    rw [seen?, hxs, hlexed, hscan]
    rfl
  have hlookahead : r.lookahead? = some (scan line cursor).token := by rw [lookahead?, hseen]; rfl
  have hposition : r.position = (scan line cursor).start := by rw [position, hseen]; rfl
  have hcursor : r.cursor = (scan line cursor).stop := by rw [Reading.cursor, hseen]; rfl
  have hfound := scan_foundFrom line cursor
  constructor
  case position_le_cursor =>
    rw [hposition, hcursor]
    exact hfound.start_le
  case cursor_le_length =>
    rw [hcursor]
    exact hfound.stop_le
  case scan_position => exact ⟨_, hlookahead, by rw [hposition, hcursor, scan_start]⟩
  case scan_cursor =>
    rw [hcursor, hnext, seen?, advance, hxs, hlexed]
    rfl
  case depth_le => exact hdepth
  case position_of_endOfLine =>
    intro hend
    rw [hlookahead] at hend
    rw [hposition]
    exact (hfound.ending _ (Option.some.inj hend)).2
  case position_of_invalid =>
    intro c hinvalid
    rw [hlookahead] at hinvalid
    obtain ⟨hstop, hc, -⟩ := hfound.ending _ (Option.some.inj hinvalid)
    rw [hposition, hcursor, hstop]
    exact ⟨rfl, (List.getElem?_eq_some_iff.1 hc).1, hc⟩

theorem Follows.settle (h : r.Follows line limit) {o : Outcome}
    (hrest : o.rest <:+ (Lexed.ofLine line).lexemes) (hdepth : (o.depth : Int) ≤ max limit 0) :
    (r.settle o).2.Follows line limit :=
  ⟨h.lexed_eq, h.limit_eq, ⟨o.rest, rfl, hrest⟩, hdepth⟩

theorem follows_of_first {first : Action} (h : first = .advance ∨ first = .evaluate) :
    ((ofLine line limit).perform first).2.Follows line limit := by
  rcases h with rfl | rfl
  · exact ⟨rfl, rfl, ⟨_, rfl, List.suffix_rfl⟩, Int.le_max_right ..⟩
  · exact ⟨rfl, rfl, ⟨_, rfl, Lexed.rest_suffix_evaluate _ limit⟩, Lexed.depth_evaluate_le _ limit⟩

theorem Follows.perform (h : r.Follows line limit) (a : Action) :
    (r.perform a).2.Follows line limit := by
  obtain ⟨hlexed, hlimit, ⟨xs, hxs, hsuffix⟩, hdepth⟩ := id h
  cases a with
  | advance =>
      refine ⟨hlexed, hlimit, ⟨xs.tail, ?_, (List.tail_suffix xs).trans hsuffix⟩, hdepth⟩
      simp [Reading.perform, advance, hxs]
  | evaluate =>
      rw [Reading.perform, hlexed, hlimit]
      exact h.settle (Lexed.rest_suffix_evaluate _ limit) (Lexed.depth_evaluate_le _ limit)
  | read goal =>
      have hremaining : r.remaining = xs := by
        rw [remaining, hxs]
        rfl
      rw [Reading.perform, hlexed, hlimit, hremaining]
      refine h.settle ?_ ?_
      · exact (Task.rest_suffix_run _ _ _ _ xs).trans hsuffix
      · exact Task.depth_run_le ⟨goal, limit, r.depth⟩ _ _ .initial xs hdepth
  | complain complaint => exact h

theorem Follows.performAll (h : r.Follows line limit) (actions : List Action) :
    ∀ step ∈ r.performAll actions, step.2.Follows line limit := by
  induction actions generalizing r with
  | nil =>
      intro step hstep
      cases hstep
  | cons a actions ih =>
      intro step hstep
      rcases List.mem_cons.1 hstep with rfl | hstep
      · exact h.perform a
      · exact ih (h.perform a) step hstep

theorem coherent_after_every_step (line : Text) (limit : Int) (first : Action)
    (actions : List Action) (hfirst : first = .advance ∨ first = .evaluate) :
    ∀ step ∈ (ofLine line limit).performAll (first :: actions), step.2.Coherent line limit := by
  have hbegun : ((ofLine line limit).perform first).2.Follows line limit := follows_of_first hfirst
  intro step hstep
  rcases List.mem_cons.1 hstep with rfl | hstep
  · exact hbegun.coherent
  · exact (hbegun.performAll actions step hstep).coherent

theorem coherent_behind_failed_group :
    (Action.evaluate = .advance ∨ Action.evaluate = .evaluate) ∧
    (∀ step ∈ (ofLine "(1/0)$".toList 1).performAll
      [.evaluate, .read .factor, .advance, .complain "Unexpected token".toList],
      step.2.Coherent "(1/0)$".toList 1) ∧
    (((ofLine "(1/0)$".toList 1).perform .evaluate).2.depth = 1) := by
  refine ⟨Or.inr rfl, coherent_after_every_step _ 1 .evaluate _ (Or.inr rfl), ?_⟩
  decide +kernel

end Reading

end LineCalculator
