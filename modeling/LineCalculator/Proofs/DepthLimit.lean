import LineCalculator.Proofs.Coherence
import LineCalculator.Proofs.Denotation

namespace LineCalculator

def openedBehind (opened : List Nat) (x : Lexeme) : List Nat :=
  match x.symbol with
  | .lparen => x.start :: opened
  | .rparen => opened.tail
  | _ => opened

def unclosed (xs : List Lexeme) : List Nat :=
  xs.foldl openedBehind []

def Failure.tooDeep (p : Nat) : Failure :=
  ⟨.nestingTooDeep, p⟩

theorem Cause.ofToken_ne_nestingTooDeep (complaint : Text) (t : Token) :
    ofToken complaint t ≠ .nestingTooDeep := by
  rcases t with x | ending
  · intro h
    cases h
  · cases ending <;> intro h <;> cases h

theorem State.finish_ne_tooDeep (s : State) (ending : Ending) (offset p : Nat) :
    s.finish ending offset ≠ .error (.tooDeep p) := by
  obtain ⟨level, groups, mode⟩ := s
  cases mode with
  | operand =>
      intro h
      have hcause := congrArg Failure.cause (Except.error.inj h)
      exact Cause.ofToken_ne_nestingTooDeep _ _ hcause
  | operator product => cases groups <;> intro h <;> cases h

namespace Task

def withLimit (task : Task) (limit : Int) : Task :=
  { task with limit := limit }

section Passing

variable {task : Task} {s s' : State} {x : Lexeme} {xs : List Lexeme} {p : Nat}

theorem opened_of_takes (h : task.Takes s x s') :
    s'.groups.map Group.opened = openedBehind (s.groups.map Group.opened) x := by
  cases h with
  | number hx _ => simp [openedBehind, hx]
  | lparen hx _ => simp [openedBehind, hx]
  | additive hx _ => simp [openedBehind, hx]
  | multiplicative hx _ => simp [openedBehind, hx]
  | rparen hx _ => simp [openedBehind, hx]

theorem Passes.opened (h : task.Passes s xs s') :
    s'.groups.map Group.opened = xs.foldl openedBehind (s.groups.map Group.opened) := by
  induction h with
  | nil s => rfl
  | cons hx _ ih => rw [List.foldl_cons, ih, opened_of_takes (takes_of_next hx)]

theorem Passes.depth_le (h : task.Passes s xs s') (hs : (task.depth s : Int) ≤ max task.limit 0) :
    (task.depth s' : Int) ≤ max task.limit 0 := by
  induction h with
  | nil s => exact hs
  | cons hx _ ih => exact ih (depth_le_of_takes (takes_of_next hx) hs)

theorem lparen_of_tooDeep (h : task.step s x = .fail (.tooDeep p)) :
    x.symbol = .lparen ∧ x.start = p ∧ task.limit ≤ task.depth s := by
  have hrefused := refuses_of_fail h
  rw [Failure.tooDeep] at hrefused
  cases hrefused with
  | deep hx hlimit => exact ⟨hx, rfl, hlimit⟩

theorem exists_of_run_tooDeep {ending : Ending} {offset : Nat}
    (h : (task.run ending offset s xs).result = .error (.tooDeep p)) :
    ∃ front x back s', xs = front ++ x :: back ∧ task.Passes s front s' ∧
      task.step s' x = .fail (.tooDeep p) := by
  induction xs generalizing s with
  | nil => exact absurd h (s.finish_ne_tooDeep ending offset p)
  | cons x xs ih =>
      cases hx : task.step s x with
      | next s' =>
          rw [run_append_of_next hx] at h
          obtain ⟨front, y, back, s'', rfl, hfront, hy⟩ := ih h
          exact ⟨x :: front, y, back, s'', rfl, .cons hx hfront, hy⟩
      | done v =>
          simp only [run, hx] at h
          cases h
      | fail f =>
          simp only [run, hx] at h
          cases h
          exact ⟨[], x, xs, s, rfl, .nil s, hx⟩
      | failPast f s' =>
          obtain ⟨q, rfl, -⟩ := dividesByZero_of_failPast hx
          simp only [run, hx] at h
          cases h

end Passing

section Larger

variable {task : Task} {limit : Int}

theorem step_lparen (task : Task) (level : Level) (groups : List Group) {x : Lexeme}
    (hx : x.symbol = .lparen) :
    task.step ⟨level, groups, .operand⟩ x =
      if task.limit ≤ task.depth ⟨level, groups, .operand⟩ then .fail (.tooDeep x.start)
      else .next ⟨.empty, ⟨x.start, level⟩ :: groups, .operand⟩ := by
  simp only [step, stepOperand, hx]
  rfl

theorem step_withLimit (h : task.limit ≤ limit) (s : State) (x : Lexeme) :
    (task.withLimit limit).step s x = task.step s x ∨ task.step s x = .fail (.tooDeep x.start) := by
  obtain ⟨level, groups, mode⟩ := s
  cases mode with
  | operator product => cases groups <;> exact Or.inl rfl
  | operand =>
      cases hx : x.symbol with
      | lparen =>
          rw [step_lparen _ level groups hx, step_lparen _ level groups hx]
          by_cases hlow : task.limit ≤ task.depth ⟨level, groups, .operand⟩
          · exact Or.inr (if_pos hlow)
          · have hhigh : ¬ (task.withLimit limit).limit ≤
                (task.withLimit limit).depth ⟨level, groups, .operand⟩ := by
              change ¬ limit ≤ task.depth ⟨level, groups, .operand⟩
              omega
            exact Or.inl (by rw [if_neg hlow, if_neg hhigh])
      | number v => exact Or.inl (by simp only [step, stepOperand, hx])
      | additive op => exact Or.inl (by simp only [step, stepOperand, hx])
      | multiplicative op => exact Or.inl (by simp only [step, stepOperand, hx])
      | rparen => exact Or.inl (by simp only [step, stepOperand, hx])

theorem run_withLimit (h : task.limit ≤ limit) (ending : Ending) (offset : Nat) (s : State)
    (xs : List Lexeme) :
    (task.withLimit limit).run ending offset s xs = task.run ending offset s xs ∨
    ∃ front x back s', xs = front ++ x :: back ∧ task.Passes s front s' ∧
      (task.withLimit limit).Passes s front s' ∧ task.step s' x = .fail (.tooDeep x.start) := by
  induction xs generalizing s with
  | nil => exact Or.inl rfl
  | cons x xs ih =>
      rcases step_withLimit h s x with hsame | hdeep
      · cases hx : task.step s x with
        | next s' =>
            rw [hx] at hsame
            rcases ih s' with hrun | ⟨front, y, back, s'', rfl, hfront, hfront', hy⟩
            · exact Or.inl (by rw [run_append_of_next hx, run_append_of_next hsame, hrun])
            · exact Or.inr ⟨x :: front, y, back, s'', rfl, .cons hx hfront, .cons hsame hfront', hy⟩
        | done v => exact Or.inl (by simp only [run, hsame, hx]; rfl)
        | fail f => exact Or.inl (by simp only [run, hsame, hx]; rfl)
        | failPast f s' => exact Or.inl (by simp only [run, hsame, hx]; rfl)
      · exact Or.inr ⟨[], x, xs, s, rfl, .nil s, .nil s, hdeep⟩

end Larger

end Task

namespace Lexed

variable {l : Lexed} {limit : Int} {p : Nat}

theorem result_tooDeep_iff : (l.evaluate limit).result = .error (.tooDeep p) ↔
    (l.read (.whole limit) l.lexemes).result = .error (.tooDeep p) := by
  cases h : (l.read (.whole limit) l.lexemes).result with
  | error f => rw [result_of_error h]
  | ok v =>
      refine iff_of_false ?_ (by simp)
      by_cases hend : (l.lookahead (l.read (.whole limit) l.lexemes).rest).token =
          .ending .endOfLine
      · simp [result_of_end h hend]
      · rw [result_of_rest h hend]
        intro heq
        have hcause := congrArg Failure.cause (Except.error.inj heq)
        exact Cause.ofToken_ne_nestingTooDeep _ _ hcause

theorem exists_of_evaluate_tooDeep (h : (l.evaluate limit).result = .error (.tooDeep p)) :
    ∃ front x back s, l.lexemes = front ++ x :: back ∧ (Task.whole limit).Passes .initial front s ∧
      (Task.whole limit).step s x = .fail (.tooDeep p) :=
  Task.exists_of_run_tooDeep (result_tooDeep_iff.1 h)

theorem evaluate_tooDeep {front back : List Lexeme} {x : Lexeme} {s : State}
    (hl : l.lexemes = front ++ x :: back) (hfront : (Task.whole limit).Passes .initial front s)
    (hx : (Task.whole limit).step s x = .fail (.tooDeep x.start)) :
    (l.evaluate limit).result = .error (.tooDeep x.start) := by
  rw [result_tooDeep_iff, read, hl, hfront.run_append]
  simp only [Task.run, hx]

theorem evaluate_of_limit_le {limit' : Int} (h : limit ≤ limit') :
    l.evaluate limit' = l.evaluate limit ∨
    ∃ front x back s, l.lexemes = front ++ x :: back ∧
      (Task.whole limit').Passes .initial front s ∧
      (l.evaluate limit).result = .error (.tooDeep x.start) := by
  have hlimit : (Task.whole limit).limit ≤ limit' := h
  rcases Task.run_withLimit hlimit l.ending l.offset .initial l.lexemes with
    hsame | ⟨front, x, back, s, hl, hfront, hfront', hx⟩
  · have hread : l.read (.whole limit') l.lexemes = l.read (.whole limit) l.lexemes := hsame
    exact Or.inl (by simp only [evaluate, hread])
  · exact Or.inr ⟨front, x, back, s, hl, hfront', evaluate_tooDeep hl hfront hx⟩

end Lexed

theorem start_le_of_mem {line : Text} {front back : List Lexeme} {x y : Lexeme}
    (hl : (Lexed.ofLine line).lexemes = front ++ x :: back) (hy : y ∈ x :: back) :
    x.start ≤ y.start := by
  have horder := Lexed.start_lookahead_of_append (Lexed.pairwise_scanned_ofLine line) hl
  exact Nat.not_lt.1 (horder.2 y hy)

theorem scan_start_of_lexemes {line : Text} {front back : List Lexeme} {x : Lexeme}
    (hl : (Lexed.ofLine line).lexemes = front ++ x :: back) :
    scan line x.start = x.scanned := by
  obtain ⟨cursor, hscan, -⟩ := Lexed.shows_ofLine line _ ⟨front, hl.symm⟩
  have hx : scan line cursor = x.scanned := hscan
  have hstart : x.start = (scan line cursor).start := by rw [hx]; rfl
  rw [hstart, scan_start, hx]

namespace Reading

def withLimit (r : Reading) (limit : Int) : Reading :=
  { r with limit := limit }

def evaluated (line : Text) (limit : Int) (before : List Action) : Reply × Reading :=
  ((ofLine line limit).after before).perform .evaluate

variable {line : Text} {before : List Action} {a b : Int}

theorem evaluated_eq (line : Text) (limit : Int) (before : List Action) :
    evaluated line limit before =
      (.ofResult ((Lexed.ofLine line).evaluate limit).result,
        ⟨.ofLine line, limit, some ((Lexed.ofLine line).evaluate limit).rest,
          ((Lexed.ofLine line).evaluate limit).depth⟩) := by
  obtain ⟨hlexed, hlimit⟩ := after_keeps (ofLine line limit) before
  rw [evaluated, perform, settle, hlexed, hlimit]
  rfl

theorem evaluated_failure_iff {f : Failure} :
    (evaluated line a before).1 = .failure f ↔
      ((Lexed.ofLine line).evaluate a).result = .error f := by
  rw [evaluated_eq]
  cases ((Lexed.ofLine line).evaluate a).result <;> simp [Reply.ofResult]

theorem evaluated_of_not_tooDeep (h : a ≤ b)
    (hdeep : ∀ p, (evaluated line a before).1 ≠ .failure (.tooDeep p)) :
    evaluated line b before =
      ((evaluated line a before).1, (evaluated line a before).2.withLimit b) := by
  rcases (Lexed.ofLine line).evaluate_of_limit_le h with hsame | ⟨-, x, -, -, -, -, hx⟩
  · rw [evaluated_eq, evaluated_eq, hsame]
    rfl
  · exact absurd (evaluated_failure_iff.2 hx) (hdeep x.start)

theorem exists_tooDeep_of_limit_le (h : a ≤ b) {q : Nat}
    (hq : (evaluated line b before).1 = .failure (.tooDeep q)) :
    ∃ p ≤ q, (evaluated line a before).1 = .failure (.tooDeep p) := by
  rw [evaluated_failure_iff] at hq
  rcases (Lexed.ofLine line).evaluate_of_limit_le h with hsame | ⟨front, x, back, s, hl, hfront, hx⟩
  · exact ⟨q, Nat.le_refl q, evaluated_failure_iff.2 (hsame ▸ hq)⟩
  · refine ⟨x.start, ?_, evaluated_failure_iff.2 hx⟩
    rw [Lexed.result_tooDeep_iff, Lexed.read, hl, hfront.run_append] at hq
    obtain ⟨front', y, back', s', hback, -, hy⟩ := Task.exists_of_run_tooDeep hq
    have hstart := (Task.lparen_of_tooDeep hy).2.1
    have hmem : y ∈ x :: back := by simp [hback]
    rw [← hstart]
    exact start_le_of_mem hl hmem

theorem lparen_of_evaluated_tooDeep {p : Nat}
    (h : (evaluated line a before).1 = .failure (.tooDeep p)) :
    ∃ front x back, (Lexed.ofLine line).lexemes = front ++ x :: back ∧ x.symbol = .lparen ∧
      x.start = p ∧ scan line p = x.scanned ∧ ((unclosed front).length : Int) = max a 0 := by
  obtain ⟨front, x, back, s, hl, hfront, hx⟩ :=
    Lexed.exists_of_evaluate_tooDeep (evaluated_failure_iff.1 h)
  obtain ⟨hsymbol, rfl, hlimit⟩ := Task.lparen_of_tooDeep hx
  refine ⟨front, x, back, hl, hsymbol, rfl, scan_start_of_lexemes hl, ?_⟩
  have hopened : s.groups.map Group.opened = unclosed front := hfront.opened
  have hlength : (unclosed front).length = s.groups.length := by rw [← hopened, List.length_map]
  have hdepth := hfront.depth_le (Int.le_max_right ..)
  simp only [Task.depth, Nat.zero_add] at hdepth hlimit
  omega

theorem evaluated_under_limits (line : Text) (before : List Action) {a b : Int} (h : a ≤ b) :
    ((∀ p, (evaluated line a before).1 ≠ .failure (.tooDeep p)) →
      evaluated line b before =
        ((evaluated line a before).1, (evaluated line a before).2.withLimit b)) ∧
    (∀ q, (evaluated line b before).1 = .failure (.tooDeep q) →
      ∃ p ≤ q, (evaluated line a before).1 = .failure (.tooDeep p)) ∧
    ∀ p, (evaluated line a before).1 = .failure (.tooDeep p) →
      ∃ front x back, (Lexed.ofLine line).lexemes = front ++ x :: back ∧ x.symbol = .lparen ∧
        x.start = p ∧ scan line p = x.scanned ∧ ((unclosed front).length : Int) = max a 0 :=
  ⟨evaluated_of_not_tooDeep h, fun _ hq => exists_tooDeep_of_limit_le h hq,
    fun _ hp => lparen_of_evaluated_tooDeep hp⟩

theorem evaluated_under_one_and_three :
    let line := "(1)*((2)+((((5".toList
    (1 : Int) ≤ 3 ∧ (evaluated line 3 []).1 = .failure (.tooDeep 11) ∧
    ∃ p ≤ 11, (evaluated line 1 []).1 = .failure (.tooDeep p) := by
  intro line
  have hle : (1 : Int) ≤ 3 := by decide
  have hdeep : (evaluated line 3 []).1 = .failure (.tooDeep 11) := by decide +kernel
  exact ⟨hle, hdeep, (evaluated_under_limits line [] hle).2.1 11 hdeep⟩

end Reading

end LineCalculator
