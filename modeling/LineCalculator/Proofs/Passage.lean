import LineCalculator.Evaluation.Run

namespace LineCalculator

namespace Task

inductive Takes (task : Task) : State → Lexeme → State → Prop
  | number {level groups x v product} :
      x.symbol = .number v → level.multiply? v = some product →
      Takes task ⟨level, groups, .operand⟩ x ⟨level.settled, groups, .operator product⟩
  | lparen {level groups x} :
      x.symbol = .lparen → task.depth ⟨level, groups, .operand⟩ < task.limit →
      Takes task ⟨level, groups, .operand⟩ x ⟨.empty, ⟨x.start, level⟩ :: groups, .operand⟩
  | additive {level groups product x op} :
      x.symbol = .additive op → (groups = [] → task.goal = .expression) →
      Takes task ⟨level, groups, .operator product⟩ x
        ⟨⟨some (level.total product, op), none⟩, groups, .operand⟩
  | multiplicative {level groups product x op} :
      x.symbol = .multiplicative op → (groups = [] → task.goal ≠ .factor) →
      Takes task ⟨level, groups, .operator product⟩ x
        ⟨⟨level.sum, some (product, op)⟩, groups, .operand⟩
  | rparen {level g gs product product' x} :
      x.symbol = .rparen → g.outside.multiply? (level.total product) = some product' →
      Takes task ⟨level, g :: gs, .operator product⟩ x
        ⟨g.outside.settled, gs, .operator product'⟩

inductive DividesByZero : State → Lexeme → Nat → State → Prop
  | number {level groups x v} :
      x.symbol = .number v → level.multiply? v = none →
      DividesByZero ⟨level, groups, .operand⟩ x x.start ⟨level, groups, .operand⟩
  | rparen {level g gs product x} :
      x.symbol = .rparen → g.outside.multiply? (level.total product) = none →
      DividesByZero ⟨level, g :: gs, .operator product⟩ x g.opened ⟨g.outside, gs, .operand⟩

inductive Refuses (task : Task) : State → Lexeme → Failure → Prop
  | operand {level groups x} :
      (∀ v, x.symbol ≠ .number v) → x.symbol ≠ .lparen →
      Refuses task ⟨level, groups, .operand⟩ x ⟨.unexpectedToken unexpectedOperand, x.start⟩
  | deep {level groups x} :
      x.symbol = .lparen → task.limit ≤ task.depth ⟨level, groups, .operand⟩ →
      Refuses task ⟨level, groups, .operand⟩ x ⟨.nestingTooDeep, x.start⟩
  | unclosed {level g gs product x} :
      (∀ op, x.symbol ≠ .additive op) → (∀ op, x.symbol ≠ .multiplicative op) →
      x.symbol ≠ .rparen →
      Refuses task ⟨level, g :: gs, .operator product⟩ x ⟨.missingClosingParen, x.start⟩

inductive EndsBefore (task : Task) : State → Lexeme → Float → Prop
  | intro {level product x} :
      (∀ op, x.symbol = .additive op → task.goal ≠ .expression) →
      (∀ op, x.symbol = .multiplicative op → task.goal = .factor) →
      EndsBefore task ⟨level, [], .operator product⟩ x (level.total product)

inductive Stepped (task : Task) (s : State) (x : Lexeme) : Verdict → Prop
  | next {s' : State} : Takes task s x s' → Stepped task s x (.next s')
  | done {v : Float} : EndsBefore task s x v → Stepped task s x (.done v)
  | fail {f : Failure} : Refuses task s x f → Stepped task s x (.fail f)
  | failPast {q : Nat} {s' : State} :
      DividesByZero s x q s' → Stepped task s x (.failPast ⟨.divisionByZero, q⟩ s')

theorem complete_eq (s : State) (v : Float) (start : Nat) :
    s.complete v start = match s.level.multiply? v with
      | none => .failPast ⟨.divisionByZero, start⟩ s
      | some product => .next ⟨s.level.settled, s.groups, .operator product⟩ := by
  unfold State.complete
  cases s.level.multiply? v <;> rfl

variable {task : Task} {s s' : State} {x : Lexeme}

theorem stepped_operand (task : Task) (level : Level) (groups : List Group) (x : Lexeme) :
    task.Stepped ⟨level, groups, .operand⟩ x (task.step ⟨level, groups, .operand⟩ x) := by
  simp only [step, stepOperand, complete_eq]
  split
  · rename_i v hx
    split
    · rename_i hp
      exact .failPast (.number hx hp)
    · rename_i product hp
      exact .next (.number hx hp)
  · rename_i hx
    split
    · rename_i hlimit
      exact .fail (.deep hx hlimit)
    · rename_i hlimit
      exact .next (.lparen hx (by omega))
  · rename_i hnumber hlparen
    exact .fail (.operand hnumber hlparen)

theorem stepped_outside (task : Task) (level : Level) (product : Float) (x : Lexeme) :
    task.Stepped ⟨level, [], .operator product⟩ x
      (task.step ⟨level, [], .operator product⟩ x) := by
  simp only [step, stepOutside]
  split
  · rename_i op hx
    split
    · rename_i hgoal
      exact .next (.additive hx fun _ => hgoal)
    · rename_i hgoal
      refine .done (.intro (fun _ _ => hgoal) fun op' hx' => ?_)
      simp [hx] at hx'
  · rename_i op hx
    split
    · rename_i hgoal
      refine .done (.intro (fun op' hx' => ?_) fun _ _ => hgoal)
      simp [hx] at hx'
    · rename_i hgoal
      exact .next (.multiplicative hx fun _ => hgoal)
  · rename_i hadditive hmultiplicative
    exact .done (.intro (fun op hx => absurd hx (hadditive op))
      fun op hx => absurd hx (hmultiplicative op))

theorem stepped_inside (task : Task) (level : Level) (g : Group) (gs : List Group)
    (product : Float) (x : Lexeme) :
    task.Stepped ⟨level, g :: gs, .operator product⟩ x
      (task.step ⟨level, g :: gs, .operator product⟩ x) := by
  simp only [step, State.stepInside, complete_eq]
  split
  · rename_i op hx
    exact .next (.additive hx fun hg => by cases hg)
  · rename_i op hx
    exact .next (.multiplicative hx fun hg => by cases hg)
  · rename_i hx
    split
    · rename_i hp
      exact .failPast (.rparen hx hp)
    · rename_i product' hp
      exact .next (.rparen hx hp)
  · rename_i hadditive hmultiplicative hrparen
    exact .fail (.unclosed hadditive hmultiplicative hrparen)

theorem stepped (task : Task) (s : State) (x : Lexeme) : task.Stepped s x (task.step s x) := by
  obtain ⟨level, groups, mode⟩ := s
  cases mode with
  | operand => exact stepped_operand task level groups x
  | operator product =>
      cases groups with
      | nil => exact stepped_outside task level product x
      | cons g gs => exact stepped_inside task level g gs product x

theorem takes_of_next (h : task.step s x = .next s') : task.Takes s x s' := by
  have hs := task.stepped s x
  rw [h] at hs
  cases hs with
  | next hx => exact hx

theorem endsBefore_of_done {v : Float} (h : task.step s x = .done v) : task.EndsBefore s x v := by
  have hs := task.stepped s x
  rw [h] at hs
  cases hs with
  | done hx => exact hx

theorem refuses_of_fail {f : Failure} (h : task.step s x = .fail f) : task.Refuses s x f := by
  have hs := task.stepped s x
  rw [h] at hs
  cases hs with
  | fail hx => exact hx

theorem dividesByZero_of_failPast {f : Failure} (h : task.step s x = .failPast f s') :
    ∃ q, f = ⟨.divisionByZero, q⟩ ∧ DividesByZero s x q s' := by
  have hs := task.stepped s x
  rw [h] at hs
  cases hs with
  | failPast hx => exact ⟨_, rfl, hx⟩

theorem next_of_takes (h : task.Takes s x s') : task.step s x = .next s' := by
  cases h with
  | number hx hp => simp [step, stepOperand, hx, complete_eq, hp]
  | lparen hx hlimit =>
      simp only [step, stepOperand, hx]
      rw [if_neg (by omega)]
      rfl
  | @additive level groups product x op hx hgoal =>
      cases groups with
      | nil => simp [step, stepOutside, hx, hgoal, State.awaitTerm]
      | cons g gs => simp [step, State.stepInside, hx, State.awaitTerm]
  | @multiplicative level groups product x op hx hgoal =>
      cases groups with
      | nil => simp [step, stepOutside, hx, hgoal, State.awaitFactor]
      | cons g gs => simp [step, State.stepInside, hx, State.awaitFactor]
  | rparen hx hp => simp [step, State.stepInside, hx, complete_eq, hp]

theorem done_of_endsBefore {v : Float} (h : task.EndsBefore s x v) : task.step s x = .done v := by
  cases h with
  | intro hadditive hmultiplicative =>
      cases hx : x.symbol with
      | additive op => simp [step, stepOutside, hx, hadditive op hx]
      | multiplicative op => simp [step, stepOutside, hx, hmultiplicative op hx]
      | number v => simp only [step, stepOutside, hx]
      | lparen => simp only [step, stepOutside, hx]
      | rparen => simp only [step, stepOutside, hx]

theorem failPast_of_dividesByZero {q : Nat} (h : DividesByZero s x q s') :
    task.step s x = .failPast ⟨.divisionByZero, q⟩ s' := by
  cases h with
  | number hx hp => simp [step, stepOperand, hx, complete_eq, hp]
  | rparen hx hp => simp [step, State.stepInside, hx, complete_eq, hp]

inductive Passes (task : Task) : State → List Lexeme → State → Prop
  | nil (s : State) : Passes task s [] s
  | cons {s s' s'' : State} {x : Lexeme} {xs : List Lexeme} :
      task.step s x = .next s' → Passes task s' xs s'' → Passes task s (x :: xs) s''

namespace Passes

variable {s'' : State} {xs ys : List Lexeme}

theorem single (h : task.step s x = .next s') : task.Passes s [x] s' :=
  .cons h (.nil s')

theorem append (h : task.Passes s xs s') (h' : task.Passes s' ys s'') :
    task.Passes s (xs ++ ys) s'' := by
  induction h with
  | nil s => exact h'
  | cons hx hxs ih => exact .cons hx (ih h')

theorem exists_of_append (h : task.Passes s (xs ++ ys) s'') :
    ∃ s', task.Passes s xs s' ∧ task.Passes s' ys s'' := by
  induction xs generalizing s with
  | nil => exact ⟨s, .nil s, h⟩
  | cons x xs ih =>
      cases h with
      | cons hx hxs =>
          obtain ⟨s', hs, hs'⟩ := ih hxs
          exact ⟨s', .cons hx hs, hs'⟩

theorem unique (h : task.Passes s xs s') (h' : task.Passes s xs s'') : s' = s'' := by
  induction h with
  | nil s => cases h' with | nil => rfl
  | cons hx hxs ih =>
      cases h' with
      | cons hx' hxs' =>
          rw [hx] at hx'
          cases hx'
          exact ih hxs'

theorem run_append (h : task.Passes s xs s') (ending : Ending) (offset : Nat)
    (ys : List Lexeme) :
    task.run ending offset s (xs ++ ys) = task.run ending offset s' ys := by
  induction h with
  | nil s => rfl
  | cons hx hxs ih => rw [List.cons_append, run_append_of_next hx, ih]

end Passes

theorem passes_or_stops (task : Task) (s : State) (xs : List Lexeme) :
    (∃ s', task.Passes s xs s') ∨
      ∃ front x back s', xs = front ++ x :: back ∧ task.Passes s front s' ∧
        ∀ s'', task.step s' x ≠ .next s'' := by
  induction xs generalizing s with
  | nil => exact Or.inl ⟨s, .nil s⟩
  | cons x xs ih =>
      cases hx : task.step s x with
      | next s' =>
          rcases ih s' with ⟨s'', h⟩ | ⟨front, y, back, s'', rfl, h, hy⟩
          · exact Or.inl ⟨s'', .cons hx h⟩
          · exact Or.inr ⟨x :: front, y, back, s'', rfl, .cons hx h, hy⟩
      | done v => exact Or.inr ⟨[], x, xs, s, rfl, .nil s, fun s'' h => by simp [hx] at h⟩
      | fail f => exact Or.inr ⟨[], x, xs, s, rfl, .nil s, fun s'' h => by simp [hx] at h⟩
      | failPast f s' => exact Or.inr ⟨[], x, xs, s, rfl, .nil s, fun s'' h => by simp [hx] at h⟩

end Task

end LineCalculator
