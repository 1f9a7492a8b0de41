import LineCalculator.Evaluation.Run

namespace LineCalculator

structure Relocation where
  offset : Nat → Nat
  lexeme : Lexeme → Lexeme
  symbol_lexeme : ∀ x, (lexeme x).symbol = x.symbol
  start_lexeme : ∀ x, (lexeme x).start = offset x.start

namespace Relocation

variable (r : Relocation)

def failure (f : Failure) : Failure :=
  ⟨f.cause, r.offset f.position⟩

def group (g : Group) : Group :=
  ⟨r.offset g.opened, g.outside⟩

def state (s : State) : State :=
  ⟨s.level, s.groups.map r.group, s.mode⟩

def verdict : Verdict → Verdict
  | .next s => .next (r.state s)
  | .done v => .done v
  | .fail f => .fail (r.failure f)
  | .failPast f s => .failPast (r.failure f) (r.state s)

def outcome (o : Outcome) : Outcome :=
  ⟨o.result.mapError r.failure, o.rest.map r.lexeme, o.depth⟩

def lexed (l : Lexed) : Lexed :=
  ⟨l.lexemes.map r.lexeme, l.ending, r.offset l.offset⟩

theorem lexed_cons (x : Lexeme) (l : Lexed) :
    r.lexed { l with lexemes := x :: l.lexemes } =
      { r.lexed l with lexemes := r.lexeme x :: (r.lexed l).lexemes } := rfl

theorem depth_state (task : Task) (s : State) : task.depth (r.state s) = task.depth s := by
  simp only [Task.depth, state, List.length_map]

theorem complete (s : State) (factor : Float) (start : Nat) :
    (r.state s).complete factor (r.offset start) = r.verdict (s.complete factor start) := by
  simp only [State.complete, state]
  cases s.level.multiply? factor <;> rfl

theorem stepOperand (task : Task) (s : State) (x : Lexeme) :
    task.stepOperand (r.state s) (r.lexeme x) = r.verdict (task.stepOperand s x) := by
  simp only [Task.stepOperand, r.symbol_lexeme, r.start_lexeme, r.depth_state]
  cases x.symbol with
  | number v => exact r.complete s v x.start
  | lparen =>
      simp only
      split
      · rfl
      · rfl
  | additive op => rfl
  | multiplicative op => rfl
  | rparen => rfl

theorem stepOutside (task : Task) (s : State) (product : Float) (x : Lexeme) :
    task.stepOutside (r.state s) product (r.lexeme x) =
      r.verdict (task.stepOutside s product x) := by
  simp only [Task.stepOutside, r.symbol_lexeme]
  cases x.symbol with
  | additive op =>
      simp only
      split
      · rfl
      · rfl
  | multiplicative op =>
      simp only
      split
      · rfl
      · rfl
  | number v => rfl
  | lparen => rfl
  | rparen => rfl

theorem stepInside (s : State) (product : Float) (g : Group) (gs : List Group) (x : Lexeme) :
    (r.state s).stepInside product (r.group g) (gs.map r.group) (r.lexeme x) =
      r.verdict (s.stepInside product g gs x) := by
  simp only [State.stepInside, r.symbol_lexeme, r.start_lexeme]
  cases x.symbol with
  | rparen => exact r.complete ⟨g.outside, gs, .operand⟩ (s.level.total product) g.opened
  | additive op => rfl
  | multiplicative op => rfl
  | number v => rfl
  | lparen => rfl

theorem step (task : Task) (s : State) (x : Lexeme) :
    task.step (r.state s) (r.lexeme x) = r.verdict (task.step s x) := by
  obtain ⟨level, groups, mode⟩ := s
  cases mode with
  | operand => exact r.stepOperand task ⟨level, groups, .operand⟩ x
  | operator product =>
      cases groups with
      | nil => exact r.stepOutside task ⟨level, [], .operator product⟩ product x
      | cons g gs => exact r.stepInside ⟨level, g :: gs, .operator product⟩ product g gs x

theorem finish (s : State) (ending : Ending) (offset : Nat) :
    (r.state s).finish ending (r.offset offset) = (s.finish ending offset).mapError r.failure := by
  obtain ⟨level, groups, mode⟩ := s
  cases mode with
  | operand => rfl
  | operator product => cases groups <;> rfl

theorem run (task : Task) (ending : Ending) (offset : Nat) (s : State) (xs : List Lexeme) :
    task.run ending (r.offset offset) (r.state s) (xs.map r.lexeme) =
      r.outcome (task.run ending offset s xs) := by
  induction xs generalizing s with
  | nil => simp only [List.map_nil, Task.run, outcome, r.finish, r.depth_state]
  | cons x xs ih =>
      simp only [List.map_cons, Task.run, r.step]
      cases task.step s x with
      | next s' => exact ih s'
      | done v =>
          simp only [verdict, r.depth_state]
          rfl
      | fail f =>
          simp only [verdict, r.depth_state]
          rfl
      | failPast f s' =>
          simp only [verdict, r.depth_state]
          rfl

theorem lookahead (l : Lexed) (rest : List Lexeme) :
    ((r.lexed l).lookahead (rest.map r.lexeme)).token = (l.lookahead rest).token ∧
      ((r.lexed l).lookahead (rest.map r.lexeme)).start = r.offset (l.lookahead rest).start := by
  cases rest with
  | nil => exact ⟨rfl, rfl⟩
  | cons x rest => simp [Lexed.lookahead, r.symbol_lexeme, r.start_lexeme]

theorem evaluate (l : Lexed) (limit : Int) :
    (r.lexed l).evaluate limit = r.outcome (l.evaluate limit) := by
  have hread : (r.lexed l).read ⟨.expression, limit, 0⟩ (r.lexed l).lexemes =
      r.outcome (l.read ⟨.expression, limit, 0⟩ l.lexemes) :=
    r.run _ l.ending l.offset .initial l.lexemes
  simp only [Lexed.evaluate, hread]
  generalize l.read ⟨.expression, limit, 0⟩ l.lexemes = o
  obtain ⟨result, rest, depth⟩ := o
  obtain ⟨htoken, hstart⟩ := r.lookahead l rest
  cases result with
  | error f => rfl
  | ok v =>
      simp only [outcome, show (Except.ok v).mapError r.failure = .ok v from rfl, htoken]
      split
      · rfl
      · simp only [Lexed.unexpected, htoken, hstart]
        rfl

theorem result_evaluate (l : Lexed) (limit : Int) :
    ((r.lexed l).evaluate limit).result = (l.evaluate limit).result.mapError r.failure := by
  rw [r.evaluate, outcome]

end Relocation

end LineCalculator
