import LineCalculator.Evaluation.Step

namespace LineCalculator

structure Outcome where
  result : Except Failure Float
  rest : List Lexeme
  depth : Nat

namespace Task

def run (task : Task) (ending : Ending) (offset : Nat) : State → List Lexeme → Outcome
  | s, [] => ⟨s.finish ending offset, [], task.depth s⟩
  | s, x :: xs =>
      match task.step s x with
      | .next s' => run task ending offset s' xs
      | .done v => ⟨.ok v, x :: xs, task.depth s⟩
      | .fail f => ⟨.error f, x :: xs, task.depth s⟩
      | .failPast f s' => ⟨.error f, xs, task.depth s'⟩

end Task

namespace Lexed

def read (l : Lexed) (task : Task) (rest : List Lexeme) : Outcome :=
  task.run l.ending l.offset .initial rest

def unexpected (l : Lexed) (rest : List Lexeme) (complaint : Text) : Failure :=
  let seen := l.lookahead rest
  ⟨.ofToken complaint seen.token, seen.start⟩

def unexpectedRest : Text :=
  "Unexpected token after expression".toList

def evaluate (l : Lexed) (limit : Int) : Outcome :=
  let o := l.read ⟨.expression, limit, 0⟩ l.lexemes
  match o.result with
  | .error _ => o
  | .ok _ =>
      if (l.lookahead o.rest).token = .ending .endOfLine then o
      else { o with result := .error (l.unexpected o.rest unexpectedRest) }

end Lexed

namespace Lexed

theorem evaluate_of_error {l : Lexed} {limit : Int} {f : Failure}
    (h : (l.read ⟨.expression, limit, 0⟩ l.lexemes).result = .error f) :
    l.evaluate limit = l.read ⟨.expression, limit, 0⟩ l.lexemes := by
  simp only [evaluate, h]

theorem rest_evaluate (l : Lexed) (limit : Int) :
    (l.evaluate limit).rest = (l.read ⟨.expression, limit, 0⟩ l.lexemes).rest := by
  simp only [evaluate]
  split
  · rfl
  · split <;> rfl

theorem depth_evaluate (l : Lexed) (limit : Int) :
    (l.evaluate limit).depth = (l.read ⟨.expression, limit, 0⟩ l.lexemes).depth := by
  simp only [evaluate]
  split
  · rfl
  · split <;> rfl

end Lexed

def depthLimit : Int := 200

def evaluate (line : Text) : Except Failure Float :=
  ((Lexed.ofLine line).evaluate depthLimit).result

theorem Task.run_append_of_next {task : Task} {ending : Ending} {offset : Nat} {s s' : State}
    {x : Lexeme} (h : task.step s x = .next s') (xs : List Lexeme) :
    task.run ending offset s (x :: xs) = task.run ending offset s' xs := by
  simp [run, h]

theorem Task.rest_suffix_run (task : Task) (ending : Ending) (offset : Nat) (s : State)
    (xs : List Lexeme) : (task.run ending offset s xs).rest <:+ xs := by
  induction xs generalizing s with
  | nil => simp [run]
  | cons x xs ih =>
      simp only [run]
      split
      · exact (ih _).trans (List.suffix_cons x xs)
      · exact List.suffix_refl _
      · exact List.suffix_refl _
      · exact List.suffix_cons x xs

end LineCalculator
