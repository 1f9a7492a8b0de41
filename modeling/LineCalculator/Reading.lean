import LineCalculator.Evaluation.Run

namespace LineCalculator

structure Reading where
  lexed : Lexed
  limit : Int
  rest : Option (List Lexeme)
  depth : Nat
  deriving DecidableEq, Repr

inductive Action where
  | advance
  | evaluate
  | read (goal : Goal)
  | complain (complaint : Text)
  deriving DecidableEq, Repr

inductive Reply where
  | moved
  | value (v : Float)
  | failure (f : Failure)
  deriving DecidableEq, Repr

def Reply.ofResult : Except Failure Float → Reply
  | .ok v => .value v
  | .error f => .failure f

namespace Reading

def ofLine (line : Text) (limit : Int) : Reading :=
  ⟨.ofLine line, limit, none, 0⟩

def seen? (r : Reading) : Option Scanned :=
  r.rest.map r.lexed.lookahead

def lookahead? (r : Reading) : Option Token :=
  r.seen?.map (·.token)

def position (r : Reading) : Nat :=
  (r.seen?.map (·.start)).getD 0

def cursor (r : Reading) : Nat :=
  (r.seen?.map (·.stop)).getD 0

def remaining (r : Reading) : List Lexeme :=
  r.rest.getD r.lexed.lexemes

def advance (r : Reading) : Reading :=
  { r with rest := some (r.rest.elim r.lexed.lexemes List.tail) }

def settle (r : Reading) (o : Outcome) : Reply × Reading :=
  (.ofResult o.result, { r with rest := some o.rest, depth := o.depth })

def perform (r : Reading) : Action → Reply × Reading
  | .advance => (.moved, r.advance)
  | .evaluate => r.settle (r.lexed.evaluate r.limit)
  | .read goal => r.settle (r.lexed.read ⟨goal, r.limit, r.depth⟩ r.remaining)
  | .complain complaint => (.failure (r.lexed.unexpected r.remaining complaint), r)

def performAll (r : Reading) : List Action → List (Reply × Reading)
  | [] => []
  | a :: as =>
      let step := r.perform a
      step :: performAll step.2 as

end Reading

end LineCalculator
