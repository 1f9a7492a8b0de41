import LineCalculator.Proofs.Passage
import LineCalculator.Proofs.Phrase

namespace LineCalculator

def Lexeme.scanned (x : Lexeme) : Scanned :=
  ⟨.symbol x.symbol, x.start, x.stop⟩

def Lexed.scanned (l : Lexed) : List Scanned :=
  l.lexemes.map Lexeme.scanned ++ [⟨.ending l.ending, l.offset, l.offset⟩]

inductive Counter.Mode where
  | operand
  | operator
  deriving DecidableEq, Repr

structure Counter where
  mode : Counter.Mode
  depth : Nat
  deriving DecidableEq, Repr

inductive Counter.Move where
  | next (c : Counter)
  | accept
  | fail (category : Category) (message : Text)
  deriving DecidableEq, Repr

namespace Counter

def start : Counter :=
  ⟨.operand, 0⟩

def step (limit : Int) : Counter → Token → Move
  | ⟨.operand, d⟩, .symbol (.number _) => .next ⟨.operator, d⟩
  | ⟨.operand, d⟩, .symbol .lparen =>
      if d < limit then .next ⟨.operand, d + 1⟩
      else .fail .nestingTooDeep "Expression nested too deeply".toList
  | ⟨.operand, _⟩, .ending (.invalid c) =>
      .fail .invalidCharacter ("Unexpected token: ".toList ++ Text.quoted [c])
  | ⟨.operand, _⟩, _ => .fail .unexpectedToken "Unexpected token".toList
  | ⟨.operator, d⟩, .symbol (.additive _) => .next ⟨.operand, d⟩
  | ⟨.operator, d⟩, .symbol (.multiplicative _) => .next ⟨.operand, d⟩
  | ⟨.operator, d + 1⟩, .symbol .rparen => .next ⟨.operator, d⟩
  | ⟨.operator, _ + 1⟩, _ => .fail .missingClosingParen "Expected closing parenthesis".toList
  | ⟨.operator, 0⟩, .ending .endOfLine => .accept
  | ⟨.operator, 0⟩, .ending (.invalid c) =>
      .fail .invalidCharacter ("Unexpected token after expression: ".toList ++ Text.quoted [c])
  | ⟨.operator, 0⟩, _ => .fail .unexpectedToken "Unexpected token after expression".toList

def advance? (limit : Int) : Counter → List Symbol → Option Counter
  | c, [] => some c
  | c, x :: ts =>
      match c.step limit (.symbol x) with
      | .next c' => advance? limit c' ts
      | _ => none

variable {limit : Int} {c c' : Counter} {ts us : List Symbol} {x : Symbol}

theorem advance?_cons_of_next (h : c.step limit (.symbol x) = .next c') :
    advance? limit c (x :: ts) = advance? limit c' ts := by
  simp [advance?, h]

theorem advance?_append :
    advance? limit c (ts ++ us) = (advance? limit c ts).bind fun c' => advance? limit c' us := by
  induction ts generalizing c with
  | nil => rfl
  | cons x ts ih =>
      simp only [List.cons_append, advance?]
      split
      · exact ih
      · rfl

theorem advance?_phrase {g : Goal} (p : Phrase g) {d : Nat}
    (h : NestedWithin (max limit 0 - d) p.symbols) :
    advance? limit ⟨.operand, d⟩ p.symbols = some ⟨.operator, d⟩ := by
  induction p generalizing d with
  | number v => rfl
  | group e ih =>
      obtain ⟨-, hrest⟩ := nestedWithin_cons.1 h
      obtain ⟨he, -⟩ := nestedWithin_append.1 hrest
      have hd : (d : Int) < limit := by
        have := he.nonneg
        simp only [Symbol.weight] at this
        omega
      -- One group deeper there is room for one group less.
      have hin : NestedWithin (max limit 0 - ((d + 1 : Nat) : Int)) e.symbols := by
        have heq : max limit 0 - ((d + 1 : Nat) : Int) = max limit 0 - d - Symbol.weight .lparen := by
          simp only [Symbol.weight]
          omega
        rwa [heq]
      have hopen : step limit ⟨.operand, d⟩ (.symbol .lparen) = .next ⟨.operand, d + 1⟩ := by
        simp [step, hd]
      rw [Phrase.symbols, advance?_cons_of_next hopen, advance?_append, ih hin]
      rfl
  | single f ih => exact ih h
  | multiplied t op f iht ihf =>
      obtain ⟨ht, hrest⟩ := nestedWithin_append.1 h
      obtain ⟨-, hf⟩ := nestedWithin_cons.1 hrest
      rw [Phrase.symbols, advance?_append, iht ht]
      exact ihf (by simpa [Symbol.weight] using hf)
  | lone t ih => exact ih h
  | added e op t ihe iht =>
      obtain ⟨he, hrest⟩ := nestedWithin_append.1 h
      obtain ⟨-, ht⟩ := nestedWithin_cons.1 hrest
      rw [Phrase.symbols, advance?_append, ihe he]
      exact iht (by simpa [Symbol.weight] using ht)

theorem advance?_expression {e : Phrase .expression} (h : NestedWithin (max limit 0) e.symbols) :
    advance? limit .start e.symbols = some ⟨.operator, 0⟩ := by
  apply advance?_phrase
  rwa [Int.natCast_zero, Int.sub_zero]

theorem depth_of_next (h : c.step limit (.symbol x) = .next c') :
    (c'.depth : Int) = c.depth + x.weight := by
  obtain ⟨mode, d⟩ := c
  cases mode with
  | operand =>
      cases x with
      | number v => cases h; simp [Symbol.weight]
      | lparen =>
          simp only [step] at h
          split at h
          · cases h
            simp [Symbol.weight]
          · cases h
      | additive op => cases h
      | multiplicative op => cases h
      | rparen => cases h
  | operator =>
      cases x with
      | additive op => cases d <;> cases h <;> simp [Symbol.weight]
      | multiplicative op => cases d <;> cases h <;> simp [Symbol.weight]
      | number v => cases d <;> cases h
      | lparen => cases d <;> cases h
      | rparen =>
          cases d with
          | zero => cases h
          | succ d =>
              cases h
              simp only [Symbol.weight]
              omega

theorem step_of_limit (limit limit' : Int) (c : Counter) (t : Token) :
    c.step limit' t = c.step limit t ∨ (c.mode = .operand ∧ t = .symbol .lparen) := by
  obtain ⟨mode, d⟩ := c
  cases mode with
  | operator =>
      refine Or.inl ?_
      rcases t with x | ending
      · cases d <;> cases x <;> rfl
      · cases d <;> cases ending <;> rfl
  | operand =>
      rcases t with x | ending
      · cases x with
        | lparen => exact Or.inr ⟨rfl, rfl⟩
        | number v => exact Or.inl rfl
        | additive op => exact Or.inl rfl
        | multiplicative op => exact Or.inl rfl
        | rparen => exact Or.inl rfl
      · cases ending <;> exact Or.inl rfl

theorem next_of_limit {limit' : Int} (h : c.step limit (.symbol x) = .next c')
    (hd : 0 ≤ max limit' 0 - c.depth - x.weight) : c.step limit' (.symbol x) = .next c' := by
  rcases step_of_limit limit limit' c (.symbol x) with hsame | ⟨hmode, hx⟩
  · rw [hsame, h]
  · obtain ⟨mode, d⟩ := c
    cases hmode
    cases hx
    have hlimit : (d : Int) < limit' := by
      simp only [Symbol.weight] at hd
      omega
    simp only [step] at h ⊢
    rw [if_pos hlimit]
    split at h
    · exact h
    · cases h

theorem fail_of_limit (limit' : Int) {t : Token} {category : Category} {message : Text}
    (h : c.step limit t = .fail category message) (hcategory : category ≠ .nestingTooDeep) :
    c.step limit' t = .fail category message := by
  rcases step_of_limit limit limit' c t with hsame | ⟨hmode, rfl⟩
  · rw [hsame, h]
  · obtain ⟨mode, d⟩ := c
    cases hmode
    simp only [step] at h
    split at h
    · cases h
    · cases h
      exact absurd rfl hcategory

theorem advance?_of_limit {limit' : Int} (h : advance? limit c ts = some c')
    (hn : NestedWithin (max limit' 0 - c.depth) ts) : advance? limit' c ts = some c' := by
  induction ts generalizing c with
  | nil => exact h
  | cons x ts ih =>
      obtain ⟨-, hts⟩ := nestedWithin_cons.1 hn
      simp only [advance?] at h
      split at h
      · rename_i c'' hc
        have hd := depth_of_next hc
        rw [advance?_cons_of_next (next_of_limit hc hts.nonneg)]
        apply ih h
        have heq : max limit' 0 - (c''.depth : Int) = max limit' 0 - c.depth - x.weight := by omega
        rwa [heq]
      · cases h

theorem advance?_start_of_limit {limit' : Int} (h : advance? limit .start ts = some c')
    (hn : NestedWithin (max limit' 0) ts) : advance? limit' .start ts = some c' := by
  apply advance?_of_limit h
  rwa [start, Int.natCast_zero, Int.sub_zero]

theorem not_fail_divisionByZero (limit : Int) (c : Counter) (t : Token) (message : Text) :
    c.step limit t ≠ .fail .divisionByZero message := by
  obtain ⟨mode, d⟩ := c
  rcases t with x | ending
  · cases mode with
    | operand =>
        cases x with
        | lparen =>
            simp only [step]
            split <;> simp
        | number v => simp [step]
        | additive op => simp [step]
        | multiplicative op => simp [step]
        | rparen => simp [step]
    | operator => cases d <;> cases x <;> simp [step]
  · cases mode <;> cases d <;> cases ending <;> simp [step]

theorem depth_le_of_next (h : c.step limit (.symbol x) = .next c')
    (hc : (c.depth : Int) ≤ max limit 0) : (c'.depth : Int) ≤ max limit 0 := by
  rcases x.eq_lparen_or_weight_nonpos with rfl | hx
  · obtain ⟨mode, d⟩ := c
    cases mode with
    | operand =>
        simp only [step] at h
        split at h
        · cases h
          simp only
          omega
        · cases h
    | operator => cases d <;> cases h
  · have hd := depth_of_next h
    omega

theorem nestedWithin_of_advance? (h : advance? limit c ts = some c')
    (hc : (c.depth : Int) ≤ max limit 0) : NestedWithin (max limit 0 - c.depth) ts := by
  induction ts generalizing c with
  | nil => exact nestedWithin_nil.2 (by omega)
  | cons x ts ih =>
      simp only [advance?] at h
      split at h
      · rename_i c'' hx
        have hd := depth_of_next hx
        have hts := ih h (depth_le_of_next hx hc)
        refine nestedWithin_cons.2 ⟨by omega, ?_⟩
        have heq : max limit 0 - (c.depth : Int) - x.weight = max limit 0 - c''.depth := by omega
        rwa [heq]
      · cases h

theorem nestedWithin_of_advance?_start (h : advance? limit .start ts = some c') :
    NestedWithin (max limit 0) ts := by
  have hn := nestedWithin_of_advance? h (Int.le_max_right ..)
  rwa [start, Int.natCast_zero, Int.sub_zero] at hn

end Counter

end LineCalculator
