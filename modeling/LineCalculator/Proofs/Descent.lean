import LineCalculator.Evaluation.Run
import LineCalculator.Proofs.Coherence
import LineCalculator.Proofs.Misuse

namespace LineCalculator

structure Place where
  seen : Scanned
  depth : Nat
  deriving DecidableEq, Repr

inductive Halt where
  | misuse (m : Misuse)
  | failure (f : Failure)
  | exhausted
  deriving DecidableEq, Repr

def Descent (α : Type) : Type :=
  Place → Except Halt α × Place

namespace Descent

variable {α β : Type}

instance : Monad Descent where
  pure a := fun p => (.ok a, p)
  bind x f := fun p =>
    match x p with
    | (.ok a, q) => f a q
    | (.error h, q) => (.error h, q)

def raise (h : Halt) : Descent α :=
  fun p => (.error h, p)

def checked (x : Except Misuse α) : Descent α :=
  fun p => (x.mapError .misuse, p)

def seen : Descent Scanned :=
  fun p => (.ok p.seen, p)

def depth : Descent Nat :=
  fun p => (.ok p.depth, p)

def setDepth (d : Nat) : Descent Unit :=
  fun p => (.ok (), { p with depth := d })

def setSeen (s : Scanned) : Descent Unit :=
  fun p => (.ok (), { p with seen := s })

def additives : List (Kind × (Float → Float → Float)) :=
  [(.plus, fun x y => x + y), (.minus, fun x y => x - y)]

def multiplicatives : List (Kind × (Float → Float → Except Misuse Float)) :=
  [(.times, fun x y => .ok (x * y)), (.divide, Misuse.divide)]

section Procedures

variable (line : Text) (limit : Int)

def advance : Descent Unit := do
  let s ← seen
  let s' ← checked (scanChecked line s.stop)
  setSeen s'

def unexpected (complaint : Text) : Descent α := do
  let s ← seen
  match s.token.kind with
  | .invalid =>
      let c ← checked (Misuse.charAt line s.start)
      raise (.failure ⟨.invalidCharacter complaint c, s.start⟩)
  | _ => raise (.failure ⟨.unexpectedToken complaint, s.start⟩)

def closeGroup (v : Float) : Descent Float := do
  let s ← seen
  if s.token.kind = .rparen then
    advance line
    let d ← depth
    setDepth (d - 1)
    return v
  else raise (.failure ⟨.missingClosingParen, s.start⟩)

def factor (inner : Descent Float) : Descent Float := do
  let s ← seen
  match s.token.kind with
  | .number =>
      let v ← checked (Misuse.value s.token)
      advance line
      return v
  | .lparen =>
      let d ← depth
      if limit ≤ d then raise (.failure ⟨.nestingTooDeep, s.start⟩)
      else
        setDepth (d + 1)
        advance line
        let v ← inner
        closeGroup line v
  | _ => unexpected line unexpectedOperand

def products (inner : Descent Float) : Nat → Float → Descent Float
  | 0, _ => raise .exhausted
  | steps + 1, product => do
      let s ← seen
      if s.token.kind ∈ multiplicatives.map Prod.fst then
        advance line
        let s' ← seen
        let right ← factor line limit inner
        if s.token.kind = .divide ∧ (right == 0) = true then
          raise (.failure ⟨.divisionByZero, s'.start⟩)
        else
          let apply ← checked (Misuse.entry multiplicatives s.token.kind)
          let product' ← checked (apply product right)
          products inner steps product'
      else return product

def term (inner : Descent Float) (steps : Nat) : Descent Float := do
  let v ← factor line limit inner
  products line limit inner steps v

def sums (inner : Descent Float) (termSteps : Nat) : Nat → Float → Descent Float
  | 0, _ => raise .exhausted
  | steps + 1, sum => do
      let s ← seen
      if s.token.kind ∈ additives.map Prod.fst then
        let apply ← checked (Misuse.entry additives s.token.kind)
        advance line
        let right ← term line limit inner termSteps
        sums inner termSteps steps (apply sum right)
      else return sum

def expression (steps : Nat) : (nest : Nat) → Descent Float
  | 0 => raise .exhausted
  | nest + 1 => do
      let v ← term line limit (expression steps nest) steps
      sums line limit (expression steps nest) steps steps v

def read (nest steps : Nat) : Goal → Descent Float
  | .expression => expression line limit steps nest
  | .term => term line limit (expression line limit steps nest) steps
  | .factor => factor line limit (expression line limit steps nest)

def evaluate (nest steps : Nat) : Descent Float := do
  let s ← seen
  setSeen { s with stop := 0 }
  setDepth 0
  advance line
  let v ← expression line limit steps nest
  let s' ← seen
  if s'.token.kind = .endOfLine then return v else unexpected line Lexed.unexpectedRest

end Procedures

section Kinds

variable {t : Token}

theorem kind_eq_number_iff : t.kind = .number ↔ ∃ v, t = .symbol (.number v) := by
  fun_cases Token.kind t <;> simp

theorem kind_eq_lparen_iff : t.kind = .lparen ↔ t = .symbol .lparen := by
  fun_cases Token.kind t <;> simp

theorem kind_eq_rparen_iff : t.kind = .rparen ↔ t = .symbol .rparen := by
  fun_cases Token.kind t <;> simp

theorem kind_eq_endOfLine_iff : t.kind = .endOfLine ↔ t = .ending .endOfLine := by
  fun_cases Token.kind t <;> simp

theorem kind_mem_additives_iff :
    t.kind ∈ additives.map Prod.fst ↔ ∃ op, t = .symbol (.additive op) := by
  fun_cases Token.kind t <;> simp [additives]

theorem kind_mem_multiplicatives_iff :
    t.kind ∈ multiplicatives.map Prod.fst ↔ ∃ op, t = .symbol (.multiplicative op) := by
  fun_cases Token.kind t <;> simp [multiplicatives]

end Kinds

theorem bind_of_ok {x : Descent α} {f : α → Descent β} {p q : Place} {a : α}
    (h : x p = (.ok a, q)) : (x >>= f) p = f a q := by
  change (match x p with
    | (.ok a, q) => f a q
    | (.error h, q) => (.error h, q)) = f a q
  rw [h]

theorem bind_of_error {x : Descent α} {f : α → Descent β} {p q : Place} {h : Halt}
    (hx : x p = (.error h, q)) : (x >>= f) p = (.error h, q) := by
  change (match x p with
    | (.ok a, q) => f a q
    | (.error h, q) => (.error h, q)) = (.error h, q)
  rw [hx]

theorem checked_ok_bind (a : α) (f : α → Descent β) (p : Place) :
    (checked (.ok a) >>= f) p = f a p :=
  rfl

theorem advance_eq (line : Text) (p : Place) :
    advance line p = (.ok (), ⟨scan line p.seen.stop, p.depth⟩) := by
  have hseen : seen p = (.ok p.seen, p) := rfl
  rw [advance, bind_of_ok hseen, scanChecked_eq, checked_ok_bind]
  rfl

end Descent

def Place.Coherent (line : Text) (p : Place) : Prop :=
  scan line p.seen.start = p.seen

namespace Place

variable {line : Text} {p : Place}

theorem coherent_scan (line : Text) (cursor : Int) (d : Nat) : Coherent line ⟨scan line cursor, d⟩ :=
  scan_start line cursor

theorem Coherent.stop_le (h : p.Coherent line) : p.seen.stop ≤ line.length := by
  have hfound := scan_foundFrom line p.seen.start
  rw [h] at hfound
  exact hfound.stop_le

theorem Coherent.start_le (h : p.Coherent line) : p.seen.start ≤ line.length := by
  have hfound := scan_foundFrom line p.seen.start
  rw [h] at hfound
  exact Nat.le_trans hfound.start_le hfound.stop_le

theorem Coherent.start_lt_start_scan {x : Symbol} (h : p.Coherent line)
    (hx : p.seen.token = .symbol x) : p.seen.start < (scan line p.seen.stop).start := by
  have hfound := scan_foundFrom line p.seen.start
  rw [h] at hfound
  have hnext := (scan_foundFrom line p.seen.stop).offset_le
  rw [clampCursor_of_le h.stop_le] at hnext
  exact Nat.lt_of_lt_of_le (hfound.symbol x hx) hnext

end Place

def Lexed.place (l : Lexed) (rest : List Lexeme) (depth : Nat) : Place :=
  ⟨l.lookahead rest, depth⟩

namespace Descent

section Places

variable {α : Type} {l : Lexed} {line : Text} {limit : Int} {inner : Descent Float}
  {xs : List Lexeme} {x : Lexeme} {d : Nat}

theorem seen_place (f : Scanned → Descent α) :
    (seen >>= f) (l.place xs d) = f (l.lookahead xs) (l.place xs d) :=
  rfl

theorem depth_place (f : Nat → Descent α) : (depth >>= f) (l.place xs d) = f d (l.place xs d) :=
  rfl

theorem setDepth_place (d' : Nat) (f : Unit → Descent α) :
    (setDepth d' >>= f) (l.place xs d) = f () (l.place xs d') :=
  rfl

theorem advance_place (hl : l.Shows line) (hxs : xs <:+ l.lexemes) (f : Unit → Descent α) :
    (advance line >>= f) (l.place xs d) =
      f () (l.place xs.tail d) := by
  obtain ⟨cursor, hscan, hnext⟩ := hl xs hxs
  apply bind_of_ok
  rw [advance_eq, Lexed.place, ← hscan, hnext]
  rfl

theorem unexpected_place (hl : l.Shows line) (hxs : xs <:+ l.lexemes) (complaint : Text) :
    (unexpected line complaint : Descent α) (l.place xs d) =
      (.error (.failure (l.unexpected xs complaint)),
        l.place xs d) := by
  obtain ⟨cursor, hscan, -⟩ := hl xs hxs
  rw [unexpected, seen_place, Lexed.unexpected]
  cases htoken : (l.lookahead xs).token with
  | symbol s =>
      cases s with
      | additive op => cases op <;> rfl
      | multiplicative op => cases op <;> rfl
      | number v => rfl
      | lparen => rfl
      | rparen => rfl
  | ending e =>
      cases e with
      | endOfLine => rfl
      | invalid c =>
          rw [← hscan] at htoken
          have hc := ((scan_foundFrom line cursor).ending _ htoken).2.1
          rw [hscan] at hc
          simp only [Token.kind, Misuse.charAt_eq hc, checked_ok_bind]
          rfl

theorem factor_of_kind (hnumber : (l.lookahead xs).token.kind ≠ .number)
    (hlparen : (l.lookahead xs).token.kind ≠ .lparen) :
    factor line limit inner (l.place xs d) = unexpected line unexpectedOperand (l.place xs d) := by
  rw [factor, seen_place]
  cases hkind : (l.lookahead xs).token.kind with
  | number => exact absurd hkind hnumber
  | lparen => exact absurd hkind hlparen
  | plus | minus | times | divide | rparen | endOfLine | invalid => rfl

theorem factor_number {v : Float} (hx : x.symbol = .number v)
    (hl : l.Shows line) (hxs : x :: xs <:+ l.lexemes) :
    factor line limit inner (l.place (x :: xs) d) =
      (.ok v, l.place xs d) := by
  have htoken : (l.lookahead (x :: xs)).token = .symbol (.number v) :=
    congrArg Token.symbol hx
  have hvalue : Misuse.value (.symbol (.number v)) = .ok v := rfl
  rw [factor, seen_place]
  simp only [htoken, Token.kind]
  rw [hvalue, checked_ok_bind, advance_place hl hxs]
  rfl

theorem factor_deep (hx : x.symbol = .lparen) (hlimit : limit ≤ d) :
    factor line limit inner (l.place (x :: xs) d) =
      (.error (.failure ⟨.nestingTooDeep, x.start⟩), l.place (x :: xs) d) := by
  have htoken : (l.lookahead (x :: xs)).token = .symbol .lparen := congrArg Token.symbol hx
  rw [factor, seen_place]
  simp only [htoken, Token.kind]
  rw [depth_place, if_pos hlimit]
  rfl

end Places

end Descent

end LineCalculator
