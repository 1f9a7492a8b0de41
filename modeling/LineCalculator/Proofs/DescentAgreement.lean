import LineCalculator.Proofs.Descent
import LineCalculator.Proofs.ZeroDivisor

namespace LineCalculator

def EndsTerm (ys : List Lexeme) : Prop :=
  ∀ y ∈ ys.head?, ∀ op, y.symbol ≠ .multiplicative op

def EndsExpression (ys : List Lexeme) : Prop :=
  EndsTerm ys ∧ ∀ y ∈ ys.head?, ∀ op, y.symbol ≠ .additive op

namespace Lexed

def runFrom (l : Lexed) (task : Task) (s : State) (xs : List Lexeme) : Outcome :=
  task.run l.ending l.offset s xs

def resume (l : Lexed) (task : Task) (s : State) (start : Nat) (v : Float) (ys : List Lexeme) :
    Outcome :=
  match s.level.multiply? v with
  | none => ⟨.error ⟨.divisionByZero, start⟩, ys, task.depth s⟩
  | some product => l.runFrom task ⟨s.level.settled, s.groups, .operator product⟩ ys

abbrev Behind := Outcome → Float → List Lexeme → Prop

def behindFactor (l : Lexed) (task : Task) (s : State) (start : Nat) : Behind :=
  fun o v ys => o = l.resume task s start v ys

def behindTerm (l : Lexed) (task : Task) (sum : Option (Float × AddOp)) (groups : List Group) :
    Behind :=
  fun o v ys => o = l.runFrom task ⟨⟨sum, none⟩, groups, .operator v⟩ ys ∧ EndsTerm ys

def behindExpression (l : Lexed) (task : Task) (groups : List Group) : Behind :=
  fun o v ys => o = l.runFrom task ⟨.empty, groups, .operator v⟩ ys ∧ EndsExpression ys

/-- A procedure came back with a value, and the run goes on behind what it read, or it came back
with the failure that the run comes to. -/
inductive Agrees (l : Lexed) (behind : Behind) (o : Outcome) (xs : List Lexeme) (d : Nat) :
    Except Halt Float × Place → Prop
  | value {v : Float} {ys : List Lexeme} :
      ys <:+ xs → behind o v ys → Agrees l behind o xs d (.ok v, l.place ys d)
  | failure {f : Failure} {ys : List Lexeme} {d' : Nat} :
      o = ⟨.error f, ys, d'⟩ → Agrees l behind o xs d (.error (.failure f), l.place ys d')

section Runs

variable {l : Lexed} {task : Task} {s s' : State} {x : Lexeme} {xs ys : List Lexeme}
  {level : Level} {groups : List Group} {product : Float}

theorem runFrom_of_next (h : task.step s x = .next s') :
    l.runFrom task s (x :: xs) = l.runFrom task s' xs :=
  Task.run_append_of_next h xs

theorem runFrom_of_fail {f : Failure} (h : task.step s x = .fail f) :
    l.runFrom task s (x :: xs) = ⟨.error f, x :: xs, task.depth s⟩ := by
  rw [runFrom, Task.run, h]

theorem runFrom_of_complete {start : Nat} {v : Float} (h : task.step s x = s'.complete v start) :
    l.runFrom task s (x :: xs) = l.resume task s' start v xs := by
  rw [Task.complete_eq] at h
  rw [runFrom, resume, Task.run, h]
  cases s'.level.multiply? v <;> rfl

theorem resume_of_combine {sum : Option (Float × AddOp)} {op : MulOp} {v z : Float} {start : Nat}
    (h : op.combine? product v = some z) :
    l.resume task ⟨⟨sum, some (product, op)⟩, groups, .operand⟩ start v ys =
      l.runFrom task ⟨⟨sum, none⟩, groups, .operator z⟩ ys := by
  have hproduct : Level.multiply? ⟨sum, some (product, op)⟩ v = some z := h
  rw [resume, hproduct]
  rfl

theorem resume_of_zero {sum : Option (Float × AddOp)} {op : MulOp} {v : Float} {start : Nat}
    (h : op.combine? product v = none) :
    l.resume task ⟨⟨sum, some (product, op)⟩, groups, .operand⟩ start v ys =
      ⟨.error ⟨.divisionByZero, start⟩, ys, task.depth ⟨.empty, groups, .operand⟩⟩ := by
  have hproduct : Level.multiply? ⟨sum, some (product, op)⟩ v = none := h
  rw [resume, hproduct]
  rfl

theorem runFrom_of_endsTerm {sum : Option (Float × AddOp)} (h : EndsTerm ys) :
    l.runFrom task ⟨⟨sum, none⟩, groups, .operator product⟩ ys =
      l.runFrom task ⟨.empty, groups, .operator (Level.total ⟨sum, none⟩ product)⟩ ys := by
  cases ys with
  | nil => cases groups <;> rfl
  | cons y ys =>
      have hstep : task.step ⟨⟨sum, none⟩, groups, .operator product⟩ y =
          task.step ⟨.empty, groups, .operator (Level.total ⟨sum, none⟩ product)⟩ y := by
        cases hy : y.symbol with
        | multiplicative op => exact absurd hy (h y rfl op)
        | additive op =>
            cases groups <;>
              simp [Task.step, Task.stepOutside, State.stepInside, State.awaitTerm, hy,
                Level.total_empty]
        | number v =>
            cases groups <;>
              simp [Task.step, Task.stepOutside, State.stepInside, hy, Level.total_empty]
        | lparen =>
            cases groups <;>
              simp [Task.step, Task.stepOutside, State.stepInside, hy, Level.total_empty]
        | rparen =>
            cases groups <;>
              simp [Task.step, Task.stepOutside, State.stepInside, hy, Level.total_empty]
      rw [runFrom, runFrom, Task.run, Task.run, hstep]
      rfl

theorem step_of_unclosed {y : Lexeme} {opened : Nat} (hends : EndsExpression (y :: ys))
    (hy : y.symbol ≠ .rparen) :
    task.step ⟨.empty, ⟨opened, level⟩ :: groups, .operator product⟩ y =
      .fail ⟨.missingClosingParen, y.start⟩ := by
  cases hsymbol : y.symbol with
  | additive op => exact absurd hsymbol (hends.2 y rfl op)
  | multiplicative op => exact absurd hsymbol (hends.1 y rfl op)
  | rparen => exact absurd hsymbol hy
  | number v => simp [Task.step, State.stepInside, hsymbol]
  | lparen => simp [Task.step, State.stepInside, hsymbol]

theorem runFrom_of_endsBefore
    (h : ∀ y ∈ ys.head?, task.EndsBefore ⟨.empty, [], .operator product⟩ y product) :
    l.runFrom task ⟨.empty, [], .operator product⟩ ys = ⟨.ok product, ys, task.outer⟩ := by
  cases ys with
  | nil => rfl
  | cons y ys =>
      rw [runFrom, Task.run, Task.done_of_endsBefore (h y rfl)]
      rfl

theorem endsBefore_of_symbol {y : Lexeme}
    (hadditive : ∀ op, y.symbol = .additive op → task.goal ≠ .expression)
    (hmultiplicative : ∀ op, y.symbol = .multiplicative op → task.goal = .factor) :
    task.EndsBefore ⟨.empty, [], .operator product⟩ y product := by
  have hends : task.EndsBefore ⟨.empty, [], .operator product⟩ y (Level.total .empty product) :=
    .intro hadditive hmultiplicative
  rwa [Level.total_empty] at hends

end Runs

namespace Agrees

variable {l : Lexed} {o : Outcome} {behind behind' : Behind} {xs ys : List Lexeme} {d : Nat}

theorem of_suffix {r : Except Halt Float × Place} (h : l.Agrees behind o ys d r)
    (hys : ys <:+ xs) : l.Agrees behind o xs d r := by
  cases h with
  | value hzs hbehind => exact .value (hzs.trans hys) hbehind
  | failure ho => exact .failure ho

theorem bind {procedure : Descent Float} {next : Float → Descent Float} {p : Place} {d' : Nat}
    (h : l.Agrees behind o ys d' (procedure p))
    (hnext : ∀ v zs, zs <:+ ys → behind o v zs →
      l.Agrees behind' o xs d (next v (l.place zs d'))) :
    l.Agrees behind' o xs d ((procedure >>= next) p) := by
  generalize hr : procedure p = r at h
  cases h with
  | value hzs hbehind =>
      rw [Descent.bind_of_ok hr]
      exact hnext _ _ hzs hbehind
  | failure ho =>
      rw [Descent.bind_of_error hr]
      exact .failure ho

theorem eq_of_behind {r : Except Halt Float × Place} (h : l.Agrees behind o xs d r)
    (hbehind : ∀ v ys, behind o v ys → o = ⟨.ok v, ys, d⟩) :
    r = (o.result.mapError .failure, l.place o.rest o.depth) := by
  cases h with
  | value hys hv =>
      rw [hbehind _ _ hv]
      rfl
  | failure ho =>
      rw [ho]
      rfl

end Agrees

end Lexed

section Procedures

open Descent

variable {line : Text} {l : Lexed} {task : Task} {inner : Descent Float}
  {sum : Option (Float × AddOp)} {level : Level} {groups : List Group} {xs ys : List Lexeme}
  {x : Lexeme} {d : Nat}

def ReadsInside (l : Lexed) (task : Task) (inner : Descent Float) (d : Nat) : Prop :=
  ∀ groups xs, groups ≠ [] → task.depth ⟨.empty, groups, .operand⟩ = d → xs <:+ l.lexemes →
    l.Agrees (l.behindExpression task groups) (l.runFrom task ⟨.empty, groups, .operand⟩ xs) xs d
      (inner (l.place xs d))

theorem endsTerm_of_kind (h : (l.lookahead ys).token.kind ∉ multiplicatives.map Prod.fst) :
    EndsTerm ys := by
  intro y hy op hsymbol
  cases ys with
  | nil => cases hy
  | cons z ys =>
      cases hy
      exact h (kind_mem_multiplicatives_iff.2 ⟨op, congrArg Token.symbol hsymbol⟩)

theorem endsExpression_of_kind (hends : EndsTerm ys)
    (h : (l.lookahead ys).token.kind ∉ additives.map Prod.fst) : EndsExpression ys := by
  refine ⟨hends, ?_⟩
  intro y hy op hsymbol
  cases ys with
  | nil => cases hy
  | cons z ys =>
      cases hy
      exact h (kind_mem_additives_iff.2 ⟨op, congrArg Token.symbol hsymbol⟩)

theorem additive_entry (op : AddOp) :
    Misuse.entry additives (Token.symbol (.additive op)).kind = .ok op.combine := by
  cases op <;> rfl

theorem exists_multiplicative_entry {op : MulOp} {y : Float}
    (h : ¬ ((Token.symbol (.multiplicative op)).kind = .divide ∧ (y == 0) = true)) (x : Float) :
    ∃ apply z, Misuse.entry multiplicatives (Token.symbol (.multiplicative op)).kind = .ok apply ∧
      apply x y = .ok z ∧ op.combine? x y = some z := by
  cases op with
  | times => exact ⟨_, _, rfl, rfl, rfl⟩
  | divide =>
      have hzero : (y == 0) = false := by simpa [Token.kind] using h
      refine ⟨_, _, rfl, Misuse.divide_of_ne_zero hzero, ?_⟩
      rw [MulOp.combine?, hzero]
      rfl

theorem combine?_of_zero {op : MulOp} {x y : Float}
    (h : (Token.symbol (.multiplicative op)).kind = .divide ∧ (y == 0) = true) :
    op.combine? x y = none := by
  obtain ⟨hkind, hzero⟩ := h
  cases op with
  | times => cases hkind
  | divide => rw [MulOp.combine?, if_pos hzero]

theorem closeGroup_agrees (hl : l.Shows line) (hys : ys <:+ l.lexemes)
    (hd : task.depth ⟨level, groups, .operand⟩ = d) (hends : EndsExpression ys) (opened : Nat)
    (v : Float) :
    l.Agrees (l.behindFactor task ⟨level, groups, .operand⟩ opened)
      (l.runFrom task ⟨.empty, ⟨opened, level⟩ :: groups, .operator v⟩ ys) ys d
      (closeGroup line v (l.place ys (d + 1))) := by
  have hdepth : task.depth ⟨.empty, ⟨opened, level⟩ :: groups, .operator v⟩ = d + 1 := by
    rw [← hd]
    rfl
  rw [closeGroup, seen_place]
  cases ys with
  | nil =>
      have hkind : (l.lookahead []).token.kind ≠ .rparen := by
        simp [kind_eq_rparen_iff, Lexed.lookahead]
      rw [if_neg hkind, ← hdepth]
      exact .failure rfl
  | cons y ys =>
      by_cases hy : y.symbol = .rparen
      · have hkind : (l.lookahead (y :: ys)).token.kind = .rparen := by
          simp [kind_eq_rparen_iff, Lexed.lookahead, hy]
        have hstep : task.step ⟨.empty, ⟨opened, level⟩ :: groups, .operator v⟩ y =
            State.complete ⟨level, groups, .operand⟩ v opened := by
          simp [Task.step, State.stepInside, hy, Level.total_empty]
        rw [if_pos hkind, advance_place hl hys, depth_place, setDepth_place,
          Lexed.runFrom_of_complete hstep]
        exact .value (List.suffix_cons y ys) rfl
      · have hkind : (l.lookahead (y :: ys)).token.kind ≠ .rparen := by
          simpa [kind_eq_rparen_iff, Lexed.lookahead] using hy
        rw [if_neg hkind, Lexed.runFrom_of_fail (Lexed.step_of_unclosed hends hy), hdepth]
        exact .failure rfl

theorem factor_group (hl : l.Shows line) (hx : x.symbol = .lparen)
    (hxs : x :: xs <:+ l.lexemes) (hd : task.depth ⟨level, groups, .operand⟩ = d)
    (hlimit : d < task.limit) (hinner : ReadsInside l task inner (d + 1)) :
    l.Agrees (l.behindFactor task ⟨level, groups, .operand⟩ x.start)
      (l.runFrom task ⟨level, groups, .operand⟩ (x :: xs)) (x :: xs) d
      (factor line task.limit inner (l.place (x :: xs) d)) := by
  have hstep : task.step ⟨level, groups, .operand⟩ x =
      .next ⟨.empty, ⟨x.start, level⟩ :: groups, .operand⟩ :=
    Task.next_of_takes (.lparen hx (by omega))
  have hrest : xs <:+ l.lexemes := (List.suffix_cons x xs).trans hxs
  have hdepth : task.depth ⟨.empty, ⟨x.start, level⟩ :: groups, .operand⟩ = d + 1 := by
    rw [← hd]
    rfl
  have hinside := hinner (⟨x.start, level⟩ :: groups) xs (List.cons_ne_nil _ _) hdepth hrest
  have htoken : (l.lookahead (x :: xs)).token = .symbol .lparen := congrArg Token.symbol hx
  rw [Lexed.runFrom_of_next hstep, factor, seen_place]
  simp only [htoken, Token.kind]
  rw [depth_place, if_neg (by omega), setDepth_place, advance_place hl hxs]
  refine hinside.bind fun v ys hys hv => ?_
  obtain ⟨hrun, hends⟩ := hv
  have hclose := closeGroup_agrees hl (hys.trans hrest) hd hends x.start v
  rw [hrun]
  exact hclose.of_suffix (hys.trans (List.suffix_cons x xs))

theorem factor_refused (hl : l.Shows line) (hxs : xs <:+ l.lexemes)
    (hd : task.depth ⟨level, groups, .operand⟩ = d)
    (hnumber : (l.lookahead xs).token.kind ≠ .number)
    (hlparen : (l.lookahead xs).token.kind ≠ .lparen) (start : Nat) :
    l.Agrees (l.behindFactor task ⟨level, groups, .operand⟩ start)
      (l.runFrom task ⟨level, groups, .operand⟩ xs) xs d
      (factor line task.limit inner (l.place xs d)) := by
  rw [factor_of_kind hnumber hlparen, unexpected_place hl hxs]
  refine .failure ?_
  subst hd
  cases xs with
  | nil => rfl
  | cons x xs =>
      have hstep : task.step ⟨level, groups, .operand⟩ x =
          .fail ⟨.unexpectedToken unexpectedOperand, x.start⟩ := by
        cases hx : x.symbol with
        | number v => simp [Lexed.lookahead, hx, Token.kind] at hnumber
        | lparen => simp [Lexed.lookahead, hx, Token.kind] at hlparen
        | rparen => simp only [Task.step, Task.stepOperand, hx]
        | additive op => simp only [Task.step, Task.stepOperand, hx]
        | multiplicative op => simp only [Task.step, Task.stepOperand, hx]
      rw [Lexed.runFrom_of_fail hstep]
      rfl

theorem factor_agrees (hl : l.Shows line) (hxs : xs <:+ l.lexemes)
    (hd : task.depth ⟨level, groups, .operand⟩ = d)
    (hinner : d < task.limit → ReadsInside l task inner (d + 1)) :
    l.Agrees (l.behindFactor task ⟨level, groups, .operand⟩ (l.lookahead xs).start)
      (l.runFrom task ⟨level, groups, .operand⟩ xs) xs d
      (factor line task.limit inner (l.place xs d)) := by
  by_cases hnumber : (l.lookahead xs).token.kind = .number
  · obtain ⟨v, htoken⟩ := kind_eq_number_iff.1 hnumber
    cases xs with
    | nil => cases htoken
    | cons x xs =>
        have hx : x.symbol = .number v := Token.symbol.inj htoken
        rw [factor_number hx hl hxs]
        refine .value (List.suffix_cons x xs) (Lexed.runFrom_of_complete ?_)
        simp only [Task.step, Task.stepOperand, hx]
        rfl
  · by_cases hlparen : (l.lookahead xs).token.kind = .lparen
    · have htoken := kind_eq_lparen_iff.1 hlparen
      cases xs with
      | nil => cases htoken
      | cons x xs =>
          have hx : x.symbol = .lparen := Token.symbol.inj htoken
          by_cases hlimit : d < task.limit
          · exact factor_group hl hx hxs hd hlimit (hinner hlimit)
          · have hdeep : task.limit ≤ task.depth ⟨level, groups, .operand⟩ := by omega
            have hstep : task.step ⟨level, groups, .operand⟩ x =
                .fail ⟨.nestingTooDeep, x.start⟩ := by
              simp only [Task.step, Task.stepOperand, hx, if_pos hdeep]
            rw [factor_deep hx (by omega), Lexed.runFrom_of_fail hstep, hd]
            exact .failure rfl
    · exact factor_refused hl hxs hd hnumber hlparen _

theorem products_agrees {steps : Nat} (hl : l.Shows line) (hadmits : task.Admits groups .term)
    (hd : task.depth ⟨.empty, groups, .operand⟩ = d)
    (hinner : d < task.limit → ReadsInside l task inner (d + 1)) (product : Float)
    (hys : ys <:+ l.lexemes) (hsteps : ys.length < steps) :
    l.Agrees (l.behindTerm task sum groups)
      (l.runFrom task ⟨⟨sum, none⟩, groups, .operator product⟩ ys) ys d
      (products line task.limit inner steps product (l.place ys d)) := by
  induction steps generalizing product ys with
  | zero => cases hsteps
  | succ steps ih =>
      rw [products, seen_place]
      by_cases hmem : (l.lookahead ys).token.kind ∈ multiplicatives.map Prod.fst
      · obtain ⟨op, htoken⟩ := kind_mem_multiplicatives_iff.1 hmem
        cases ys with
        | nil => cases htoken
        | cons y ys =>
            have hy : y.symbol = .multiplicative op := Token.symbol.inj htoken
            have hstep : task.step ⟨⟨sum, none⟩, groups, .operator product⟩ y =
                .next ⟨⟨sum, some (product, op)⟩, groups, .operand⟩ :=
              Task.next_of_takes (.multiplicative hy hadmits)
            have hrest : ys <:+ l.lexemes := (List.suffix_cons y ys).trans hys
            have hdepth : task.depth ⟨⟨sum, some (product, op)⟩, groups, .operand⟩ = d := hd
            rw [if_pos hmem, advance_place hl hys, seen_place, Lexed.runFrom_of_next hstep, htoken]
            refine (factor_agrees hl hrest hdepth hinner).bind fun v zs hzs hv => ?_
            rw [Lexed.behindFactor] at hv
            by_cases hzero : (Token.symbol (.multiplicative op)).kind = .divide ∧ (v == 0) = true
            · rw [Lexed.resume_of_zero (combine?_of_zero hzero), hd] at hv
              rw [if_pos hzero]
              exact .failure hv
            · obtain ⟨apply, product', hentry, happly, hcombine⟩ :=
                exists_multiplicative_entry hzero product
              have hlength := hzs.length_le
              rw [List.length_cons] at hsteps
              rw [Lexed.resume_of_combine hcombine] at hv
              rw [if_neg hzero, hentry, checked_ok_bind, happly, checked_ok_bind, hv]
              exact (ih product' (hzs.trans hrest) (by omega)).of_suffix
                (hzs.trans (List.suffix_cons y ys))
      · rw [if_neg hmem]
        exact .value List.suffix_rfl ⟨rfl, endsTerm_of_kind hmem⟩

theorem term_agrees {steps : Nat} (hl : l.Shows line) (hadmits : task.Admits groups .term)
    (hd : task.depth ⟨.empty, groups, .operand⟩ = d)
    (hinner : d < task.limit → ReadsInside l task inner (d + 1)) (hxs : xs <:+ l.lexemes)
    (hsteps : xs.length < steps) :
    l.Agrees (l.behindTerm task sum groups) (l.runFrom task ⟨⟨sum, none⟩, groups, .operand⟩ xs) xs d
      (term line task.limit inner steps (l.place xs d)) := by
  have hdepth : task.depth ⟨⟨sum, none⟩, groups, .operand⟩ = d := hd
  refine (factor_agrees hl hxs hdepth hinner).bind fun v ys hys hv => ?_
  have hrun : l.runFrom task ⟨⟨sum, none⟩, groups, .operand⟩ xs =
      l.runFrom task ⟨⟨sum, none⟩, groups, .operator v⟩ ys := hv
  have hlength := hys.length_le
  rw [hrun]
  exact (products_agrees hl hadmits hd hinner v (hys.trans hxs) (by omega)).of_suffix hys

theorem sums_agrees {steps termSteps : Nat} (hl : l.Shows line)
    (hadmits : task.Admits groups .expression) (hd : task.depth ⟨.empty, groups, .operand⟩ = d)
    (hinner : d < task.limit → ReadsInside l task inner (d + 1)) (total : Float)
    (hys : ys <:+ l.lexemes) (hends : EndsTerm ys) (hsteps : ys.length < steps)
    (hterm : ys.length < termSteps) :
    l.Agrees (l.behindExpression task groups)
      (l.runFrom task ⟨.empty, groups, .operator total⟩ ys) ys d
      (sums line task.limit inner termSteps steps total (l.place ys d)) := by
  induction steps generalizing total ys with
  | zero => cases hsteps
  | succ steps ih =>
      rw [sums, seen_place]
      by_cases hmem : (l.lookahead ys).token.kind ∈ additives.map Prod.fst
      · obtain ⟨op, htoken⟩ := kind_mem_additives_iff.1 hmem
        cases ys with
        | nil => cases htoken
        | cons y ys =>
            have hy : y.symbol = .additive op := Token.symbol.inj htoken
            have hstep : task.step ⟨.empty, groups, .operator total⟩ y =
                .next ⟨⟨some (total, op), none⟩, groups, .operand⟩ :=
              Task.next_of_takes (.additive hy hadmits)
            have hrest : ys <:+ l.lexemes := (List.suffix_cons y ys).trans hys
            rw [List.length_cons] at hsteps hterm
            rw [if_pos hmem, htoken, additive_entry, checked_ok_bind, advance_place hl hys,
              Lexed.runFrom_of_next hstep]
            refine (term_agrees hl hadmits.term hd hinner hrest (by omega)).bind
              fun v zs hzs hv => ?_
            obtain ⟨hrun, hends'⟩ := hv
            have hlength := hzs.length_le
            rw [hrun, Lexed.runFrom_of_endsTerm hends']
            exact (ih (op.combine total v) (hzs.trans hrest) hends' (by omega) (by omega)).of_suffix
              (hzs.trans (List.suffix_cons y ys))
      · rw [if_neg hmem]
        exact .value List.suffix_rfl ⟨rfl, endsExpression_of_kind hends hmem⟩

theorem expression_agrees {steps nest : Nat} (hl : l.Shows line)
    (hsteps : l.lexemes.length < steps) (hadmits : task.Admits groups .expression)
    (hd : task.depth ⟨.empty, groups, .operand⟩ = d) (hnest : max (task.limit - d) 0 < nest)
    (hxs : xs <:+ l.lexemes) :
    l.Agrees (l.behindExpression task groups) (l.runFrom task ⟨.empty, groups, .operand⟩ xs) xs d
      (expression line task.limit steps nest (l.place xs d)) := by
  induction nest generalizing groups xs d with
  | zero => omega
  | succ nest ih =>
      have hinner : d < task.limit →
          ReadsInside l task (expression line task.limit steps nest) (d + 1) := by
        intro hlimit groups' ys hgroups hd' hys
        have hinside : task.Admits groups' .expression := fun h => absurd h hgroups
        exact ih hinside hd' (by omega) hys
      have hlength := hxs.length_le
      rw [expression]
      refine (term_agrees hl hadmits.term hd hinner hxs (by omega)).bind fun v ys hys hv => ?_
      obtain ⟨hrun, hends⟩ := hv
      have hlength' := hys.length_le
      rw [hrun]
      exact (sums_agrees hl hadmits hd hinner v (hys.trans hxs) hends (by omega)
        (by omega)).of_suffix hys

theorem read_eq (task : Task) {steps nest : Nat} (hl : l.Shows line)
    (hsteps : l.lexemes.length < steps) (hnest : max (task.limit - task.outer) 0 < nest)
    (hxs : xs <:+ l.lexemes) :
    Descent.read line task.limit nest steps task.goal (l.place xs task.outer) =
      ((l.read task xs).result.mapError .failure,
        l.place (l.read task xs).rest (l.read task xs).depth) := by
  have hlength := hxs.length_le
  have houter : task.depth ⟨.empty, [], .operand⟩ = task.outer := rfl
  have hinner : task.outer < task.limit →
      ReadsInside l task (expression line task.limit steps nest) (task.outer + 1) := by
    intro hlimit groups ys hgroups hd hys
    exact expression_agrees hl hsteps (fun h => absurd h hgroups) hd (by omega) hys
  cases hgoal : task.goal with
  | expression =>
      have hadmits : task.Admits [] .expression := fun _ => hgoal
      apply (expression_agrees hl hsteps hadmits houter hnest hxs).eq_of_behind
      rintro v ys ⟨hrun, hterm, hadditive⟩
      refine hrun.trans (Lexed.runFrom_of_endsBefore fun y hy => ?_)
      exact Lexed.endsBefore_of_symbol (fun op h => absurd h (hadditive y hy op))
        fun op h => absurd h (hterm y hy op)
  | term =>
      have hadmits : task.Admits [] .term := fun _ h => by simp [hgoal] at h
      apply (term_agrees hl hadmits houter hinner hxs (by omega)).eq_of_behind
      rintro v ys ⟨hrun, hterm⟩
      refine hrun.trans (Lexed.runFrom_of_endsBefore fun y hy => ?_)
      exact Lexed.endsBefore_of_symbol (fun _ _ h => by simp [hgoal] at h)
        fun op h => absurd h (hterm y hy op)
  | factor =>
      apply (factor_agrees hl hxs houter hinner).eq_of_behind
      intro v ys hrun
      refine hrun.trans (Lexed.runFrom_of_endsBefore fun y _ => ?_)
      exact Lexed.endsBefore_of_symbol (fun _ _ h => by simp [hgoal] at h) fun _ _ => hgoal

end Procedures

theorem Place.Coherent.place_eq {line : Text} {p : Place} (hp : p.Coherent line) :
    (Lexed.fromOffset line p.seen.start).place (Lexed.fromOffset line p.seen.start).lexemes
      p.depth = p := by
  have hseen := (Lexed.lookahead_fromOffset hp.start_le).trans hp
  rw [Lexed.place, hseen]

theorem Place.Coherent.read_eq {line : Text} {limit : Int} {nest steps : Nat} {p : Place}
    (hp : p.Coherent line) (hnest : max (limit - p.depth) 0 < nest) (hsteps : line.length < steps)
    (goal : Goal) :
    let l := Lexed.fromOffset line p.seen.start
    let o := l.read ⟨goal, limit, p.depth⟩ l.lexemes
    Descent.read line limit nest steps goal p =
      (o.result.mapError .failure, l.place o.rest o.depth) := by
  intro l o
  have hlength : l.lexemes.length < steps := by
    have hle := Lexed.length_lexemes_ofText p.seen.start (line.drop p.seen.start)
    rw [List.length_drop] at hle
    have hl : l.lexemes.length ≤ line.length - p.seen.start := hle
    omega
  rw [← hp.place_eq]
  exact LineCalculator.read_eq ⟨goal, limit, p.depth⟩ (Lexed.shows_fromOffset hp.start_le) hlength
    hnest List.suffix_rfl

open Descent in
theorem Descent.evaluate_eq {line : Text} {l : Lexed} {limit : Int} {nest steps : Nat}
    (hl : l = .ofLine line) (hnest : max limit 0 < nest) (hsteps : line.length < steps)
    (p : Place) :
    Descent.evaluate line limit nest steps p =
      ((l.evaluate limit).result.mapError .failure,
        l.place (l.evaluate limit).rest (l.evaluate limit).depth) := by
  have hshows : l.Shows line := by
    rw [hl]
    exact Lexed.shows_ofLine line
  have hlength : l.lexemes.length < steps := by
    rw [hl]
    exact Nat.lt_of_le_of_lt (Lexed.length_lexemes_ofText 0 line) hsteps
  have hread : Descent.read line limit nest steps .expression (l.place l.lexemes 0) = _ :=
    read_eq ⟨.expression, limit, 0⟩ hshows hlength (by simpa using hnest) List.suffix_rfl
  have hsuffix : (l.read ⟨.expression, limit, 0⟩ l.lexemes).rest <:+ l.lexemes :=
    Task.rest_suffix_run ..
  have hfirst : advance line ⟨{ p.seen with stop := 0 }, 0⟩ = (.ok (), l.place l.lexemes 0) := by
    have hscan : l.lookahead l.lexemes = scan line 0 := by
      rw [hl]
      exact Lexed.lookahead_fromOffset (Nat.zero_le line.length)
    rw [advance_eq, Lexed.place, hscan]
    rfl
  have hbegun : Descent.evaluate line limit nest steps p =
      (Descent.read line limit nest steps .expression >>= fun v => seen >>= fun s =>
        if s.token.kind = .endOfLine then pure v else unexpected line Lexed.unexpectedRest)
        (l.place l.lexemes 0) :=
    bind_of_ok hfirst
  rw [hbegun]
  rcases ho : l.read ⟨.expression, limit, 0⟩ l.lexemes with ⟨result, rest, depth⟩
  rw [ho] at hread hsuffix
  simp only [Lexed.evaluate, ho]
  cases result with
  | error f => exact bind_of_error hread
  | ok v =>
      rw [bind_of_ok hread, seen_place]
      by_cases hend : (l.lookahead rest).token = .ending .endOfLine
      · rw [if_pos (kind_eq_endOfLine_iff.2 hend)]
        simp only [if_pos hend]
        rfl
      · rw [if_neg (mt kind_eq_endOfLine_iff.1 hend), unexpected_place hshows hsuffix]
        simp only [if_neg hend]
        rfl

end LineCalculator
