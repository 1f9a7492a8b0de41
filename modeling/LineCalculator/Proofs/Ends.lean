import LineCalculator.Proofs.Counter
import LineCalculator.Proofs.HasRead

namespace LineCalculator

abbrev Task.whole (limit : Int) : Task :=
  ⟨.expression, limit, 0⟩

def State.counter (s : State) : Counter :=
  match s.mode with
  | .operand => ⟨.operand, s.groups.length⟩
  | .operator _ => ⟨.operator, s.groups.length⟩

section Steps

variable {limit : Int} {s s' : State} {x : Lexeme}

theorem counter_of_takes (h : (Task.whole limit).Takes s x s') :
    s.counter.step limit (.symbol x.symbol) = .next s'.counter := by
  cases h with
  | number hx _ => simp [State.counter, Counter.step, hx]
  | lparen hx hlimit =>
      simp only [Task.depth, Nat.zero_add] at hlimit
      simp [State.counter, Counter.step, hx, hlimit]
  | @additive level groups product x op hx _ =>
      cases groups <;> simp [State.counter, Counter.step, hx]
  | @multiplicative level groups product x op hx _ =>
      cases groups <;> simp [State.counter, Counter.step, hx]
  | rparen hx _ => simp [State.counter, Counter.step, hx]

theorem counter_of_dividesByZero (limit : Int) {q : Nat} (h : Task.DividesByZero s x q s') :
    ∃ c, s.counter.step limit (.symbol x.symbol) = .next c := by
  cases h with
  | number hx _ => exact ⟨_, by simp only [State.counter, Counter.step, hx]; rfl⟩
  | rparen hx _ => exact ⟨_, by simp only [State.counter, List.length_cons, Counter.step, hx]; rfl⟩

theorem counter_of_fail {f : Failure} (h : (Task.whole limit).step s x = .fail f) :
    s.counter.step limit (.symbol x.symbol) = .fail f.cause.category f.message ∧
      f.position = x.start := by
  cases Task.refuses_of_fail h with
  | operand hnumber hlparen =>
      refine ⟨?_, rfl⟩
      cases hs : x.symbol with
      | number v => exact absurd hs (hnumber v)
      | lparen => exact absurd hs hlparen
      | additive op => rfl
      | multiplicative op => rfl
      | rparen => rfl
  | @deep level groups x hx hlimit =>
      simp only [Task.depth, Nat.zero_add] at hlimit
      have hd : ¬ (groups.length : Int) < limit := by omega
      refine ⟨?_, rfl⟩
      simp only [State.counter, hx, Counter.step, if_neg hd]
      rfl
  | unclosed hadditive hmultiplicative hrparen =>
      refine ⟨?_, rfl⟩
      cases hs : x.symbol with
      | number v => rfl
      | lparen => rfl
      | additive op => exact absurd hs (hadditive op)
      | multiplicative op => exact absurd hs (hmultiplicative op)
      | rparen => exact absurd hs hrparen

theorem counter_of_done {v : Float} (h : (Task.whole limit).step s x = .done v) :
    s.counter.step limit (.symbol x.symbol) =
      .fail .unexpectedToken "Unexpected token after expression".toList := by
  cases Task.endsBefore_of_done h with
  | intro hadditive hmultiplicative =>
      cases hs : x.symbol with
      | number v => rfl
      | lparen => rfl
      | rparen => rfl
      | additive op => exact absurd rfl (hadditive op hs)
      | multiplicative op => cases hmultiplicative op hs

theorem counter_of_finish (limit : Int) {ending : Ending} {offset : Nat} {f : Failure}
    (h : s.finish ending offset = .error f) :
    s.counter.step limit (.ending ending) = .fail f.cause.category f.message ∧
      f.position = offset := by
  obtain ⟨level, groups, mode⟩ := s
  cases mode with
  | operand =>
      cases h
      cases ending <;> exact ⟨rfl, rfl⟩
  | operator product =>
      cases groups with
      | nil => cases h
      | cons g gs =>
          cases h
          exact ⟨rfl, rfl⟩

theorem finish_ok {ending : Ending} {offset : Nat} {v : Float}
    (h : s.finish ending offset = .ok v) :
    ∃ level product, s = ⟨level, [], .operator product⟩ ∧ v = level.total product := by
  obtain ⟨level, groups, mode⟩ := s
  cases mode with
  | operand => cases h
  | operator product =>
      cases groups with
      | nil =>
          cases h
          exact ⟨level, product, rfl, rfl⟩
      | cons g gs => cases h

end Steps

theorem Task.Passes.counter {limit : Int} {s s' : State} {xs : List Lexeme}
    (h : (Task.whole limit).Passes s xs s') :
    Counter.advance? limit s.counter (xs.map Lexeme.symbol) = some s'.counter := by
  induction h with
  | nil s => rfl
  | cons hx _ ih =>
      rw [List.map_cons, Counter.advance?_cons_of_next (counter_of_takes (takes_of_next hx)), ih]

theorem Task.Passes.advances {limit : Int} {s : State} {xs : List Lexeme}
    (h : (Task.whole limit).Passes .initial xs s) :
    Counter.advance? limit .start (xs.map Lexeme.symbol) = some s.counter :=
  h.counter

theorem Task.Passes.nestedWithin {limit : Int} {s : State} {xs : List Lexeme}
    (h : (Task.whole limit).Passes .initial xs s) :
    NestedWithin (max limit 0) (xs.map Lexeme.symbol) :=
  Counter.nestedWithin_of_advance?_start h.advances

namespace Lexed

inductive Ends (l : Lexed) (limit : Int) : Except Failure Float → Prop
  | value {level : Level} {product : Float} :
      (Task.whole limit).Passes .initial l.lexemes ⟨level, [], .operator product⟩ →
      l.ending = .endOfLine → Ends l limit (.ok (level.total product))
  | zeroDivisor {front back : List Lexeme} {x : Lexeme} {s s' : State} {q : Nat} :
      l.lexemes = front ++ x :: back → (Task.whole limit).Passes .initial front s →
      Task.DividesByZero s x q s' → Ends l limit (.error ⟨.divisionByZero, q⟩)
  | refused {front : List Lexeme} {t : Scanned} {back : List Scanned} {s : State} {f : Failure} :
      l.scanned = front.map Lexeme.scanned ++ t :: back → front <+: l.lexemes →
      (Task.whole limit).Passes .initial front s →
      s.counter.step limit t.token = .fail f.cause.category f.message → f.position = t.start →
      Ends l limit (.error f)

variable {l : Lexed} {limit : Int}

theorem result_of_error {f : Failure} (h : (l.read (.whole limit) l.lexemes).result = .error f) :
    (l.evaluate limit).result = .error f := by
  rw [evaluate_of_error h, h]

theorem result_of_end {v : Float} (h : (l.read (.whole limit) l.lexemes).result = .ok v)
    (hend : (l.lookahead (l.read (.whole limit) l.lexemes).rest).token = .ending .endOfLine) :
    (l.evaluate limit).result = .ok v := by
  simp only [evaluate, h, if_pos hend]

theorem result_of_rest {v : Float} (h : (l.read (.whole limit) l.lexemes).result = .ok v)
    (hrest : (l.lookahead (l.read (.whole limit) l.lexemes).rest).token ≠ .ending .endOfLine) :
    (l.evaluate limit).result =
      .error (l.unexpected (l.read (.whole limit) l.lexemes).rest unexpectedRest) := by
  simp only [evaluate, h, if_neg hrest]

theorem read_of_passes {s : State} (h : (Task.whole limit).Passes .initial l.lexemes s) :
    l.read (.whole limit) l.lexemes =
      ⟨s.finish l.ending l.offset, [], (Task.whole limit).depth s⟩ := by
  have hrun := h.run_append l.ending l.offset []
  rwa [List.append_nil] at hrun

theorem lookahead_of_passes {s : State} (h : (Task.whole limit).Passes .initial l.lexemes s) :
    l.lookahead (l.read (.whole limit) l.lexemes).rest = ⟨.ending l.ending, l.offset, l.offset⟩ := by
  rw [read_of_passes h]
  rfl

theorem result_of_accepts {level : Level} {product : Float}
    (h : (Task.whole limit).Passes .initial l.lexemes ⟨level, [], .operator product⟩)
    (he : l.ending = .endOfLine) : (l.evaluate limit).result = .ok (level.total product) := by
  have hok : (l.read (.whole limit) l.lexemes).result = .ok (level.total product) := by
    rw [read_of_passes h]
    rfl
  exact result_of_end hok (by rw [lookahead_of_passes h, he])

theorem ends_of_passes {s : State} (h : (Task.whole limit).Passes .initial l.lexemes s) :
    l.Ends limit (l.evaluate limit).result := by
  have hscanned : l.scanned = l.lexemes.map Lexeme.scanned ++
      ⟨.ending l.ending, l.offset, l.offset⟩ :: [] := rfl
  have hread := congrArg Outcome.result (read_of_passes h)
  cases hf : s.finish l.ending l.offset with
  | error f =>
      obtain ⟨hstep, hposition⟩ := counter_of_finish limit hf
      rw [result_of_error (hread.trans hf)]
      exact .refused hscanned List.prefix_rfl h hstep hposition
  | ok v =>
      obtain ⟨level, product, rfl, rfl⟩ := finish_ok hf
      cases he : l.ending with
      | endOfLine =>
          rw [result_of_accepts h he]
          exact .value h he
      | invalid c =>
          have hseen := lookahead_of_passes h
          rw [result_of_rest (hread.trans hf) (by simp [hseen, he]), unexpected, hseen, he]
          rw [he] at hscanned
          exact .refused hscanned List.prefix_rfl h rfl rfl

theorem ends_of_stops {front back : List Lexeme} {x : Lexeme} {s : State}
    (hl : l.lexemes = front ++ x :: back) (h : (Task.whole limit).Passes .initial front s)
    (hx : ∀ s', (Task.whole limit).step s x ≠ .next s') :
    l.Ends limit (l.evaluate limit).result := by
  have hread : l.read (.whole limit) l.lexemes =
      (Task.whole limit).run l.ending l.offset s (x :: back) := by
    rw [read, hl, h.run_append]
  have hscanned : l.scanned = front.map Lexeme.scanned ++
      x.scanned :: (back.map Lexeme.scanned ++ [⟨.ending l.ending, l.offset, l.offset⟩]) := by
    simp [scanned, hl]
  have hbegins : front <+: l.lexemes := ⟨x :: back, hl.symm⟩
  cases hs : (Task.whole limit).step s x with
  | next s' => exact absurd hs (hx s')
  | done v =>
      simp only [Task.run, hs] at hread
      have hseen : l.lookahead (l.read (.whole limit) l.lexemes).rest = x.scanned := by
        rw [hread]
        rfl
      rw [result_of_rest (by rw [hread]) (by simp [hseen, Lexeme.scanned]), unexpected, hseen]
      exact .refused hscanned hbegins h (counter_of_done hs) rfl
  | fail f =>
      simp only [Task.run, hs] at hread
      rw [result_of_error (by rw [hread])]
      obtain ⟨hstep, hposition⟩ := counter_of_fail hs
      exact .refused hscanned hbegins h hstep hposition
  | failPast f s' =>
      simp only [Task.run, hs] at hread
      rw [result_of_error (by rw [hread])]
      obtain ⟨q, rfl, hq⟩ := Task.dividesByZero_of_failPast hs
      exact .zeroDivisor hl h hq

theorem ends_evaluate (l : Lexed) (limit : Int) : l.Ends limit (l.evaluate limit).result := by
  rcases Task.passes_or_stops (Task.whole limit) .initial l.lexemes with
    ⟨s, h⟩ | ⟨front, x, back, s, hl, h, hx⟩
  · exact ends_of_passes h
  · exact ends_of_stops hl h hx

end Lexed

end LineCalculator
