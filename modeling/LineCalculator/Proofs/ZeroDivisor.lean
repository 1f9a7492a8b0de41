import LineCalculator.Proofs.Ends
import LineCalculator.Proofs.PhraseRun

namespace LineCalculator

def Viable (limit : Int) (ts : List Symbol) : Prop :=
  NestedWithin (max limit 0) ts ∧ ∃ rest, ∃ e : Phrase .expression, e.symbols = ts ++ rest

def EndsInZeroDivisor (xs : List Lexeme) (start : Nat) : Prop :=
  ∃ front slash first more, ∃ f : Phrase .factor, ∃ v,
    xs = front ++ slash :: first :: more ∧ slash.symbol = .multiplicative .divide ∧
    f.symbols = (first :: more).map Lexeme.symbol ∧ f.value? = some v ∧ (v == 0) = true ∧
    first.start = start

def MeetsZeroDivisor (limit : Int) (xs : List Lexeme) (start : Nat) : Prop :=
  EndsInZeroDivisor xs start ∧ Viable limit (xs.map Lexeme.symbol)

def Lexed.FirstZeroDivisor (l : Lexed) (limit : Int) (xs : List Lexeme) (start : Nat) : Prop :=
  xs <+: l.lexemes ∧ MeetsZeroDivisor limit xs start ∧
    ∀ ys q, ys <+: l.lexemes → MeetsZeroDivisor limit ys q → xs.length ≤ ys.length

variable {limit : Int} {xs ys : List Lexeme} {q p : Nat} {s s' : State} {x : Lexeme}

theorem EndsInZeroDivisor.unique (h : EndsInZeroDivisor xs q) (h' : EndsInZeroDivisor xs p) :
    q = p := by
  obtain ⟨front, slash, first, more, f, v, rfl, hslash, hf, -, -, rfl⟩ := h
  obtain ⟨front', slash', first', more', f', v', hxs, hslash', hf', -, -, rfl⟩ := h'
  have hsymbols : (front ++ [slash]).map Lexeme.symbol ++ f.symbols =
      (front' ++ [slash']).map Lexeme.symbol ++ f'.symbols := by
    rw [hf, hf', ← List.map_append, ← List.map_append]
    simpa using congrArg (List.map Lexeme.symbol) hxs
  obtain ⟨-, hfront⟩ := Phrase.factor_unique hsymbols
  have hlength : front.length = front'.length := by
    simpa using congrArg List.length hfront
  have hrest := (List.append_inj hxs hlength).2
  simp only [List.cons.injEq] at hrest
  rw [hrest.2.1]

theorem Viable.advances {ts : List Symbol} (h : Viable limit ts) :
    ∃ c, Counter.advance? limit .start ts = some c := by
  obtain ⟨hn, rest, e, he⟩ := h
  have hall := Counter.advance?_expression (nestedWithin_max_length e.symbols)
  rw [he, Counter.advance?_append] at hall
  obtain ⟨c, hc, -⟩ := Option.bind_eq_some_iff.1 hall
  exact ⟨c, Counter.advance?_start_of_limit hc hn⟩

theorem meets_of_dividesByZero (h : (Task.whole limit).Passes .initial xs s)
    (hx : Task.DividesByZero s x q s') : MeetsZeroDivisor limit (xs ++ [x]) q := by
  have hread := State.HasRead.initial.passes h
  have hnested : NestedWithin (max limit 0) ((xs ++ [x]).map Lexeme.symbol) := by
    obtain ⟨c, hc⟩ := counter_of_dividesByZero limit hx
    have hadvance : Counter.advance? limit .start ((xs ++ [x]).map Lexeme.symbol) = some c := by
      rw [List.map_append, Counter.advance?_append, h.advances]
      exact Counter.advance?_cons_of_next hc
    exact Counter.nestedWithin_of_advance?_start hadvance
  rw [List.nil_append] at hread
  cases hx with
  | @number level groups x v hx hp =>
      obtain ⟨hzero, front, slash, rfl, hslash⟩ := hread.divides hp
      obtain ⟨e, he⟩ := hread.exists_closed_factor (.number v)
      refine ⟨⟨front, slash, x, [], .number v, v, by simp, hslash, by simp [Phrase.symbols, hx], rfl,
        hzero, rfl⟩, hnested, List.replicate groups.length .rparen, e, ?_⟩
      rw [he, List.map_append, List.append_assoc]
      simp [Phrase.symbols, hx]
  | @rparen level g gs product x hx hp =>
      obtain ⟨outside, opening, inner, e, rfl, houtside, hstart, hv, hs⟩ := hread.exists_group hx
      obtain ⟨hzero, front, slash, rfl, hslash⟩ := houtside.divides hp
      obtain ⟨e', he'⟩ := houtside.exists_closed_factor (.group e)
      refine ⟨⟨front, slash, opening, inner ++ [x], .group e, _, by simp, hslash, hs, hv, hzero,
        hstart⟩, hnested, List.replicate gs.length .rparen, e', ?_⟩
      rw [he', hs]
      simp

theorem awaits_of_multiplicative {task : Task} {op : MulOp} (h : task.step s x = .next s')
    (hx : x.symbol = .multiplicative op) :
    ∃ sum a groups, s' = ⟨⟨sum, some (a, op)⟩, groups, .operand⟩ := by
  cases Task.takes_of_next h with
  | number hx' _ => simp [hx] at hx'
  | lparen hx' _ => simp [hx] at hx'
  | additive hx' _ => simp [hx] at hx'
  | rparen hx' _ => simp [hx] at hx'
  | multiplicative hx' _ =>
      rw [hx] at hx'
      cases hx'
      exact ⟨_, _, _, rfl⟩

theorem not_passes_zero {f : Phrase .factor} {v a : Float} {sum : Option (Float × AddOp)}
    {groups : List Group} (hf : f.symbols = xs.map Lexeme.symbol) (hv : f.value? = some v)
    (hzero : (v == 0) = true) (hn : NestedWithin (max limit 0 - groups.length) f.symbols) :
    ¬ (Task.whole limit).Passes ⟨⟨sum, some (a, .divide)⟩, groups, .operand⟩ xs s := by
  intro hpasses
  have hreads : (Task.whole limit).ReadsPhrase ⟨sum, some (a, .divide)⟩ groups xs v .factor :=
    Task.reads_phrase f hv hf.symm trivial trivial (by simpa [Task.depth] using hn)
  obtain ⟨front, last, s', start, rfl, hfront, hlast⟩ := hreads.completes
  obtain ⟨s'', hfront', hstep⟩ := hpasses.exists_of_append
  rw [hfront'.unique hfront] at hstep
  cases hstep with
  | cons hnext _ =>
      have hnone : Level.multiply? ⟨sum, some (a, .divide)⟩ v = none := by
        simp [Level.multiply?, MulOp.combine?, hzero]
      rw [hlast, Task.complete_eq] at hnext
      simp [hnone] at hnext

theorem not_passes_of_ends (h : EndsInZeroDivisor xs q) :
    ¬ (Task.whole limit).Passes .initial xs s := by
  obtain ⟨front, slash, first, more, f, v, rfl, hslash, hf, hv, hzero, -⟩ := h
  intro hpasses
  have hsplit : front ++ slash :: first :: more = (front ++ [slash]) ++ first :: more := by simp
  rw [hsplit] at hpasses
  have hnested := hpasses.nestedWithin
  rw [List.map_append, nestedWithin_append] at hnested
  obtain ⟨s', hbefore, hfactor⟩ := hpasses.exists_of_append
  have hcount := (State.HasRead.initial.passes hbefore).openCount
  -- The sign of division was taken, so a divisor is waited for when the factor starts.
  obtain ⟨s'', -, hstep⟩ := hbefore.exists_of_append
  cases hstep with
  | cons hnext hnil =>
      cases hnil
      obtain ⟨sum, a, groups, rfl⟩ := awaits_of_multiplicative hnext hslash
      have hroom : NestedWithin (max limit 0 - groups.length) f.symbols := by
        rw [hf, ← hcount]
        exact hnested.2
      exact not_passes_zero hf hv hzero hroom hfactor

theorem exists_meets_of_viable (h : Viable limit (xs.map Lexeme.symbol)) :
    (∃ s, (Task.whole limit).Passes .initial xs s) ∨
      ∃ front x back s s' q, xs = front ++ x :: back ∧
        (Task.whole limit).Passes .initial front s ∧ Task.DividesByZero s x q s' := by
  rcases Task.passes_or_stops (Task.whole limit) .initial xs with
    hall | ⟨front, x, back, s, rfl, hfront, hx⟩
  · exact Or.inl hall
  · obtain ⟨c, hc⟩ := h.advances
    rw [List.map_append, Counter.advance?_append, hfront.advances, List.map_cons,
      Option.bind_some, Counter.advance?] at hc
    cases hs : (Task.whole limit).step s x with
    | next s' => exact absurd hs (hx s')
    | done v => simp [counter_of_done hs] at hc
    | fail f => simp [(counter_of_fail hs).1] at hc
    | failPast f s' =>
        obtain ⟨q, -, hq⟩ := Task.dividesByZero_of_failPast hs
        exact Or.inr ⟨front, x, back, s, s', q, rfl, hfront, hq⟩

namespace Lexed

variable {l : Lexed}

theorem result_of_dividesByZero {front back : List Lexeme} (hl : l.lexemes = front ++ x :: back)
    (h : (Task.whole limit).Passes .initial front s) (hx : Task.DividesByZero s x q s') :
    (l.evaluate limit).result = .error ⟨.divisionByZero, q⟩ := by
  have hread : (l.read (.whole limit) l.lexemes).result = .error ⟨.divisionByZero, q⟩ := by
    rw [read, hl, h.run_append, Task.run, Task.failPast_of_dividesByZero hx]
  exact result_of_error hread

theorem firstZeroDivisor_of_dividesByZero {front back : List Lexeme}
    (hl : l.lexemes = front ++ x :: back) (h : (Task.whole limit).Passes .initial front s)
    (hx : Task.DividesByZero s x q s') : l.FirstZeroDivisor limit (front ++ [x]) q := by
  refine ⟨⟨back, by simp [hl]⟩, meets_of_dividesByZero h hx, ?_⟩
  intro ys p hys hp
  apply Nat.le_of_not_lt
  intro hshort
  have hbegins : ys <+: front := by
    have hfront : front <+: l.lexemes := ⟨x :: back, hl.symm⟩
    apply List.prefix_of_prefix_length_le hys hfront
    simp only [List.length_append, List.length_singleton] at hshort
    omega
  obtain ⟨rest, rfl⟩ := hbegins
  obtain ⟨s'', hys', -⟩ := h.exists_of_append
  exact not_passes_of_ends hp.1 hys'

theorem exists_dividesByZero_of_meets (hxs : xs <+: l.lexemes) (h : MeetsZeroDivisor limit xs q) :
    ∃ front x back s s' p, l.lexemes = front ++ x :: back ∧
      (Task.whole limit).Passes .initial front s ∧ Task.DividesByZero s x p s' := by
  obtain ⟨rest, hrest⟩ := hxs
  rcases exists_meets_of_viable h.2 with ⟨s, hs⟩ | ⟨front, x, back, s, s', p, rfl, hfront, hx⟩
  · exact absurd hs (not_passes_of_ends h.1)
  · exact ⟨front, x, back ++ rest, s, s', p, by simp [← hrest], hfront, hx⟩

theorem FirstZeroDivisor.unique (h : l.FirstZeroDivisor limit xs q)
    (h' : l.FirstZeroDivisor limit ys p) : xs = ys ∧ q = p := by
  obtain ⟨hxs, hmeets, hleast⟩ := h
  obtain ⟨hys, hmeets', hleast'⟩ := h'
  have hlength : xs.length = ys.length :=
    Nat.le_antisymm (hleast ys p hys hmeets') (hleast' xs q hxs hmeets)
  have hsame : xs = ys :=
    (List.prefix_of_prefix_length_le hxs hys (Nat.le_of_eq hlength)).eq_of_length hlength
  subst hsame
  exact ⟨rfl, hmeets.1.unique hmeets'.1⟩

theorem exists_firstZeroDivisor (hxs : xs <+: l.lexemes) (h : MeetsZeroDivisor limit xs q) :
    ∃ ys p, l.FirstZeroDivisor limit ys p ∧
      (l.evaluate limit).result = .error ⟨.divisionByZero, p⟩ := by
  obtain ⟨front, x, back, s, s', p, hl, hfront, hx⟩ := exists_dividesByZero_of_meets hxs h
  exact ⟨front ++ [x], p, firstZeroDivisor_of_dividesByZero hl hfront hx,
    result_of_dividesByZero hl hfront hx⟩

theorem result_divisionByZero_iff :
    (l.evaluate limit).result = .error ⟨.divisionByZero, q⟩ ↔
      ∃ xs, l.FirstZeroDivisor limit xs q := by
  constructor
  · intro h
    have hends := l.ends_evaluate limit
    rw [h] at hends
    cases hends with
    | zeroDivisor hl hfront hx => exact ⟨_, firstZeroDivisor_of_dividesByZero hl hfront hx⟩
    | refused _ _ _ hstep _ => exact absurd hstep (Counter.not_fail_divisionByZero _ _ _ _)
  · rintro ⟨xs, hfirst⟩
    obtain ⟨ys, p, hfirst', hresult⟩ := exists_firstZeroDivisor hfirst.1 hfirst.2.1
    rw [hresult, (hfirst.unique hfirst').2]

theorem FirstZeroDivisor.of_prefix {l' : Lexed} (h : l.FirstZeroDivisor limit xs q)
    (hxs : xs <+: l'.lexemes) : l'.FirstZeroDivisor limit xs q := by
  obtain ⟨hbegins, hmeets, hleast⟩ := h
  refine ⟨hxs, hmeets, ?_⟩
  intro ys p hys hp
  rcases Nat.le_total xs.length ys.length with hle | hle
  · exact hle
  · exact hleast ys p ((List.prefix_of_prefix_length_le hys hxs hle).trans hbegins) hp

theorem divides_by_zero_iff_first_zero_divisor (line : Text) (limit : Int) :
    ((∃ q, ((ofLine line).evaluate limit).result = .error ⟨.divisionByZero, q⟩) ↔
      ∃ xs q, xs <+: (ofLine line).lexemes ∧ MeetsZeroDivisor limit xs q) ∧
    (∀ q, ((ofLine line).evaluate limit).result = .error ⟨.divisionByZero, q⟩ ↔
      ∃ xs, (ofLine line).FirstZeroDivisor limit xs q) ∧
    ∀ xs q line', (ofLine line).FirstZeroDivisor limit xs q → xs <+: (ofLine line').lexemes →
      ((ofLine line').evaluate limit).result = .error ⟨.divisionByZero, q⟩ := by
  refine ⟨⟨?_, ?_⟩, fun q => result_divisionByZero_iff, ?_⟩
  · rintro ⟨q, h⟩
    obtain ⟨xs, hbegins, hmeets, -⟩ := result_divisionByZero_iff.1 h
    exact ⟨xs, q, hbegins, hmeets⟩
  · rintro ⟨xs, q, hbegins, hmeets⟩
    obtain ⟨-, p, -, hresult⟩ := exists_firstZeroDivisor hbegins hmeets
    exact ⟨p, hresult⟩
  · intro xs q line' hfirst hbegins
    exact result_divisionByZero_iff.2 ⟨xs, hfirst.of_prefix hbegins⟩

end Lexed

end LineCalculator
